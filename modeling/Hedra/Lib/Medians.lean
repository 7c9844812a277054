/-
# Medians and priority queues

The median of a list is the middle of its sorted order, or half the way between the two in the
middle.  Where the list is split into a lower and an upper half, these are the greatest of the one and
the least of the other.

A priority queue is a list that keeps its least value in front; how it does that is left open.

* `median_of_succ`: the median of two halves, of which the upper has one more;
* `median_of_eq`: and of two that are even.
-/
import Mathlib.Algebra.Order.Field.Basic
import Mathlib.Data.List.GetD
import Mathlib.Data.List.Sort

namespace Lib.Medians

/-! ## 1. The median -/

section Median

variable {K : Type} [Field K] [LinearOrder K]

/-- The values in order. -/
def sorted (xs : List K) : List K := xs.insertionSort (· ≤ ·)

def median (xs : List K) : K :=
  if xs.length % 2 = 1 then (sorted xs).getD (xs.length / 2) 0
  else ((sorted xs).getD (xs.length / 2 - 1) 0 + (sorted xs).getD (xs.length / 2) 0) / 2

omit [Field K] in
theorem sorted_perm (xs : List K) : (sorted xs).Perm xs := List.perm_insertionSort _ xs

omit [Field K] in
theorem sorted_pairwise (xs : List K) : (sorted xs).Pairwise (· ≤ ·) :=
  List.pairwise_insertionSort _ xs

omit [Field K] in
/-- The sorted order of two halves. -/
theorem sorted_eq_append {xs lower upper : List K} (hperm : xs.Perm (lower ++ upper))
    (h : ∀ a ∈ lower, ∀ b ∈ upper, a ≤ b) : sorted xs = sorted lower ++ sorted upper := by
  have hmid : (sorted lower ++ sorted upper).Pairwise (· ≤ ·) := by
    refine List.pairwise_append.mpr ⟨sorted_pairwise lower, sorted_pairwise upper, ?_⟩
    intro a ha b hb
    exact h a ((sorted_perm lower).mem_iff.mp ha) b ((sorted_perm upper).mem_iff.mp hb)
  have hsame : (sorted xs).Perm (sorted lower ++ sorted upper) :=
    (sorted_perm xs).trans (hperm.trans ((sorted_perm lower).append (sorted_perm upper)).symm)
  exact List.Perm.eq_of_pairwise' (sorted_pairwise xs) hmid hsame

/-- The least value comes first. -/
theorem sorted_getD_zero {xs : List K} {b : K} (hb : b ∈ xs) (h : ∀ x ∈ xs, b ≤ x) :
    (sorted xs).getD 0 0 = b := by
  have hmem : b ∈ sorted xs := (sorted_perm xs).mem_iff.mpr hb
  have hle : ∀ x ∈ sorted xs, b ≤ x := fun x hx => h x ((sorted_perm xs).mem_iff.mp hx)
  have hord := sorted_pairwise xs
  cases hs : sorted xs with
  | nil => simp [hs] at hmem
  | cons x s =>
    rw [hs] at hmem hle hord
    refine le_antisymm ?_ (hle x List.mem_cons_self)
    rcases List.mem_cons.mp hmem with rfl | hmem
    · exact le_rfl
    · exact List.rel_of_pairwise_cons hord hmem

/-- The greatest value comes last. -/
theorem sorted_getD_last {xs : List K} {a : K} (ha : a ∈ xs) (h : ∀ x ∈ xs, x ≤ a) :
    (sorted xs).getD (xs.length - 1) 0 = a := by
  have hmem : a ∈ sorted xs := (sorted_perm xs).mem_iff.mpr ha
  have hle : ∀ x ∈ sorted xs, x ≤ a := fun x hx => h x ((sorted_perm xs).mem_iff.mp hx)
  have hord := sorted_pairwise xs
  rw [← (sorted_perm xs).length_eq]
  rcases (sorted xs).eq_nil_or_concat with hs | ⟨s, x, hs⟩
  · simp [hs] at hmem
  · rw [List.concat_eq_append] at hs
    rw [hs] at hmem hle hord ⊢
    have hlast : (s ++ [x]).getD ((s ++ [x]).length - 1) 0 = x := by simp
    rw [hlast]
    refine le_antisymm (hle x (by simp)) ?_
    rcases List.mem_append.mp hmem with hmem | hmem
    · exact (List.pairwise_append.mp hord).2.2 a hmem x List.mem_cons_self
    · exact (List.mem_singleton.mp hmem).le

variable {xs lower upper : List K} (hperm : xs.Perm (lower ++ upper))
  (h : ∀ a ∈ lower, ∀ b ∈ upper, a ≤ b)

include hperm h

/-- **The upper half has one more.** -/
theorem median_of_succ (hlen : upper.length = lower.length + 1) {b : K} (hb : b ∈ upper)
    (hleast : ∀ x ∈ upper, b ≤ x) : median xs = b := by
  have hxs : xs.length = lower.length + upper.length := by
    rw [hperm.length_eq, List.length_append]
  have hmid : xs.length / 2 = (sorted lower).length := by
    rw [(sorted_perm lower).length_eq]
    omega
  rw [median, if_pos (by omega), hmid, sorted_eq_append hperm h, List.getD_append_right _ _ _ _
    le_rfl, Nat.sub_self, sorted_getD_zero hb hleast]

/-- **The halves are even.** -/
theorem median_of_eq (hlen : upper.length = lower.length) {a b : K} (ha : a ∈ lower)
    (hgreatest : ∀ x ∈ lower, x ≤ a) (hb : b ∈ upper) (hleast : ∀ x ∈ upper, b ≤ x) :
    median xs = (a + b) / 2 := by
  have hxs : xs.length = lower.length + upper.length := by
    rw [hperm.length_eq, List.length_append]
  have hpos : 0 < lower.length := List.length_pos_of_mem ha
  have hsort : (sorted lower).length = lower.length := (sorted_perm lower).length_eq
  have hmid : xs.length / 2 = (sorted lower).length := by omega
  have hleft : xs.length / 2 - 1 = lower.length - 1 := by omega
  have hlower : (sorted xs).getD (xs.length / 2 - 1) 0 = a := by
    rw [sorted_eq_append hperm h, List.getD_append _ _ _ _ (by omega), hleft,
      sorted_getD_last ha hgreatest]
  have hupper : (sorted xs).getD (xs.length / 2) 0 = b := by
    rw [sorted_eq_append hperm h, hmid, List.getD_append_right _ _ _ _ le_rfl, Nat.sub_self,
      sorted_getD_zero hb hleast]
  rw [median, if_neg (by omega), hlower, hupper]

end Median

/-! ## 2. Priority queues -/

/-- Lists that are kept as a priority queue: `push` and `pop` keep what `Heap` says, nothing is lost
or added, and what is in front is least. -/
structure PriorityQueue (α : Type) [LinearOrder α] where
  push : List α → α → List α
  pop : List α → Option (α × List α)
  Heap : List α → Prop
  heap_nil : Heap []
  heap_push : ∀ q x, Heap q → Heap (push q x)
  push_perm : ∀ q x, Heap q → (push q x).Perm (x :: q)
  pop_nil : pop [] = none
  pop_cons : ∀ q x, Heap (x :: q) → ∃ q', pop (x :: q) = some (x, q') ∧ Heap q' ∧ q'.Perm q
  front_le : ∀ q x, Heap (x :: q) → ∀ y ∈ q, x ≤ y

/-- A sorted list is one. -/
def PriorityQueue.ofSorted (α : Type) [LinearOrder α] : PriorityQueue α where
  push q x := q.orderedInsert (· ≤ ·) x
  pop
    | [] => none
    | x :: q => some (x, q)
  Heap q := q.Pairwise (· ≤ ·)
  heap_nil := List.Pairwise.nil
  heap_push q _ h := h.orderedInsert _ q
  push_perm q x _ := List.perm_orderedInsert (· ≤ ·) x q
  pop_nil := rfl
  pop_cons q _ h := ⟨q, rfl, h.of_cons, .refl q⟩
  front_le _ _ h _ hy := List.rel_of_pairwise_cons h hy

end Lib.Medians
