/-
# Greedy packing

Items take their share of what is left, one after the other: as much as they can use at most.  One that
needs more than is left takes nothing, but for one that needs just one more.

What is left behind some items is what they cannot use at most, unless there is one among them that needs
more (`rest_cases`).

* `rest_cases`: what is left behind some items;
* `mem_pack_iff`: which items are packed, and with how much;
* `sum_pack_add_rest`: what they get and what is left is what there was.
-/
import Mathlib.Algebra.Order.Ring.Nat
import Mathlib.Data.List.Basic
import Mathlib.Order.Lattice

namespace Lib
namespace Packing

variable {α : Type*}

/-- What an item needs at least, and can use at most. -/
structure Shares (α : Type*) where
  least : α → ℕ
  most : α → ℕ
  one_le_least : ∀ a, 1 ≤ least a
  least_le_most : ∀ a, least a ≤ most a

namespace Shares

variable (s : Shares α)

/-- What an item takes. -/
def share (left : ℕ) (a : α) : ℕ := if s.least a ≤ left + 1 then min (s.most a) left else 0

/-- What is left behind some items. -/
def rest (left : ℕ) (l : List α) : ℕ := l.foldl (fun left a => left - s.share left a) left

/-- The items that take something, and how much. -/
def pack : ℕ → List α → List (α × ℕ)
  | _, [] => []
  | left, a :: l =>
    if 0 < s.share left a then (a, s.share left a) :: pack (left - s.share left a) l else pack left l

/-- The most that some items can use. -/
def total (l : List α) : ℕ := (l.map s.most).sum

variable {s}

theorem one_le_most (a : α) : 1 ≤ s.most a := (s.one_le_least a).trans (s.least_le_most a)

theorem share_le (left : ℕ) (a : α) : s.share left a ≤ left := by
  unfold share
  split
  · exact min_le_right _ _
  · exact Nat.zero_le _

theorem share_le_most (left : ℕ) (a : α) : s.share left a ≤ s.most a := by
  unfold share
  split
  · exact min_le_left _ _
  · exact Nat.zero_le _

@[simp] theorem share_zero (a : α) : s.share 0 a = 0 := Nat.le_zero.mp (share_le 0 a)

/-- An item takes something if and only if there is something, and no more than one is wanting. -/
theorem share_pos_iff {left : ℕ} {a : α} : 0 < s.share left a ↔ 0 < left ∧ s.least a ≤ left + 1 := by
  have hmost := one_le_most (s := s) a
  unfold share
  split <;> omega

/-- With what it needs, an item has its share. -/
theorem least_le_share_iff {left : ℕ} {a : α} : s.least a ≤ s.share left a ↔ s.least a ≤ left := by
  have hleast := s.one_le_least a
  have hle := s.least_le_most a
  unfold share
  split <;> omega

@[simp] theorem rest_nil (left : ℕ) : s.rest left [] = left := rfl

@[simp] theorem rest_cons (left : ℕ) (a : α) (l : List α) :
    s.rest left (a :: l) = s.rest (left - s.share left a) l := rfl

theorem rest_le (left : ℕ) (l : List α) : s.rest left l ≤ left := by
  induction l generalizing left with
  | nil => exact le_rfl
  | cons a l ih => exact (ih _).trans (Nat.sub_le _ _)

@[simp] theorem rest_zero (l : List α) : s.rest 0 l = 0 := Nat.le_zero.mp (rest_le 0 l)

theorem rest_append (left : ℕ) (l₁ l₂ : List α) :
    s.rest left (l₁ ++ l₂) = s.rest (s.rest left l₁) l₂ := List.foldl_append

theorem pack_cons (left : ℕ) (a : α) (l : List α) :
    s.pack left (a :: l) = (if 0 < s.share left a then [(a, s.share left a)] else []) ++
      s.pack (left - s.share left a) l := by
  rw [pack]
  split
  · rfl
  · next h => rw [Nat.eq_zero_of_not_pos h, Nat.sub_zero, List.nil_append]

/-- An item that can use all, and lacks no more than one, leaves nothing. -/
theorem rest_cons_eq_zero {left : ℕ} {a : α} {l : List α} (hleast : s.least a ≤ left + 1)
    (hmost : left ≤ s.most a) : s.rest left (a :: l) = 0 := by
  rw [rest_cons, share, if_pos hleast, Nat.min_eq_right hmost, Nat.sub_self, rest_zero]

@[simp] theorem pack_zero (l : List α) : s.pack 0 l = [] := by
  induction l with
  | nil => rfl
  | cons a l ih => simpa [pack_cons] using ih

theorem pack_append (left : ℕ) (l₁ l₂ : List α) :
    s.pack left (l₁ ++ l₂) = s.pack left l₁ ++ s.pack (s.rest left l₁) l₂ := by
  induction l₁ generalizing left with
  | nil => rfl
  | cons a l₁ ih => rw [List.cons_append, pack_cons, pack_cons, ih, List.append_assoc, rest_cons]

/-- What is taken and what is left are what there was. -/
theorem sum_pack_add_rest (left : ℕ) (l : List α) :
    ((s.pack left l).map Prod.snd).sum + s.rest left l = left := by
  induction l generalizing left with
  | nil => exact Nat.zero_add left
  | cons a l ih =>
    have hrest := ih (left - s.share left a)
    have hle := share_le (s := s) left a
    rw [pack_cons, List.map_append, List.sum_append, rest_cons]
    split
    · simp only [List.map_singleton, List.sum_singleton]
      omega
    · next h =>
      simp only [List.map_nil, List.sum_nil]
      omega

theorem pack_sublist (left : ℕ) (l : List α) : ((s.pack left l).map Prod.fst).Sublist l := by
  induction l generalizing left with
  | nil => exact .slnil
  | cons a l ih =>
    rw [pack_cons]
    split
    · exact (ih _).cons_cons a
    · exact (ih _).cons a

/-- An item is packed with its share of what is left behind those in front of it. -/
theorem mem_pack_iff {left w : ℕ} {a : α} {l : List α} :
    (a, w) ∈ s.pack left l ↔ ∃ l₁ l₂, l = l₁ ++ a :: l₂ ∧ w = s.share (s.rest left l₁) a ∧ 0 < w := by
  constructor
  · intro h
    induction l generalizing left with
    | nil => cases h
    | cons b l ih =>
      rw [pack_cons] at h
      rcases List.mem_append.mp h with h | h
      · split at h
        · next hpos =>
          cases List.mem_singleton.mp h
          exact ⟨[], l, rfl, rfl, hpos⟩
        · cases h
      · obtain ⟨l₁, l₂, rfl, hw, hpos⟩ := ih h
        exact ⟨b :: l₁, l₂, rfl, hw, hpos⟩
  · rintro ⟨l₁, l₂, rfl, rfl, hpos⟩
    rw [pack_append, pack_cons, if_pos hpos]
    exact List.mem_append_right _ (List.mem_append_left _ (List.mem_singleton_self _))

/-- In a list without repetitions an item is packed once. -/
theorem mem_pack_append_iff {left w : ℕ} {a : α} {l₁ l₂ : List α} (h₁ : a ∉ l₁) (h₂ : a ∉ l₂) :
    (a, w) ∈ s.pack left (l₁ ++ a :: l₂) ↔ w = s.share (s.rest left l₁) a ∧ 0 < w := by
  have hnot : ∀ {left : ℕ} {l : List α}, a ∉ l → (a, w) ∉ s.pack left l := fun ha h =>
    ha ((pack_sublist _ _).subset (List.mem_map_of_mem h))
  rw [pack_append, pack_cons, List.mem_append, List.mem_append]
  constructor
  · rintro (h | h | h)
    · exact absurd h (hnot h₁)
    · split at h
      · next hpos =>
        cases List.mem_singleton.mp h
        exact ⟨rfl, hpos⟩
      · cases h
    · exact absurd h (hnot h₂)
  · rintro ⟨rfl, hpos⟩
    rw [if_pos hpos]
    exact .inr (.inl (List.mem_singleton_self _))

/-- **What is left.**  It is what the items cannot use at most; or one of them needs more than is left,
and together they could use all. -/
theorem rest_cases (left : ℕ) (l : List α) :
    s.rest left l = left - s.total l ∨
      (∃ a ∈ l, s.rest left l + 1 < s.least a) ∧ left ≤ s.total l := by
  induction l generalizing left with
  | nil => exact .inl rfl
  | cons a l ih =>
    have hcons : s.total (a :: l) = s.most a + s.total l := rfl
    have hle := s.least_le_most a
    rw [rest_cons]
    by_cases ha : s.least a ≤ left + 1
    · have hshare : left - s.share left a = left - s.most a := by
        rw [share, if_pos ha]
        omega
      rw [hshare]
      rcases ih (left - s.most a) with h | ⟨⟨b, hb, hlt⟩, htotal⟩
      · exact .inl (by omega)
      · exact .inr ⟨⟨b, List.mem_cons_of_mem _ hb, hlt⟩, by omega⟩
    · have hshare : left - s.share left a = left := by rw [share, if_neg ha, Nat.sub_zero]
      rw [hshare]
      have hrest := rest_le (s := s) left l
      exact .inr ⟨⟨a, List.mem_cons_self, by omega⟩, by omega⟩

/-- Where the items could not use all, what is left is known. -/
theorem rest_of_pos {left : ℕ} {l : List α} (h : 0 < left - s.total l) :
    s.rest left l = left - s.total l :=
  (rest_cases left l).resolve_right fun hr => by omega

end Shares

end Packing
end Lib
