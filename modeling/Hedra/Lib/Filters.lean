/-
# What a filter keeps

Two ways in which a loop comes to the list that a filter keeps: it cuts off the end of the list,
which is right when nothing that is kept stands behind something that is dropped, or it walks a
copy of the list and erases what is to be dropped.

* `take_countP_eq_filter_iff`: when cutting off the end is right;
* `foldl_erase_eq_filter`: erasing while walking a copy is.
-/
import Mathlib.Data.List.Basic
import Mathlib.Data.List.Perm.Basic

namespace Lib

variable {α : Type*} {p : α → Bool}

/-! ## 1. Filters that are prefixes -/

/-- A prefix that holds what a filter keeps is as long as the filter's list. -/
theorem eq_countP_of_take_eq_filter {l : List α} {n : Nat} (hn : n ≤ l.length)
    (h : l.take n = l.filter p) : n = l.countP p := by
  rw [List.countP_eq_length_filter, ← h, List.length_take_of_le hn]

/-- **A filter keeps a prefix** when nothing it keeps stands behind something it drops. -/
theorem take_countP_eq_filter_iff {l : List α} :
    l.take (l.countP p) = l.filter p ↔ l.Pairwise fun a b => p b = true → p a = true := by
  induction l with
  | nil => simp
  | cons a l ih =>
    rw [List.pairwise_cons]
    cases ha : p a with
    | true =>
      rw [List.countP_cons_of_pos ha, List.filter_cons_of_pos ha, List.take_succ_cons,
        List.cons.injEq, ih]
      simp
    | false =>
      have hneg : ¬ p a = true := by simp [ha]
      rw [List.countP_cons_of_neg hneg, List.filter_cons_of_neg hneg]
      constructor
      · intro h
        have hnone : l.countP p = 0 := by
          cases hn : l.countP p with
          | zero => rfl
          | succ n =>
            -- the first element of the prefix would be `a`, which the filter drops
            rw [hn, List.take_succ_cons] at h
            have hmem : a ∈ l.filter p := h ▸ List.mem_cons_self
            exact absurd (List.mem_filter.mp hmem).2 hneg
        have hall : ∀ b ∈ l, ¬ p b = true := List.countP_eq_zero.mp hnone
        refine ⟨fun b hb hpb => absurd hpb (hall b hb), ?_⟩
        exact List.pairwise_of_forall_mem_list fun b _ c hc hpc => absurd hpc (hall c hc)
      · rintro ⟨hall, -⟩
        have hnone : ∀ b ∈ l, ¬ p b = true := by
          intro b hb hpb
          exact absurd (hall b hb hpb) (by simp)
        rw [List.countP_eq_zero.mpr hnone, List.take_zero, List.filter_eq_nil_iff.mpr hnone]

/-! ## 2. Erasing element by element -/

section Erase

variable [DecidableEq α]

theorem filter_erase_of_neg {a : α} (h : ¬ p a = true) (l : List α) :
    (l.erase a).filter p = l.filter p := by
  rw [← List.erase_filter]
  exact List.erase_of_not_mem fun hm => h (List.mem_filter.mp hm).2

/-- A loop over `ts` that erases each element of `p` it meets from a list with the same ones. -/
theorem foldl_erase_of_perm : ∀ (ts l : List α), (l.filter p).Perm (ts.filter p) →
    ts.foldl (fun l a => if p a then l.erase a else l) l = l.filter fun a => !p a := by
  intro ts
  induction ts with
  | nil =>
    intro l h
    refine (List.filter_eq_self.mpr fun a ha => ?_).symm
    have hnil : l.filter p = [] := List.perm_nil.mp h
    simpa using List.filter_eq_nil_iff.mp hnil a ha
  | cons a ts ih =>
    intro l h
    rw [List.foldl_cons]
    by_cases ha : p a = true
    · rw [List.filter_cons_of_pos ha] at h
      have hrest : ((l.erase a).filter p).Perm (ts.filter p) := by
        rw [← List.erase_filter]
        simpa using h.erase a
      rw [if_pos ha, ih _ hrest]
      exact filter_erase_of_neg (by simp [ha]) l
    · rw [List.filter_cons_of_neg ha] at h
      rw [if_neg ha, ih l h]

/-- **Erasing from a list, while walking a copy of it, each element of `p`.** -/
theorem foldl_erase_eq_filter (l : List α) :
    l.foldl (fun l a => if p a then l.erase a else l) l = l.filter fun a => !p a :=
  foldl_erase_of_perm l l (List.Perm.refl _)

end Erase

end Lib
