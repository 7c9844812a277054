/-
# Splitting at a separator of two items

What is between the separators `a, b` of a list, from left to right.  Nothing that it gives has one
in it, and where two lists have a separator between them each is split by itself.

* `split_append`: a separator ends a part, whatever is around it;
* `intercalate_split`: the parts are put together again;
* `whole_of_mem_split`: no part has a separator.
-/
import Mathlib.Data.List.Infix

namespace Lib
namespace Separated

variable {α : Type*}

/-- There is no separator in it. -/
def Whole (a b : α) (l : List α) : Prop := ¬ [a, b] <:+: l

variable {a b : α}

theorem whole_nil : Whole a b [] := by
  simp [Whole]

theorem whole_singleton (x : α) : Whole a b [x] := by
  intro h
  have := h.length_le
  simp at this

theorem whole_cons_cons {x y : α} {l : List α} :
    Whole a b (x :: y :: l) ↔ ¬ (x = a ∧ y = b) ∧ Whole a b (y :: l) := by
  unfold Whole
  rw [List.infix_cons_iff, List.cons_prefix_cons, List.cons_prefix_cons, not_or]
  exact and_congr_left' (not_congr ⟨fun h => ⟨h.1.symm, h.2.1.symm⟩,
    fun h => ⟨h.1.symm, h.2.symm, List.nil_prefix⟩⟩)

theorem Whole.of_infix {l r : List α} (h : Whole a b r) (hl : l <:+: r) : Whole a b l :=
  fun hab => h (hab.trans hl)

theorem whole_of_not_mem {l : List α} (h : a ∉ l) : Whole a b l :=
  fun hab => h (hab.subset List.mem_cons_self)

theorem modifyHead_append {f : List α → List α} {ls ls' : List (List α)} (h : ls ≠ []) :
    (ls ++ ls').modifyHead f = ls.modifyHead f ++ ls' := by
  cases ls with
  | nil => exact absurd rfl h
  | cons l ls => rfl

theorem intercalate_modifyHead_cons (x : α) {ls : List (List α)} (h : ls ≠ []) :
    [a, b].intercalate (ls.modifyHead (x :: ·)) = x :: [a, b].intercalate ls := by
  cases ls with
  | nil => exact absurd rfl h
  | cons l ls => cases ls <;> simp [List.intercalate]

variable [DecidableEq α]

/-- The parts between the separators. -/
def split (a b : α) : List α → List (List α)
  | [] => [[]]
  | [x] => [[x]]
  | x :: y :: l =>
    if x = a ∧ y = b then [] :: split a b l else (split a b (y :: l)).modifyHead (x :: ·)

@[simp] theorem split_nil : split a b [] = [[]] := rfl

@[simp] theorem split_singleton (x : α) : split a b [x] = [[x]] := rfl

theorem split_cons_cons (x y : α) (l : List α) :
    split a b (x :: y :: l) =
      if x = a ∧ y = b then [] :: split a b l else (split a b (y :: l)).modifyHead (x :: ·) := rfl

theorem split_cons_of_ne {x : α} (h : x ≠ a) (l : List α) :
    split a b (x :: l) = (split a b l).modifyHead (x :: ·) := by
  cases l with
  | nil => rfl
  | cons y l => exact if_neg fun hxy => h hxy.1

theorem split_append_of_not_mem {l : List α} (h : a ∉ l) (r : List α) :
    split a b (l ++ r) = (split a b r).modifyHead (l ++ ·) := by
  induction l with
  | nil =>
    rw [List.nil_append]
    exact (congrFun List.modifyHead_id _).symm
  | cons x l ih =>
    obtain ⟨hx, hl⟩ := not_or.mp fun hor => h (List.mem_cons.mpr hor)
    rw [List.cons_append, split_cons_of_ne (Ne.symm hx), ih hl, List.modifyHead_modifyHead]
    rfl

theorem split_ne_nil (l : List α) : split a b l ≠ [] := by
  induction l using split.induct a b with
  | case1 => exact List.cons_ne_nil _ _
  | case2 x => exact List.cons_ne_nil _ _
  | case3 x y l h _ =>
    rw [split_cons_cons, if_pos h]
    exact List.cons_ne_nil _ _
  | case4 x y l h ih =>
    rw [split_cons_cons, if_neg h]
    cases hl : split a b (y :: l) with
    | nil => exact absurd hl ih
    | cons p ps => exact List.cons_ne_nil _ _

/-! ## 1. Lists with a separator between them -/

/-- **A separator ends a part, whatever is around it.** -/
theorem split_append (hab : a ≠ b) (l r : List α) :
    split a b (l ++ a :: b :: r) = split a b l ++ split a b r := by
  induction l using split.induct a b with
  | case1 => exact if_pos ⟨rfl, rfl⟩
  | case2 x =>
    have hr : split a b (a :: b :: r) = [] :: split a b r := if_pos ⟨rfl, rfl⟩
    rw [List.singleton_append, split_cons_cons, if_neg fun h => hab h.2, hr]
    rfl
  | case3 x y l h ih =>
    rw [List.cons_append, List.cons_append, split_cons_cons, if_pos h, ih, split_cons_cons, if_pos h]
    rfl
  | case4 x y l h ih =>
    rw [List.cons_append, List.cons_append, split_cons_cons, if_neg h, split_cons_cons, if_neg h,
      ← List.cons_append, ih, modifyHead_append (split_ne_nil _)]

theorem split_intercalate (hab : a ≠ b) {ls : List (List α)} (h : ls ≠ []) :
    split a b ([a, b].intercalate ls) = (ls.map (split a b)).flatten := by
  induction ls with
  | nil => exact absurd rfl h
  | cons l ls ih =>
    cases ls with
    | nil => simp
    | cons l' ls =>
      have hl : [a, b].intercalate (l :: l' :: ls) = l ++ a :: b :: [a, b].intercalate (l' :: ls) := by
        simp [List.intercalate]
      rw [hl, split_append hab, ih (List.cons_ne_nil _ _)]
      rfl

/-! ## 2. Parts -/

theorem split_of_whole {l : List α} (h : Whole a b l) : split a b l = [l] := by
  induction l using split.induct a b with
  | case1 => rfl
  | case2 x => rfl
  | case3 x y l hxy _ => exact absurd hxy (whole_cons_cons.mp h).1
  | case4 x y l hxy ih =>
    rw [split_cons_cons, if_neg hxy, ih (whole_cons_cons.mp h).2]
    rfl

/-- **The parts are put together again.** -/
theorem intercalate_split (l : List α) : [a, b].intercalate (split a b l) = l := by
  induction l using split.induct a b with
  | case1 => rfl
  | case2 x => simp [List.intercalate]
  | case3 x y l hxy ih =>
    obtain ⟨rfl, rfl⟩ := hxy
    obtain ⟨p, ps, hl⟩ := List.exists_cons_of_ne_nil (split_ne_nil (a := x) (b := y) l)
    have hcons : [x, y].intercalate ([] :: split x y l) = x :: y :: [x, y].intercalate (split x y l) := by
      rw [hl]
      simp [List.intercalate]
    rw [split_cons_cons, if_pos ⟨rfl, rfl⟩, hcons, ih]
  | case4 x y l hxy ih =>
    rw [split_cons_cons, if_neg hxy, intercalate_modifyHead_cons x (split_ne_nil _), ih]

/-- The first part is empty, or begins as the list does. -/
theorem head_split {y : α} {l p : List α} {ps : List (List α)}
    (h : split a b (y :: l) = p :: ps) : p = [] ∨ ∃ p', p = y :: p' := by
  cases l with
  | nil =>
    obtain ⟨rfl, -⟩ := List.cons.inj h
    exact Or.inr ⟨[], rfl⟩
  | cons z l =>
    rw [split_cons_cons] at h
    split at h
    · obtain ⟨rfl, -⟩ := List.cons.inj h
      exact Or.inl rfl
    · cases hl : split a b (z :: l) with
      | nil => exact absurd hl (split_ne_nil _)
      | cons q qs =>
        rw [hl] at h
        obtain ⟨rfl, -⟩ := List.cons.inj h
        exact Or.inr ⟨q, rfl⟩

/-- **No part has a separator.** -/
theorem whole_of_mem_split {l p : List α} (h : p ∈ split a b l) : Whole a b p := by
  induction l using split.induct a b generalizing p with
  | case1 =>
    obtain rfl := List.mem_singleton.mp h
    exact whole_nil
  | case2 x =>
    obtain rfl := List.mem_singleton.mp h
    exact whole_singleton x
  | case3 x y l hxy ih =>
    rw [split_cons_cons, if_pos hxy] at h
    rcases List.mem_cons.mp h with rfl | h
    · exact whole_nil
    · exact ih h
  | case4 x y l hxy ih =>
    rw [split_cons_cons, if_neg hxy] at h
    cases hl : split a b (y :: l) with
    | nil => exact absurd hl (split_ne_nil _)
    | cons q qs =>
      rw [hl] at h ih
      rcases List.mem_cons.mp h with rfl | h
      · have hq := ih List.mem_cons_self
        rcases head_split hl with rfl | ⟨q', rfl⟩
        · exact whole_singleton x
        · exact whole_cons_cons.mpr ⟨hxy, hq⟩
      · exact ih (List.mem_cons_of_mem _ h)

/-- Something else that stands between two lists leaves no separator. -/
theorem Whole.append_cons {l r : List α} {c : α} (hl : Whole a b l) (hr : Whole a b r)
    (ha : c ≠ a) (hb : c ≠ b) : Whole a b (l ++ c :: r) := by
  have hcons : Whole a b (c :: r) := by
    cases r with
    | nil => exact whole_singleton c
    | cons y r => exact whole_cons_cons.mpr ⟨fun h => ha h.1, hr⟩
  induction l using split.induct a b with
  | case1 => exact hcons
  | case2 x => exact whole_cons_cons.mpr ⟨fun h => hb h.2, hcons⟩
  | case3 x y l hxy _ => exact absurd hxy (whole_cons_cons.mp hl).1
  | case4 x y l hxy ih => exact whole_cons_cons.mpr ⟨hxy, ih (whole_cons_cons.mp hl).2⟩

/-- What stands before something else goes to the first part. -/
theorem split_append_cons {l : List α} {c : α} (hl : Whole a b l) (ha : c ≠ a) (hb : c ≠ b)
    (r : List α) : split a b (l ++ c :: r) = (split a b r).modifyHead (l ++ c :: ·) := by
  have hcons : split a b (c :: r) = (split a b r).modifyHead (c :: ·) := split_cons_of_ne ha r
  induction l using split.induct a b with
  | case1 => exact hcons
  | case2 x =>
    rw [List.singleton_append, split_cons_cons, if_neg fun h => hb h.2, hcons,
      List.modifyHead_modifyHead]
    rfl
  | case3 x y l hxy _ => exact absurd hxy (whole_cons_cons.mp hl).1
  | case4 x y l hxy ih =>
    rw [List.cons_append, List.cons_append, split_cons_cons, if_neg hxy, ← List.cons_append,
      ih (whole_cons_cons.mp hl).2, List.modifyHead_modifyHead]
    rfl

/-! ## 3. Without the separators -/

theorem length_flatten_split (l : List α) : (split a b l).flatten.length ≤ l.length := by
  induction l using split.induct a b with
  | case1 => exact le_refl _
  | case2 x => exact le_refl _
  | case3 x y l hxy ih =>
    rw [split_cons_cons, if_pos hxy, List.flatten_cons, List.nil_append, List.length_cons,
      List.length_cons]
    omega
  | case4 x y l hxy ih =>
    rw [split_cons_cons, if_neg hxy]
    cases hl : split a b (y :: l) with
    | nil => exact absurd hl (split_ne_nil _)
    | cons q qs =>
      rw [hl] at ih
      simp only [List.modifyHead_cons, List.flatten_cons, List.length_append, List.length_cons] at ih ⊢
      omega

/-- What neither of the two is, is kept. -/
theorem count_flatten_split {c : α} (ha : c ≠ a) (hb : c ≠ b) (l : List α) :
    (split a b l).flatten.count c = l.count c := by
  have hsep : ∀ ls : List (List α), ([a, b].intercalate ls).count c = ls.flatten.count c := by
    intro ls
    induction ls with
    | nil => rfl
    | cons p ls ih =>
      cases ls with
      | nil => simp [List.intercalate]
      | cons q ls =>
        have hcons : [a, b].intercalate (p :: q :: ls) = p ++ [a, b] ++ [a, b].intercalate (q :: ls) := by
          simp [List.intercalate]
        rw [hcons, List.count_append, List.count_append, ih, List.flatten_cons, List.count_append]
        simp [ha.symm, hb.symm]
  rw [← hsep, intercalate_split]

/-- What has a separator gets shorter. -/
theorem length_flatten_split_lt (hab : a ≠ b) {l : List α} (h : ¬ Whole a b l) :
    (split a b l).flatten.length < l.length := by
  obtain ⟨s, t, rfl⟩ := not_not.mp h
  have hs := length_flatten_split (a := a) (b := b) s
  have ht := length_flatten_split (a := a) (b := b) t
  rw [List.append_assoc, List.cons_append, List.cons_append, List.nil_append, split_append hab,
    List.flatten_append, List.length_append, List.length_append, List.length_cons, List.length_cons]
  omega

end Separated
end Lib
