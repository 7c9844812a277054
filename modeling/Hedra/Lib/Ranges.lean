/-
# Sets of integers as lists of ranges

A finite set of integers is kept as a list of ranges.  The list is sorted, and between two ranges
there is a gap of at least one integer, so that a set has one list only.  An integer is taken out by
cutting the range it is in, and put in by extending or joining its neighbours.

* `covers_append_cut`: nothing else is taken out;
* `covers_add`: nothing else is put in;
* `Separated.add`: and the ranges stay apart.
-/
import Mathlib.Data.List.Basic
import Mathlib.Order.Basic
import Mathlib.Algebra.Order.Ring.Int
import Mathlib.Tactic.Tauto

namespace Lib.Ranges

/-- The integers from the first to the second, both included. -/
abbrev Range := Int × Int

/-- `x` is in one of the ranges. -/
def Covers (rs : List Range) (x : Int) : Prop := ∃ r ∈ rs, r.1 ≤ x ∧ x ≤ r.2

/-- No range is empty, and each one ends before the next with a gap between them. -/
structure Separated (rs : List Range) : Prop where
  nonempty : ∀ r ∈ rs, r.1 ≤ r.2
  apart : rs.Pairwise fun r r' => r.2 + 1 < r'.1

variable {rs l : List Range} {r : Range} {v x : Int}

@[simp] theorem covers_nil : ¬ Covers [] x := by simp [Covers]

@[simp] theorem covers_cons : Covers (r :: rs) x ↔ (r.1 ≤ x ∧ x ≤ r.2) ∨ Covers rs x := by
  simp [Covers]

@[simp] theorem covers_append : Covers (l ++ rs) x ↔ Covers l x ∨ Covers rs x := by
  simp [Covers, or_and_right, exists_or]

theorem separated_cons : Separated (r :: rs) ↔
    r.1 ≤ r.2 ∧ (∀ r' ∈ rs, r.2 + 1 < r'.1) ∧ Separated rs := by
  constructor
  · intro h
    obtain ⟨hlt, happart⟩ := List.pairwise_cons.mp h.apart
    exact ⟨h.nonempty r List.mem_cons_self, hlt,
      fun r' hr' => h.nonempty r' (List.mem_cons_of_mem _ hr'), happart⟩
  · rintro ⟨hr, hlt, h⟩
    refine ⟨fun r' hr' => ?_, List.pairwise_cons.mpr ⟨hlt, h.apart⟩⟩
    rcases List.mem_cons.mp hr' with rfl | hr'
    · exact hr
    · exact h.nonempty r' hr'

theorem separated_append : Separated (l ++ rs) ↔
    Separated l ∧ Separated rs ∧ ∀ r ∈ l, ∀ r' ∈ rs, r.2 + 1 < r'.1 := by
  constructor
  · intro h
    obtain ⟨hl, hrs, hlt⟩ := List.pairwise_append.mp h.apart
    exact ⟨⟨fun r hr => h.nonempty r (List.mem_append_left _ hr), hl⟩,
      ⟨fun r hr => h.nonempty r (List.mem_append_right _ hr), hrs⟩, hlt⟩
  · rintro ⟨hl, hrs, hlt⟩
    refine ⟨fun r hr => ?_, List.pairwise_append.mpr ⟨hl.apart, hrs.apart, hlt⟩⟩
    exact (List.mem_append.mp hr).elim (hl.nonempty r) (hrs.nonempty r)

/-- The ranges that do not start behind `v` come first. -/
theorem Separated.exists_append (h : Separated rs) (v : Int) :
    ∃ l r, rs = l ++ r ∧ (∀ a ∈ l, a.1 ≤ v) ∧ ∀ a ∈ r, v < a.1 := by
  induction rs with
  | nil => exact ⟨[], [], rfl, by simp, by simp⟩
  | cons a rs ih =>
    obtain ⟨hne, hlt, hrs⟩ := separated_cons.mp h
    rcases le_or_gt a.1 v with ha | ha
    · obtain ⟨l, r, rfl, hl, hr⟩ := ih hrs
      refine ⟨a :: l, r, rfl, fun b hb => ?_, hr⟩
      rcases List.mem_cons.mp hb with rfl | hb
      · exact ha
      · exact hl b hb
    · refine ⟨[], a :: rs, rfl, by simp, fun b hb => ?_⟩
      rcases List.mem_cons.mp hb with rfl | hb
      · exact ha
      · have hab : a.2 + 1 < b.1 := hlt b hb
        omega

/-! ## 1. Taking out -/

/-- What is left of a range without `v`. -/
def cut (r : Range) (v : Int) : List Range :=
  (if r.1 < v then [(r.1, v - 1)] else []) ++ (if v < r.2 then [(v + 1, r.2)] else [])

theorem mem_cut {r' : Range} (h : r' ∈ cut r v) :
    (r' = (r.1, v - 1) ∧ r.1 < v) ∨ (r' = (v + 1, r.2) ∧ v < r.2) := by
  rw [cut, List.mem_append, List.mem_ite_nil_right, List.mem_ite_nil_right,
    List.mem_singleton, List.mem_singleton] at h
  exact h.imp And.symm And.symm

theorem covers_cut (hlo : r.1 ≤ v) (hhi : v ≤ r.2) :
    Covers (cut r v) x ↔ (r.1 ≤ x ∧ x ≤ r.2) ∧ x ≠ v := by
  unfold cut
  split <;> split <;> simp <;> omega

theorem separated_cut : Separated (cut r v) := by
  unfold cut
  constructor
  · split <;> split <;> simp <;> omega
  · split <;> split <;> simp

/-- A range is cut in its place. -/
theorem Separated.cut (h : Separated (l ++ r :: rs)) (hlo : r.1 ≤ v) (hhi : v ≤ r.2) :
    Separated (l ++ cut r v ++ rs) := by
  obtain ⟨hl, hr, hlt⟩ := separated_append.mp h
  obtain ⟨-, hgt, hrs⟩ := separated_cons.mp hr
  refine separated_append.mpr ⟨separated_append.mpr ⟨hl, separated_cut, ?_⟩, hrs, ?_⟩
  · intro a ha b hb
    have har : a.2 + 1 < r.1 := hlt a ha r List.mem_cons_self
    rcases mem_cut hb with ⟨rfl, hv⟩ | ⟨rfl, hv⟩
    · exact har
    · exact lt_of_lt_of_le har (by omega)
  · intro a ha b hb
    rcases List.mem_append.mp ha with ha | ha
    · exact hlt a ha b (List.mem_cons_of_mem _ hb)
    · have hrb : r.2 + 1 < b.1 := hgt b hb
      rcases mem_cut ha with ⟨rfl, hv⟩ | ⟨rfl, hv⟩
      · exact lt_of_le_of_lt (by omega) hrb
      · exact hrb

/-- **Nothing else is taken out.** -/
theorem covers_append_cut (h : Separated (l ++ r :: rs)) (hlo : r.1 ≤ v) (hhi : v ≤ r.2) :
    Covers (l ++ cut r v ++ rs) x ↔ Covers (l ++ r :: rs) x ∧ x ≠ v := by
  obtain ⟨-, hr, hlt⟩ := separated_append.mp h
  obtain ⟨-, hgt, -⟩ := separated_cons.mp hr
  have hl : Covers l x → x ≠ v := by
    rintro ⟨a, ha, -, hx⟩
    have har : a.2 + 1 < r.1 := hlt a ha r List.mem_cons_self
    omega
  have hrs : Covers rs x → x ≠ v := by
    rintro ⟨b, hb, hx, -⟩
    have hrb : r.2 + 1 < b.1 := hgt b hb
    omega
  rw [covers_append, covers_append, covers_append, covers_cons, covers_cut hlo hhi]
  tauto

/-! ## 2. Putting in -/

/-- Put `v` in, next to the ranges it touches. -/
def add (v : Int) : List Range → List Range
  | [] => [(v, v)]
  | (a, b) :: rs =>
    if v < a then
      if v + 1 = a then (v, b) :: rs else (v, v) :: (a, b) :: rs
    else if b + 1 = v then
      match rs with
      | [] => [(a, v)]
      | (c, d) :: rs' => if v + 1 = c then (a, d) :: rs' else (a, v) :: (c, d) :: rs'
    else (a, b) :: add v rs

/-- `v` is not next to the first range, nor before it. -/
theorem add_cons_of_lt {a b : Int} (ha : a ≤ v) (hb : b + 1 ≠ v) :
    add v ((a, b) :: rs) = (a, b) :: add v rs := by
  rw [add.eq_def]
  simp only [if_neg (Int.not_lt.mpr ha), if_neg hb]

/-- A range starts where one has started, or at `v`. -/
theorem fst_of_mem_add :
    ∀ {rs : List Range}, r ∈ add v rs → r.1 = v ∨ r.1 ∈ rs.map Prod.fst
  | [], h => Or.inl (by rw [List.mem_singleton.mp h])
  | (a, b) :: rs, h => by
    have hmem : ∀ {rs : List Range}, r ∈ rs → r.1 ∈ rs.map Prod.fst := List.mem_map_of_mem
    rw [List.map_cons, List.mem_cons]
    unfold add at h
    split at h
    · split at h
      · rcases List.mem_cons.mp h with rfl | h
        · exact Or.inl rfl
        · exact Or.inr (Or.inr (hmem h))
      · rcases List.mem_cons.mp h with rfl | h
        · exact Or.inl rfl
        · exact Or.inr (List.mem_cons.mp (hmem h))
    · split at h
      · split at h
        · rw [List.mem_singleton.mp h]
          exact Or.inr (Or.inl rfl)
        · split at h
          · rcases List.mem_cons.mp h with rfl | h
            · exact Or.inr (Or.inl rfl)
            · exact Or.inr (Or.inr (List.mem_cons_of_mem _ (hmem h)))
          · rcases List.mem_cons.mp h with rfl | h
            · exact Or.inr (Or.inl rfl)
            · exact Or.inr (Or.inr (hmem h))
      · rcases List.mem_cons.mp h with rfl | h
        · exact Or.inr (Or.inl rfl)
        · exact (fst_of_mem_add h).imp id Or.inr

/-- **Nothing else is put in.** -/
theorem covers_add (h : Separated rs) (hv : ¬ Covers rs v) :
    Covers (add v rs) x ↔ x = v ∨ Covers rs x := by
  induction rs with
  | nil => simp [add]; omega
  | cons r rs ih =>
    obtain ⟨a, b⟩ := r
    obtain ⟨hab, hgt, hrs⟩ := separated_cons.mp h
    rw [covers_cons] at hv ⊢
    have hih := ih hrs fun hc => hv (Or.inr hc)
    unfold add
    split
    · split <;> simp only [covers_cons] <;> grind
    · split
      · cases rs with
        | nil => simp; grind
        | cons r rs =>
          have hlt := hgt r List.mem_cons_self
          have hne := (separated_cons.mp hrs).1
          simp only
          split <;> simp only [covers_cons] <;> grind
      · simp only [covers_cons, hih]
        grind

/-- **The ranges stay apart.** -/
theorem Separated.add (h : Separated rs) (hv : ¬ Covers rs v) : Separated (add v rs) := by
  induction rs with
  | nil => exact ⟨by simp [Ranges.add], List.pairwise_singleton ..⟩
  | cons r rs ih =>
    obtain ⟨a, b⟩ := r
    obtain ⟨hab, hgt, hrs⟩ := separated_cons.mp h
    simp only [covers_cons, not_or, not_and, not_le] at hv
    unfold Ranges.add
    split
    · next hlt =>
      split
      · exact separated_cons.mpr ⟨by grind, hgt, hrs⟩
      · refine separated_cons.mpr ⟨le_refl v, fun r hr => ?_, h⟩
        rcases List.mem_cons.mp hr with rfl | hr
        · grind
        · have := hgt r hr
          grind
    · split
      · next hb =>
        cases rs with
        | nil => exact ⟨by simp; omega, List.pairwise_singleton ..⟩
        | cons r rs =>
          obtain ⟨hne, hgt', hrs'⟩ := separated_cons.mp hrs
          have hlt := hgt r List.mem_cons_self
          simp only
          split
          · exact separated_cons.mpr ⟨by grind, hgt', hrs'⟩
          · refine separated_cons.mpr ⟨by grind, fun r' hr' => ?_, hrs⟩
            rcases List.mem_cons.mp hr' with rfl | hr'
            · grind
            · have := hgt' r' hr'
              grind
      · refine separated_cons.mpr ⟨hab, fun r' hr' => ?_, ih hrs hv.2⟩
        rcases fst_of_mem_add hr' with heq | hmem
        · rw [heq]
          grind
        · obtain ⟨r, hr, heq⟩ := List.mem_map.mp hmem
          exact heq ▸ hgt r hr

end Lib.Ranges
