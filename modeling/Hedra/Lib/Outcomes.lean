/-
# Steps that may raise

In `Except` a sequence of steps has an outcome if and only if each of them has one.  `mapM_ok_iff` says it
of a list, element by element; `mapM_ok_map_iff` where the outcome of an element is a function of it, if
there is one, and `exists_mapM_iff` where each outcome has to be such that something holds of it.
-/
import Mathlib.Data.List.Forall2

namespace Lib
namespace Outcomes

variable {ε α β : Type} {l : List α} {l' : List β}

theorem bind_ok_iff {x : Except ε α} {f : α → Except ε β} {b : β} :
    (x >>= f) = .ok b ↔ ∃ a, x = .ok a ∧ f a = .ok b := by
  cases x with
  | error e => simp [bind, Except.bind]
  | ok a => simp [bind, Except.bind]

theorem mapM_ok_iff {f : α → Except ε β} :
    l.mapM f = .ok l' ↔ List.Forall₂ (fun a b => f a = .ok b) l l' := by
  induction l generalizing l' with
  | nil =>
    rw [List.mapM_nil, List.forall₂_nil_left_iff]
    constructor
    · rintro ⟨⟩
      rfl
    · rintro rfl
      rfl
  | cons a l ih =>
    rw [List.mapM_cons, bind_ok_iff, List.forall₂_cons_left_iff]
    refine exists_congr fun b => ?_
    rw [bind_ok_iff]
    constructor
    · rintro ⟨hb, bs, hbs, heq⟩
      cases heq
      exact ⟨bs, hb, ih.mp hbs, rfl⟩
    · rintro ⟨bs, hb, hbs, rfl⟩
      exact ⟨hb, bs, ih.mpr hbs, rfl⟩

/-- Where the outcome of an element is a function of it, so is that of a list. -/
theorem mapM_ok_map_iff {f : α → Except ε β} {P : α → Prop} {g : α → β}
    (h : ∀ a b, f a = .ok b ↔ P a ∧ b = g a) :
    l.mapM f = .ok l' ↔ (∀ a ∈ l, P a) ∧ l' = l.map g := by
  rw [mapM_ok_iff]
  induction l generalizing l' with
  | nil => simp
  | cons a l ih =>
    rw [List.forall₂_cons_left_iff, List.forall_mem_cons, List.map_cons]
    constructor
    · rintro ⟨b, bs, hb, hbs, rfl⟩
      obtain ⟨ha, rfl⟩ := (h a b).mp hb
      obtain ⟨hl, rfl⟩ := ih.mp hbs
      exact ⟨⟨ha, hl⟩, rfl⟩
    · rintro ⟨⟨ha, hl⟩, rfl⟩
      exact ⟨g a, l.map g, (h a _).mpr ⟨ha, rfl⟩, ih.mpr ⟨hl, rfl⟩, rfl⟩

/-- All elements have an outcome such that something holds of it. -/
theorem exists_mapM_iff {f : α → Except ε β} {P : α → β → Prop} :
    (∃ bs, l.mapM f = .ok bs ∧ List.Forall₂ P l bs) ↔ ∀ a ∈ l, ∃ b, f a = .ok b ∧ P a b := by
  simp only [mapM_ok_iff]
  induction l with
  | nil => exact iff_of_true ⟨[], .nil, .nil⟩ nofun
  | cons a l ih =>
    rw [List.forall_mem_cons, ← ih]
    constructor
    · rintro ⟨bs, hbs, hall⟩
      cases hbs with
      | cons hb hbs =>
        cases hall with
        | cons hP hall => exact ⟨⟨_, hb, hP⟩, _, hbs, hall⟩
    · rintro ⟨⟨b, hb, hP⟩, bs, hbs, hall⟩
      exact ⟨b :: bs, .cons hb hbs, .cons hP hall⟩

end Outcomes
end Lib
