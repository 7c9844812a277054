/-
# The newest record of a history

A record is newest in a list when it is in it and none of the list has a larger stamp.
Being newest is a matter of membership alone: the order of the list and repetitions do not
change it.  `forall_prefix_iff` is the induction rule for properties of a history and of what
it has led to.
-/
import Mathlib.Data.List.Induction
import Mathlib.Order.Lattice

namespace Lib

variable {α β : Type*} [LinearOrder β] (stamp : α → β)

/-! ## 1. Newest records -/

/-- `x` is in `l`, and no record of `l` has a larger stamp. -/
def Newest (l : List α) (x : α) : Prop := x ∈ l ∧ ∀ y ∈ l, stamp y ≤ stamp x

variable {stamp}

theorem newest_congr {l l' : List α} (h : ∀ x, x ∈ l ↔ x ∈ l') (x : α) :
    Newest stamp l x ↔ Newest stamp l' x := by
  simp only [Newest, h]

/-- The newest records when one more comes: that one, unless it is older than one of the
others, and the former ones, unless it is newer. -/
theorem newest_concat_iff {l : List α} {a x : α} :
    Newest stamp (l ++ [a]) x ↔
      (x = a ∧ ∀ y ∈ l, stamp y ≤ stamp a) ∨ (Newest stamp l x ∧ stamp a ≤ stamp x) := by
  constructor
  · rintro ⟨hx, hmax⟩
    have hl : ∀ y ∈ l, stamp y ≤ stamp x := fun y hy => hmax y (List.mem_append_left _ hy)
    have ha : stamp a ≤ stamp x := hmax a (by simp)
    rcases List.mem_append.mp hx with hx | hx
    · exact Or.inr ⟨⟨hx, hl⟩, ha⟩
    · obtain rfl := List.mem_singleton.mp hx
      exact Or.inl ⟨rfl, hl⟩
  · rintro (⟨rfl, hl⟩ | ⟨⟨hx, hl⟩, ha⟩)
    · refine ⟨by simp, fun y hy => ?_⟩
      rcases List.mem_append.mp hy with hy | hy
      · exact hl y hy
      · exact (List.mem_singleton.mp hy) ▸ le_refl _
    · refine ⟨List.mem_append_left _ hx, fun y hy => ?_⟩
      rcases List.mem_append.mp hy with hy | hy
      · exact hl y hy
      · exact (List.mem_singleton.mp hy) ▸ ha

/-! ## 2. Histories -/

/-- **A property that one more entry keeps exactly under a condition** holds after every
prefix of a history exactly if the condition is met at every entry. -/
theorem forall_prefix_iff {P : List α → Prop} {C : List α → α → Prop} (h₀ : P [])
    (hstep : ∀ l a, P l → (P (l ++ [a]) ↔ C l a)) {as : List α} :
    (∀ l, l <+: as → P l) ↔ ∀ l a, l ++ [a] <+: as → C l a := by
  constructor
  · intro h l a hpre
    have hl : P l := h l ((List.prefix_append l [a]).trans hpre)
    exact (hstep l a hl).mp (h _ hpre)
  · intro h l
    induction l using List.reverseRecOn with
    | nil => exact fun _ => h₀
    | append_singleton l a ih =>
      intro hpre
      have hl : P l := ih ((List.prefix_append l [a]).trans hpre)
      exact (hstep l a hl).mpr (h l a hpre)

end Lib
