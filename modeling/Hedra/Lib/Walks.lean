/-
# Walks with one way to go

From each place there is at most one next one.  A walk from a place comes to an end or to a cycle, and
never to both: this is what a walker relies on that remembers where it has been.

`Circles` and an end exclude one another (`not_cycle_of_end`): a walk that comes to an end passes no
place twice.
-/
import Mathlib.Logic.Relation

namespace Lib
namespace Walks

open Relation

variable {α : Type*} {R : α → α → Prop}

/-- There is at most one next place. -/
def OneWay (R : α → α → Prop) : Prop := ∀ ⦃x y z⦄, R x y → R x z → y = z

/-- From there a cycle is reached. -/
def Circles (R : α → α → Prop) (x : α) : Prop := ∃ y, ReflTransGen R x y ∧ TransGen R y y

theorem Circles.exists_next {x : α} (h : Circles R x) : ∃ y, R x y := by
  obtain ⟨y, hreach, hcycle⟩ := h
  obtain ⟨z, hnext, -⟩ := TransGen.head'_iff.mp (TransGen.trans_right hreach hcycle)
  exact ⟨z, hnext⟩

/-- On the way to a cycle, and on it, the next place is too. -/
theorem Circles.next {x y : α} (hone : OneWay R) (h : Circles R x) (hnext : R x y) : Circles R y := by
  obtain ⟨z, hreach, hcycle⟩ := h
  rcases hreach.cases_head with rfl | ⟨y', hnext', hrest⟩
  · obtain ⟨y', hnext', hback⟩ := TransGen.head'_iff.mp hcycle
    obtain rfl := hone hnext hnext'
    exact ⟨x, hback, hcycle⟩
  · obtain rfl := hone hnext hnext'
    exact ⟨z, hrest, hcycle⟩

/-- And so is every place behind. -/
theorem Circles.reach {x y : α} (hone : OneWay R) (h : Circles R x) (hreach : ReflTransGen R x y) :
    Circles R y := by
  induction hreach with
  | refl => exact h
  | tail _ hnext ih => exact ih.next hone hnext

/-- **A walk that comes to an end passes no place twice.** -/
theorem not_cycle_of_end {x z : α} (hone : OneWay R) (h : ReflTransGen R x z) (hend : ∀ y, ¬ R z y) :
    ¬ TransGen R x x := by
  intro hcycle
  have hcircles : Circles R x := ⟨x, .refl, hcycle⟩
  obtain ⟨y, hnext⟩ := (hcircles.reach hone h).exists_next
  exact hend y hnext

end Walks
end Lib
