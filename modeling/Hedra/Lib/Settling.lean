/-
# Runs that settle

A machine whose labels either pass its first state by, or take it into an invariant that every label
keeps, performs every run, and has settled after the first label of the second kind.

* `exists_run_of_invariant`: from a state of the invariant every run can be performed;
* `exists_run_of_settles`: so it can from the first state, which one label settles.
-/
import Hedra.Lib.Machine

namespace Lib.Machine

variable {σ α : Type*} {step : σ → α → Option σ} {s : σ} {I : σ → Prop}

/-- From a state of the invariant every label is enabled, and keeps it. -/
theorem exists_run_of_invariant (hkeep : ∀ s a, I s → ∃ s', step s a = some s' ∧ I s') (hI : I s)
    (as : List α) : ∃ s', run step s as = some s' ∧ I s' := by
  induction as generalizing s with
  | nil => exact ⟨s, rfl, hI⟩
  | cons a as ih =>
    obtain ⟨t, ht, hIt⟩ := hkeep s a hI
    rw [run_cons, ht, Option.bind_some]
    exact ih hIt

/-- **One label settles the run**, whatever comes before and after it. -/
theorem exists_run_of_settles {P : α → Prop} (hskip : ∀ a, ¬P a → step s a = some s)
    (hfirst : ∀ a, P a → ∃ s', step s a = some s' ∧ I s')
    (hkeep : ∀ s a, I s → ∃ s', step s a = some s' ∧ I s') (as : List α) :
    ∃ s', run step s as = some s' ∧ ((∃ a ∈ as, P a) → I s') := by
  induction as with
  | nil => exact ⟨s, rfl, fun ⟨a, ha, _⟩ => absurd ha List.not_mem_nil⟩
  | cons a as ih =>
    rw [run_cons]
    by_cases ha : P a
    · obtain ⟨t, ht, hIt⟩ := hfirst a ha
      obtain ⟨s', hrun, hI⟩ := exists_run_of_invariant hkeep hIt as
      rw [ht, Option.bind_some]
      exact ⟨s', hrun, fun _ => hI⟩
    · obtain ⟨s', hrun, hI⟩ := ih
      rw [hskip a ha, Option.bind_some]
      refine ⟨s', hrun, fun ⟨b, hb, hP⟩ => hI ?_⟩
      rcases List.mem_cons.mp hb with rfl | hb
      · exact absurd hP ha
      · exact ⟨b, hb, hP⟩

end Lib.Machine
