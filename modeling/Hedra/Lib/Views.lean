/-
# Views that are computed when they are asked for

An object with views: asking for one gives a value, and may change the object, which keeps what it
has computed.  What is asked for can therefore depend on what was asked for before.

An object is *steady* if it does not, so that every reader of its views comes to the same end at
any time.

* `steady_of_invariant`: what shows that an object is steady;
* `Reader.run_after`: a reader of a steady object reads the same at any time.
-/
import Mathlib.Data.List.Basic

namespace Lib.Views

variable {σ ν ρ β : Type*} (access : ν → σ → ρ × σ)

/-- The object, after these views were asked for. -/
def after (s : σ) : List ν → σ
  | [] => s
  | v :: vs => after (access v s).2 vs

/-- Whatever was asked for before, a view has the same value. -/
def Steady (s : σ) : Prop :=
  ∀ vs vs' v, (access v (after access s vs)).1 = (access v (after access s vs')).1

theorem after_append (s : σ) (vs vs' : List ν) :
    after access s (vs ++ vs') = after access (after access s vs) vs' := by
  induction vs generalizing s with
  | nil => rfl
  | cons v vs ih => exact ih (access v s).2

variable {access} {s : σ}

/-- The views are steady where an invariant fixes what they are. -/
theorem steady_of_invariant {I : σ → Prop} (fresh : ν → ρ) (hI : I s)
    (hstep : ∀ t v, I t → (access v t).1 = fresh v ∧ I (access v t).2) : Steady access s := by
  have hafter : ∀ vs, I (Views.after access s vs) := by
    intro vs
    induction vs generalizing s with
    | nil => exact hI
    | cons v vs ih => exact ih (hstep s v hI).2
  intro vs vs' v
  rw [(hstep _ v (hafter vs)).1, (hstep _ v (hafter vs')).1]

/-! ## 1. Readers -/

/-- What reads views, one after the other, and decides. -/
inductive Reader (ν ρ β : Type*)
  | done (b : β)
  | look (v : ν) (next : ρ → Reader ν ρ β)

variable (access) in
def Reader.run : Reader ν ρ β → σ → β × σ
  | done b, s => (b, s)
  | look v next, s => (next (access v s).1).run (access v s).2

/-- A reader leaves an object of which some views were asked for. -/
theorem Reader.exists_after (p : Reader ν ρ β) (s : σ) : ∃ vs, (p.run access s).2 = after access s vs := by
  induction p generalizing s with
  | done b => exact ⟨[], rfl⟩
  | look v next ih =>
    obtain ⟨vs, hvs⟩ := ih (access v s).1 (access v s).2
    exact ⟨v :: vs, hvs⟩

/-- Of a steady object, a reader decides the same at any time. -/
theorem Reader.run_after (p : Reader ν ρ β) (h : Steady access s) (vs : List ν) :
    (p.run access (after access s vs)).1 = (p.run access s).1 := by
  induction p generalizing s vs with
  | done b => rfl
  | look v next ih =>
    have hsame : (access v (Views.after access s vs)).1 = (access v s).1 := h vs [] v
    have hrest : ∀ us : List ν, ((next (access v s).1).run access (Views.after access s us)).1 =
        ((next (access v s).1).run access s).1 := fun us => ih _ h us
    have hlater : (access v (Views.after access s vs)).2 = Views.after access s (vs ++ [v]) := by
      rw [after_append]
      rfl
    have hnow : (access v s).2 = Views.after access s [v] := rfl
    rw [Reader.run, Reader.run, hsame, hlater, hnow, hrest, hrest]

end Lib.Views
