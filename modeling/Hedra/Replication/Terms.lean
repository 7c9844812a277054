/-
# Does the term number ever go down?

`run_election` (`distributed/replication/replication_controller.py`) computes `next_term` before its
awaits and cuts the term back to it after them; `_cancel_election` writes the term of the message it
was created for, whenever it comes to run.  Both write a term that was current once.  Nothing else
lowers it: the term never goes down in a run exactly if none of these writes is late in it.

* `termNumber_le_iff`: one step lowers the term exactly if it writes one that has been left behind;
* `term_monotone_iff`: the runs in which it never goes down.
-/
import Hedra.Replication.ControllerStep

namespace Hedra
namespace Controller

open Lib Lib.Machine

/-! ## 1. One step -/

/-- The event writes no term that has been left behind. -/
def KeepsTerm (c : Controller) : Event → Prop
  | .resume (.cancelElection m) _ => c.termNumber ≤ m.termNumber
  | .resume (.lost nextTerm) _ => c.termNumber ≤ nextTerm
  | .resume (.announcing nextTerm _) _ => c.termNumber ≤ nextTerm
  | _ => True

@[simp] theorem Ledger.take_term (l : Ledger) (p : Option Phase) : (l.take p).term = l.term := by
  cases p <;> rfl

@[simp] theorem Ledger.put_term (l : Ledger) (p : Option Phase) : (l.put p).term = l.term := by
  cases p <;> rfl

/-- The term after a move. -/
def Ledger.termAfter (l : Ledger) : Move → Int
  | .win _ _ => l.term + 1
  | .finish nextTerm => if l.term > nextTerm then nextTerm else l.term
  | .behind term _ => term
  | .cancel term => term
  | _ => l.term

theorem Ledger.apply_term (l : Ledger) (mv : Move) : (l.apply mv).term = l.termAfter mv := by
  cases mv with
  | choose nextTerm leader =>
    simp only [apply, termAfter]
    split <;> simp
  | win nextTerm announces =>
    simp only [apply, termAfter]
    split <;> simp
  | _ => simp [apply, termAfter]

/-- **One step lowers the term exactly if it writes a term that has been left behind.** -/
theorem termNumber_le_iff {c c' : Controller} {ev : Event} (h : c.step ev = some c') :
    c.termNumber ≤ c'.termNumber ↔ c.KeepsTerm ev := by
  have hterm : c'.termNumber = c.ledger.termAfter (c.move ev) := by
    have := congrArg Ledger.term (ledger_step h)
    rw [Ledger.apply_term] at this
    rw [show c'.termNumber = c'.ledger.term from rfl, this]
    cases c.move ev <;> simp [Ledger.termAfter]
  have hc : c.ledger.term = c.termNumber := rfl
  rw [hterm]
  cases ev with
  | logUpdate m =>
    rw [move]
    split
    · split
      · next hnew => exact iff_of_true (le_of_lt hnew) trivial
      · exact iff_of_true (le_refl _) trivial
    · exact iff_of_true (le_refl _) trivial
  | resume t now =>
    cases t with
    | cancelElection m => exact Iff.rfl
    | lost nextTerm =>
      simp only [move, resumeMove, Ledger.termAfter, KeepsTerm, hc]
      split <;> omega
    | announcing nextTerm us =>
      simp only [move, resumeMove, Ledger.termAfter, KeepsTerm, hc]
      split <;> omega
    | elected nextTerm failedNode =>
      simp only [move, resumeMove, Ledger.termAfter, KeepsTerm, hc, iff_true]
      omega
    | _ => exact iff_of_true (le_refl _) trivial
  | _ => exact iff_of_true (le_refl _) trivial

/-! ## 2. Runs -/

/-- **The term never goes down in a run exactly if every step of it keeps the term.** -/
theorem term_monotone_iff (address : Address) (instanceId current : Nat) (pollRetries : ℕ+)
    (maxAge : ℚ) (maxCount : Nat) (evs : List Event) :
    NeverDecreases step termNumber (init address instanceId current pollRetries maxAge maxCount)
        evs ↔
      Along step (fun c ev _ => c.KeepsTerm ev)
        (init address instanceId current pollRetries maxAge maxCount) evs := by
  rw [neverDecreases_iff]
  refine along_congr fun c ev c' h => ?_
  exact termNumber_le_iff h

/-- The task that cancels the election of term 5 runs after term 6 has been adopted. -/
theorem term_decreases :
    ¬ ∀ (address : Address) (instanceId current : Nat) (pollRetries : ℕ+) (maxAge : ℚ)
        (maxCount : Nat) (evs : List Event),
      NeverDecreases step termNumber
        (init address instanceId current pollRetries maxAge maxCount) evs := by
  intro h
  have hle := h ⟨"127.0.0.1", 9002⟩ 7 0 1 0 0
    [.logUpdate (leaderUpdate 5 1), .logUpdate (leaderUpdate 6 2),
      .resume (.cancelElection (leaderUpdate 5 1)) 0]
    [.logUpdate (leaderUpdate 5 1), .logUpdate (leaderUpdate 6 2)]
    [.resume (.cancelElection (leaderUpdate 5 1)) 0] [] _ _ rfl rfl rfl
  exact absurd hle (by decide)

end Controller
end Hedra
