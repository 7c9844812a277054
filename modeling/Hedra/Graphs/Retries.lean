/-
# Retries

A transition is tried again while its edge has an exception, and a setup hook until its retries are used
up.  In both loops the exception of an attempt is kept in a field that no later attempt clears.

So it is the first attempt that decides.  The rest is as it should be only where the first attempt
succeeds, or where all of them fail.

The loops are in `core/graphs/transitions/transition.py` (`execute`) and
`core/graphs/stages/setup/setup.py`.  They are `retry` and `SetupCall.setup` here, over attempts
that may raise; `proper_iff` is the equivalence for both.
-/
import Mathlib.Order.Lattice

namespace Hedra
namespace Graphs
namespace Retries

variable {ε : Type}

/-! ## 1. A transition -/

/-- The exception field of an edge. -/
structure Edge (ε : Type) where
  exception : Option ε

/-- An attempt: what the run of the stage raises is stored. -/
def Edge.transition (run : Except ε Unit) (edge : Edge ε) : Edge ε :=
  match run with
  | .ok _ => edge
  | .error e => { edge with exception := some e }

/-- The loop over the retries, and how many attempts it makes. -/
def retry : ℕ → (ℕ → Except ε Unit) → Edge ε → Edge ε × ℕ
  | 0, _, edge => (edge, 0)
  | n + 1, runs, edge =>
    let edge := edge.transition (runs 0)
    if edge.exception.isNone then (edge, 1)
    else
      let (edge, attempts) := retry n (fun i => runs (i + 1)) edge
      (edge, attempts + 1)

/-- `Transition.execute`, as far as the attempts go. -/
def execute (retries : ℕ) (runs : ℕ → Except ε Unit) : Edge ε × ℕ :=
  if 0 < retries then retry retries runs ⟨none⟩ else (Edge.transition (runs 0) ⟨none⟩, 1)

/-! ## 2. A setup hook -/

/-- What becomes of a call of a hook.  A client that has prepared the action stores it, which tells the
waiter, and suspends the call for good. -/
inductive Call (ε : Type)
  | stored
  | returned
  | raised (e : ε)

structure SetupCall (ε : Type) where
  exception : Option ε
  retries : ℕ
  currentTry : ℕ

/-- `SetupCall.setup`: the call behind it, how many attempts it makes, and whether the waiter is told. -/
def SetupCall.setup : ℕ → (ℕ → Call ε) → SetupCall ε → SetupCall ε × ℕ × Bool
  | 0, _, call => (call, 0, false)
  | n + 1, calls, call =>
    match calls 0 with
    | .stored => (call, 1, true)
    | .returned =>
      let (call, attempts, ready) := setup n (fun i => calls (i + 1)) call
      (call, attempts + 1, ready)
    | .raised e =>
      let call := { call with exception := some e }
      if call.retries ≤ call.currentTry then (call, 1, true)
      else
        let (call, attempts, ready) :=
          setup n (fun i => calls (i + 1)) { call with currentTry := call.currentTry + 1 }
        (call, attempts + 1, ready)

/-! ## 3. What is reported -/

/-- How many attempts are made, and whether a failure is reported. -/
structure Report where
  attempts : ℕ
  failed : Bool
deriving DecidableEq

/-- What is retried, with what comes of the attempts. -/
inductive Retried (ε : Type)
  | transition (runs : ℕ → Except ε Unit)
  | setupHook (calls : ℕ → Call ε)

namespace Retried

/-- An attempt fails. -/
def Fails : Retried ε → ℕ → Prop
  | transition runs, i => ∃ e, runs i = .error e
  | setupHook calls, i => ∃ e, calls i = .raised e

/-- How many attempts there may be. -/
def allowed (retries : ℕ) : Retried ε → ℕ
  | transition _ => max 1 retries
  | setupHook _ => retries

/-- The report: of `Graph.run`, which looks at the exception of the edge, or of `setup_action`, which
waits, and then looks at that of the call. -/
def report (retries : ℕ) : Retried ε → Option Report
  | transition runs =>
    let (edge, attempts) := execute retries runs
    some ⟨attempts, edge.exception.isSome⟩
  | setupHook calls =>
    let (call, attempts, ready) := SetupCall.setup retries calls ⟨none, retries, 1⟩
    if ready then some ⟨attempts, call.exception.isSome⟩ else none

/-- No attempt is made behind one that succeeds, none is left out where none does, and a failure is
reported if and only if all fail. -/
structure ProperReport (x : Retried ε) (retries : ℕ) (r : Report) : Prop where
  stops : ∀ i, i + 1 < r.attempts → x.Fails i
  within : r.attempts ≤ x.allowed retries
  enough : r.attempts < x.allowed retries → ∃ i < r.attempts, ¬ x.Fails i
  failed : r.failed = true ↔ ∀ i < x.allowed retries, x.Fails i

/-- There is a report, and it is as it should be. -/
def Proper (x : Retried ε) (retries : ℕ) : Prop :=
  ∃ r, x.report retries = some r ∧ x.ProperReport retries r

/-- The first attempt succeeds, or all of them fail.  Of a hook there is a first attempt only with a
retry, and it succeeds by storing its action. -/
def FirstDecides (retries : ℕ) : Retried ε → Prop
  | transition runs => (∃ u, runs 0 = .ok u) ∨ ∀ i < max 1 retries, ∃ e, runs i = .error e
  | setupHook calls => 0 < retries ∧ (calls 0 = .stored ∨ ∀ i < retries, ∃ e, calls i = .raised e)

end Retried

/-! ## 4. The loops -/

/-- Once there is an exception, all attempts are made, and it stays. -/
theorem retry_of_isSome (n : ℕ) (runs : ℕ → Except ε Unit) {edge : Edge ε} (h : edge.exception.isSome) :
    (retry n runs edge).2 = n ∧ (retry n runs edge).1.exception.isSome := by
  induction n generalizing runs edge with
  | zero => exact ⟨rfl, h⟩
  | succ n ih =>
    have hstep : (edge.transition (runs 0)).exception.isSome := by
      unfold Edge.transition
      split
      · exact h
      · rfl
    obtain ⟨hattempts, hsome⟩ := ih (fun i => runs (i + 1)) hstep
    simp only [retry, Option.isNone_iff_eq_none.not.mpr (Option.ne_none_iff_isSome.mpr hstep), Bool.false_eq_true,
      if_false]
    exact ⟨congrArg Nat.succ hattempts, hsome⟩

theorem execute_ok {retries : ℕ} {runs : ℕ → Except ε Unit} {u : Unit} (h : runs 0 = .ok u) :
    execute retries runs = (⟨none⟩, 1) := by
  unfold execute
  cases retries with
  | zero => rw [if_neg (Nat.lt_irrefl 0), h]; rfl
  | succ n =>
    rw [if_pos (Nat.succ_pos n), retry, h]
    rfl

theorem execute_error {retries : ℕ} {runs : ℕ → Except ε Unit} {e : ε} (h : runs 0 = .error e) :
    (execute retries runs).2 = max 1 retries ∧ (execute retries runs).1.exception.isSome := by
  unfold execute
  cases retries with
  | zero =>
    rw [if_neg (Nat.lt_irrefl 0), h]
    exact ⟨rfl, rfl⟩
  | succ n =>
    obtain ⟨hattempts, hsome⟩ := @retry_of_isSome ε n (fun i => runs (i + 1)) ⟨some e⟩ rfl
    rw [if_pos (Nat.succ_pos n), Nat.max_eq_right (Nat.succ_le_succ (Nat.zero_le n)), retry, h]
    exact ⟨congrArg Nat.succ hattempts, hsome⟩

namespace SetupCall

/-- An exception stays. -/
theorem setup_isSome (n : ℕ) (calls : ℕ → Call ε) {call : SetupCall ε} (h : call.exception.isSome) :
    (setup n calls call).1.exception.isSome := by
  induction n generalizing calls call with
  | zero => exact h
  | succ n ih =>
    rw [setup]
    cases calls 0 with
    | stored => exact h
    | returned => exact ih _ h
    | raised e =>
      dsimp only
      split
      · rfl
      · exact ih _ rfl

/-- Where there is a retry, there is an attempt. -/
theorem setup_attempts_pos (n : ℕ) (calls : ℕ → Call ε) (call : SetupCall ε) :
    0 < (setup (n + 1) calls call).2.1 := by
  rw [setup]
  cases calls 0 with
  | stored => exact Nat.one_pos
  | returned => exact Nat.succ_pos _
  | raised e =>
    dsimp only
    split
    · exact Nat.one_pos
    · exact Nat.succ_pos _

/-- Where all fail, all attempts are made, and the waiter is told. -/
theorem setup_of_raised {n : ℕ} {calls : ℕ → Call ε} {call : SetupCall ε}
    (h : ∀ i < n + 1, ∃ e, calls i = .raised e) (htries : call.currentTry + n = call.retries) :
    (setup (n + 1) calls call).2 = (n + 1, true) := by
  induction n generalizing calls call with
  | zero =>
    obtain ⟨e, he⟩ := h 0 Nat.one_pos
    rw [setup, he]
    dsimp only
    rw [if_pos (show call.retries ≤ call.currentTry from Nat.le_of_eq htries.symm)]
  | succ n ih =>
    obtain ⟨e, he⟩ := h 0 (Nat.succ_pos _)
    have hrest := @ih (fun i => calls (i + 1)) ⟨some e, call.retries, call.currentTry + 1⟩
      (fun i hi => h (i + 1) (Nat.succ_lt_succ hi)) (by dsimp only; omega)
    rw [setup, he]
    dsimp only
    rw [if_neg (by omega)]
    exact congrArg (fun p : ℕ × Bool => (p.1 + 1, p.2)) hrest

end SetupCall

/-! ## 5. Reports -/

namespace Retried

theorem transition_proper_iff (retries : ℕ) (runs : ℕ → Except ε Unit) :
    (transition runs).Proper retries ↔ (transition runs).FirstDecides retries := by
  have hpos : 0 < max 1 retries := Nat.lt_of_lt_of_le Nat.one_pos (Nat.le_max_left 1 retries)
  cases hfirst : runs 0 with
  | ok u =>
    refine iff_of_true ⟨⟨1, false⟩, ?_, ?_⟩ (.inl ⟨u, hfirst⟩)
    · rw [report, execute_ok hfirst]
      rfl
    · have hnot : ¬ (transition runs).Fails 0 := by
        rintro ⟨e, he⟩
        rw [hfirst] at he
        cases he
      exact ⟨fun i hi => absurd hi (Nat.not_lt.mpr (Nat.le_add_left 1 i)), hpos, fun _ => ⟨0, Nat.one_pos, hnot⟩,
        iff_of_false Bool.false_ne_true fun hall => hnot (hall 0 hpos)⟩
  | error e =>
    obtain ⟨hattempts, hsome⟩ := @execute_error ε retries runs e hfirst
    have hreport : (transition runs).report retries = some ⟨max 1 retries, true⟩ := by
      rw [report]
      dsimp only
      rw [hattempts, hsome]
    constructor
    · rintro ⟨r, hr, h⟩
      obtain rfl := Option.some.inj (hreport.symm.trans hr)
      exact .inr (h.failed.mp rfl)
    · rintro (⟨u, hu⟩ | hall)
      · rw [hfirst] at hu
        cases hu
      · exact ⟨_, hreport, fun i hi => hall i (Nat.lt_of_succ_lt hi), le_rfl,
          fun hlt => absurd hlt (Nat.lt_irrefl _), iff_of_true rfl hall⟩

theorem report_setupHook (retries : ℕ) (calls : ℕ → Call ε) : (setupHook calls).report retries =
    if (SetupCall.setup retries calls ⟨none, retries, 1⟩).2.2 then
      some ⟨(SetupCall.setup retries calls ⟨none, retries, 1⟩).2.1,
        (SetupCall.setup retries calls ⟨none, retries, 1⟩).1.exception.isSome⟩
    else none := rfl

theorem setupHook_proper_iff (retries : ℕ) (calls : ℕ → Call ε) :
    (setupHook calls).Proper retries ↔ (setupHook calls).FirstDecides retries := by
  cases retries with
  | zero => exact iff_of_false (fun ⟨_, hr, _⟩ => nomatch hr) fun h => absurd h.1 (Nat.lt_irrefl 0)
  | succ n =>
    cases hfirst : calls 0 with
    | stored =>
      have hnot : ¬ (setupHook calls).Fails 0 := by
        rintro ⟨e, he⟩
        rw [hfirst] at he
        cases he
      refine iff_of_true ⟨⟨1, false⟩, ?_, ?_⟩ ⟨Nat.succ_pos n, .inl hfirst⟩
      · rw [report, SetupCall.setup, hfirst]
        rfl
      · exact ⟨fun i hi => absurd hi (Nat.not_lt.mpr (Nat.le_add_left 1 i)), Nat.succ_pos n, fun _ => ⟨0, Nat.one_pos, hnot⟩,
          iff_of_false Bool.false_ne_true fun hall => hnot (hall 0 (Nat.succ_pos n))⟩
    | returned =>
      have hnot : ¬ (setupHook calls).Fails 0 := by
        rintro ⟨e, he⟩
        rw [hfirst] at he
        cases he
      refine iff_of_false ?_ ?_
      · rintro ⟨r, hr, h⟩
        rw [report, SetupCall.setup, hfirst] at hr
        dsimp only at hr
        split at hr
        · cases n with
          | zero => next hready => cases hready
          | succ n =>
            have hattempts := SetupCall.setup_attempts_pos n (fun i => calls (i + 1)) ⟨none, n + 1 + 1, 1⟩
            cases hr
            exact hnot (h.stops 0 (Nat.succ_lt_succ hattempts))
        · cases hr
      · rintro ⟨-, hstored | hall⟩
        · rw [hfirst] at hstored
          cases hstored
        · exact hnot (hall 0 (Nat.succ_pos n))
    | raised e =>
      have hsome : (SetupCall.setup (n + 1) calls ⟨none, n + 1, 1⟩).1.exception.isSome := by
        rw [SetupCall.setup, hfirst]
        dsimp only
        split
        · rfl
        · exact SetupCall.setup_isSome n _ rfl
      rw [Proper, report_setupHook, hsome]
      constructor
      · rintro ⟨r, hr, h⟩
        refine ⟨Nat.succ_pos n, .inr (h.failed.mp ?_)⟩
        split at hr
        · cases hr
          rfl
        · cases hr
      · rintro ⟨-, hstored | hall⟩
        · rw [hfirst] at hstored
          cases hstored
        · have hsetup := @SetupCall.setup_of_raised ε n calls ⟨none, n + 1, 1⟩ hall (Nat.add_comm 1 n)
          rw [hsetup]
          exact ⟨⟨n + 1, true⟩, rfl, fun i hi => hall i (Nat.lt_of_succ_lt hi), le_rfl,
            fun hlt => absurd hlt (Nat.lt_irrefl _), iff_of_true rfl hall⟩

/-- **The attempts are reported as they should be if and only if the first of them decides.** -/
theorem proper_iff (x : Retried ε) (retries : ℕ) : x.Proper retries ↔ x.FirstDecides retries := by
  cases x with
  | transition runs => exact transition_proper_iff retries runs
  | setupHook calls => exact setupHook_proper_iff retries calls

/-- The first attempt fails and the second succeeds: a transition with three retries is tried once more and
fails, and a hook with three fails, too. -/
theorem not_proper :
    (transition fun i => if i = 0 then .error () else .ok ()).report 3 = some ⟨3, true⟩ ∧
    ¬ (transition fun i => if i = 0 then .error () else .ok ()).Proper 3 ∧
    (setupHook fun i => if i = 0 then .raised () else .stored).report 3 = some ⟨2, true⟩ ∧
    ¬ (setupHook fun i => if i = 0 then .raised () else .stored).Proper 3 := by
  refine ⟨rfl, ?_, rfl, ?_⟩
  · rintro ⟨r, hr, h⟩
    cases hr
    obtain ⟨e, he⟩ := h.failed.mp rfl 1 (by decide)
    cases he
  · rintro ⟨r, hr, h⟩
    cases hr
    obtain ⟨e, he⟩ := h.failed.mp rfl 1 (by decide)
    cases he

end Retried

end Retries
end Graphs
end Hedra
