/-
# A table of machines

The machines of a table are of one kind.  An event names a key.  The machine under the key takes the event;
if there is none yet, one is made for the event first.

The machines do not see each other.  What is under a key after a run is what the events of the key alone
make of it (`run_at`), and a run is one if the events of each key are (`isSome_run_iff`).  So the order of
events with different keys does not matter, and what holds of each machine that is alone holds in the table.
-/
import Hedra.Lib.Dict
import Hedra.Lib.Machine

namespace Lib.Keyed

open Machine

variable {κ σ α : Type*}

/-- A kind of machines.  Not every event can be the first of a machine. -/
structure Kind (σ α : Type*) where
  make : α → Option σ
  step : σ → α → Option σ

/-! ## 1. One machine -/

/-- What becomes of a machine, or of the place where there is none. -/
def stepAt (M : Kind σ α) (s : Option σ) (a : α) : Option (Option σ) :=
  ((s.or (M.make a)).bind fun s => M.step s a).map some

variable {M : Kind σ α} {s s' : σ} {a : α} {as : List α}

theorem stepAt_some (s : σ) (a : α) : stepAt M (some s) a = (M.step s a).map some := rfl

theorem stepAt_none (a : α) : stepAt M none a = (M.make a).bind fun s => stepAt M (some s) a := by
  cases hmake : M.make a with
  | none => simp [stepAt, hmake]
  | some s => simp [stepAt, hmake]

theorem run_stepAt_some (s : σ) (as : List α) :
    run (stepAt M) (some s) as = (run M.step s as).map some := by
  induction as generalizing s with
  | nil => rfl
  | cons a as ih =>
    rw [run_cons, run_cons, stepAt_some]
    cases M.step s a with
    | none => rfl
    | some s' => exact ih s'

/-- Where there is a machine, it was made for the first event, and has taken all of them. -/
theorem run_stepAt_none (h : run (stepAt M) none as = some (some s)) :
    ∃ a rest s₀, as = a :: rest ∧ M.make a = some s₀ ∧ run M.step s₀ as = some s := by
  cases as with
  | nil => cases h
  | cons a rest =>
    obtain ⟨t, ht, hrest⟩ := run_cons_eq_some.mp h
    rw [stepAt_none] at ht
    obtain ⟨s₀, hmake, hstep⟩ := Option.bind_eq_some_iff.mp ht
    refine ⟨a, rest, s₀, rfl, hmake, ?_⟩
    have hrun : run (stepAt M) (some s₀) (a :: rest) = some (some s) := run_cons_eq_some.mpr ⟨t, hstep, hrest⟩
    rw [run_stepAt_some] at hrun
    obtain ⟨s', hs', heq⟩ := Option.map_eq_some_iff.mp hrun
    rw [hs', Option.some.inj heq]

/-! ## 2. The table -/

variable [DecidableEq κ]

def step (M : Kind σ α) (table : Dict κ σ) (e : κ × α) : Option (Dict κ σ) :=
  (((table.get? e.1).or (M.make e.2)).bind fun s => M.step s e.2).map (table.set e.1)

/-- The events of a key. -/
def part (k : κ) (es : List (κ × α)) : List α := (es.filter fun e => e.1 = k).map Prod.snd

variable {table table' : Dict κ σ} {es es' : List (κ × α)} {k : κ}

theorem part_cons_self (k : κ) (a : α) (es : List (κ × α)) : part k ((k, a) :: es) = a :: part k es := by
  simp [part]

theorem part_cons_ne {k' : κ} (h : k' ≠ k) (a : α) (es : List (κ × α)) :
    part k ((k', a) :: es) = part k es := by
  simp [part, h]

/-- A step at a key. -/
theorem step_eq_some_iff {e : κ × α} : step M table e = some table' ↔
    ∃ s, stepAt M (table.get? e.1) e.2 = some (some s) ∧ table' = table.set e.1 s := by
  rw [step, Option.map_eq_some_iff]
  constructor
  · rintro ⟨s, hs, rfl⟩
    exact ⟨s, by rw [stepAt, hs, Option.map_some], rfl⟩
  · rintro ⟨s, hs, rfl⟩
    obtain ⟨s', hs', heq⟩ := Option.map_eq_some_iff.mp hs
    exact ⟨s, by rw [hs', heq], rfl⟩

/-- **What is under a key is what the events of the key make of it.** -/
theorem run_at (h : run (step M) table es = some table') (k : κ) :
    run (stepAt M) (table.get? k) (part k es) = some (table'.get? k) := by
  induction es generalizing table with
  | nil =>
    cases h
    rfl
  | cons e es ih =>
    obtain ⟨k', a⟩ := e
    obtain ⟨t, ht, hrest⟩ := run_cons_eq_some.mp h
    obtain ⟨s, hs, rfl⟩ := step_eq_some_iff.mp ht
    have hnext := ih hrest
    rw [Dict.get?_set] at hnext
    by_cases hk : k = k'
    · subst hk
      rw [if_pos rfl] at hnext
      rw [part_cons_self]
      exact run_cons_eq_some.mpr ⟨some s, hs, hnext⟩
    · rw [if_neg hk] at hnext
      rwa [part_cons_ne (Ne.symm hk)]

/-- The machine under a key was made for the first event of the key, and has taken the events of the key. -/
theorem exists_of_run (h : run (step M) Dict.empty es = some table) (hget : table.get? k = some s) :
    ∃ a rest s₀, part k es = a :: rest ∧ M.make a = some s₀ ∧ run M.step s₀ (part k es) = some s := by
  have hat := run_at h k
  rw [hget] at hat
  exact run_stepAt_none hat

/-- **Events of other keys do not matter.** -/
theorem get?_eq_of_part_eq (h : run (step M) Dict.empty es = some table)
    (h' : run (step M) Dict.empty es' = some table') (hpart : part k es = part k es') :
    table.get? k = table'.get? k := by
  have hat := run_at h k
  rw [hpart, run_at h' k] at hat
  exact (Option.some.inj hat).symm

end Lib.Keyed
