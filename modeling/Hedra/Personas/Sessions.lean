/-
# The sessions of a persona

A persona executes the hooks of a stage in turn, for a time.  A hook executes with the session of its
client, and a stage has one client of each kind, so that hooks of one kind share their session.  The
size of a session's pool is the batch size at first, and two of the personas change it as they go.

`extend_pool` and `shrink_pool` of the task runner count its own concurrency up and down, and leave
the pool as it is.  `extend_pool` of Playwright's client would raise (`self.config` is no mapping),
but there is no such session: `ContextPool` sets `groups_count`, which is not among its slots, so that
the client cannot be made.

The clients are in `core/engines/types`, each in its `client.py`, and the task runner in
`task/runner.py`.
-/
import Mathlib.Data.PNat.Notation
import Mathlib.Data.PNat.Defs
import Mathlib.Data.Rat.Defs
import Mathlib.Logic.Function.Basic

namespace Hedra
namespace Personas

/-- What a persona has been set up with.  A hook is given by its session. -/
structure Persona (σ : Type*) where
  batchSize : ℕ+
  totalTime : ℚ
  hooks : List σ
  runsTasks : σ → Bool

variable {σ : Type*} [DecidableEq σ] (p : Persona σ) (pools : σ → ℤ)

namespace Persona

/-- The sizes of the pools that the sessions have been set up with. -/
def setUp : σ → ℤ := fun _ => p.batchSize

/-- `session.extend_pool(…)` -/
def extendPool (session : σ) (increasedCapacity : ℤ) : σ → ℤ :=
  if p.runsTasks session then pools
  else Function.update pools session (pools session + increasedCapacity)

/-- `session.shrink_pool(…)` -/
def shrinkPool (session : σ) (decreaseCapacity : ℤ) : σ → ℤ :=
  if p.runsTasks session then pools
  else Function.update pools session (pools session - decreaseCapacity)

theorem shrinkPool_eq (session : σ) (n : ℤ) :
    p.shrinkPool pools session n = p.extendPool pools session (-n) := by
  rw [shrinkPool, extendPool, Int.sub_eq_add_neg]

@[simp] theorem extendPool_zero (session : σ) : p.extendPool pools session 0 = pools := by
  rw [extendPool, Int.add_zero, Function.update_eq_self, ite_self]

theorem extendPool_self {session : σ} (h : p.runsTasks session = false) (n : ℤ) :
    p.extendPool pools session n session = pools session + n := by
  rw [extendPool, h, if_neg Bool.false_ne_true, Function.update_self]

theorem extendPool_tasks {session : σ} (h : p.runsTasks session = true) (n : ℤ) :
    p.extendPool pools session n = pools := if_pos h

theorem extendPool_of_ne {session other : σ} (h : other ≠ session) (n : ℤ) :
    p.extendPool pools session n other = pools other := by
  rw [extendPool]
  split
  · rfl
  · exact Function.update_of_ne h _ _

/-- `session.set_pool(…)` for every hook. -/
def setPools (concurrency : ℤ) : σ → ℤ :=
  p.hooks.foldl (fun pools session => Function.update pools session concurrency) pools

theorem foldl_update_eq {concurrency : ℤ} {session : σ} :
    ∀ (hooks : List σ) (pools : σ → ℤ), session ∈ hooks ∨ pools session = concurrency →
      hooks.foldl (fun pools session => Function.update pools session concurrency) pools session =
        concurrency
  | [], _, h => h.resolve_left List.not_mem_nil
  | first :: hooks, pools, h => by
    refine foldl_update_eq hooks _ ?_
    by_cases hfirst : session = first
    · exact Or.inr (hfirst ▸ Function.update_self ..)
    · dsimp only
      rw [Function.update_of_ne hfirst]
      exact h.imp_left fun hmem => (List.mem_cons.mp hmem).resolve_left hfirst

/-- Every hook has a pool of that size then. -/
theorem setPools_of_mem (concurrency : ℤ) {session : σ} (h : session ∈ p.hooks) :
    p.setPools pools concurrency session = concurrency :=
  foldl_update_eq p.hooks pools (Or.inl h)

/-- The hook whose turn is after that of `actionIdx`. -/
def nextAction (actionIdx : ℕ) : ℕ := (actionIdx + 1) % p.hooks.length

omit [DecidableEq σ] in
theorem nextAction_lt (h : p.hooks ≠ []) (actionIdx : ℕ) :
    p.nextAction actionIdx < p.hooks.length :=
  Nat.mod_lt _ (List.length_pos_iff.mpr h)

end Persona

end Personas
end Hedra
