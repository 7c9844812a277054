/-
# The turns of the hooks

The `generator` of a persona yields the index of a hook, sleeps, reads the clock, and goes on as long as
there is time.  Which hook is next, and where it sleeps once more, differs from persona to persona: here are
those of `core/personas/types/` that deal the hooks out in rotation (`default_persona.py`,
`constant_spawn_rate_persona.py`, `batched_persona.py`, `cyclic_nowait_persona.py`,
`ramped_interval_persona.py`; the sequenced persona has the default one).

`Advanced` says what a turn of any of them does, and `Inv` what a run keeps.  From these

* `dealt_evenly`: the batched persona gives a hook as many turns in a row as the batch size says, the
  others give it one, and no hook is ahead of another by more than that;
* `slept_lt_totalTime`: as a sleep lasts at least as long as it is asked to, there are only so many turns in
  the time of a stage.

The clock is exact here, and reading it takes no time.
-/
import Mathlib.Data.PNat.Notation
import Mathlib.Data.PNat.Defs
import Mathlib.Data.Rat.Defs
import Mathlib.Algebra.Order.Field.Rat
import Mathlib.Tactic.Linarith
import Hedra.Lib.Machine
import Hedra.Lib.Rotation

namespace Hedra
namespace Personas
namespace Dealing

open Lib Machine Rotation

/-! ## 1. The generators -/

/-- What the generators read of a persona. -/
structure Config where
  actionsCount : ℕ+
  batchSize : ℕ+
  batchInterval : ℚ
  batchGradient : ℚ
  actionInterval : ℚ
  totalTime : ℚ

/-- How long a turn lasts: its sleep, the sleep behind a batch, and the wait for the active threshold,
which is over at once where there are not too many active requests. -/
structure Lasting where
  sleep : ℚ
  rest : ℚ
  wait : ℚ

/-- The variables of the generators, the time since the start, and what has been yielded. -/
structure State where
  now : ℚ := 0
  elapsed : ℚ := 0
  idx : ℕ := 0
  actionIdx : ℕ := 0
  generationBatchInterval : ℚ
  batchStart : ℚ := 0
  yielded : List ℕ := []

/-- `await asyncio.sleep(asked)`, which lasts at least as long. -/
def State.sleep (s : State) (asked lasted : ℚ) : Option State :=
  if asked ≤ lasted ∧ 0 ≤ lasted then some { s with now := s.now + lasted } else none

variable (c : Config)

/-- What comes before the loops. -/
def start : State where
  generationBatchInterval := c.batchInterval * c.batchGradient

/-- A turn: the hook is yielded, and `rest` is from where the clock has been read.  There is none when the
time is over. -/
def turnOf (s : State) (actionIdx : ℕ) (asked : ℚ) (l : Lasting) (rest : State → Option State) : Option State :=
  if s.elapsed < c.totalTime then
    ({ s with yielded := s.yielded ++ [actionIdx] }.sleep asked l.sleep).bind fun s =>
      rest { s with elapsed := s.now }
  else none

/-- `(action_idx + 1)%self.actions_count` -/
def nextAction (actionIdx : ℕ) : ℕ := (actionIdx + 1) % (c.actionsCount : ℕ)

/-- `DefaultPersona.generator` -/
def defaultPersona (s : State) (l : Lasting) : Option State :=
  turnOf c s s.actionIdx 0 l fun s =>
    (s.sleep 0 l.wait).map fun s => { s with actionIdx := nextAction c s.actionIdx }

/-- `ConstantSpawnPersona.generator` -/
def constantSpawnPersona (s : State) (l : Lasting) : Option State :=
  turnOf c s s.actionIdx c.actionInterval l fun s =>
    let s := { s with idx := s.idx + 1 }
    (if s.idx % (c.batchSize : ℕ) = 0 then s.sleep c.batchInterval l.rest else some s).bind fun s =>
      State.sleep { s with actionIdx := nextAction c s.actionIdx } 0 l.wait

/-- `BatchedPersona.generator` -/
def batchedPersona (s : State) (l : Lasting) : Option State :=
  turnOf c s s.actionIdx 0 l fun s =>
    let s := { s with idx := s.idx + 1 }
    (if s.idx % (c.batchSize : ℕ) = 0 then
      State.sleep { s with actionIdx := nextAction c s.actionIdx } c.batchInterval l.rest
    else some s).bind fun s => s.sleep 0 l.wait

/-- `CyclicNoWaitPersona.generator` -/
def cyclicNoWaitPersona (s : State) (l : Lasting) : Option State :=
  turnOf c s (s.idx % (c.actionsCount : ℕ)) 0 l fun s => some { s with idx := s.idx + 1 }

/-- `generation_batch_interval` of the next batch. -/
def nextInterval (generationBatchInterval : ℚ) : ℚ :=
  let nextBatchTime := generationBatchInterval + c.batchInterval * c.batchGradient
  if nextBatchTime < c.batchInterval then nextBatchTime else c.batchInterval

/-- `RampedIntervalPersona.generator` -/
def rampedIntervalPersona (s : State) (l : Lasting) : Option State :=
  turnOf c s (s.idx % (c.actionsCount : ℕ)) 0 l fun s =>
    let batchElapsed := s.now - s.batchStart
    let s := { s with idx := s.idx + 1 }
    (if s.generationBatchInterval ≤ batchElapsed then
      (State.sleep { s with generationBatchInterval := nextInterval c s.generationBatchInterval }
        c.batchInterval l.rest).map fun s => { s with batchStart := s.now }
    else some s).bind fun s => s.sleep 0 l.wait

/-- Those of the `PersonaTypes` that deal the hooks out. -/
inductive PersonaTypes
  | default
  | sequence
  | constantSpawn
  | batched
  | noWait
  | rampedInterval
deriving DecidableEq

/-- The generator.  That of the sequenced persona is the default one, of hooks that are sorted. -/
def generator : PersonaTypes → State → Lasting → Option State
  | .default | .sequence => defaultPersona c
  | .constantSpawn => constantSpawnPersona c
  | .batched => batchedPersona c
  | .noWait => cyclicNoWaitPersona c
  | .rampedInterval => rampedIntervalPersona c

/-! ## 2. What a turn does -/

/-- The hook that is next. -/
def State.next (type : PersonaTypes) (s : State) : ℕ :=
  match type with
  | .default | .sequence | .constantSpawn | .batched => s.actionIdx
  | .noWait | .rampedInterval => s.idx % (c.actionsCount : ℕ)

/-- How many turns a hook has in a row. -/
def PersonaTypes.row : PersonaTypes → ℕ
  | .batched => c.batchSize
  | .default | .sequence | .constantSpawn | .noWait | .rampedInterval => 1

/-- How long it sleeps after each turn, at least. -/
def PersonaTypes.asked : PersonaTypes → ℚ
  | .constantSpawn => max 0 c.actionInterval
  | .default | .sequence | .batched | .noWait | .rampedInterval => 0

/-- How long it sleeps besides, at least, after each batch. -/
def PersonaTypes.restAsked : PersonaTypes → ℚ
  | .constantSpawn | .batched => max 0 c.batchInterval
  | .default | .sequence | .noWait | .rampedInterval => 0

/-- The generators that count their turns. -/
def PersonaTypes.counts : PersonaTypes → Bool
  | .default | .sequence => false
  | .constantSpawn | .batched | .noWait | .rampedInterval => true

/-- **What a turn does**: the next hook is yielded while there is time, and the one behind it is next if it
was the last one in its row. -/
structure Advanced (type : PersonaTypes) (s s' : State) : Prop where
  time : s.elapsed < c.totalTime
  yielded : s'.yielded = s.yielded ++ [s.next c type]
  idx : type.counts = true → s'.idx = s.idx + 1
  next : s'.next c type = if (s.idx + 1) % type.row c = 0 then nextAction c (s.next c type) else s.next c type
  elapsed : s.now + type.asked c ≤ s'.elapsed
  now : s'.elapsed + (if (s.idx + 1) % (c.batchSize : ℕ) = 0 then type.restAsked c else 0) ≤ s'.now

variable {c} {s s' : State} {l : Lasting}

theorem sleep_eq_some {asked lasted : ℚ} (h : s.sleep asked lasted = some s') :
    max 0 asked ≤ lasted ∧ s' = { s with now := s.now + lasted } := by
  unfold State.sleep at h
  split at h
  · next hle => exact ⟨max_le hle.2 hle.1, (Option.some.inj h).symm⟩
  · cases h

theorem turnOf_eq_some {actionIdx : ℕ} {asked : ℚ} {rest : State → Option State}
    (h : turnOf c s actionIdx asked l rest = some s') :
    s.elapsed < c.totalTime ∧ max 0 asked ≤ l.sleep ∧
      rest { s with
        yielded := s.yielded ++ [actionIdx], now := s.now + l.sleep, elapsed := s.now + l.sleep } = some s' := by
  unfold turnOf at h
  split at h
  · next htime =>
    obtain ⟨t, hsleep, hrest⟩ := Option.bind_eq_some_iff.mp h
    obtain ⟨hle, rfl⟩ := sleep_eq_some hsleep
    exact ⟨htime, hle, hrest⟩
  · cases h

theorem advanced_default (h : defaultPersona c s l = some s') : Advanced c .default s s' := by
  obtain ⟨htime, hsleep, hrest⟩ := turnOf_eq_some h
  obtain ⟨t, hwait, rfl⟩ := Option.map_eq_some_iff.mp hrest
  obtain ⟨hle, rfl⟩ := sleep_eq_some hwait
  rw [max_self] at hsleep hle
  refine ⟨htime, rfl, fun h => (nomatch h), ?_, ?_, ?_⟩
  · simp [State.next, PersonaTypes.row, Nat.mod_one]
  · simpa [PersonaTypes.asked] using hsleep
  · simpa [PersonaTypes.restAsked] using hle

theorem advanced_constantSpawn (h : constantSpawnPersona c s l = some s') : Advanced c .constantSpawn s s' := by
  obtain ⟨htime, hsleep, hrest⟩ := turnOf_eq_some h
  obtain ⟨t, hbatch, hwait⟩ := Option.bind_eq_some_iff.mp hrest
  obtain ⟨hle, rfl⟩ := sleep_eq_some hwait
  rw [max_self] at hle
  split at hbatch
  case isTrue hend =>
    obtain ⟨hbatchLe, rfl⟩ := sleep_eq_some hbatch
    refine ⟨htime, rfl, fun _ => rfl, by simp [State.next, PersonaTypes.row, Nat.mod_one], ?_, ?_⟩
    · exact add_le_add_right hsleep s.now
    · rw [if_pos hend]
      dsimp only [PersonaTypes.restAsked]
      linarith
  case isFalse hend =>
    obtain rfl := Option.some.inj hbatch
    refine ⟨htime, rfl, fun _ => rfl, by simp [State.next, PersonaTypes.row, Nat.mod_one], ?_, ?_⟩
    · exact add_le_add_right hsleep s.now
    · rw [if_neg hend]
      dsimp only
      linarith

theorem advanced_batched (h : batchedPersona c s l = some s') : Advanced c .batched s s' := by
  obtain ⟨htime, hsleep, hrest⟩ := turnOf_eq_some h
  obtain ⟨t, hbatch, hwait⟩ := Option.bind_eq_some_iff.mp hrest
  obtain ⟨hle, rfl⟩ := sleep_eq_some hwait
  rw [max_self] at hle hsleep
  split at hbatch
  case isTrue hend =>
    obtain ⟨hbatchLe, rfl⟩ := sleep_eq_some hbatch
    refine ⟨htime, rfl, fun _ => rfl, (if_pos hend).symm, ?_, ?_⟩
    · exact add_le_add_right hsleep s.now
    · rw [if_pos hend]
      dsimp only [PersonaTypes.restAsked]
      linarith
  case isFalse hend =>
    obtain rfl := Option.some.inj hbatch
    refine ⟨htime, rfl, fun _ => rfl, (if_neg hend).symm, ?_, ?_⟩
    · exact add_le_add_right hsleep s.now
    · rw [if_neg hend]
      dsimp only
      linarith

/-- Where a turn counts modulo the hooks, the next hook is next. -/
theorem mod_succ_eq (idx : ℕ) : (idx + 1) % (c.actionsCount : ℕ) = nextAction c (idx % (c.actionsCount : ℕ)) := by
  rw [nextAction, Nat.mod_add_mod]

theorem advanced_noWait (h : cyclicNoWaitPersona c s l = some s') : Advanced c .noWait s s' := by
  obtain ⟨htime, hsleep, hrest⟩ := turnOf_eq_some h
  obtain rfl := Option.some.inj hrest
  rw [max_self] at hsleep
  refine ⟨htime, rfl, fun _ => rfl, ?_, add_le_add_right hsleep s.now, ?_⟩
  · simp [State.next, PersonaTypes.row, Nat.mod_one, mod_succ_eq]
  · simp [PersonaTypes.restAsked]

theorem advanced_rampedInterval (h : rampedIntervalPersona c s l = some s') :
    Advanced c .rampedInterval s s' := by
  obtain ⟨htime, hsleep, hrest⟩ := turnOf_eq_some h
  obtain ⟨t, hbatch, hwait⟩ := Option.bind_eq_some_iff.mp hrest
  obtain ⟨hle, rfl⟩ := sleep_eq_some hwait
  rw [max_self] at hle hsleep
  split at hbatch
  case isTrue hend =>
    obtain ⟨u, hsleepBatch, rfl⟩ := Option.map_eq_some_iff.mp hbatch
    obtain ⟨hbatchLe, rfl⟩ := sleep_eq_some hsleepBatch
    have hrest : 0 ≤ l.rest := (le_max_left _ _).trans hbatchLe
    refine ⟨htime, rfl, fun _ => rfl, by simp [State.next, PersonaTypes.row, Nat.mod_one, mod_succ_eq], ?_, ?_⟩
    · exact add_le_add_right hsleep s.now
    · dsimp only [PersonaTypes.restAsked]
      rw [ite_self]
      linarith
  case isFalse hend =>
    obtain rfl := Option.some.inj hbatch
    refine ⟨htime, rfl, fun _ => rfl, by simp [State.next, PersonaTypes.row, Nat.mod_one, mod_succ_eq], ?_, ?_⟩
    · exact add_le_add_right hsleep s.now
    · dsimp only [PersonaTypes.restAsked]
      rw [ite_self]
      linarith

theorem advanced_of_generator {type : PersonaTypes} (h : generator c type s l = some s') :
    Advanced c type s s' := by
  cases type with
  | default => exact advanced_default h
  | sequence =>
    obtain ⟨htime, hyielded, -, hnext, helapsed, hnow⟩ := advanced_default h
    exact ⟨htime, hyielded, fun h => (nomatch h), hnext, helapsed, hnow⟩
  | constantSpawn => exact advanced_constantSpawn h
  | batched => exact advanced_batched h
  | noWait => exact advanced_noWait h
  | rampedInterval => exact advanced_rampedInterval h

/-! ## 3. Runs -/

variable (c) in
/-- What has been yielded are turns in rotation, and the sleeps in between have taken their time. -/
structure Inv (type : PersonaTypes) (s : State) : Prop where
  yielded : s.yielded = turns (type.row c) c.actionsCount s.yielded.length
  next : s.next c type = turn (type.row c) c.actionsCount s.yielded.length
  idx : type.counts = true → s.idx = s.yielded.length
  elapsed : s.yielded.length * type.asked c + ((s.yielded.length - 1) / (c.batchSize : ℕ) : ℕ) * type.restAsked c ≤
    s.elapsed
  now : s.yielded.length * type.asked c + (s.yielded.length / (c.batchSize : ℕ) : ℕ) * type.restAsked c ≤ s.now
  last : ∀ m, s.yielded.length = m + 2 →
    ((m + 1 : ℕ) : ℚ) * type.asked c + (m / (c.batchSize : ℕ) : ℕ) * type.restAsked c < c.totalTime

theorem inv_start (type : PersonaTypes) : Inv c type (start c) := by
  refine ⟨rfl, ?_, fun _ => rfl, by simp [start], by simp [start], fun m h => (nomatch h)⟩
  cases type <;> simp [start, State.next, turn]

/-- A generator that does not count its turns gives them one by one, and does not rest. -/
theorem row_of_not_counts {type : PersonaTypes} (h : type.counts = false) :
    type.row c = 1 ∧ type.restAsked c = 0 := by
  cases type with
  | default | sequence => exact ⟨rfl, rfl⟩
  | constantSpawn | batched | noWait | rampedInterval => cases h

theorem Inv.step {type : PersonaTypes} (hs : Inv c type s) (h : generator c type s l = some s') :
    Inv c type s' := by
  obtain ⟨htime, hyielded, hidx, hnext, helapsed, hnow⟩ := advanced_of_generator h
  have hlength : s'.yielded.length = s.yielded.length + 1 := by rw [hyielded, List.length_append]; rfl
  -- the index of a generator that counts is the number of its turns
  have hrow : (s.idx + 1) % type.row c = (s.yielded.length + 1) % type.row c := by
    cases hcounts : type.counts with
    | true => rw [hs.idx hcounts]
    | false => rw [(row_of_not_counts hcounts).1, Nat.mod_one, Nat.mod_one]
  have hrest : (if (s.idx + 1) % (c.batchSize : ℕ) = 0 then type.restAsked c else 0) =
      if (s.yielded.length + 1) % (c.batchSize : ℕ) = 0 then type.restAsked c else 0 := by
    cases hcounts : type.counts with
    | true => rw [hs.idx hcounts]
    | false => rw [(row_of_not_counts hcounts).2, ite_self, ite_self]
  have helapsed' : ((s.yielded.length + 1 : ℕ) : ℚ) * type.asked c +
      (s.yielded.length / (c.batchSize : ℕ) : ℕ) * type.restAsked c ≤ s'.elapsed := by
    have hbefore := hs.now
    push_cast at hbefore ⊢
    linarith
  refine ⟨?_, ?_, fun hcounts => ?_, ?_, ?_, fun m hm => ?_⟩
  · rw [hlength, turns_succ, ← hs.yielded, ← hs.next, hyielded]
  · rw [hlength, hnext, hrow]
    split
    · next hend => rw [turn_succ_of_eq hend, hs.next, nextAction]
    · next hend => rw [turn_succ_of_ne hend, hs.next]
  · rw [hidx hcounts, hs.idx hcounts, hlength]
  · rwa [hlength, Nat.add_sub_cancel]
  · rw [hrest] at hnow
    rw [hlength]
    split at hnow
    · next hend =>
      rw [Nat.succ_div_of_mod_eq_zero hend]
      push_cast at helapsed' ⊢
      linarith
    · next hend =>
      rw [Nat.succ_div_of_mod_ne_zero hend]
      linarith
  · have hbefore := hs.elapsed
    have hm' : s.yielded.length = m + 1 := by omega
    rw [hm', Nat.add_sub_cancel] at hbefore
    exact hbefore.trans_lt htime

theorem inv_run {type : PersonaTypes} {durations : List Lasting} (h : run (generator c type) (start c) durations = some s) :
    Inv c type s := invariant_of_run (fun _ _ _ hs hstep => hs.step hstep) (inv_start type) h

/-- **The hooks are dealt out evenly**: what a generator yields are turns in rotation, and no hook is ahead
of another by more than it has turns in a row. -/
theorem dealt_evenly (type : PersonaTypes) {durations : List Lasting}
    (h : run (generator c type) (start c) durations = some s) :
    s.yielded = turns (type.row c) c.actionsCount s.yielded.length ∧
      ∀ i < (c.actionsCount : ℕ), ∀ j < (c.actionsCount : ℕ),
        s.yielded.count i ≤ s.yielded.count j + type.row c := by
  have hyielded := (inv_run h).yielded
  have hrow : 0 < type.row c := by
    cases type with
    | batched => exact c.batchSize.pos
    | default | sequence | constantSpawn | noWait | rampedInterval => exact Nat.one_pos
  refine ⟨hyielded, fun i hi j hj => ?_⟩
  rw [hyielded]
  exact count_turns_le hrow hi hj _

/-- Two hooks, batches of two, and three seconds. -/
def twoHooks : Config where
  actionsCount := ⟨2, Nat.two_pos⟩
  batchSize := ⟨2, Nat.two_pos⟩
  batchInterval := 1
  batchGradient := 1
  actionInterval := 1
  totalTime := 3

theorem dealt_evenly_twoHooks : ∃ s, run (generator twoHooks .batched) (start twoHooks)
      [⟨0, 0, 0⟩, ⟨0, 1, 0⟩, ⟨0, 0, 0⟩] = some s ∧ s.yielded.count 0 ≤ s.yielded.count 1 + 2 := by
  have hrun : (run (generator twoHooks .batched) (start twoHooks)
      [⟨0, 0, 0⟩, ⟨0, 1, 0⟩, ⟨0, 0, 0⟩]).isSome := by decide +kernel
  obtain ⟨s, hs⟩ := Option.isSome_iff_exists.mp hrun
  exact ⟨s, hs, (dealt_evenly .batched hs).2 0 (by decide) 1 (by decide)⟩

/-- **There are only so many turns in the time of a stage.**  The clock is read behind each sleep and before
the rest.  At its last reading before the last turn all the others have slept, and the batches that were full
before the last of these have rested. -/
theorem slept_lt_totalTime (type : PersonaTypes) {durations : List Lasting} {m : ℕ}
    (h : run (generator c type) (start c) durations = some s) (hm : s.yielded.length = m + 2) :
    ((m + 1 : ℕ) : ℚ) * type.asked c + (m / (c.batchSize : ℕ) : ℕ) * type.restAsked c < c.totalTime :=
  (inv_run h).last m hm

theorem slept_lt_totalTime_twoHooks :
    ((1 + 1 : ℕ) : ℚ) * PersonaTypes.constantSpawn.asked twoHooks +
      (1 / (twoHooks.batchSize : ℕ) : ℕ) * PersonaTypes.constantSpawn.restAsked twoHooks < twoHooks.totalTime := by
  have hrun : (run (generator twoHooks .constantSpawn) (start twoHooks)
      [⟨1, 0, 0⟩, ⟨1, 1, 0⟩, ⟨1, 0, 0⟩]).map (fun s => s.yielded.length) = some (1 + 2) := by decide +kernel
  obtain ⟨s, hs, hlength⟩ := Option.map_eq_some_iff.mp hrun
  exact slept_lt_totalTime .constantSpawn hs hlength

end Dealing
end Personas
end Hedra
