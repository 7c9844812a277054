/-
# The constant-arrival persona

`ConstantArrivalPersona.generator` (`constant_arrival_rate_persona.py`) counts its turns, and each
time that they are a multiple of the size of a pool it compares what has completed with the batch
size, extends or shrinks the pool by as much, and sets the count back to zero.  The count is a
property of the stream, the length of what has completed, and no attribute: setting it raises.  So
the first check that finds a completed request is the last, and until then nothing is ever changed.

What has completed is only appended to here.  Where the persona streams, a task (`_run_stream`) also
empties it from time to time; that is left out.

* `sound_step_iff`: a turn keeps the promises exactly if it finds nothing completed;
* `always_sound_iff`: and so does a run of turns.
-/
import Mathlib.Algebra.Order.Floor.Ring
import Mathlib.Data.Rat.Floor
import Mathlib.Data.PNat.Basic
import Hedra.Lib.Machine
import Hedra.Personas.Sessions

namespace Hedra
namespace Personas

open Lib Machine

namespace ConstantArrival

/-! ## 1. The stream and the generator -/

/-- What the generator reads of its `Stream`, and sets. -/
structure Stream where
  lastCompleted : ℕ
  lastBatchSize : ℤ
  /-- The length of `completed`. -/
  completedCount : ℕ

/-- The variables of the generator, its stream and the pools, and whether it has raised. -/
structure State (σ : Type*) where
  elapsed : ℚ
  idx : ℤ
  actionIdx : ℕ
  stream : Stream
  pools : σ → ℤ
  raised : Bool

/-- What happens until the next turn: what the clock reads, and how many requests complete. -/
structure Period where
  elapsed : ℚ
  completions : ℕ

variable {σ : Type*} [DecidableEq σ] (p : Persona σ)

/-- What comes before the loop. -/
def start : State σ where
  elapsed := 0
  idx := 0
  actionIdx := 0
  stream := ⟨0, p.batchSize, 0⟩
  pools := p.setUp
  raised := false

/-- Fewer requests have completed than the batch size says. -/
def increase (s : State σ) (session : σ) : State σ :=
  let increasePercentage : ℚ := ((p.batchSize : ℕ) - s.stream.completedCount) / (p.batchSize : ℕ)
  let increaseAmount := ⌈increasePercentage * s.stream.lastBatchSize⌉
  { s with
    stream := { s.stream with
      lastCompleted := s.stream.completedCount
      lastBatchSize := s.stream.lastBatchSize + increaseAmount }
    pools := p.extendPool s.pools session increaseAmount }

/-- More have. -/
def decrease (s : State σ) (session : σ) : State σ :=
  let decreasePercentage : ℚ :=
    (s.stream.completedCount - (p.batchSize : ℕ)) / s.stream.completedCount
  let decreaseAmount := ⌈decreasePercentage * s.stream.lastBatchSize⌉
  { s with
    stream := { s.stream with
      lastCompleted := s.stream.completedCount
      lastBatchSize := s.stream.lastBatchSize - decreaseAmount }
    pools := p.shrinkPool s.pools session decreaseAmount }

/-- The check.  The last of it is `self.stream.completed_count = 0`, which raises. -/
def check (s : State σ) (session : σ) : State σ :=
  if 0 < s.stream.completedCount then
    if s.stream.completedCount < p.batchSize then { increase p s session with raised := true }
    else if p.batchSize < s.stream.completedCount then { decrease p s session with raised := true }
    else { s with raised := true }
  else s

/-- The rest of a turn, after the clock has been read.  The modulo raises for a pool of none. -/
def turn (s : State σ) (session : σ) : State σ :=
  if s.pools session = 0 then { s with raised := true }
  else if s.idx % s.pools session = 0 then check p s session
  else s

/-- The requests that have completed are appended to the stream.  A task of `_run_stream`, which
empties `completed` where the persona streams, is left out. -/
def arrive (s : State σ) (period : Period) : State σ :=
  { s with
    elapsed := period.elapsed
    idx := s.idx + 1
    stream := { s.stream with completedCount := s.stream.completedCount + period.completions } }

/-- A turn of the loop.  There is none after one that raises, or when the time is over; without a
hook it is the index that raises. -/
def step (s : State σ) (period : Period) : Option (State σ) :=
  if s.raised ∨ p.totalTime ≤ s.elapsed then none
  else match p.hooks[s.actionIdx]? with
    | none => some { arrive s period with raised := true }
    | some session => some { turn p (arrive s period) session with
        actionIdx := p.nextAction s.actionIdx }

/-! ## 2. What is asked of it -/

/-- The generator has not raised, there is a batch, and the stream remembers the size of it, which
every pool has. -/
structure Sound (s : State σ) : Prop where
  raised : s.raised = false
  batch : 1 ≤ s.stream.lastBatchSize
  pools : ∀ session ∈ p.hooks, 1 ≤ s.pools session ∧ s.pools session = s.stream.lastBatchSize

/-- At the turns whose number is a multiple of the batch size, nothing has completed. -/
def Quiet (s : State σ) (period : Period) : Prop :=
  (s.idx + 1) % p.batchSize = 0 → s.stream.completedCount + period.completions = 0

/-! ## 3. The check raises, or there is nothing to check -/

variable {p}

theorem check_raises {s : State σ} (h : 0 < s.stream.completedCount) (session : σ) :
    (check p s session).raised = true := by
  rw [check, if_pos h]
  split
  · rfl
  · split <;> rfl

theorem check_of_none {s : State σ} (h : s.stream.completedCount = 0) (session : σ) :
    check p s session = s :=
  if_neg (Nat.not_lt.mpr h.le)

/-- What holds of the states in which nothing has been raised yet. -/
def Untouched (p : Persona σ) (s : State σ) : Prop :=
  s.raised = false → s.stream.lastBatchSize = p.batchSize ∧
    (p.hooks ≠ [] → s.actionIdx < p.hooks.length)

/-- A turn raises, or it only counts, as the number of it and the completed requests have it. -/
theorem turn_eq {s : State σ} {session : σ} (hpool : s.pools session = p.batchSize) :
    if s.idx % p.batchSize = 0 → s.stream.completedCount = 0 then turn p s session = s
    else (turn p s session).raised = true := by
  have hne : s.pools session ≠ 0 := by
    rw [hpool]
    exact Int.natCast_ne_zero.mpr p.batchSize.ne_zero
  rw [turn, if_neg hne, hpool]
  split <;> rename_i hquiet
  · by_cases hidx : s.idx % p.batchSize = 0
    · rw [if_pos hidx, check_of_none (hquiet hidx)]
    · rw [if_neg hidx]
  · rw [Classical.not_imp] at hquiet
    rw [if_pos hquiet.1]
    exact check_raises (Nat.pos_of_ne_zero hquiet.2) session

/-- **From a sound state, a turn leads to one exactly when it finds nothing completed.** -/
theorem sound_step_iff {s s' : State σ} {period : Period} (hJ : Untouched p s) (h : Sound p s)
    (hs : step p s period = some s') :
    Untouched p s' ∧ (Sound p s' ↔ p.hooks ≠ [] ∧ Quiet p s period) := by
  obtain ⟨hlast, hidx⟩ := hJ h.raised
  have hraised : ∀ t : State σ, t.raised = true →
      Untouched p t ∧ ¬ Sound p t := fun t ht =>
    ⟨fun hf => absurd (ht.symm.trans hf) (by decide), fun hsound =>
      absurd (ht.symm.trans hsound.raised) (by decide)⟩
  rw [step] at hs
  split at hs
  · cases hs
  · split at hs <;> rename_i hhook <;> obtain rfl := Option.some.inj hs
    · -- the index is out of range only where there is no hook at all
      obtain ⟨hkeep, hnot⟩ := hraised { arrive s period with raised := true } rfl
      refine ⟨hkeep, iff_of_false hnot fun hgood => ?_⟩
      exact Nat.not_lt.mpr (List.getElem?_eq_none_iff.mp hhook) (hidx hgood.1)
    · rename_i session
      have hmem := List.mem_of_getElem? hhook
      have hhooks : p.hooks ≠ [] := List.ne_nil_of_mem hmem
      have hpool : (arrive s period).pools session = p.batchSize :=
        (h.pools session hmem).2.trans hlast
      have hturn := turn_eq hpool
      rw [and_iff_right hhooks]
      split at hturn <;> rename_i hquiet
      · rw [hturn]
        refine ⟨fun _ => ⟨hlast, fun _ => p.nextAction_lt hhooks _⟩, iff_of_true ?_ hquiet⟩
        exact ⟨h.raised, h.batch, h.pools⟩
      · obtain ⟨hkeep, hnot⟩ := hraised { turn p (arrive s period) session with
          actionIdx := p.nextAction s.actionIdx } hturn
        exact ⟨hkeep, iff_of_false hnot hquiet⟩

/-! ## 4. The runs of the generator -/

omit [DecidableEq σ] in
theorem sound_start (p : Persona σ) : Sound p (start p) := by
  have hsize : (1 : ℤ) ≤ p.batchSize := Int.natCast_pos.mpr p.batchSize.pos
  exact ⟨rfl, hsize, fun session _ => ⟨hsize, rfl⟩⟩

/-- **The generator keeps its promises in the runs in which nothing has completed at any check.** -/
theorem always_sound_iff (p : Persona σ) (history : List Period) :
    Always (step p) (Sound p) (start p) history ↔
      Along (step p) (fun s period _ => p.hooks ≠ [] ∧ Quiet p s period) (start p) history := by
  have hstart : Untouched p (start p) := fun _ => ⟨rfl, fun h => List.length_pos_iff.mpr h⟩
  exact always_iff_along_of_invariant (fun s period s' => sound_step_iff) hstart (sound_start p)

/-- One request at a time. -/
def oneAtATime : Persona Unit where
  batchSize := Nat.succPNat 0
  totalTime := 60
  hooks := [()]
  runsTasks := fun _ => false

/-- As many requests have completed at the first check as should have, and the check raises. -/
theorem not_always_sound :
    ¬ ∀ history, Always (step oneAtATime) (Sound oneAtATime) (start oneAtATime) history := by
  intro h
  obtain ⟨s, hsound, hs⟩ := (h [⟨1, 1⟩]).exists_last (f := fun s => s.raised) (b := true)
    (by decide +kernel)
  exact absurd (hsound.raised.symm.trans hs) (by decide)

end ConstantArrival
end Personas
end Hedra
