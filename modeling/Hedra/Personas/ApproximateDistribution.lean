/-
# The approximate-distribution persona

`ApproximateDistributionPersona.generator` (`approximate_distribution_persona.py`) divides its time
into as many intervals as its distribution has sizes, and gives the pools the size of the interval
that it is in.  The intervals are of a whole number of seconds, also of none, and the last has what
is left of the time besides.  A turn moves on by one interval at most, however late it is; and it
moves on only while there is time, so that the last interval is never left.

Times are exact rationals here.

* `inInterval_step`: a turn stays in the interval, or enters the next, which there is;
* `follows_schedule`: so every run follows the schedule, whatever the clock reads;
* `always_sized`: and the pools have the sizes of the distribution.
-/
import Mathlib.Algebra.Order.Floor.Ring
import Mathlib.Data.Rat.Floor
import Mathlib.Algebra.BigOperators.Group.List.Basic
import Mathlib.Tactic.Ring
import Hedra.Lib.Machine
import Hedra.Personas.Sessions

namespace Hedra
namespace Personas

open Lib Machine

namespace ApproximateDistribution

/-! ## 1. The generator -/

/-- A persona with the distribution of its experiment. -/
structure Schedule (σ : Type*) extends Persona σ where
  distribution : List ℤ
  distribution_ne : distribution ≠ []
  totalTime_pos : 0 < totalTime

/-- The variables of the generator and the pools, and whether it has indexed past the last interval. -/
structure State (σ : Type*) where
  elapsed : ℚ
  actionIdx : ℕ
  currentIntervalIdx : ℕ
  intervalTimeLimit : ℚ
  distributionBatchSize : ℤ
  pools : σ → ℤ
  outOfRange : Bool

namespace Schedule

variable {σ : Type*} (p : Schedule σ)

def intervalsCount : ℕ := p.distribution.length

/-- `math.floor(total_time/intervals_count)` -/
def timeIntervalAmount : ℤ := ⌊p.totalTime / p.intervalsCount⌋

/-- `total_time%intervals_count` -/
def remainderPeriod : ℚ := p.totalTime - p.intervalsCount * p.timeIntervalAmount

def intervalPeriods : List ℚ :=
  let periods := p.distribution.map fun _ => (p.timeIntervalAmount : ℚ)
  if 0 < p.remainderPeriod then
    periods.modify (p.intervalsCount - 1) (· + p.remainderPeriod)
  else periods

@[simp] theorem length_intervalPeriods : p.intervalPeriods.length = p.intervalsCount := by
  rw [intervalPeriods]
  split
  · rw [List.length_modify, List.length_map, intervalsCount]
  · rw [List.length_map, intervalsCount]

theorem intervalPeriods_ne : p.intervalPeriods ≠ [] :=
  List.ne_nil_of_length_pos (p.length_intervalPeriods ▸ List.length_pos_iff.mpr p.distribution_ne)

end Schedule

variable {σ : Type*} [DecidableEq σ] (p : Schedule σ)

/-- What comes before the loop. -/
def start : State σ where
  elapsed := 0
  actionIdx := 0
  currentIntervalIdx := 0
  intervalTimeLimit := p.intervalPeriods.head p.intervalPeriods_ne
  distributionBatchSize := p.distribution.head p.distribution_ne
  pools := p.setPools p.setUp (p.distribution.head p.distribution_ne)
  outOfRange := false

/-- The next interval is entered. -/
def moveOn (s : State σ) : State σ :=
  match p.intervalPeriods[s.currentIntervalIdx + 1]?, p.distribution[s.currentIntervalIdx + 1]? with
  | some period, some size => { s with
      currentIntervalIdx := s.currentIntervalIdx + 1
      intervalTimeLimit := s.intervalTimeLimit + period
      distributionBatchSize := size
      pools := p.setPools s.pools size }
  | _, _ => { s with outOfRange := true }

/-- A turn of the loop, with what the clock reads in it.  There is none when the time is over, or
after an index out of range; and the modulo raises without a hook. -/
def step (s : State σ) (elapsed : ℚ) : Option (State σ) :=
  if p.totalTime ≤ s.elapsed ∨ s.outOfRange ∨ p.hooks = [] then none
  else
    let s := { s with elapsed := elapsed, actionIdx := p.nextAction s.actionIdx }
    if s.intervalTimeLimit ≤ elapsed ∧ elapsed < p.totalTime then some (moveOn p s) else some s

/-! ## 2. What is asked of it -/

/-- The end of an interval, from the start of the run: the sum of the durations up to it. -/
def Schedule.limit (p : Schedule σ) (i : ℕ) : ℚ := (p.intervalPeriods.take (i + 1)).sum

/-- There is such an interval, and it is left at the end of it. -/
structure InInterval (s : State σ) : Prop where
  outOfRange : s.outOfRange = false
  currentIntervalIdx_lt : s.currentIntervalIdx < p.intervalsCount
  intervalTimeLimit : s.intervalTimeLimit = p.limit s.currentIntervalIdx

/-- A turn that comes at the end of the interval or later, and in time, enters the next interval; and
any other turn stays. -/
def Moves (s : State σ) (elapsed : ℚ) (s' : State σ) : Prop :=
  s'.currentIntervalIdx =
    if p.limit s.currentIntervalIdx ≤ elapsed ∧ elapsed < p.totalTime then s.currentIntervalIdx + 1
    else s.currentIntervalIdx

/-- The run is always in an interval, it starts with the first and enters them in order, and the end
of the last is the end of the run. -/
structure Follows (clock : List ℚ) : Prop where
  first : (start p).currentIntervalIdx = 0
  always : Always (step p) (InInterval p) (start p) clock
  along : Along (step p) (Moves p) (start p) clock
  last : p.limit (p.intervalsCount - 1) = p.totalTime

/-! ## 3. The durations add up -/

/-- Lengthening one of the periods lengthens their sum. -/
theorem sum_modify (r : ℚ) :
    ∀ (periods : List ℚ) (i : ℕ), i < periods.length →
      (periods.modify i (· + r)).sum = periods.sum + r
  | [], i, h => absurd h (Nat.not_lt_zero i)
  | period :: periods, 0, _ => by
    rw [List.modify_zero_cons, List.sum_cons, List.sum_cons, add_right_comm]
  | period :: periods, i + 1, h => by
    rw [List.modify_succ_cons, List.sum_cons, List.sum_cons,
      sum_modify r periods i (Nat.lt_of_succ_lt_succ h), add_assoc]

namespace Schedule

variable {σ : Type*} (p : Schedule σ)

theorem intervalsCount_pos : 0 < p.intervalsCount := List.length_pos_iff.mpr p.distribution_ne

theorem remainderPeriod_nonneg : 0 ≤ p.remainderPeriod := by
  have hcount : (0 : ℚ) < p.intervalsCount := Nat.cast_pos.mpr p.intervalsCount_pos
  have hfloor : (p.timeIntervalAmount : ℚ) ≤ p.totalTime / p.intervalsCount := Int.floor_le _
  rw [le_div_iff₀ hcount] at hfloor
  rw [remainderPeriod, mul_comm]
  exact sub_nonneg.mpr hfloor

theorem sum_intervalPeriods : p.intervalPeriods.sum = p.totalTime := by
  have hequal : (p.distribution.map fun _ => (p.timeIntervalAmount : ℚ)).sum =
      p.intervalsCount * p.timeIntervalAmount := by
    rw [List.map_const', List.sum_replicate, nsmul_eq_mul, intervalsCount]
  rw [intervalPeriods]
  split <;> rename_i hremainder
  · have hlast : p.intervalsCount - 1 <
        (p.distribution.map fun _ => (p.timeIntervalAmount : ℚ)).length := by
      rw [List.length_map]
      exact Nat.sub_lt p.intervalsCount_pos Nat.one_pos
    rw [sum_modify _ _ _ hlast, hequal, remainderPeriod, add_sub_cancel]
  · have hnone : p.remainderPeriod = 0 :=
      le_antisymm (not_lt.mp hremainder) p.remainderPeriod_nonneg
    rw [hequal]
    exact (sub_eq_zero.mp hnone).symm

theorem limit_last : p.limit (p.intervalsCount - 1) = p.totalTime := by
  rw [limit, Nat.sub_add_cancel p.intervalsCount_pos, List.take_of_length_le
    p.length_intervalPeriods.le, sum_intervalPeriods]

theorem limit_zero : p.limit 0 = p.intervalPeriods.head p.intervalPeriods_ne := by
  rw [limit]
  obtain ⟨period, periods, hcons⟩ := List.exists_cons_of_ne_nil p.intervalPeriods_ne
  simp only [hcons, Nat.zero_add, List.take_succ_cons, List.take_zero, List.sum_singleton,
    List.head_cons]

theorem limit_succ {i : ℕ} {period : ℚ} (h : p.intervalPeriods[i + 1]? = some period) :
    p.limit (i + 1) = p.limit i + period := by
  rw [limit, limit, List.take_add_one, h, List.sum_append, Option.toList_some, List.sum_singleton]

/-- An interval whose end comes before that of the run is not the last. -/
theorem succ_lt_of_limit_lt {i : ℕ} (hi : i < p.intervalsCount) (h : p.limit i < p.totalTime) :
    i + 1 < p.intervalsCount := by
  refine lt_of_le_of_ne hi fun hlast => h.ne ?_
  rw [← p.limit_last, ← hlast, Nat.add_sub_cancel]

end Schedule

/-! ## 4. The runs of the generator -/

variable {p}

/-- There is a next interval to move on to. -/
theorem moveOn_eq {s : State σ} (h : s.currentIntervalIdx + 1 < p.intervalsCount) :
    ∃ period size, p.intervalPeriods[s.currentIntervalIdx + 1]? = some period ∧
      p.distribution[s.currentIntervalIdx + 1]? = some size ∧
      moveOn p s = { s with
        currentIntervalIdx := s.currentIntervalIdx + 1
        intervalTimeLimit := s.intervalTimeLimit + period
        distributionBatchSize := size
        pools := p.setPools s.pools size } := by
  have hperiod := List.getElem?_eq_getElem (p.length_intervalPeriods.symm ▸ h)
  have hsize := List.getElem?_eq_getElem (l := p.distribution) h
  refine ⟨_, _, hperiod, hsize, ?_⟩
  rw [moveOn, hperiod, hsize]

theorem step_eq_some {s s' : State σ} {t : ℚ} (hs : step p s t = some s') :
    (s.intervalTimeLimit ≤ t ∧ t < p.totalTime ∧
      s' = moveOn p { s with elapsed := t, actionIdx := p.nextAction s.actionIdx }) ∨
    (¬ (s.intervalTimeLimit ≤ t ∧ t < p.totalTime) ∧
      s' = { s with elapsed := t, actionIdx := p.nextAction s.actionIdx }) := by
  rw [step] at hs
  split at hs
  · cases hs
  · dsimp only at hs
    split at hs <;> rename_i hmoves <;> obtain rfl := Option.some.inj hs
    · exact Or.inl ⟨hmoves.1, hmoves.2, rfl⟩
    · exact Or.inr ⟨hmoves, rfl⟩

/-- **A turn stays in the interval, or enters the next, which there is.** -/
theorem inInterval_step {s s' : State σ} {t : ℚ} (h : InInterval p s) (hs : step p s t = some s') :
    InInterval p s' ∧ Moves p s t s' := by
  rw [Moves, ← h.intervalTimeLimit]
  rcases step_eq_some hs with ⟨hlimit, htime, rfl⟩ | ⟨hstays, rfl⟩
  · have hnext : s.currentIntervalIdx + 1 < p.intervalsCount :=
      p.succ_lt_of_limit_lt h.currentIntervalIdx_lt
        (h.intervalTimeLimit ▸ lt_of_le_of_lt hlimit htime)
    obtain ⟨period, size, hperiod, -, hmove⟩ := moveOn_eq (p := p)
      (s := { s with elapsed := t, actionIdx := p.nextAction s.actionIdx }) hnext
    rw [hmove, if_pos ⟨hlimit, htime⟩]
    refine ⟨⟨h.outOfRange, hnext, ?_⟩, rfl⟩
    rw [p.limit_succ hperiod, ← h.intervalTimeLimit]
  · rw [if_neg hstays]
    exact ⟨⟨h.outOfRange, h.currentIntervalIdx_lt, h.intervalTimeLimit⟩, rfl⟩

theorem inInterval_start (p : Schedule σ) : InInterval p (start p) :=
  ⟨rfl, p.intervalsCount_pos, p.limit_zero.symm⟩

/-- The pools have the size that the distribution gives for the interval. -/
def Sized (p : Schedule σ) (s : State σ) : Prop :=
  p.distribution[s.currentIntervalIdx]? = some s.distributionBatchSize ∧
    ∀ session ∈ p.hooks, s.pools session = s.distributionBatchSize

theorem sized_step {s s' : State σ} {t : ℚ} (h : InInterval p s ∧ Sized p s)
    (hs : step p s t = some s') : InInterval p s' ∧ Sized p s' := by
  refine ⟨(inInterval_step h.1 hs).1, ?_⟩
  rcases step_eq_some hs with ⟨hlimit, htime, rfl⟩ | ⟨-, rfl⟩
  · have hnext : s.currentIntervalIdx + 1 < p.intervalsCount :=
      p.succ_lt_of_limit_lt h.1.currentIntervalIdx_lt
        (h.1.intervalTimeLimit ▸ lt_of_le_of_lt hlimit htime)
    obtain ⟨period, size, -, hsize, hmove⟩ := moveOn_eq (p := p)
      (s := { s with elapsed := t, actionIdx := p.nextAction s.actionIdx }) hnext
    rw [hmove]
    exact ⟨hsize, fun session hsession => p.setPools_of_mem s.pools size hsession⟩
  · exact h.2

/-- In every run the pools follow the distribution. -/
theorem always_sized (p : Schedule σ) (clock : List ℚ) :
    Always (step p) (Sized p) (start p) clock := by
  have hfirst : p.distribution[0]? = some (p.distribution.head p.distribution_ne) := by
    rw [← List.head?_eq_getElem?, List.head?_eq_some_head]
  have hstart : Sized p (start p) :=
    ⟨hfirst, fun session hsession => p.setPools_of_mem p.setUp _ hsession⟩
  exact (always_of_step (fun s t s' => sized_step) ⟨inInterval_start p, hstart⟩).mono fun s h => h.2

/-- **Whatever the clock reads, the persona follows its schedule.** -/
theorem follows_schedule (p : Schedule σ) (clock : List ℚ) : Follows p clock where
  first := rfl
  always := always_of_step (fun _ _ _ h hs => (inInterval_step h hs).1) (inInterval_start p)
  along := along_of_step (fun _ _ _ => inInterval_step) (inInterval_start p)
  last := p.limit_last

/-- Five at a time for ten of the twenty-one seconds, and ten for the rest, by a single hook. -/
def fiveThenTen : Schedule Unit where
  batchSize := Nat.succPNat 4
  totalTime := 21
  hooks := [()]
  runsTasks := fun _ => false
  distribution := [5, 10]
  distribution_ne := List.cons_ne_nil _ _
  totalTime_pos := by norm_num

/-- A turn moves on at ten seconds, and then on no more. -/
example : (run (step fiveThenTen) (start fiveThenTen) [4, 10, 20]).map
    (fun s => (s.currentIntervalIdx, s.intervalTimeLimit, s.pools ())) = some (1, 21, 10) := by
  decide +kernel

end ApproximateDistribution
end Personas
end Hedra
