/-
# The timings of a whole stage

The summary of a stage (`reporting/metric/stage_metrics_summary.py`) adds up the counts of its actions
and tasks and puts a mean for the whole stage beside them, for the total time of an action and for the
phases it consists of.

The mean of the stage is to weigh the means of the actions by their counts (`weighted`).  What the code
adds up are the means alone, of the total times only the last one is kept, and all of it is divided by
the number of actions.  `Cancels` says for which metrics this makes no difference: where the counts are
positive and no time is negative, for actions that were run once or took no time (`surplus_eq_zero_iff`).
A stage without actions, or without time, is divided by zero.

A `MetricsSet` has a group of metrics for what took any time only, and a `GroupMetricsSet` has fields for
all five (`metrics_set_types.py`).  So a task, which neither connects nor writes, and an action all of
whose connections failed raise a `ValidationError`, and there is no summary.

Main result: `summarized_iff`.  Numbers are exact rationals, where the source has floats.
-/
import Hedra.Lib.HalfEven
import Mathlib.Algebra.BigOperators.Ring.List
import Mathlib.Algebra.Order.BigOperators.Group.List
import Mathlib.Tactic.FieldSimp
import Mathlib.Tactic.Linarith
import Mathlib.Tactic.Ring

namespace Hedra
namespace Reporting
namespace StageTimings

open Lib

/-! ## 1. The code -/

/-- `groups` -/
inductive Group
  | total
  | waiting
  | connecting
  | writing
  | reading
deriving DecidableEq

/-- What a `GroupMetricsSet` has fields for. -/
def groupNames : List Group := [.total, .waiting, .connecting, .writing, .reading]

/-- The `common_stats` of a `MetricsSet`, and the means of the groups that it has. -/
structure MetricsSet where
  total : ℕ
  succeeded : ℕ
  failed : ℕ
  groups : Group → Option ℚ

namespace MetricsSet

def mean (set : MetricsSet) (group : Group) : ℚ := (set.groups group).getD 0

/-- All groups are there. -/
def Complete (set : MetricsSet) : Prop := ∀ group ∈ groupNames, set.groups group ≠ none

instance (set : MetricsSet) : Decidable set.Complete :=
  inferInstanceAs (Decidable (∀ group ∈ groupNames, set.groups group ≠ none))

end MetricsSet

inductive SummaryError
  | validationError
  | zeroDivision
deriving DecidableEq

/-- `StageMetrics`; the mean of the group `total` is `μ_sec`. -/
structure StageMetrics where
  total : ℕ
  succeeded : ℕ
  failed : ℕ
  aps : ℚ
  time : ℚ
  mean : Group → ℚ

/-- `__init__` -/
def StageMetrics.new (totalElapsed : ℚ) : StageMetrics where
  total := 0
  succeeded := 0
  failed := 0
  aps := 0
  time := totalElapsed
  mean _ := 0

/-- The counts in `_group_action_and_task_metrics`. -/
def addCounts (s : StageMetrics) (set : MetricsSet) : StageMetrics :=
  { s with
    total := s.total + set.total
    succeeded := s.succeeded + set.succeeded
    failed := s.failed + set.failed }

/-- One round of `_group_action_and_task_metrics`, with the `GroupMetricsSet` that is made of the groups. -/
def addMetrics (s : StageMetrics) (set : MetricsSet) : Except SummaryError StageMetrics :=
  if set.Complete then .ok (addCounts s set) else .error .validationError

/-- The loop of `_calculate_stage_totals`. -/
def addMeans (s : StageMetrics) (set : MetricsSet) : StageMetrics :=
  { s with
    mean := fun
      -- `=` here, and `+=` for the others
      | .total => set.mean .total
      | group => s.mean group + set.mean group }

/-- `_group_action_and_task_metrics` -/
def groupActionAndTaskMetrics (s : StageMetrics) (sets : List MetricsSet) : Except SummaryError StageMetrics :=
  sets.foldlM addMetrics s

/-- `_calculate_stage_totals` -/
def calculateStageTotals (s : StageMetrics) (sets : List MetricsSet) : Except SummaryError StageMetrics :=
  if s.time = 0 then .error .zeroDivision
  else
    let s := { s with aps := HalfEven.roundTo (s.total / s.time) 2 }
    let s := sets.foldl addMeans s
    if s.total = 0 then .error .zeroDivision
    else .ok { s with mean := fun group => s.mean group / s.total }

/-- `calculate_action_and_task_metrics`, for a stage that took so long. -/
def calculateActionAndTaskMetrics (totalElapsed : ℚ) (sets : List MetricsSet) :
    Except SummaryError StageMetrics := do
  let s ← groupActionAndTaskMetrics (.new totalElapsed) sets
  calculateStageTotals s sets

/-! ## 2. What the accumulators hold -/

/-- The first set without all groups ends it. -/
theorem foldlM_addMetrics (s : StageMetrics) (sets : List MetricsSet) :
    sets.foldlM addMetrics s =
      if ∀ set ∈ sets, set.Complete then .ok (sets.foldl addCounts s) else .error .validationError := by
  induction sets generalizing s with
  | nil => rw [if_pos (List.forall_mem_nil _)]; rfl
  | cons set sets ih =>
    rw [List.foldlM_cons, addMetrics]
    by_cases hset : set.Complete
    · rw [if_pos hset]
      refine (ih (addCounts s set)).trans (if_congr ?_ rfl rfl)
      rw [List.forall_mem_cons, and_iff_right hset]
    · rw [if_neg hset, if_neg fun h => hset (h set List.mem_cons_self)]
      rfl

theorem foldl_addCounts (s : StageMetrics) (sets : List MetricsSet) :
    sets.foldl addCounts s =
      { s with
        total := s.total + (sets.map (·.total)).sum
        succeeded := s.succeeded + (sets.map (·.succeeded)).sum
        failed := s.failed + (sets.map (·.failed)).sum } := by
  induction sets generalizing s with
  | nil => simp
  | cons set sets ih => simp [ih, addCounts, Nat.add_assoc]

/-- The mean that was written last. -/
def lastMean (sets : List MetricsSet) : ℚ := (sets.getLast?.map (·.mean .total)).getD 0

/-- What is divided in the end. -/
def accumulated (sets : List MetricsSet) : Group → ℚ
  | .total => lastMean sets
  | group => (sets.map (·.mean group)).sum

theorem foldl_addMeans_total (s : StageMetrics) (sets : List MetricsSet) :
    (sets.foldl addMeans s).mean .total =
      (sets.getLast?.map (·.mean .total)).getD (s.mean .total) := by
  induction sets generalizing s with
  | nil => rfl
  | cons set sets ih =>
    rw [List.foldl_cons, ih, List.getLast?_cons]
    cases sets.getLast? <;> rfl

theorem foldl_addMeans_of_ne {group : Group} (h : group ≠ .total) (s : StageMetrics)
    (sets : List MetricsSet) :
    (sets.foldl addMeans s).mean group = s.mean group + (sets.map (·.mean group)).sum := by
  induction sets generalizing s with
  | nil => simp
  | cons set sets ih =>
    have hstep : (addMeans s set).mean group = s.mean group + set.mean group := by
      cases group <;> first | exact absurd rfl h | rfl
    rw [List.foldl_cons, ih, hstep, List.map_cons, List.sum_cons, add_assoc]

theorem foldl_addMeans_mean {s : StageMetrics} (h : ∀ group, s.mean group = 0)
    (sets : List MetricsSet) (group : Group) :
    (sets.foldl addMeans s).mean group = accumulated sets group := by
  by_cases hg : group = .total
  · rw [hg, foldl_addMeans_total, h, accumulated, lastMean]
  · rw [foldl_addMeans_of_ne hg, h, zero_add]
    cases group <;> first | exact absurd rfl hg | rfl

/-- The means are all that the loop changes. -/
theorem foldl_addMeans {s : StageMetrics} (h : ∀ group, s.mean group = 0) (sets : List MetricsSet) :
    sets.foldl addMeans s = { s with mean := accumulated sets } := by
  have hrest : ∀ s : StageMetrics,
      sets.foldl addMeans s = { s with mean := (sets.foldl addMeans s).mean } := by
    induction sets with
    | nil => exact fun _ => rfl
    | cons set sets ih => exact fun s => ih (addMeans s set)
  have hmean : (sets.foldl addMeans s).mean = accumulated sets :=
    funext (foldl_addMeans_mean h sets)
  rw [hrest s, hmean]

/-- The number of actions and tasks. -/
def count (sets : List MetricsSet) : ℕ := (sets.map (·.total)).sum

/-- What is summed up of a stage. -/
def summed (totalElapsed : ℚ) (sets : List MetricsSet) : StageMetrics where
  total := count sets
  succeeded := (sets.map (·.succeeded)).sum
  failed := (sets.map (·.failed)).sum
  aps := HalfEven.roundTo (count sets / totalElapsed) 2
  time := totalElapsed
  mean group := accumulated sets group / count sets

/-- **What comes out**, and when something does. -/
theorem calculate_eq_ok_iff {totalElapsed : ℚ} {sets : List MetricsSet} {s : StageMetrics} :
    calculateActionAndTaskMetrics totalElapsed sets = .ok s ↔
      ((∀ set ∈ sets, set.Complete) ∧ totalElapsed ≠ 0 ∧ count sets ≠ 0) ∧ s = summed totalElapsed sets := by
  have hcounts := foldl_addCounts (.new totalElapsed) sets
  simp only [StageMetrics.new, Nat.zero_add] at hcounts
  unfold calculateActionAndTaskMetrics groupActionAndTaskMetrics
  rw [foldlM_addMetrics, StageMetrics.new, hcounts]
  by_cases hcomplete : ∀ set ∈ sets, set.Complete
  · rw [if_pos hcomplete]
    change calculateStageTotals _ sets = _ ↔ _
    unfold calculateStageTotals
    dsimp only
    rw [foldl_addMeans fun _ => rfl]
    change (if totalElapsed = 0 then _ else if count sets = 0 then _ else _) = _ ↔ _
    by_cases htime : totalElapsed = 0
    · simp [htime]
    by_cases hcount : count sets = 0
    · simp [htime, hcount]
    rw [if_neg htime, if_neg hcount, Except.ok.injEq, and_iff_right ⟨hcomplete, htime, hcount⟩]
    exact eq_comm
  · rw [if_neg hcomplete]
    exact iff_of_false nofun fun h => hcomplete h.1.1

/-! ## 3. The weighted mean -/

/-- What all of its actions took. -/
def MetricsSet.took (set : MetricsSet) (group : Group) : ℚ := set.total * set.mean group

/-- The means weighted by the counts. -/
def weighted (sets : List MetricsSet) (group : Group) : ℚ :=
  (sets.map (·.took group)).sum / count sets

/-- What the means are counted too often or too seldom by. -/
def surplus (sets : List MetricsSet) (group : Group) : ℚ :=
  (sets.map fun set => ((set.total : ℚ) - 1) * set.mean group).sum

/-- The means that are overwritten. -/
def overwritten (sets : List MetricsSet) : Group → ℚ
  | .total => (sets.dropLast.map (·.mean .total)).sum
  | _ => 0

theorem sum_map_mean (sets : List MetricsSet) (group : Group) :
    (sets.map (·.mean group)).sum = accumulated sets group + overwritten sets group := by
  by_cases hg : group = .total
  · subst hg
    rcases sets.eq_nil_or_concat with rfl | ⟨init, last, rfl⟩
    · simp [accumulated, overwritten, lastMean]
    · simp [accumulated, overwritten, lastMean, add_comm]
  · cases group <;> first | exact absurd rfl hg | exact (add_zero _).symm

theorem weighted_sum (sets : List MetricsSet) (group : Group) :
    (sets.map (·.took group)).sum =
      accumulated sets group + (overwritten sets group + surplus sets group) := by
  have hsplit : (sets.map (·.took group)).sum =
      (sets.map (·.mean group)).sum + surplus sets group := by
    rw [surplus, ← List.sum_map_add]
    exact congrArg List.sum (List.map_congr_left fun set _ => by rw [MetricsSet.took]; ring)
  rw [hsplit, sum_map_mean, add_assoc]

/-- The metrics for which the difference cancels out. -/
def Cancels (totalElapsed : ℚ) (sets : List MetricsSet) : Prop :=
  ((∀ set ∈ sets, set.Complete) ∧ totalElapsed ≠ 0 ∧ count sets ≠ 0) ∧
    ∀ group, overwritten sets group + surplus sets group = 0

/-- **Positive counts and times.**  Nothing cancels then: each action was run once or took no time. -/
theorem surplus_eq_zero_iff {sets : List MetricsSet} {group : Group}
    (hn : ∀ set ∈ sets, 1 ≤ set.total) (hm : ∀ set ∈ sets, 0 ≤ set.mean group) :
    surplus sets group = 0 ↔ ∀ set ∈ sets, set.total = 1 ∨ set.mean group = 0 := by
  have hterm : ∀ set ∈ sets, 0 ≤ ((set.total : ℚ) - 1) * set.mean group := fun set hset => by
    have : (1 : ℚ) ≤ set.total := by exact_mod_cast hn set hset
    exact mul_nonneg (by linarith) (hm set hset)
  have hzero : ∀ set : MetricsSet, ((set.total : ℚ) - 1) * set.mean group = 0 ↔
      set.total = 1 ∨ set.mean group = 0 := fun set => by
    rw [mul_eq_zero, sub_eq_zero, Nat.cast_eq_one]
  simp only [← hzero]
  constructor
  · intro h set hset
    exact List.all_zero_of_le_zero_le_of_sum_eq_zero (List.forall_mem_map.mpr hterm) h
      (List.mem_map_of_mem hset)
  · intro h
    exact List.sum_eq_zero (List.forall_mem_map.mpr h)

/-! ## 4. The summary -/

/-- The summary has the sums of the counts and the weighted means. -/
def Summarized (s : Except SummaryError StageMetrics) (sets : List MetricsSet) : Prop :=
  ∃ m, s = .ok m ∧ m.total = count sets ∧ m.succeeded = (sets.map (·.succeeded)).sum ∧
    m.failed = (sets.map (·.failed)).sum ∧ ∀ group, m.mean group = weighted sets group

theorem mean_eq_iff {sets : List MetricsSet} (h : count sets ≠ 0) (group : Group) :
    accumulated sets group / count sets = weighted sets group ↔
      overwritten sets group + surplus sets group = 0 := by
  rw [weighted, div_left_inj' (Nat.cast_ne_zero.mpr h), weighted_sum, left_eq_add]

theorem cancels_of_summarized {totalElapsed : ℚ} {sets : List MetricsSet}
    (h : Summarized (calculateActionAndTaskMetrics totalElapsed sets) sets) : Cancels totalElapsed sets := by
  obtain ⟨m, hm, -, -, -, hmean⟩ := h
  obtain ⟨hdone, rfl⟩ := calculate_eq_ok_iff.mp hm
  exact ⟨hdone, fun group => (mean_eq_iff hdone.2.2 group).mp (hmean group)⟩

/-- **When the means are the weighted ones.** -/
theorem summarized_iff (totalElapsed : ℚ) (sets : List MetricsSet) :
    Summarized (calculateActionAndTaskMetrics totalElapsed sets) sets ↔
      Cancels totalElapsed sets := by
  refine ⟨cancels_of_summarized, fun ⟨hdone, hcancels⟩ => ?_⟩
  exact ⟨_, calculate_eq_ok_iff.mpr ⟨hdone, rfl⟩, rfl, rfl, rfl,
    fun group => (mean_eq_iff hdone.2.2 group).mpr (hcancels group)⟩

/-- One action that is run twice, and takes one second; and one task that is run once, and has nothing to
connect to. -/
theorem run_twice :
    ¬ Summarized (calculateActionAndTaskMetrics 2 [⟨2, 2, 0, fun _ => some 1⟩]) [⟨2, 2, 0, fun _ => some 1⟩] ∧
      let task : MetricsSet := ⟨1, 1, 0, fun
        | .connecting | .writing => none
        | _ => some 1⟩
      ¬ Summarized (calculateActionAndTaskMetrics 1 [task]) [task] := by
  constructor
  · intro h
    have hcancels := (cancels_of_summarized h).2 .waiting
    norm_num [overwritten, surplus, MetricsSet.mean] at hcancels
  · intro task h
    have hcomplete := (cancels_of_summarized h).1.1 task List.mem_cons_self
    exact hcomplete .connecting (by decide) rfl

end StageTimings
end Reporting
end Hedra
