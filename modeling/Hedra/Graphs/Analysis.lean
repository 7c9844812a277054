/-
# The totals of an analysis

An Analyze stage (`graphs/stages/analyze/analyze.py`) gets the results of some stages and counts, for
each of them, the actions that succeeded and failed, by name and altogether.  With several workers and
several stages each stage's results are one batch, which a worker process groups by the names of the
actions (`parallel/process_results_batch.py`).  Otherwise the stage does it by itself, and there one
dictionary of groups is made for all stages (`two_stages_differ`).

A group of results (`reporting/processed_result/processed_results_group.py`) keeps the times that are
positive.  The summary of a stage is made of all five means of each action, so where the results of an
action give no time for one of them it raises (`StageTimings`), and there is no summary of any stage.

Main result: `totals_iff`.  The results are those of `dill.loads`.
-/
import Hedra.Lib.Dict
import Hedra.Lib.Outcomes
import Hedra.Reporting.StageTimings

namespace Hedra
namespace Graphs
namespace Analysis

open Lib
open Reporting.StageTimings (Group groupNames MetricsSet StageMetrics SummaryError count summed
  calculateActionAndTaskMetrics calculate_eq_ok_iff)

/-- A result of an action, with its error if it failed, and the times that there are of its type: three
of a task, and else all of them. -/
structure Result where
  name : String
  error : Option String
  timings : List (Group × ℚ)
deriving DecidableEq

/-- What is delivered to the stage: the results of each stage.  It is not analyzed if there is none. -/
abbrev RawResults := Dict String (List Result)

/-- The `AttributeError` is that of a `MetricsSet` without the group of the total times. -/
inductive AnalyzeError
  | indexError
  | zeroDivision
  | attributeError
  | summary (e : SummaryError)
deriving DecidableEq

/-! ## 1. Groups -/

/-- `timings` are what `groups` are the statistics of; only the means are read of these. -/
structure ProcessedResultsGroup where
  total : Nat := 0
  succeeded : Nat := 0
  failed : Nat := 0
  errors : Dict String Nat := .empty
  timings : Dict Group (List ℚ) := .empty
  groups : Dict Group ℚ := .empty

namespace ProcessedResultsGroup

def addTiming (timings : Dict Group (List ℚ)) (t : Group × ℚ) : Dict Group (List ℚ) :=
  if 0 < t.2 then timings.set t.1 ((timings.get? t.1).getD [] ++ [t.2]) else timings

def add (g : ProcessedResultsGroup) (result : Result) : ProcessedResultsGroup :=
  let g := match result.error with
    | none => { g with succeeded := g.succeeded + 1 }
    | some error =>
      { g with
        errors := g.errors.set error ((g.errors.get? error).getD 0 + 1)
        failed := g.failed + 1 }
  { g with timings := result.timings.foldl addTiming g.timings }

def calculateStats (g : ProcessedResultsGroup) : ProcessedResultsGroup :=
  { g with
    total := g.succeeded + g.failed
    groups := g.timings.mapValues fun timings => timings.sum / timings.length }

/-- The `MetricsSet` of the group. -/
def metricsSet (g : ProcessedResultsGroup) : MetricsSet where
  total := g.total
  succeeded := g.succeeded
  failed := g.failed
  groups group := g.groups.get? group

end ProcessedResultsGroup

/-- A `defaultdict(ProcessedResultsGroup)` -/
abbrev Events := Dict String ProcessedResultsGroup

/-- `events[stage_result.name].add(..)` -/
def addResult (events : Events) (result : Result) : Events :=
  events.set result.name (((events.get? result.name).getD {}).add result)

def calculateAll (events : Events) : Events := events.mapValues .calculateStats

/-! ## 2. The stage -/

/-- `BatchExecutor.partion_stage_batches`, where `batch_by_stages` is set: one worker for each stage. -/
def partionStageBatches (raw : RawResults) : List (String × Nat) := raw.items.map fun i => (i.1, 1)

/-- The batches of a stage's results, for so many workers; the last one gets what remains. -/
def createStageBatches (results : List Result) (assignedWorkersCount : Nat) : List (List Result) :=
  let batchSize := results.length / assignedWorkersCount
  let batches := (List.range assignedWorkersCount).map fun workerIdx =>
    (results.drop (workerIdx * batchSize)).take batchSize
  if 0 < results.length % assignedWorkersCount then
    batches.modify (assignedWorkersCount - 1) fun batch =>
      batch ++ results.drop (assignedWorkersCount * batchSize)
  else batches

/-- `assign_stage_batches`: there are batches for worker processes only if there are several of these. -/
def assignStageBatches (totalPoolCpus : Nat) (raw : RawResults) : List (String × List (List Result)) :=
  if 1 < totalPoolCpus then
    (partionStageBatches raw).map fun x =>
      (x.1, createStageBatches ((raw.get? x.1).getD []) x.2)
  else []

/-- `process_results_batch`, in a worker process. -/
def processResultsBatch (batch : List Result) : Events := calculateAll (batch.foldl addResult .empty)

/-- What the one or the other way of `execute_batched_analysis` gives, stage by stage. -/
inductive BatchResults
  | batched
      (results : List (String × List Events))
  | alone
      (results : List (String × Events))

/-- `execute_batched_analysis`.  Without worker processes all stages get the same dictionary, and so
each of them gets what it is in the end. -/
def executeBatchedAnalysis (totalPoolCpus : Nat) (raw : RawResults) : BatchResults :=
  let configs := assignStageBatches totalPoolCpus raw
  if 1 < configs.length ∧ 1 < totalPoolCpus then
    .batched (configs.map fun x => (x.1, x.2.map processResultsBatch))
  else
    let events := raw.items.foldl (fun events i => calculateAll (i.2.foldl addResult events)) .empty
    .alone (raw.keys.map fun name => (name, events))

/-- `results.pop()` -/
def pop {α : Type} (l : List α) : Except AnalyzeError α :=
  match l.getLast? with
  | some x => .ok x
  | none => .error .indexError

/-- `merge_events_groups`; of the batches of a stage the last one is taken. -/
def mergeEventsGroups : BatchResults → Except AnalyzeError (Dict String Events)
  | .batched results =>
    results.foldlM (fun events x => do
      let last ← pop x.2
      pure (events.set x.1 last)) Dict.empty
  | .alone results => .ok (Dict.ofList results)

structure StageMetricsSummary where
  metricsSets : Dict String MetricsSet
  stageMetrics : StageMetrics

/-- The summary of a stage that took so long, as `generate_metrics_sets` makes it of its groups.  The
numbers of actions per second come first. -/
def summarize (totalTime : ℚ) (events : Events) : Except AnalyzeError StageMetricsSummary :=
  let metricsSets := events.mapValues ProcessedResultsGroup.metricsSet
  if events.items ≠ [] ∧ totalTime = 0 then .error .zeroDivision
  else if ∃ set ∈ metricsSets.values, set.groups .total = none then .error .attributeError
  else
    match calculateActionAndTaskMetrics totalTime metricsSets.values with
    | .ok stageMetrics => .ok { metricsSets, stageMetrics }
    | .error e => .error (.summary e)

/-- The analysis, of stages that took so long. -/
def analyze (totalPoolCpus : Nat) (totalTimes : String → ℚ) (raw : RawResults) :
    Except AnalyzeError (List (String × StageMetricsSummary)) := do
  let events ← mergeEventsGroups (executeBatchedAnalysis totalPoolCpus raw)
  events.items.mapM fun i => do
    let summary ← summarize (totalTimes i.1) i.2
    pure (i.1, summary)

/-! ## 3. What is counted -/

/-- How many results there are, how many of them succeeded, and how many failed. -/
structure Counts (total succeeded failed : Nat) (results : List Result) : Prop where
  sum : total = succeeded + failed
  total : total = results.length
  succeeded : succeeded = results.countP fun r => r.error.isNone
  failed : failed = results.countP fun r => r.error.isSome

/-- The summary counts exactly these results, overall and per action. -/
structure CountsExactly (summary : StageMetricsSummary) (results : List Result) : Prop where
  overall : Counts summary.stageMetrics.total summary.stageMetrics.succeeded summary.stageMetrics.failed results
  grouped : ∀ r ∈ results, ∃ set, summary.metricsSets.get? r.name = some set
  action : ∀ name set, summary.metricsSets.get? name = some set →
    Counts set.total set.succeeded set.failed (results.filter fun r => r.name = name)

/-- **Each stage has a summary, which counts exactly its results.** -/
def Counted (totalPoolCpus : Nat) (totalTimes : String → ℚ) (raw : RawResults) : Prop :=
  ∃ summaries, analyze totalPoolCpus totalTimes raw = .ok summaries ∧ summaries.map Prod.fst = raw.keys ∧
    ∀ name summary results, (name, summary) ∈ summaries → raw.get? name = some results →
      CountsExactly summary results

/-- A single worker and this many give the same summaries. -/
def PathsAgree (totalPoolCpus : Nat) (totalTimes : String → ℚ) (raw : RawResults) : Prop :=
  ∃ summaries, analyze 1 totalTimes raw = .ok summaries ∧ analyze totalPoolCpus totalTimes raw = .ok summaries

/-- For each action, some result of it took time in each of the groups. -/
def Timed (results : List Result) : Prop :=
  ∀ r ∈ results, ∀ group, ∃ r' ∈ results, r'.name = r.name ∧ ∃ t ∈ r'.timings, t.1 = group ∧ 0 < t.2

/-- There are results, they took time, and each of their actions has all groups. -/
structure Summarizable (totalTime : ℚ) (results : List Result) : Prop where
  nonempty : results ≠ []
  totalTime : totalTime ≠ 0
  timed : Timed results

/-! ## 4. The groups of a list of results -/

section Groups

variable {results : List Result} {events : Events} {name : String}

/-- What is counted of a result. -/
theorem counts_add (g : ProcessedResultsGroup) (r : Result) :
    (g.add r).succeeded = g.succeeded + (if r.error.isNone then 1 else 0) ∧
      (g.add r).failed = g.failed + (if r.error.isSome then 1 else 0) := by
  unfold ProcessedResultsGroup.add
  cases r.error <;> simp

theorem timings_add (g : ProcessedResultsGroup) (r : Result) :
    (g.add r).timings = r.timings.foldl ProcessedResultsGroup.addTiming g.timings := by
  unfold ProcessedResultsGroup.add
  cases r.error <;> rfl

/-- A group has times once there is one that is positive. -/
theorem timings_addTimings (ts : List (Group × ℚ)) (timings : Dict Group (List ℚ)) (group : Group) :
    (ts.foldl ProcessedResultsGroup.addTiming timings).get? group ≠ none ↔
      timings.get? group ≠ none ∨ ∃ t ∈ ts, t.1 = group ∧ 0 < t.2 := by
  induction ts generalizing timings with
  | nil => simp
  | cons t ts ih =>
    have hadd : (ProcessedResultsGroup.addTiming timings t).get? group ≠ none ↔
        timings.get? group ≠ none ∨ t.1 = group ∧ 0 < t.2 := by
      unfold ProcessedResultsGroup.addTiming
      split
      case isFalse hpos => exact (or_iff_left fun h => hpos h.2).symm
      case isTrue hpos =>
        rw [Dict.get?_set]
        by_cases hgroup : group = t.1
        · rw [if_pos hgroup]
          exact iff_of_true (Option.some_ne_none _) (.inr ⟨hgroup.symm, hpos⟩)
        · rw [if_neg hgroup]
          exact (or_iff_left fun h => hgroup h.1.symm).symm
    rw [List.foldl_cons, ih, hadd, or_assoc]
    simp only [List.mem_cons, exists_eq_or_imp]

theorem timings_foldl (results : List Result) (g : ProcessedResultsGroup) (group : Group) :
    (results.foldl .add g).timings.get? group ≠ none ↔
      g.timings.get? group ≠ none ∨ ∃ r ∈ results, ∃ t ∈ r.timings, t.1 = group ∧ 0 < t.2 := by
  induction results generalizing g with
  | nil => simp
  | cons r results ih =>
    rw [List.foldl_cons, ih, timings_add, timings_addTimings, or_assoc]
    simp only [List.mem_cons, exists_eq_or_imp]

theorem counts_foldl (results : List Result) (g : ProcessedResultsGroup) :
    (results.foldl .add g).succeeded = g.succeeded + results.countP (fun r => r.error.isNone) ∧
      (results.foldl .add g).failed = g.failed + results.countP (fun r => r.error.isSome) := by
  induction results generalizing g with
  | nil => exact ⟨rfl, rfl⟩
  | cons r results ih =>
    obtain ⟨hsucceeded, hfailed⟩ := ih (g.add r)
    obtain ⟨hadd, hadd'⟩ := counts_add g r
    rw [List.foldl_cons, hsucceeded, hfailed, hadd, hadd', List.countP_cons, List.countP_cons]
    omega

/-- The group of an action has the results of that name. -/
theorem get?_addResults (results : List Result) (events : Events) (name : String) :
    (results.foldl addResult events).get? name =
      if results.filter (fun r => r.name = name) = [] then events.get? name
      else some ((results.filter fun r => r.name = name).foldl .add ((events.get? name).getD {})) := by
  induction results generalizing events with
  | nil => rfl
  | cons r results ih =>
    rw [List.foldl_cons, ih, addResult, Dict.get?_set]
    by_cases h : r.name = name
    · rw [List.filter_cons_of_pos (by simpa using h), if_neg (List.cons_ne_nil _ _), if_pos h.symm,
        List.foldl_cons, h]
      split
      · next hnone => rw [hnone]; rfl
      · rfl
    · rw [List.filter_cons_of_neg (by simpa using h), if_neg (Ne.symm h)]

/-- How many results are in all groups: of a kind that each result adds to by itself. -/
theorem sum_addResults {f : ProcessedResultsGroup → ℕ} {p : Result → Bool} (hempty : f {} = 0)
    (hadd : ∀ g r, f (g.add r) = f g + if p r then 1 else 0) (results : List Result) (events : Events) :
    ((results.foldl addResult events).items.map fun i => f i.2).sum =
      (events.items.map fun i => f i.2).sum + results.countP p := by
  induction results generalizing events with
  | nil => rfl
  | cons r results ih =>
    rw [List.foldl_cons, ih, List.countP_cons]
    have hset := Dict.sum_set f r.name (((events.get? r.name).getD {}).add r) events
    have hold : (events.get? r.name).elim 0 f = f ((events.get? r.name).getD {}) := by
      cases events.get? r.name with
      | none => exact hempty.symm
      | some g => rfl
    rw [hold, hadd] at hset
    unfold addResult
    omega

theorem sum_calculateAll (f : ProcessedResultsGroup → ℕ) (events : Events) :
    ((calculateAll events).items.map fun i => f i.2).sum =
      (events.items.map fun i => f i.2.calculateStats).sum := by
  unfold calculateAll Dict.mapValues
  rw [List.map_map]
  rfl

theorem length_eq_counts (results : List Result) :
    results.length =
      (results.countP fun r => r.error.isNone) + results.countP fun r => r.error.isSome := by
  induction results with
  | nil => rfl
  | cons r results ih =>
    rw [List.length_cons, List.countP_cons, List.countP_cons, ih]
    cases r.error <;> simp <;> omega

theorem total_add (g : ProcessedResultsGroup) (r : Result) :
    (g.add r).calculateStats.total = g.calculateStats.total + if true then 1 else 0 := by
  obtain ⟨hsucceeded, hfailed⟩ := counts_add g r
  change (g.add r).succeeded + (g.add r).failed = g.succeeded + g.failed + 1
  rw [hsucceeded, hfailed]
  cases r.error <;> simp <;> omega

/-- The groups of the results of each name. -/
theorem get?_processResultsBatch (results : List Result) (name : String) :
    (processResultsBatch results).get? name =
      if results.filter (fun r => r.name = name) = [] then none
      else some ((results.filter fun r => r.name = name).foldl ProcessedResultsGroup.add {}).calculateStats := by
  rw [processResultsBatch, calculateAll, Dict.get?_mapValues, get?_addResults]
  split <;> rfl

/-- The metrics of each action. -/
abbrev metricsSets (events : Events) : Dict String MetricsSet :=
  events.mapValues ProcessedResultsGroup.metricsSet

/-- The summary, if there is one. -/
def summary (totalTime : ℚ) (events : Events) : StageMetricsSummary where
  metricsSets := metricsSets events
  stageMetrics := summed totalTime (metricsSets events).values

/-- All groups are there, and nothing is divided by zero. -/
def HasSummary (totalTime : ℚ) (events : Events) : Prop :=
  (∀ set ∈ (metricsSets events).values, set.Complete) ∧ totalTime ≠ 0 ∧ count (metricsSets events).values ≠ 0

theorem summarize_eq_ok_iff (totalTime : ℚ) (events : Events) (s : StageMetricsSummary) :
    summarize totalTime events = .ok s ↔ HasSummary totalTime events ∧ s = summary totalTime events := by
  unfold summarize HasSummary
  dsimp only
  split
  case isTrue h => exact iff_of_false nofun fun hs => hs.1.2.1 h.2
  case isFalse =>
    split
    case isTrue h =>
      obtain ⟨set, hset, hnone⟩ := h
      exact iff_of_false nofun fun hs => hs.1.1 set hset .total List.mem_cons_self hnone
    case isFalse =>
      cases hcalculate : calculateActionAndTaskMetrics totalTime (metricsSets events).values with
      | error e =>
        refine iff_of_false nofun fun hs => ?_
        rw [calculate_eq_ok_iff.mpr ⟨hs.1, rfl⟩] at hcalculate
        cases hcalculate
      | ok metrics =>
        obtain ⟨hdone, rfl⟩ := calculate_eq_ok_iff.mp hcalculate
        exact ⟨fun h => ⟨hdone, (Except.ok.inj h).symm⟩, fun h => congrArg Except.ok h.2.symm⟩

/-- What is counted of the groups of an action is what is counted of the groups of results. -/
theorem sum_metricsSets {f : MetricsSet → ℕ} (events : Events) :
    ((metricsSets events).values.map f).sum = (events.items.map fun i => f i.2.metricsSet).sum := by
  unfold metricsSets Dict.values Dict.mapValues
  rw [List.map_map, List.map_map]
  rfl

/-- **Groups count exactly the results that are put into them.** -/
theorem countsExactly (totalTime : ℚ) (results : List Result) :
    CountsExactly (summary totalTime (processResultsBatch results)) results := by
  have htotal : (summary totalTime (processResultsBatch results)).stageMetrics.total = results.length := by
    refine (sum_metricsSets _).trans ((sum_calculateAll (·.total) _).trans ?_)
    rw [sum_addResults (f := fun g => g.calculateStats.total) rfl total_add, List.countP_true]
    exact Nat.zero_add _
  have hsucceeded : (summary totalTime (processResultsBatch results)).stageMetrics.succeeded =
      results.countP fun r => r.error.isNone := by
    refine (sum_metricsSets _).trans ((sum_calculateAll (·.succeeded) _).trans ?_)
    rw [sum_addResults (f := fun g => g.calculateStats.succeeded) rfl fun g r => (counts_add g r).1]
    exact Nat.zero_add _
  have hfailed : (summary totalTime (processResultsBatch results)).stageMetrics.failed =
      results.countP fun r => r.error.isSome := by
    refine (sum_metricsSets _).trans ((sum_calculateAll (·.failed) _).trans ?_)
    rw [sum_addResults (f := fun g => g.calculateStats.failed) rfl fun g r => (counts_add g r).2]
    exact Nat.zero_add _
  have hget : ∀ name, (metricsSets (processResultsBatch results)).get? name =
      (if results.filter (fun r => r.name = name) = [] then none
      else some ((results.filter fun r => r.name = name).foldl ProcessedResultsGroup.add {}).calculateStats).map
        ProcessedResultsGroup.metricsSet := by
    intro name
    rw [metricsSets, Dict.get?_mapValues, get?_processResultsBatch]
  refine ⟨⟨?_, htotal, hsucceeded, hfailed⟩, fun r hr => ?_, fun name set hset => ?_⟩
  · rw [htotal, hsucceeded, hfailed]
    exact length_eq_counts results
  · have hmem : r ∈ results.filter fun x => x.name = r.name := List.mem_filter.mpr ⟨hr, by simp⟩
    exact ⟨_, (hget r.name).trans (congrArg _ (if_neg (List.ne_nil_of_mem hmem)))⟩
  · have hset := (hget name).symm.trans hset
    split at hset
    case isTrue => cases hset
    case isFalse =>
      obtain rfl := Option.some.inj hset
      obtain ⟨hsucceeded, hfailed⟩ := counts_foldl (results.filter fun r => r.name = name) {}
      refine ⟨rfl, ?_, hsucceeded.trans (Nat.zero_add _), hfailed.trans (Nat.zero_add _)⟩
      change ProcessedResultsGroup.succeeded _ + ProcessedResultsGroup.failed _ = _
      rw [hsucceeded, hfailed, length_eq_counts]
      exact congrArg₂ _ (Nat.zero_add _) (Nat.zero_add _)

theorem mem_groupNames (group : Group) : group ∈ groupNames := by
  cases group <;> decide

/-- All groups are there of each action if some result of it took time in each of them. -/
theorem complete_iff (results : List Result) :
    (∀ set ∈ (metricsSets (processResultsBatch results)).values, set.Complete) ↔ Timed results := by
  have hgroup : ∀ name group, ((((results.filter fun r => r.name = name).foldl
      ProcessedResultsGroup.add {}).calculateStats).metricsSet.groups group ≠ none ↔
        ∃ r' ∈ results, r'.name = name ∧ ∃ t ∈ r'.timings, t.1 = group ∧ 0 < t.2) := by
    intro name group
    change (Dict.mapValues _ _).get? group ≠ none ↔ _
    rw [Dict.get?_mapValues, Ne, Option.map_eq_none_iff, ← Ne, timings_foldl]
    simp only [Dict.get?_empty, ne_eq, not_true_eq_false, false_or, List.mem_filter, decide_eq_true_eq, and_assoc]
  constructor
  · intro h r hr group
    have hmem : r ∈ results.filter fun x => x.name = r.name := List.mem_filter.mpr ⟨hr, by simp⟩
    have hget := (get?_processResultsBatch results r.name).trans (if_neg (List.ne_nil_of_mem hmem))
    have hset := h _ ((Dict.mem_values_iff _ _).mpr
      ⟨r.name, (Dict.get?_mapValues _ _ _).trans (congrArg (Option.map _) hget)⟩)
    exact (hgroup r.name group).mp (hset group (mem_groupNames group))
  · intro h set hset group _
    obtain ⟨name, hget⟩ := (Dict.mem_values_iff _ _).mp hset
    rw [metricsSets, Dict.get?_mapValues, get?_processResultsBatch] at hget
    split at hget
    case isTrue => cases hget
    case isFalse hname =>
      obtain rfl := Option.some.inj hget
      obtain ⟨r, hr⟩ := List.exists_mem_of_ne_nil _ hname
      obtain ⟨hr, hsame⟩ := List.mem_filter.mp hr
      exact (hgroup name group).mpr (of_decide_eq_true hsame ▸ h r hr group)

/-- **When there is a summary of results.** -/
theorem hasSummary_iff (totalTime : ℚ) (results : List Result) :
    HasSummary totalTime (processResultsBatch results) ↔ Summarizable totalTime results := by
  have hcount : count (metricsSets (processResultsBatch results)).values ≠ 0 ↔ results ≠ [] := by
    have htotal : count (metricsSets (processResultsBatch results)).values = results.length :=
      (countsExactly totalTime results).overall.total
    rw [htotal, Ne, List.length_eq_zero_iff]
  unfold HasSummary
  rw [complete_iff, hcount]
  exact ⟨fun ⟨htimed, htime, hne⟩ => ⟨hne, htime, htimed⟩, fun ⟨hne, htime, htimed⟩ => ⟨htimed, htime, hne⟩⟩

end Groups

/-! ## 5. The two ways -/

section Ways

variable {raw : RawResults} {cpus : Nat} {times : String → ℚ}

theorem createStageBatches_one (results : List Result) : createStageBatches results 1 = [results] := by
  unfold createStageBatches
  dsimp only
  rw [Nat.div_one, Nat.mod_one, if_neg (Nat.lt_irrefl 0)]
  simp

/-- Each stage's results are one batch. -/
theorem assignStageBatches_eq (h : 1 < cpus) (raw : RawResults) :
    assignStageBatches cpus raw = raw.items.map fun i => (i.1, [i.2]) := by
  rw [assignStageBatches, if_pos h, partionStageBatches, List.map_map]
  refine List.map_congr_left fun i hi => ?_
  have hget : raw.get? i.1 = some i.2 := (raw.mem_items_iff i.1 i.2).mp hi
  simp only [Function.comp_apply, hget, Option.getD_some, createStageBatches_one]

/-- What one worker alone makes of all results. -/
def allEvents (raw : RawResults) : Events :=
  raw.items.foldl (fun events i => calculateAll (i.2.foldl addResult events)) .empty

/-- Of one batch the last is that one. -/
theorem merge_singles (l : List (String × List Result)) (d : Dict String Events) :
    (l.map fun i => (i.1, [i.2].map processResultsBatch)).foldlM (fun events x => do
      let last ← pop x.2
      pure (events.set x.1 last)) d =
      Except.ok ((l.map fun i => (i.1, processResultsBatch i.2)).foldl (fun d i => d.set i.1 i.2) d) := by
  induction l generalizing d with
  | nil => rfl
  | cons i l ih =>
    rw [List.map_cons, List.foldlM_cons]
    exact ih _

theorem merge_of_several (h : 1 < cpus) (hstages : 1 < raw.items.length) :
    mergeEventsGroups (executeBatchedAnalysis cpus raw) =
      .ok (Dict.ofList (raw.items.map fun i => (i.1, processResultsBatch i.2))) := by
  have hlength : 1 < (assignStageBatches cpus raw).length := by
    rwa [assignStageBatches_eq h, List.length_map]
  unfold executeBatchedAnalysis
  dsimp only
  rw [if_pos ⟨hlength, h⟩, assignStageBatches_eq h, List.map_map]
  exact merge_singles raw.items .empty

theorem merge_of_alone (h : ¬ (1 < cpus ∧ 1 < raw.items.length)) :
    mergeEventsGroups (executeBatchedAnalysis cpus raw) =
      .ok (Dict.ofList (raw.keys.map fun name => (name, allEvents raw))) := by
  have hfew : ¬ (1 < (assignStageBatches cpus raw).length ∧ 1 < cpus) := by
    rintro ⟨hlength, hcpus⟩
    rw [assignStageBatches_eq hcpus, List.length_map] at hlength
    exact h ⟨hcpus, hlength⟩
  unfold executeBatchedAnalysis
  dsimp only
  rw [if_neg hfew]
  rfl

/-- The summaries are made of the merged groups, if each of these has one. -/
theorem analyze_of_merge {l : List (String × Events)} (hnodup : (l.map Prod.fst).Nodup)
    (h : mergeEventsGroups (executeBatchedAnalysis cpus raw) = .ok (Dict.ofList l))
    {summaries : List (String × StageMetricsSummary)} :
    analyze cpus times raw = .ok summaries ↔
      (∀ i ∈ l, HasSummary (times i.1) i.2) ∧ summaries = l.map fun i => (i.1, summary (times i.1) i.2) := by
  unfold analyze
  rw [h]
  change (Dict.ofList l).items.mapM _ = _ ↔ _
  rw [Dict.items_ofList hnodup]
  refine Outcomes.mapM_ok_map_iff fun i x => ?_
  rw [Outcomes.bind_ok_iff]
  constructor
  · rintro ⟨s, hs, heq⟩
    obtain ⟨hhas, rfl⟩ := (summarize_eq_ok_iff _ _ _).mp hs
    exact ⟨hhas, (Except.ok.inj heq).symm⟩
  · rintro ⟨hhas, rfl⟩
    exact ⟨_, (summarize_eq_ok_iff _ _ _).mpr ⟨hhas, rfl⟩, rfl⟩

/-- Each stage has its own groups, with several workers and stages. -/
theorem analyze_of_several (h : 1 < cpus) (hstages : 1 < raw.items.length)
    {summaries : List (String × StageMetricsSummary)} :
    analyze cpus times raw = .ok summaries ↔ (∀ i ∈ raw.items, Summarizable (times i.1) i.2) ∧
      summaries = raw.items.map fun i => (i.1, summary (times i.1) (processResultsBatch i.2)) := by
  have hnodup : ((raw.items.map fun i => (i.1, processResultsBatch i.2)).map Prod.fst).Nodup := by
    rw [List.map_map]
    exact raw.nodup
  rw [analyze_of_merge hnodup (merge_of_several h hstages), List.forall_mem_map, List.map_map]
  simp only [hasSummary_iff, Function.comp_def]

/-- All stages have the same groups, with one worker or one stage. -/
theorem analyze_of_alone (h : ¬ (1 < cpus ∧ 1 < raw.items.length))
    {summaries : List (String × StageMetricsSummary)} :
    analyze cpus times raw = .ok summaries ↔ (∀ name ∈ raw.keys, HasSummary (times name) (allEvents raw)) ∧
      summaries = raw.keys.map fun name => (name, summary (times name) (allEvents raw)) := by
  have hnodup : ((raw.keys.map fun name => (name, allEvents raw)).map Prod.fst).Nodup := by
    rw [List.map_map]
    exact (List.map_id raw.keys).symm ▸ raw.nodup_keys
  rw [analyze_of_merge hnodup (merge_of_alone h), List.forall_mem_map, List.map_map]
  simp only [Function.comp_def]

/-- How many results the groups have. -/
def size (events : Events) : ℕ := (events.items.map fun i => i.2.calculateStats.total).sum

theorem size_addResults (results : List Result) (events : Events) :
    size (results.foldl addResult events) = size events + results.length := by
  have h := sum_addResults (f := fun g => g.calculateStats.total) rfl total_add results events
  rwa [List.countP_true] at h

theorem size_calculateAll (events : Events) : size (calculateAll events) = size events :=
  sum_calculateAll (fun g => g.calculateStats.total) events

theorem count_calculateAll (events : Events) :
    count (metricsSets (calculateAll events)).values = size (calculateAll events) :=
  (sum_metricsSets _).trans ((sum_calculateAll (·.total) events).trans (size_calculateAll events).symm)

/-- The groups of all stages count the results of all stages. -/
theorem count_allEvents (raw : RawResults) :
    count (metricsSets (allEvents raw)).values = (raw.items.map fun i => i.2.length).sum := by
  have htotal : ∀ (l : List (String × List Result)) (events : Events),
      count (metricsSets events).values = size events →
      count (metricsSets (l.foldl (fun events i => calculateAll (i.2.foldl addResult events)) events)).values =
        size events + (l.map fun i => i.2.length).sum := by
    intro l
    induction l with
    | nil => exact fun _ h => h
    | cons i l ih =>
      intro events _
      rw [List.foldl_cons, ih _ (count_calculateAll _), size_calculateAll, size_addResults,
        List.map_cons, List.sum_cons, Nat.add_assoc]
  exact (htotal raw.items .empty rfl).trans (Nat.zero_add _)

end Ways

/-! ## 6. When the summaries are right -/

section Summaries

variable {raw : RawResults} {cpus : Nat} {times : String → ℚ}

theorem counted_of_several (h : 1 < cpus) (hstages : 1 < raw.items.length)
    (hresults : ∀ i ∈ raw.items, Summarizable (times i.1) i.2) : Counted cpus times raw := by
  refine ⟨_, (analyze_of_several h hstages).mpr ⟨hresults, rfl⟩, List.map_map, fun name s results hmem hget => ?_⟩
  obtain ⟨i, hi, heq⟩ := List.mem_map.mp hmem
  obtain ⟨rfl, rfl⟩ := Prod.mk.inj heq
  obtain rfl := Option.some.inj (((raw.mem_items_iff i.1 i.2).mp hi).symm.trans hget)
  exact countsExactly _ i.2

/-- One stage has the groups of its results, however they are made. -/
theorem allEvents_of_one (hstages : raw.items.length ≤ 1) {i : String × List Result} (hi : i ∈ raw.items) :
    allEvents raw = processResultsBatch i.2 := by
  obtain ⟨j, hitems⟩ := List.length_eq_one_iff.mp (Nat.le_antisymm hstages (List.length_pos_of_mem hi))
  rw [hitems] at hi
  obtain rfl := List.mem_singleton.mp hi
  unfold allEvents
  rw [hitems]
  rfl

theorem analyze_of_one (hstages : raw.items.length ≤ 1) {summaries : List (String × StageMetricsSummary)} :
    analyze cpus times raw = .ok summaries ↔ (∀ i ∈ raw.items, Summarizable (times i.1) i.2) ∧
      summaries = raw.keys.map fun name => (name, summary (times name) (allEvents raw)) := by
  rw [analyze_of_alone fun hseveral => absurd hseveral.2 (Nat.not_lt.mpr hstages), Dict.keys, List.forall_mem_map]
  refine and_congr_left' (forall₂_congr fun i hi => ?_)
  rw [allEvents_of_one hstages hi, hasSummary_iff]

theorem counted_of_one (hstages : raw.items.length ≤ 1)
    (hresults : ∀ i ∈ raw.items, Summarizable (times i.1) i.2) : Counted cpus times raw := by
  refine ⟨_, (analyze_of_one hstages).mpr ⟨hresults, rfl⟩, List.map_map.trans (List.map_id _),
    fun name s results hmem hget => ?_⟩
  obtain ⟨_, -, heq⟩ := List.mem_map.mp hmem
  obtain ⟨rfl, rfl⟩ := Prod.mk.inj heq
  rw [allEvents_of_one hstages ((raw.mem_items_iff _ results).mpr hget)]
  exact countsExactly _ results

/-- Where all stages share their groups, each has all results. -/
theorem count_of_counted (h : ¬ (1 < cpus ∧ 1 < raw.items.length)) (hcounted : Counted cpus times raw) :
    ∀ i ∈ raw.items, count (metricsSets (allEvents raw)).values = i.2.length ∧
      count (metricsSets (allEvents raw)).values ≠ 0 := by
  obtain ⟨summaries, hanalyze, -, hcounted⟩ := hcounted
  obtain ⟨hhas, rfl⟩ := (analyze_of_alone h).mp hanalyze
  intro i hi
  have hkey : i.1 ∈ raw.keys := List.mem_map_of_mem hi
  have hmem := List.mem_map_of_mem (f := fun name => (name, summary (times name) (allEvents raw))) hkey
  exact ⟨(hcounted i.1 _ i.2 hmem ((raw.mem_items_iff i.1 i.2).mp hi)).overall.total, (hhas i.1 hkey).2.2⟩

/-- The groups that all stages share are not those of each. -/
theorem not_counted (h : ¬ 1 < cpus) (hstages : 1 < raw.items.length) : ¬ Counted cpus times raw := by
  intro hcounted
  have hlength := count_of_counted (fun hseveral => h hseveral.1) hcounted
  -- two of the stages have all results each
  obtain ⟨i, j, rest, hitems⟩ : ∃ i j rest, raw.items = i :: j :: rest := by
    match hitems : raw.items, hstages with
    | i :: j :: rest, _ => exact ⟨i, j, rest, rfl⟩
  have hi := hlength i (hitems ▸ List.mem_cons_self)
  have hj := hlength j (hitems ▸ List.mem_cons_of_mem i List.mem_cons_self)
  have htotal := count_allEvents raw
  rw [hitems, List.map_cons, List.map_cons, List.sum_cons, List.sum_cons] at htotal
  omega

/-- The counts are right if each stage has a summary, and its own groups. -/
theorem counted_iff (cpus : Nat) (times : String → ℚ) (raw : RawResults) :
    Counted cpus times raw ↔
      (∀ i ∈ raw.items, Summarizable (times i.1) i.2) ∧ (1 < cpus ∨ raw.items.length ≤ 1) := by
  constructor
  · intro h
    have hown : 1 < cpus ∨ raw.items.length ≤ 1 := by
      by_contra hshared
      obtain ⟨hcpus, hstages⟩ := not_or.mp hshared
      exact not_counted hcpus (Nat.not_le.mp hstages) h
    refine ⟨?_, hown⟩
    obtain ⟨summaries, hanalyze, -, -⟩ := h
    by_cases hstages : raw.items.length ≤ 1
    · exact ((analyze_of_one hstages).mp hanalyze).1
    · exact ((analyze_of_several (hown.resolve_right hstages) (Nat.not_le.mp hstages)).mp hanalyze).1
  · rintro ⟨hresults, hown⟩
    by_cases hstages : raw.items.length ≤ 1
    · exact counted_of_one hstages hresults
    · exact counted_of_several (hown.resolve_right hstages) (Nat.not_le.mp hstages) hresults

/-- A result that took a second in each of the groups. -/
def timedResult : Result := ⟨"get", none, groupNames.map fun group => (group, 1)⟩

/-- One result of each of two stages. -/
def twoResults : RawResults := .ofList [("a", [timedResult]), ("b", [timedResult])]

end Summaries

end Analysis
end Graphs
end Hedra
