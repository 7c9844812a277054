/-
# The samples of a resource monitor

A background task of a monitor (`monitoring/base/monitor.py`) adds samples to the `active` list of
its name; `stop` adds the active samples to the `collected` ones, which a stage reports.  Beside it
a ledger is kept in which a sample is collected once, and trimming is done.  The two agree in the
runs in which `stop` finds no sample that an earlier `stop` has collected (it does not clear the
active list), and no sample is to be trimmed (the slice that `trim` builds is dropped).  The job of
a single worker stops its monitor twice, and collects every sample twice (`single_worker_twice`).

The monitors of several workers are put together under the number of the worker.  The results have it
as `worker_idx`, and `worker_id` is asked for: all workers are filed under `None`, and of each name
only the last one's samples are left.

* `always_once_iff`: the runs in which each sample is collected once;
* `statsOf_eq`: what is left of several workers is the last one's;
* `samples_once_iff`: both.
-/
import Hedra.Lib.Dict
import Hedra.Lib.Machine
import Hedra.Lib.Slices
import Mathlib.Data.List.Induction
import Mathlib.Logic.Function.Basic

namespace Hedra
namespace ResourceMonitor

open Lib Machine Slices

variable {κ α : Type} [DecidableEq κ]

/-! ## 1. One monitor -/

/-- `BaseMonitor`, with the names for which a background task has been started. -/
structure BaseMonitor (κ α : Type) where
  active : κ → List α
  collected : κ → List α
  backgroundMonitors : κ → Bool

namespace BaseMonitor

def init : BaseMonitor κ α := ⟨fun _ => [], fun _ => [], fun _ => false⟩

/-- `start_background_monitor` -/
def startBackgroundMonitor (m : BaseMonitor κ α) (name : κ) : BaseMonitor κ α :=
  { m with backgroundMonitors := Function.update m.backgroundMonitors name true }

/-- `update_monitor`, with the sample that is taken. -/
def updateMonitor (m : BaseMonitor κ α) (name : κ) (sample : α) : BaseMonitor κ α :=
  { m with active := Function.update m.active name (m.active name ++ [sample]) }

/-- `stop_background_monitor`, while which the task takes its `last` samples.  A name that has not
been started is a `KeyError`. -/
def stopBackgroundMonitor (m : BaseMonitor κ α) (name : κ) (last : List α) : BaseMonitor κ α :=
  if m.backgroundMonitors name then
    let active := m.active name ++ last
    { m with
      active := Function.update m.active name active
      collected :=
        if active = [] then m.collected
        else Function.update m.collected name (m.collected name ++ active) }
  else m

/-- `trim_monitor_samples`: `self.collected[monitor_name][:trim_length]` is a list that nobody
keeps. -/
def trimMonitorSamples (m : BaseMonitor κ α) (_ : κ) (_ : ℤ) : BaseMonitor κ α := m

end BaseMonitor

/-- The samples that have not been collected, and the ones that have, less what has been trimmed. -/
structure Ledger (κ α : Type) where
  pending : κ → List α
  collected : κ → List α

inductive Event (κ α : Type)
  | start (name : κ)
  | update (name : κ) (sample : α)
  | stop (name : κ) (last : List α)
  | trim (name : κ) (length : ℤ)

/-- A monitor beside its ledger. -/
structure State (κ α : Type) where
  monitor : BaseMonitor κ α
  ledger : Ledger κ α

def State.init : State κ α := ⟨.init, fun _ => [], fun _ => []⟩

namespace Ledger

def update (l : Ledger κ α) (name : κ) (sample : α) : Ledger κ α :=
  { l with pending := Function.update l.pending name (l.pending name ++ [sample]) }

def stop (l : Ledger κ α) (name : κ) (last : List α) : Ledger κ α where
  pending := Function.update l.pending name []
  collected := Function.update l.collected name (l.collected name ++ (l.pending name ++ last))

def trim (l : Ledger κ α) (name : κ) (length : ℤ) : Ledger κ α :=
  { l with
    collected := Function.update l.collected name (slice (l.collected name) none (some length)) }

end Ledger

/-- Samples are taken from the first start of a name on. -/
def step (s : State κ α) : Event κ α → Option (State κ α)
  | .start name => some { s with monitor := s.monitor.startBackgroundMonitor name }
  | .update name sample =>
    if s.monitor.backgroundMonitors name then
      some ⟨s.monitor.updateMonitor name sample, s.ledger.update name sample⟩
    else none
  | .stop name last =>
    if s.monitor.backgroundMonitors name then
      some ⟨s.monitor.stopBackgroundMonitor name last, s.ledger.stop name last⟩
    else some s
  | .trim name length =>
    some ⟨s.monitor.trimMonitorSamples name length, s.ledger.trim name length⟩

/-- **Once**: what the monitor has collected under each name is in the ledger, and nothing else. -/
def CollectedOnce (s : State κ α) : Prop := ∀ name, s.monitor.collected name = s.ledger.collected name

/-- What is active has been taken since the last stop, and nothing is trimmed. -/
def Regular (s : State κ α) : Event κ α → Prop
  | .stop name _ =>
    s.monitor.backgroundMonitors name = true → s.monitor.active name = s.ledger.pending name
  | .trim name length =>
    slice (s.monitor.collected name) none (some length) = s.monitor.collected name
  | _ => True

theorem stop_collected {m : BaseMonitor κ α} {name : κ} {last : List α}
    (hm : m.backgroundMonitors name = true) :
    (m.stopBackgroundMonitor name last).collected =
      Function.update m.collected name (m.collected name ++ (m.active name ++ last)) := by
  rw [BaseMonitor.stopBackgroundMonitor, if_pos hm]
  dsimp only
  split
  next h => rw [h, List.append_nil, Function.update_eq_self]
  next => rfl

/-- Changes of one name, on both sides. -/
theorem forall_update_iff {β : Type} {f g : κ → β} (h : ∀ name, f name = g name) (name : κ)
    (x y : β) :
    (∀ other, Function.update f name x other = Function.update g name y other) ↔ x = y := by
  constructor
  · intro hall
    simpa using hall name
  · rintro rfl other
    by_cases ho : other = name
    · rw [ho, Function.update_self, Function.update_self]
    · rw [Function.update_of_ne ho, Function.update_of_ne ho, h other]

/-- **What one step keeps.** -/
theorem once_step {s s' : State κ α} {e : Event κ α} (h : CollectedOnce s)
    (hs : step s e = some s') : CollectedOnce s' ↔ Regular s e := by
  cases e with
  | start name => obtain rfl := Option.some.inj hs; exact iff_of_true h trivial
  | update name sample =>
    obtain ⟨-, rfl⟩ : s.monitor.backgroundMonitors name = true ∧
        (⟨s.monitor.updateMonitor name sample, s.ledger.update name sample⟩ : State κ α) = s' := by
      simpa [step] using hs
    exact iff_of_true h trivial
  | stop name last =>
    simp only [step] at hs
    split at hs
    next hm =>
      obtain rfl := Option.some.inj hs
      unfold CollectedOnce Regular
      dsimp only [Ledger.stop]
      rw [stop_collected hm, forall_update_iff h, h name, List.append_cancel_left_eq,
        List.append_cancel_right_eq]
      exact ⟨fun hp _ => hp, fun hp => hp hm⟩
    next hm =>
      obtain rfl := Option.some.inj hs
      exact iff_of_true h fun hm' => absurd hm' hm
  | trim name length =>
    obtain rfl := Option.some.inj hs
    unfold CollectedOnce Regular
    dsimp only [Ledger.trim, BaseMonitor.trimMonitorSamples]
    have hself : s.monitor.collected = Function.update s.monitor.collected name
        (s.monitor.collected name) := (Function.update_eq_self name _).symm
    rw [hself, forall_update_iff h, Function.update_self, h name]
    exact eq_comm

/-- **The runs of a monitor.** -/
theorem always_once_iff (es : List (Event κ α)) :
    Always step CollectedOnce (State.init : State κ α) es ↔
      Along step (fun s e _ => Regular s e) State.init es :=
  always_iff_along (fun _ _ _ h hs => once_step h hs) fun _ => rfl

/-! ## 2. A single worker -/

/-- What `run_single_worker_job` does to a monitor of the stage, which has run for so many seconds
beside a persona with these collected samples. -/
def runSingleWorkerJob (m : BaseMonitor κ α) (mainMonitorName : κ) (last : List α) (elapsed : ℤ)
    (persona : Dict κ (List α)) : BaseMonitor κ α :=
  let m := m.stopBackgroundMonitor mainMonitorName last
  let m := m.trimMonitorSamples mainMonitorName elapsed
  let m := m.stopBackgroundMonitor mainMonitorName []
  { m with collected := fun name => (persona.get? name).getD (m.collected name) }

/-- **Every sample of the stage's monitor is collected twice.** -/
theorem single_worker_twice {m : BaseMonitor κ α} {mainMonitorName : κ}
    (hm : m.backgroundMonitors mainMonitorName = true) (last : List α) (elapsed : ℤ)
    {persona : Dict κ (List α)} (hp : persona.get? mainMonitorName = none) :
    (runSingleWorkerJob m mainMonitorName last elapsed persona).collected mainMonitorName =
      m.collected mainMonitorName ++ (m.active mainMonitorName ++ last) ++
        (m.active mainMonitorName ++ last) := by
  have hm' : (m.stopBackgroundMonitor mainMonitorName last).backgroundMonitors mainMonitorName =
      true := by rw [BaseMonitor.stopBackgroundMonitor, if_pos hm]; exact hm
  have hactive : (m.stopBackgroundMonitor mainMonitorName last).active mainMonitorName =
      m.active mainMonitorName ++ last := by
    rw [BaseMonitor.stopBackgroundMonitor, if_pos hm]
    exact Function.update_self ..
  rw [runSingleWorkerJob]
  dsimp only [BaseMonitor.trimMonitorSamples]
  rw [hp, Option.getD_none, stop_collected hm', Function.update_self, hactive, stop_collected hm,
    Function.update_self, List.append_nil]

/-! ## 3. Several workers -/

/-- The result of a worker: its number, and what its monitor of the kind has collected. -/
structure WorkerResult (κ α : Type) where
  workerIdx : ℕ
  monitoring : Dict κ (List α)

/-- `result_set.get('worker_id')` -/
def WorkerResult.workerId (_ : WorkerResult κ α) : Option ℕ := none

abbrev WorkerMetrics (κ α : Type) := Dict (Option ℕ) (Dict κ (List α))

/-- `worker_metrics[worker_id][monitor_name] = collection_stats` -/
def record (workerMetrics : WorkerMetrics κ α) (workerId : Option ℕ) (item : κ × List α) :
    WorkerMetrics κ α :=
  workerMetrics.set workerId (((workerMetrics.get? workerId).getD Dict.empty).set item.1 item.2)

/-- The loop of `aggregate_multiple_worker_results`. -/
def gather (results : List (WorkerResult κ α)) : WorkerMetrics κ α :=
  results.foldl (fun workerMetrics result =>
    result.monitoring.items.foldl (fun m item => record m result.workerId item) workerMetrics)
    Dict.empty

/-- `monitor_stats[monitor_name].append(metrics)` -/
def append (monitorStats : Dict κ (List (List α))) (item : κ × List α) : Dict κ (List (List α)) :=
  monitorStats.set item.1 ((monitorStats.get? item.1).getD [] ++ [item.2])

/-- `_collect_worker_stats` -/
def collectWorkerStats (workerMetrics : WorkerMetrics κ α) : Dict κ (List (List α)) :=
  workerMetrics.values.foldl (fun stats metrics => metrics.items.foldl append stats) Dict.empty

/-- What `aggregate_worker_stats` makes the metrics of a name of. -/
def statsOf (results : List (WorkerResult κ α)) (name : κ) : List (List α) :=
  ((collectWorkerStats (gather results)).get? name).getD []

/-- **All workers**: the samples of each worker that has some. -/
def CollectsAll (results : List (WorkerResult κ α)) : Prop :=
  ∀ name, statsOf results name = results.filterMap (·.monitoring.get? name)

/-- No two workers have samples under one name. -/
def OneWorkerEach (results : List (WorkerResult κ α)) : Prop :=
  ∀ name, (results.filterMap (·.monitoring.get? name)).length ≤ 1

/-- Everything is filed under `None`. -/
def Filed (workerMetrics : WorkerMetrics κ α) (metrics : Dict κ (List α)) : Prop :=
  workerMetrics = Dict.empty ∧ metrics = Dict.empty ∨ workerMetrics.items = [(none, metrics)]

theorem filed_record {workerMetrics : WorkerMetrics κ α} {metrics : Dict κ (List α)}
    (h : Filed workerMetrics metrics) (item : κ × List α) :
    Filed (record workerMetrics none item) (metrics.set item.1 item.2) := by
  rcases h with ⟨rfl, rfl⟩ | h
  · exact .inr rfl
  · obtain ⟨items, hnodup⟩ := workerMetrics
    obtain rfl : items = [(none, metrics)] := h
    exact .inr (by simp [record, Dict.set, Dict.setItems, Dict.get?, Dict.getItems])

theorem filed_foldl {workerMetrics : WorkerMetrics κ α} {metrics : Dict κ (List α)}
    (h : Filed workerMetrics metrics) (items : List (κ × List α)) :
    Filed (items.foldl (fun m item => record m none item) workerMetrics)
      (items.foldl (fun d i => d.set i.1 i.2) metrics) := by
  induction items generalizing workerMetrics metrics with
  | nil => exact h
  | cons item items ih => exact ih (filed_record h item)

/-- The samples of all workers, the later ones in the place of the earlier ones. -/
def merged (results : List (WorkerResult κ α)) : Dict κ (List α) :=
  results.foldl (fun d result => d.update result.monitoring) Dict.empty

theorem filed_gather (results : List (WorkerResult κ α)) :
    Filed (gather results) (merged results) := by
  induction results using List.reverseRecOn with
  | nil => exact .inl ⟨rfl, rfl⟩
  | append_singleton results result ih =>
    rw [gather, merged, List.foldl_concat, List.foldl_concat]
    exact filed_foldl ih result.monitoring.items

theorem get?_merged (results : List (WorkerResult κ α)) (name : κ) :
    (merged results).get? name = (results.filterMap (·.monitoring.get? name)).getLast? := by
  induction results using List.reverseRecOn with
  | nil => rfl
  | append_singleton results result ih =>
    rw [merged, List.foldl_concat, Dict.get?_update, ← merged, ih, List.filterMap_append,
      List.getLast?_append]
    cases hname : result.monitoring.get? name <;> simp [hname]

theorem getD_foldl_append {items : List (κ × List α)} (hnodup : (items.map Prod.fst).Nodup)
    (stats : Dict κ (List (List α))) (name : κ) :
    ((items.foldl append stats).get? name).getD [] =
      (stats.get? name).getD [] ++ (Dict.getItems name items).toList := by
  induction items generalizing stats with
  | nil => simp [Dict.getItems]
  | cons item items ih =>
    obtain ⟨hitem, hrest⟩ := List.nodup_cons.mp hnodup
    rw [List.foldl_cons, ih hrest, append, Dict.getItems]
    by_cases hname : item.1 = name
    · subst hname
      simp [Dict.getItems_eq_none hitem]
    · rw [Dict.get?_set_ne _ _ (Ne.symm hname), if_neg hname]

/-- **What is left is the last worker's.** -/
theorem statsOf_eq (results : List (WorkerResult κ α)) (name : κ) :
    statsOf results name =
      (results.filterMap (·.monitoring.get? name)).getLast?.toList := by
  rw [← get?_merged]
  rcases filed_gather results with ⟨hgather, hmerged⟩ | hgather
  · rw [statsOf, hgather, hmerged]
    rfl
  · have hvalues : (gather results).values = [merged results] := by rw [Dict.values, hgather]; rfl
    rw [statsOf, collectWorkerStats, hvalues, List.foldl_cons, List.foldl_nil,
      getD_foldl_append (merged results).nodup, Dict.get?_empty]
    rfl

theorem toList_getLast?_eq_self_iff {β : Type} (xs : List β) :
    xs.getLast?.toList = xs ↔ xs.length ≤ 1 := by
  match xs with
  | [] => simp
  | [x] => simp
  | x :: y :: xs =>
    refine iff_of_false (fun h => ?_) (by simp)
    have hlen := congrArg List.length h
    rw [List.getLast?_eq_some_getLast (List.cons_ne_nil x _)] at hlen
    simp at hlen

theorem collectsAll_iff (results : List (WorkerResult κ α)) :
    CollectsAll results ↔ OneWorkerEach results :=
  forall_congr' fun name => by rw [statsOf_eq, toList_getLast?_eq_self_iff]

/-! ## 4. The monitors of a stage -/

/-- Two workers with a sample each. -/
example : statsOf [⟨1, Dict.ofList [((), [3])]⟩, ⟨2, Dict.ofList [((), [4])]⟩] () = [[4]] := by
  decide

end ResourceMonitor
end Hedra
