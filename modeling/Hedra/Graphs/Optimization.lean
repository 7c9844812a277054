/-
# The configurations of an Optimize stage

With more than one CPU, `create_optimization_configs` (`core/graphs/stages/optimize/optimize.py`)
divides the batch size of each stage over its workers, `optimize_stage` runs an optimizer in each of
them, and `set_optimized_configs` puts the results together; with one CPU the optimizers run in
threads, and write to the configurations.

Little of that comes out as it should.  What is left over of a batch size is taken from the quotient.
A worker whose optimizer has no batch interval takes the gradient for it.  A stage has the
configuration of its last worker, and the batch sizes of all stages together for the size of its
pools.  And behind the threads `collect_optimized_batch_sizes` reads monitors that only the other
path has assigned, so that nothing is put together at all.

* `recombined_eq`: a stage is given back what its last worker returns, and the batch sizes of all
  stages;
* `not_pathsAgree`: what the threads find is not put together;
* `recombination_fails`: so there is no input for which all of it is as it should be.
-/
import Mathlib.Algebra.Order.BigOperators.Group.List
import Mathlib.Algebra.Order.Ring.Nat
import Hedra.Lib.LastWrite
import Hedra.Lib.Shares

namespace Hedra
namespace Graphs
namespace Optimization

open Lib Lib.Shares

variable {ν : Type}

/-! ## 1. The two paths -/

/-- What is read and changed of a configuration.  The interval and the gradient are floats, which are
only handed on.  `experiment` is the distribution of the stage's experiment, if it has one. -/
structure Config (ν : Type) where
  batchSize : ℕ
  batchInterval : ν
  batchGradient : ν
  experiment : Option (List ℕ)

/-- What an optimizer returns: `results.get('optimized_…')`. -/
structure Optimized (ν : Type) where
  batchSize : Option ℕ
  batchInterval : Option ν
  batchGradient : Option ν
  distribution : Option (List ℕ)

/-- A stage that is optimized, with the workers that `partion_stage_batches` assigns to it. -/
structure Stage (ν : Type) where
  name : String
  config : Config ν
  assignedWorkersCount : ℕ
  workers_pos : 0 < assignedWorkersCount

/-- `experiment['distribution'] = results.get('optimized_distribution')`, where there are both. -/
def setDistribution (experiment : Option (List ℕ)) (results : Optimized ν) : Option (List ℕ) :=
  match experiment, results.distribution with
  | some _, some (value :: values) => some (value :: values)
  | experiment, _ => experiment

/-- The `execute_stage_batch_size` of each worker.  What the last one has besides is the remainder of
`batch_size`, which is the quotient by then. -/
def workerBatchSizes (stage : Stage ν) : List ℕ :=
  let batchSize := stage.config.batchSize / stage.assignedWorkersCount
  shares stage.assignedWorkersCount batchSize (batchSize % stage.assignedWorkersCount)

/-- The configuration that `optimize_stage` returns, for a worker with this batch size. -/
def optimizeStage (optimizeStageWorkers : ℕ) (config : Config ν) (batchSize : ℕ)
    (results : Optimized ν) : Config ν where
  batchSize := results.batchSize.getD batchSize
  batchInterval := results.batchInterval.getD config.batchGradient
  batchGradient := results.batchGradient.getD config.batchGradient
  experiment := setDistribution
    (config.experiment.map fun distribution => distribution.map (· / optimizeStageWorkers)) results

/-- What `execute_single_worker_optimization` makes of a configuration. -/
def optimizeSingle (config : Config ν) (results : Optimized ν) : Config ν where
  batchSize := results.batchSize.getD config.batchSize
  batchInterval := results.batchInterval.getD config.batchInterval
  batchGradient := results.batchGradient.getD config.batchGradient
  experiment := setDistribution config.experiment results

/-- What each optimizer returns, by the name of its stage and the number of its worker. -/
abbrev Outputs (ν : Type) := String → ℕ → Optimized ν

/-- The results of a stage's workers. -/
def workerResults (optimizeStageWorkers : ℕ) (outputs : Outputs ν) (stage : Stage ν) :
    List (String × Config ν) :=
  (workerBatchSizes stage).zipIdx.map fun worker =>
    (stage.name, optimizeStage optimizeStageWorkers stage.config worker.1 (outputs stage.name worker.2))

/-- `collect_optimized_batch_sizes`.  The monitors are assigned only if there are several workers, and
stopped in any case: `none` is the `UnboundLocalError`. -/
def collectOptimizedBatchSizes (hasMultipleWorkers : Bool) (results : List (String × Config ν)) :
    Option ℕ :=
  if hasMultipleWorkers then some (results.map fun result => result.2.batchSize).sum else none

/-- What a stage is given back: its configuration, and the size of its sessions' pools. -/
structure Recombined (ν : Type) where
  config : Config ν
  poolSize : ℕ

/-- `set_optimized_configs` -/
def setOptimizedConfigs (results : List (String × Config ν)) (optimizedBatchSize : ℕ) :
    Dict String (Recombined ν) :=
  Dict.ofList (results.map fun result => (result.1, ⟨result.2, optimizedBatchSize⟩))

/-- The path with several workers. -/
def multipleWorkers (optimizeStageWorkers : ℕ) (stages : List (Stage ν)) (outputs : Outputs ν) :
    Option (Dict String (Recombined ν)) :=
  let results := stages.flatMap (workerResults optimizeStageWorkers outputs)
  (collectOptimizedBatchSizes true results).map (setOptimizedConfigs results)

/-- The path with one worker. -/
def singleWorker (stages : List (Stage ν)) (outputs : Outputs ν) :
    Option (Dict String (Recombined ν)) :=
  let results := stages.map fun stage =>
    (stage.name, optimizeSingle stage.config (outputs stage.name 0))
  (collectOptimizedBatchSizes false results).map (setOptimizedConfigs results)

/-! ## 2. What should hold -/

/-- An optimization: stages with names of their own, and the workers of the Optimize stage. -/
structure Job (ν : Type) where
  stages : List (Stage ν)
  optimizeStageWorkers : ℕ
  nodup : (stages.map Stage.name).Nodup

/-- What a stage is given back by the path with several workers. -/
def recombined (job : Job ν) (outputs : Outputs ν) (name : String) : Option (Recombined ν) :=
  (multipleWorkers job.optimizeStageWorkers job.stages outputs).bind fun configs => configs.get? name

/-- The batch sizes that are handed out are the stage's. -/
def SplitsExactly (job : Job ν) : Prop :=
  ∀ stage ∈ job.stages, (workerBatchSizes stage).sum = stage.config.batchSize

/-- What a stage is given back depends on the results of its own workers only. -/
def DependsOnOwn (job : Job ν) (outputs : Outputs ν) : Prop :=
  ∀ stage ∈ job.stages, ∀ outputs' : Outputs ν, outputs' stage.name = outputs stage.name →
    recombined job outputs' stage.name = recombined job outputs stage.name

/-- None of a stage's optimizers returns this parameter. -/
def NotOptimized {β : Type} (stage : Stage ν) (outputs : Outputs ν) (param : Optimized ν → Option β) :
    Prop :=
  ∀ workerId < stage.assignedWorkersCount, param (outputs stage.name workerId) = none

/-- What is not optimized stays what it is. -/
structure Keeps (stage : Stage ν) (outputs : Outputs ν) (config : Config ν) : Prop where
  batchSize : NotOptimized stage outputs Optimized.batchSize →
    config.batchSize = stage.config.batchSize
  batchInterval : NotOptimized stage outputs Optimized.batchInterval →
    config.batchInterval = stage.config.batchInterval
  batchGradient : NotOptimized stage outputs Optimized.batchGradient →
    config.batchGradient = stage.config.batchGradient

def KeepsParameters (job : Job ν) (outputs : Outputs ν) : Prop :=
  ∀ stage ∈ job.stages, ∀ result, recombined job outputs stage.name = some result →
    Keeps stage outputs result.config

/-- The stage with one worker. -/
def Stage.alone (stage : Stage ν) : Stage ν :=
  { stage with assignedWorkersCount := 1, workers_pos := Nat.one_pos }

/-- Both paths make the same of the same results. -/
def PathsAgree (job : Job ν) (outputs : Outputs ν) : Prop :=
  ∃ configs, singleWorker job.stages outputs = some configs ∧
    multipleWorkers job.optimizeStageWorkers (job.stages.map Stage.alone) outputs = some configs

/-- **The recombination**, as it should be. -/
structure Recombines (job : Job ν) (outputs : Outputs ν) : Prop where
  splits : SplitsExactly job
  own : DependsOnOwn job outputs
  keeps : KeepsParameters job outputs
  agree : PathsAgree job outputs

/-! ## 3. What a stage is given back -/

variable {job : Job ν} {outputs : Outputs ν} {stage : Stage ν}

/-- The batch sizes of all results. -/
def total (job : Job ν) (outputs : Outputs ν) : ℕ :=
  ((job.stages.flatMap (workerResults job.optimizeStageWorkers outputs)).map
    fun result => result.2.batchSize).sum

/-- What the last worker of a stage returns. -/
def lastConfig (job : Job ν) (outputs : Outputs ν) (stage : Stage ν) : Config ν :=
  let each := stage.config.batchSize / stage.assignedWorkersCount
  optimizeStage job.optimizeStageWorkers stage.config (each + each % stage.assignedWorkersCount)
    (outputs stage.name (stage.assignedWorkersCount - 1))

/-- The last result of a stage is that of its last worker. -/
theorem exists_workerResults (job : Job ν) (outputs : Outputs ν) (stage : Stage ν) :
    ∃ front, workerResults job.optimizeStageWorkers outputs stage =
      front ++ [(stage.name, lastConfig job outputs stage)] := by
  obtain ⟨n, hn⟩ := Nat.exists_eq_succ_of_ne_zero (Nat.pos_iff_ne_zero.mp stage.workers_pos)
  rw [workerResults, workerBatchSizes, lastConfig]
  rw [hn, Nat.succ_eq_add_one, shares_succ, List.zipIdx_append, List.map_append]
  refine ⟨_, congrArg _ ?_⟩
  rw [List.length_replicate, Nat.zero_add, List.zipIdx_singleton, List.map_singleton,
    Nat.add_sub_cancel]

theorem fst_of_mem_workerResults {optimizeStageWorkers : ℕ} {result : String × Config ν}
    (h : result ∈ workerResults optimizeStageWorkers outputs stage) : result.1 = stage.name := by
  obtain ⟨worker, -, rfl⟩ := List.mem_map.mp h
  rfl

/-- **A stage is given back what its last worker returns, and the batch sizes of all stages.** -/
theorem recombined_eq (h : stage ∈ job.stages) :
    recombined job outputs stage.name = some ⟨lastConfig job outputs stage, total job outputs⟩ := by
  obtain ⟨front, back, hsplit⟩ := List.append_of_mem h
  have hnodup := job.nodup
  rw [hsplit, List.map_append, List.map_cons] at hnodup
  have hback : ∀ other ∈ back, other.name ≠ stage.name := by
    intro other hother heq
    have hrest := (List.nodup_append.mp hnodup).2.1
    exact (List.nodup_cons.mp hrest).1 (heq ▸ List.mem_map_of_mem hother)
  obtain ⟨init, hlast⟩ := exists_workerResults job outputs stage
  have hnone : lastWith Prod.fst ((back.flatMap (workerResults job.optimizeStageWorkers outputs)).map
      fun result => (result.1, (⟨result.2, total job outputs⟩ : Recombined ν))) stage.name = none := by
    refine lastWith_eq_none_iff.mpr fun x hx => ?_
    obtain ⟨result, hresult, rfl⟩ := List.mem_map.mp hx
    obtain ⟨other, hother, hmem⟩ := List.mem_flatMap.mp hresult
    dsimp only
    rw [fst_of_mem_workerResults hmem]
    exact hback other hother
  have hall : recombined job outputs stage.name = (setOptimizedConfigs
      (job.stages.flatMap (workerResults job.optimizeStageWorkers outputs))
      (total job outputs)).get? stage.name := rfl
  rw [hall, setOptimizedConfigs, Dict.get?_ofList, hsplit, List.flatMap_append, List.flatMap_cons,
    List.map_append, List.map_append, lastWith_append, lastWith_append, hnone, Option.none_or, hlast,
    List.map_append, lastWith_append, List.map_singleton, lastWith_singleton, if_pos rfl]
  rfl

/-! ## 4. Each of the parts -/

theorem splitsExactly_iff (job : Job ν) :
    SplitsExactly job ↔ ∀ stage ∈ job.stages,
      stage.config.batchSize / stage.assignedWorkersCount % stage.assignedWorkersCount =
        stage.config.batchSize % stage.assignedWorkersCount := by
  refine forall₂_congr fun stage _ => ?_
  have hdiv := Nat.div_add_mod stage.config.batchSize stage.assignedWorkersCount
  rw [workerBatchSizes, sum_shares stage.workers_pos]
  omega

/-- A batch size that the pools of every stage get to see. -/
theorem le_total (h : stage ∈ job.stages) {n : ℕ}
    (hn : ∀ workerId, (outputs stage.name workerId).batchSize = some n) : n ≤ total job outputs := by
  obtain ⟨front, hlast⟩ := exists_workerResults job outputs stage
  have hmem : (stage.name, lastConfig job outputs stage) ∈
      job.stages.flatMap (workerResults job.optimizeStageWorkers outputs) := by
    refine List.mem_flatMap.mpr ⟨stage, h, ?_⟩
    rw [hlast]
    exact List.mem_append_right _ (List.mem_singleton_self _)
  have hsize : (lastConfig job outputs stage).batchSize = n := by
    simp only [lastConfig, optimizeStage, hn, Option.getD_some]
  rw [← hsize]
  exact List.single_le_sum (fun _ _ => Nat.zero_le _) _
    (List.mem_map_of_mem (f := fun result : String × Config ν => result.2.batchSize) hmem)

theorem dependsOnOwn_iff (job : Job ν) (outputs : Outputs ν) :
    DependsOnOwn job outputs ↔ job.stages.length ≤ 1 := by
  constructor
  · intro hown
    by_contra hlen
    obtain ⟨stage, other, rest, hstages⟩ : ∃ stage other rest, job.stages = stage :: other :: rest := by
      match hs : job.stages with
      | [] => exact absurd (by rw [hs]; exact Nat.zero_le 1) hlen
      | [_] => exact absurd (by rw [hs]; exact Nat.le_refl 1) hlen
      | stage :: other :: rest => exact ⟨stage, other, rest, rfl⟩
    have hstage : stage ∈ job.stages := by rw [hstages]; exact List.mem_cons_self
    have hother : other ∈ job.stages := by
      rw [hstages]
      exact List.mem_cons_of_mem _ List.mem_cons_self
    have hne : stage.name ≠ other.name := by
      intro heq
      have hnodup := job.nodup
      rw [hstages, List.map_cons, List.map_cons, heq] at hnodup
      exact (List.nodup_cons.mp hnodup).1 List.mem_cons_self
    -- the other stage comes out larger than all were together
    let outputs' : Outputs ν := fun name workerId =>
      if name = other.name then { outputs name workerId with batchSize := some (total job outputs + 1) }
      else outputs name workerId
    have hsame : outputs' stage.name = outputs stage.name := by
      funext workerId
      exact if_neg hne
    have hlarge : total job outputs + 1 ≤ total job outputs' := by
      refine le_total hother fun workerId => ?_
      simp only [outputs', if_true]
    have hsizes := hown stage hstage outputs' hsame
    rw [recombined_eq hstage, recombined_eq hstage] at hsizes
    have htotal := congrArg Recombined.poolSize (Option.some.inj hsizes)
    dsimp only at htotal
    omega
  · intro hlen stage hstage outputs' hsame
    have hstages : job.stages = [stage] := by
      match hs : job.stages with
      | [] => rw [hs] at hstage; cases hstage
      | [only] => rw [hs] at hstage; rw [List.mem_singleton.mp hstage]
      | _ :: _ :: _ => rw [hs] at hlen; simp at hlen
    rw [recombined_eq hstage, recombined_eq hstage]
    simp only [lastConfig, total, hstages, List.flatMap_singleton, workerResults, hsame]

theorem keepsParameters_iff (job : Job ν) (outputs : Outputs ν) :
    KeepsParameters job outputs ↔ ∀ stage ∈ job.stages,
      (NotOptimized stage outputs Optimized.batchSize →
        stage.config.batchSize / stage.assignedWorkersCount +
          stage.config.batchSize / stage.assignedWorkersCount % stage.assignedWorkersCount =
            stage.config.batchSize) ∧
      (NotOptimized stage outputs Optimized.batchInterval →
        stage.config.batchGradient = stage.config.batchInterval) := by
  refine forall₂_congr fun stage hstage => ?_
  rw [recombined_eq hstage]
  have hlt : stage.assignedWorkersCount - 1 < stage.assignedWorkersCount :=
    Nat.sub_lt stage.workers_pos Nat.one_pos
  constructor
  · intro h
    have hkeeps := h _ rfl
    refine ⟨fun hnot => ?_, fun hnot => ?_⟩
    · have hsize := hkeeps.batchSize hnot
      rwa [lastConfig, optimizeStage, hnot _ hlt] at hsize
    · have hinterval := hkeeps.batchInterval hnot
      rwa [lastConfig, optimizeStage, hnot _ hlt] at hinterval
  · rintro ⟨hsize, hinterval⟩ result hresult
    obtain rfl := Option.some.inj hresult
    refine ⟨fun hnot => ?_, fun hnot => ?_, fun hnot => ?_⟩
    · rw [lastConfig, optimizeStage, hnot _ hlt]
      exact hsize hnot
    · rw [lastConfig, optimizeStage, hnot _ hlt]
      exact hinterval hnot
    · rw [lastConfig, optimizeStage, hnot _ hlt]
      rfl

/-- **The results of the threads are not put together.** -/
theorem not_pathsAgree (job : Job ν) (outputs : Outputs ν) : ¬ PathsAgree job outputs := by
  rintro ⟨configs, hsingle, -⟩
  cases hsingle

/-- **The recombination is never as it should be**: not for the paths, and for the rest of it exactly
when the remainder of the quotient is that of the batch size, when there is no second stage, and when
a batch size that is not optimized is the last worker's and an interval the gradient. -/
theorem recombination_fails (job : Job ν) (outputs : Outputs ν) :
    ¬ Recombines job outputs ∧
      (SplitsExactly job ↔ ∀ stage ∈ job.stages,
        stage.config.batchSize / stage.assignedWorkersCount % stage.assignedWorkersCount =
          stage.config.batchSize % stage.assignedWorkersCount) ∧
      (DependsOnOwn job outputs ↔ job.stages.length ≤ 1) ∧
      (KeepsParameters job outputs ↔ ∀ stage ∈ job.stages,
        (NotOptimized stage outputs Optimized.batchSize →
          stage.config.batchSize / stage.assignedWorkersCount +
            stage.config.batchSize / stage.assignedWorkersCount % stage.assignedWorkersCount =
              stage.config.batchSize) ∧
        (NotOptimized stage outputs Optimized.batchInterval →
          stage.config.batchGradient = stage.config.batchInterval)) :=
  ⟨fun h => not_pathsAgree job outputs h.agree, splitsExactly_iff job, dependsOnOwn_iff job outputs,
    keepsParameters_iff job outputs⟩

/-- Ten virtual users over three workers, of which one gets lost. -/
theorem not_recombines :
    ¬ Recombines (ν := ℕ) ⟨[⟨"stage", ⟨10, 0, 1, none⟩, 3, by decide⟩], 3, by decide⟩
      (fun _ _ => ⟨none, none, none, none⟩) := by
  intro h
  have hsum := h.splits _ List.mem_cons_self
  exact absurd hsum (by decide)

end Optimization
end Graphs
end Hedra
