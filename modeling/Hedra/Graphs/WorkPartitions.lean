/-
# The work of a stage, divided over its workers

Each worker of an Execute stage computes (`core/graphs/stages/execute/parallel/execute_actions.py`)
its own part of the batch size and of the load distribution from the number of workers and its own
number: the quotient, and for the last worker the remainder besides.  Nothing is lost in that, but
where there are more workers than the stage has virtual users all but the last one have a batch size
of zero.  A configuration that is optimized already is left as it is.  An Analyze stage divides the
list of results in the same way.

Quotients are exact here.  The source divides floats and cuts the fraction off, which is the same
below `2 ^ 53`.

* `batchSizes_eq`: the batch sizes of a configuration that is divided;
* `flatten_stageBatches`: the batches of an Analyze stage are its results, cut;
* `exact_partition_iff`: when all parts are exact, and none is empty.
-/
import Hedra.Lib.Shares

namespace Hedra
namespace Graphs
namespace WorkPartitions

open Lib Lib.Shares

/-! ## 1. The workers of an Execute stage -/

inductive PartitionMethod
  | jobPerCore
  | batches
deriving DecidableEq

/-- What the workers read and change of a configuration.  The distribution is that of the experiment,
where the stage is a variant of one. -/
structure Config where
  batchSize : ℕ
  distribution : Option (List ℕ)
  optimized : Bool

/-- The configuration of one worker of `execute_actions`; they are numbered from 1 on.  The quotient
is one of floats, and exact for every number of virtual users that there can be. -/
def executeConfig (partitionMethod : PartitionMethod) (config : Config) (workers workerId : ℕ) :
    Config :=
  if partitionMethod = .batches ∧ config.optimized = false then
    if workers = workerId then
      { config with
        batchSize := config.batchSize / workers + config.batchSize % workers
        distribution := config.distribution.map fun distribution =>
          distribution.map fun value => value / workers + value % workers }
    else
      { config with
        batchSize := config.batchSize / workers
        distribution := config.distribution.map fun distribution =>
          distribution.map fun value => value / workers }
  else config

/-- The configurations of all workers. -/
def executeConfigs (config : Config) (workers : ℕ) : List Config :=
  (List.range workers).map fun idx => executeConfig .batches config workers (idx + 1)

/-- What the workers have of interval `interval`. -/
def intervals (configs : List Config) (interval : ℕ) : List ℕ :=
  configs.map fun config => (config.distribution.getD []).getD interval 0

/-! ## 2. The batches of an Analyze stage -/

/-- The `stage_batches` of `create_stage_batches`. -/
def stageBatches {α : Type} (results : List α) (assignedWorkersCount : ℕ) : List (List α) :=
  let batchSize := results.length / assignedWorkersCount
  let batches := pieces batchSize results assignedWorkersCount
  if 0 < results.length % assignedWorkersCount then
    batches.modify (assignedWorkersCount - 1) (· ++ results.drop (assignedWorkersCount * batchSize))
  else batches

variable {α : Type}

theorem stageBatches_succ (results : List α) (n : ℕ) :
    ∃ init last, stageBatches results (n + 1) = init ++ [last] ∧
      (init ++ [last]).flatten = results := by
  have hall := flatten_pieces (results.length / (n + 1)) results (n + 1)
  have hdiv := Nat.div_add_mod results.length (n + 1)
  rw [stageBatches]
  rw [pieces_succ] at hall ⊢
  have hlen : (pieces (results.length / (n + 1)) results n).length = n := by
    rw [pieces, List.length_map, List.length_range]
  split
  · -- the last batch gets what is left over
    rw [Nat.add_sub_cancel, List.modify_eq_take_drop, List.take_left' hlen, List.drop_left' hlen]
    refine ⟨_, _, rfl, ?_⟩
    rw [List.flatten_append, List.flatten_singleton] at hall ⊢
    rw [← List.append_assoc, hall, List.take_append_drop]
  · refine ⟨_, _, rfl, ?_⟩
    rw [hall, List.take_of_length_le]
    omega

/-- **The batches are the results, cut.** -/
theorem flatten_stageBatches (results : List α) {workers : ℕ} (h : 0 < workers) :
    (stageBatches results workers).flatten = results := by
  obtain ⟨n, rfl⟩ := Nat.exists_eq_succ_of_ne_zero (Nat.pos_iff_ne_zero.mp h)
  obtain ⟨init, last, hbatches, hall⟩ := stageBatches_succ results n
  rw [hbatches, hall]

/-! ## 3. What the workers have -/

variable {config : Config} {workers : ℕ}

/-- **The batch sizes of a configuration that is divided.** -/
theorem batchSizes_eq (h : config.optimized = false) :
    (executeConfigs config workers).map Config.batchSize =
      shares workers (config.batchSize / workers) (config.batchSize % workers) := by
  rw [executeConfigs, List.map_map, shares]
  refine List.map_congr_left fun idx _ => ?_
  rw [Function.comp_apply, executeConfig, if_pos ⟨rfl, h⟩, share]
  by_cases hidx : workers = idx + 1
  · rw [if_pos hidx, if_pos hidx.symm]
  · rw [if_neg hidx, if_neg (Ne.symm hidx)]

theorem intervals_eq (h : config.optimized = false) {distribution : List ℕ}
    (hd : config.distribution = some distribution) {interval : ℕ}
    (hi : interval < distribution.length) :
    intervals (executeConfigs config workers) interval =
      shares workers (distribution[interval] / workers) (distribution[interval] % workers) := by
  rw [intervals, executeConfigs, List.map_map, shares]
  refine List.map_congr_left fun idx _ => ?_
  rw [Function.comp_apply, executeConfig, if_pos ⟨rfl, h⟩, share]
  by_cases hidx : workers = idx + 1
  · rw [if_pos hidx, if_pos hidx.symm, hd]
    simp [hi]
  · rw [if_neg hidx, if_neg (Ne.symm hidx), hd]
    simp [hi]

/-- An optimized configuration is every worker's. -/
theorem executeConfigs_optimized (h : config.optimized = true) (workers : ℕ) :
    executeConfigs config workers = List.replicate workers config := by
  rw [executeConfigs, List.eq_replicate_iff]
  refine ⟨by rw [List.length_map, List.length_range], fun c hc => ?_⟩
  obtain ⟨idx, -, rfl⟩ := List.mem_map.mp hc
  rw [executeConfig, if_neg]
  rintro ⟨-, hopt⟩
  rw [h] at hopt
  cases hopt

/-! ## 4. The whole -/

/-- A stage with something to do. -/
structure Work (α : Type) where
  config : Config
  workers : ℕ
  results : List α
  workers_pos : 0 < workers
  batchSize_pos : 0 < config.batchSize

/-- The parts are the whole, and nobody is without work. -/
structure Exact (work : Work α) : Prop where
  batchSizes : ((executeConfigs work.config work.workers).map Config.batchSize).sum =
    work.config.batchSize
  intervals : ∀ distribution, work.config.distribution = some distribution →
    ∀ interval (h : interval < distribution.length),
      (intervals (executeConfigs work.config work.workers) interval).sum = distribution[interval]
  usable : ∀ config ∈ executeConfigs work.config work.workers, 0 < config.batchSize
  results : (stageBatches work.results work.workers).flatten = work.results

theorem exact_divided_iff (work : Work α) (h : work.config.optimized = false) :
    Exact work ↔ work.workers ≤ work.config.batchSize := by
  have hpos := work.workers_pos
  have hbatch : (executeConfigs work.config work.workers).map Config.batchSize =
      shares work.workers (work.config.batchSize / work.workers)
        (work.config.batchSize % work.workers) := batchSizes_eq h
  constructor
  · intro hexact
    by_contra hlt
    -- one worker is never more than the virtual users, and so the first one is not the last
    have hone := work.batchSize_pos
    have hzero : work.config.batchSize / work.workers = 0 := Nat.div_eq_of_lt (Nat.not_le.mp hlt)
    have hfirst : executeConfig .batches work.config work.workers 1 ∈
        executeConfigs work.config work.workers :=
      List.mem_map.mpr ⟨0, List.mem_range.mpr hpos, rfl⟩
    have huse := hexact.usable _ hfirst
    rw [executeConfig, if_pos ⟨rfl, h⟩, if_neg (by omega)] at huse
    exact absurd huse (by rw [hzero]; exact Nat.lt_irrefl 0)
  · intro hle
    have heach : 0 < work.config.batchSize / work.workers := Nat.div_pos hle hpos
    refine ⟨?_, fun distribution hd interval hi => ?_, fun config hconfig => ?_,
      flatten_stageBatches work.results hpos⟩
    · rw [hbatch, sum_shares_div_mod hpos]
    · rw [intervals_eq h hd hi, sum_shares_div_mod hpos]
    · have hmem : config.batchSize ∈
          shares work.workers (work.config.batchSize / work.workers)
            (work.config.batchSize % work.workers) :=
        hbatch ▸ List.mem_map_of_mem hconfig
      obtain ⟨idx, -, hidx⟩ := List.mem_map.mp hmem
      rw [← hidx]
      exact Nat.lt_of_lt_of_le heach (le_share _ _ _ idx)

theorem exact_optimized_iff (work : Work α) (h : work.config.optimized = true) :
    Exact work ↔ work.workers = 1 := by
  have hone := work.batchSize_pos
  have hall := executeConfigs_optimized h work.workers
  constructor
  · intro hexact
    have hsum := hexact.batchSizes
    rw [hall, List.map_replicate, List.sum_replicate_nat] at hsum
    exact Nat.eq_of_mul_eq_mul_right hone (hsum.trans (Nat.one_mul _).symm)
  · intro hworkers
    rw [hworkers] at hall
    refine ⟨?_, fun distribution hd interval hi => ?_, fun config hconfig => ?_,
      flatten_stageBatches work.results work.workers_pos⟩
    · rw [hworkers, hall]
      exact List.sum_singleton
    · rw [hworkers, hall, intervals, List.replicate_one, List.map_singleton, hd, List.sum_singleton]
      simp [hi]
    · rw [hworkers, hall] at hconfig
      rw [List.eq_of_mem_replicate hconfig]
      exact hone

/-- **The parts are exact and usable** when there are no more workers than virtual users, and for an
optimized configuration, which nobody divides, when there is one worker. -/
theorem exact_partition_iff (work : Work α) :
    Exact work ↔
      if work.config.optimized then work.workers = 1
      else work.workers ≤ work.config.batchSize := by
  cases h : work.config.optimized with
  | false => exact exact_divided_iff work h
  | true => exact exact_optimized_iff work h

/-- One virtual user and two workers: the first of them has none. -/
theorem not_exact_partition :
    ¬ Exact (α := ℕ) ⟨⟨1, none, false⟩, 2, [], by decide, by decide⟩ := by
  intro hexact
  exact absurd (hexact.usable _ List.mem_cons_self) (by decide)

end WorkPartitions
end Graphs
end Hedra
