/-
# Batches of transitions by priority

`partion_prioritized_stage_batches` (`core/graphs/stages/base/parallel/batch_executor.py`) puts the
transitions that are skipped, or whose stages are serial, into a batch of their own, and packs the
others greedily: the first that is not in a batch gets the most that its priority allows, and the
others share what is left.

Three things go wrong here.  Whether another transition is in a batch already is not looked at; one that
lacks a single worker of its least share is packed all the same; and transitions with no range at all,
those of the first batch among them, are asked for theirs.  Besides, with one parallel stage only the
last transition is kept, and where all priorities are `AUTO` the workers are not added up.

This file has the function; what it computes is in `PriorityPacking.lean`.
-/
import Hedra.Lib.Dict
import Hedra.Lib.Packing
import Mathlib.Data.List.Dedup
import Mathlib.Data.List.Sort
import Mathlib.Data.PNat.Basic

namespace Hedra
namespace Graphs
namespace PriorityBatches

open Lib

/-! ## 1. Transitions -/

inductive StagePriority
  | low
  | normal
  | high
  | exclusive
  | auto
deriving DecidableEq

namespace StagePriority

def value : StagePriority → ℕ
  | low => 1
  | normal => 2
  | high => 3
  | exclusive => 4
  | auto => 5

/-- `get_worker_allocation_range`; the quarters are rounded up. -/
def getWorkerAllocationRange (priorityType : StagePriority) (poolSize : ℕ) : ℕ × ℕ :=
  match priorityType with
  | low => (1, (poolSize + 3) / 4)
  | normal => ((poolSize + 3) / 4, (poolSize * 3 + 3) / 4)
  | high => ((poolSize * 3 + 3) / 4, poolSize)
  | exclusive => (poolSize, poolSize)
  | auto => (1, poolSize)

end StagePriority

structure Stage where
  name : String
  priority : Option String
  priorityLevel : StagePriority
  allowParallel : Bool
  workers : ℕ
deriving DecidableEq

/-- A transition, as its edge has it. -/
structure Transition where
  source : Stage
  destination : String
  skipStage : Bool
deriving DecidableEq

/-- The transitions of a group, by edge.  The stages have names of their own. -/
structure Transitions where
  list : List Transition
  nodup : (list.map fun t => (t.source.name, t.destination)).Nodup
  sources : ∀ t ∈ list, ∀ u ∈ list, t.source.name = u.source.name → t.source = u.source

/-- What is said of a transition in a batch. -/
structure Entry where
  source : String
  destination : String
  priority : Option String
  workers : ℕ
deriving DecidableEq

inductive Error
  | typeError
  | indexError

namespace Transition

def entry (t : Transition) (workers : ℕ) : Entry :=
  ⟨t.source.name, t.destination, t.source.priority, workers⟩

/-- It is neither skipped nor serial. -/
def isPacked (t : Transition) : Bool := !t.skipStage && t.source.allowParallel

def range (maximum : ℕ) (t : Transition) : ℕ × ℕ :=
  t.source.priorityLevel.getWorkerAllocationRange maximum

end Transition

/-! ## 2. Packing -/

/-- `min_workers_counts` and `max_workers_counts`, which have the same keys. -/
def workersCounts (maximum : ℕ) (sorted : List Transition) : Dict String (ℕ × ℕ) :=
  sorted.foldl (fun d t => if t.isPacked then d.set t.source.name (t.range maximum) else d) .empty

/-- The `while` loop: one worker less while they are too many, and at least the minimum. -/
def shrink (maximum allocated minWorkers : ℕ) : ℕ → ℕ
  | 0 => 0
  | w + 1 =>
    if maximum < allocated + (w + 1) ∧ minWorkers ≤ w + 1 then shrink maximum allocated minWorkers w
    else w + 1

/-- A batch in the making, and the transitions that have been seen. -/
structure Group where
  allocated : ℕ
  entries : List Entry
  seen : List Transition

/-- What is done about another transition. -/
def packOther (maximum : ℕ) (counts : Dict String (ℕ × ℕ)) (t : Transition) (g : Group)
    (other : Transition) : Except Error Group :=
  if other ≠ t ∧ t ∉ g.seen then
    match counts.get? other.source.name with
    -- `None` is added to a number
    | none => .error .typeError
    | some (minWorkers, maxWorkers) =>
      let workers := shrink maximum g.allocated minWorkers maxWorkers
      if g.allocated + workers ≤ maximum ∧ 0 < workers then
        .ok ⟨g.allocated + workers, g.entries ++ [other.entry workers], g.seen ++ [other]⟩
      else .ok g
  else .ok g

/-- The batch of a transition that has not been seen. -/
def packGroup (maximum : ℕ) (counts : Dict String (ℕ × ℕ)) (sorted : List Transition) (t : Transition)
    (seen : List Transition) : Except Error Group :=
  match counts.get? t.source.name with
  | none => .error .typeError
  | some (_, maxWorkers) =>
    sorted.foldlM (packOther maximum counts t) ⟨maxWorkers, [t.entry maxWorkers], seen⟩

/-- The batches so far, and what has been seen. -/
def packNext (maximum : ℕ) (counts : Dict String (ℕ × ℕ)) (sorted : List Transition)
    (b : List (List Entry) × List Transition) (t : Transition) :
    Except Error (List (List Entry) × List Transition) :=
  if t ∈ b.2 then .ok b
  else do
    let g ← packGroup maximum counts sorted t b.2
    return (b.1 ++ [g.entries], g.seen ++ [t])

namespace Transitions

variable (ts : Transitions)

def sorted : List Transition :=
  ts.list.insertionSort fun t u => t.source.priorityLevel.value ≤ u.source.priorityLevel.value

/-- `stages` -/
def stages : List Stage := (ts.sorted.map Transition.source).dedup

def parallelStagesCount : ℕ := (ts.stages.filter fun stage => stage.allowParallel).length

def autoStagesCount : ℕ := (ts.stages.filter fun stage => stage.priorityLevel = .auto).length

/-- `partion_prioritized_stage_batches` -/
def partionPrioritizedStageBatches (maximum : ℕ) : Except Error (List (List Entry)) :=
  let bypass := ts.sorted.filter fun t => t.skipStage || !t.source.allowParallel
  let kept := ts.sorted.filter fun t => !t.skipStage
  if ts.parallelStagesCount = 1 then
    match kept.getLast? with
    | none => .error .indexError
    | some t => .ok [[t.entry t.source.workers]]
  else if ts.autoStagesCount = ts.stages.length ∧ 0 < ts.parallelStagesCount then
    .ok [kept.map fun t => t.entry t.source.workers]
  else do
    let counts := workersCounts maximum ts.sorted
    let b ← ts.sorted.foldlM (packNext maximum counts ts.sorted) ([bypass.map fun t => t.entry 0], bypass)
    return b.1

end Transitions

/-! ## 3. Placing -/

/-- The transitions are placed as they should be.  What is packed by priority comes behind the first
batch. -/
structure Places (maximum : ℕ) (ts : Transitions) (batches : List (List Entry)) : Prop where
  once : ∀ t ∈ ts.list, t.skipStage = false →
    (batches.flatten.map fun e => (e.source, e.destination)).count (t.source.name, t.destination) = 1
  inRange : ∀ t ∈ ts.list, ∀ batch ∈ batches.tail, ∀ w, t.entry w ∈ batch →
    (t.range maximum).1 ≤ w ∧ w ≤ (t.range maximum).2
  total : ∀ batch ∈ batches, (batch.map Entry.workers).sum ≤ maximum

/-- They get their batches, and are placed. -/
def Placed (maximum : ℕ) (ts : Transitions) : Prop :=
  ∃ batches, ts.partionPrioritizedStageBatches maximum = .ok batches ∧ Places maximum ts batches

/-- What one transition and those in front of another leave of the pool at most. -/
def remaining (maximum : ℕ) (ts : Transitions) (t o : Transition) : ℕ :=
  maximum - (t.range maximum).2 -
    (((ts.sorted.takeWhile (· ≠ o)).filter (· ≠ t)).map fun u => (u.range maximum).2).sum

/-- The transitions can be packed, where `first` is the first that is. -/
structure FitsTogether (maximum : ℕ) (ts : Transitions) (first : Transition) : Prop where
  keyed : ∀ t ∈ ts.list, ∃ u ∈ ts.list, u.isPacked ∧ u.source = t.source
  noneLacking : ∀ o ∈ ts.list, o ≠ first → 0 < remaining maximum ts first o →
    remaining maximum ts first o + 1 ≠ (o.range maximum).1
  noneTwice : ∀ t ∈ ts.list, t.isPacked → t ≠ first →
    (t.range maximum).1 ≤ remaining maximum ts first t ∨ remaining maximum ts t first = 0

/-- When the transitions are placed. -/
def Fits (maximum : ℕ) (ts : Transitions) : Prop :=
  let kept := ts.sorted.filter fun t => !t.skipStage
  if ts.parallelStagesCount = 1 then ∃ t, kept = [t] ∧ t.source.workers ≤ maximum
  else if ts.autoStagesCount = ts.stages.length ∧ 0 < ts.parallelStagesCount then
    (kept.map fun t => t.source.workers).sum ≤ maximum
  else ∀ first, (ts.sorted.filter Transition.isPacked).head? = some first → FitsTogether maximum ts first

end PriorityBatches
end Graphs
end Hedra
