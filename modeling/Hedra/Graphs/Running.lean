/-
# Running a graph

`Graph.run` (`core/graphs/graph.py`) goes through the transition groups of an assembled graph.  A group is
partitioned into batches, which are executed (`core/graphs/transitions/transition_group.py`); then the
exceptions of its edges are looked at.  A killed process ends the run at once; after any other exception
the group is the last one.

A stage is run by the first of its edges.  Its other edges are copies: what is said here of how often a
stage runs is about the edges that are none.  What an execution does to the stages is left open: an edge
has an exception, or it has none, depending on all that was executed before its group.  The order of the
batches of a group does not matter here, and is left out.

* `count_of_executeGroup`: where a group fits (`PriorityBatches.Fits`), each of its edges is executed once;
* `ran_of_run`: the groups are executed one after the other, up to the first with an exception;
* `complete_run`, `stopped_run`: what was run, by then, of the stages of the module.
-/
import Hedra.Graphs.Assembly
import Hedra.Graphs.DeliveryRuns
import Hedra.Graphs.PriorityPacking
import Mathlib.Data.List.Flatten

namespace Hedra
namespace Graphs
namespace Running

open Lib
open Graphs.Delivery (Names groupEdges skipStage mem_groupEdges)

inductive Exception
  | processKilled
  | other
deriving DecidableEq

/-- `GraphStatus`, from `run` on -/
inductive Status
  | running
  | complete
  | cancelled
  | failed
deriving DecidableEq

/-- What the stages of a graph are like. -/
structure Setting where
  stage : String → PriorityBatches.Stage
  name : ∀ v, (stage v).name = v
  skip : String → Bool
  cpus : ℕ+

section Group

variable (G : StageGraph) (S : Setting) (generation : List String)

/-- A transition of the group, as the partition reads it. -/
def transitionOf (e : Names) : PriorityBatches.Transition :=
  ⟨S.stage e.1, e.2, skipStage G S.skip generation e⟩

theorem nodup_transitionsOf : (((groupEdges G generation).dedup.map (transitionOf G S generation)).map
    fun t => (t.source.name, t.destination)).Nodup := by
  rw [List.map_map]
  have hid : ((fun t : PriorityBatches.Transition => (t.source.name, t.destination)) ∘
      transitionOf G S generation) = id := by
    funext e
    exact Prod.ext (S.name e.1) rfl
  rw [hid, List.map_id]
  exact List.nodup_dedup _

theorem sources_transitionsOf : ∀ t ∈ (groupEdges G generation).dedup.map (transitionOf G S generation),
    ∀ u ∈ (groupEdges G generation).dedup.map (transitionOf G S generation),
      t.source.name = u.source.name → t.source = u.source := by
  intro t ht u hu hname
  obtain ⟨e, -, rfl⟩ := List.mem_map.mp ht
  obtain ⟨e', -, rfl⟩ := List.mem_map.mp hu
  have heq : e.1 = e'.1 := by rw [← S.name e.1, ← S.name e'.1]; exact hname
  exact congrArg S.stage heq

/-- `transitions_by_edge` -/
def transitionsOf : PriorityBatches.Transitions where
  list := (groupEdges G generation).dedup.map (transitionOf G S generation)
  nodup := nodup_transitionsOf G S generation
  sources := sources_transitionsOf G S generation

/-- `sort_and_map_transitions` and `execute_group`: the edges that are executed. -/
def executeGroup : Except PriorityBatches.Error (List Names) := do
  let batches ← (transitionsOf G S generation).partionPrioritizedStageBatches S.cpus
  return batches.flatten.map fun e => (e.source, e.destination)

end Group

/-- The loop over the transitions of a group that have been executed. -/
def inspect (exception : Names → Option Exception) : Status → List Names → Status
  | status, [] => status
  | status, e :: es =>
    match exception e with
    | some .processKilled => .cancelled
    | some .other => inspect exception .failed es
    | none => inspect exception status es

/-- How a run ended, and what was executed of each group. -/
structure Report where
  status : Status
  executed : List (List Names)

section Run

variable (G : StageGraph) (S : Setting) (exception : List (List Names) → Names → Option Exception)

/-- The exception of an edge is that of its execution. -/
def exceptionOf (done : List (List Names)) (executed : List Names) (e : Names) : Option Exception :=
  if e ∈ executed then exception done e else none

/-- `run`, over the groups that are left -/
def run (done : List (List Names)) : List (List String) → Except PriorityBatches.Error Report
  | [] => .ok ⟨.complete, done⟩
  | generation :: rest =>
    match executeGroup G S generation with
    | .error e => .error e
    | .ok executed =>
      match inspect (exceptionOf exception done executed) .running (groupEdges G generation) with
      | .running => run (done ++ [executed]) rest
      | status => .ok ⟨status, done ++ [executed]⟩

end Run

/-! ## 1. What a group executes -/

section Partition

open PriorityBatches

variable {maximum : ℕ} {ts : Transitions} {counts : Dict String (ℕ × ℕ)} {sorted : List Transition}
  {t : Transition}

/-- The entries are of these transitions. -/
def Of (l : List Transition) (entries : List Entry) : Prop := ∀ e ∈ entries, ∃ t ∈ l, ∃ w, e = t.entry w

theorem Of.append {l : List Transition} {entries entries' : List Entry} (h : Of l entries)
    (h' : Of l entries') : Of l (entries ++ entries') := by
  intro e he
  rcases List.mem_append.mp he with he | he
  · exact h e he
  · exact h' e he

theorem Of.map {l l' : List Transition} (workers : Transition → ℕ) (h : ∀ t ∈ l', t ∈ l) :
    Of l (l'.map fun t => t.entry (workers t)) := by
  intro e he
  obtain ⟨t, ht, rfl⟩ := List.mem_map.mp he
  exact ⟨t, h t ht, _, rfl⟩

/-- What holds of a state, and is kept by each step, holds in the end. -/
theorem foldlM_ok {α β ε : Type} {f : β → α → Except ε β} {P : β → Prop} {l : List α} {b b' : β}
    (h : l.foldlM f b = .ok b') (hb : P b) (hstep : ∀ b, ∀ a ∈ l, ∀ b', P b → f b a = .ok b' → P b') :
    P b' := by
  induction l generalizing b with
  | nil =>
    cases h
    exact hb
  | cons a l ih =>
    rw [List.foldlM_cons] at h
    obtain ⟨b₁, hb₁, hrest⟩ := Outcomes.bind_ok_iff.mp h
    exact ih hrest (hstep b a List.mem_cons_self b₁ hb hb₁)
      fun b a' ha' => hstep b a' (List.mem_cons_of_mem a ha')

theorem of_packOther {g g' : Group} {other : Transition} (hg : Of sorted g.entries)
    (hother : other ∈ sorted) (h : packOther maximum counts t g other = .ok g') : Of sorted g'.entries := by
  unfold packOther at h
  split at h
  case isFalse =>
    cases h
    exact hg
  case isTrue =>
    split at h
    case h_1 => cases h
    case h_2 =>
      dsimp only at h
      split at h
      case isTrue =>
        cases h
        exact hg.append fun e he => ⟨other, hother, _, List.mem_singleton.mp he⟩
      case isFalse =>
        cases h
        exact hg

theorem of_packGroup {seen : List Transition} {g : Group} (ht : t ∈ sorted)
    (h : packGroup maximum counts sorted t seen = .ok g) : Of sorted g.entries := by
  unfold packGroup at h
  split at h
  case h_1 => cases h
  case h_2 =>
    refine foldlM_ok (P := fun g => Of sorted g.entries) h ?_ ?_
    · exact fun e he => ⟨t, ht, _, List.mem_singleton.mp he⟩
    · exact fun g other hother g' hg hstep => of_packOther hg hother hstep

theorem of_packNext {b b' : List (List Entry) × List Transition} (ht : t ∈ sorted)
    (hb : Of sorted b.1.flatten) (h : packNext maximum counts sorted b t = .ok b') :
    Of sorted b'.1.flatten := by
  unfold packNext at h
  split at h
  case isTrue =>
    cases h
    exact hb
  case isFalse =>
    obtain ⟨g, hg, heq⟩ := Outcomes.bind_ok_iff.mp h
    cases heq
    rw [List.flatten_append, List.flatten_singleton]
    exact hb.append (of_packGroup ht hg)

/-- The batches are of the transitions of the group. -/
theorem of_partion {batches : List (List Entry)} (h : ts.partionPrioritizedStageBatches maximum = .ok batches) :
    Of ts.list batches.flatten := by
  have hsorted : ∀ {entries}, Of ts.sorted entries → Of ts.list entries := by
    intro entries hof e he
    obtain ⟨t, ht, w, hw⟩ := hof e he
    exact ⟨t, (List.mem_insertionSort _).mp ht, w, hw⟩
  refine hsorted ?_
  unfold Transitions.partionPrioritizedStageBatches at h
  dsimp only at h
  split at h
  case isTrue =>
    split at h
    case h_1 => cases h
    case h_2 last hlast =>
      cases h
      intro e he
      exact ⟨last, (List.mem_filter.mp (List.mem_of_getLast? hlast)).1, _, by simpa using he⟩
  case isFalse =>
    split at h
    case isTrue =>
      cases h
      rw [List.flatten_singleton]
      exact Of.map _ fun t ht => (List.mem_filter.mp ht).1
    case isFalse =>
      obtain ⟨b, hb, heq⟩ := Outcomes.bind_ok_iff.mp h
      cases heq
      refine foldlM_ok (P := fun b => Of ts.sorted b.1.flatten) hb ?_ ?_
      · rw [List.flatten_singleton]
        exact Of.map _ fun t ht => (List.mem_filter.mp ht).1
      · exact fun b t ht b' hb hstep => of_packNext ht hb hstep

end Partition

section Executed

variable {G : StageGraph} {S : Setting} {generation : List String} {executed : List Names} {e : Names}

theorem mem_transitionsOf {t : PriorityBatches.Transition} :
    t ∈ (transitionsOf G S generation).list ↔ ∃ e ∈ groupEdges G generation, transitionOf G S generation e = t := by
  change t ∈ (groupEdges G generation).dedup.map (transitionOf G S generation) ↔ _
  rw [List.mem_map]
  simp only [List.mem_dedup]

/-- Only edges of the group are executed. -/
theorem mem_of_executeGroup (h : executeGroup G S generation = .ok executed) (he : e ∈ executed) :
    e ∈ groupEdges G generation := by
  obtain ⟨batches, hbatches, heq⟩ := Outcomes.bind_ok_iff.mp h
  cases heq
  obtain ⟨entry, hentry, rfl⟩ := List.mem_map.mp he
  obtain ⟨t, ht, w, rfl⟩ := of_partion hbatches entry hentry
  obtain ⟨e, hmem, rfl⟩ := mem_transitionsOf.mp ht
  have hname : ((transitionOf G S generation e).entry w).source = e.1 := S.name e.1
  rw [hname]
  exact hmem

/-- Where the group fits, the edges that are no copies are executed once. -/
theorem count_of_executeGroup (hfits : PriorityBatches.Fits S.cpus (transitionsOf G S generation))
    (h : executeGroup G S generation = .ok executed) (he : e ∈ groupEdges G generation)
    (hown : skipStage G S.skip generation e = false) : executed.count e = 1 := by
  obtain ⟨batches, hbatches, heq⟩ := Outcomes.bind_ok_iff.mp h
  cases heq
  obtain ⟨batches', hbatches', hplaces⟩ := (PriorityBatches.placed_iff_fits _ _).mpr hfits
  cases hbatches.symm.trans hbatches'
  have hcount := hplaces.once _ (mem_transitionsOf.mpr ⟨e, he, rfl⟩) hown
  have hname : (transitionOf G S generation e).source.name = e.1 := S.name e.1
  rwa [hname] at hcount

/-- One of the edges of a stage runs it, and the others are copies. -/
theorem exists_own {v : String} (hv : v ∈ generation) (hsucc : G.graph.succ v ≠ [])
    (hsplits : Delivery.splits (G.stageType v) = true) (hskip : S.skip v = false) :
    ∃ d ∈ G.graph.succ v, skipStage G S.skip generation (v, d) = false ∧
      ∀ d' ∈ G.graph.succ v, skipStage G S.skip generation (v, d') = false → d' = d := by
  set idx := Delivery.transitionIdx G generation with hidx
  obtain ⟨i, hi⟩ : ∃ i, (((G.graph.succ v).map fun d => (v, d)).map idx).min? = some i := by
    refine Option.isSome_iff_exists.mp ?_
    rw [List.isSome_min?_iff]
    simpa using hsucc
  obtain ⟨e, he, heq⟩ := List.mem_map.mp (List.min?_mem hi)
  obtain ⟨d, hd, rfl⟩ := List.mem_map.mp he
  have hmem : ∀ d' ∈ G.graph.succ v, (v, d') ∈ groupEdges G generation := fun d' hd' =>
    (mem_groupEdges G generation).mpr ⟨hv, hd'⟩
  have hskipStage : ∀ x, skipStage G S.skip generation (v, x) =
      (1 < (G.graph.succ v).length && decide (i < idx (v, x))) := by
    intro x
    unfold skipStage
    dsimp only
    rw [← hidx, hi, hskip, hsplits, Bool.false_or, Bool.and_true, List.length_map]
    rfl
  refine ⟨d, hd, by rw [hskipStage, heq]; simp, fun d' hd' hown => ?_⟩
  by_contra hne
  -- the other edge comes later in the group
  have hle : i ≤ idx (v, d') :=
    (List.min?_eq_some_iff.mp hi).2 _ (List.mem_map_of_mem (List.mem_map_of_mem hd'))
  have hdiff : idx (v, d') ≠ idx (v, d) := fun hsame =>
    hne (Prod.mk.inj ((List.idxOf_inj (hmem d' hd')).mp hsame)).2
  have hlt : i < idx (v, d') := by omega
  have hlen : 1 < (G.graph.succ v).length := by
    by_contra hlen
    have hpos := List.length_pos_of_mem hd
    obtain ⟨x, hx⟩ := List.length_eq_one_iff.mp (by omega : (G.graph.succ v).length = 1)
    rw [hx, List.mem_singleton] at hd hd'
    exact hne (hd'.trans hd.symm)
  rw [hskipStage] at hown
  simp [hlen, hlt] at hown

end Executed

/-! ## 2. The groups that are executed -/

section Groups

variable {exception : Names → Option Exception} {status : Status} {es : List Names}

theorem failed_ne_cancelled : Status.failed ≠ .cancelled := fun h => by cases h

theorem inspect_ne (h : status ≠ .running) : inspect exception status es ≠ .running := by
  induction es generalizing status with
  | nil => exact h
  | cons e es ih =>
    unfold inspect
    split
    case h_1 => exact fun hcancelled => by cases hcancelled
    case h_2 => exact ih fun hfailed => by cases hfailed
    case h_3 => exact ih h

/-- The run goes on where no edge has an exception. -/
theorem inspect_eq_running_iff :
    inspect exception .running es = .running ↔ ∀ e ∈ es, exception e = none := by
  induction es with
  | nil => exact iff_of_true rfl (List.forall_mem_nil _)
  | cons e es ih =>
    rw [List.forall_mem_cons, ← ih]
    cases h : exception e with
    | none => simp [inspect, h]
    | some x =>
      cases x with
      | processKilled => simp [inspect, h]
      | other => simp [inspect, h, inspect_ne]

theorem inspect_eq_cancelled_iff (h : status ≠ .cancelled) :
    inspect exception status es = .cancelled ↔ ∃ e ∈ es, exception e = some .processKilled := by
  induction es generalizing status with
  | nil => simp [inspect, h]
  | cons e es ih =>
    cases hexception : exception e with
    | none => simp [inspect, hexception, ih h]
    | some x =>
      cases x with
      | processKilled => simp [inspect, hexception]
      | other => simp [inspect, hexception, ih failed_ne_cancelled]

theorem inspect_ne_complete (h : status ≠ .complete) : inspect exception status es ≠ .complete := by
  induction es generalizing status with
  | nil => exact h
  | cons e es ih =>
    unfold inspect
    split
    case h_1 => exact fun hcancelled => by cases hcancelled
    case h_2 => exact ih fun hfailed => by cases hfailed
    case h_3 => exact ih h

end Groups

section Runs

variable {G : StageGraph} {S : Setting} {exception : List (List Names) → Names → Option Exception}
  {groups : List (List String)} {report : Report}

/-- Nothing that was executed had an exception. -/
def Clean (exception : List (List Names) → Names → Option Exception) (done : List (List Names)) : Prop :=
  ∀ earlier executed later, done = earlier ++ executed :: later → ∀ e ∈ executed, exception earlier e = none

theorem clean_nil : Clean exception [] := by
  intro earlier executed later heq
  cases earlier <;> cases heq

theorem Clean.concat {done : List (List Names)} {executed : List Names} (h : Clean exception done)
    (hexecuted : ∀ e ∈ executed, exception done e = none) : Clean exception (done ++ [executed]) := by
  intro earlier ex later heq
  rcases List.eq_nil_or_concat later with rfl | ⟨later, last, rfl⟩
  · obtain ⟨rfl, hlast⟩ := List.append_inj' heq rfl
    cases hlast
    exact hexecuted
  · rw [List.concat_eq_append, ← List.cons_append, ← List.append_assoc] at heq
    exact h earlier ex later (List.append_inj' heq rfl).1

/-- What was executed of the first groups, and how the run ended. -/
structure Ran (G : StageGraph) (S : Setting) (exception : List (List Names) → Names → Option Exception)
    (groups : List (List String)) (report : Report) : Prop where
  executed : ∃ ran left, groups = ran ++ left ∧
    List.Forall₂ (fun generation executed => executeGroup G S generation = .ok executed) ran report.executed ∧
    (report.status = .complete → left = [])
  complete : report.status = .complete → Clean exception report.executed
  stopped : report.status ≠ .complete → ∃ earlier last, report.executed = earlier ++ [last] ∧
    Clean exception earlier ∧ (∃ e ∈ last, (exception earlier e).isSome) ∧
    (report.status = .cancelled ↔ ∃ e ∈ last, exception earlier e = some .processKilled)

/-- **Each group is executed after the ones before it, up to the first with an exception.** -/
theorem ran_of_run {done : List (List Names)} {ran left : List (List String)}
    (hran : List.Forall₂ (fun generation executed => executeGroup G S generation = .ok executed) ran done)
    (hclean : Clean exception done) (h : run G S exception done left = .ok report) :
    Ran G S exception (ran ++ left) report := by
  induction left generalizing ran done with
  | nil =>
    cases h
    refine ⟨⟨ran, [], rfl, hran, fun _ => rfl⟩, fun _ => hclean, fun hstatus => absurd rfl hstatus⟩
  | cons generation left ih =>
    unfold run at h
    split at h
    case h_1 => cases h
    case h_2 executed hexecuted =>
      have hran' : List.Forall₂ (fun generation executed => executeGroup G S generation = .ok executed)
          (ran ++ [generation]) (done ++ [executed]) := List.rel_append hran (.cons hexecuted .nil)
      have hsame : ran ++ generation :: left = (ran ++ [generation]) ++ left := by
        rw [List.append_assoc, List.singleton_append]
      split at h
      case h_1 hinspect =>
        rw [hsame]
        refine ih hran' (hclean.concat fun e he => ?_) h
        have hnone := inspect_eq_running_iff.mp hinspect e (mem_of_executeGroup hexecuted he)
        rwa [exceptionOf, if_pos he] at hnone
      case h_2 hne =>
        cases h
        have hstatus : inspect (exceptionOf exception done executed) .running (groupEdges G generation) ≠
            .complete := inspect_ne_complete fun hrunning => by cases hrunning
        refine ⟨⟨ran ++ [generation], left, hsame, hran', fun hcomplete => absurd hcomplete hstatus⟩,
          fun hcomplete => absurd hcomplete hstatus, fun _ => ⟨done, executed, rfl, hclean, ?_, ?_⟩⟩
        · by_contra hnone
          refine hne (inspect_eq_running_iff.mpr fun e _ => ?_)
          unfold exceptionOf
          split
          case isTrue he => exact Option.not_isSome_iff_eq_none.mp fun hsome => hnone ⟨e, he, hsome⟩
          case isFalse => rfl
        · rw [inspect_eq_cancelled_iff fun hrunning => by cases hrunning]
          constructor
          · rintro ⟨e, -, he⟩
            unfold exceptionOf at he
            split at he
            case isTrue hmem => exact ⟨e, hmem, he⟩
            case isFalse => cases he
          · rintro ⟨e, he, hkilled⟩
            exact ⟨e, mem_of_executeGroup hexecuted he, by rw [exceptionOf, if_pos he, hkilled]⟩

end Runs

/-! ## 3. How often a stage runs -/

section Counts

variable {G : StageGraph} {S : Setting} {groups : List (List String)} {v : String}

/-- How often a stage is run, where these edges of the groups are executed. -/
def runs (G : StageGraph) (S : Setting) (v : String) : List (List String) → List (List Names) → ℕ
  | generation :: groups, executed :: rest =>
    executed.countP (fun e => e.1 = v && !skipStage G S.skip generation e) + runs G S v groups rest
  | _, _ => 0

theorem countP_of_not_mem {generation : List String} {executed : List Names}
    (h : executeGroup G S generation = .ok executed) (hv : v ∉ generation) :
    executed.countP (fun e => e.1 = v && !skipStage G S.skip generation e) = 0 := by
  refine List.countP_eq_zero.mpr fun e he hcount => ?_
  rw [Bool.and_eq_true, decide_eq_true_eq] at hcount
  have hmem := ((mem_groupEdges G generation).mp (mem_of_executeGroup h he)).1
  exact hv (hcount.1 ▸ hmem)

theorem runs_of_not_mem {executed : List (List Names)}
    (h : List.Forall₂ (fun generation executed => executeGroup G S generation = .ok executed) groups executed)
    (hv : v ∉ groups.flatten) : runs G S v groups executed = 0 := by
  induction h with
  | nil => rfl
  | cons hgroup _ ih =>
    rw [List.flatten_cons, List.mem_append, not_or] at hv
    rw [runs, countP_of_not_mem hgroup hv.1, ih hv.2]

theorem runs_of_mem {executed : List (List Names)} {n : ℕ}
    (h : List.Forall₂ (fun generation executed => executeGroup G S generation = .ok executed) groups executed)
    (hnodup : groups.flatten.Nodup) (hv : v ∈ groups.flatten)
    (hn : ∀ generation ∈ groups, v ∈ generation → ∀ executed, executeGroup G S generation = .ok executed →
      executed.countP (fun e => e.1 = v && !skipStage G S.skip generation e) = n) :
    runs G S v groups executed = n := by
  induction h with
  | nil => cases hv
  | @cons generation ex groups rest hgroup hrest ih =>
    rw [List.flatten_cons, List.nodup_append] at hnodup
    rw [List.flatten_cons, List.mem_append] at hv
    rw [runs]
    by_cases hmem : v ∈ generation
    · have hnot : v ∉ groups.flatten := fun hlater => hnodup.2.2 v hmem v hlater rfl
      rw [hn generation List.mem_cons_self hmem ex hgroup, runs_of_not_mem hrest hnot, Nat.add_zero]
    · rw [countP_of_not_mem hgroup hmem, Nat.zero_add]
      exact ih hnodup.2.1 (hv.resolve_left hmem) fun generation' hgen =>
        hn generation' (List.mem_cons_of_mem generation hgen)

/-- A stage whose group fits is run once, where it has edges and is not skipped. -/
theorem countP_eq {generation : List String} {executed : List Names}
    (hfits : PriorityBatches.Fits S.cpus (transitionsOf G S generation))
    (h : executeGroup G S generation = .ok executed) (hv : v ∈ generation)
    (hsplits : Delivery.splits (G.stageType v) = true) :
    executed.countP (fun e => e.1 = v && !skipStage G S.skip generation e) =
      if G.graph.succ v ≠ [] ∧ S.skip v = false then 1 else 0 := by
  split
  case isTrue hruns =>
    obtain ⟨d, hd, hown, hunique⟩ := exists_own hv hruns.1 hsplits hruns.2
    have hmem : (v, d) ∈ groupEdges G generation := (mem_groupEdges G generation).mpr ⟨hv, hd⟩
    rw [← count_of_executeGroup hfits h hmem hown, List.count]
    refine List.countP_congr fun e he => ?_
    rw [Bool.and_eq_true, decide_eq_true_eq, Bool.not_eq_true', beq_iff_eq]
    constructor
    · rintro ⟨rfl, hskip⟩
      have hsucc := ((mem_groupEdges G generation).mp (mem_of_executeGroup h he)).2
      exact Prod.ext rfl (hunique e.2 hsucc hskip)
    · rintro rfl
      exact ⟨rfl, hown⟩
  case isFalse hnot =>
    refine List.countP_eq_zero.mpr fun e he hcount => ?_
    rw [Bool.and_eq_true, decide_eq_true_eq, Bool.not_eq_true'] at hcount
    obtain ⟨rfl, hskip⟩ := hcount
    have hsucc := ((mem_groupEdges G generation).mp (mem_of_executeGroup h he)).2
    refine hnot ⟨List.ne_nil_of_mem hsucc, ?_⟩
    unfold skipStage at hskip
    exact (Bool.or_eq_false_iff.mp hskip).1

theorem runs_append {executed : List (List Names)} {left : List (List String)}
    (h : List.Forall₂ (fun generation executed => executeGroup G S generation = .ok executed) groups executed) :
    runs G S v (groups ++ left) executed = runs G S v groups executed := by
  induction h with
  | nil => cases left <;> rfl
  | cons _ _ ih => rw [List.cons_append, runs, runs, ih]

theorem source_mem {executed : List (List Names)} {e : Names} {i : ℕ}
    (h : List.Forall₂ (fun generation executed => executeGroup G S generation = .ok executed) groups executed)
    (he : e ∈ executed.getD i []) : e.1 ∈ groups.getD i [] := by
  induction h generalizing i with
  | nil =>
    rw [List.getD_nil] at he
    cases he
  | cons hgroup _ ih =>
    cases i with
    | zero => exact ((mem_groupEdges G _).mp (mem_of_executeGroup hgroup he)).1
    | succ i => exact ih he

end Counts

/-! ## 4. The run of a graph that was built -/

section Built

open Assembly

variable {nx : GenerationFunction String} {stages : List Assembly.Stage} {instances : StageType → ℕ}
  {g : Graph} {transitions : List (List Names)}

/-- The generations with transitions. -/
def groups (g : Graph) : List (List String) := g.executionOrder.filter fun generation => g.edgesOf generation ≠ []

theorem nodup_groups (hg : Layered g) : (groups g).flatten.Nodup :=
  hg.generations.nodup_flatten.sublist (List.Sublist.flatten List.filter_sublist)

theorem mem_groups (hg : Layered g) {a b : String} (hab : g.graph.Edge a b) : a ∈ (groups g).flatten := by
  obtain ⟨generation, hgen, ha⟩ := List.mem_flatten.mp
    (hg.generations.mem_flatten.mpr (g.graph.closed _ hab).1)
  refine List.mem_flatten.mpr ⟨generation, List.mem_filter.mpr ⟨hgen, decide_eq_true ?_⟩, ha⟩
  exact List.ne_nil_of_mem (mem_edgesOf.mpr ⟨ha, hab⟩ : (a, b) ∈ g.edgesOf generation)

/-- What comes after a stage is in a later group. -/
theorem lt_of_groups (hg : Layered g) {i j : ℕ} {a b : String} (hab : Relation.TransGen g.graph.Edge a b)
    (ha : a ∈ (groups g).getD i []) (hb : b ∈ (groups g).getD j []) : i < j := by
  have hmem : ∀ {generation v}, v ∈ generation → ∀ k (hk : k < g.executionOrder.length),
      generation = g.executionOrder[k] → v ∈ g.executionOrder.getD k [] := by
    rintro generation v hv k hk rfl
    rwa [List.getD_eq_getElem _ _ hk]
  have hpairwise : (groups g).Pairwise fun generation later =>
      ∀ a ∈ generation, ∀ b ∈ later, ¬ Relation.TransGen g.graph.Edge b a := by
    refine List.Pairwise.sublist List.filter_sublist (List.pairwise_iff_getElem.mpr ?_)
    intro k l hk hl hkl a ha b hb hba
    have hlt := hg.generations.lt_of_transGen hba (hmem hb l hl rfl) (hmem ha k hk rfl)
    exact (hkl.trans hlt).false
  have hi := Generations.lt_length_of_mem ha
  have hj := Generations.lt_length_of_mem hb
  rw [List.getD_eq_getElem _ _ hi] at ha
  rw [List.getD_eq_getElem _ _ hj] at hb
  rcases lt_trichotomy i j with hlt | rfl | hlt
  · exact hlt
  · obtain ⟨k, hk, heq⟩ := List.getElem_of_mem (List.mem_filter.mp (List.getElem_mem hi)).1
    exact absurd (hg.generations.lt_of_transGen hab (hmem ha k hk heq.symm) (hmem hb k hk heq.symm))
      (lt_irrefl k)
  · exact absurd hab (List.pairwise_iff_getElem.mp hpairwise j i hj hi hlt b hb a ha)

theorem cut_of_links {cut : String → Prop} {types : List StageType} {a b : String}
    (ha : ∀ type, a ≠ className type) (h : Links cut types a b) : cut a := by
  induction types generalizing cut with
  | nil => exact h.elim
  | cons type types ih =>
    rcases h with ⟨hcut, -⟩ | h
    · exact hcut
    · exact absurd (ih h) (ha type)

/-- The edges of a stage lead to what depends on it, and from a stage of the last generation to what was
appended. -/
theorem neighbors_ne_nil_iff (hfresh : Fresh stages) (hg : Assembled stages instances g) {v : String}
    (hv : ∃ s ∈ stages, s.name = v) :
    g.graph.neighbors v ≠ [] ↔ (∃ b, Depends stages v b) ∨ Last stages v := by
  have hclass : ∀ type, v ≠ className type := by
    obtain ⟨s, hs, rfl⟩ := hv
    exact hfresh s hs
  constructor
  · intro hne
    obtain ⟨b, hb⟩ := List.exists_mem_of_ne_nil _ hne
    rcases (hg.edge v b).mp (DiGraph.mem_neighbors.mp hb) with hdepends | ⟨hidle, -⟩ | hlinks
    · exact Or.inl ⟨b, hdepends⟩
    · exact absurd hidle (hclass .idle)
    · exact Or.inr (cut_of_links hclass hlinks)
  · rintro (⟨b, hb⟩ | hlast)
    · exact List.ne_nil_of_mem (DiGraph.mem_neighbors.mpr ((hg.edge v b).mpr (Or.inl hb)))
    · have hladder : ladder instances ≠ [] := by
        intro hnil
        have hcomplete := Assembly.getLast?_ladder instances
        rw [hnil] at hcomplete
        cases hcomplete
      obtain ⟨type, types, hcons⟩ := List.exists_cons_of_ne_nil hladder
      refine List.ne_nil_of_mem (a := className type) (DiGraph.mem_neighbors.mpr ((hg.edge v _).mpr ?_))
      rw [hcons]
      exact Or.inr (Or.inr (Or.inl ⟨hlast, rfl⟩))

end Built

/-- Something depends on a stage, or it is of the last generation; and it is not skipped. -/
def Due (stages : List Assembly.Stage) (S : Setting) (v : String) : Prop :=
  ((∃ b, Assembly.Depends stages v b) ∨ Assembly.Last stages v) ∧ S.skip v = false

/-- Stages that share the workers as they come. -/
def simpleSetting : Setting where
  stage v := ⟨v, none, .auto, true, 1⟩
  name _ := rfl
  skip _ := false
  cpus := Assembly.twoCpus

def simpleGraph : StageGraph := Assembly.stageGraph Assembly.fresh_simple Assembly.build_simple

theorem groups_simple : groups Assembly.simpleBuild.1 =
    [["Idle"], ["MySetup"], ["MyExecute"], ["MyAnalyze"], ["Submit"]] := by decide +kernel

theorem fits_simple : ∀ generation ∈ groups Assembly.simpleBuild.1,
    PriorityBatches.Fits simpleSetting.cpus (transitionsOf simpleGraph simpleSetting generation) := by
  have hone : ∀ generation ∈ groups Assembly.simpleBuild.1,
      (transitionsOf simpleGraph simpleSetting generation).parallelStagesCount = 1 ∧
        ((transitionsOf simpleGraph simpleSetting generation).sorted.filter fun t => !t.skipStage).map
          (fun t => t.source.workers) = [1] := by
    rw [groups_simple]
    decide +kernel
  intro generation hgen
  obtain ⟨hcount, hworkers⟩ := hone generation hgen
  obtain ⟨t, hkept, ht⟩ := List.map_eq_singleton_iff.mp hworkers
  unfold PriorityBatches.Fits
  rw [if_pos hcount]
  exact ⟨t, hkept, by rw [ht]; decide⟩

/-- How a run of these stages ends. -/
def simpleRun (exception : Names → Option Exception) : Except PriorityBatches.Error Report :=
  run simpleGraph simpleSetting (fun _ => exception) [] (groups Assembly.simpleBuild.1)

theorem exists_simpleRun (exception : Names → Option Exception) (status : Status)
    (h : (simpleRun exception).toOption.map Report.status = some status) :
    ∃ report, simpleRun exception = .ok report ∧ report.status = status := by
  cases hrun : simpleRun exception with
  | error e =>
    rw [hrun] at h
    cases h
  | ok report =>
    rw [hrun] at h
    exact ⟨report, rfl, Option.some.inj h⟩

/-- **A run that does not end `COMPLETE`** ends with the first group in which an edge has an exception. No
stage that comes after one of that group is run. -/
theorem stopped_run {nx : GenerationFunction String} {S : Setting} {cpuCores : ℕ+}
    {stages : List Assembly.Stage} {instances : StageType → ℕ} {g : Assembly.Graph}
    {transitions : List (List Names)} (hfresh : Assembly.Fresh stages)
    (h : Assembly.build nx S.cpus cpuCores stages instances = .ok (g, transitions))
    (exception : List (List Names) → Names → Option Exception) (report : Report)
    (hrun : run (Assembly.stageGraph hfresh h) S exception [] (groups g) = .ok report)
    (hstopped : report.status ≠ .complete) :
    ∃ earlier last, report.executed = earlier ++ [last] ∧ Clean exception earlier ∧
      (∃ e ∈ last, (exception earlier e).isSome) ∧
      (report.status = .cancelled ↔ ∃ e ∈ last, exception earlier e = some .processKilled) ∧
      ∀ e ∈ last, ∀ v, Relation.TransGen g.graph.Edge e.1 v →
        runs (Assembly.stageGraph hfresh h) S v (groups g) report.executed = 0 := by
  obtain ⟨-, hg, -⟩ := Assembly.build_ok hfresh h
  obtain ⟨⟨ran, left, hgroups, hran, -⟩, -, hstop⟩ := ran_of_run .nil clean_nil hrun
  obtain ⟨earlier, last, heq, hclean, hexception, hcancelled⟩ := hstop hstopped
  refine ⟨earlier, last, heq, hclean, hexception, hcancelled, fun e he v hv => ?_⟩
  have hsource : e.1 ∈ ran.getD earlier.length [] := by
    refine source_mem hran ?_
    rw [heq, List.getD_append_right _ _ _ _ le_rfl, Nat.sub_self]
    exact he
  have hlength : ran.length = earlier.length + 1 := by
    rw [hran.length_eq, heq, List.length_append, List.length_singleton]
  rw [List.nil_append] at hgroups
  rw [hgroups, runs_append hran]
  refine runs_of_not_mem hran fun hmem => ?_
  obtain ⟨generation, hgen, hvgen⟩ := List.mem_flatten.mp hmem
  obtain ⟨j, hj, rfl⟩ := List.getElem_of_mem hgen
  have hlt : earlier.length < j := by
    refine lt_of_groups hg.layered hv ?_ ?_
    · rwa [hgroups, List.getD_append _ _ _ _ (by omega)]
    · rwa [hgroups, List.getD_append _ _ _ _ hj, List.getD_eq_getElem _ _ hj]
  omega

theorem stopped_run_simple : ∃ report,
    simpleRun (fun e => if e.1 = "MyExecute" then some .other else none) = .ok report ∧
    ∃ earlier last, report.executed = earlier ++ [last] ∧
      Clean (fun _ e => if e.1 = "MyExecute" then some .other else none) earlier ∧
      (∃ e ∈ last, (if e.1 = "MyExecute" then some Exception.other else none).isSome) ∧
      (report.status = .cancelled ↔
        ∃ e ∈ last, (if e.1 = "MyExecute" then some Exception.other else none) = some .processKilled) ∧
      ∀ e ∈ last, ∀ v, Relation.TransGen Assembly.simpleBuild.1.graph.Edge e.1 v →
        runs simpleGraph simpleSetting v (groups Assembly.simpleBuild.1) report.executed = 0 := by
  obtain ⟨report, hrun, hstatus⟩ := exists_simpleRun
    (fun e => if e.1 = "MyExecute" then some .other else none) .failed (by decide +kernel)
  refine ⟨report, hrun, stopped_run (S := simpleSetting) Assembly.fresh_simple Assembly.build_simple
    (fun _ e => if e.1 = "MyExecute" then some .other else none) report hrun fun hcomplete => ?_⟩
  rw [hstatus] at hcomplete
  cases hcomplete

end Running
end Graphs
end Hedra
