/-
# What a transition delivers

A transition (`core/graphs/transitions/transition.py`) runs its stage, and then hands the histories
of its edge over to the edges that leave the stages it leads to.  The transitions of a generation
have a stage as often as it has edges; all but the first are copies, which do not run it, and hand
over what they find at another edge.

The kinds of edges are the classes of `core/graphs/transitions` (`setup`, `execute`, `optimize`,
`analyze` and others).  They differ in what they require and in what they provide, and share the
loop over the neighbours (`deliver`).  `items_transition` is the whole of one transition, as the
neighbours see it; the runs are in `DeliveryRuns.lean`.
-/
import Hedra.Graphs.Stages
import Hedra.Lib.Dict
import Mathlib.Logic.Function.Basic

namespace Hedra
namespace Graphs
namespace Delivery

open Lib

/-- The names of the stages at the ends of an edge. -/
abbrev Names := String × String

/-- A `HistoryUpdate` -/
abbrev Update (Ω : Type) := Dict String Ω

variable {Ω : Type}

/-! ## 1. Edges -/

/-- An edge, without its stages. -/
structure Edge (Ω : Type) where
  history : Dict Names (Update Ω)
  nextHistory : Dict Names (Update Ω)
  fromStageNames : List String
  exception : Bool

/-- `requires` -/
def requires : StageType → List String
  | .setup =>
    ["execute_stage_streamed_analytics", "execute_stage_results", "session_stage_monitors"]
  | .execute =>
    ["setup_stage_configs", "setup_stage_ready_stages", "setup_stage_candidates",
      "setup_stage_experiment_config", "execute_stage_setup_config", "execute_stage_setup_by",
      "execute_stage_setup_hooks", "execute_stage_results", "execute_stage_streamed_analytics",
      "session_stage_monitors"]
  | .optimize =>
    ["setup_stage_experiment_config", "execute_stage_streamed_analytics", "setup_stage_configs",
      "execute_stage_setup_hooks", "execute_stage_setup_config", "execute_stage_setup_by",
      "setup_stage_ready_stages", "setup_stage_candidates", "execute_stage_results",
      "session_stage_monitors"]
  | .act =>
    ["analyze_stage_summary_metrics", "execute_stage_setup_config", "execute_stage_setup_by",
      "execute_stage_setup_hooks", "execute_stage_results", "execute_stage_streamed_analytics",
      "setup_stage_configs", "setup_stage_experiment_config", "setup_stage_ready_stages",
      "setup_stage_candidates", "session_stage_monitors"]
  | .analyze =>
    ["setup_stage_experiment_config", "execute_stage_streamed_analytics", "execute_stage_results",
      "session_stage_monitors"]
  | .submit =>
    ["analyze_stage_session_total", "analyze_stage_events", "analyze_stage_summary_metrics",
      "session_stage_monitors", "submit_stage_session_total"]
  | .idle | .complete | .error => []

/-- `provides`, of the edges that hand over nothing else. -/
def provides : StageType → List String
  | .act =>
    ["analyze_stage_summary_metrics", "execute_stage_setup_hooks", "execute_stage_setup_config",
      "execute_stage_setup_by", "execute_stage_results", "execute_stage_streamed_analytics",
      "setup_stage_configs", "setup_stage_ready_stages", "setup_stage_experiment_config",
      "act_stage_monitors", "session_stage_monitors"]
  | .analyze =>
    ["setup_stage_experiment_config", "execute_stage_streamed_analytics",
      "analyze_stage_summary_metrics", "session_stage_monitors", "analyze_stage_monitors"]
  | _ => []

/-- `d.get(name)`, or an empty history. -/
def entry (d : Dict Names (Update Ω)) (name : Names) : Update Ω := (d.get? name).getD .empty

/-- The first loop of `_update`: a history of the edge is one of the next histories. -/
def carry (type : StageType) (next : Dict Names (Update Ω)) (h : Names × Update Ω) :
    Dict Names (Update Ω) :=
  match type with
  | .setup | .optimize | .execute | .submit => next.set h.1 ((entry next h.1).update h.2)
  | .act | .idle => next.set h.1 ((entry next h.1).update (h.2.restrict (provides type)))
  | .analyze => next.set h.1 (h.2.restrict (provides type))
  | .complete | .error => next

/-- The other part of `_update`: the stage has a history of its own. -/
def addOwn (type : StageType) (skipStage : Bool) (name : Names) (result : Update Ω)
    (next : Dict Names (Update Ω)) : Dict Names (Update Ω) :=
  match type with
  | .setup =>
    let next := next.set name (entry next name)
    if skipStage then next else next.set name ((entry next name).update result)
  | .optimize | .act | .execute =>
    if skipStage then next else next.set name ((entry next name).update result)
  | .analyze | .submit => if skipStage then next else next.set name result
  | .idle | .complete | .error => next.set name .empty

/-- `_update`, for the edges of a stage. -/
def Edge.update (type : StageType) (skipStage : Bool) (source : String) (e : Edge Ω)
    (destination : String) (result : Update Ω) : Edge Ω :=
  { e with
    nextHistory := addOwn type skipStage (source, destination) result
      (e.history.items.foldl (carry type) e.nextHistory) }

/-- What happens when the stage of an edge is run, or when a copy of it passes. -/
structure Attempt (Ω : Type) where
  /-- None where `_update` is not called; else it is called for the destination, and for these. -/
  others : Option (List String)
  results : String → Update Ω
  raises : Bool

/-- The stages that `_update` is called for. -/
def Attempt.updated (a : Attempt Ω) (destination : String) : List String :=
  match a.others with
  | none => []
  | some others => destination :: others

/-- The calls of `_update`. -/
def Edge.updates (type : StageType) (skipStage : Bool) (name : Names) (e : Edge Ω)
    (a : Attempt Ω) : Edge Ω :=
  match type with
  | .complete | .error => e
  | _ => (a.updated name.2).foldl (fun e d => e.update type skipStage name.1 d (a.results d)) e

/-- `transition`, of an edge from a stage of this type. -/
def Edge.transition (type : StageType) (skipStage : Bool) (name : Names) (e : Edge Ω)
    (a : Attempt Ω) : Edge Ω :=
  { e.updates type skipStage name a with exception := e.exception || a.raises }

/-! ## 2. Transitions -/

/-- The edges of a graph, by their names. -/
abbrev State (Ω : Type) := Names → Edge Ω

def State.initial : State Ω := fun _ => ⟨.empty, .empty, [], false⟩

section Generation

variable (G : StageGraph) (skip : String → Bool) (generation : List String)

/-- The edges of a `TransitionGroup`, in the order in which `add_transition` numbers them. -/
def groupEdges : List Names :=
  generation.flatMap fun source => (G.graph.succ source).map fun destination => (source, destination)

def transitionIdx (name : Names) : ℕ := (groupEdges G generation).idxOf name

/-- `split` marks an edge of this type as a copy. -/
def splits : StageType → Bool
  | .idle | .complete | .error => false
  | _ => true

/-- `skip_stage`, after `split`. -/
def skipStage (name : Names) : Bool :=
  let edges := (G.graph.succ name.1).map fun destination => (name.1, destination)
  skip name.1 ||
    (1 < edges.length && splits (G.stageType name.1) &&
      (edges.map (transitionIdx G generation)).min?.any (· < transitionIdx G generation name))

/-- `selected_edge` -/
def selectedEdge (name : Names) : Names :=
  if skipStage G skip generation name then
    match ((groupEdges G generation).map (transitionIdx G generation)).min? with
    | none => name
    | some i => (groupEdges G generation).getD i name
  else name

/-- `destinations` -/
def destinations (name : Names) : List String :=
  if 1 < (G.graph.succ name.1).length then G.graph.succ name.1 else [name.2]

/-- `neighbors`; the edges of a destination are added once for each of them. -/
def neighbors (name : Names) : List Names :=
  (destinations G name).flatMap fun d =>
    (G.graph.succ d).flatMap fun _ => (G.graph.succ d).map fun x => (d, x)

/-- What a neighbour gets: the next histories, and the one of the stage where it has none. -/
def Edge.receive (required : List String) (next : Dict Names (Update Ω)) (sourceName : String)
    (previousEdge : Names) (histories : List (Update Ω)) (e : Edge Ω) : Edge Ω :=
  let history := e.history.update (next.mapValues (Dict.restrict required))
  { e with
    fromStageNames :=
      if sourceName ∈ e.fromStageNames then e.fromStageNames else e.fromStageNames ++ [sourceName]
    history := histories.foldl (fun history h =>
      if history.get? previousEdge = none ∧ h.items ≠ [] then
        history.set previousEdge (h.restrict required)
      else history) history }

/-- The part of `execute` that is entered with `pass_to_next`. -/
def deliver (name : Names) (st : State Ω) : State Ω :=
  let selected := selectedEdge G skip generation name
  let sourceName := selected.1
  let sourceHistory := entry (st selected).nextHistory (sourceName, name.2)
  let histories := Dict.ofList ((neighbors G name).map fun n => (n, sourceHistory))
  -- the edge is no neighbour of its own
  let next := (st name).nextHistory
  (neighbors G name).foldl (fun st n =>
    Function.update st n ((st n).receive (requires (G.stageType n.1)) next sourceName
      (sourceName, n.1) histories.values)) st

/-- `pass_to_next` -/
def passToNext (name : Names) (e : Edge Ω) : Bool :=
  let isIgnoredStage := G.stageType name.2 = .complete ∨ G.stageType name.2 = .error
  let stageSkipped := skip name.1 ∧ skipStage G skip generation name = false
  let invalidTransition := G.stageType name.2 ∉ localTransitions (G.stageType name.1)
  !(decide (isIgnoredStage ∨ stageSkipped ∨ invalidTransition) || e.exception)

/-- `self.edge.transition()` -/
def attempt (name : Names) (a : Attempt Ω) (st : State Ω) : State Ω :=
  Function.update st name
    ((st name).transition (G.stageType name.1) (skipStage G skip generation name) name a)

/-- `execute`, from its last attempt on. -/
def execute (name : Names) (a : Attempt Ω) (st : State Ω) : State Ω :=
  let st := attempt G skip generation name a st
  if passToNext G skip generation name (st name) then deliver G skip generation name st else st

end Generation

/-! ## 3. What an attempt leaves -/

theorem get?_carry_ne (type : StageType) (next : Dict Names (Update Ω)) {h : Names × Update Ω}
    {k : Names} (hk : k ≠ h.1) : (carry type next h).get? k = next.get? k := by
  cases type <;> simp only [carry, Dict.get?_set_ne _ _ hk]

/-- The next histories are those of the edge, and others that were there. -/
theorem get?_foldl_carry (type : StageType) (history next : Dict Names (Update Ω)) {k : Names}
    (hk : history.get? k = none) : (history.items.foldl (carry type) next).get? k = next.get? k := by
  have hne : ∀ h ∈ history.items, k ≠ h.1 := fun h hmem heq => by
    have hsome := (Dict.mem_items_iff history h.1 h.2).mp hmem
    rw [← heq, hk] at hsome
    cases hsome
  generalize history.items = l at hne
  induction l generalizing next with
  | nil => rfl
  | cons h l ih =>
    rw [List.foldl_cons, ih _ fun h' hmem => hne h' (List.mem_cons_of_mem _ hmem)]
    exact get?_carry_ne type next (hne h List.mem_cons_self)

theorem get?_addOwn_ne (type : StageType) (skipStage : Bool) {name k : Names} (result : Update Ω)
    (next : Dict Names (Update Ω)) (hk : k ≠ name) :
    (addOwn type skipStage name result next).get? k = next.get? k := by
  cases type <;> cases skipStage <;> simp [addOwn, Dict.get?_set_ne, hk]

theorem isSome_carry {type : StageType} {next : Dict Names (Update Ω)} (h : Names × Update Ω)
    {k : Names} (hk : (next.get? k).isSome) : ((carry type next h).get? k).isSome := by
  by_cases heq : k = h.1
  · subst heq
    cases type <;> simp [carry, hk]
  · rw [get?_carry_ne type next heq]
    exact hk

theorem isSome_addOwn {type : StageType} {skipStage : Bool} {name k : Names} {result : Update Ω}
    {next : Dict Names (Update Ω)} (hk : (next.get? k).isSome) :
    ((addOwn type skipStage name result next).get? k).isSome := by
  by_cases heq : k = name
  · subst heq
    cases type <;> cases skipStage <;> simp [addOwn, hk]
  · rw [get?_addOwn_ne type skipStage result next heq]
    exact hk

/-- The edge types of which a copy has nothing of its own. -/
def Silent : StageType → Prop
  | .optimize | .act | .execute | .analyze | .submit => True
  | .setup | .idle | .complete | .error => False

theorem addOwn_of_silent {type : StageType} (h : Silent type) (name : Names) (result : Update Ω)
    (next : Dict Names (Update Ω)) : addOwn type true name result next = next := by
  cases type <;> first | rfl | exact h.elim

/-- The edge types whose stages have nothing of their own. -/
def Plain : StageType → Prop
  | .idle | .complete | .error => True
  | .setup | .optimize | .act | .execute | .analyze | .submit => False

theorem addOwn_of_plain {type : StageType} (h : Plain type) (skipStage : Bool) (name : Names)
    (result : Update Ω) (next : Dict Names (Update Ω)) :
    addOwn type skipStage name result next = next.set name .empty := by
  cases type <;> first | rfl | exact h.elim

/-- A Setup edge has a history for each stage it is updated for. -/
theorem get?_addOwn_setup (skipStage : Bool) (name : Names) (result : Update Ω)
    (next : Dict Names (Update Ω)) :
    ((addOwn .setup skipStage name result next).get? name).isSome := by
  cases skipStage <;> simp [addOwn]

namespace Edge

variable {type : StageType} {copy : Bool} {name k : Names} {e : Edge Ω}

theorem get?_update (source destination : String) (result : Update Ω) (hk : e.history.get? k = none)
    (hown : k ≠ (source, destination) ∨ Silent type ∧ copy = true) :
    (e.update type copy source destination result).nextHistory.get? k = e.nextHistory.get? k := by
  rw [update]
  dsimp only
  rcases hown with hne | ⟨hsilent, rfl⟩
  · rw [get?_addOwn_ne _ _ _ _ hne, get?_foldl_carry _ _ _ hk]
  · rw [addOwn_of_silent hsilent, get?_foldl_carry _ _ _ hk]

theorem updates_cases (a : Attempt Ω) :
    e.updates type copy name a = e ∨ e.updates type copy name a =
      (a.updated name.2).foldl (fun e d => e.update type copy name.1 d (a.results d)) e := by
  cases type <;> first | exact .inl rfl | exact .inr rfl

theorem foldl_update (source : String) (results : String → Update Ω) (l : List String) :
    (l.foldl (fun e d => e.update type copy source d (results d)) e).history = e.history ∧
      (l.foldl (fun e d => e.update type copy source d (results d)) e).fromStageNames =
        e.fromStageNames := by
  induction l generalizing e with
  | nil => exact ⟨rfl, rfl⟩
  | cons d l ih => exact ih

/-- An attempt changes nothing but the next histories, and the exception. -/
theorem transition_keeps (a : Attempt Ω) :
    (e.transition type copy name a).history = e.history ∧
      (e.transition type copy name a).fromStageNames = e.fromStageNames := by
  change (e.updates type copy name a).history = e.history ∧
    (e.updates type copy name a).fromStageNames = e.fromStageNames
  rcases @updates_cases Ω type copy name e a with h | h
  · rw [h]
    exact ⟨rfl, rfl⟩
  · rw [h]
    exact foldl_update name.1 a.results _

@[simp] theorem transition_history (a : Attempt Ω) :
    (e.transition type copy name a).history = e.history := (transition_keeps a).1

@[simp] theorem transition_fromStageNames (a : Attempt Ω) :
    (e.transition type copy name a).fromStageNames = e.fromStageNames := (transition_keeps a).2

@[simp] theorem transition_exception (a : Attempt Ω) :
    (e.transition type copy name a).exception = (e.exception || a.raises) := rfl

/-- What is in the next histories after an attempt is one of those of the edge, or was there before,
or is the stage's own. -/
theorem get?_transition (a : Attempt Ω) (hk : e.history.get? k = none)
    (hown : k.1 ≠ name.1 ∨ Silent type ∧ copy = true) :
    (e.transition type copy name a).nextHistory.get? k = e.nextHistory.get? k := by
  change (e.updates type copy name a).nextHistory.get? k = e.nextHistory.get? k
  rcases @updates_cases Ω type copy name e a with h | h
  · rw [h]
  · rw [h]
    generalize a.updated name.2 = l
    clear h
    induction l generalizing e with
    | nil => rfl
    | cons d l ih =>
      have hown' : k ≠ (name.1, d) ∨ Silent type ∧ copy = true :=
        hown.imp_left fun hne heq => hne (by rw [heq])
      exact (ih (e := e.update type copy name.1 d (a.results d)) hk).trans
        (get?_update name.1 d (a.results d) hk hown')

/-- What a stage with nothing of its own has under a name is empty. -/
theorem items_transition (hplain : Plain type) (a : Attempt Ω) (hk : e.history.get? k = none)
    (hnext : ∀ u, e.nextHistory.get? k = some u → u.items = []) {u : Update Ω}
    (hu : (e.transition type copy name a).nextHistory.get? k = some u) : u.items = [] := by
  change (e.updates type copy name a).nextHistory.get? k = some u at hu
  rcases @updates_cases Ω type copy name e a with h | h
  · exact hnext u (h ▸ hu)
  · rw [h] at hu
    generalize a.updated name.2 = l at hu
    clear h
    induction l generalizing e with
    | nil => exact hnext u hu
    | cons d l ih =>
      refine ih (e := e.update type copy name.1 d (a.results d)) hk (fun w hw => ?_) hu
      rw [update] at hw
      dsimp only at hw
      rw [addOwn_of_plain hplain, Dict.get?_set] at hw
      split at hw
      · exact Option.some.inj hw ▸ rfl
      · exact hnext w ((get?_foldl_carry type e.history e.nextHistory hk).symm.trans hw)

/-- No history is taken away again. -/
theorem isSome_update {source destination : String} {result : Update Ω}
    (hk : (e.nextHistory.get? k).isSome) :
    ((e.update type copy source destination result).nextHistory.get? k).isSome := by
  refine isSome_addOwn ?_
  generalize e.history.items = l
  generalize e.nextHistory = next at hk
  induction l generalizing next with
  | nil => exact hk
  | cons h l ih => exact ih _ (isSome_carry h hk)

theorem isSome_foldl_update {source : String} {results : String → Update Ω} {l : List String}
    (hk : (e.nextHistory.get? k).isSome) :
    ((l.foldl (fun e d => e.update type copy source d (results d)) e).nextHistory.get? k).isSome := by
  induction l generalizing e with
  | nil => exact hk
  | cons d l ih => exact ih (isSome_update hk)

/-- A Setup edge has histories for the stages that it is updated for. -/
theorem isSome_transition_setup {a : Attempt Ω} {d : String} (hd : d ∈ a.updated name.2) :
    ((e.transition .setup copy name a).nextHistory.get? (name.1, d)).isSome := by
  change (((a.updated name.2).foldl (fun e d => e.update .setup copy name.1 d (a.results d))
    e).nextHistory.get? (name.1, d)).isSome
  generalize a.updated name.2 = l at hd
  induction l generalizing e with
  | nil => cases hd
  | cons d' l ih =>
    rcases List.mem_cons.mp hd with rfl | hd
    · exact isSome_foldl_update (e := e.update .setup copy name.1 d (a.results d))
        (get?_addOwn_setup copy _ _ _)
    · exact ih hd

/-! ## 4. What a neighbour receives -/

variable {required : List String} {next : Dict Names (Update Ω)} {sourceName : String}
  {previousEdge : Names} {histories : List (Update Ω)}

theorem mem_receive :
    sourceName ∈ (e.receive required next sourceName previousEdge histories).fromStageNames := by
  dsimp only [receive]
  split
  · assumption
  · exact List.mem_append_right _ (List.mem_singleton.mpr rfl)

theorem subset_receive : e.fromStageNames ⊆
    (e.receive required next sourceName previousEdge histories).fromStageNames := by
  dsimp only [receive]
  split
  · exact List.Subset.refl _
  · exact List.subset_append_left _ _

theorem nodup_receive (h : e.fromStageNames.Nodup) :
    (e.receive required next sourceName previousEdge histories).fromStageNames.Nodup := by
  dsimp only [receive]
  split
  · exact h
  · next hnot => exact List.nodup_append.mpr ⟨h, List.nodup_singleton _, fun a ha b hb heq => by
      rw [heq, List.mem_singleton.mp hb] at ha
      exact hnot ha⟩

/-- The loop over `transition_source_histories`, on an entry that is there, or on another. -/
theorem get?_foldl_fill {history : Dict Names (Update Ω)} {k : Names}
    (hk : k ≠ previousEdge ∨ (history.get? previousEdge).isSome) :
    (histories.foldl (fun history h =>
      if history.get? previousEdge = none ∧ h.items ≠ [] then
        history.set previousEdge (h.restrict required)
      else history) history).get? k = history.get? k := by
  induction histories generalizing history with
  | nil => rfl
  | cons h histories ih =>
    rw [List.foldl_cons]
    split
    · next hfill =>
      rcases hk with hne | hsome
      · rw [ih (.inl hne), Dict.get?_set_ne _ _ hne]
      · rw [hfill.1] at hsome
        cases hsome
    · exact ih hk

/-- On an entry that is not there. -/
theorem get?_foldl_fill_of_none {history : Dict Names (Update Ω)} {h : Update Ω}
    (hnone : history.get? previousEdge = none) (hne : h.items ≠ []) (hmem : histories ≠ [])
    (hall : ∀ h' ∈ histories, h' = h) :
    (histories.foldl (fun history h =>
      if history.get? previousEdge = none ∧ h.items ≠ [] then
        history.set previousEdge (h.restrict required)
      else history) history).get? previousEdge = some (h.restrict required) := by
  cases histories with
  | nil => exact absurd rfl hmem
  | cons h' histories =>
    obtain rfl := hall h' List.mem_cons_self
    rw [List.foldl_cons, if_pos ⟨hnone, hne⟩, get?_foldl_fill (.inr ?_), Dict.get?_set, if_pos rfl]
    rw [Dict.get?_set, if_pos rfl]
    rfl

theorem get?_update_next (k : Names) :
    (e.history.update (next.mapValues (Dict.restrict required))).get? k =
      ((next.get? k).map (Dict.restrict required)).or (e.history.get? k) := by
  rw [Dict.get?_update, Dict.get?_mapValues]

/-- A next history replaces what the neighbour has under its name. -/
theorem get?_receive_of_next {u : Update Ω} (hk : next.get? k = some u) :
    (e.receive required next sourceName previousEdge histories).history.get? k =
      some (u.restrict required) := by
  have hupdate := @get?_update_next Ω e required next k
  rw [hk] at hupdate
  refine Eq.trans (get?_foldl_fill ?_) hupdate
  by_cases hprev : k = previousEdge
  · right
    rw [← hprev, hupdate]
    rfl
  · exact .inl hprev

/-- What is there under another name stays. -/
theorem get?_receive_keeps (hk : next.get? k = none)
    (hsome : k ≠ previousEdge ∨ (e.history.get? k).isSome) :
    (e.receive required next sourceName previousEdge histories).history.get? k = e.history.get? k := by
  have hupdate := @get?_update_next Ω e required next k
  rw [hk, Option.map_none, Option.none_or] at hupdate
  refine Eq.trans (get?_foldl_fill ?_) hupdate
  by_cases hprev : k = previousEdge
  · right
    rw [← hprev, hupdate]
    exact hsome.resolve_left (not_not_intro hprev)
  · exact .inl hprev

/-- The history of the stage is filled in where there is none. -/
theorem get?_receive_fills {h : Update Ω} (hk : next.get? previousEdge = none)
    (hnone : e.history.get? previousEdge = none) (hne : h.items ≠ []) (hmem : histories ≠ [])
    (hall : ∀ h' ∈ histories, h' = h) :
    (e.receive required next sourceName previousEdge histories).history.get? previousEdge =
      some (h.restrict required) := by
  have hupdate := @get?_update_next Ω e required next previousEdge
  rw [hk, hnone] at hupdate
  exact get?_foldl_fill_of_none hupdate hne hmem hall

/-- The loop fills nothing in from empty histories. -/
theorem get?_foldl_fill_of_empty {history : Dict Names (Update Ω)} {k : Names}
    (hall : ∀ h ∈ histories, h.items = []) :
    (histories.foldl (fun history h =>
      if history.get? previousEdge = none ∧ h.items ≠ [] then
        history.set previousEdge (h.restrict required)
      else history) history).get? k = history.get? k := by
  induction histories generalizing history with
  | nil => rfl
  | cons h histories ih =>
    rw [List.foldl_cons, if_neg fun hfill => hfill.2 (hall h List.mem_cons_self)]
    exact ih fun h' hmem => hall h' (List.mem_cons_of_mem _ hmem)

/-- What is not there comes from the next histories, or is filled in. -/
theorem get?_receive_none (hk : next.get? k = none) (hnone : e.history.get? k = none)
    (hprev : k ≠ previousEdge ∨ ∀ h ∈ histories, h.items = []) :
    (e.receive required next sourceName previousEdge histories).history.get? k = none := by
  have hupdate := @get?_update_next Ω e required next k
  rw [hk, hnone] at hupdate
  rcases hprev with hne | hall
  · exact (get?_foldl_fill (.inl hne)).trans hupdate
  · exact (get?_foldl_fill_of_empty hall).trans hupdate

end Edge

/-! ## 5. Delivery -/

/-- Updates one after the other, seen from one of the names. -/
theorem foldl_update_apply {α β : Type} [DecidableEq α] [BEq α] [LawfulBEq α] (f : α → β → β)
    (l : List α) (st : α → β) (n : α) :
    (l.foldl (fun st m => Function.update st m (f m (st m))) st) n = (f n)^[l.count n] (st n) := by
  induction l generalizing st with
  | nil => rfl
  | cons m l ih =>
    rw [List.foldl_cons, ih]
    by_cases h : m = n
    · subst h
      rw [Function.update_self, List.count_cons_self, Function.iterate_succ_apply]
    · rw [Function.update_of_ne (Ne.symm h), List.count_cons_of_ne h]

section Generation

variable (G : StageGraph) (skip : String → Bool) (generation : List String)

theorem mem_neighbors {name n : Names} :
    n ∈ neighbors G name ↔ n.1 ∈ destinations G name ∧ n.2 ∈ G.graph.succ n.1 := by
  obtain ⟨d, x⟩ := n
  simp only [neighbors, List.mem_flatMap, List.mem_map, Prod.mk.injEq]
  constructor
  · rintro ⟨d, hd, -, -, x, hx, rfl, rfl⟩
    exact ⟨hd, hx⟩
  · rintro ⟨hd, hx⟩
    exact ⟨d, hd, x, hx, x, hx, rfl, rfl⟩

theorem mem_destinations {name : Names} (hname : name.2 ∈ G.graph.succ name.1) {d : String} :
    d ∈ destinations G name ↔ d ∈ G.graph.succ name.1 := by
  rw [destinations]
  split
  · rfl
  · next hlen =>
    obtain ⟨d', hd'⟩ : ∃ d', G.graph.succ name.1 = [d'] := by
      have hpos := List.length_pos_of_mem hname
      exact List.length_eq_one_iff.mp (by omega)
    rw [hd', List.mem_singleton] at hname
    rw [hd', hname]

/-- What a delivery does to one of the edges it goes to. -/
def received (name : Names) (st : State Ω) (n : Names) (e : Edge Ω) : Edge Ω :=
  let sourceName := (selectedEdge G skip generation name).1
  let sourceHistory :=
    entry (st (selectedEdge G skip generation name)).nextHistory (sourceName, name.2)
  e.receive (requires (G.stageType n.1)) (st name).nextHistory sourceName (sourceName, n.1)
    (Dict.ofList ((neighbors G name).map fun n => (n, sourceHistory))).values

theorem deliver_apply (name : Names) (st : State Ω) (n : Names) :
    deliver G skip generation name st n =
      (received G skip generation name st n)^[(neighbors G name).count n] (st n) :=
  foldl_update_apply (received G skip generation name st) (neighbors G name) st n

theorem deliver_of_not_mem {name n : Names} (st : State Ω) (h : n ∉ neighbors G name) :
    deliver G skip generation name st n = st n := by
  rw [deliver_apply, List.count_eq_zero_of_not_mem h]
  rfl

/-- A delivery keeps what each of its parts keeps. -/
theorem deliver_invariant {name n : Names} {st : State Ω} {P : Edge Ω → Prop}
    (hP : ∀ e, P e → P (received G skip generation name st n e)) (h : P (st n)) :
    P (deliver G skip generation name st n) := by
  rw [deliver_apply]
  exact Function.Iterate.rec P h hP _

/-- A delivery brings about what each of its parts does, and keeps. -/
theorem deliver_establishes {name n : Names} {st : State Ω} {P : Edge Ω → Prop}
    (hn : n ∈ neighbors G name) (hfirst : P (received G skip generation name st n (st n)))
    (hP : ∀ e, P e → P (received G skip generation name st n e)) :
    P (deliver G skip generation name st n) := by
  obtain ⟨c, hc⟩ := Nat.exists_eq_succ_of_ne_zero
    (Nat.pos_iff_ne_zero.mp (List.count_pos_iff.mpr hn))
  rw [deliver_apply, hc, Function.iterate_succ_apply]
  exact Function.Iterate.rec P hfirst hP _

/-- The histories of a delivery are all one. -/
theorem eq_of_mem_histories {ns : List Names} {h h' : Update Ω}
    (hmem : h' ∈ (Dict.ofList (ns.map fun n => (n, h))).values) : h' = h := by
  obtain ⟨k, hk⟩ := (Dict.mem_values_iff _ _).mp hmem
  obtain ⟨n, -, heq⟩ := List.mem_map.mp (Dict.mem_of_get?_ofList hk)
  exact (Prod.mk.inj heq).2.symm

theorem histories_ne_nil {ns : List Names} {h : Update Ω} {n : Names} (hn : n ∈ ns) :
    (Dict.ofList (ns.map fun n => (n, h))).values ≠ [] := by
  have hsome : ((Dict.ofList (ns.map fun n => (n, h))).get? n).isSome := by
    refine Dict.isSome_get?_foldl_set (.inl ?_)
    rw [List.map_map]
    exact List.mem_map.mpr ⟨n, hn, rfl⟩
  obtain ⟨v, hv⟩ := Option.isSome_iff_exists.mp hsome
  exact List.ne_nil_of_mem ((Dict.mem_values_iff _ _).mpr ⟨n, hv⟩)

end Generation

end Delivery
end Graphs
end Hedra
