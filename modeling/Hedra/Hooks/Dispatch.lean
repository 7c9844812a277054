/-
# Dispatching events

The hooks of a stage are events of its `EventDispatcher`
(`core/hooks/types/base/event_dispatch.py`).  `dispatch_events` calls them generation by generation,
and gives the result of each to those that come next: an event is called with what it was given, the
later results over the earlier ones.

Channels, actions and tasks are not called, and neither are the events next to an action or a task; these
are on the `skip_list`.  Where one call of a generation raises, the others of it have been started all the
same, and nothing later is called.

The contexts of events and stages, which the calls write too, are left out.

* `At.callLayer`: a layer is called with what its events have been given by then;
* `At.run`: so is each layer of a dispatch, up to one that raises;
* `dispatch_proper`: every dispatch is proper, with any hooks.
-/
import Hedra.Lib.Dict
import Hedra.Lib.Generations
import Mathlib.Data.List.Pairwise
import Mathlib.Logic.Function.Basic

namespace Hedra
namespace Hooks
namespace Dispatch

open Lib

inductive EventType
  | action
  | channel
  | check
  | condition
  | context
  | event
  | load
  | metric
  | save
  | task
  | transform
deriving DecidableEq

/-- An event, with the names that its hook depends on and the events that come next. -/
structure Event where
  eventName : String
  eventType : EventType
  names : List String
  nextMap : List String
deriving DecidableEq

def Event.isActionOrTask (e : Event) : Bool := e.eventType = .action || e.eventType = .task

structure EventDispatcher where
  eventsByName : Dict String Event
  actionsAndTasks : Dict String Event
  skipList : List String
  graph : DiGraph String

namespace EventDispatcher

/-- `__init__` -/
def init : EventDispatcher := ⟨.empty, .empty, [], .empty⟩

/-- `add_event` -/
def addEvent (d : EventDispatcher) (e : Event) : EventDispatcher where
  eventsByName := d.eventsByName.set e.eventName e
  actionsAndTasks := if e.isActionOrTask then d.actionsAndTasks.set e.eventName e else d.actionsAndTasks
  skipList := if e.eventType = .channel then d.skipList ++ [e.eventName] else d.skipList
  graph := d.graph.addNode e.eventName

/-- What `assemble_action_and_task_subgraphs` puts on the `skip_list`. -/
def assembleActionAndTaskSubgraphs (d : EventDispatcher) : EventDispatcher :=
  { d with
    skipList := d.skipList ++ (d.actionsAndTasks.items.flatMap fun i => i.1 :: i.2.names) ++
      d.eventsByName.items.flatMap fun i =>
        (i.2.names.filter fun name => (d.actionsAndTasks.get? name).isSome).map fun _ => i.1 }

/-- `assemble_execution_graph` -/
def assembleExecutionGraph (d : EventDispatcher) : EventDispatcher :=
  { d with
    graph := (d.eventsByName.values.flatMap fun e => e.nextMap.map fun target => (e.eventName, target)).foldl
      (fun G e => G.addEdge e) d.graph }

def nextMap (d : EventDispatcher) (name : String) : List String :=
  ((d.eventsByName.get? name).map Event.nextMap).getD []

end EventDispatcher

section Dispatching

variable {Ω : Type}

/-- A call of an event. -/
structure Call (Ω : Type) where
  event : String
  args : Dict String Ω
  result : Dict String Ω

/-- What the events are given, and the calls that have returned. -/
structure State (Ω : Type) where
  nextArgs : String → Dict String Ω
  calls : List (Call Ω)

/-- How a dispatch ends. -/
inductive Dispatched (Ω : Type)
  | finished (st : State Ω)
  /-- A call of this layer raised. -/
  | raised (st : State Ω) (layer : List String)

/-- What the hooks return, or that they raise; it may depend on all calls that have returned. -/
abbrev Behaviour (Ω : Type) := List (Call Ω) → String → Dict String Ω → Option (Dict String Ω)

/-- `asyncio.gather` -/
def gather (hooks : Behaviour Ω) (st : State Ω) (layer : List String) : Option (List (Call Ω)) :=
  layer.mapM fun name =>
    (hooks st.calls name (st.nextArgs name)).map fun result => ⟨name, st.nextArgs name, result⟩

/-- The result of a call is given to the events that come next. -/
def give (next : String → List String) (nextArgs : String → Dict String Ω) (c : Call Ω) :
    String → Dict String Ω :=
  (next c.event).foldl (fun nextArgs name => Function.update nextArgs name ((nextArgs name).update c.result))
    nextArgs

/-- `_execute_batch`, over the layers that are left -/
def executeLayers (hooks : Behaviour Ω) (next : String → List String) (skipList : List String) :
    State Ω → List (List String) → Dispatched Ω
  | st, [] => .finished st
  | st, layer :: layers =>
    let events := layer.filter (· ∉ skipList)
    match gather hooks st events with
    | none => .raised st events
    | some calls =>
      executeLayers hooks next skipList ⟨calls.foldl (give next) st.nextArgs, st.calls ++ calls⟩ layers

/-- `dispatch_events`; none where the events have no order. -/
def EventDispatcher.dispatchEvents (nx : GenerationFunction String) (hooks : Behaviour Ω)
    (d : EventDispatcher) (nextArgs : String → Dict String Ω) : Option (Dispatched Ω) :=
  (nx.generations d.graph).map (executeLayers hooks d.nextMap d.skipList ⟨nextArgs, []⟩)

end Dispatching

/-! ## 1. What an event is given -/

section Given

variable {Ω : Type} {next : String → List String} {skipList : List String} {hooks : Behaviour Ω}
  {nextArgs : String → Dict String Ω} {calls calls' : List (Call Ω)} {name : String} {st : State Ω}

/-- What an event was given at first, updated by the results of the calls it comes next to. -/
def given (next : String → List String) (nextArgs : String → Dict String Ω) (calls : List (Call Ω))
    (name : String) : Dict String Ω :=
  calls.foldl (fun args c => if name ∈ next c.event then args.update c.result else args) (nextArgs name)

theorem given_append : given next nextArgs (calls ++ calls') name =
    given next (given next nextArgs calls) calls' name := by
  rw [given, List.foldl_append]
  rfl

/-- Calls that an event does not come next to give it nothing. -/
theorem given_of_not_mem (h : ∀ c ∈ calls, name ∉ next c.event) : given next nextArgs calls name = nextArgs name := by
  unfold given
  generalize nextArgs name = args
  induction calls with
  | nil => rfl
  | cons c calls ih =>
    rw [List.foldl_cons, if_neg (h c List.mem_cons_self)]
    exact ih fun c' hc' => h c' (List.mem_cons_of_mem c hc')

theorem give_apply (c : Call Ω) : give next nextArgs c name =
    if name ∈ next c.event then (nextArgs name).update c.result else nextArgs name := by
  unfold give
  generalize next c.event = names
  induction names generalizing nextArgs with
  | nil => rfl
  | cons n names ih =>
    rw [List.foldl_cons, ih]
    rcases eq_or_ne name n with rfl | hne
    · rw [Function.update_self, if_pos List.mem_cons_self]
      split
      case isTrue => exact Dict.update_update _ _
      case isFalse => rfl
    · rw [Function.update_of_ne hne]
      simp [hne]

theorem foldl_give : calls.foldl (give next) nextArgs = given next nextArgs calls := by
  induction calls generalizing nextArgs with
  | nil => rfl
  | cons c calls ih =>
    rw [List.foldl_cons, ih]
    funext name
    rw [given, given, List.foldl_cons, give_apply]

theorem gather_eq_some {layer : List String} (h : gather hooks st layer = some calls) :
    calls.map Call.event = layer ∧ ∀ c ∈ calls, c.args = st.nextArgs c.event ∧
      hooks st.calls c.event c.args = some c.result := by
  induction layer generalizing calls with
  | nil =>
    cases h
    exact ⟨rfl, List.forall_mem_nil _⟩
  | cons name layer ih =>
    rw [gather, List.mapM_cons] at h
    obtain ⟨c, hc, h⟩ := Option.bind_eq_some_iff.mp h
    obtain ⟨rest, hrest, heq⟩ := Option.bind_eq_some_iff.mp h
    cases heq
    obtain ⟨result, hresult, rfl⟩ := Option.map_eq_some_iff.mp hc
    obtain ⟨hnames, hcalls⟩ := ih hrest
    exact ⟨by rw [List.map_cons, hnames], List.forall_mem_cons.mpr ⟨⟨rfl, hresult⟩, hcalls⟩⟩

theorem gather_eq_none {layer : List String} (h : gather hooks st layer = none) :
    ∃ name ∈ layer, hooks st.calls name (st.nextArgs name) = none := by
  induction layer with
  | nil => cases h
  | cons name layer ih =>
    rw [gather, List.mapM_cons] at h
    cases hc : hooks st.calls name (st.nextArgs name) with
    | none => exact ⟨name, List.mem_cons_self, hc⟩
    | some result =>
      rw [hc] at h
      cases hrest : gather hooks st layer with
      | none =>
        obtain ⟨name', hmem, hnone⟩ := ih hrest
        exact ⟨name', List.mem_cons_of_mem name hmem, hnone⟩
      | some rest =>
        rw [gather] at hrest
        rw [hrest] at h
        cases h

end Given

/-! ## 2. Layer by layer -/

section Layers

variable {Ω : Type} {next : String → List String} {skipList : List String} {hooks : Behaviour Ω}
  {nextArgs : String → Dict String Ω} {calls : List (Call Ω)} {st st' : State Ω}
  {done left layers : List (List String)}

/-- No event of a layer comes next to one of the layer, or of a later one. -/
structure Ordered (next : String → List String) (layers : List (List String)) : Prop where
  pairwise : layers.Pairwise fun layer later => ∀ a ∈ layer, ∀ b ∈ later, a ∉ next b
  level : ∀ layer ∈ layers, ∀ a ∈ layer, ∀ b ∈ layer, a ∉ next b

/-- Each call is with what the event was given, and returns what the hook does. -/
structure Consistent (next : String → List String) (hooks : Behaviour Ω)
    (nextArgs : String → Dict String Ω) (calls : List (Call Ω)) : Prop where
  args : ∀ c ∈ calls, c.args = given next nextArgs calls c.event
  result : ∀ c ∈ calls, ∃ earlier later, calls = earlier ++ later ∧ c ∈ later ∧
    hooks earlier c.event c.args = some c.result
  after : calls.Pairwise fun c later => c.event ∉ next later.event

/-- Where a dispatch is when these layers are done. -/
structure At (next : String → List String) (skipList : List String) (hooks : Behaviour Ω)
    (nextArgs : String → Dict String Ω) (done : List (List String)) (st : State Ω) : Prop where
  consistent : Consistent next hooks nextArgs st.calls
  nextArgs : st.nextArgs = given next nextArgs st.calls
  events : st.calls.map Call.event = done.flatten.filter (· ∉ skipList)

variable (next skipList hooks nextArgs) in
theorem at_start : At next skipList hooks nextArgs [] ⟨nextArgs, []⟩ where
  consistent := ⟨List.forall_mem_nil _, List.forall_mem_nil _, .nil⟩
  nextArgs := rfl
  events := rfl

theorem At.mem_flatten {c : Call Ω} (h : At next skipList hooks nextArgs done st) (hc : c ∈ st.calls) :
    c.event ∈ done.flatten := by
  have hmem : c.event ∈ st.calls.map Call.event := List.mem_map_of_mem hc
  rw [h.events] at hmem
  exact (List.mem_filter.mp hmem).1

/-- **A layer is called** with what its events have been given by then. -/
theorem At.callLayer {layer : List String} (h : At next skipList hooks nextArgs done st)
    (hlevel : ∀ a ∈ layer, ∀ b ∈ layer, a ∉ next b)
    (hearlier : ∀ a ∈ done.flatten, ∀ b ∈ layer, a ∉ next b)
    (hgather : gather hooks st (layer.filter (· ∉ skipList)) = some calls) :
    At next skipList hooks nextArgs (done ++ [layer]) ⟨calls.foldl (give next) st.nextArgs, st.calls ++ calls⟩ := by
  obtain ⟨hnames, hcalls⟩ := gather_eq_some hgather
  have hlayer : ∀ c ∈ calls, c.event ∈ layer := by
    intro c hc
    have hmem : c.event ∈ calls.map Call.event := List.mem_map_of_mem hc
    rw [hnames] at hmem
    exact (List.mem_filter.mp hmem).1
  -- the new calls give nothing to the events that have been called
  have hnothing : ∀ c ∈ st.calls ++ calls, given next (given next nextArgs st.calls) calls c.event =
      given next nextArgs st.calls c.event := by
    intro c hc
    refine given_of_not_mem fun c' hc' => ?_
    rcases List.mem_append.mp hc with hc | hc
    · exact hearlier _ (h.mem_flatten hc) _ (hlayer c' hc')
    · exact hlevel _ (hlayer c hc) _ (hlayer c' hc')
  refine ⟨⟨fun c hc => ?_, fun c hc => ?_, ?_⟩, ?_, ?_⟩
  · rw [given_append, hnothing c hc]
    rcases List.mem_append.mp hc with hc | hc
    · exact h.consistent.args c hc
    · rw [(hcalls c hc).1, h.nextArgs]
  · rcases List.mem_append.mp hc with hc | hc
    · obtain ⟨earlier, later, heq, hmem, hresult⟩ := h.consistent.result c hc
      refine ⟨earlier, later ++ calls, ?_, List.mem_append_left _ hmem, hresult⟩
      change st.calls ++ calls = _
      rw [heq, List.append_assoc]
    · exact ⟨st.calls, calls, rfl, hc, (hcalls c hc).2⟩
  · refine List.pairwise_append.mpr ⟨h.consistent.after, ?_, ?_⟩
    · refine List.pairwise_of_forall_mem_list fun c hc c' hc' => ?_
      exact hlevel _ (hlayer c hc) _ (hlayer c' hc')
    · exact fun c hc c' hc' => hearlier _ (h.mem_flatten hc) _ (hlayer c' hc')
  · rw [foldl_give, h.nextArgs]
    funext name
    exact given_append.symm
  · change (st.calls ++ calls).map Call.event = _
    rw [List.map_append, h.events, hnames, List.flatten_append, List.flatten_singleton, List.filter_append]

/-- The end of a dispatch over these layers: they are done, or a call of one of them raised. -/
def Ended (next : String → List String) (skipList : List String) (hooks : Behaviour Ω)
    (nextArgs : String → Dict String Ω) (layers : List (List String)) : Dispatched Ω → Prop
  | .finished st => At next skipList hooks nextArgs layers st
  | .raised st events => ∃ before layer after, layers = before ++ layer :: after ∧
      At next skipList hooks nextArgs before st ∧ events = layer.filter (· ∉ skipList) ∧
      ∃ name ∈ events, hooks st.calls name (st.nextArgs name) = none

/-- **A whole dispatch**, from the layers that are done on. -/
theorem At.run (h : At next skipList hooks nextArgs done st) (hordered : Ordered next (done ++ left)) :
    Ended next skipList hooks nextArgs (done ++ left) (executeLayers hooks next skipList st left) := by
  induction left generalizing done st with
  | nil =>
    rw [List.append_nil]
    exact h
  | cons layer left ih =>
    have hsame : done ++ layer :: left = (done ++ [layer]) ++ left := by
      rw [List.append_assoc, List.singleton_append]
    obtain ⟨-, -, hlater⟩ := List.pairwise_append.mp hordered.pairwise
    rw [executeLayers]
    cases hgather : gather hooks st (layer.filter (· ∉ skipList)) with
    | none => exact ⟨done, layer, left, rfl, h, rfl, gather_eq_none hgather⟩
    | some calls =>
      have hnext := h.callLayer (hordered.level layer (List.mem_append_right _ List.mem_cons_self))
        (fun a ha b hb => ?_) hgather
      · rw [hsame] at hordered ⊢
        exact ih hnext hordered
      · obtain ⟨l, hl, hal⟩ := List.mem_flatten.mp ha
        exact hlater l hl layer List.mem_cons_self a hal b hb

end Layers

/-! ## 3. The events of a dispatcher -/

/-- The dispatcher of these events. -/
def dispatcher (events : List Event) : EventDispatcher :=
  (events.foldl EventDispatcher.addEvent .init).assembleActionAndTaskSubgraphs.assembleExecutionGraph

/-- The events of a stage, which may be added more than once: those of one name are the same, and they lead
to one another. -/
structure Events where
  list : List Event
  unique : ∀ e ∈ list, ∀ e' ∈ list, e.eventName = e'.eventName → e = e'
  closed : ∀ e ∈ list, ∀ name ∈ e.nextMap, ∃ e' ∈ list, e'.eventName = name

namespace Events

variable (E : Events)

/-- One event comes next to another one. -/
def Leads (a b : String) : Prop := ∃ e ∈ E.list, e.eventName = a ∧ b ∈ e.nextMap

/-- The events that are not called: channels, actions, tasks, what an action or a task depends on, and
what depends on one. -/
def Skipped (name : String) : Prop :=
  ∃ e ∈ E.list, (e.eventName = name ∧ (e.eventType = .channel ∨ e.isActionOrTask ∨
      ∃ e' ∈ E.list, e'.isActionOrTask ∧ e'.eventName ∈ e.names)) ∨
    (e.isActionOrTask ∧ name ∈ e.names)

variable {E} {name a b : String}

theorem foldl_addEvent (l : List Event) (d : EventDispatcher) : l.foldl EventDispatcher.addEvent d = {
    eventsByName := (l.map fun e => (e.eventName, e)).foldl (fun d i => d.set i.1 i.2) d.eventsByName
    actionsAndTasks := ((l.filter Event.isActionOrTask).map fun e => (e.eventName, e)).foldl
      (fun d i => d.set i.1 i.2) d.actionsAndTasks
    skipList := d.skipList ++ (l.filter fun e => e.eventType = .channel).map Event.eventName
    graph := (l.map Event.eventName).foldl (fun G name => G.addNode name) d.graph } := by
  induction l generalizing d with
  | nil => simp
  | cons e l ih =>
    rw [List.foldl_cons, ih]
    by_cases haction : e.isActionOrTask <;> by_cases hchannel : e.eventType = .channel <;>
      simp [EventDispatcher.addEvent, haction, hchannel]

/-- The events are found under their names. -/
theorem get?_ofList {l : List Event} (h : ∀ e ∈ l, ∀ e' ∈ l, e.eventName = e'.eventName → e = e') {e : Event} :
    (Dict.ofList (l.map fun e => (e.eventName, e))).get? name = some e ↔ e ∈ l ∧ e.eventName = name := by
  have hmem : ∀ {e}, (Dict.ofList (l.map fun e => (e.eventName, e))).get? name = some e →
      e ∈ l ∧ e.eventName = name := by
    intro e he
    obtain ⟨e', he', heq⟩ := List.mem_map.mp (Dict.mem_of_get?_ofList he)
    obtain ⟨rfl, rfl⟩ := Prod.mk.inj heq
    exact ⟨he', rfl⟩
  refine ⟨hmem, ?_⟩
  rintro ⟨he, rfl⟩
  have hsome : ((Dict.ofList (l.map fun e => (e.eventName, e))).get? e.eventName).isSome :=
    Dict.isSome_get?_foldl_set (Or.inl (List.mem_map.mpr ⟨_, List.mem_map_of_mem he, rfl⟩))
  obtain ⟨e', he'⟩ := Option.isSome_iff_exists.mp hsome
  obtain ⟨hl, hname⟩ := hmem he'
  rw [he', h e' hl e he hname]

theorem get?_eventsByName {e : Event} :
    (dispatcher E.list).eventsByName.get? name = some e ↔ e ∈ E.list ∧ e.eventName = name := by
  rw [dispatcher, foldl_addEvent]
  exact get?_ofList E.unique

theorem get?_actionsAndTasks {e : Event} : (dispatcher E.list).actionsAndTasks.get? name = some e ↔
    e ∈ E.list ∧ e.isActionOrTask ∧ e.eventName = name := by
  rw [dispatcher, foldl_addEvent]
  refine (get?_ofList fun e he e' he' => E.unique e (List.mem_filter.mp he).1 e' (List.mem_filter.mp he').1).trans ?_
  rw [List.mem_filter, and_assoc]

theorem mem_nextMap : b ∈ (dispatcher E.list).nextMap a ↔ E.Leads a b := by
  rw [EventDispatcher.nextMap, Leads]
  constructor
  · intro hb
    cases h : (dispatcher E.list).eventsByName.get? a with
    | none =>
      rw [h] at hb
      cases hb
    | some e =>
      rw [h] at hb
      obtain ⟨he, hname⟩ := get?_eventsByName.mp h
      exact ⟨e, he, hname, hb⟩
  · rintro ⟨e, he, hname, hb⟩
    rw [get?_eventsByName.mpr ⟨he, hname⟩]
    exact hb

theorem mem_items_eventsByName {i : String × Event} :
    i ∈ (dispatcher E.list).eventsByName.items ↔ i.2 ∈ E.list ∧ i.2.eventName = i.1 := by
  obtain ⟨k, e⟩ := i
  rw [Dict.mem_items_iff, get?_eventsByName]

theorem mem_items_actionsAndTasks {i : String × Event} :
    i ∈ (dispatcher E.list).actionsAndTasks.items ↔ i.2 ∈ E.list ∧ i.2.isActionOrTask ∧ i.2.eventName = i.1 := by
  obtain ⟨k, e⟩ := i
  rw [Dict.mem_items_iff, get?_actionsAndTasks]

theorem mem_values : ∀ e, e ∈ (dispatcher E.list).eventsByName.values ↔ e ∈ E.list := by
  intro e
  rw [Dict.mem_values_iff]
  constructor
  · rintro ⟨k, hk⟩
    exact (get?_eventsByName.mp hk).1
  · exact fun he => ⟨e.eventName, get?_eventsByName.mpr ⟨he, rfl⟩⟩

theorem edge_iff : (dispatcher E.list).graph.Edge a b ↔ E.Leads a b := by
  change (((dispatcher E.list).eventsByName.values.flatMap fun e => e.nextMap.map fun target =>
    (e.eventName, target)).foldl (fun G e => G.addEdge e) (E.list.foldl EventDispatcher.addEvent .init).graph).Edge
      a b ↔ _
  rw [DiGraph.edge_foldl_addEdge, foldl_addEvent, DiGraph.edge_foldl_addNode, Leads]
  refine (or_iff_right List.not_mem_nil).trans ?_
  simp only [List.mem_flatMap, List.mem_map, mem_values, Prod.mk.injEq]
  constructor
  · rintro ⟨e, he, target, htarget, hname, rfl⟩
    exact ⟨e, he, hname, htarget⟩
  · rintro ⟨e, he, hname, hb⟩
    exact ⟨e, he, b, hb, hname, rfl⟩

theorem mem_nodes_iff : name ∈ (dispatcher E.list).graph.nodes ↔ ∃ e ∈ E.list, e.eventName = name := by
  have hnames : ∀ name, name ∈ (E.list.foldl EventDispatcher.addEvent .init).graph.nodes ↔
      ∃ e ∈ E.list, e.eventName = name := by
    intro name
    rw [foldl_addEvent]
    refine DiGraph.mem_nodes_foldl_addNode.trans ((or_iff_right List.not_mem_nil).trans ?_)
    exact List.mem_map
  change name ∈ (((dispatcher E.list).eventsByName.values.flatMap fun e => e.nextMap.map fun target =>
    (e.eventName, target)).foldl (fun G e => G.addEdge e)
      (E.list.foldl EventDispatcher.addEvent .init).graph).nodes ↔ _
  rw [DiGraph.mem_nodes_foldl_addEdge, hnames]
  intro x hx
  obtain ⟨e, he, hx⟩ := List.mem_flatMap.mp hx
  obtain ⟨target, htarget, rfl⟩ := List.mem_map.mp hx
  have he := (mem_values e).mp he
  exact ⟨(hnames _).mpr ⟨e, he, rfl⟩, (hnames _).mpr (E.closed e he target htarget)⟩

theorem mem_skipList_iff : name ∈ (dispatcher E.list).skipList ↔ E.Skipped name := by
  change name ∈ (E.list.foldl EventDispatcher.addEvent .init).skipList ++
    ((dispatcher E.list).actionsAndTasks.items.flatMap fun i => i.1 :: i.2.names) ++
    ((dispatcher E.list).eventsByName.items.flatMap fun i =>
      (i.2.names.filter fun name => ((dispatcher E.list).actionsAndTasks.get? name).isSome).map fun _ => i.1) ↔ _
  have haction : ∀ n, ((dispatcher E.list).actionsAndTasks.get? n).isSome = true ↔
      ∃ e ∈ E.list, e.isActionOrTask ∧ e.eventName = n := by
    intro n
    rw [Option.isSome_iff_exists]
    simp only [get?_actionsAndTasks]
  rw [foldl_addEvent]
  simp only [EventDispatcher.init, List.nil_append, List.mem_append, List.mem_map, List.mem_filter,
    List.mem_flatMap, mem_items_actionsAndTasks, mem_items_eventsByName, haction, decide_eq_true_eq,
    List.mem_cons, Skipped]
  constructor
  · rintro ((⟨e, ⟨he, hchannel⟩, rfl⟩ | ⟨⟨k, e⟩, ⟨he, hact, hk⟩, hname | hmem⟩) |
      ⟨⟨k, e⟩, ⟨he, hk⟩, n, ⟨hn, e', he', hact, rfl⟩, hname⟩)
    · exact ⟨e, he, Or.inl ⟨rfl, Or.inl hchannel⟩⟩
    · exact ⟨e, he, Or.inl ⟨hk.trans hname.symm, Or.inr (Or.inl hact)⟩⟩
    · exact ⟨e, he, Or.inr ⟨hact, hmem⟩⟩
    · exact ⟨e, he, Or.inl ⟨hk.trans hname, Or.inr (Or.inr ⟨e', he', hact, hn⟩)⟩⟩
  · rintro ⟨e, he, ⟨rfl, hchannel | hact | ⟨e', he', hact, hn⟩⟩ | ⟨hact, hmem⟩⟩
    · exact Or.inl (Or.inl ⟨e, ⟨he, hchannel⟩, rfl⟩)
    · exact Or.inl (Or.inr ⟨(e.eventName, e), ⟨he, hact, rfl⟩, Or.inl rfl⟩)
    · exact Or.inr ⟨(e.eventName, e), ⟨he, rfl⟩, e'.eventName, ⟨hn, e', he', hact, rfl⟩, rfl⟩
    · exact Or.inl (Or.inr ⟨(e.eventName, e), ⟨he, hact, rfl⟩, Or.inr hmem⟩)

end Events

/-! ## 4. A dispatch -/

section Run

variable {nx : GenerationFunction String} {E : Events} {layers : List (List String)}

theorem ordered_of_generations (h : Generations (dispatcher E.list).graph layers) :
    Ordered (dispatcher E.list).nextMap layers := by
  have hget : ∀ {layer a}, a ∈ layer → ∀ i (hi : i < layers.length), layer = layers[i] →
      a ∈ layers.getD i [] := by
    rintro layer a ha i hi rfl
    rwa [List.getD_eq_getElem _ _ hi]
  constructor
  · refine List.pairwise_iff_getElem.mpr fun i j hi hj hij a ha b hb hnext => ?_
    have hlt := h.lt_of_edge (Events.edge_iff.mpr (Events.mem_nextMap.mp hnext)) (hget hb j hj rfl)
      (hget ha i hi rfl)
    exact (hij.trans hlt).false
  · intro layer hlayer a ha b hb hnext
    obtain ⟨i, hi, rfl⟩ := List.getElem_of_mem hlayer
    exact (h.lt_of_edge (Events.edge_iff.mpr (Events.mem_nextMap.mp hnext)) (hget hb i hi rfl)
      (hget ha i hi rfl)).false

/-- What comes after an event is not in its layer, nor in an earlier one. -/
theorem not_later {before after : List (List String)} {layer : List String} {name later : String}
    (h : Generations (dispatcher E.list).graph layers) (hsplit : layers = before ++ layer :: after)
    (hname : name ∈ layer) (hlater : Relation.TransGen E.Leads name later) :
    later ∉ (before ++ [layer]).flatten := by
  intro hmem
  obtain ⟨l, hl, hlaterMem⟩ := List.mem_flatten.mp hmem
  obtain ⟨j, hj, rfl⟩ := List.getElem_of_mem hl
  have hlayers_eq : layers = (before ++ [layer]) ++ after := by
    rw [hsplit, List.append_assoc, List.singleton_append]
  have hedge : E.Leads = (dispatcher E.list).graph.Edge := by
    funext a b
    exact propext Events.edge_iff.symm
  rw [hedge] at hlater
  have hlt : before.length < j := by
    refine h.lt_of_transGen hlater ?_ ?_
    · rw [hsplit, List.getD_append_right _ _ _ _ le_rfl, Nat.sub_self]
      exact hname
    · rwa [hlayers_eq, List.getD_append _ _ _ _ hj, List.getD_eq_getElem _ _ hj]
  rw [List.length_append, List.length_singleton] at hj
  omega

end Run

/-- What was called in a dispatch.  What is called was given the results of what it comes next to, and
comes after it.  Where the dispatch finishes, each event has been called once, but for those that are
skipped.  Where a call raises, nothing that comes after an event of its layer has been called. -/
def Proper {Ω : Type} (E : Events) (hooks : Behaviour Ω) (nextArgs : String → Dict String Ω) :
    Dispatched Ω → Prop
  | .finished st => Consistent (dispatcher E.list).nextMap hooks nextArgs st.calls ∧
      (st.calls.map Call.event).Nodup ∧
      ∀ name, (∃ c ∈ st.calls, c.event = name) ↔ (∃ e ∈ E.list, e.eventName = name) ∧ ¬ E.Skipped name
  | .raised st events => Consistent (dispatcher E.list).nextMap hooks nextArgs st.calls ∧
      (st.calls.map Call.event ++ events).Nodup ∧
      (∃ name ∈ events, hooks st.calls name (st.nextArgs name) = none) ∧
      ∀ name ∈ events, ∀ later, Relation.TransGen E.Leads name later →
        later ∉ st.calls.map Call.event ++ events

/-- **Every dispatch is proper**, with any hooks, and with anything that the events were given before. -/
theorem dispatch_proper {Ω : Type} (nx : GenerationFunction String) (E : Events) (hooks : Behaviour Ω)
    (nextArgs : String → Dict String Ω) (r : Dispatched Ω)
    (h : (dispatcher E.list).dispatchEvents nx hooks nextArgs = some r) : Proper E hooks nextArgs r := by
  obtain ⟨layers, hlayers, hr⟩ := Option.map_eq_some_iff.mp h
  have hgens := nx.spec hlayers
  have hended := (at_start (dispatcher E.list).nextMap (dispatcher E.list).skipList hooks nextArgs).run
    (ordered_of_generations hgens)
  rw [List.nil_append, hr] at hended
  cases r with
  | finished st =>
    refine ⟨hended.consistent, ?_, fun name => ?_⟩
    · rw [hended.events]
      exact hgens.nodup_flatten.filter _
    · rw [← List.mem_map, hended.events, List.mem_filter, hgens.mem_flatten, Events.mem_nodes_iff,
        decide_eq_true_eq, Events.mem_skipList_iff]
  | raised st events =>
    obtain ⟨before, layer, after, hsplit, hat, hevents, hraised⟩ := hended
    have hcalled : st.calls.map Call.event ++ events =
        (before ++ [layer]).flatten.filter (· ∉ (dispatcher E.list).skipList) := by
      rw [hat.events, hevents, List.flatten_append, List.flatten_singleton, List.filter_append]
    have hlayers_eq : layers = (before ++ [layer]) ++ after := by
      rw [hsplit, List.append_assoc, List.singleton_append]
    refine ⟨hat.consistent, ?_, hraised, fun name hname later hlater hmem => ?_⟩
    · have hnodup := hgens.nodup_flatten
      rw [hlayers_eq, List.flatten_append] at hnodup
      rw [hcalled]
      exact (List.nodup_append.mp hnodup).1.filter _
    · rw [hcalled] at hmem
      rw [hevents] at hname
      exact not_later hgens hsplit (List.mem_filter.mp hname).1 hlater (List.mem_filter.mp hmem).1

/-- A check of what is loaded and of what is made of it, besides an action and a metric. -/
def checkedEvents : List Event :=
  [⟨"load", .load, [], ["transform", "check"]⟩, ⟨"transform", .transform, ["load"], ["check"]⟩,
    ⟨"check", .check, ["load", "transform"], []⟩, ⟨"action", .action, [], []⟩, ⟨"metric", .metric, [], []⟩]

theorem unique_checked : ∀ e ∈ checkedEvents, ∀ e' ∈ checkedEvents, e.eventName = e'.eventName → e = e' := by
  decide

theorem closed_checked : ∀ e ∈ checkedEvents, ∀ name ∈ e.nextMap, ∃ e' ∈ checkedEvents, e'.eventName = name := by
  decide

def checked : Events := ⟨checkedEvents, unique_checked, closed_checked⟩

def Dispatched.called {Ω : Type} : Dispatched Ω → List String
  | .finished st => st.calls.map Call.event
  | .raised st events => st.calls.map Call.event ++ events

/-- The calls that have returned, with the names of what they were given. -/
def Dispatched.arguments {Ω : Type} : Dispatched Ω → List (String × List String)
  | .finished st => st.calls.map fun c => (c.event, c.args.keys)
  | .raised st _ => st.calls.map fun c => (c.event, c.args.keys)

/-- The check is given the results of both, and the action is not called. -/
theorem dispatch_checked : ∃ r : Dispatched Unit,
    r.arguments = [("load", []), ("metric", []), ("transform", ["load"]), ("check", ["load", "transform"])] ∧
      Proper checked (fun _ name args => some (args.set name ())) (fun _ => .empty) r := by
  have harguments : ((dispatcher checked.list).dispatchEvents DiGraph.generationFunction
      (fun _ name args => some (args.set name ())) (fun _ => (.empty : Dict String Unit))).map
        Dispatched.arguments = some [("load", []), ("metric", []), ("transform", ["load"]),
          ("check", ["load", "transform"])] := by decide +kernel
  obtain ⟨r, hr, hnames⟩ := Option.map_eq_some_iff.mp harguments
  exact ⟨r, hnames, dispatch_proper DiGraph.generationFunction checked _ _ r hr⟩

end Dispatch
end Hooks
end Hedra
