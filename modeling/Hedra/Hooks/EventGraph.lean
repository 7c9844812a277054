/-
# The graph of the events

A hook names the hooks that it comes after, by their names or, within its stage, by their short
names.  `EventGraph` (`core/hooks/types/base/event_graph.py`) makes an event of each hook, with an
edge from each hook to those that name it, and adds to the dispatcher of a stage its events and
whatever they lead to, of whatever stage.

So the events of a dispatcher lead to one another as the hooks name one another, and what is proved of a
dispatch in `Hooks/Dispatch.lean` is about the hooks as they are written.

* `isSome_eventGraph_iff`: where the graph is made;
* `mem_added`: what the dispatcher of a stage is given;
* `dispatch_hooks`: every dispatch of that is proper, in the terms of the hooks.
-/
import Hedra.Hooks.Dispatch
import Hedra.Lib.Layers

namespace Hedra
namespace Hooks

open Lib Dispatch
open Relation (ReflTransGen)

/-! ## 1. Hooks -/

inductive HookType
  | action
  | channel
  | check
  | condition
  | context
  | event
  | internal
  | load
  | metric
  | save
  | task
  | transform
deriving DecidableEq

/-- `get_event` -/
def HookType.eventType : HookType → EventType
  | .action => .action
  | .channel => .channel
  | .check => .check
  | .condition => .condition
  | .context => .context
  | .event | .internal => .event
  | .load => .load
  | .metric => .metric
  | .save => .save
  | .task => .task
  | .transform => .transform

structure Hook where
  name : String
  shortname : String
  stage : String
  hookType : HookType
  names : List String
deriving DecidableEq

/-- `hooks_by_type`, in its order.  The name of a hook is that of a method of a stage. -/
structure HooksByType where
  list : List Hook
  nodup : (list.map Hook.name).Nodup

namespace HooksByType

variable (H : HooksByType)

def hooksByName : Dict String Hook := Dict.ofList (H.list.map fun h => (h.name, h))

def hooksByShortname : Dict (String × String) Hook := Dict.ofList (H.list.map fun h => ((h.stage, h.shortname), h))

/-- The types of `event_hooks`, in this order. -/
def eventHookTypes : List HookType :=
  [.action, .channel, .check, .condition, .context, .event, .load, .metric, .save, .task, .transform]

def eventHooks : List Hook := eventHookTypes.flatMap fun t => H.list.filter fun h => h.hookType = t

/-- The hook that is meant by a name. -/
def target (h : Hook) (name : String) : Option Hook :=
  (H.hooksByName.get? name).or (H.hooksByShortname.get? (h.stage, name))

/-- The hook with the names of its targets.  There is none where a target is not found, which raises, and
where one is internal: that has no names, which raises when its dispatcher is assembled. -/
def resolve (h : Hook) : Option Hook :=
  (h.names.mapM fun name =>
    (H.target h name).bind fun t => if t.hookType = .internal then none else some t.name).map
      fun names => { h with names }

end HooksByType

/-! ## 2. The graph -/

/-- The event hooks, with the names of their targets, and the names of the events in the order in which they
have been made. -/
structure EventGraph where
  hooks : List Hook
  events : List String
  graph : DiGraph String

/-- `hooks_to_events`: the target of a hook comes before the hook. -/
def hooksToEvents (hooks : List Hook) : List String :=
  hooks.foldl (fun events h => (h.names.flatMap (fun name => [name, h.name]) ++ [h.name]).foldl appendNew events) []

/-- `assemble_graph` -/
def assembleGraph (names : List String) (hooks : List Hook) : DiGraph String :=
  (hooks.flatMap fun h => h.names.map fun name => (name, h.name)).foldl (fun G e => G.addEdge e)
    (names.foldl (fun G name => G.addNode name) .empty)

/-- `EventGraph(hooks_by_type).hooks_to_events().assemble_graph()` -/
def HooksByType.eventGraph (H : HooksByType) : Option EventGraph :=
  (H.eventHooks.mapM H.resolve).map fun hooks =>
    { hooks, events := hooksToEvents hooks, graph := assembleGraph (H.list.map Hook.name) hooks }

namespace EventGraph

variable (L : LayerFunction String) (G : EventGraph)

/-- The event of a hook. -/
def eventOf (h : Hook) : Event := ⟨h.name, h.hookType.eventType, h.names, G.graph.neighbors h.name⟩

/-- `self.events.get(event_name)` -/
def get? (name : String) : Option Hook := G.hooks.find? fun h => h.name = name

/-- What `apply_graph_to_events` adds to the dispatcher of a stage: for each of its events the events of its
`execution_path`, and itself. -/
def added (stage : String) : List Event :=
  (((G.events.filterMap G.get?).filter fun h => h.stage = stage).flatMap fun h =>
    (L.layers G.graph h.name).flatten.filterMap G.get? ++ [h]).map G.eventOf

/-- The dispatcher of a stage. -/
def dispatcher (stage : String) : EventDispatcher := Dispatch.dispatcher (G.added L stage)

end EventGraph

/-! ## 3. What the hooks say -/

namespace HooksByType

variable (H : HooksByType)

/-- The hook `b` names the hook `a`. -/
def Names (a b : String) : Prop :=
  ∃ h ∈ H.list, h.hookType ≠ .internal ∧ h.name = b ∧ ∃ name ∈ h.names, ∃ t ∈ H.target h name, t.name = a

/-- A hook of the stage leads to the hook. -/
def InStage (stage name : String) : Prop :=
  ∃ h ∈ H.list, h.hookType ≠ .internal ∧ h.stage = stage ∧ ReflTransGen H.Names h.name name

/-- Every name that a hook gives is found, and is that of a hook that is not internal. -/
def Resolved : Prop :=
  ∀ h ∈ H.list, h.hookType ≠ .internal → ∀ name ∈ h.names, ∃ t ∈ H.target h name, t.hookType ≠ .internal

end HooksByType

/-! ## 4. Resolving the names -/

section MapM

variable {α β : Type} {f : α → Option β} {l : List α} {bs : List β} {b : β}

theorem mem_mapM_iff (h : l.mapM f = some bs) : b ∈ bs ↔ ∃ a ∈ l, f a = some b := by
  induction l generalizing bs with
  | nil =>
    cases h
    simp
  | cons a l ih =>
    rw [List.mapM_cons] at h
    obtain ⟨b', hb', h⟩ := Option.bind_eq_some_iff.mp h
    obtain ⟨bs', hbs', h⟩ := Option.bind_eq_some_iff.mp h
    cases h
    simp [ih hbs', hb', eq_comm]

theorem isSome_mapM : (l.mapM f).isSome ↔ ∀ a ∈ l, (f a).isSome := by
  induction l with
  | nil => simp
  | cons a l ih =>
    rw [List.mapM_cons, List.forall_mem_cons, ← ih]
    cases f a with
    | none => simp
    | some b => cases l.mapM f <;> simp

end MapM

namespace HooksByType

variable {H : HooksByType} {h h' t : Hook} {a b name stage : String}

theorem mem_eventHooks : h ∈ H.eventHooks ↔ h ∈ H.list ∧ h.hookType ≠ .internal := by
  obtain ⟨_, _, _, hookType, _⟩ := h
  cases hookType <;> simp [eventHooks, eventHookTypes]

theorem eq_of_name_eq (hh : h ∈ H.list) (hh' : h' ∈ H.list) (hname : h.name = h'.name) : h = h' :=
  List.inj_on_of_nodup_map H.nodup hh hh' hname

theorem mem_of_target (ht : H.target h name = some t) : t ∈ H.list := by
  rcases Option.or_eq_some_iff.mp ht with ht | ⟨-, ht⟩
  · obtain ⟨t', ht', heq⟩ := List.mem_map.mp (Dict.mem_of_get?_ofList ht)
    cases heq
    exact ht'
  · obtain ⟨t', ht', heq⟩ := List.mem_map.mp (Dict.mem_of_get?_ofList ht)
    obtain ⟨-, rfl⟩ := Prod.mk.inj heq
    exact ht'

theorem isSome_resolve : (H.resolve h).isSome ↔
    ∀ name ∈ h.names, ∃ t ∈ H.target h name, t.hookType ≠ .internal := by
  rw [resolve, Option.isSome_map, isSome_mapM]
  refine forall_congr' fun name => forall_congr' fun _ => ?_
  cases H.target h name with
  | none => simp
  | some t => by_cases ht : t.hookType = .internal <;> simp [ht]

/-- A hook that is resolved is the same but for its names, which are those of the hooks that are meant. -/
theorem resolve_eq_some (hr : H.resolve h = some h') :
    h'.name = h.name ∧ h'.stage = h.stage ∧ h'.hookType = h.hookType ∧
      ∀ a, a ∈ h'.names ↔ ∃ name ∈ h.names, ∃ t ∈ H.target h name, t.name = a := by
  have htargets := isSome_resolve.mp (Option.isSome_of_eq_some hr)
  obtain ⟨names, hnames, rfl⟩ := Option.map_eq_some_iff.mp hr
  refine ⟨rfl, rfl, rfl, fun a => (mem_mapM_iff hnames).trans ?_⟩
  refine exists_congr fun name => and_congr_right fun hname => ?_
  obtain ⟨t, ht, htype⟩ := htargets name hname
  rw [Option.mem_def] at ht
  simp [ht, htype]

/-- **The graph is made** exactly where every name is found, and is that of a hook that is not internal. -/
theorem isSome_eventGraph_iff : H.eventGraph.isSome ↔ H.Resolved := by
  rw [eventGraph, Option.isSome_map, isSome_mapM]
  simp only [mem_eventHooks, isSome_resolve, and_imp, Resolved]

end HooksByType

/-! ## 5. The events of a stage -/

section Graph

variable {H : HooksByType} {G : EventGraph} {L : LayerFunction String} {h h' : Hook} {a b name stage : String}

theorem mem_hooks (hG : H.eventGraph = some G) : h' ∈ G.hooks ↔ ∃ h ∈ H.list, h.hookType ≠ .internal ∧
    H.resolve h = some h' := by
  obtain ⟨hooks, hhooks, rfl⟩ := Option.map_eq_some_iff.mp hG
  refine (mem_mapM_iff hhooks).trans (exists_congr fun h => ?_)
  rw [HooksByType.mem_eventHooks, and_assoc]

/-- A resolved hook, and the hook as it is written. -/
theorem exists_hook (hG : H.eventGraph = some G) (hh' : h' ∈ G.hooks) :
    ∃ h ∈ H.list, h.hookType ≠ .internal ∧ h'.name = h.name ∧ h'.stage = h.stage ∧ h'.hookType = h.hookType ∧
      ∀ a, a ∈ h'.names ↔ ∃ name ∈ h.names, ∃ t ∈ H.target h name, t.name = a := by
  obtain ⟨h, hh, htype, hr⟩ := (mem_hooks hG).mp hh'
  exact ⟨h, hh, htype, HooksByType.resolve_eq_some hr⟩

theorem mem_names_iff (hG : H.eventGraph = some G) (hh' : h' ∈ G.hooks) : a ∈ h'.names ↔ H.Names a h'.name := by
  obtain ⟨h, hh, htype, hname, -, -, hnames⟩ := exists_hook hG hh'
  rw [hnames, hname]
  constructor
  · rintro ⟨name, hmem, t, ht, rfl⟩
    exact ⟨h, hh, htype, rfl, name, hmem, t, ht, rfl⟩
  · rintro ⟨h₂, hh₂, -, heq, hrest⟩
    rwa [HooksByType.eq_of_name_eq hh₂ hh heq] at hrest

/-- Each hook that is not internal is resolved. -/
theorem exists_resolved (hG : H.eventGraph = some G) (hh : h ∈ H.list) (htype : h.hookType ≠ .internal) :
    ∃ h' ∈ G.hooks, h'.name = h.name ∧ h'.stage = h.stage := by
  have hresolved := HooksByType.isSome_eventGraph_iff.mp (Option.isSome_of_eq_some hG)
  obtain ⟨h', hr⟩ := Option.isSome_iff_exists.mp (HooksByType.isSome_resolve.mpr (hresolved h hh htype))
  obtain ⟨hname, hstage, -⟩ := HooksByType.resolve_eq_some hr
  exact ⟨h', (mem_hooks hG).mpr ⟨h, hh, htype, hr⟩, hname, hstage⟩

/-- What comes before a hook, or after it, is a hook of the graph. -/
theorem exists_of_names (hG : H.eventGraph = some G) (hab : H.Names a b) :
    (∃ h ∈ G.hooks, h.name = a) ∧ ∃ h ∈ G.hooks, h.name = b ∧ a ∈ h.names := by
  have hresolved := HooksByType.isSome_eventGraph_iff.mp (Option.isSome_of_eq_some hG)
  have hab' := hab
  obtain ⟨h, hh, htype, rfl, name, hmem, t, ht, rfl⟩ := hab
  constructor
  · obtain ⟨t', ht', htype'⟩ := hresolved h hh htype name hmem
    rw [Option.mem_unique ht ht']
    obtain ⟨h', hh', hname, -⟩ := exists_resolved hG (HooksByType.mem_of_target ht') htype'
    exact ⟨h', hh', hname⟩
  · obtain ⟨h', hh', hname, -⟩ := exists_resolved hG hh htype
    refine ⟨h', hh', hname, (mem_names_iff hG hh').mpr ?_⟩
    rwa [hname]

theorem get?_iff (hG : H.eventGraph = some G) : G.get? name = some h ↔ h ∈ G.hooks ∧ h.name = name := by
  have hmem : ∀ {h}, G.get? name = some h → h ∈ G.hooks ∧ h.name = name := fun hget =>
    ⟨List.mem_of_find?_eq_some hget, by simpa using List.find?_some hget⟩
  refine ⟨hmem, ?_⟩
  rintro ⟨hh, rfl⟩
  have hsome : (G.get? h.name).isSome := List.find?_isSome.mpr ⟨h, hh, by simp⟩
  obtain ⟨h₂, hget⟩ := Option.isSome_iff_exists.mp hsome
  obtain ⟨hh₂, hname⟩ := hmem hget
  -- hooks of one name are resolved from the same one
  obtain ⟨w, hw, -, hr⟩ := (mem_hooks hG).mp hh
  obtain ⟨w₂, hw₂, -, hr₂⟩ := (mem_hooks hG).mp hh₂
  have heq : w₂ = w := HooksByType.eq_of_name_eq hw₂ hw (by
    rw [← (HooksByType.resolve_eq_some hr).1, ← (HooksByType.resolve_eq_some hr₂).1, hname])
  rw [heq, hr] at hr₂
  rw [hget, hr₂]

theorem edge_iff (hG : H.eventGraph = some G) : G.graph.Edge a b ↔ H.Names a b := by
  have hgraph : G.graph = assembleGraph (H.list.map Hook.name) G.hooks := by
    obtain ⟨hooks, -, rfl⟩ := Option.map_eq_some_iff.mp hG
    rfl
  rw [hgraph, assembleGraph, DiGraph.edge_foldl_addEdge, DiGraph.edge_foldl_addNode]
  refine (or_iff_right List.not_mem_nil).trans ?_
  simp only [List.mem_flatMap, List.mem_map, Prod.mk.injEq]
  constructor
  · rintro ⟨h, hh, name, hname, rfl, rfl⟩
    exact (mem_names_iff hG hh).mp hname
  · intro hab
    obtain ⟨h, hh, hb, ha⟩ := (exists_of_names hG hab).2
    exact ⟨h, hh, a, ha, rfl, hb⟩

theorem mem_nodes (hG : H.eventGraph = some G) (hh : h ∈ H.list) : h.name ∈ G.graph.nodes := by
  have hgraph : G.graph = assembleGraph (H.list.map Hook.name) G.hooks := by
    obtain ⟨hooks, -, rfl⟩ := Option.map_eq_some_iff.mp hG
    rfl
  have hmem : h.name ∈ ((H.list.map Hook.name).foldl (fun G name => G.addNode name) DiGraph.empty).nodes :=
    DiGraph.mem_nodes_foldl_addNode.mpr (Or.inr (List.mem_map_of_mem hh))
  rw [hgraph, assembleGraph]
  exact DiGraph.subset_nodes_foldl_addEdge hmem

theorem mem_hooksToEvents {hooks : List Hook} :
    name ∈ hooksToEvents hooks ↔ ∃ h ∈ hooks, name = h.name ∨ name ∈ h.names := by
  have hfold : ∀ (hooks : List Hook) (events : List String),
      name ∈ hooks.foldl (fun events h => (h.names.flatMap (fun name => [name, h.name]) ++ [h.name]).foldl
        appendNew events) events ↔ name ∈ events ∨ ∃ h ∈ hooks, name = h.name ∨ name ∈ h.names := by
    intro hooks
    induction hooks with
    | nil => simp
    | cons h hooks ih =>
      intro events
      rw [List.foldl_cons, ih, mem_foldl_appendNew, or_assoc]
      simp only [List.mem_append, List.mem_flatMap, List.mem_cons, List.not_mem_nil, or_false, exists_eq_or_imp]
      refine or_congr_right (or_congr_left ?_)
      constructor
      · rintro (⟨n, hn, rfl | rfl⟩ | rfl)
        · exact Or.inr hn
        · exact Or.inl rfl
        · exact Or.inl rfl
      · rintro (rfl | hn)
        · exact Or.inr rfl
        · exact Or.inl ⟨name, hn, Or.inl rfl⟩
  rw [hooksToEvents, hfold, or_iff_right List.not_mem_nil]

theorem mem_events (hG : H.eventGraph = some G) : name ∈ G.events ↔ ∃ h ∈ G.hooks, h.name = name := by
  have hevents : G.events = hooksToEvents G.hooks := by
    obtain ⟨hooks, -, rfl⟩ := Option.map_eq_some_iff.mp hG
    rfl
  rw [hevents, mem_hooksToEvents]
  constructor
  · rintro ⟨h, hh, rfl | hname⟩
    · exact ⟨h, hh, rfl⟩
    · exact (exists_of_names hG ((mem_names_iff hG hh).mp hname)).1
  · rintro ⟨h, hh, rfl⟩
    exact ⟨h, hh, Or.inl rfl⟩

/-- **The events of a dispatcher** are those of the hooks that a hook of its stage leads to. -/
theorem mem_added (hG : H.eventGraph = some G) {e : Event} :
    e ∈ G.added L stage ↔ ∃ h ∈ G.hooks, H.InStage stage h.name ∧ G.eventOf h = e := by
  have hedge : G.graph.Edge = H.Names := by
    funext a b
    exact propext (edge_iff hG)
  simp only [EventGraph.added, List.mem_map, List.mem_flatMap, List.mem_filter, List.mem_filterMap,
    List.mem_append, List.mem_singleton, decide_eq_true_eq, get?_iff hG, mem_events hG]
  constructor
  · rintro ⟨h, ⟨s, ⟨⟨-, -, hs, rfl⟩, rfl⟩, hpath⟩, rfl⟩
    obtain ⟨w, hw, htype, hname, hstage, -, -⟩ := exists_hook hG hs
    rcases hpath with ⟨_, hreach, hh, rfl⟩ | rfl
    · rw [hname, L.spec (mem_nodes hG hw), hedge] at hreach
      exact ⟨h, hh, ⟨w, hw, htype, hstage.symm, hreach⟩, rfl⟩
    · exact ⟨h, hs, ⟨w, hw, htype, hstage.symm, hname ▸ .refl⟩, rfl⟩
  · rintro ⟨h, hh, ⟨w, hw, htype, rfl, hreach⟩, rfl⟩
    obtain ⟨s, hs, hname, hstage⟩ := exists_resolved hG hw htype
    refine ⟨h, ⟨s, ⟨⟨s.name, ⟨s, hs, rfl⟩, hs, rfl⟩, hstage⟩, Or.inl ⟨h.name, ?_, hh, rfl⟩⟩, rfl⟩
    rwa [hname, L.spec (mem_nodes hG hw), hedge]

theorem unique_added (hG : H.eventGraph = some G) : ∀ e ∈ G.added L stage, ∀ e' ∈ G.added L stage,
    e.eventName = e'.eventName → e = e' := by
  intro e he e' he' hname
  obtain ⟨h, hh, -, rfl⟩ := (mem_added hG).mp he
  obtain ⟨h', hh', -, rfl⟩ := (mem_added hG).mp he'
  have hget := (get?_iff hG).mpr ⟨hh, rfl⟩
  rw [show h.name = h'.name from hname, (get?_iff hG).mpr ⟨hh', rfl⟩] at hget
  rw [Option.some.inj hget]

theorem closed_added (hG : H.eventGraph = some G) : ∀ e ∈ G.added L stage, ∀ name ∈ e.nextMap,
    ∃ e' ∈ G.added L stage, e'.eventName = name := by
  intro e he name hname
  obtain ⟨h, hh, ⟨w, hw, htype, hstage, hreach⟩, rfl⟩ := (mem_added hG).mp he
  have hnames := (edge_iff hG).mp (DiGraph.mem_neighbors.mp hname)
  obtain ⟨h', hh', rfl, -⟩ := (exists_of_names hG hnames).2
  exact ⟨G.eventOf h', (mem_added hG).mpr ⟨h', hh', ⟨w, hw, htype, hstage, hreach.tail hnames⟩, rfl⟩, rfl⟩

end Graph

/-! ## 6. A dispatch -/

/-- The events are those of the hooks that a hook of the stage leads to, and they lead to one another as the
hooks name one another. -/
structure HooksByType.Describes (H : HooksByType) (stage : String) (E : Events) : Prop where
  events : ∀ name, (∃ e ∈ E.list, e.eventName = name) ↔ H.InStage stage name
  leads : ∀ a b, E.Leads a b ↔ H.InStage stage a ∧ H.Names a b
  hook : ∀ e ∈ E.list, ∃ h ∈ H.list, h.name = e.eventName ∧ h.hookType.eventType = e.eventType ∧
    ∀ a, a ∈ e.names ↔ H.Names a h.name

section Dispatch

variable {H : HooksByType} {G : EventGraph} {stage : String}

theorem exists_events (L : LayerFunction String) (hG : H.eventGraph = some G) (stage : String) :
    ∃ E : Events, E.list = G.added L stage ∧ H.Describes stage E := by
  have hname : ∀ a, (∃ e ∈ G.added L stage, e.eventName = a) ↔ H.InStage stage a := by
    intro a
    constructor
    · rintro ⟨e, he, rfl⟩
      obtain ⟨h, -, hin, rfl⟩ := (mem_added hG).mp he
      exact hin
    · intro hin
      have hmem : ∃ h ∈ G.hooks, h.name = a := by
        obtain ⟨w, hw, htype, -, hreach⟩ := hin
        rcases Relation.ReflTransGen.cases_tail hreach with rfl | ⟨b, -, hba⟩
        · obtain ⟨h, hh, hname, -⟩ := exists_resolved hG hw htype
          exact ⟨h, hh, hname⟩
        · obtain ⟨h, hh, hname, -⟩ := (exists_of_names hG hba).2
          exact ⟨h, hh, hname⟩
      obtain ⟨h, hh, rfl⟩ := hmem
      exact ⟨G.eventOf h, (mem_added hG).mpr ⟨h, hh, hin, rfl⟩, rfl⟩
  refine ⟨⟨G.added L stage, unique_added hG, closed_added hG⟩, rfl, hname, fun a b => ?_, fun e he => ?_⟩
  · rw [← hname]
    constructor
    · rintro ⟨e, he, rfl, hb⟩
      obtain ⟨h, -, -, rfl⟩ := (mem_added hG).mp he
      exact ⟨⟨_, he, rfl⟩, (edge_iff hG).mp (DiGraph.mem_neighbors.mp hb)⟩
    · rintro ⟨⟨e, he, rfl⟩, hab⟩
      refine ⟨e, he, rfl, ?_⟩
      obtain ⟨h, -, -, rfl⟩ := (mem_added hG).mp he
      exact DiGraph.mem_neighbors.mpr ((edge_iff hG).mpr hab)
  · obtain ⟨h', hh', -, rfl⟩ := (mem_added hG).mp he
    obtain ⟨h, hh, -, hname, -, htype, -⟩ := exists_hook hG hh'
    refine ⟨h, hh, hname.symm, by rw [← htype]; rfl, fun a => ?_⟩
    rw [← hname]
    exact mem_names_iff hG hh'

/-- **Every dispatch of a stage is proper**, of the hooks that a hook of the stage leads to, in the order in
which they name one another. -/
theorem dispatch_hooks {Ω : Type} (nx : GenerationFunction String) (L : LayerFunction String) (H : HooksByType)
    (G : EventGraph) (hG : H.eventGraph = some G) (stage : String) (hooks : Behaviour Ω)
    (nextArgs : String → Dict String Ω) (r : Dispatched Ω)
    (h : (G.dispatcher L stage).dispatchEvents nx hooks nextArgs = some r) :
    ∃ E : Events, E.list = G.added L stage ∧ H.Describes stage E ∧ Proper E hooks nextArgs r := by
  obtain ⟨E, hE, hdescribes⟩ := exists_events L hG stage
  refine ⟨E, hE, hdescribes, dispatch_proper nx E hooks nextArgs r ?_⟩
  rwa [hE]

/-- A hook of another stage comes after the session, which names its users within its own stage. -/
def sessionHooks : List Hook :=
  [⟨"Execute.session", "session", "Execute", .context, ["users"]⟩, ⟨"Execute.users", "users", "Execute", .load, []⟩,
    ⟨"Analyze.report", "report", "Analyze", .event, ["Execute.session"]⟩]

theorem nodup_session : (sessionHooks.map Hook.name).Nodup := by decide

def session : HooksByType := ⟨sessionHooks, nodup_session⟩

theorem dispatch_session : ∃ (E : Events) (r : Dispatched Unit),
    r.called = ["Execute.users", "Execute.session", "Analyze.report"] ∧ session.Describes "Execute" E ∧
      Proper E (fun _ _ args => some args) (fun _ => .empty) r := by
  have hcalled : (session.eventGraph.bind fun G =>
      (G.dispatcher DiGraph.layerFunction "Execute").dispatchEvents DiGraph.generationFunction
        (fun _ _ args => some args) (fun _ => (.empty : Dict String Unit))).map Dispatched.called =
          some ["Execute.users", "Execute.session", "Analyze.report"] := by decide +kernel
  obtain ⟨r, hr, hnames⟩ := Option.map_eq_some_iff.mp hcalled
  obtain ⟨G, hG, hr⟩ := Option.bind_eq_some_iff.mp hr
  obtain ⟨E, -, hE⟩ := dispatch_hooks DiGraph.generationFunction DiGraph.layerFunction session G hG "Execute"
    _ _ r hr
  exact ⟨E, r, hnames, hE⟩

end Dispatch

end Hooks
end Hedra
