/-
# Assembling a graph

`Graph.__init__` (`core/graphs/graph.py`) makes a graph of the stages of a module and of what they depend
on.  `assemble` puts an Idle stage before its first generation.  After the last generation it puts an
Analyze and a Submit stage, where the module has none of its own, and a Complete stage, each after the
one before it.  Then the transitions are made, generation by generation
(`core/graphs/transitions/transition_assembler.py`): the stages get their workers, and each edge has to be
one of the valid ones.

The graph that results is described in terms of the stages (`Assembled`): which there are, which edges,
and in which order they come.  From this it follows

* which modules are accepted (`build_iff_accepted`), by a condition on their stages and the CPUs alone;
* which stages lead to Complete (`leads_to_complete`);
* that what is built is a graph of stages, as the other modules have it (`stageGraph`).
-/
import Hedra.Graphs.Provisioning
import Hedra.Lib.Dict
import Hedra.Lib.Generations
import Hedra.Lib.Outcomes

namespace Hedra
namespace Graphs
namespace Assembly

open Lib Outcomes

/-- The class of a stage, as far as the graph reads it. -/
structure Stage where
  name : String
  stageType : StageType
  dependencies : List String
deriving DecidableEq

/-- What is raised. -/
inductive Error
  /-- `NetworkXUnfeasible` -/
  | unfeasible
  | indexError
  | isolatedStage (name : String)
  | provisioning (e : Provisioning.Error)
  | invalidTransition (fromStage toStage : String)
  | typeError
deriving DecidableEq

/-- The name of hedra's own class for stages of a type. -/
def className : StageType → String
  | .act => "Act"
  | .analyze => "Analyze"
  | .complete => "Complete"
  | .error => "Error"
  | .execute => "Execute"
  | .idle => "Idle"
  | .optimize => "Optimize"
  | .setup => "Setup"
  | .submit => "Submit"

/-- `allow_parallel`, which the classes of some types set. -/
def allowParallel : StageType → Bool
  | .analyze | .execute | .optimize => true
  | .act | .complete | .error | .idle | .setup | .submit => false

/-- `self.stage_types.get(stage_type)` -/
def stageClass (type : StageType) : Stage := ⟨className type, type, []⟩

structure Graph where
  graph : DiGraph String
  stages : Dict String Stage
  /-- How many classes of each type the module has. -/
  instances : StageType → ℕ
  executionOrder : List (List String)

section Networkx

variable (nx : GenerationFunction String) (cpus cpuCores : ℕ+)

/-- `networkx.topological_generations` -/
def topologicalGenerations (graph : DiGraph String) : Except Error (List (List String)) :=
  match nx.generations graph with
  | none => .error .unfeasible
  | some generations => .ok generations

/-- `self.stages` -/
def stagesByName (stages : List Stage) : Dict String Stage :=
  Dict.ofList (stages.map fun stage => (stage.name, stage))

/-- The edges to the stages from what they depend on, where that is a stage of the graph. -/
def dependencyEdges (names : List String) (stages : List Stage) : List (String × String) :=
  stages.flatMap fun stage =>
    (stage.dependencies.filter (· ∈ names)).map fun dependency => (dependency, stage.name)

def dependencyGraph (stages : List Stage) : DiGraph String :=
  let names := (stagesByName stages).keys
  (dependencyEdges names stages).foldl (fun G e => G.addEdge e)
    (names.foldl (fun G name => G.addNode name) .empty)

/-- `__init__` -/
def Graph.init (stages : List Stage) (instances : StageType → ℕ) : Except Error Graph := do
  let graph := dependencyGraph stages
  let executionOrder ← topologicalGenerations nx graph
  return { graph, stages := stagesByName stages, instances, executionOrder }

namespace Graph

/-- The end that `_append_stage` and `_prepend_stage` have in common. -/
def withStage (g : Graph) (stage : Stage) (edges : List (String × String)) : Except Error Graph := do
  let graph := edges.foldl (fun G e => G.addEdge e) (g.graph.addNode stage.name)
  let executionOrder ← topologicalGenerations nx graph
  return {
    graph
    stages := g.stages.set stage.name stage
    instances := Function.update g.instances stage.stageType (g.instances stage.stageType + 1)
    executionOrder }

/-- `_prepend_stage` -/
def prependStage (g : Graph) (type : StageType) : Except Error Graph :=
  match g.executionOrder.head? with
  | none => .error .indexError
  | some firstCut =>
    let prepended := stageClass type
    g.withStage nx prepended (firstCut.map fun name => (prepended.name, name))

/-- `_append_stage` -/
def appendStage (g : Graph) (type : StageType) : Except Error Graph :=
  match g.executionOrder.getLast? with
  | none => .error .indexError
  | some lastCut =>
    let appended := stageClass type
    g.withStage nx appended (lastCut.map fun name => (name, appended.name))

def typeOf (g : Graph) (name : String) : StageType := ((g.stages.get? name).map Stage.stageType).getD .error

/-- The transition of an edge. -/
def transition (g : Graph) (edge : String × String) : Except Error (String × String) :=
  if g.typeOf edge.2 ∈ localTransitions (g.typeOf edge.1) then .ok edge
  else .error (.invalidTransition edge.1 edge.2)

/-- The edges that leave the stages of a generation. -/
def edgesOf (g : Graph) (generation : List String) : List (String × String) :=
  generation.flatMap fun name => (g.graph.neighbors name).map fun neighbor => (name, neighbor)

/-- A stage, as it is provisioned. -/
def worker (g : Graph) (name : String) : Provisioning.Stage := ⟨name, g.typeOf name, allowParallel (g.typeOf name)⟩

theorem nodup_workers (g : Graph) (generation : List String) :
    ((generation.dedup.map g.worker).map Provisioning.Stage.name).Nodup := by
  rw [List.map_map]
  exact (List.map_id _).symm ▸ List.nodup_dedup generation

/-- The stages of a generation, by their names. -/
def workersOf (g : Graph) (generation : List String) : Provisioning.Generation :=
  ⟨generation.dedup.map g.worker, g.nodup_workers generation⟩

/-- The executors for a generation. -/
def provision (g : Graph) (generation : List String) : Except Error Unit :=
  match Provisioning.provision cpus cpuCores (g.workersOf generation) with
  | .ok _ => .ok ()
  | .error e => .error (.provisioning e)

/-- `build_transitions_graph` -/
def buildTransitionsGraph (g : Graph) : Except Error (List (List (String × String))) :=
  match g.graph.isolates.head? with
  | some name => .error (.isolatedStage name)
  | none => do
    let groups ← g.executionOrder.mapM fun generation => do
      g.provision cpus cpuCores generation
      (g.edgesOf generation).mapM g.transition
    return groups.filter (· ≠ [])

/-- `apply_config_to_load_hooks` goes through the Setup stages; no list of them is made where there are
none. -/
def applyConfigToLoadHooks (g : Graph) : Except Error Unit :=
  if g.stages.values.any (·.stageType = .setup) then .ok () else .error .typeError

/-- The stages that `assemble` appends. -/
def appendStages (g : Graph) : Except Error Graph := do
  let g ← (if g.instances .analyze < 1 then g.appendStage nx .analyze else pure g)
  let g ← (if g.instances .submit < 1 then g.appendStage nx .submit else pure g)
  g.appendStage nx .complete

/-- `assemble`, with the transitions -/
def assemble (g : Graph) : Except Error (Graph × List (List (String × String))) := do
  let g ← g.prependStage nx .idle
  let g ← g.appendStages nx
  let transitions ← g.buildTransitionsGraph cpus cpuCores
  g.applyConfigToLoadHooks
  return (g, transitions)

end Graph

/-- The graph of a module, assembled. -/
def build (stages : List Stage) (instances : StageType → ℕ) :
    Except Error (Graph × List (List (String × String))) := do
  let g ← Graph.init nx stages instances
  g.assemble nx cpus cpuCores

end Networkx

/-! ## 1. The graph of the dependencies -/

section Dependencies

variable {stages : List Stage} {a b v : String}

/-- One stage of a module depends on another one. -/
def Depends (stages : List Stage) (a b : String) : Prop :=
  (∃ s ∈ stages, s.name = a) ∧ ∃ s ∈ stages, s.name = b ∧ a ∈ s.dependencies

theorem mem_keys_stagesByName : v ∈ (stagesByName stages).keys ↔ ∃ s ∈ stages, s.name = v := by
  rw [Dict.mem_keys_iff, stagesByName]
  constructor
  · rintro ⟨s, hs⟩
    obtain ⟨x, hx, hxs⟩ := List.mem_map.mp (Dict.mem_of_get?_ofList hs)
    obtain ⟨rfl, rfl⟩ := Prod.mk.inj hxs
    exact ⟨x, hx, rfl⟩
  · rintro ⟨s, hs, rfl⟩
    refine Option.isSome_iff_exists.mp (Dict.isSome_get?_foldl_set (Or.inl ?_))
    exact List.mem_map.mpr ⟨_, List.mem_map.mpr ⟨s, hs, rfl⟩, rfl⟩

theorem mem_dependencyEdges {names : List String} :
    (a, b) ∈ dependencyEdges names stages ↔ a ∈ names ∧ ∃ s ∈ stages, s.name = b ∧ a ∈ s.dependencies := by
  simp only [dependencyEdges, List.mem_flatMap, List.mem_map, List.mem_filter, decide_eq_true_eq]
  constructor
  · rintro ⟨s, hs, d, ⟨hd, hnames⟩, heq⟩
    obtain ⟨rfl, rfl⟩ := Prod.mk.inj heq
    exact ⟨hnames, s, hs, rfl, hd⟩
  · rintro ⟨hnames, s, hs, rfl, hd⟩
    exact ⟨s, hs, a, ⟨hd, hnames⟩, rfl⟩

theorem edge_dependencyGraph : (dependencyGraph stages).Edge a b ↔ Depends stages a b := by
  rw [dependencyGraph, DiGraph.edge_foldl_addEdge, DiGraph.edge_foldl_addNode, mem_dependencyEdges,
    mem_keys_stagesByName, Depends]
  exact or_iff_right List.not_mem_nil

theorem edge_dependencyGraph_eq : (dependencyGraph stages).Edge = Depends stages := by
  funext a b
  exact propext edge_dependencyGraph

theorem mem_nodes_dependencyGraph : v ∈ (dependencyGraph stages).nodes ↔ ∃ s ∈ stages, s.name = v := by
  have hnames : ∀ v, v ∈ ((stagesByName stages).keys.foldl (fun G name => G.addNode name)
      (.empty : DiGraph String)).nodes ↔ ∃ s ∈ stages, s.name = v := by
    intro v
    rw [DiGraph.mem_nodes_foldl_addNode, mem_keys_stagesByName]
    exact or_iff_right List.not_mem_nil
  rw [dependencyGraph, DiGraph.mem_nodes_foldl_addEdge, hnames]
  rintro ⟨x, y⟩ he
  obtain ⟨hx, s, hs, hy, -⟩ := mem_dependencyEdges.mp he
  exact ⟨(hnames x).mpr (mem_keys_stagesByName.mp hx), (hnames y).mpr ⟨s, hs, hy⟩⟩

end Dependencies

/-! ## 2. A stage before the others, and stages after them -/

/-- The order of a graph is that of its generations. -/
structure Layered (g : Graph) : Prop where
  generations : Generations g.graph g.executionOrder
  stages : ∀ v, v ∈ g.stages.keys ↔ v ∈ g.graph.nodes

/-- A graph with one stage more, which the edges of `E` join to the others. -/
structure Added (g g' : Graph) (type : StageType) (E : String → String → Prop)
    (order : List (List String)) : Prop where
  layered : Layered g'
  nodes : ∀ v, v ∈ g'.graph.nodes ↔ v ∈ g.graph.nodes ∨ v = className type
  edge : ∀ a b, g'.graph.Edge a b ↔ g.graph.Edge a b ∨ E a b
  stages : g'.stages = g.stages.set (className type) (stageClass type)
  instances : g'.instances = Function.update g.instances type (g.instances type + 1)
  order : SameGenerations g'.executionOrder order

section Steps

variable {nx : GenerationFunction String} {g g' : Graph} {type : StageType} {cut : List String}

theorem mem_keys_set {d : Dict String Stage} {k v : String} {s : Stage} :
    v ∈ (d.set k s).keys ↔ v ∈ d.keys ∨ v = k := by
  rw [Dict.mem_keys_iff, Dict.mem_keys_iff, Dict.get?_set]
  rcases eq_or_ne v k with rfl | hne
  · simp
  · simp [hne]

theorem topologicalGenerations_ok {graph : DiGraph String} {generations : List (List String)}
    (h : topologicalGenerations nx graph = .ok generations) : Generations graph generations := by
  unfold topologicalGenerations at h
  split at h
  case h_1 => cases h
  case h_2 hsome =>
    cases h
    exact nx.spec hsome

variable (nx) in
theorem exists_topologicalGenerations {graph : DiGraph String} (h : graph.Acyclic) :
    ∃ generations, topologicalGenerations nx graph = .ok generations := by
  obtain ⟨generations, hsome⟩ := nx.exists_of_acyclic h
  exact ⟨generations, by rw [topologicalGenerations, hsome]⟩

variable (nx) in
/-- A stage is added where its graph has the generations of `order`. -/
theorem exists_withStage (hg : Layered g) {edges : List (String × String)} {order : List (List String)}
    (hedges : ∀ e ∈ edges, (e.1 ∈ g.graph.nodes ∨ e.1 = className type) ∧
      (e.2 ∈ g.graph.nodes ∨ e.2 = className type))
    (horder : ∀ G : DiGraph String, (∀ v, v ∈ G.nodes ↔ v ∈ g.graph.nodes ∨ v = className type) →
      (∀ a b, G.Edge a b ↔ g.graph.Edge a b ∨ (a, b) ∈ edges) → Generations G order) :
    ∃ g', g.withStage nx (stageClass type) edges = .ok g' ∧
      Added g g' type (fun a b => (a, b) ∈ edges) order := by
  set G := edges.foldl (fun G e => G.addEdge e) (g.graph.addNode (className type)) with hG
  have hnodes : ∀ v, v ∈ G.nodes ↔ v ∈ g.graph.nodes ∨ v = className type := by
    intro v
    rw [hG, DiGraph.mem_nodes_foldl_addEdge, DiGraph.mem_nodes_addNode]
    simpa only [DiGraph.mem_nodes_addNode] using hedges
  have hedge : ∀ a b, G.Edge a b ↔ g.graph.Edge a b ∨ (a, b) ∈ edges := by
    intro a b
    rw [hG, DiGraph.edge_foldl_addEdge, DiGraph.edge_addNode]
  have hgens := horder G hnodes hedge
  obtain ⟨generations, hok⟩ := exists_topologicalGenerations nx hgens.acyclic
  have hspec := topologicalGenerations_ok hok
  refine ⟨_, bind_ok_iff.mpr ⟨generations, hok, rfl⟩, ⟨hspec, fun v => ?_⟩, hnodes, hedge, rfl, rfl,
    hspec.perm hgens⟩
  change v ∈ (g.stages.set (className type) (stageClass type)).keys ↔ v ∈ G.nodes
  rw [hnodes, ← hg.stages]
  exact mem_keys_set

theorem getD_of_head? {l : List (List String)} (h : l.head? = some cut) : l.getD 0 [] = cut := by
  rw [List.getD_eq_getElem?_getD, ← List.head?_eq_getElem?, h, Option.getD_some]

variable (nx) in
theorem exists_prependStage (hg : Layered g) (hcut : g.executionOrder.head? = some cut)
    (hfresh : className type ∉ g.graph.nodes) :
    ∃ g', g.prependStage nx type = .ok g' ∧
      Added g g' type (fun a b => a = className type ∧ b ∈ cut) ([className type] :: g.executionOrder) := by
  have hmem : ∀ a b, (a, b) ∈ cut.map (fun name => ((stageClass type).name, name)) ↔
      a = className type ∧ b ∈ cut := by
    intro a b
    rw [List.mem_map]
    constructor
    · rintro ⟨name, hname, heq⟩
      obtain ⟨rfl, rfl⟩ := Prod.mk.inj heq
      exact ⟨rfl, hname⟩
    · rintro ⟨rfl, hb⟩
      exact ⟨b, hb, rfl⟩
  have hhead := getD_of_head? hcut
  have hedges : ∀ e ∈ cut.map (fun name => ((stageClass type).name, name)),
      (e.1 ∈ g.graph.nodes ∨ e.1 = className type) ∧ (e.2 ∈ g.graph.nodes ∨ e.2 = className type) := by
    rintro ⟨a, b⟩ he
    obtain ⟨rfl, hb⟩ := (hmem a b).mp he
    rw [← hhead, hg.generations.mem_iff] at hb
    exact ⟨Or.inr rfl, Or.inl hb.1⟩
  obtain ⟨g', hok, hadded⟩ := exists_withStage nx hg hedges fun G hnodes hedge =>
    hg.generations.addSource hfresh hnodes fun a b => by rw [hedge, hmem, hhead]
  refine ⟨g', ?_, hadded.layered, hadded.nodes, ?_, hadded.stages, hadded.instances, hadded.order⟩
  · rw [Graph.prependStage, hcut]
    exact hok
  · intro a b
    rw [hadded.edge, hmem]

theorem getLast_of_getLast? {l : List (List String)} (h : l.getLast? = some cut) :
    ∃ hne : l ≠ [], l.getLast hne = cut := by
  have hne : l ≠ [] := by
    rintro rfl
    cases h
  exact ⟨hne, Option.some.inj ((List.getLast?_eq_some_getLast hne).symm.trans h)⟩

theorem mem_nodes_of_mem_last (hg : Layered g) (hcut : g.executionOrder.getLast? = some cut)
    {v : String} (hv : v ∈ cut) : v ∈ g.graph.nodes :=
  hg.generations.mem_flatten.mp (List.mem_flatten.mpr ⟨cut, List.mem_of_getLast? hcut, hv⟩)

variable (nx) in
theorem exists_appendStage (hg : Layered g) (hcut : g.executionOrder.getLast? = some cut)
    (hfresh : className type ∉ g.graph.nodes) :
    ∃ g', g.appendStage nx type = .ok g' ∧
      Added g g' type (fun a b => a ∈ cut ∧ b = className type) (g.executionOrder ++ [[className type]]) := by
  have hmem : ∀ a b, (a, b) ∈ cut.map (fun name => (name, (stageClass type).name)) ↔
      a ∈ cut ∧ b = className type := by
    intro a b
    rw [List.mem_map]
    constructor
    · rintro ⟨name, hname, heq⟩
      obtain ⟨rfl, rfl⟩ := Prod.mk.inj heq
      exact ⟨hname, rfl⟩
    · rintro ⟨ha, rfl⟩
      exact ⟨a, ha, rfl⟩
  obtain ⟨hne, hlast⟩ := getLast_of_getLast? hcut
  have hedges : ∀ e ∈ cut.map (fun name => (name, (stageClass type).name)),
      (e.1 ∈ g.graph.nodes ∨ e.1 = className type) ∧ (e.2 ∈ g.graph.nodes ∨ e.2 = className type) := by
    rintro ⟨a, b⟩ he
    obtain ⟨ha, rfl⟩ := (hmem a b).mp he
    exact ⟨Or.inl (mem_nodes_of_mem_last hg hcut ha), Or.inr rfl⟩
  obtain ⟨g', hok, hadded⟩ := exists_withStage nx hg hedges fun G hnodes hedge =>
    hg.generations.addSink hne hfresh hnodes fun a b => by rw [hedge, hmem, hlast]
  refine ⟨g', ?_, hadded.layered, hadded.nodes, ?_, hadded.stages, hadded.instances, hadded.order⟩
  · rw [Graph.appendStage, hcut]
    exact hok
  · intro a b
    rw [hadded.edge, hmem]

end Steps

/-- The edges that stages of these types get when they are appended, one after the other. -/
def Links (cut : String → Prop) : List StageType → String → String → Prop
  | [], _, _ => False
  | type :: types, a, b => (cut a ∧ b = className type) ∨ Links (· = className type) types a b

/-- A graph with stages of these types after its last generation. -/
structure Appended (g g' : Graph) (types : List StageType) (cut : String → Prop) : Prop where
  layered : Layered g'
  nodes : ∀ v, v ∈ g'.graph.nodes ↔ v ∈ g.graph.nodes ∨ ∃ type ∈ types, v = className type
  edge : ∀ a b, g'.graph.Edge a b ↔ g.graph.Edge a b ∨ Links cut types a b
  stages : g'.stages = types.foldl (fun d type => d.set (className type) (stageClass type)) g.stages
  order : SameGenerations g'.executionOrder (g.executionOrder ++ types.map fun type => [className type])
  leads : ∀ last, types.getLast? = some last → ∀ a ∈ g.graph.nodes,
    (∃ l, Walk g'.graph.Edge a l (className last)) ↔ ∃ c, cut c ∧ ∃ l, Walk g.graph.Edge a l c

theorem className_injective : Function.Injective className := by
  intro type type' h
  cases type <;> cases type' <;> first | rfl | exact absurd h (by decide)

theorem exists_appendStages (nx : GenerationFunction String) {g : Graph} {types : List StageType}
    {cut : List String} (hg : Layered g) (hcut : g.executionOrder.getLast? = some cut)
    (hfresh : ∀ type ∈ types, className type ∉ g.graph.nodes) (hnodup : types.Nodup) :
    ∃ g', types.foldlM (fun g type => g.appendStage nx type) g = .ok g' ∧
      Appended g g' types (· ∈ cut) := by
  induction types generalizing g cut with
  | nil =>
    refine ⟨g, rfl, hg, ?_, ?_, rfl, ?_, ?_⟩
    · simp
    · simp [Links]
    · rw [List.map_nil, List.append_nil]
      exact .refl _
    · intro last hlast
      cases hlast
  | cons type types ih =>
    have htype := hfresh type List.mem_cons_self
    obtain ⟨g₁, hok₁, h₁⟩ := exists_appendStage nx hg hcut htype
    -- the one that was appended is the last generation now
    have hcut₁ := h₁.order.getLast?_eq
    have hfresh₁ : ∀ type' ∈ types, className type' ∉ g₁.graph.nodes := by
      intro type' htype' hmem
      rcases (h₁.nodes _).mp hmem with hmem | heq
      · exact hfresh type' (List.mem_cons_of_mem _ htype') hmem
      · obtain rfl := className_injective heq
        exact (List.nodup_cons.mp hnodup).1 htype'
    obtain ⟨g', hok', h'⟩ := ih h₁.layered hcut₁ hfresh₁ (List.nodup_cons.mp hnodup).2
    have hin : ∀ a, ¬ g.graph.Edge a (className type) := fun a hr => htype (g.graph.closed _ hr).2
    have hout : ∀ b, ¬ g.graph.Edge (className type) b := fun b hr => htype (g.graph.closed _ hr).1
    refine ⟨g', ?_, h'.layered, ?_, ?_, ?_, ?_, ?_⟩
    · rw [List.foldlM_cons]
      exact bind_ok_iff.mpr ⟨g₁, hok₁, hok'⟩
    · intro v
      rw [h'.nodes, h₁.nodes]
      simp [or_assoc]
    · intro a b
      rw [h'.edge, h₁.edge, or_assoc]
      simp [Links]
    · rw [h'.stages, h₁.stages, List.foldl_cons]
    · have horder := h'.order.trans (h₁.order.append_right _)
      rwa [List.append_assoc] at horder
    · intro last hlast a ha
      have hat : a ≠ className type := fun heq => htype (heq ▸ ha)
      have hself : className type ∉ cut := fun hmem => htype (mem_nodes_of_mem_last hg hcut hmem)
      have hsink := exists_walk_sink_iff h₁.edge hout hin hself hat
      cases types with
      | nil =>
        obtain rfl := Option.some.inj hlast
        cases hok'
        exact hsink
      | cons type' types =>
        rw [h'.leads last hlast a ((h₁.nodes a).mpr (Or.inl ha))]
        simpa using hsink

/-! ## 3. The assembled graph -/

/-- The types of the stages that are put at the end. -/
def ladder (instances : StageType → ℕ) : List StageType :=
  (if instances .analyze < 1 then [.analyze] else []) ++
    (if instances .submit < 1 then [.submit] else []) ++ [.complete]

section Assembled

variable {nx : GenerationFunction String} {stages : List Stage} {instances : StageType → ℕ} {g g' : Graph}

theorem instances_of_appendStage {type : StageType} (h : g.appendStage nx type = .ok g') :
    g'.instances = Function.update g.instances type (g.instances type + 1) := by
  unfold Graph.appendStage at h
  split at h
  case h_1 => cases h
  case h_2 =>
    obtain ⟨generations, -, hok⟩ := bind_ok_iff.mp h
    cases hok
    rfl

theorem foldlM_if (c : Prop) [Decidable c] (type : StageType) (g : Graph) :
    (if c then [type] else []).foldlM (fun g type => g.appendStage nx type) g =
      if c then g.appendStage nx type else pure g := by
  split
  · rw [List.foldlM_cons]
    exact bind_pure _
  · rfl

/-- The stages that are appended are those of the ladder. -/
theorem appendStages_eq (g : Graph) :
    g.appendStages nx = (ladder g.instances).foldlM (fun g type => g.appendStage nx type) g := by
  rw [ladder, List.foldlM_append, List.foldlM_append, foldlM_if, bind_assoc, Graph.appendStages]
  cases h : (if g.instances .analyze < 1 then g.appendStage nx .analyze else pure g) with
  | error e => rfl
  | ok g₁ =>
    have hsubmit : g₁.instances .submit = g.instances .submit := by
      split at h
      · rw [instances_of_appendStage h, Function.update_of_ne (by decide)]
      · cases h
        rfl
    change (if g₁.instances .submit < 1 then g₁.appendStage nx .submit else pure g₁) >>= _ =
      (if g.instances .submit < 1 then [StageType.submit] else []).foldlM _ g₁ >>= _
    rw [foldlM_if, hsubmit]
    refine bind_congr fun g₂ => ?_
    rw [List.foldlM_cons]
    exact (bind_pure _).symm

/-- A stage without dependencies. -/
def First (stages : List Stage) (v : String) : Prop :=
  (∃ s ∈ stages, s.name = v) ∧ ∀ u, ¬ Depends stages u v

/-- A stage of the last generation: no chain of dependencies is longer than those that lead to it. -/
def Last (stages : List Stage) (v : String) : Prop :=
  (∃ s ∈ stages, s.name = v) ∧ ∃ n, Depth (Depends stages) v n ∧
    ∀ u, (∃ s ∈ stages, s.name = u) → ∀ m, Depth (Depends stages) u m → m ≤ n

/-- The stages of a module, and those that are put before and after them. -/
structure Assembled (stages : List Stage) (instances : StageType → ℕ) (g : Graph) : Prop where
  layered : Layered g
  nodes : ∀ v, v ∈ g.graph.nodes ↔
    (∃ s ∈ stages, s.name = v) ∨ ∃ type ∈ .idle :: ladder instances, v = className type
  edge : ∀ a b, g.graph.Edge a b ↔ Depends stages a b ∨ (a = className .idle ∧ First stages b) ∨
    Links (Last stages) (ladder instances) a b
  get?_stage : ∀ v, (∀ type ∈ .idle :: ladder instances, v ≠ className type) →
    g.stages.get? v = (stagesByName stages).get? v
  get?_class : ∀ type ∈ .idle :: ladder instances, g.stages.get? (className type) = some (stageClass type)
  order : ∃ generations, Generations (dependencyGraph stages) generations ∧
    SameGenerations g.executionOrder ([className .idle] :: generations ++
      (ladder instances).map fun type => [className type])
  leads : ∀ a, (∃ s ∈ stages, s.name = a) →
    ((∃ l, Walk g.graph.Edge a l (className .complete)) ↔
      ∃ c, Last stages c ∧ ∃ l, Walk (Depends stages) a l c)
  exists_first : ∃ v, First stages v
  exists_last : ∃ v, Last stages v

variable (instances) in
theorem getLast?_ladder : (ladder instances).getLast? = some .complete := by
  rw [ladder, List.getLast?_concat]

theorem nodup_ladder : (ladder instances).Nodup := by
  unfold ladder
  split <;> split <;> decide

theorem idle_not_mem_ladder : .idle ∉ ladder instances := by
  unfold ladder
  split <;> split <;> decide

theorem get?_foldl_of_ne {types : List StageType} {d : Dict String Stage} {v : String}
    (hv : ∀ type ∈ types, v ≠ className type) :
    (types.foldl (fun d type => d.set (className type) (stageClass type)) d).get? v = d.get? v := by
  induction types generalizing d with
  | nil => rfl
  | cons type types ih =>
    rw [List.foldl_cons, ih fun type' htype' => hv type' (List.mem_cons_of_mem type htype'),
      Dict.get?_set_ne _ _ (hv type List.mem_cons_self)]

theorem get?_foldl_of_mem {types : List StageType} {d : Dict String Stage} {type : StageType}
    (htype : type ∈ types) :
    (types.foldl (fun d type => d.set (className type) (stageClass type)) d).get? (className type) =
      some (stageClass type) := by
  induction types generalizing d with
  | nil => cases htype
  | cons type' types ih =>
    rw [List.foldl_cons]
    by_cases hmem : type ∈ types
    · exact ih hmem
    · obtain rfl := (List.mem_cons.mp htype).resolve_right hmem
      have hother : ∀ type' ∈ types, className type ≠ className type' := by
        intro type' htype' heq
        rw [className_injective heq] at hmem
        exact hmem htype'
      rw [get?_foldl_of_ne hother, Dict.get?_set, if_pos rfl]

/-- No stage of a module has the name of one of hedra's classes. -/
def Fresh (stages : List Stage) : Prop := ∀ s ∈ stages, ∀ type, s.name ≠ className type

theorem Fresh.not_mem_nodes (hfresh : Fresh stages) (type : StageType) :
    className type ∉ (dependencyGraph stages).nodes := by
  intro hmem
  obtain ⟨s, hs, hname⟩ := mem_nodes_dependencyGraph.mp hmem
  exact hfresh s hs type hname

section Generations

variable {generations : List (List String)} (hgens : Generations (dependencyGraph stages) generations)
include hgens

theorem generations_ne_nil (hne : stages ≠ []) : generations ≠ [] := by
  rintro rfl
  obtain ⟨s, hs⟩ := List.exists_mem_of_ne_nil stages hne
  obtain ⟨i, hi⟩ := hgens.cover s.name (mem_nodes_dependencyGraph.mpr ⟨s, hs, rfl⟩)
  rw [List.getD_nil] at hi
  exact List.not_mem_nil hi

theorem mem_head_iff_first {first : List String} (hfirst : generations.head? = some first) (b : String) :
    b ∈ first ↔ First stages b := by
  rw [First, ← mem_nodes_dependencyGraph, ← edge_dependencyGraph_eq, ← getD_of_head? hfirst]
  constructor
  · intro hb
    have hnode := ((hgens.mem_iff 0 b).mp hb).1
    exact ⟨hnode, (hgens.mem_head_iff hnode).mp hb⟩
  · rintro ⟨hnode, hroot⟩
    exact (hgens.mem_head_iff hnode).mpr hroot

theorem mem_getLast_iff_last (hne : generations ≠ []) (v : String) :
    v ∈ generations.getLast hne ↔ Last stages v := by
  rw [hgens.mem_getLast_iff, edge_dependencyGraph_eq]
  simp only [mem_nodes_dependencyGraph, Last]

/-- What a graph is that has got one stage before the module's and the ladder behind them. -/
theorem assembled_of_appended {first : List String} (hfresh : Fresh stages)
    (hfirst : generations.head? = some first) {instances' : StageType → ℕ} {g₁ : Graph}
    (h₁ : Added ⟨dependencyGraph stages, stagesByName stages, instances', generations⟩ g₁ .idle
      (fun a b => a = className .idle ∧ b ∈ first) ([className .idle] :: generations))
    (h₂ : Appended g₁ g (ladder instances) (Last stages)) : Assembled stages instances g := by
  have hmem := mem_head_iff_first hgens hfirst
  have hclass := hfresh.not_mem_nodes .idle
  constructor
  · exact h₂.layered
  · intro v
    rw [h₂.nodes, h₁.nodes, mem_nodes_dependencyGraph, or_assoc]
    simp
  · intro a b
    rw [h₂.edge, h₁.edge, hmem, edge_dependencyGraph, or_assoc]
  · intro v hv
    rw [h₂.stages, get?_foldl_of_ne fun type htype => hv type (List.mem_cons_of_mem _ htype), h₁.stages,
      Dict.get?_set_ne _ _ (hv .idle List.mem_cons_self)]
  · intro type htype
    rw [h₂.stages, h₁.stages]
    exact @get?_foldl_of_mem (.idle :: ladder instances) _ type htype
  · exact ⟨generations, hgens, h₂.order.trans (h₁.order.append_right _)⟩
  · intro a ha
    have hnode := mem_nodes_dependencyGraph.mpr ha
    have hidle : a ≠ className .idle := fun heq => hclass (heq ▸ hnode)
    have hin : ∀ a, ¬ (dependencyGraph stages).Edge a (className .idle) :=
      fun a hr => hclass ((dependencyGraph stages).closed _ hr).2
    have hself : className .idle ∉ first :=
      fun h => hclass (mem_nodes_dependencyGraph.mpr ((hmem _).mp h).1)
    rw [h₂.leads .complete (getLast?_ladder instances) a ((h₁.nodes a).mpr (Or.inl hnode))]
    simp only [walk_source h₁.edge hin hself hidle]
    rw [edge_dependencyGraph_eq]
  · obtain ⟨v, hv⟩ := List.exists_mem_of_ne_nil first (hgens.nonempty first (List.mem_of_head? hfirst))
    exact ⟨v, (hmem v).mp hv⟩
  · have hne : generations ≠ [] := by
      rintro rfl
      cases hfirst
    obtain ⟨v, hv⟩ := List.exists_mem_of_ne_nil _ (hgens.nonempty _ (List.getLast_mem hne))
    exact ⟨v, (mem_getLast_iff_last hgens hne v).mp hv⟩

end Generations

variable (nx instances) in
theorem exists_assembled (hfresh : Fresh stages) (hne : stages ≠ [])
    (hacyclic : ∀ a, ¬ Relation.TransGen (Depends stages) a a) :
    ∃ g₀ g₁ g, Graph.init nx stages instances = .ok g₀ ∧ g₀.prependStage nx .idle = .ok g₁ ∧
      g₁.appendStages nx = .ok g ∧ Assembled stages instances g := by
  have hacyclic' : (dependencyGraph stages).Acyclic := by
    intro a
    rw [edge_dependencyGraph_eq]
    exact hacyclic a
  obtain ⟨generations, hok⟩ := exists_topologicalGenerations nx hacyclic'
  have hgens := topologicalGenerations_ok hok
  have hgens_ne := generations_ne_nil hgens hne
  let g₀ : Graph := ⟨dependencyGraph stages, stagesByName stages, instances, generations⟩
  have hlayered : Layered g₀ := ⟨hgens, fun v => by
    rw [mem_keys_stagesByName, mem_nodes_dependencyGraph]⟩
  obtain ⟨first, hfirst⟩ : ∃ first, generations.head? = some first :=
    ⟨_, List.head?_eq_some_head hgens_ne⟩
  obtain ⟨g₁, hok₁, h₁⟩ := exists_prependStage nx hlayered hfirst (hfresh.not_mem_nodes .idle)
  have hlast : ([className .idle] :: generations).getLast? = some (generations.getLast hgens_ne) := by
    rw [List.getLast?_eq_some_getLast (List.cons_ne_nil _ _), List.getLast_cons hgens_ne]
  obtain ⟨cut, hcut, hperm⟩ := h₁.order.getLast? hlast
  have hfresh₁ : ∀ type ∈ ladder instances, className type ∉ g₁.graph.nodes := by
    intro type htype hmem
    rcases (h₁.nodes _).mp hmem with hmem | heq
    · exact hfresh.not_mem_nodes type hmem
    · exact idle_not_mem_ladder (className_injective heq ▸ htype)
  obtain ⟨g, hok₂, h₂⟩ := exists_appendStages nx h₁.layered hcut hfresh₁ nodup_ladder
  have hcutLast : (· ∈ cut) = Last stages := by
    funext v
    rw [hperm.mem_iff]
    exact propext (mem_getLast_iff_last hgens hgens_ne v)
  rw [hcutLast] at h₂
  refine ⟨g₀, g₁, g, bind_ok_iff.mpr ⟨generations, hok, rfl⟩, hok₁, ?_, ?_⟩
  · rw [appendStages_eq, h₁.instances]
    exact hok₂
  · exact assembled_of_appended hgens hfresh hfirst h₁ h₂

end Assembled

/-! ## 4. What is accepted -/

/-- The type that a module gives to a stage. -/
def kind (stages : List Stage) (v : String) : StageType :=
  (((stagesByName stages).get? v).map Stage.stageType).getD .error

/-- The type of the stage after the last generation. -/
def nextType (instances : StageType → ℕ) : StageType :=
  if instances .analyze < 1 then .analyze else if instances .submit < 1 then .submit else .complete

/-- One worker is enough for the stages of a type. -/
def isSerial (type : StageType) : Bool := allowParallel type = false && type ∉ [StageType.idle]

/-- The serial stages of a generation leave a CPU for the others, if there are others. -/
def Staffed (cpus : ℕ+) (typeOf : String → StageType) (generation : List String) : Prop :=
  (∃ v ∈ generation, isSerial (typeOf v) = false) → generation.countP (fun v => isSerial (typeOf v)) < cpus

/-- The modules that make a graph, with so many CPUs. -/
structure Accepted (cpus : ℕ+) (stages : List Stage) (instances : StageType → ℕ) : Prop where
  nonempty : stages ≠ []
  acyclic : ∀ a, ¬ Relation.TransGen (Depends stages) a a
  valid : ∀ a b, Depends stages a b → kind stages b ∈ localTransitions (kind stages a)
  first : ∀ v, First stages v → kind stages v ∈ localTransitions .idle
  last : ∀ v, Last stages v → nextType instances ∈ localTransitions (kind stages v)
  -- Complete cannot follow Analyze
  submit : instances .analyze < 1 → instances .submit < 1
  staffed : ∀ generations, Generations (dependencyGraph stages) generations →
    ∀ generation ∈ generations, Staffed cpus (kind stages) generation
  setup : ∃ v, kind stages v = .setup

section Acceptance

variable {nx : GenerationFunction String} {cpus cpuCores : ℕ+} {stages : List Stage}
  {instances : StageType → ℕ} {g : Graph} {transitions : List (List (String × String))} {a b v : String}
  {generation generation' : List String} {typeOf typeOf' : String → StageType}

theorem staffed_congr (h : ∀ v ∈ generation, typeOf v = typeOf' v) :
    Staffed cpus typeOf generation ↔ Staffed cpus typeOf' generation := by
  have hcount : (generation.countP fun v => isSerial (typeOf v)) = generation.countP fun v => isSerial (typeOf' v) :=
    List.countP_congr fun v hv => by rw [h v hv]
  rw [Staffed, Staffed, hcount]
  refine imp_congr_left (exists_congr fun v => and_congr_right fun hv => ?_)
  rw [h v hv]

theorem staffed_perm (h : generation.Perm generation') :
    Staffed cpus typeOf generation ↔ Staffed cpus typeOf generation' := by
  rw [Staffed, Staffed, h.countP_eq]
  simp only [h.mem_iff]

/-- A stage alone has the CPUs for itself. -/
theorem staffed_singleton : Staffed cpus typeOf [v] := by
  rintro ⟨u, hu, hparallel⟩
  obtain rfl := List.mem_singleton.mp hu
  rw [List.countP_singleton, hparallel]
  exact cpus.pos

variable (cpuCores) in
theorem provision_ok_iff :
    g.provision cpus cpuCores generation = .ok () ↔ Staffed cpus g.typeOf generation.dedup := by
  have hok : g.provision cpus cpuCores generation = .ok () ↔
      ∃ p, Provisioning.provision cpus cpuCores (g.workersOf generation) = .ok p := by
    unfold Graph.provision
    cases Provisioning.provision cpus cpuCores (g.workersOf generation) with
    | ok p => exact iff_of_true rfl ⟨p, rfl⟩
    | error e => exact iff_of_false nofun nofun
  have hserial : (g.workersOf generation).serial.length =
      generation.dedup.countP fun v => isSerial (g.typeOf v) := by
    change ((generation.dedup.map g.worker).filter Provisioning.Stage.isSerial).length = _
    rw [← List.countP_eq_length_filter, List.countP_map]
    rfl
  have hparallel : (g.workersOf generation).parallel ≠ [] ↔
      ∃ v ∈ generation.dedup, isSerial (g.typeOf v) = false := by
    change ((generation.dedup.map g.worker).filter fun s => !s.isSerial) ≠ [] ↔ _
    rw [List.filter_map, Ne, List.map_eq_nil_iff, List.filter_eq_nil_iff, not_forall₂]
    refine exists_congr fun v => exists_prop.trans (and_congr_right fun _ => ?_)
    rw [not_not, Function.comp_apply, Bool.not_eq_true']
    rfl
  rw [hok, Provisioning.provision_ok_iff cpuCores.pos, hserial, hparallel, Staffed]

theorem transition_ok_iff {e e' : String × String} :
    g.transition e = .ok e' ↔ g.typeOf e.2 ∈ localTransitions (g.typeOf e.1) ∧ e = e' := by
  unfold Graph.transition
  split
  case isTrue h => simp [h]
  case isFalse h => simp [h]

theorem mapM_transition_iff {l l' : List (String × String)} :
    l.mapM g.transition = .ok l' ↔
      (∀ e ∈ l, g.typeOf e.2 ∈ localTransitions (g.typeOf e.1)) ∧ l = l' := by
  rw [mapM_ok_iff]
  simp only [transition_ok_iff]
  rw [List.forall₂_and_left, List.forall₂_eq_eq_eq]

theorem mem_edgesOf {generation : List String} {e : String × String} :
    e ∈ g.edgesOf generation ↔ e.1 ∈ generation ∧ g.graph.Edge e.1 e.2 := by
  simp only [Graph.edgesOf, List.mem_flatMap, List.mem_map, DiGraph.mem_neighbors]
  constructor
  · rintro ⟨a, ha, b, hb, rfl⟩
    exact ⟨ha, hb⟩
  · rintro ⟨ha, hb⟩
    exact ⟨e.1, ha, e.2, hb, rfl⟩

/-- What is made of a generation. -/
theorem generation_ok_iff {l : List (String × String)} :
    (do g.provision cpus cpuCores generation
        (g.edgesOf generation).mapM g.transition) = .ok l ↔
      (Staffed cpus g.typeOf generation.dedup ∧
        ∀ e ∈ g.edgesOf generation, g.typeOf e.2 ∈ localTransitions (g.typeOf e.1)) ∧
      g.edgesOf generation = l := by
  rw [bind_ok_iff, ← provision_ok_iff cpuCores, and_assoc, ← mapM_transition_iff]
  constructor
  · rintro ⟨⟨⟩, hprovision, hmapM⟩
    exact ⟨hprovision, hmapM⟩
  · rintro ⟨hprovision, hmapM⟩
    exact ⟨(), hprovision, hmapM⟩

variable (cpuCores) in
/-- The transitions are made where all generations have their executors and all edges are valid. -/
theorem buildTransitionsGraph_ok_iff (hg : Layered g) (hiso : g.graph.isolates = []) :
    g.buildTransitionsGraph cpus cpuCores = .ok transitions ↔
      (∀ generation ∈ g.executionOrder, Staffed cpus g.typeOf generation) ∧
        (∀ a b, g.graph.Edge a b → g.typeOf b ∈ localTransitions (g.typeOf a)) ∧
        (g.executionOrder.map g.edgesOf).filter (· ≠ []) = transitions := by
  have hgroups : ∀ groups, (g.executionOrder.mapM fun generation => do
      g.provision cpus cpuCores generation
      (g.edgesOf generation).mapM g.transition) = .ok groups ↔
        (∀ generation ∈ g.executionOrder, Staffed cpus g.typeOf generation.dedup ∧
          ∀ e ∈ g.edgesOf generation, g.typeOf e.2 ∈ localTransitions (g.typeOf e.1)) ∧
        g.executionOrder.map g.edgesOf = groups := by
    intro groups
    rw [mapM_ok_iff]
    simp only [generation_ok_iff]
    rw [List.forall₂_and_left, ← List.forall₂_map_left_iff (f := g.edgesOf), List.forall₂_eq_eq_eq]
  have hedges : (∀ generation ∈ g.executionOrder, Staffed cpus g.typeOf generation.dedup ∧
      ∀ e ∈ g.edgesOf generation, g.typeOf e.2 ∈ localTransitions (g.typeOf e.1)) ↔
        (∀ generation ∈ g.executionOrder, Staffed cpus g.typeOf generation) ∧
        ∀ a b, g.graph.Edge a b → g.typeOf b ∈ localTransitions (g.typeOf a) := by
    constructor
    · intro h
      refine ⟨fun generation hgen => ?_, fun a b hab => ?_⟩
      · rw [← (hg.generations.nodup generation hgen).dedup]
        exact (h generation hgen).1
      · obtain ⟨generation, hgen, ha⟩ := List.mem_flatten.mp
          (hg.generations.mem_flatten.mpr (g.graph.closed _ hab).1)
        exact (h generation hgen).2 (a, b) (mem_edgesOf.mpr ⟨ha, hab⟩)
    · rintro ⟨hstaffed, hvalid⟩ generation hgen
      refine ⟨?_, fun e he => hvalid e.1 e.2 (mem_edgesOf.mp he).2⟩
      rw [(hg.generations.nodup generation hgen).dedup]
      exact hstaffed generation hgen
  rw [Graph.buildTransitionsGraph, hiso, List.head?_nil, bind_ok_iff]
  simp only [hgroups, hedges, and_assoc]
  constructor
  · rintro ⟨groups, hstaffed, hvalid, rfl, heq⟩
    cases heq
    exact ⟨hstaffed, hvalid, rfl⟩
  · rintro ⟨hstaffed, hvalid, rfl⟩
    exact ⟨_, hstaffed, hvalid, rfl, rfl⟩

theorem exists_links {cut : String → Prop} {types : List StageType} {type : StageType} (hcut : ∃ c, cut c)
    (htype : type ∈ types) : ∃ a, Links cut types a (className type) := by
  induction types generalizing cut with
  | nil => cases htype
  | cons type' types ih =>
    rcases List.mem_cons.mp htype with rfl | htype
    · obtain ⟨c, hc⟩ := hcut
      exact ⟨c, Or.inl ⟨hc, rfl⟩⟩
    · have hcut' : ∃ c, c = className type' := ⟨_, rfl⟩
      obtain ⟨a, ha⟩ := ih hcut' htype
      exact ⟨a, Or.inr ha⟩

/-- No stage of an assembled graph is isolated. -/
theorem Assembled.isolates_eq_nil (h : Assembled stages instances g) : g.graph.isolates = [] := by
  refine List.eq_nil_iff_forall_not_mem.mpr fun v hv => ?_
  obtain ⟨hnode, hisolated⟩ := DiGraph.mem_isolates.mp hv
  rcases (h.nodes v).mp hnode with hstage | ⟨type, htype, rfl⟩
  · by_cases hroot : ∃ u, Depends stages u v
    · obtain ⟨u, hu⟩ := hroot
      exact (hisolated u).2 ((h.edge u v).mpr (Or.inl hu))
    · refine (hisolated (className .idle)).2 ((h.edge _ v).mpr (Or.inr (Or.inl ⟨rfl, hstage, ?_⟩)))
      exact fun u hu => hroot ⟨u, hu⟩
  · rcases List.mem_cons.mp htype with rfl | htype
    · obtain ⟨b, hb⟩ := h.exists_first
      exact (hisolated b).1 ((h.edge _ b).mpr (Or.inr (Or.inl ⟨rfl, hb⟩)))
    · obtain ⟨a, ha⟩ := exists_links h.exists_last htype
      exact (hisolated a).2 ((h.edge a _).mpr (Or.inr (Or.inr ha)))

theorem forall_links_cons {cut : String → Prop} {type : StageType} {types : List StageType}
    {Q : String → String → Prop} : (∀ a b, Links cut (type :: types) a b → Q a b) ↔
      (∀ a, cut a → Q a (className type)) ∧ ∀ a b, Links (· = className type) types a b → Q a b := by
  constructor
  · intro h
    exact ⟨fun a ha => h a _ (Or.inl ⟨ha, rfl⟩), fun a b hab => h a b (Or.inr hab)⟩
  · rintro ⟨hcut, hrest⟩ a b (⟨ha, rfl⟩ | hab)
    · exact hcut a ha
    · exact hrest a b hab

theorem Assembled.typeOf_stage (h : Assembled stages instances g) (hfresh : Fresh stages)
    (hv : ∃ s ∈ stages, s.name = v) : g.typeOf v = kind stages v := by
  obtain ⟨s, hs, rfl⟩ := hv
  rw [Graph.typeOf, h.get?_stage _ fun type _ => hfresh s hs type, kind]

theorem Assembled.typeOf_class (h : Assembled stages instances g) {type : StageType}
    (htype : type ∈ .idle :: ladder instances) : g.typeOf (className type) = type := by
  rw [Graph.typeOf, h.get?_class type htype]
  rfl

theorem mem_ladder_complete : .complete ∈ .idle :: ladder instances :=
  List.mem_cons_of_mem _ (List.mem_of_getLast? (getLast?_ladder _))

/-- The stages at the end are joined by valid transitions. -/
theorem Assembled.links_valid_iff (h : Assembled stages instances g) (hfresh : Fresh stages) :
    (∀ a b, Links (Last stages) (ladder instances) a b → g.typeOf b ∈ localTransitions (g.typeOf a)) ↔
      (∀ v, Last stages v → nextType instances ∈ localTransitions (kind stages v)) ∧
        (instances .analyze < 1 → instances .submit < 1) := by
  have hkind : ∀ {type}, type ∈ .idle :: ladder instances →
      ((∀ v, Last stages v → g.typeOf (className type) ∈ localTransitions (g.typeOf v)) ↔
        ∀ v, Last stages v → type ∈ localTransitions (kind stages v)) := by
    intro type htype
    refine forall_congr' fun v => forall_congr' fun hv => ?_
    rw [h.typeOf_class htype, h.typeOf_stage hfresh hv.1]
  have hnil : ∀ {cut : String → Prop} {Q : String → String → Prop}, ∀ a b, Links cut [] a b → Q a b :=
    fun _ _ hab => hab.elim
  have hcomplete : g.typeOf (className .complete) = .complete := h.typeOf_class mem_ladder_complete
  by_cases hanalyze : instances .analyze < 1 <;> by_cases hsubmit : instances .submit < 1
  · have hl : ladder instances = [.analyze, .submit, .complete] := by simp [ladder, hanalyze, hsubmit]
    have hn : nextType instances = .analyze := by simp [nextType, hanalyze]
    have hfirst : g.typeOf (className .analyze) = .analyze := h.typeOf_class (by simp [hl])
    have hsecond : g.typeOf (className .submit) = .submit := h.typeOf_class (by simp [hl])
    rw [hl, forall_links_cons, hkind (by simp [hl]), forall_links_cons, forall_links_cons]
    simp [hn, hfirst, hsecond, hcomplete, hsubmit, localTransitions, Links]
  · have hl : ladder instances = [.analyze, .complete] := by simp [ladder, hanalyze, hsubmit]
    have hfirst : g.typeOf (className .analyze) = .analyze := h.typeOf_class (by simp [hl])
    rw [hl, forall_links_cons, forall_links_cons]
    simp [hfirst, hcomplete, hanalyze, hsubmit, localTransitions]
  · have hl : ladder instances = [.submit, .complete] := by simp [ladder, hanalyze, hsubmit]
    have hn : nextType instances = .submit := by simp [nextType, hanalyze, hsubmit]
    have hfirst : g.typeOf (className .submit) = .submit := h.typeOf_class (by simp [hl])
    rw [hl, forall_links_cons, hkind (by simp [hl]), forall_links_cons]
    simp [hn, hfirst, hcomplete, hanalyze, localTransitions, Links]
  · have hl : ladder instances = [.complete] := by simp [ladder, hanalyze, hsubmit]
    have hn : nextType instances = .complete := by simp [nextType, hanalyze, hsubmit]
    rw [hl, forall_links_cons, hkind (by simp [hl])]
    simp [hn, hanalyze, Links]

/-- The edges of an assembled graph are valid. -/
theorem Assembled.valid_iff (h : Assembled stages instances g) (hfresh : Fresh stages) :
    (∀ a b, g.graph.Edge a b → g.typeOf b ∈ localTransitions (g.typeOf a)) ↔
      (∀ a b, Depends stages a b → kind stages b ∈ localTransitions (kind stages a)) ∧
        (∀ v, First stages v → kind stages v ∈ localTransitions .idle) ∧
        (∀ v, Last stages v → nextType instances ∈ localTransitions (kind stages v)) ∧
        (instances .analyze < 1 → instances .submit < 1) := by
  rw [← h.links_valid_iff hfresh]
  have hidle : g.typeOf (className .idle) = .idle := h.typeOf_class List.mem_cons_self
  have hdepends : ∀ {a b}, Depends stages a b → g.typeOf a = kind stages a ∧ g.typeOf b = kind stages b := by
    rintro a b ⟨ha, s, hs, hb, -⟩
    exact ⟨h.typeOf_stage hfresh ha, h.typeOf_stage hfresh ⟨s, hs, hb⟩⟩
  constructor
  · intro hvalid
    refine ⟨fun a b hab => ?_, fun v hv => ?_, fun a b hab => ?_⟩
    · obtain ⟨ha, hb⟩ := hdepends hab
      rw [← ha, ← hb]
      exact hvalid a b ((h.edge a b).mpr (Or.inl hab))
    · rw [← h.typeOf_stage hfresh hv.1, ← hidle]
      exact hvalid _ v ((h.edge _ v).mpr (Or.inr (Or.inl ⟨rfl, hv⟩)))
    · exact hvalid a b ((h.edge a b).mpr (Or.inr (Or.inr hab)))
  · rintro ⟨hvalid, hfirst, hlinks⟩ a b hab
    rcases (h.edge a b).mp hab with hab | ⟨rfl, hb⟩ | hab
    · obtain ⟨ha, hb⟩ := hdepends hab
      rw [ha, hb]
      exact hvalid a b hab
    · rw [h.typeOf_stage hfresh hb.1, hidle]
      exact hfirst b hb
    · exact hlinks a b hab

/-- The generations of an assembled graph have their executors where those of the module have. -/
theorem Assembled.staffed_iff (h : Assembled stages instances g) (hfresh : Fresh stages) :
    (∀ generation ∈ g.executionOrder, Staffed cpus g.typeOf generation) ↔
      ∀ generations, Generations (dependencyGraph stages) generations →
        ∀ generation ∈ generations, Staffed cpus (kind stages) generation := by
  obtain ⟨generations, hgens, hsame⟩ := h.order
  have hladder : ∀ generation ∈ (ladder instances).map fun type => [className type],
      Staffed cpus g.typeOf generation := by
    intro generation hgen
    obtain ⟨type, -, rfl⟩ := List.mem_map.mp hgen
    exact staffed_singleton
  have hkind : ∀ generation ∈ generations,
      (Staffed cpus g.typeOf generation ↔ Staffed cpus (kind stages) generation) := by
    intro generation hgen
    refine staffed_congr fun v hv => h.typeOf_stage hfresh ?_
    exact mem_nodes_dependencyGraph.mp (hgens.mem_flatten.mp (List.mem_flatten.mpr ⟨generation, hgen, hv⟩))
  rw [hsame.forall_iff fun _ _ => staffed_perm, List.forall_mem_append, List.forall_mem_cons,
    and_iff_left hladder, and_iff_right staffed_singleton, forall₂_congr hkind]
  refine ⟨fun hstaffed generations' hgens' => ?_, fun hstaffed => hstaffed generations hgens⟩
  exact ((hgens'.perm hgens).forall_iff fun _ _ => staffed_perm).mpr hstaffed

theorem kind_eq_setup_iff (d : Dict String Stage) :
    d.values.any (·.stageType = .setup) = true ↔
      ∃ v, ((d.get? v).map Stage.stageType).getD .error = .setup := by
  rw [List.any_eq_true]
  constructor
  · rintro ⟨s, hs, htype⟩
    obtain ⟨v, hv⟩ := (Dict.mem_values_iff d s).mp hs
    exact ⟨v, by rw [hv, Option.map_some, Option.getD_some, of_decide_eq_true htype]⟩
  · rintro ⟨v, hv⟩
    cases h : d.get? v with
    | none =>
      rw [h] at hv
      cases hv
    | some s =>
      rw [h] at hv
      exact ⟨s, (Dict.mem_values_iff d s).mpr ⟨v, h⟩, decide_eq_true hv⟩

theorem name_of_kind (hv : kind stages v ≠ .error) : ∃ s ∈ stages, s.name = v := by
  rw [← mem_keys_stagesByName, Dict.mem_keys_iff]
  by_contra hnone
  refine hv ?_
  rw [kind, Option.eq_none_iff_forall_ne_some.mpr fun s hs => hnone ⟨s, hs⟩]
  rfl

/-- hedra's own classes are not Setup stages. -/
theorem Assembled.setup_iff (h : Assembled stages instances g) (hfresh : Fresh stages) :
    g.applyConfigToLoadHooks = .ok () ↔ ∃ v, kind stages v = .setup := by
  have hsetup : (∃ v, g.typeOf v = .setup) ↔ ∃ v, kind stages v = .setup := by
    constructor
    · rintro ⟨v, hv⟩
      by_cases hclass : ∃ type ∈ .idle :: ladder instances, v = className type
      · obtain ⟨type, htype, rfl⟩ := hclass
        rw [h.typeOf_class htype] at hv
        subst hv
        exact absurd htype (by unfold ladder; split <;> split <;> decide)
      · refine ⟨v, ?_⟩
        rwa [kind, ← h.get?_stage v fun type htype heq => hclass ⟨type, htype, heq⟩]
    · rintro ⟨v, hv⟩
      refine ⟨v, ?_⟩
      rw [h.typeOf_stage hfresh (name_of_kind fun herror => ?_), hv]
      rw [hv] at herror
      cases herror
  rw [← hsetup, Graph.applyConfigToLoadHooks]
  simp only [Graph.typeOf, ← kind_eq_setup_iff]
  split
  case isTrue htrue => simp [htrue]
  case isFalse hfalse => simp [hfalse]

/-- A graph that has a first generation is of some stages, and without a cycle. -/
theorem of_prependStage {g₀ g₁ : Graph} (h₀ : Graph.init nx stages instances = .ok g₀)
    (h₁ : g₀.prependStage nx .idle = .ok g₁) :
    stages ≠ [] ∧ ∀ a, ¬ Relation.TransGen (Depends stages) a a := by
  obtain ⟨generations, hok, heq⟩ := bind_ok_iff.mp h₀
  cases heq
  have hgens := topologicalGenerations_ok hok
  constructor
  · rintro rfl
    unfold Graph.prependStage at h₁
    split at h₁
    case h_1 => cases h₁
    case h_2 first hfirst =>
      have hmem := List.mem_of_head? hfirst
      obtain ⟨v, hv⟩ := List.exists_mem_of_ne_nil first (hgens.nonempty first hmem)
      obtain ⟨s, hs, -⟩ := mem_nodes_dependencyGraph.mp
        (hgens.mem_flatten.mp (List.mem_flatten.mpr ⟨first, hmem, hv⟩))
      exact List.not_mem_nil hs
  · intro a hcycle
    refine hgens.acyclic a ?_
    rwa [edge_dependencyGraph_eq]

/-- What is built is the assembled graph of an accepted module, with the transitions of its generations. -/
theorem build_ok (hfresh : Fresh stages) (h : build nx cpus cpuCores stages instances = .ok (g, transitions)) :
    Accepted cpus stages instances ∧ Assembled stages instances g ∧
      (g.executionOrder.map g.edgesOf).filter (· ≠ []) = transitions := by
  obtain ⟨g₀, h₀, h⟩ := bind_ok_iff.mp h
  obtain ⟨g₁, h₁, h⟩ := bind_ok_iff.mp h
  obtain ⟨g₂, h₂, h⟩ := bind_ok_iff.mp h
  obtain ⟨ts, hts, h⟩ := bind_ok_iff.mp h
  obtain ⟨u, hsetup, heq⟩ := bind_ok_iff.mp h
  cases heq
  obtain ⟨hne, hacyclic⟩ := of_prependStage h₀ h₁
  obtain ⟨g₀', g₁', g', h₀', h₁', h₂', hg⟩ := exists_assembled nx instances hfresh
    hne hacyclic
  cases h₀.symm.trans h₀'
  cases h₁.symm.trans h₁'
  cases h₂.symm.trans h₂'
  obtain ⟨hstaffed, hvalid, htransitions⟩ :=
    (buildTransitionsGraph_ok_iff cpuCores hg.layered hg.isolates_eq_nil).mp hts
  obtain ⟨hdepends, hfirst, hlast, hsubmit⟩ := (hg.valid_iff hfresh).mp hvalid
  exact ⟨⟨hne, hacyclic, hdepends, hfirst, hlast, hsubmit, (hg.staffed_iff hfresh).mp hstaffed,
    (hg.setup_iff hfresh).mp hsetup⟩, hg, htransitions⟩

theorem exists_build (hfresh : Fresh stages) (h : Accepted cpus stages instances) :
    ∃ r, build nx cpus cpuCores stages instances = .ok r := by
  obtain ⟨g₀, g₁, g, h₀, h₁, h₂, hg⟩ := exists_assembled nx instances hfresh
    h.nonempty h.acyclic
  have hvalid := (hg.valid_iff hfresh).mpr ⟨h.valid, h.first, h.last, h.submit⟩
  have hstaffed : ∀ generation ∈ g.executionOrder, Staffed cpus g.typeOf generation :=
    (hg.staffed_iff hfresh).mpr h.staffed
  have hts := (buildTransitionsGraph_ok_iff cpuCores hg.layered hg.isolates_eq_nil).mpr
    ⟨hstaffed, hvalid, rfl⟩
  have hsetup := (hg.setup_iff hfresh).mpr h.setup
  refine ⟨(g, (g.executionOrder.map g.edgesOf).filter (· ≠ [])), bind_ok_iff.mpr ⟨g₀, h₀, ?_⟩⟩
  refine bind_ok_iff.mpr ⟨g₁, h₁, bind_ok_iff.mpr ⟨g, h₂, bind_ok_iff.mpr ⟨_, hts, ?_⟩⟩⟩
  exact bind_ok_iff.mpr ⟨(), hsetup, rfl⟩

end Acceptance

/-- A Setup stage, an Execute stage after it and an Analyze stage after that. -/
def simpleStages : List Stage :=
  [⟨"MyAnalyze", .analyze, ["MyExecute"]⟩, ⟨"MyExecute", .execute, ["MySetup"]⟩, ⟨"MySetup", .setup, []⟩]

def twoCpus : ℕ+ := Nat.succPNat 1

def oneAnalyze (type : StageType) : ℕ := if type = .analyze then 1 else 0

theorem fresh_simple : Fresh simpleStages := by
  intro s hs type
  simp only [simpleStages, List.mem_cons, List.not_mem_nil, or_false] at hs
  rcases hs with rfl | rfl | rfl <;> cases type <;> decide

/-- What they are built to. -/
def simpleBuild : Graph × List (List (String × String)) :=
  match build DiGraph.generationFunction twoCpus twoCpus simpleStages oneAnalyze with
  | .ok r => r
  | .error _ => (⟨.empty, .empty, oneAnalyze, []⟩, [])

theorem build_simple :
    build DiGraph.generationFunction twoCpus twoCpus simpleStages oneAnalyze = .ok simpleBuild := by
  have hok : (build DiGraph.generationFunction twoCpus twoCpus simpleStages oneAnalyze).toBool = true := by
    decide +kernel
  unfold simpleBuild
  cases h : build DiGraph.generationFunction twoCpus twoCpus simpleStages oneAnalyze with
  | error e =>
    rw [h] at hok
    cases hok
  | ok r => rfl

/-- An Act stage is serial, and takes the only CPU from the Execute stage beside it. -/
example :
    let stages : List Stage := [⟨"MyAnalyze", .analyze, ["MyAct", "MyExecute"]⟩,
      ⟨"MyAct", .act, ["MySetup"]⟩, ⟨"MyExecute", .execute, ["MySetup"]⟩, ⟨"MySetup", .setup, []⟩]
    (build DiGraph.generationFunction 1 1 stages oneAnalyze).toBool = false ∧
      (build DiGraph.generationFunction 2 2 stages oneAnalyze).toBool = true := by
  decide +kernel

/-! ## 5. Where the stages are -/

section Order

variable {nx : GenerationFunction String} {cpus cpuCores : ℕ+} {stages : List Stage}
  {instances : StageType → ℕ} {g : Graph} {transitions : List (List (String × String))} {a b v : String}

theorem Assembled.head_eq (h : Assembled stages instances g) :
    g.executionOrder.getD 0 [] = [className .idle] := by
  obtain ⟨generations, -, hsame⟩ := h.order
  obtain ⟨first, rest, hfirst, -, heq⟩ := List.forall₂_cons_right_iff.mp hsame
  rw [heq, List.getD_cons_zero, List.perm_singleton.mp hfirst]

/-- Every stage comes after Idle. -/
theorem Assembled.exists_walk (h : Assembled stages instances g) (hv : v ∈ g.graph.nodes) :
    ∃ l, Walk g.graph.Edge (className .idle) l v := by
  obtain ⟨a, ha, hw⟩ := h.layered.generations.exists_walk hv
  rw [h.head_eq, List.mem_singleton] at ha
  rwa [ha] at hw

theorem Assembled.complete_mem (h : Assembled stages instances g) : className .complete ∈ g.graph.nodes :=
  (h.nodes _).mpr (Or.inr ⟨_, mem_ladder_complete, rfl⟩)

theorem Assembled.edge_of_mem (h : Assembled stages instances g) (hv : v ∈ g.graph.nodes) :
    g.graph.neighbors v ≠ [] ∨ ∃ u ∈ g.graph.nodes, v ∈ g.graph.neighbors u := by
  by_contra hnone
  rw [not_or, not_not] at hnone
  refine List.not_mem_nil (h.isolates_eq_nil ▸ DiGraph.mem_isolates.mpr ⟨hv, fun u => ⟨fun hu => ?_, fun hu => ?_⟩⟩)
  · exact List.not_mem_nil (hnone.1 ▸ DiGraph.mem_neighbors.mpr hu)
  · exact hnone.2 ⟨u, (g.graph.closed _ hu).1, DiGraph.mem_neighbors.mpr hu⟩

theorem valid_of_build (hfresh : Fresh stages) (h : build nx cpus cpuCores stages instances = .ok (g, transitions)) :
    ∀ a b, b ∈ g.graph.neighbors a → g.typeOf b ∈ localTransitions (g.typeOf a) := by
  obtain ⟨haccepted, hg, -⟩ := build_ok hfresh h
  intro a b hab
  exact (hg.valid_iff hfresh).mpr
    ⟨haccepted.valid, haccepted.first, haccepted.last, haccepted.submit⟩ a b (DiGraph.mem_neighbors.mp hab)

theorem acyclic_of_build (hfresh : Fresh stages) (h : build nx cpus cpuCores stages instances = .ok (g, transitions)) :
    g.graph.Acyclic := (build_ok hfresh h).2.1.layered.generations.acyclic

theorem complete_of_build (hfresh : Fresh stages) (h : build nx cpus cpuCores stages instances = .ok (g, transitions)) :
    "Complete" ∈ g.graph.nodes := (build_ok hfresh h).2.1.complete_mem

theorem complete_type_of_build (hfresh : Fresh stages)
    (h : build nx cpus cpuCores stages instances = .ok (g, transitions)) : g.typeOf "Complete" = .complete :=
  (build_ok hfresh h).2.1.typeOf_class mem_ladder_complete

theorem edge_of_build (hfresh : Fresh stages) (h : build nx cpus cpuCores stages instances = .ok (g, transitions)) :
    ∀ a ∈ g.graph.nodes, g.graph.neighbors a ≠ [] ∨ ∃ b ∈ g.graph.nodes, a ∈ g.graph.neighbors b :=
  fun _ ha => (build_ok hfresh h).2.1.edge_of_mem ha

/-- What is built is a graph of stages. -/
def stageGraph (hfresh : Fresh stages) (h : build nx cpus cpuCores stages instances = .ok (g, transitions)) :
    StageGraph where
  graph := g.graph.toDag (acyclic_of_build hfresh h)
  stageType := g.typeOf
  complete := "Complete"
  complete_mem := complete_of_build hfresh h
  complete_type := complete_type_of_build hfresh h
  valid := valid_of_build hfresh h
  not_isolated := edge_of_build hfresh h

end Order

/-- **Every stage comes after Idle.  A stage leads to Complete** exactly where it leads to one of the last
generation: what nothing depends on is left aside in an earlier one. -/
theorem leads_to_complete (nx : GenerationFunction String) (cpus cpuCores : ℕ+) (stages : List Stage)
    (instances : StageType → ℕ) (g : Graph) (transitions : List (List (String × String)))
    (hfresh : Fresh stages) (h : build nx cpus cpuCores stages instances = .ok (g, transitions)) :
    (∀ v ∈ g.graph.nodes, ∃ l, Walk g.graph.Edge "Idle" l v) ∧
      ∀ a, (∃ s ∈ stages, s.name = a) → ((∃ l, Walk g.graph.Edge a l "Complete") ↔
        ∃ c, Last stages c ∧ ∃ l, Walk (Depends stages) a l c) := by
  obtain ⟨-, hg, -⟩ := build_ok hfresh h
  exact ⟨fun v hv => hg.exists_walk hv, hg.leads⟩

theorem leads_to_complete_simple :
    (∀ v ∈ simpleBuild.1.graph.nodes, ∃ l, Walk simpleBuild.1.graph.Edge "Idle" l v) ∧
      ∀ a, (∃ s ∈ simpleStages, s.name = a) → ((∃ l, Walk simpleBuild.1.graph.Edge a l "Complete") ↔
        ∃ c, Last simpleStages c ∧ ∃ l, Walk (Depends simpleStages) a l c) :=
  leads_to_complete DiGraph.generationFunction twoCpus twoCpus simpleStages oneAnalyze simpleBuild.1 simpleBuild.2
    fresh_simple build_simple

end Assembly
end Graphs
end Hedra
