/-
# Stages and their edges

The stages of a graph, the transitions that are valid between them, and what
`TransitionAssembler.map_to_setup_stages` (`core/graphs/transitions/transition_assembler.py`) gives
to the edges that leave a stage: the stages by type, how far the other stages are, and the stages on
the paths to the Complete stage.

From this an edge chooses the stages that its stage works for.  The functions that do so differ in
which stages are chosen from, and in which stages end the choice.

`mem_selectCandidates` is the rule for all of them: the chosen stages are on the way to the end, and
not farther than any that ends the choice.
-/
import Hedra.Lib.Dag

namespace Hedra
namespace Graphs

open Lib

inductive StageType
  | act
  | analyze
  | complete
  | error
  | execute
  | idle
  | optimize
  | setup
  | submit
deriving DecidableEq

/-- `local_transitions`: the types to which the transitions from a type are valid. -/
def localTransitions : StageType → List StageType
  | .idle => [.idle, .act, .setup]
  | .setup => [.act, .optimize, .execute]
  | .optimize => [.act, .execute]
  | .act => [.act, .optimize, .setup, .execute, .analyze, .complete, .submit]
  | .execute => [.execute, .act, .setup, .optimize, .analyze]
  | .analyze => [.act, .submit]
  | .submit => [.submit, .act, .setup, .optimize, .execute, .complete]
  | .complete => [.complete, .act, .idle, .setup, .optimize, .execute, .analyze, .submit]
  | .error => []

/-- A graph of stages that `build_transitions_graph` accepts, with its Complete stage. -/
structure StageGraph where
  graph : Dag String
  stageType : String → StageType
  complete : String
  complete_mem : complete ∈ graph.nodes
  complete_type : stageType complete = .complete
  valid : ∀ a b, b ∈ graph.succ a → stageType b ∈ localTransitions (stageType a)
  not_isolated : ∀ a ∈ graph.nodes, graph.succ a ≠ [] ∨ ∃ b ∈ graph.nodes, a ∈ graph.succ b

namespace StageGraph

variable (G : StageGraph)

/-- The stages of a type. -/
def stagesOf (type : StageType) : List String := G.graph.nodes.filter fun a => G.stageType a = type

/-- `stages_by_type`, where `get` gives `None` for a type that no stage has. -/
def stagesByType (type : StageType) : Option (List String) :=
  if G.stagesOf type = [] then none else some (G.stagesOf type)

/-- One stage can be reached from another, in one step or more. -/
def Reaches (a b : String) : Prop := Relation.TransGen G.graph.Edge a b

/-- `b` is reached from `a` on a path with no stage of this type in between. -/
def ClearOf (type : StageType) (a b : String) : Prop :=
  Clear G.graph.Edge (fun v => G.stageType v ≠ type) a b

end StageGraph

/-- The type that a list of stages gives to a stage. -/
def typeIn (stages : List (String × StageType)) (a : String) : StageType :=
  (stages.lookup a).getD .error

/-- Lists of stages and edges are a graph where they pass these tests.  The stages are listed in an
order that the edges keep. -/
structure StageGraph.Listed (stages : List (String × StageType)) (edges : List (String × String))
    (complete : String) : Prop where
  nodup : (stages.map Prod.fst).Nodup
  closed : ∀ e ∈ edges, e.1 ∈ stages.map Prod.fst ∧ e.2 ∈ stages.map Prod.fst
  order : ∀ e ∈ edges, (stages.map Prod.fst).idxOf e.1 < (stages.map Prod.fst).idxOf e.2
  complete_mem : (complete, StageType.complete) ∈ stages
  complete_type : typeIn stages complete = .complete
  valid : ∀ e ∈ edges, typeIn stages e.2 ∈ localTransitions (typeIn stages e.1)
  not_isolated : ∀ a ∈ stages.map Prod.fst, ∃ e ∈ edges, e.1 = a ∨ e.2 = a

/-- The graph of a list of stages and edges. -/
def StageGraph.ofLists (stages : List (String × StageType)) (edges : List (String × String))
    (complete : String) (h : Listed stages edges complete) : StageGraph where
  graph := Dag.ofEdges (stages.map Prod.fst) edges h.nodup h.closed h.order
  stageType := typeIn stages
  complete
  complete_mem := List.mem_map.mpr ⟨_, h.complete_mem, rfl⟩
  complete_type := h.complete_type
  valid := fun _ _ hb => h.valid _ (Dag.mem_succ_ofEdges.mp hb)
  not_isolated := by
    intro a ha
    obtain ⟨⟨x, y⟩, he, rfl | rfl⟩ := h.not_isolated a ha
    · exact Or.inl (List.ne_nil_of_mem (Dag.mem_succ_ofEdges.mpr he))
    · exact Or.inr ⟨x, (h.closed _ he).1, Dag.mem_succ_ofEdges.mpr he⟩

/-- A `BaseEdge`, as far as the choices read it. -/
structure BaseEdge where
  source : String
  stagesByType : StageType → Option (List String)
  pathLengths : List (String × ℕ)
  allPaths : List String

/-- `map_to_setup_stages`, for an edge that leaves a stage. -/
def mapToSetupStages (G : StageGraph) (nx : PathFunctions G.graph) (source : String) : BaseEdge where
  source
  stagesByType := G.stagesByType
  pathLengths := nx.pathLengths source
  allPaths := (nx.simplePaths source G.complete).flatten

namespace BaseEdge

/-- The stages that are chosen: those on the paths to the end, and not farther than the first stage
that ends the choice. -/
def selectCandidates (stages barriers : List String) (e : BaseEdge) : List String :=
  let candidates := stages.filter fun name => name ∈ e.allPaths
  let distances := (e.pathLengths.filter fun x => x.1 ∈ barriers).map Prod.snd
  (e.pathLengths.filter fun x =>
    decide (x.1 ∈ candidates) && distances.min?.all fun least => x.2 ≤ least).map Prod.fst

/-- `SetupEdge.get_setup_candidates`.  `None` has no items: where there are no Execute stages this raises. -/
def getSetupCandidates (e : BaseEdge) : Option (List String) := do
  let executeStages ← e.stagesByType .execute
  let setupStages ← e.stagesByType .setup
  pure (e.selectCandidates executeStages setupStages)

/-- `SetupEdge.get_optimize_candidates`, the only one that has a default. -/
def getOptimizeCandidates (e : BaseEdge) : Option (List String) := do
  let optimizeStages := (e.stagesByType .optimize).getD []
  let setupStages ← e.stagesByType .setup
  pure (e.selectCandidates optimizeStages (setupStages ++ optimizeStages))

/-- `ExecuteEdge.generate_analyze_candidates` -/
def generateAnalyzeCandidates (e : BaseEdge) : Option (List String) := do
  let analyzeStages ← e.stagesByType .analyze
  pure (e.selectCandidates analyzeStages analyzeStages)

/-- `AnalyzeEdge.generate_submit_candidates` -/
def generateSubmitCandidates (e : BaseEdge) : Option (List String) := do
  let submitStages ← e.stagesByType .submit
  pure (e.selectCandidates submitStages submitStages)

end BaseEdge

/-! ## 1. What is chosen -/

variable {G : StageGraph} {nx : PathFunctions G.graph} {a b : String}

theorem mem_stagesOf {type : StageType} :
    a ∈ G.stagesOf type ↔ a ∈ G.graph.nodes ∧ G.stageType a = type := by
  rw [StageGraph.stagesOf, List.mem_filter, decide_eq_true_eq]

/-- A type has its entry where some stage is of it. -/
theorem stagesByType_eq_some_iff {type : StageType} {stages : List String} :
    G.stagesByType type = some stages ↔ stages = G.stagesOf type ∧ ∃ a ∈ G.graph.nodes, G.stageType a = type := by
  have hsome : G.stagesOf type ≠ [] ↔ ∃ a ∈ G.graph.nodes, G.stageType a = type := by
    constructor
    · intro hne
      obtain ⟨a, ha⟩ := List.exists_mem_of_ne_nil _ hne
      exact ⟨a, mem_stagesOf.mp ha⟩
    · rintro ⟨a, ha, htype⟩
      exact List.ne_nil_of_mem (mem_stagesOf.mpr ⟨ha, htype⟩)
  rw [← hsome, StageGraph.stagesByType]
  split
  · next hnil => exact iff_of_false nofun fun h => h.2 hnil
  · next hne => exact ⟨fun h => ⟨(Option.some.inj h).symm, hne⟩, fun h => congrArg some h.1.symm⟩

theorem reaches_iff : G.Reaches a b ↔ ∃ l, l ≠ [] ∧ Walk G.graph.Edge a l b := by
  constructor
  · exact Walk.exists_of_transGen
  · rintro ⟨l, hl, hw⟩
    exact hw.transGen hl

/-- The stages on the paths from a stage to the end, but for the stage itself. -/
theorem mem_allPaths (ha : a ∈ G.graph.nodes) (hne : a ≠ b) (hcomplete : a ≠ G.complete) :
    b ∈ (mapToSetupStages G nx a).allPaths ↔
      G.Reaches a b ∧ (b = G.complete ∨ G.Reaches b G.complete) := by
  change b ∈ (nx.simplePaths a G.complete).flatten ↔ _
  rw [List.mem_flatten]
  constructor
  · rintro ⟨p, hp, hb⟩
    obtain ⟨l, rfl, -, hw⟩ := (nx.mem_simplePaths ha hcomplete).mp hp
    obtain ⟨l₁, l₂, rfl, hne₁, h₁, h₂⟩ := hw.split ((List.mem_cons.mp hb).resolve_left hne.symm)
    refine ⟨h₁.transGen hne₁, ?_⟩
    rcases eq_or_ne l₂ [] with rfl | hne₂
    · exact Or.inl (Walk.nil_iff.mp h₂)
    · exact Or.inr (h₂.transGen hne₂)
  · rintro ⟨hreach, hend⟩
    obtain ⟨l₁, hne₁, h₁⟩ := reaches_iff.mp hreach
    have hwalk : ∃ l₂, Walk G.graph.Edge b l₂ G.complete := by
      rcases hend with rfl | hend
      · exact ⟨[], .nil _⟩
      · obtain ⟨l₂, -, h₂⟩ := reaches_iff.mp hend
        exact ⟨l₂, h₂⟩
    obtain ⟨l₂, h₂⟩ := hwalk
    have hw := h₁.append h₂
    refine ⟨a :: (l₁ ++ l₂), (nx.mem_simplePaths ha hcomplete).mpr
      ⟨_, rfl, Dag.nodup_of_walk hw, hw⟩, List.mem_cons_of_mem _ (List.mem_append_left _ ?_)⟩
    cases h₁ with
    | nil => exact absurd rfl hne₁
    | cons hr hrest => exact List.mem_of_getLast? hrest.getLast?

/-- A shortest walk. -/
theorem exists_distance {l : List String} (h : Walk G.graph.Edge a l b) :
    ∃ n, Distance G.graph.Edge a b n := by
  have hex : ∃ n, ∃ l, l.length = n ∧ Walk G.graph.Edge a l b := ⟨_, l, rfl, h⟩
  classical
  exact ⟨Nat.find hex, Nat.find_spec hex, fun m hm => Nat.find_min' hex hm⟩

theorem all_min?_iff {l : List ℕ} {n : ℕ} :
    (l.min?.all fun least => decide (n ≤ least)) = true ↔ ∀ m ∈ l, n ≤ m := by
  cases h : l.min? with
  | none =>
    obtain rfl := List.min?_eq_none_iff.mp h
    simp
  | some least =>
    rw [Option.all_some, decide_eq_true_eq]
    exact List.le_min?_iff h

/-- **What is chosen**, of a list of stages: those that are on the way to the end and not farther than
any other stage that ends the choice. -/
theorem mem_selectCandidates (ha : a ∈ G.graph.nodes) (hcomplete : a ≠ G.complete)
    {stages barriers : List String} :
    b ∈ (mapToSetupStages G nx a).selectCandidates stages barriers ↔
      b ∈ stages ∧ a ≠ b ∧ (b = G.complete ∨ G.Reaches b G.complete) ∧
        ∃ l, Walk G.graph.Edge a l b ∧ ∀ v ∈ barriers, v ≠ a → ∀ l', Walk G.graph.Edge a l' v →
          l.length ≤ l'.length := by
  have hbarriers : ∀ {n}, (∀ m, (∃ x : String × ℕ, (x ∈ (mapToSetupStages G nx a).pathLengths ∧
      x.1 ∈ barriers) ∧ x.2 = m) → n ≤ m) ↔
        ∀ v ∈ barriers, v ≠ a → ∀ l', Walk G.graph.Edge a l' v → n ≤ l'.length := by
    intro n
    constructor
    · intro h v hv hva l' hw
      obtain ⟨m, hm⟩ := exists_distance hw
      have hmem : (v, m) ∈ nx.pathLengths a := (nx.mem_pathLengths ha).mpr ⟨hva.symm, hm⟩
      exact (h m ⟨(v, m), ⟨hmem, hv⟩, rfl⟩).trans (hm.2 ⟨l', rfl, hw⟩)
    · rintro h m ⟨⟨v, m⟩, ⟨hmem, hv⟩, rfl⟩
      obtain ⟨hva, ⟨l', rfl, hw⟩, -⟩ := (nx.mem_pathLengths ha).mp hmem
      exact h v hv hva.symm l' hw
  unfold BaseEdge.selectCandidates
  simp only [List.mem_map, List.mem_filter, Bool.and_eq_true, decide_eq_true_eq, all_min?_iff]
  constructor
  · rintro ⟨⟨b', n⟩, ⟨hn, ⟨hb, hpath⟩, hleast⟩, rfl⟩
    obtain ⟨hne, ⟨l, rfl, hw⟩, -⟩ := (nx.mem_pathLengths ha).mp hn
    exact ⟨hb, hne, ((mem_allPaths ha hne hcomplete).mp hpath).2, l, hw, hbarriers.mp hleast⟩
  · rintro ⟨hb, hne, hend, l, hw, hnear⟩
    obtain ⟨n, hn⟩ := exists_distance hw
    have hreach : G.Reaches a b := hw.transGen fun hl => hne (Walk.nil_iff.mp (hl ▸ hw))
    refine ⟨(b, n), ⟨(nx.mem_pathLengths ha).mpr ⟨hne, hn⟩,
      ⟨hb, (mem_allPaths ha hne hcomplete).mpr ⟨hreach, hend⟩⟩, hbarriers.mpr ?_⟩, rfl⟩
    exact fun v hv hva l' hw' => (hn.2 ⟨l, rfl, hw⟩).trans (hnear v hv hva l' hw')

end Graphs
end Hedra
