/-
# The stages that a Setup stage configures

A Setup stage is there for the Execute stages that come after it, up to the next Setup stage.
`get_setup_candidates` (`core/graphs/transitions/setup/setup_edge.py`) takes those that are not
farther than the nearest other Setup stage, wherever that one is.  On the path to a stage this is
the same; but a Setup stage on one branch ends the choice on all others, too.  And it raises where
there are no Execute stages at all.

The stages and the paths are those of `Stages.lean`.  `setupCoverage_iff` says for which graphs each
Execute stage is configured by the Setup stage before it, and by no other.
-/
import Hedra.Graphs.Stages

namespace Hedra
namespace Graphs

open Lib

variable (G : StageGraph) (nx : PathFunctions G.graph)

/-- `b` is one of the stages that `get_setup_candidates` selects for `a`. -/
def Configures (a b : String) : Prop :=
  ∃ candidates, (mapToSetupStages G nx a).getSetupCandidates = some candidates ∧ b ∈ candidates

/-- **Each Setup stage configures what comes after it**, up to the next one; and so every Execute stage
that comes after some Setup stage is configured. -/
structure SetupCoverage : Prop where
  returns : ∀ a ∈ G.graph.nodes, G.stageType a = .setup →
    ∃ candidates, (mapToSetupStages G nx a).getSetupCandidates = some candidates
  exact : ∀ a ∈ G.graph.nodes, G.stageType a = .setup → ∀ b, Configures G nx a b ↔
    G.stageType b = .execute ∧ G.ClearOf .setup a b
  covered : ∀ b, G.stageType b = .execute →
    (∃ a ∈ G.graph.nodes, G.stageType a = .setup ∧ G.Reaches a b) →
      ∃ a ∈ G.graph.nodes, G.stageType a = .setup ∧ Configures G nx a b

/-- The Execute stages after a Setup stage are on the way to the end, and no other Setup stage is nearer
than they are. -/
def NearestSetup (a : String) : Prop :=
  ∀ b, G.stageType b = .execute → G.ClearOf .setup a b → G.Reaches b G.complete ∧
    ∃ l, Walk G.graph.Edge a l b ∧ ∀ v, G.stageType v = .setup → v ≠ a →
      ∀ l', Walk G.graph.Edge a l' v → l.length ≤ l'.length

variable {G nx} {a b : String}

theorem ne_of_type {type type' : StageType} (ha : G.stageType a = type) (hb : G.stageType b = type')
    (hne : type ≠ type') : a ≠ b := by
  rintro rfl
  exact hne (ha.symm.trans hb)

/-- The choice is made where there is an Execute stage in the graph. -/
theorem getSetupCandidates_eq_some_iff (ha : a ∈ G.graph.nodes) (hsetup : G.stageType a = .setup)
    {candidates : List String} :
    (mapToSetupStages G nx a).getSetupCandidates = some candidates ↔
      candidates = (mapToSetupStages G nx a).selectCandidates (G.stagesOf .execute) (G.stagesOf .setup) ∧
        ∃ b ∈ G.graph.nodes, G.stageType b = .execute := by
  have hsetups : G.stagesByType .setup = some (G.stagesOf .setup) :=
    stagesByType_eq_some_iff.mpr ⟨rfl, a, ha, hsetup⟩
  change (G.stagesByType .execute >>= fun executeStages => G.stagesByType .setup >>= fun setupStages =>
    some ((mapToSetupStages G nx a).selectCandidates executeStages setupStages)) = _ ↔ _
  simp only [hsetups, Option.bind_eq_bind, Option.bind_some, Option.bind_eq_some_iff, stagesByType_eq_some_iff,
    Option.some_inj]
  exact ⟨fun ⟨_, ⟨rfl, hexecute⟩, h⟩ => ⟨h.symm, hexecute⟩, fun ⟨h, hexecute⟩ => ⟨_, ⟨rfl, hexecute⟩, h.symm⟩⟩

/-- What a Setup stage configures. -/
theorem configures_iff (ha : a ∈ G.graph.nodes) (hsetup : G.stageType a = .setup) :
    Configures G nx a b ↔ G.stageType b = .execute ∧ G.Reaches b G.complete ∧
      ∃ l, Walk G.graph.Edge a l b ∧ ∀ v, G.stageType v = .setup → v ≠ a →
        ∀ l', Walk G.graph.Edge a l' v → l.length ≤ l'.length := by
  have hcomplete : a ≠ G.complete := ne_of_type hsetup G.complete_type (by decide)
  have hchosen : Configures G nx a b ↔ (∃ v ∈ G.graph.nodes, G.stageType v = .execute) ∧
      b ∈ (mapToSetupStages G nx a).selectCandidates (G.stagesOf .execute) (G.stagesOf .setup) := by
    simp only [Configures, getSetupCandidates_eq_some_iff ha hsetup]
    exact ⟨fun ⟨_, ⟨h, hexecute⟩, hb⟩ => ⟨hexecute, h ▸ hb⟩, fun ⟨hexecute, hb⟩ => ⟨_, ⟨rfl, hexecute⟩, hb⟩⟩
  rw [hchosen, mem_selectCandidates ha hcomplete]
  constructor
  · rintro ⟨-, hb, hne, hend, l, hw, hnear⟩
    have hb := (mem_stagesOf.mp hb).2
    refine ⟨hb, hend.resolve_left (ne_of_type hb G.complete_type (by decide)), l, hw, ?_⟩
    intro v hv hva l' hw'
    have hl' : l' ≠ [] := fun hl' => hva (Walk.nil_iff.mp (hl' ▸ hw')).symm
    exact hnear v (mem_stagesOf.mpr ⟨Dag.mem_of_walk hw' hl', hv⟩) hva l' hw'
  · rintro ⟨hb, hend, l, hw, hnear⟩
    have hne : a ≠ b := ne_of_type hsetup hb (by decide)
    have hl : l ≠ [] := fun hl => hne (Walk.nil_iff.mp (hl ▸ hw))
    have hmem := Dag.mem_of_walk hw hl
    exact ⟨⟨b, hmem, hb⟩, mem_stagesOf.mpr ⟨hmem, hb⟩, hne, Or.inr hend, l, hw,
      fun v hv => hnear v (mem_stagesOf.mp hv).2⟩

/-- What a Setup stage configures comes after it, up to the next one. -/
theorem Configures.clear (ha : a ∈ G.graph.nodes) (hsetup : G.stageType a = .setup)
    (h : Configures G nx a b) : G.ClearOf .setup a b := by
  obtain ⟨hb, -, l, hw, hnear⟩ := (configures_iff ha hsetup).mp h
  have hl : l ≠ [] := by
    rintro rfl
    exact ne_of_type hsetup hb (by decide) (Walk.nil_iff.mp hw)
  exact ⟨l, hl, hw, Dag.clear_of_nearest hw hnear⟩

/-- **Setup stages configure what comes after them where there are Execute stages, and no other Setup
stage is nearer.** -/
theorem setupCoverage_iff (G : StageGraph) (nx : PathFunctions G.graph) :
    SetupCoverage G nx ↔
      ∀ a ∈ G.graph.nodes, G.stageType a = .setup →
        (∃ b ∈ G.graph.nodes, G.stageType b = .execute) ∧ NearestSetup G a := by
  constructor
  · intro h a ha hsetup
    obtain ⟨candidates, hcandidates⟩ := h.returns a ha hsetup
    refine ⟨((getSetupCandidates_eq_some_iff ha hsetup).mp hcandidates).2, fun b hb hclear => ?_⟩
    have hconfigures := (h.exact a ha hsetup b).mpr ⟨hb, hclear⟩
    exact ((configures_iff ha hsetup).mp hconfigures).2
  · intro h
    have hexact : ∀ a ∈ G.graph.nodes, G.stageType a = .setup → ∀ b, Configures G nx a b ↔
        G.stageType b = .execute ∧ G.ClearOf .setup a b := by
      intro a ha hsetup b
      constructor
      · intro hconf
        exact ⟨((configures_iff ha hsetup).mp hconf).1, hconf.clear ha hsetup⟩
      · rintro ⟨hb, hclear⟩
        exact (configures_iff ha hsetup).mpr ⟨hb, (h a ha hsetup).2 b hb hclear⟩
    refine ⟨fun a ha hsetup => ⟨_, (getSetupCandidates_eq_some_iff ha hsetup).mpr ⟨rfl, (h a ha hsetup).1⟩⟩, hexact,
      fun b hb hdown => ?_⟩
    obtain ⟨a, ha, hsetup, hreach⟩ := hdown
    obtain ⟨l, hl, hw⟩ := reaches_iff.mp hreach
    -- the last Setup stage on the way
    obtain ⟨v, hv, hclear⟩ := hw.exists_clear (P := fun v => G.stageType v = .setup) hl hsetup
    have hmem : v ∈ G.graph.nodes := by
      obtain ⟨l', hl', hw', -⟩ := hclear
      exact Dag.mem_of_start hw' hl'
    exact ⟨v, hmem, hv, (hexact v hmem hv b).mpr ⟨hb, hclear⟩⟩

/-- After the first Execute stage one branch has a second Setup stage, and the other has none. -/
theorem listed_twoBranches : StageGraph.Listed
    [("Idle", .idle), ("FirstSetup", .setup), ("Warmup", .execute), ("SecondSetup", .setup),
      ("Login", .execute), ("Search", .execute), ("Checkout", .execute), ("Analyze", .analyze),
      ("Submit", .submit), ("Complete", .complete)]
    [("Idle", "FirstSetup"), ("FirstSetup", "Warmup"), ("Warmup", "SecondSetup"),
      ("SecondSetup", "Login"), ("Warmup", "Search"), ("Search", "Checkout"), ("Login", "Analyze"),
      ("Checkout", "Analyze"), ("Analyze", "Submit"), ("Submit", "Complete")]
    "Complete" := by
  constructor <;> decide +kernel

def twoBranches : StageGraph := .ofLists _ _ _ listed_twoBranches

/-- The second Setup stage ends the choice of the first on the other branch, too. -/
theorem branch_cut_off :
    ¬ ∀ (G : StageGraph) (nx : PathFunctions G.graph), SetupCoverage G nx := by
  intro h
  have hreach : twoBranches.Reaches "FirstSetup" "Checkout" :=
    .tail (.tail (.single (by decide +kernel : "Warmup" ∈ twoBranches.graph.succ "FirstSetup"))
      (by decide +kernel : "Search" ∈ twoBranches.graph.succ "Warmup"))
      (by decide +kernel : "Checkout" ∈ twoBranches.graph.succ "Search")
  obtain ⟨a, ha, hsetup, hconf⟩ := (h twoBranches twoBranches.graph.pathFunctions).covered "Checkout"
    (by decide +kernel) ⟨"FirstSetup", by decide +kernel, by decide +kernel, hreach⟩
  have hnone : ∀ a ∈ twoBranches.graph.nodes, twoBranches.stageType a = .setup → "Checkout" ∉
      ((mapToSetupStages twoBranches twoBranches.graph.pathFunctions a).getSetupCandidates).getD [] := by
    decide +kernel
  obtain ⟨candidates, hcandidates, hmem⟩ := hconf
  have hnot := hnone a ha hsetup
  rw [hcandidates] at hnot
  exact hnot hmem

end Graphs
end Hedra
