/-
# The histories that an edge sets up from

The edges that come before a stage deliver histories to its edges: dictionaries with what was set
up, optimized and measured.  `setup` (`core/graphs/transitions/execute/execute_edge.py`, and in
`optimize` and `act`) goes over them in the order in which they arrived.  From a history that is for
its stage it takes the configuration and the hooks: an optimized configuration always, and another
one if its batch size is larger than that of the configuration it has.  Later hooks replace earlier
ones of the same name.

The loops of `ExecuteEdge`, `OptimizeEdge` and `ActEdge` differ in which histories are for the stage,
and in what may be missing in them.

* `chosen_eq`: what `setup` chooses, of what it is offered;
* `merges_iff`: which offers can be merged in any order;
* `edges_merge_iff`: the same for the three edges.
-/
import Hedra.Lib.Dict
import Hedra.Lib.Merging

namespace Hedra
namespace Graphs

open Lib Merging

/-- A `Config`: what is compared, and the other options. -/
structure Config (Ω : Type) where
  batchSize : ℤ
  optimized : Bool
  options : Ω

structure Hook (Ω : Type) where
  name : String
  call : Ω

/-- What an edge has delivered.  A key that is missing is `none`; a value may be `None`, too. -/
structure History (Ω : Type) where
  setupStageConfigs : Option (Dict String (Config Ω)) := none
  executeStageSetupConfig : Option (Option (Config Ω)) := none
  executeStageSetupBy : Option (Option String) := none
  executeStageSetupHooks : Option (Option (List (Hook Ω))) := none
  setupStageReadyStages : Option (List String) := none
  setupStageCandidates : Option (List String) := none
  setupStageExperimentConfig : Option (Dict String Ω) := none
  sessionStageMonitors : Option (Dict String Ω) := none
  executeStageStreamedAnalytics : Option (List Ω) := none
  executeStageResults : Option (Dict String Ω) := none

inductive SetupError
  | keyError
      (key : String)
  | noneError
  | missingHistory
deriving DecidableEq

variable {Ω : Type}

/-- `d[key]` -/
def item {α : Type} (key : String) : Option α → Except SetupError α
  | some value => .ok value
  | none => .error (.keyError key)

/-- A value that must not be `None`. -/
def notNone {α : Type} : Option α → Except SetupError α
  | some value => .ok value
  | none => .error .noneError

/-- `d.update(other)` -/
def update {α : Type} (d other : Dict String α) : Dict String α :=
  other.items.foldl (fun d i => d.set i.1 i.2) d

/-- What an edge takes from a history that is for its stage. -/
structure Taken (Ω : Type) where
  config : Config Ω
  setupBy : Option String
  hooks : List (Hook Ω)
  readyStages : List String
  candidates : List String

/-- The variables of `setup`. -/
structure Merged (Ω : Type) where
  maxBatchSize : ℤ := 0
  executeStageSetupConfig : Option (Config Ω) := none
  executeStageSetupHooks : Dict String (Hook Ω) := .empty
  executeStageSetupBy : Option String := none
  setupStageReadyStages : List String := []
  setupStageCandidates : List String := []
  setupStageConfigs : Dict String (Config Ω) := .empty
  setupStageExperimentConfig : Dict String Ω := .empty
  sessionStageMonitors : Dict String Ω := .empty
  executeStageStreamedAnalytics : Dict String (List Ω) := .empty

namespace Merged

/-- `if x not in l: l.append(x)`, for each of the others. -/
def appendNew (l others : List String) : List String :=
  others.foldl (fun l x => if x ∈ l then l else l ++ [x]) l

/-- The configuration, unless there is a better one. -/
def takeConfig (x : Taken Ω) (m : Merged Ω) : Merged Ω :=
  if x.config.optimized then
    { m with
      executeStageSetupConfig := some x.config
      maxBatchSize := x.config.batchSize
      executeStageSetupBy := x.setupBy }
  else if m.maxBatchSize < x.config.batchSize then
    { m with
      executeStageSetupConfig := some x.config
      maxBatchSize := x.config.batchSize
      executeStageSetupBy := x.setupBy }
  else m

/-- What the three loops do with a history that is for their stage. -/
def take (x : Taken Ω) (m : Merged Ω) : Merged Ω :=
  let m := m.takeConfig x
  { m with
    executeStageSetupHooks := x.hooks.foldl (fun d hook => d.set hook.name hook) m.executeStageSetupHooks
    setupStageReadyStages := appendNew m.setupStageReadyStages x.readyStages
    setupStageCandidates := appendNew m.setupStageCandidates x.candidates }

def addMonitors (h : History Ω) (m : Merged Ω) : Merged Ω :=
  { m with
    sessionStageMonitors := update m.sessionStageMonitors (h.sessionStageMonitors.getD .empty) }

def addExperiment (h : History Ω) (m : Merged Ω) : Merged Ω :=
  { m with
    setupStageExperimentConfig :=
      update m.setupStageExperimentConfig (h.setupStageExperimentConfig.getD .empty) }

def addConfigs (h : History Ω) (m : Merged Ω) : Merged Ω :=
  { m with setupStageConfigs := update m.setupStageConfigs (h.setupStageConfigs.getD .empty) }

/-- `execute_stage_streamed_analytics` is a `defaultdict(list)`. -/
def addStreamed (source : String) (h : History Ω) (m : Merged Ω) : Merged Ω :=
  match h.executeStageStreamedAnalytics with
  | none | some [] => m
  | some streamed =>
    let before := (m.executeStageStreamedAnalytics.get? source).getD []
    { m with
      executeStageStreamedAnalytics := m.executeStageStreamedAnalytics.set source (before ++ streamed) }

end Merged

/-- The histories of an edge, by the names of the stages at the ends of the edge they were delivered
on, in the order of their arrival. -/
abbrev Histories (Ω : Type) := Dict (String × String) (History Ω)

/-! ## 1. The three loops -/

namespace Merged

/-- What is chosen for the stage, with what a better configuration must exceed. -/
def chosen (m : Merged Ω) : (Option (Config Ω) × ℤ) × Dict String (Hook Ω) :=
  ((m.executeStageSetupConfig, m.maxBatchSize), m.executeStageSetupHooks)

end Merged

/-- What a `setup` has of its own: what it takes from a history, if that one is for its stage; what it
collects besides; and what it does in the end. -/
structure SetupLoop (Ω : Type) where
  taken : String × String → History Ω → Except SetupError (Option (Taken Ω))
  collect : String × String → History Ω → Bool → Merged Ω → Merged Ω
  finish : Histories Ω → Except SetupError Unit
  chosen_collect : ∀ key h forStage m, (collect key h forStage m).chosen = m.chosen
  finish_perm : ∀ hs hs', hs'.items.Perm hs.items → (finish hs').isOk = (finish hs).isOk

namespace SetupLoop

variable (edge : SetupLoop Ω)

def step (m : Merged Ω) (entry : (String × String) × History Ω) : Except SetupError (Merged Ω) := do
  let taken ← edge.taken entry.1 entry.2
  let m := match taken with
    | some x => m.take x
    | none => m
  pure (edge.collect entry.1 entry.2 taken.isSome m)

def setup (hs : Histories Ω) : Except SetupError (Merged Ω) := do
  let m ← hs.items.foldlM edge.step {}
  edge.finish hs
  pure m

end SetupLoop

namespace ExecuteEdge

def taken (source : String) (key : String × String) (h : History Ω) :
    Except SetupError (Option (Taken Ω)) :=
  match (h.setupStageConfigs.getD .empty).get? source with
  | none => pure none
  | some config =>
    if key.2 = source then do
      let setupBy ← item "execute_stage_setup_by" h.executeStageSetupBy
      let hooks ← item "execute_stage_setup_hooks" h.executeStageSetupHooks
      let hooks ← notNone hooks
      let readyStages ← item "setup_stage_ready_stages" h.setupStageReadyStages
      let candidates ← item "setup_stage_candidates" h.setupStageCandidates
      pure (some { config, setupBy, hooks, readyStages, candidates })
    else pure none

def setupLoop (source : String) : SetupLoop Ω where
  taken := taken source
  collect key h forStage m :=
    let m := if forStage then m.addMonitors h else m
    (m.addStreamed key.1 h).addConfigs h
  finish _ := pure ()
  chosen_collect := by
    intro key h forStage m
    unfold Merged.addStreamed
    cases forStage <;> dsimp only [Bool.false_eq_true, if_false, if_true] <;> split <;> rfl
  finish_perm _ _ _ := rfl

end ExecuteEdge

namespace OptimizeEdge

def taken (source : String) (key : String × String) (h : History Ω) :
    Except SetupError (Option (Taken Ω)) :=
  if key.2 = source then do
    let config ← item "execute_stage_setup_config" h.executeStageSetupConfig
    let setupBy ← item "execute_stage_setup_by" h.executeStageSetupBy
    let config ← notNone config
    let hooks ← item "execute_stage_setup_hooks" h.executeStageSetupHooks
    let hooks ← notNone hooks
    let readyStages ← item "setup_stage_ready_stages" h.setupStageReadyStages
    let candidates ← item "setup_stage_candidates" h.setupStageCandidates
    pure (some { config, setupBy, hooks, readyStages, candidates })
  else pure none

def setupLoop (source : String) : SetupLoop Ω where
  taken := taken source
  collect key h forStage m :=
    let m := if forStage then ((m.addConfigs h).addExperiment h).addMonitors h else m
    m.addStreamed key.1 h
  finish _ := pure ()
  chosen_collect := by
    intro key h forStage m
    unfold Merged.addStreamed
    cases forStage <;> dsimp only [Bool.false_eq_true, if_false, if_true] <;> split <;> rfl
  finish_perm _ _ _ := rfl

end OptimizeEdge

namespace ActEdge

/-- `Config()` -/
def defaultConfig [Inhabited Ω] : Config Ω := { batchSize := 1000, optimized := false, options := default }

def taken [Inhabited Ω] (source : String) (key : String × String) (h : History Ω) :
    Except SetupError (Option (Taken Ω)) :=
  if key.2 = source then do
    let config ← notNone (h.executeStageSetupConfig.getD (some defaultConfig))
    let hooks ← notNone (h.executeStageSetupHooks.getD (some []))
    pure (some
      { config
        setupBy := h.executeStageSetupBy.join
        hooks
        readyStages := h.setupStageReadyStages.getD []
        candidates := h.setupStageCandidates.getD [] })
  else pure none

/-- What the end of `setup` reads beside the histories: the stages that the edge's stage comes after,
the paths from each stage, and the Act stages. -/
structure Surroundings where
  fromStageNames : List String
  allPaths : Dict String (List String)
  actStages : List String

/-- The end of `setup`: the results of the stages that come before; they are for the stage where it is
on their paths. -/
def rawResults (source : String) (around : Surroundings) (hs : Histories Ω) :
    Except SetupError (Dict String Ω) := do
  let rawResults ← around.fromStageNames.foldlM (fun results name =>
    match hs.get? (name, source) with
    | none => .error .missingHistory
    | some h => .ok (update results (h.executeStageResults.getD .empty))) Dict.empty
  rawResults.items.foldlM (fun results i => do
    let allPaths ← notNone (around.allPaths.get? i.1)
    if source ∈ allPaths then
      if i.1 ∈ around.actStages then pure (results.set i.1 i.2) else .error .noneError
    else pure results) Dict.empty

theorem rawResults_perm (source : String) (around : Surroundings) {hs hs' : Histories Ω}
    (h : hs'.items.Perm hs.items) : rawResults source around hs' = rawResults source around hs := by
  unfold rawResults
  simp only [Dict.get?_of_perm h]

def setupLoop [Inhabited Ω] (source : String) (around : Surroundings) : SetupLoop Ω where
  taken := taken source
  collect key h forStage m :=
    let m := if forStage then (m.addConfigs h).addExperiment h else m
    m.addStreamed key.1 h
  finish hs := (rawResults source around hs).map fun _ => ()
  chosen_collect := by
    intro key h forStage m
    unfold Merged.addStreamed
    cases forStage <;> dsimp only [Bool.false_eq_true, if_false, if_true] <;> split <;> rfl
  finish_perm _ _ h := by rw [rawResults_perm source around h]

end ActEdge

/-! ## 2. What should be chosen -/

namespace SetupLoop

variable (edge : SetupLoop Ω)

/-- What is taken from a history that can be read. -/
def takenFrom (entry : (String × String) × History Ω) : Option (Taken Ω) :=
  match edge.taken entry.1 entry.2 with
  | .ok taken => taken
  | .error _ => none

/-- What the histories have for the stage. -/
def offers (hs : Histories Ω) : List (Taken Ω) := hs.items.filterMap edge.takenFrom

/-- The configuration and the hooks that `setup` chooses, if it does not raise. -/
def chosen (hs : Histories Ω) : Option (Option (Config Ω) × (String → Option (Hook Ω))) :=
  match edge.setup hs with
  | .ok m => some (m.executeStageSetupConfig, m.executeStageSetupHooks.get?)
  | .error _ => none

/-- **What is chosen does not depend on the order** in which the histories arrived, and it is an
optimized configuration if there is one for the stage. -/
structure Merges (hs : Histories Ω) : Prop where
  orderFree : ∀ hs' : Histories Ω, hs'.items.Perm hs.items → edge.chosen hs' = edge.chosen hs
  optimizedWins : ∀ hs' : Histories Ω, hs'.items.Perm hs.items →
    (∃ x ∈ edge.offers hs, x.config.optimized = true) → ∀ m, edge.setup hs' = .ok m →
      ∃ config, m.executeStageSetupConfig = some config ∧ config.optimized = true

/-- `setup` can read the histories. -/
structure Readable (hs : Histories Ω) : Prop where
  taken : ∀ entry ∈ hs.items, (edge.taken entry.1 entry.2).isOk = true
  finish : (edge.finish hs).isOk = true

/-- What the histories offer can be merged in any order: no configuration that is not optimized has a
larger batch size than an optimized one, and one optimized configuration is offered, or one that is
the largest; and one hook of each name. -/
structure Mergeable (hs : Histories Ω) : Prop where
  configs : Settled Config.optimized Config.batchSize ((edge.offers hs).map Taken.config)
  hooks : Consistent Hook.name ((edge.offers hs).map Taken.hooks)

/-! ## 3. What is chosen -/

variable {edge} {hs : Histories Ω} {m : Merged Ω}

theorem chosen_take (x : Taken Ω) (m : Merged Ω) :
    (m.take x).chosen.1 = consider Config.optimized Config.batchSize m.chosen.1 x.config := by
  unfold Merged.take Merged.takeConfig consider Merged.chosen
  dsimp only
  split
  · rfl
  · split <;> rfl

theorem get?_foldl_hooks (hooks : List (Hook Ω)) (d : Dict String (Hook Ω)) (name : String) :
    (hooks.foldl (fun d hook => d.set hook.name hook) d).get? name =
      (lastWith Hook.name hooks name).or (d.get? name) := by
  induction hooks generalizing d with
  | nil => rfl
  | cons hook hooks ih =>
    rw [List.foldl_cons, ih, Dict.get?_set, lastWith_cons, Option.or_assoc]
    by_cases h : hook.name = name
    · rw [if_pos h.symm, if_pos h, Option.some_or]
    · rw [if_neg (Ne.symm h), if_neg h, Option.none_or]

theorem hooks_take (x : Taken Ω) (m : Merged Ω) (name : String) :
    (m.take x).executeStageSetupHooks.get? name =
      (lastWith Hook.name x.hooks name).or (m.executeStageSetupHooks.get? name) := by
  have hkeeps : (m.takeConfig x).executeStageSetupHooks = m.executeStageSetupHooks := by
    unfold Merged.takeConfig
    split
    · rfl
    · split <;> rfl
  change (x.hooks.foldl _ (m.takeConfig x).executeStageSetupHooks).get? name = _
  rw [get?_foldl_hooks, hkeeps]

/-- One history. -/
theorem step_eq (m : Merged Ω) (entry : (String × String) × History Ω) :
    (∃ error, edge.taken entry.1 entry.2 = .error error ∧ edge.step m entry = .error error) ∨
    ∃ m', (edge.taken entry.1 entry.2).isOk = true ∧ edge.step m entry = .ok m' ∧
      m'.chosen = ((edge.takenFrom entry).elim m fun x => m.take x).chosen := by
  unfold step takenFrom
  cases edge.taken entry.1 entry.2 with
  | error error => exact Or.inl ⟨error, rfl, rfl⟩
  | ok taken =>
    refine Or.inr ⟨_, rfl, rfl, (edge.chosen_collect _ _ _ _).trans ?_⟩
    cases taken <;> rfl

theorem isOk_foldlM {l : List ((String × String) × History Ω)} (m : Merged Ω) :
    (l.foldlM edge.step m).isOk = true ↔ ∀ entry ∈ l, (edge.taken entry.1 entry.2).isOk = true := by
  induction l generalizing m with
  | nil => exact iff_of_true rfl (List.forall_mem_nil _)
  | cons entry l ih =>
    rw [List.foldlM_cons, List.forall_mem_cons]
    rcases edge.step_eq m entry with ⟨error, htaken, hstep⟩ | ⟨m', htaken, hstep, -⟩
    · rw [hstep, htaken]
      exact iff_of_false (Bool.noConfusion ·) fun h => Bool.noConfusion h.1
    · rw [hstep]
      exact (ih m').trans (and_iff_right htaken).symm

/-- **What the loop chooses**, of what it is offered. -/
theorem foldlM_step {l : List ((String × String) × History Ω)} {m' : Merged Ω}
    (h : l.foldlM edge.step m = .ok m') :
    m'.chosen.1 = ((l.filterMap edge.takenFrom).map Taken.config).foldl
      (consider Config.optimized Config.batchSize) m.chosen.1 ∧
    ∀ name, m'.executeStageSetupHooks.get? name =
      (lastWith Hook.name ((l.filterMap edge.takenFrom).map Taken.hooks).flatten name).or
        (m.executeStageSetupHooks.get? name) := by
  induction l generalizing m with
  | nil =>
    obtain rfl := Except.ok.inj h
    exact ⟨rfl, fun _ => rfl⟩
  | cons entry l ih =>
    rw [List.foldlM_cons] at h
    rcases edge.step_eq m entry with ⟨error, -, hstep⟩ | ⟨m₁, -, hstep, hchosen⟩
    · rw [hstep] at h
      cases h
    · rw [hstep] at h
      obtain ⟨hconfig, hhooks⟩ := ih h
      have hfirst : m₁.chosen.1 = _ := congrArg Prod.fst hchosen
      have hsecond : m₁.executeStageSetupHooks = _ := congrArg Prod.snd hchosen
      cases htaken : edge.takenFrom entry with
      | none =>
        rw [htaken] at hfirst hsecond
        rw [List.filterMap_cons_none htaken, hconfig, hfirst]
        refine ⟨rfl, fun name => ?_⟩
        rw [hhooks, hsecond]
        rfl
      | some x =>
        rw [htaken] at hfirst hsecond
        rw [List.filterMap_cons_some htaken, List.map_cons, List.map_cons, hconfig, hfirst]
        rw [List.foldl_cons, ← chosen_take]
        refine ⟨rfl, fun name => ?_⟩
        rw [hhooks, hsecond, List.flatten_cons, lastWith_append, Option.or_assoc]
        exact congrArg _ (hooks_take x m name)

/-- `setup` goes through the histories, and does what it does in the end. -/
theorem setup_cases (edge : SetupLoop Ω) (hs : Histories Ω) :
    (∃ m, edge.Readable hs ∧ hs.items.foldlM edge.step {} = .ok m ∧ edge.setup hs = .ok m) ∨
      ¬ edge.Readable hs ∧ ∃ error, edge.setup hs = .error error := by
  have hok : (hs.items.foldlM edge.step {}).isOk = true ↔
      ∀ entry ∈ hs.items, (edge.taken entry.1 entry.2).isOk = true := isOk_foldlM {}
  unfold setup
  cases hfold : hs.items.foldlM edge.step {} with
  | error error =>
    rw [hfold] at hok
    exact Or.inr ⟨fun h => Bool.noConfusion (hok.mpr h.taken), error, rfl⟩
  | ok m =>
    rw [hfold] at hok
    cases hfinish : edge.finish hs with
    | error error =>
      refine Or.inr ⟨fun h => ?_, error, rfl⟩
      have hfinished := h.finish
      rw [hfinish] at hfinished
      cases hfinished
    | ok =>
      refine Or.inl ⟨m, ⟨hok.mp rfl, ?_⟩, rfl, rfl⟩
      rw [hfinish]
      rfl

/-- **What `setup` chooses.** -/
theorem chosen_eq (h : edge.Readable hs) :
    edge.chosen hs =
      some (champion Config.optimized Config.batchSize ((edge.offers hs).map Taken.config),
        lastWith Hook.name ((edge.offers hs).map Taken.hooks).flatten) := by
  rcases setup_cases edge hs with ⟨m, -, hfold, hsetup⟩ | ⟨hnot, -⟩
  · obtain ⟨hconfig, hhooks⟩ := foldlM_step hfold
    have hconfig : m.executeStageSetupConfig =
        champion Config.optimized Config.batchSize ((edge.offers hs).map Taken.config) :=
      congrArg Prod.fst hconfig
    have hhooks : m.executeStageSetupHooks.get? =
        lastWith Hook.name ((edge.offers hs).map Taken.hooks).flatten :=
      funext fun name => (hhooks name).trans Option.or_none
    rw [chosen, hsetup, ← hconfig, ← hhooks]
  · exact absurd h hnot

theorem config_eq (h : edge.setup hs = .ok m) :
    edge.Readable hs ∧ m.executeStageSetupConfig =
      champion Config.optimized Config.batchSize ((edge.offers hs).map Taken.config) := by
  rcases setup_cases edge hs with ⟨m', hread, -⟩ | ⟨-, error, hsetup⟩
  · have heq := chosen_eq hread
    rw [chosen, h] at heq
    exact ⟨hread, (Prod.mk.inj (Option.some.inj heq)).1⟩
  · rw [hsetup] at h
    cases h

theorem chosen_eq_none (h : ¬ edge.Readable hs) : edge.chosen hs = none := by
  rcases setup_cases edge hs with ⟨-, hread, -⟩ | ⟨-, error, hsetup⟩
  · exact absurd hread h
  · rw [chosen, hsetup]

theorem Readable.of_perm {hs' : Histories Ω} (h : hs'.items.Perm hs.items) :
    edge.Readable hs' ↔ edge.Readable hs := by
  constructor
  · rintro ⟨htaken, hfinish⟩
    exact ⟨fun entry hentry => htaken entry (h.mem_iff.mpr hentry),
      (edge.finish_perm hs hs' h).symm.trans hfinish⟩
  · rintro ⟨htaken, hfinish⟩
    exact ⟨fun entry hentry => htaken entry (h.mem_iff.mp hentry),
      (edge.finish_perm hs hs' h).trans hfinish⟩

theorem offers_perm {hs' : Histories Ω} (h : hs'.items.Perm hs.items) :
    (edge.offers hs').Perm (edge.offers hs) := h.filterMap _

/-- Another order of what is offered comes from another order of the histories. -/
theorem exists_histories {β : Type} {f : Taken Ω → β} {l : List β} (h : l.Perm ((edge.offers hs).map f)) :
    ∃ hs' : Histories Ω, hs'.items.Perm hs.items ∧ (edge.offers hs').map f = l := by
  rw [offers, List.map_filterMap] at h
  obtain ⟨items, hperm, heq⟩ := exists_perm_filterMap h
  refine ⟨⟨items, (hperm.map Prod.fst).nodup_iff.mpr hs.nodup⟩, hperm, ?_⟩
  rw [offers, List.map_filterMap]
  exact heq

/-- **What is chosen is merged in any order where the offers are.** -/
theorem merges_iff (edge : SetupLoop Ω) (hs : Histories Ω) :
    edge.Merges hs ↔ (edge.Readable hs → edge.Mergeable hs) := by
  constructor
  · intro h hread
    have hchosen : ∀ hs' : Histories Ω, hs'.items.Perm hs.items →
        champion Config.optimized Config.batchSize ((edge.offers hs').map Taken.config) =
          champion Config.optimized Config.batchSize ((edge.offers hs).map Taken.config) ∧
        lastWith Hook.name ((edge.offers hs').map Taken.hooks).flatten =
          lastWith Hook.name ((edge.offers hs).map Taken.hooks).flatten := by
      intro hs' hperm
      have heq := h.orderFree hs' hperm
      rw [chosen_eq hread, chosen_eq ((Readable.of_perm hperm).mpr hread)] at heq
      exact Prod.mk.inj (Option.some.inj heq)
    refine ⟨champion_iff.mp ⟨fun l hl => ?_, fun l hl hex => ?_⟩,
      orderFree_lastWith_iff.mp fun l hl => ?_⟩
    · obtain ⟨hs', hperm, rfl⟩ := exists_histories hl
      exact (hchosen hs' hperm).1
    · obtain ⟨hs', hperm, rfl⟩ := exists_histories hl
      have hread' := (Readable.of_perm hperm).mpr hread
      rcases setup_cases edge hs' with ⟨m, -, -, hsetup⟩ | ⟨hnot, -⟩
      · obtain ⟨config, hconfig, hoptimized⟩ := h.optimizedWins hs' hperm
          (by simpa using hex) m hsetup
        exact ⟨config, (config_eq hsetup).2.symm.trans hconfig, hoptimized⟩
      · exact absurd hread' hnot
    · obtain ⟨hs', hperm, rfl⟩ := exists_histories hl
      exact (hchosen hs' hperm).2
  · intro h
    by_cases hread : edge.Readable hs
    · obtain ⟨hsettled, hhooks⟩ := h hread
      refine ⟨fun hs' hperm => ?_, fun hs' hperm hex m hsetup => ?_⟩
      · have hlast : lastWith Hook.name ((edge.offers hs').map Taken.hooks).flatten =
            lastWith Hook.name ((edge.offers hs).map Taken.hooks).flatten :=
          orderFree_lastWith_iff.mpr hhooks _ ((offers_perm hperm).map _)
        rw [chosen_eq hread, chosen_eq ((Readable.of_perm hperm).mpr hread),
          hsettled.champion_eq ((offers_perm hperm).map _), hlast]
      · rw [(config_eq hsetup).2]
        exact (champion_iff.mpr hsettled).2 _ ((offers_perm hperm).map _) (by simpa using hex)
    · refine ⟨fun hs' hperm => ?_, fun hs' hperm _ m hsetup => ?_⟩
      · rw [chosen_eq_none hread, chosen_eq_none (mt (Readable.of_perm hperm).mp hread)]
      · exact absurd ((Readable.of_perm hperm).mp (config_eq hsetup).1) hread

end SetupLoop

/-! ## 4. The three edges -/

/-- **An edge chooses the same in any order where what it is offered can be merged.** -/
theorem edges_merge_iff [Inhabited Ω] (source : String) (around : ActEdge.Surroundings)
    (hs : Histories Ω) :
    ((ExecuteEdge.setupLoop source).Merges hs ↔
      ((ExecuteEdge.setupLoop source).Readable hs → (ExecuteEdge.setupLoop source).Mergeable hs)) ∧
    ((OptimizeEdge.setupLoop source).Merges hs ↔
      ((OptimizeEdge.setupLoop source).Readable hs → (OptimizeEdge.setupLoop source).Mergeable hs)) ∧
    ((ActEdge.setupLoop source around).Merges hs ↔
      ((ActEdge.setupLoop source around).Readable hs →
        (ActEdge.setupLoop source around).Mergeable hs)) :=
  ⟨SetupLoop.merges_iff _ hs, SetupLoop.merges_iff _ hs, SetupLoop.merges_iff _ hs⟩

/-- What an edge delivers with a configuration for the stage Login. -/
def delivered (config : Config Unit) : History Unit where
  setupStageConfigs := some (Dict.empty.set "Login" config)
  executeStageSetupBy := some (some "SetupStage")
  executeStageSetupHooks := some (some [])
  setupStageReadyStages := some []
  setupStageCandidates := some []

/-- An optimized configuration comes first, and then one with a larger batch size. -/
def optimizedFirst : Histories Unit :=
  (Dict.empty.set ("OptimizeStage", "Login") (delivered ⟨500, true, ()⟩)).set
    ("SetupStage", "Login") (delivered ⟨1000, false, ()⟩)

/-- A configuration that is not optimized replaces an optimized one. -/
theorem optimized_replaced :
    ¬ ∀ hs : Histories Unit, (ExecuteEdge.setupLoop "Login").Merges hs := by
  intro h
  have hoffer : ∃ x ∈ (ExecuteEdge.setupLoop "Login").offers optimizedFirst,
      x.config.optimized = true := ⟨_, List.mem_cons_self, rfl⟩
  obtain ⟨config, hconfig, hoptimized⟩ :=
    (h optimizedFirst).optimizedWins optimizedFirst (.refl _) hoffer _ rfl
  obtain rfl := Option.some.inj hconfig
  cases hoptimized

end Graphs
end Hedra
