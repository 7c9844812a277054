/-
# Workers for the stages of a generation

`build_transitions_graph` (`core/graphs/transitions/transition_assembler.py`) gives one worker to each
serial stage of a generation, and asks for an executor with what is left of the CPUs, over which the
parallel stages are partitioned (`partion_stage_batches`,
`core/graphs/stages/base/parallel/batch_executor.py`).  Idle stages are among these.

The index of the stage starts anew in every batch.  So only the stages of the first batch get anything,
and each of them gets it once for every batch.

* `allProvisioned_iff`: a graph is provisioned as it should be if and only if one batch is enough for
  every generation;
* `provision_ok_iff`: a generation gets executors at all, well provisioned or not, if and only if its
  serial stages leave a CPU for the parallel ones.
-/
import Hedra.Graphs.Stages
import Hedra.Lib.Outcomes
import Mathlib.Algebra.Order.BigOperators.Group.List
import Mathlib.Data.PNat.Basic

namespace Hedra
namespace Graphs
namespace Provisioning

open Lib.Outcomes

/-! ## 1. Stages -/

structure Stage where
  name : String
  stageType : StageType
  allowParallel : Bool
deriving DecidableEq

/-- The stages of a generation, by name. -/
structure Generation where
  stages : List Stage
  nodup : (stages.map Stage.name).Nodup

/-- One worker is enough for it. -/
def Stage.isSerial (s : Stage) : Bool := s.allowParallel = false && s.stageType ∉ [StageType.idle]

def Generation.serial (g : Generation) : List Stage := g.stages.filter Stage.isSerial

/-- `parallel_stages` -/
def Generation.parallel (g : Generation) : List Stage := g.stages.filter fun s => !s.isSerial

inductive Error
  | valueError
  | zeroDivisionError
deriving DecidableEq

/-! ## 2. Executors -/

/-- `BatchExecutor.__init__`: the workers of an executor.  There is no pool of none, and no semaphore for
fewer. -/
def batchExecutor (cpuCores : ℕ) (maxWorkers : ℤ) : Except Error ℕ :=
  let maxWorkers : ℤ := if maxWorkers > cpuCores then cpuCores else maxWorkers
  if maxWorkers < 1 then .error .valueError else .ok maxWorkers.toNat

/-- One more for so many in front. -/
def addRemainder (remainder : ℕ) (batch : List ℕ) : List ℕ :=
  (batch.take remainder).map (· + 1) ++ batch.drop remainder

/-- The workers for each place in each batch. -/
def batchedStages (stagesCount maxWorkers : ℕ) : List (List ℕ) :=
  let batchSetsCount := max 1 ((stagesCount + maxWorkers - 1) / maxWorkers)
  let moreStagesThanCpus := maxWorkers < stagesCount
  let batched :=
    if 0 < stagesCount % maxWorkers ∧ maxWorkers < stagesCount then
      let batchSize := maxWorkers
      List.replicate (batchSetsCount - 1) (List.replicate batchSize (maxWorkers / batchSize))
    else
      let batchSize := stagesCount / batchSetsCount
      List.replicate batchSetsCount (List.replicate batchSize (maxWorkers / batchSize))
  let lastBatchSize := stagesCount % maxWorkers
  let batched :=
    if 0 < lastBatchSize ∧ moreStagesThanCpus then
      batched ++ [List.replicate lastBatchSize (maxWorkers / lastBatchSize)]
    else batched
  batched.modify (batchSetsCount - 1) fun lastBatch =>
    addRemainder (maxWorkers % lastBatch.length) lastBatch

/-- The batches.  Each of them starts with the first stage. -/
def batches (maxWorkers : ℕ) (stages : List Stage) : List (List (Stage × ℕ)) :=
  (batchedStages stages.length maxWorkers).map fun batch => stages.zip batch

/-- `BatchExecutor.partion_stage_batches` -/
def partionStageBatches (batchByStages : Bool) (maxWorkers : ℕ) (stages : List Stage) :
    Except Error (List (Stage × ℕ)) :=
  if batchByStages = false then
    -- the batch size would be zero
    if stages = [] then .error .zeroDivisionError else .ok (batches maxWorkers stages).flatten
  else .ok (stages.map fun stage => (stage, 1))

/-! ## 3. Provisioning -/

/-- What comes of the stages of a generation. -/
structure Provision where
  maxWorkers : ℕ
  batched : List (Stage × ℕ)
  workers : String → ℕ

/-- The workers of the stages are set, one after the other. -/
def setWorkers (workers : String → ℕ) (assigned : List (Stage × ℕ)) : String → ℕ :=
  assigned.foldl (fun w a => Function.update w a.1.name a.2) workers

/-- What `build_transitions_graph` does for a generation, all of whose stages have as many workers as
there are CPUs before. -/
def provision (cpus cpuCores : ℕ) (g : Generation) : Except Error Provision := do
  let workers := setWorkers (fun _ => cpus) (g.serial.map fun stage => (stage, 1))
  g.serial.forM fun _ => do
    let _ ← batchExecutor cpuCores 1
  if g.parallel = [] then
    return { maxWorkers := 0, batched := [], workers := workers }
  else
    let maxWorkers ← batchExecutor cpuCores ((cpus : ℤ) - g.serial.length)
    let batched ← partionStageBatches false maxWorkers g.parallel
    batched.forM fun a => do
      let _ ← batchExecutor cpuCores a.2
    return { maxWorkers := maxWorkers, batched := batched, workers := setWorkers workers batched }

/-- `build_transitions_graph`, as far as the workers go. -/
def buildTransitionsGraph (cpus cpuCores : ℕ) (generations : List Generation) :
    Except Error (List Provision) :=
  generations.mapM (provision cpus cpuCores)

/-- A generation is provisioned as it should be. -/
structure Provisioned (cpus : ℕ) (g : Generation) (p : Provision) : Prop where
  workers : ∀ s ∈ g.stages, 1 ≤ p.workers s.name ∧ p.workers s.name ≤ cpus
  once : ∀ s ∈ g.parallel, (p.batched.map Prod.fst).count s = 1
  positive : ∀ a ∈ p.batched, 1 ≤ a.2
  total : ∀ batch ∈ batches p.maxWorkers g.parallel, (batch.map Prod.snd).sum ≤ p.maxWorkers

/-- The graph is built, and each generation is provisioned. -/
def AllProvisioned (cpus cpuCores : ℕ) (generations : List Generation) : Prop :=
  ∃ provisions, buildTransitionsGraph cpus cpuCores generations = .ok provisions ∧
    List.Forall₂ (Provisioned cpus) generations provisions

/-- The parallel stages are no more than there are workers for them. -/
def Generation.Fits (cpus cpuCores : ℕ) (g : Generation) : Prop :=
  g.parallel.length ≤ min (cpus - g.serial.length) cpuCores

/-! ## 4. Batches -/

theorem length_addRemainder (remainder : ℕ) (batch : List ℕ) :
    (addRemainder remainder batch).length = batch.length := by
  rw [addRemainder, List.length_append, List.length_map, List.length_take, List.length_drop]
  omega

theorem sum_addRemainder (remainder : ℕ) (batch : List ℕ) :
    (addRemainder remainder batch).sum = batch.sum + min remainder batch.length := by
  induction batch generalizing remainder with
  | nil => simp [addRemainder]
  | cons n batch ih =>
    cases remainder with
    | zero => simp [addRemainder]
    | succ remainder =>
      have h := ih remainder
      simp only [addRemainder, List.sum_append] at h
      simp only [addRemainder, List.take_succ_cons, List.drop_succ_cons, List.map_cons, List.cons_append,
        List.sum_cons, List.sum_append, List.length_cons]
      omega

theorem le_of_mem_addRemainder {remainder n k : ℕ} {batch : List ℕ} (h : ∀ w ∈ batch, n ≤ w)
    (hk : k ∈ addRemainder remainder batch) : n ≤ k := by
  rcases List.mem_append.mp hk with hk | hk
  · obtain ⟨w, hw, rfl⟩ := List.mem_map.mp hk
    exact (h w (List.mem_of_mem_take hw)).trans (Nat.le_succ w)
  · exact h k (List.mem_of_mem_drop hk)

section Batches

variable {n m : ℕ}

/-- One batch is enough. -/
theorem batchedStages_of_le (hn : 0 < n) (h : n ≤ m) :
    batchedStages n m = [addRemainder (m % n) (List.replicate n (m / n))] := by
  have hsets : max 1 ((n + m - 1) / m) = 1 := by
    rw [Nat.div_eq_of_lt_le (k := 1) (by omega) (by omega)]
    rfl
  have hmore : ¬ m < n := Nat.not_lt.mpr h
  simp [batchedStages, hsets, hmore]

/-- What the remainder keeps holds of every batch. -/
theorem forall_mem_modify {P : List ℕ → Prop} {f : List ℕ → List ℕ} {l : List (List ℕ)} (i : ℕ)
    (hl : ∀ b ∈ l, P b) (hf : ∀ b, P b → P (f b)) : ∀ b ∈ l.modify i f, P b := by
  intro b hb
  obtain ⟨j, hj, rfl⟩ := List.getElem_of_mem hb
  rw [List.getElem_modify]
  have hj' : j < l.length := by simpa using hj
  split
  · exact hf _ (hl _ (List.getElem_mem hj'))
  · exact hl _ (List.getElem_mem hj')

/-- The batches of as many stages as there are workers. -/
theorem batchSize_of_dvd {k : ℕ} (hm : 0 < m) (hk : 0 < k) :
    m * k / max 1 ((m * k + m - 1) / m) = m := by
  have hceil : (m * k + m - 1) / m = k := by
    refine Nat.div_eq_of_lt_le ?_ ?_
    · rw [Nat.mul_comm]
      omega
    · rw [Nat.add_mul, Nat.mul_comm k]
      omega
  rw [hceil, Nat.max_eq_right hk, Nat.mul_div_cancel _ hk]

/-- In no batch there are more stages than workers. -/
theorem length_le_of_mem_batchedStages (hm : 0 < m) (h : m < n) {batch : List ℕ}
    (hbatch : batch ∈ batchedStages n m) : batch.length ≤ m := by
  have hmod : n % m < m := Nat.mod_lt n hm
  have hsets : 0 < n % m ∨ n / max 1 ((n + m - 1) / m) ≤ m := by
    refine (Nat.eq_zero_or_pos (n % m)).symm.imp_right fun hzero => ?_
    obtain ⟨k, rfl⟩ := Nat.dvd_of_mod_eq_zero hzero
    have hk : 0 < k := Nat.pos_of_ne_zero fun hk => by simp [hk] at h
    exact (batchSize_of_dvd hm hk).le
  simp only [batchedStages] at hbatch
  refine forall_mem_modify (P := fun b => b.length ≤ m) _ ?_ (fun b hb => ?_) batch hbatch
  swap
  · rwa [length_addRemainder]
  intro b hb
  by_cases hrest : 0 < n % m
  · rw [if_pos ⟨hrest, h⟩, if_pos ⟨hrest, h⟩] at hb
    rcases List.mem_append.mp hb with hb | hb
    · rw [List.eq_of_mem_replicate hb, List.length_replicate]
    · rw [List.mem_singleton.mp hb, List.length_replicate]
      exact hmod.le
  · rw [if_neg fun hr => hrest hr.1, if_neg fun hr => hrest hr.1] at hb
    rw [List.eq_of_mem_replicate hb, List.length_replicate]
    exact hsets.resolve_left hrest

/-- No place is without a worker. -/
theorem one_le_of_mem_batchedStages (hm : 0 < m) (hn : 0 < n) {batch : List ℕ}
    (hbatch : batch ∈ batchedStages n m) : ∀ w ∈ batch, 1 ≤ w := by
  obtain hle | hlt := le_or_gt n m
  · rw [batchedStages_of_le hn hle, List.mem_singleton] at hbatch
    subst hbatch
    intro w hw
    refine le_of_mem_addRemainder (fun w hw => ?_) hw
    rw [List.eq_of_mem_replicate hw]
    exact (Nat.one_le_div_iff hn).mpr hle
  simp only [batchedStages] at hbatch
  refine forall_mem_modify (P := fun b => ∀ w ∈ b, 1 ≤ w) _ ?_
    (fun b hb w hw => le_of_mem_addRemainder hb hw) batch hbatch
  intro b hb w hw
  by_cases hrest : 0 < n % m
  · rw [if_pos ⟨hrest, hlt⟩, if_pos ⟨hrest, hlt⟩] at hb
    rcases List.mem_append.mp hb with hb | hb
    · rw [List.eq_of_mem_replicate hb] at hw
      rw [List.eq_of_mem_replicate hw, Nat.div_self hm]
    · rw [List.mem_singleton.mp hb] at hw
      rw [List.eq_of_mem_replicate hw]
      exact (Nat.one_le_div_iff hrest).mpr (Nat.mod_lt n hm).le
  · rw [if_neg fun hr => hrest hr.1, if_neg fun hr => hrest hr.1] at hb
    rw [List.eq_of_mem_replicate hb] at hw
    obtain ⟨k, rfl⟩ := Nat.dvd_of_mod_eq_zero (Nat.eq_zero_of_not_pos hrest)
    have hk : 0 < k := Nat.pos_of_ne_zero fun hk => by simp [hk] at hlt
    rw [batchSize_of_dvd hm hk] at hw
    rw [List.eq_of_mem_replicate hw, Nat.div_self hm]

end Batches

section Stages

variable {stages : List Stage} {m : ℕ}

theorem batches_of_le (hpos : 0 < stages.length) (h : stages.length ≤ m) :
    (batches m stages).flatten.map Prod.fst = stages ∧ (∀ a ∈ (batches m stages).flatten, 1 ≤ a.2) ∧
      ∀ batch ∈ batches m stages, (batch.map Prod.snd).sum = m := by
  have hlength : stages.length =
      (addRemainder (m % stages.length) (List.replicate stages.length (m / stages.length))).length := by
    rw [length_addRemainder, List.length_replicate]
  simp only [batches, batchedStages_of_le hpos h, List.map_singleton, List.flatten_singleton,
    List.mem_singleton, forall_eq]
  refine ⟨List.map_fst_zip hlength.le, fun a ha => ?_, ?_⟩
  · refine le_of_mem_addRemainder (fun w hw => ?_) (List.of_mem_zip ha).2
    rw [List.eq_of_mem_replicate hw]
    exact (Nat.le_div_iff_mul_le hpos).mpr (by rwa [Nat.one_mul])
  · have hmod := Nat.mod_lt m hpos
    rw [List.map_snd_zip hlength.ge, sum_addRemainder, List.sum_replicate_nat, List.length_replicate,
      Nat.min_eq_left hmod.le]
    exact Nat.div_add_mod m stages.length

/-- The stages behind the first batch get nothing. -/
theorem exists_not_assigned (hnodup : stages.Nodup) (hm : 0 < m) (h : m < stages.length) :
    ∃ s ∈ stages, s ∉ (batches m stages).flatten.map Prod.fst := by
  refine ⟨stages[m], List.getElem_mem h, fun hmem => ?_⟩
  obtain ⟨a, ha, heq⟩ := List.mem_map.mp hmem
  obtain ⟨batch, hbatch, ha⟩ := List.mem_flatten.mp ha
  obtain ⟨counts, hcounts, rfl⟩ := List.mem_map.mp hbatch
  obtain ⟨i, hi, rfl⟩ := List.getElem_of_mem ha
  have hlength := length_le_of_mem_batchedStages hm h hcounts
  rw [List.length_zip] at hi
  rw [List.getElem_zip] at heq
  have := (hnodup.getElem_inj_iff).mp heq
  omega

end Stages

/-! ## 5. Generations -/

theorem setWorkers_of_forall {P : ℕ → Prop} {workers : String → ℕ} {assigned : List (Stage × ℕ)}
    (hw : ∀ name, P (workers name)) (ha : ∀ a ∈ assigned, P a.2) (name : String) :
    P (setWorkers workers assigned name) := by
  induction assigned generalizing workers with
  | nil => exact hw name
  | cons a assigned ih =>
    refine ih (fun name => ?_) fun b hb => ha b (List.mem_cons_of_mem _ hb)
    simp only [Function.update_apply]
    split
    · exact ha a List.mem_cons_self
    · exact hw name

theorem batchExecutor_ok {cpuCores n : ℕ} (hcores : 0 < cpuCores) (hn : 0 < n) :
    batchExecutor cpuCores n = .ok (min n cpuCores) := by
  simp only [batchExecutor]
  by_cases h : (n : ℤ) > cpuCores
  · have hle : cpuCores ≤ n := by omega
    rw [if_pos h, if_neg (by omega), Nat.min_eq_right hle]
    rfl
  · have hle : n ≤ cpuCores := by omega
    rw [if_neg h, if_neg (by omega), Nat.min_eq_left hle]
    rfl

theorem batchExecutor_error {cpuCores : ℕ} {n : ℤ} (hn : n < 1) :
    batchExecutor cpuCores n = .error .valueError := by
  simp only [batchExecutor]
  rw [if_pos]
  split <;> omega

theorem forM_ok {α : Type} {f : α → Except Error Unit} {l : List α} (h : ∀ a ∈ l, f a = .ok ()) :
    l.forM f = .ok () := by
  induction l with
  | nil => rfl
  | cons a l ih =>
    simp only [List.forM, h a List.mem_cons_self]
    exact ih fun b hb => h b (List.mem_cons_of_mem _ hb)

section Provision

variable {cpus cpuCores : ℕ} {g : Generation} {p : Provision}

/-- The executors of the serial stages. -/
theorem forM_serial (hcores : 0 < cpuCores) :
    (g.serial.forM fun _ => do let _ ← batchExecutor cpuCores 1) = .ok () :=
  forM_ok fun _ _ => by
    have h : batchExecutor cpuCores 1 = .ok (min 1 cpuCores) := batchExecutor_ok hcores Nat.one_pos
    rw [h]
    rfl

/-- The workers before the parallel stages get theirs. -/
def serialWorkers (cpus : ℕ) (g : Generation) : String → ℕ :=
  setWorkers (fun _ => cpus) (g.serial.map fun stage => (stage, 1))

theorem serialWorkers_le (hcpus : 0 < cpus) (name : String) :
    1 ≤ serialWorkers cpus g name ∧ serialWorkers cpus g name ≤ cpus := by
  refine setWorkers_of_forall (P := fun n => 1 ≤ n ∧ n ≤ cpus) (fun _ => ⟨hcpus, le_rfl⟩) (fun a ha => ?_) name
  obtain ⟨s, -, rfl⟩ := List.mem_map.mp ha
  exact ⟨le_rfl, hcpus⟩

theorem provision_nil (hcores : 0 < cpuCores) (hnil : g.parallel = []) :
    provision cpus cpuCores g = .ok ⟨0, [], serialWorkers cpus g⟩ := by
  rw [provision, forM_serial hcores, if_pos hnil]
  rfl

/-- No executor is to be had where the serial stages have taken all CPUs. -/
theorem provision_error (hcores : 0 < cpuCores) (hne : g.parallel ≠ []) (hserial : cpus ≤ g.serial.length) :
    provision cpus cpuCores g = .error .valueError := by
  rw [provision, forM_serial hcores, if_neg hne, batchExecutor_error (by omega)]
  rfl

/-- Else it has the CPUs that are left. -/
theorem provision_cons {m : ℕ} (hcores : 0 < cpuCores) (hne : g.parallel ≠ [])
    (hserial : g.serial.length < cpus) (hm : min (cpus - g.serial.length) cpuCores = m) :
    provision cpus cpuCores g = (do
      (batches m g.parallel).flatten.forM fun a => do let _ ← batchExecutor cpuCores a.2
      return ⟨m, (batches m g.parallel).flatten,
        setWorkers (serialWorkers cpus g) (batches m g.parallel).flatten⟩) := by
  have hexec : batchExecutor cpuCores ((cpus : ℤ) - g.serial.length) = .ok m := by
    rw [← Int.ofNat_sub hserial.le, ← hm]
    exact batchExecutor_ok hcores (Nat.sub_pos_of_lt hserial)
  rw [provision, forM_serial hcores, if_neg hne, hexec]
  simp only [partionStageBatches, if_true, if_neg hne]
  rfl

/-- **A generation gets its executors** where no stage of it is parallel, or a CPU is left for those that
are. -/
theorem provision_ok_iff (hcores : 0 < cpuCores) :
    (∃ p, provision cpus cpuCores g = .ok p) ↔ (g.parallel ≠ [] → g.serial.length < cpus) := by
  by_cases hnil : g.parallel = []
  · exact iff_of_true ⟨_, provision_nil hcores hnil⟩ fun hne => absurd hnil hne
  by_cases hserial : g.serial.length < cpus
  · refine iff_of_true ?_ fun _ => hserial
    obtain ⟨m, hm⟩ : ∃ m, min (cpus - g.serial.length) cpuCores = m := ⟨_, rfl⟩
    have hforM : ((batches m g.parallel).flatten.forM fun a => do
        let _ ← batchExecutor cpuCores a.2) = .ok () := by
      refine forM_ok fun a ha => ?_
      obtain ⟨batch, hbatch, ha⟩ := List.mem_flatten.mp ha
      obtain ⟨counts, hcounts, rfl⟩ := List.mem_map.mp hbatch
      have hpos := one_le_of_mem_batchedStages (by omega) (List.length_pos_iff.mpr hnil) hcounts a.2
        (List.of_mem_zip ha).2
      rw [batchExecutor_ok hcores hpos]
      rfl
    rw [provision_cons hcores hnil hserial hm, hforM]
    exact ⟨_, rfl⟩
  · refine iff_of_false ?_ fun h => hserial (h hnil)
    rintro ⟨p, hp⟩
    rw [provision_error hcores hnil (not_lt.mp hserial)] at hp
    cases hp

theorem Generation.nodup_parallel (g : Generation) : g.parallel.Nodup := g.nodup.of_map.filter _

/-- What fits is provisioned. -/
theorem provisioned_of_fits (hcpus : 0 < cpus) (hcores : 0 < cpuCores) (h : g.Fits cpus cpuCores) :
    ∃ p, provision cpus cpuCores g = .ok p ∧ Provisioned cpus g p := by
  by_cases hnil : g.parallel = []
  · refine ⟨_, provision_nil hcores hnil, fun s _ => serialWorkers_le hcpus _, ?_, ?_, ?_⟩
    · rw [hnil]
      nofun
    · nofun
    · rw [hnil]
      intro batch hbatch
      obtain ⟨counts, -, rfl⟩ := List.mem_map.mp hbatch
      exact le_rfl
  · have hpos : 0 < g.parallel.length := List.length_pos_iff.mpr hnil
    unfold Generation.Fits at h
    obtain ⟨m, hm⟩ : ∃ m, min (cpus - g.serial.length) cpuCores = m := ⟨_, rfl⟩
    obtain ⟨honce, hpositive, htotal⟩ := batches_of_le hpos (hm ▸ h)
    have hforM : ((batches m g.parallel).flatten.forM fun a => do
        let _ ← batchExecutor cpuCores a.2) = .ok () :=
      forM_ok fun a ha => by
        rw [batchExecutor_ok hcores (hpositive a ha)]
        rfl
    have hok := provision_cons hcores hnil (by omega) hm
    rw [hforM] at hok
    have hle : ∀ a ∈ (batches m g.parallel).flatten, a.2 ≤ cpus := by
      intro a ha
      obtain ⟨batch, hbatch, ha⟩ := List.mem_flatten.mp ha
      have hsum : a.2 ≤ (batch.map Prod.snd).sum :=
        List.single_le_sum (fun _ _ => Nat.zero_le _) _ (List.mem_map_of_mem ha)
      rw [htotal batch hbatch] at hsum
      omega
    refine ⟨_, hok, fun s _ => ?_, fun s hs => ?_, hpositive, fun batch hbatch => (htotal batch hbatch).le⟩
    · exact setWorkers_of_forall (P := fun n => 1 ≤ n ∧ n ≤ cpus) (serialWorkers_le hcpus)
        (fun a ha => ⟨hpositive a ha, hle a ha⟩) s.name
    · rw [honce]
      exact List.count_eq_one_of_mem g.nodup_parallel hs

/-- What is provisioned fits. -/
theorem fits_of_provisioned (hcores : 0 < cpuCores) (hp : provision cpus cpuCores g = .ok p)
    (h : Provisioned cpus g p) : g.Fits cpus cpuCores := by
  by_contra hfits
  obtain ⟨m, hm⟩ : ∃ m, min (cpus - g.serial.length) cpuCores = m := ⟨_, rfl⟩
  have hlt : m < g.parallel.length := hm ▸ not_le.mp hfits
  have hne : g.parallel ≠ [] := List.ne_nil_of_length_pos (by omega)
  by_cases hserial : g.serial.length < cpus
  · rw [provision_cons hcores hne hserial hm] at hp
    have hbatched : p.batched = (batches m g.parallel).flatten := by
      revert hp
      cases (batches m g.parallel).flatten.forM fun a => do let _ ← batchExecutor cpuCores a.2 with
      | error e => nofun
      | ok _ => exact fun hp => (Except.ok.inj hp) ▸ rfl
    obtain ⟨s, hs, hnot⟩ := exists_not_assigned g.nodup_parallel (by omega) hlt
    have hcount := h.once s hs
    rw [hbatched, List.count_eq_zero_of_not_mem hnot] at hcount
    exact absurd hcount (by decide)
  · rw [provision_error hcores hne (not_lt.mp hserial)] at hp
    cases hp

end Provision

/-- **The stages of a graph are provisioned if and only if every generation fits.** -/
theorem allProvisioned_iff (cpus cpuCores : ℕ+) (generations : List Generation) :
    AllProvisioned cpus cpuCores generations ↔ ∀ g ∈ generations, g.Fits cpus cpuCores := by
  unfold AllProvisioned buildTransitionsGraph
  rw [exists_mapM_iff]
  refine forall₂_congr fun g _ => ⟨?_, ?_⟩
  · rintro ⟨p, hp, h⟩
    exact fits_of_provisioned cpuCores.pos hp h
  · exact provisioned_of_fits cpus.pos cpuCores.pos

/-- Three executing stages. -/
def threeStages : Generation where
  stages := [⟨"first", .execute, true⟩, ⟨"second", .execute, true⟩, ⟨"third", .execute, true⟩]
  nodup := by decide

/-- With two CPUs for three stages, the third gets nothing and the first is in both batches; and with one
CPU for a serial stage and a parallel one, no executor is to be had. -/
theorem not_allProvisioned :
    (buildTransitionsGraph 2 2 [threeStages]).toOption.map (fun ps => ps.map fun p => p.batched) =
      some [[(⟨"first", .execute, true⟩, 1), (⟨"second", .execute, true⟩, 1),
        (⟨"first", .execute, true⟩, 2)]] ∧
    ¬ AllProvisioned 2 2 [threeStages] ∧
    buildTransitionsGraph 1 1 [⟨[⟨"setup", .setup, false⟩, ⟨"execute", .execute, true⟩], by decide⟩] =
      .error .valueError := by
  refine ⟨by decide +kernel, ?_, rfl⟩
  rintro ⟨ps, hps, hall⟩
  have hp : ∃ p, provision 2 2 threeStages = .ok p ∧ Provisioned 2 threeStages p :=
    exists_mapM_iff.mp ⟨ps, hps, hall⟩ threeStages List.mem_cons_self
  obtain ⟨p, hp, h⟩ := hp
  exact absurd (fits_of_provisioned (by decide) hp h) (by unfold Generation.Fits; decide)

end Provisioning
end Graphs
end Hedra
