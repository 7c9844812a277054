/-
# Whom a suspicion check asks

`_get_confirmation_members` (`distributed/monitoring/monitor_service.py`) draws the nodes that are
to confirm a suspicion from all the nodes it knows, whatever their status, but the suspect.  If
there are fewer than it is configured to ask, it lowers `_check_nodes_count` to their number, and
nothing ever raises it again: each check asks as many as the scarcest check so far could.

* `checkNodesCount_of_run`: the count after any run;
* `fanOut_iff`: when each check of a history asks as many as it should.
-/
import Mathlib.Data.List.Perm.Subperm
import Hedra.Lib.Machine
import Hedra.Monitoring.Monitor

namespace Hedra

open Lib Lib.Machine

/-- A `Monitor` with `_check_nodes_count`. -/
structure ConfirmingMonitor where
  monitor : Monitor
  checkNodesCount : Nat

namespace ConfirmingMonitor

variable {s c c' : ConfirmingMonitor} {suspect : Address} {chosen : List Address}

/-! ## 1. The function -/

/-- `confirmation_members`: every address of `_node_statuses` but the suspect's. -/
def candidates (c : ConfirmingMonitor) (suspect : Address) : List Address :=
  c.monitor.nodeStatuses.keys.filter fun a => a ≠ suspect

/-- `_get_confirmation_members`, up to the `random.sample` it ends with: the state, the nodes to
draw from and how many of them to draw. -/
def getConfirmationMembers (c : ConfirmingMonitor) (suspect : Address) :
    ConfirmingMonitor × List Address × Nat :=
  let confirmationMembers := c.candidates suspect
  let c := if c.checkNodesCount > confirmationMembers.length then
      { c with checkNodesCount := confirmationMembers.length }
    else c
  (c, confirmationMembers, c.checkNodesCount)

/-- `chosen` is a possible value of `random.sample(population, k)`. -/
def IsSample (population : List Address) (k : Nat) (chosen : List Address) : Prop :=
  chosen.length = k ∧ chosen.Subperm population

instance (population : List Address) (k : Nat) (chosen : List Address) :
    Decidable (IsSample population k chosen) :=
  inferInstanceAs (Decidable (_ ∧ _))

/-! ## 2. Histories -/

/-- What happens to the membership, and the checks. -/
inductive Event
  /-- A node joins, fails, recovers or leaves: `_node_statuses[a] = status`. -/
  | noteStatus
      (a : Address)
      (status : HealthStatus)
  /-- A suspicion check, with the members that were drawn. -/
  | check
      (suspect : Address)
      (chosen : List Address)

/-- The machine: a fresh monitor knows nobody, and no address is ever deleted from
`_node_statuses`. -/
def step (c : ConfirmingMonitor) : Event → Option ConfirmingMonitor
  | .noteStatus a status =>
    some { c with monitor.nodeStatuses := c.monitor.nodeStatuses.set a status }
  | .check suspect chosen =>
    let drawn := c.getConfirmationMembers suspect
    if IsSample drawn.2.1 drawn.2.2 chosen then some drawn.1 else none

/-- `MERCURY_SYNC_INDIRECT_CHECK_NODES` nodes are to be asked. -/
def init (address : Address) (maxSuspectMultiplier : Int) (indirectCheckNodes : Nat) :
    ConfirmingMonitor where
  monitor := Monitor.init address maxSuspectMultiplier
  checkNodesCount := indirectCheckNodes

/-- The run of `evs` from `s` makes, after `before` and in the state `c`, a check of `suspect`, at
which `chosen` are drawn. -/
def ChecksAt (s : ConfirmingMonitor) (evs before : List Event) (c : ConfirmingMonitor)
    (suspect : Address) (chosen : List Address) : Prop :=
  ∃ after c', evs = before ++ .check suspect chosen :: after ∧ run step s before = some c ∧
    c.step (.check suspect chosen) = some c'

/-- The nodes other than the suspect that are available, where `available` may read their address
and their status. -/
def availableOthers (available : Address → HealthStatus → Bool) (c : ConfirmingMonitor)
    (suspect : Address) : Nat :=
  c.monitor.nodeStatuses.items.countP fun i => i.1 ≠ suspect && available i.1 i.2

/-- **A check asks whom it should**: as many of the available others as are configured. -/
def FanOut (available : Address → HealthStatus → Bool) (indirectCheckNodes : Nat)
    (c : ConfirmingMonitor) (suspect : Address) (chosen : List Address) : Prop :=
  chosen.length = min indirectCheckNodes (c.availableOthers available suspect) ∧
    chosen.Nodup ∧ suspect ∉ chosen

/-- How many candidates each check of a run has. -/
def candidateCounts : ConfirmingMonitor → List Event → List Nat
  | _, [] => []
  | c, .noteStatus a status :: evs =>
    candidateCounts { c with monitor.nodeStatuses := c.monitor.nodeStatuses.set a status } evs
  | c, .check suspect _ :: evs =>
    (c.candidates suspect).length :: candidateCounts (c.getConfirmationMembers suspect).1 evs

/-- The fewest candidates a check has had, this one included, and at most `n`. -/
def scarcest (n : Nat) (s : ConfirmingMonitor) (before : List Event) (c : ConfirmingMonitor)
    (suspect : Address) : Nat :=
  ((c.candidates suspect).length :: s.candidateCounts before).foldr min n

/-! ## 3. What the count has become -/

/-- A check lowers the count to its candidates'. -/
theorem getConfirmationMembers_fst (c : ConfirmingMonitor) (suspect : Address) :
    (c.getConfirmationMembers suspect).1 =
      { c with checkNodesCount := min (c.candidates suspect).length c.checkNodesCount } := by
  unfold getConfirmationMembers
  dsimp only
  split
  · rename_i h
    rw [Nat.min_eq_left (Nat.le_of_lt h)]
  · rename_i h
    rw [Nat.min_eq_right (Nat.not_lt.mp h)]

theorem getConfirmationMembers_snd (c : ConfirmingMonitor) (suspect : Address) :
    (c.getConfirmationMembers suspect).2 =
      (c.candidates suspect, min (c.candidates suspect).length c.checkNodesCount) := by
  have h := congrArg checkNodesCount (getConfirmationMembers_fst c suspect)
  exact Prod.ext rfl h

/-- All that a check does. -/
theorem step_check_eq_some_iff : c.step (.check suspect chosen) = some c' ↔
    IsSample (c.candidates suspect) (min (c.candidates suspect).length c.checkNodesCount) chosen ∧
      c' = (c.getConfirmationMembers suspect).1 := by
  unfold step
  dsimp only
  rw [getConfirmationMembers_snd]
  constructor
  · intro h
    split at h
    · rename_i hsample
      exact ⟨hsample, (Option.some.inj h).symm⟩
    · cases h
  · rintro ⟨hsample, rfl⟩
    rw [if_pos hsample]

/-- **The count after a run** is the least of what it was and what the checks found. -/
theorem checkNodesCount_of_run : ∀ (evs : List Event) {s c : ConfirmingMonitor},
    run step s evs = some c →
      c.checkNodesCount = (s.candidateCounts evs).foldr min s.checkNodesCount := by
  intro evs
  induction evs with
  | nil =>
    intro s c h
    rw [run_nil, Option.some.injEq] at h
    rw [h]
    rfl
  | cons ev evs ih =>
    intro s c h
    obtain ⟨t, ht, hrun⟩ := run_cons_eq_some.mp h
    have hrest := ih hrun
    cases ev with
    | noteStatus a status =>
      cases ht
      exact hrest
    | check suspect chosen =>
      obtain ⟨-, rfl⟩ := step_check_eq_some_iff.mp ht
      rw [hrest, candidateCounts, List.foldr_cons, getConfirmationMembers_fst]
      generalize candidateCounts _ evs = counts
      -- the least of a list and of `min n m` is the least of `n`, the list and `m`
      induction counts with
      | nil => rfl
      | cons k counts ihc =>
        rw [List.foldr_cons, List.foldr_cons, ihc]
        omega

variable {evs before : List Event}

/-- What is drawn is as much as the scarcest check so far could draw. -/
theorem length_chosen (h : ChecksAt s evs before c suspect chosen) :
    chosen.length = scarcest s.checkNodesCount s before c suspect := by
  obtain ⟨after, c', -, hrun, hstep⟩ := h
  rw [(step_check_eq_some_iff.mp hstep).1.1, checkNodesCount_of_run before hrun]
  rfl

/-- A sample of the candidates has no node twice, and not the suspect. -/
theorem IsSample.nodup {k : Nat} (h : IsSample (c.candidates suspect) k chosen) :
    chosen.Nodup ∧ suspect ∉ chosen := by
  obtain ⟨l, hperm, hsub⟩ := h.2
  refine ⟨hperm.nodup_iff.mp (hsub.nodup (c.monitor.nodeStatuses.nodup_keys.filter _)),
    fun hmem => ?_⟩
  have hcand := hsub.subset (hperm.mem_iff.mpr hmem)
  simp [candidates] at hcand

/-- **When every check of a history asks whom it should**: the available others are as many as the
candidates of the scarcest check so far, both counted up to the configured number. -/
theorem fanOut_iff (available : Address → HealthStatus → Bool) (address : Address)
    (maxSuspectMultiplier : Int) (indirectCheckNodes : Nat) (evs : List Event) :
    (∀ before c suspect chosen,
        ChecksAt (init address maxSuspectMultiplier indirectCheckNodes) evs before c suspect chosen →
          FanOut available indirectCheckNodes c suspect chosen) ↔
      ∀ before c suspect chosen,
        ChecksAt (init address maxSuspectMultiplier indirectCheckNodes) evs before c suspect chosen →
          scarcest indirectCheckNodes (init address maxSuspectMultiplier indirectCheckNodes) before c
              suspect =
            min indirectCheckNodes (c.availableOthers available suspect) := by
  refine forall_congr' fun before => forall_congr' fun c => forall_congr' fun suspect =>
    forall_congr' fun chosen => imp_congr_right fun h => ?_
  have hlen : chosen.length = scarcest indirectCheckNodes
      (init address maxSuspectMultiplier indirectCheckNodes) before c suspect := length_chosen h
  obtain ⟨after, c', -, -, hstep⟩ := h
  have hsample := (step_check_eq_some_iff.mp hstep).1
  unfold FanOut
  rw [hlen]
  exact and_iff_left hsample.nodup

/-- One other node is known at the first check of `10.0.0.2`, and three more join before the
next. -/
def lateJoiners : List Event :=
  [.noteStatus ⟨"10.0.0.2", 8002⟩ .suspect, .noteStatus ⟨"10.0.0.3", 8003⟩ .healthy,
    .check ⟨"10.0.0.2", 8002⟩ [⟨"10.0.0.3", 8003⟩], .noteStatus ⟨"10.0.0.4", 8004⟩ .healthy,
    .noteStatus ⟨"10.0.0.5", 8005⟩ .healthy, .noteStatus ⟨"10.0.0.6", 8006⟩ .healthy]

/-- What the node `10.0.0.1` knows then. -/
def lateJoined : ConfirmingMonitor :=
  (run step (init ⟨"10.0.0.1", 8000⟩ 8 3) lateJoiners).getD (init ⟨"10.0.0.1", 8000⟩ 8 3)

theorem run_lateJoiners : run step (init ⟨"10.0.0.1", 8000⟩ 8 3) lateJoiners = some lateJoined := by
  have hsome : (run step (init ⟨"10.0.0.1", 8000⟩ 8 3) lateJoiners).isSome = true := by
    decide +kernel
  obtain ⟨c, hc⟩ := Option.isSome_iff_exists.mp hsome
  rw [lateJoined, hc]
  rfl

/-- The next check asks one of four. -/
theorem not_fanOut : ¬ ∀ (indirectCheckNodes : Nat) (evs before : List Event)
    (c : ConfirmingMonitor) (suspect : Address) (chosen : List Address),
    ChecksAt (init ⟨"10.0.0.1", 8000⟩ 8 indirectCheckNodes) evs before c suspect chosen →
      FanOut (fun _ status => status = .healthy) indirectCheckNodes c suspect chosen := by
  intro h
  have hstep : (lateJoined.step
      (.check ⟨"10.0.0.2", 8002⟩ [⟨"10.0.0.3", 8003⟩])).isSome = true := by
    decide +kernel
  have hfan := h 3 (lateJoiners ++ [.check ⟨"10.0.0.2", 8002⟩ [⟨"10.0.0.3", 8003⟩]]) lateJoiners _
    ⟨"10.0.0.2", 8002⟩ [⟨"10.0.0.3", 8003⟩]
    ⟨[], _, rfl, run_lateJoiners, (Option.some_get hstep).symm⟩
  exact absurd hfan.1 (by decide +kernel)

/-! ## 4. All that are known -/

theorem availableOthers_known (c : ConfirmingMonitor) (suspect : Address) :
    c.availableOthers (fun _ _ => true) suspect = (c.candidates suspect).length := by
  unfold availableOthers candidates Dict.keys
  rw [← List.countP_eq_length_filter, List.countP_map]
  apply List.countP_congr
  intro i _
  simp

theorem foldr_min_le (n : Nat) (counts : List Nat) : counts.foldr min n ≤ n := by
  induction counts with
  | nil => exact Nat.le_refl n
  | cons m counts ih => exact Nat.le_trans (Nat.min_le_right _ _) ih

theorem foldr_min_eq_iff {n k : Nat} {counts : List Nat} :
    (k :: counts).foldr min n = min n k ↔ ∀ m ∈ counts, min n k ≤ m := by
  have hrest : ∀ counts : List Nat, min k (counts.foldr min n) = min n k ↔
      ∀ m ∈ counts, min n k ≤ m := by
    intro counts
    induction counts with
    | nil => simp [Nat.min_comm]
    | cons m counts ih =>
      have hle := foldr_min_le n counts
      rw [List.foldr_cons, List.forall_mem_cons, ← ih]
      omega
  exact hrest counts

/-- Where every node that is known counts as available, a check asks whom it should unless an
earlier one had fewer candidates. -/
theorem scarcest_eq_iff (n : Nat) (s : ConfirmingMonitor) (before : List Event)
    (c : ConfirmingMonitor) (suspect : Address) :
    scarcest n s before c suspect = min n (c.availableOthers (fun _ _ => true) suspect) ↔
      ∀ m ∈ s.candidateCounts before, min n (c.candidates suspect).length ≤ m := by
  rw [availableOthers_known]
  exact foldr_min_eq_iff

end ConfirmingMonitor

end Hedra
