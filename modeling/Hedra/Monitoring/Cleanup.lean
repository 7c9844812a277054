/-
# `cleanup_pending_checks`

A pass (`distributed/monitoring/monitor_service.py`) first drops the probes that have ended, then
the suspicions that have reached their age, and last walks a copy of `failed_nodes`.  That walk is
the only place where a record of `removed_nodes` is ever removed, and it comes to one only through a
record of `failed_nodes` that has not reached its own age: what is recorded in `removed_nodes` alone
stays there, and so does what the pass itself has just recorded there of a node whose failure has
reached its age.

* `cleanupNodes_eq`: what a pass leaves of the records;
* `cleansExactly_iff`: when that is what should be left.
-/
import Hedra.Connection.PendingResponses
import Hedra.Replication.FailedNodes

namespace Hedra

open Lib

/-- What `cleanup_pending_checks` reads and writes; the probes of `_tasks_queue` by number. -/
structure MonitorRecords where
  status : Nat → TaskStatus
  tasksQueue : List Nat
  suspectHistory : List FailedNode
  failedNodes : List FailedNode
  removedNodes : List FailedNode
  suspectMaxAge : ℚ
  failedMaxAge : ℚ
  removedMaxAge : ℚ

/-- `time.monotonic() - age`, for the third component `age` of a record. -/
def FailedNode.elapsed (now : ℚ) (r : FailedNode) : ℚ := now - r.time

namespace MonitorRecords

variable {s : MonitorRecords} {now : ℚ}

/-! ## 1. A pass -/

/-- The loop over a copy of `_tasks_queue`.  Only a cancelled probe raises what
`except Exception` does not catch. -/
def cleanupTasks : List Nat → MonitorRecords → MonitorRecords × Option CleanupError
  | [], s => (s, none)
  | t :: ts, s =>
    if (s.status t).done then
      if s.status t = .cancelled then (s, some .cancelledError)
      else cleanupTasks ts { s with tasksQueue := s.tasksQueue.erase t }
    else cleanupTasks ts s

/-- One record of `_suspect_history`. -/
def cleanupSuspect (now : ℚ) (s : MonitorRecords) (r : FailedNode) : MonitorRecords :=
  if r.elapsed now ≥ s.suspectMaxAge then { s with suspectHistory := s.suspectHistory.erase r }
  else s

/-- `if node not in self.removed_nodes: self.removed_nodes.append(node)` -/
def noteRemoved (s : MonitorRecords) (r : FailedNode) : MonitorRecords :=
  if r ∈ s.removedNodes then s else { s with removedNodes := s.removedNodes ++ [r] }

/-- One record of `failed_nodes`. -/
def cleanupFailed (now : ℚ) (s : MonitorRecords) (r : FailedNode) : MonitorRecords :=
  let s := s.noteRemoved r
  if r.elapsed now ≥ s.failedMaxAge then { s with failedNodes := s.failedNodes.erase r }
  else if r.elapsed now ≥ s.removedMaxAge then
    { s with removedNodes := s.removedNodes.erase r }
  else s

/-- The loops over the copies of `_suspect_history` and of `failed_nodes`. -/
def cleanupNodes (now : ℚ) (s : MonitorRecords) : MonitorRecords :=
  let s := s.suspectHistory.foldl (cleanupSuspect now) s
  s.failedNodes.foldl (cleanupFailed now) s

/-- One pass of `cleanup_pending_checks`. -/
def cleanupPendingChecks (now : ℚ) (s : MonitorRecords) : MonitorRecords × Option CleanupError :=
  match cleanupTasks s.tasksQueue s with
  | (s, some e) => (s, some e)
  | (s, none) => (s.cleanupNodes now, none)

/-- The records that have not reached the age `maxAge`. -/
def younger (now maxAge : ℚ) (rs : List FailedNode) : List FailedNode :=
  rs.filter fun r => r.elapsed now < maxAge

/-- **A pass is complete and exact**: what has reached its age is gone from the three lists, and
what has not stands in them as before.  Of `removed_nodes` the younger records come first, since
the pass itself notes records there. -/
def CleansExactly (now : ℚ) (s : MonitorRecords) : Prop :=
  let after := (s.cleanupPendingChecks now).1
  after.suspectHistory = younger now s.suspectMaxAge s.suspectHistory ∧
    after.failedNodes = younger now s.failedMaxAge s.failedNodes ∧
    (∀ r ∈ after.removedNodes, r.elapsed now < s.removedMaxAge) ∧
    younger now s.removedMaxAge s.removedNodes <+: after.removedNodes

/-- Nothing has reached its age. -/
def AllYounger (now : ℚ) (s : MonitorRecords) : Prop :=
  (∀ r ∈ s.suspectHistory, r.elapsed now < s.suspectMaxAge) ∧
    (∀ r ∈ s.failedNodes, r.elapsed now < s.failedMaxAge) ∧
    ∀ r ∈ s.removedNodes, r.elapsed now < s.removedMaxAge

/-- A record that is old enough to leave `removed_nodes` stands as often in `failed_nodes`, and
leaves it alone in this pass. -/
def ReachedThroughFailed (now : ℚ) (s : MonitorRecords) : Prop :=
  ∀ r : FailedNode, s.removedMaxAge ≤ r.elapsed now →
    s.removedNodes.count r ≤ s.failedNodes.count r ∧
      (s.failedMaxAge ≤ r.elapsed now → r ∉ s.failedNodes)

/-- No probe that `_tasks_queue` holds was cancelled. -/
def NoneCancelled (s : MonitorRecords) : Prop := ∀ t ∈ s.tasksQueue, s.status t ≠ .cancelled

/-! ## 2. The probes -/

/-- The loop over the probes touches nothing else. -/
theorem cleanupTasks_fst : ∀ (ts : List Nat) (s : MonitorRecords),
    ∃ q, (cleanupTasks ts s).1 = { s with tasksQueue := q } := by
  intro ts
  induction ts with
  | nil => exact fun s => ⟨_, rfl⟩
  | cons t ts ih =>
    intro s
    rw [cleanupTasks]
    split
    · split
      · exact ⟨_, rfl⟩
      · exact ih { s with tasksQueue := s.tasksQueue.erase t }
    · exact ih s

/-- The loop comes to its end when it meets no cancelled probe. -/
theorem cleanupTasks_snd_eq_none_iff : ∀ (ts : List Nat) (s : MonitorRecords),
    (cleanupTasks ts s).2 = none ↔ ∀ t ∈ ts, s.status t ≠ .cancelled := by
  intro ts
  induction ts with
  | nil =>
    intro s
    simp [cleanupTasks]
  | cons t ts ih =>
    intro s
    rw [cleanupTasks, List.forall_mem_cons]
    by_cases hc : s.status t = .cancelled
    · rw [if_pos (by simp [hc, TaskStatus.done]), if_pos hc]
      simp [hc]
    · rw [if_neg hc]
      have hrest := ih { s with tasksQueue := s.tasksQueue.erase t }
      split
      · exact hrest.trans ⟨fun h => ⟨hc, h⟩, And.right⟩
      · exact (ih s).trans ⟨fun h => ⟨hc, h⟩, And.right⟩

/-! ## 3. The records -/

/-- `removed` with `r` noted. -/
def noted (removed : List FailedNode) (r : FailedNode) : List FailedNode :=
  if r ∈ removed then removed else removed ++ [r]

/-- What the walk over `failed_nodes` does to `removed_nodes`. -/
def removedStep (now failedMaxAge removedMaxAge : ℚ) (removed : List FailedNode)
    (r : FailedNode) : List FailedNode :=
  if r.elapsed now ≥ failedMaxAge then noted removed r
  else if r.elapsed now ≥ removedMaxAge then (noted removed r).erase r
  else noted removed r

theorem noteRemoved_eq (s : MonitorRecords) (r : FailedNode) :
    s.noteRemoved r = { s with removedNodes := noted s.removedNodes r } := by
  unfold noteRemoved noted
  split <;> rfl

theorem mem_noted {removed : List FailedNode} {r x : FailedNode} :
    x ∈ noted removed r ↔ x ∈ removed ∨ x = r := by
  unfold noted
  split
  · rename_i hr
    exact ⟨Or.inl, fun h => h.elim id fun hx => hx ▸ hr⟩
  · rw [List.mem_append, List.mem_singleton]

theorem count_noted_of_ne {removed : List FailedNode} {r x : FailedNode} (h : r ≠ x) :
    (noted removed r).count x = removed.count x := by
  unfold noted
  split
  · rfl
  · have hnot : x ∉ [r] := fun hx => h (List.mem_singleton.mp hx).symm
    rw [List.count_append, List.count_eq_zero.mpr hnot, Nat.add_zero]

theorem count_noted_self_sub (removed : List FailedNode) (r : FailedNode) :
    (noted removed r).count r - 1 = removed.count r - 1 := by
  unfold noted
  split
  · rfl
  · rename_i hr
    rw [List.count_append, List.count_eq_zero.mpr hr, List.count_singleton_self]

theorem younger_prefix_noted (now maxAge : ℚ) (removed : List FailedNode) (r : FailedNode) :
    younger now maxAge removed <+: younger now maxAge (noted removed r) := by
  unfold noted
  split
  · exact List.prefix_refl _
  · rw [younger, younger, List.filter_append]
    exact List.prefix_append _ _

theorem foldl_cleanupSuspect (now : ℚ) : ∀ (rs : List FailedNode) (s : MonitorRecords),
    rs.foldl (cleanupSuspect now) s = { s with suspectHistory := rs.foldl (fun l r =>
      if decide (r.elapsed now ≥ s.suspectMaxAge) then l.erase r else l) s.suspectHistory } := by
  intro rs
  induction rs with
  | nil => exact fun s => rfl
  | cons r rs ih =>
    intro s
    rw [List.foldl_cons, List.foldl_cons, ih]
    unfold cleanupSuspect
    by_cases h : r.elapsed now ≥ s.suspectMaxAge
    · simp only [h, if_true, decide_true]
    · simp only [h, if_false, decide_false, Bool.false_eq_true]

theorem foldl_cleanupFailed (now : ℚ) : ∀ (rs : List FailedNode) (s : MonitorRecords),
    rs.foldl (cleanupFailed now) s = { s with
      failedNodes := rs.foldl (fun l r =>
        if decide (r.elapsed now ≥ s.failedMaxAge) then l.erase r else l) s.failedNodes
      removedNodes :=
        rs.foldl (removedStep now s.failedMaxAge s.removedMaxAge) s.removedNodes } := by
  intro rs
  induction rs with
  | nil => exact fun s => rfl
  | cons r rs ih =>
    intro s
    rw [List.foldl_cons, List.foldl_cons, List.foldl_cons, ih]
    unfold cleanupFailed removedStep
    rw [noteRemoved_eq]
    by_cases hf : r.elapsed now ≥ s.failedMaxAge
    · simp only [hf, if_true, decide_true]
    · by_cases hr : r.elapsed now ≥ s.removedMaxAge
      · simp only [hf, hr, if_true, if_false, decide_false, Bool.false_eq_true]
      · simp only [hf, hr, if_false, decide_false, Bool.false_eq_true]

/-- The walk leaves `failed_nodes` without the records that have reached their age. -/
theorem foldl_erase_eq_younger (now maxAge : ℚ) (rs : List FailedNode) :
    rs.foldl (fun l r => if decide (r.elapsed now ≥ maxAge) then l.erase r else l) rs =
      younger now maxAge rs := by
  rw [foldl_erase_eq_filter]
  apply List.filter_congr
  intro r _
  have hage : r.elapsed now ≥ maxAge ↔ ¬ r.elapsed now < maxAge := not_lt.symm
  simp only [hage, decide_not, Bool.not_not]

section Removed

variable {failedMaxAge removedMaxAge : ℚ} {x : FailedNode}

/-- A record that leaves `failed_nodes` is in `removed_nodes` after the walk. -/
theorem mem_foldl_removedStep_of_failed (hx : failedMaxAge ≤ x.elapsed now) :
    ∀ rs removed : List FailedNode,
      x ∈ rs.foldl (removedStep now failedMaxAge removedMaxAge) removed ↔
        x ∈ removed ∨ x ∈ rs := by
  intro rs
  induction rs with
  | nil => simp
  | cons r rs ih =>
    intro removed
    rw [List.foldl_cons, ih, List.mem_cons]
    have hstep : x ∈ removedStep now failedMaxAge removedMaxAge removed r ↔
        x ∈ removed ∨ x = r := by
      unfold removedStep
      by_cases hr : x = r
      · subst hr
        rw [if_pos hx, mem_noted]
      · split
        · rw [mem_noted]
        · split
          · rw [List.mem_erase_of_ne hr, mem_noted]
          · rw [mem_noted]
    rw [hstep, or_assoc]

/-- Of a record that stays in `failed_nodes`, `removed_nodes` loses one for each that is met. -/
theorem count_foldl_removedStep (hf : ¬ failedMaxAge ≤ x.elapsed now)
    (hr : removedMaxAge ≤ x.elapsed now) : ∀ rs removed : List FailedNode,
      (rs.foldl (removedStep now failedMaxAge removedMaxAge) removed).count x =
        removed.count x - rs.count x := by
  intro rs
  induction rs with
  | nil => simp
  | cons r rs ih =>
    intro removed
    rw [List.foldl_cons, ih, List.count_cons]
    have hstep : (removedStep now failedMaxAge removedMaxAge removed r).count x =
        removed.count x - if r == x then 1 else 0 := by
      unfold removedStep
      by_cases hx : r = x
      · subst hx
        rw [if_neg hf, if_pos hr, List.count_erase_self, beq_self_eq_true, if_pos rfl,
          count_noted_self_sub]
      · have hne : (r == x) = false := by simpa using hx
        rw [hne, if_neg Bool.false_ne_true, Nat.sub_zero]
        split
        · rw [count_noted_of_ne hx]
        · split
          · rw [List.count_erase_of_ne (Ne.symm hx), count_noted_of_ne hx]
          · rw [count_noted_of_ne hx]
    rw [hstep]
    omega

/-- What is younger stays, and comes first. -/
theorem younger_prefix_foldl_removedStep : ∀ rs removed : List FailedNode,
    younger now removedMaxAge removed <+:
      younger now removedMaxAge
        (rs.foldl (removedStep now failedMaxAge removedMaxAge) removed) := by
  intro rs
  induction rs with
  | nil => exact fun removed => List.prefix_refl _
  | cons r rs ih =>
    intro removed
    rw [List.foldl_cons]
    refine List.IsPrefix.trans ?_ (ih _)
    have hnoted := younger_prefix_noted now removedMaxAge removed r
    unfold removedStep
    split
    · exact hnoted
    · split
      · rename_i hr
        rw [younger, younger, filter_erase_of_neg (by rwa [decide_eq_true_eq, not_lt])]
        exact hnoted
      · exact hnoted

end Removed

/-- **What a pass leaves of the records.** -/
theorem cleanupNodes_eq (now : ℚ) (s : MonitorRecords) : s.cleanupNodes now =
    { s with
      suspectHistory := younger now s.suspectMaxAge s.suspectHistory
      failedNodes := younger now s.failedMaxAge s.failedNodes
      removedNodes := s.failedNodes.foldl
        (removedStep now s.failedMaxAge s.removedMaxAge) s.removedNodes } := by
  unfold cleanupNodes
  simp only [foldl_cleanupSuspect, foldl_cleanupFailed, foldl_erase_eq_younger]

theorem younger_eq_self_iff {maxAge : ℚ} {rs : List FailedNode} :
    rs = younger now maxAge rs ↔ ∀ r ∈ rs, r.elapsed now < maxAge := by
  rw [eq_comm, younger, List.filter_eq_self]
  simp

theorem younger_eq_self {maxAge : ℚ} {rs : List FailedNode}
    (h : ∀ r ∈ rs, r.elapsed now < maxAge) : younger now maxAge rs = rs :=
  (younger_eq_self_iff.mpr h).symm

/-- Nothing old is left in `removed_nodes` exactly when everything old there was reached. -/
theorem removed_younger_iff (now : ℚ) (s : MonitorRecords) :
    (∀ r ∈ s.failedNodes.foldl (removedStep now s.failedMaxAge s.removedMaxAge) s.removedNodes,
      r.elapsed now < s.removedMaxAge) ↔ s.ReachedThroughFailed now := by
  have hone : ∀ r : FailedNode, s.removedMaxAge ≤ r.elapsed now →
      (r ∉ s.failedNodes.foldl (removedStep now s.failedMaxAge s.removedMaxAge) s.removedNodes ↔
        s.removedNodes.count r ≤ s.failedNodes.count r ∧
          (s.failedMaxAge ≤ r.elapsed now → r ∉ s.failedNodes)) := by
    intro r hr
    by_cases hf : s.failedMaxAge ≤ r.elapsed now
    · rw [mem_foldl_removedStep_of_failed hf, not_or]
      constructor
      · rintro ⟨hremoved, hfailed⟩
        rw [List.count_eq_zero.mpr hremoved]
        exact ⟨Nat.zero_le _, fun _ => hfailed⟩
      · rintro ⟨hcount, hfailed⟩
        rw [List.count_eq_zero.mpr (hfailed hf)] at hcount
        exact ⟨List.count_eq_zero.mp (Nat.le_zero.mp hcount), hfailed hf⟩
    · rw [← List.count_eq_zero, count_foldl_removedStep hf hr, Nat.sub_eq_zero_iff_le]
      exact ⟨fun h => ⟨h, fun h' => absurd h' hf⟩, And.left⟩
  constructor
  · intro h r hr
    exact (hone r hr).mp fun hmem => absurd (h r hmem) (not_lt.mpr hr)
  · intro h r hmem
    by_contra hlt
    exact (hone r (not_lt.mp hlt)).mpr (h r (not_lt.mp hlt)) hmem

/-- The pass that comes to its end. -/
theorem cleansExactly_iff_of_noneCancelled (h : s.NoneCancelled) :
    s.CleansExactly now ↔ s.ReachedThroughFailed now := by
  obtain ⟨q, hq⟩ := cleanupTasks_fst s.tasksQueue s
  have hnone := (cleanupTasks_snd_eq_none_iff s.tasksQueue s).mpr h
  have hafter : (s.cleanupPendingChecks now).1 =
      ({ s with tasksQueue := q } : MonitorRecords).cleanupNodes now := by
    rw [cleanupPendingChecks, ← hq]
    generalize cleanupTasks s.tasksQueue s = c at hnone
    obtain ⟨s', e⟩ := c
    cases hnone
    rfl
  unfold CleansExactly
  rw [hafter, cleanupNodes_eq, ← removed_younger_iff]
  simp only [true_and]
  refine ⟨And.left, fun hall => ⟨hall, ?_⟩⟩
  have hprefix := @younger_prefix_foldl_removedStep now s.failedMaxAge s.removedMaxAge
    s.failedNodes s.removedNodes
  rwa [younger_eq_self hall] at hprefix

/-- The pass that a cancelled probe ends. -/
theorem cleansExactly_iff_of_cancelled (h : ¬ s.NoneCancelled) :
    s.CleansExactly now ↔ s.AllYounger now := by
  obtain ⟨q, hq⟩ := cleanupTasks_fst s.tasksQueue s
  have hsome := mt (cleanupTasks_snd_eq_none_iff s.tasksQueue s).mp h
  have hafter : (s.cleanupPendingChecks now).1 = { s with tasksQueue := q } := by
    rw [cleanupPendingChecks, ← hq]
    generalize cleanupTasks s.tasksQueue s = c at hsome
    obtain ⟨s', e⟩ := c
    cases e with
    | none => exact absurd rfl hsome
    | some e => rfl
  unfold CleansExactly AllYounger
  rw [hafter]
  dsimp only
  rw [younger_eq_self_iff, younger_eq_self_iff]
  constructor
  · rintro ⟨hs, hf, hr, -⟩
    exact ⟨hs, hf, hr⟩
  · rintro ⟨hs, hf, hr⟩
    exact ⟨hs, hf, hr, [], by rw [List.append_nil, younger_eq_self hr]⟩

theorem AllYounger.reachedThroughFailed (h : s.AllYounger now) : s.ReachedThroughFailed now := by
  intro r hr
  have hremoved : r ∉ s.removedNodes := fun hmem => absurd (h.2.2 r hmem) (not_lt.mpr hr)
  rw [List.count_eq_zero.mpr hremoved]
  exact ⟨Nat.zero_le _, fun hf hmem => absurd (h.2.1 r hmem) (not_lt.mpr hf)⟩

/-- **When a pass is complete and exact**: the old records of `removed_nodes` are all reached
through `failed_nodes`, and either no probe was cancelled or there is nothing to clean up. -/
theorem cleansExactly_iff (now : ℚ) (s : MonitorRecords) : s.CleansExactly now ↔
    s.ReachedThroughFailed now ∧ (s.NoneCancelled ∨ s.AllYounger now) := by
  by_cases h : s.NoneCancelled
  · rw [cleansExactly_iff_of_noneCancelled h]
    exact ⟨fun hr => ⟨hr, Or.inl h⟩, And.left⟩
  · rw [cleansExactly_iff_of_cancelled h]
    constructor
    · exact fun hy => ⟨hy.reachedThroughFailed, Or.inr hy⟩
    · rintro ⟨-, hn | hy⟩
      · exact absurd hn h
      · exact hy

/-- A record that stands in `removed_nodes` alone stays there however old it is. -/
theorem not_cleansExactly : ¬ ∀ (now : ℚ) (s : MonitorRecords), s.CleansExactly now := by
  intro h
  have hclean := h 100 ⟨fun _ => .finished, [], [], [], [⟨⟨"10.0.0.2", 8000⟩, 0⟩], 60, 60, 60⟩
  exact absurd hclean.2.2.1 (by decide +kernel)

/-! ## 4. The same pass over a `ReplicationNode` -/

/-- What a `ReplicationNode` keeps of the records, with the rest that a pass reads. -/
def ofNode (n : ReplicationNode) (status : Nat → TaskStatus) (tasksQueue : List Nat)
    (suspectHistory : List FailedNode) (suspectMaxAge : ℚ) : MonitorRecords where
  status := status
  tasksQueue := tasksQueue
  suspectHistory := suspectHistory
  failedNodes := n.failedNodes
  removedNodes := n.removedNodes
  suspectMaxAge := suspectMaxAge
  failedMaxAge := n.failedMaxAge
  removedMaxAge := n.removedMaxAge

/-- `ReplicationNode.cleanup` is the walk over `failed_nodes`. -/
theorem ofNode_cleanup (now : ℚ) (status : Nat → TaskStatus) (tasksQueue : List Nat)
    (suspectHistory : List FailedNode) (suspectMaxAge : ℚ) (n : ReplicationNode) :
    ofNode (n.cleanup now) status tasksQueue suspectHistory suspectMaxAge =
      n.failedNodes.foldl (cleanupFailed now)
        (ofNode n status tasksQueue suspectHistory suspectMaxAge) := by
  have hfold : ∀ (rs : List FailedNode) (n : ReplicationNode),
      ofNode (rs.foldl (ReplicationNode.cleanupRecord now) n) status tasksQueue suspectHistory
          suspectMaxAge =
        rs.foldl (cleanupFailed now)
          (ofNode n status tasksQueue suspectHistory suspectMaxAge) := by
    intro rs
    induction rs with
    | nil => exact fun n => rfl
    | cons r rs ih =>
      intro n
      rw [List.foldl_cons, List.foldl_cons, ih]
      congr 1
      unfold ReplicationNode.cleanupRecord cleanupFailed noteRemoved
      by_cases hm : r ∈ n.removedNodes <;> by_cases hf : now - r.time ≥ n.failedMaxAge <;>
        by_cases hr : now - r.time ≥ n.removedMaxAge <;>
        simp [ofNode, FailedNode.elapsed, hm, hf, hr]
  exact hfold n.failedNodes n

end MonitorRecords

end Hedra
