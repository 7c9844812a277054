/-
# Does gossip converge?

A monitor (`distributed/monitoring/monitor_service.py`) hears about a node in three ways: through
`update_node_status`, with the time the reporter last updated the node; through
`update_node_health`, from the node itself; and in the answer to a `push_status_update`, again from
the node itself.  Of these only `update_node_health` advances `_latest_update`, only
`update_node_status` compares with it, and the answers do neither.  So an older report overwrites a
newer one whenever the newer one left no time behind.

The status that is held is the newest one heard, whatever came in which order, if and only if
no report was written that is older than one heard before, and none was turned away that is
newer.

* `holdsNewest_concat_iff`: one report keeps the newest status exactly if it comes in time;
* `gossip_newest_iff`: so does a history of reports, in any order.
-/
import Mathlib.Order.Defs.LinearOrder
import Hedra.Lib.Newest
import Hedra.Monitoring.Monitor

namespace Hedra

open Lib

/-! ## 1. Reports -/

/-- A status report as a monitor receives it. -/
inductive Report
  /-- `update_node_status`, with a `target_last_updated`. -/
  | status
      (shardId : Int)
      (lastUpdated : Int)
      (healthcheck : HealthCheck)
  /-- `update_node_health`. -/
  | health
      (shardId : Int)
      (healthcheck : HealthCheck)
      (localNodeStatus : Option HealthStatus)
      (wasSuspect : Bool)
  /-- The answer to `push_status_update`. -/
  | pushed
      (shardId : Int)
      (healthcheck : HealthCheck)

namespace Report

/-- The node that the report is about. -/
def target : Report → Address
  | .status _ _ hc => hc.updateNode
  | .health _ hc _ _ => hc.source
  | .pushed _ hc => hc.source

/-- The status that it reports. -/
def nodeStatus : Report → HealthStatus
  | .status _ _ hc => hc.updateStatus
  | .health _ hc _ _ => hc.status
  | .pushed _ hc => hc.status

/-- When the reporter last updated the node.  A node that reports on itself does so at the
time of its message. -/
def time : Report → Int
  | .status _ lastUpdated _ => lastUpdated
  | .health shardId _ _ _ => (Snowflake.parse shardId).timestamp
  | .pushed shardId _ => (Snowflake.parse shardId).timestamp

end Report

namespace Monitor

/-- The monitor after a report. -/
def receive (m : Monitor) : Report → Monitor
  | .status shardId lastUpdated hc =>
    (m.updateNodeStatus shardId { hc with targetLastUpdated := some lastUpdated }).1
  | .health shardId hc localNodeStatus wasSuspect =>
    (m.updateNodeHealth localNodeStatus wasSuspect shardId hc).1
  | .pushed _ hc => m.pushStatusUpdateAnswered hc

/-- The monitor after a sequence of reports. -/
def receiveAll (m : Monitor) (rs : List Report) : Monitor := rs.foldl receive m

theorem receiveAll_concat (m : Monitor) (rs : List Report) (r : Report) :
    m.receiveAll (rs ++ [r]) = (m.receiveAll rs).receive r := by
  simp [receiveAll]

/-- The report is written. -/
def Accepts (m : Monitor) : Report → Prop
  | .status _ lastUpdated hc => lastUpdated > (m.latestUpdate.get? hc.updateNode).getD 0
  | .health _ _ _ _ => True
  | .pushed _ hc => m.checkIsNotSelf hc.source

instance (m : Monitor) : DecidablePred m.Accepts
  | .status _ lastUpdated hc =>
    inferInstanceAs (Decidable (lastUpdated > (m.latestUpdate.get? hc.updateNode).getD 0))
  | .health _ _ _ _ => isTrue trivial
  | .pushed _ hc => inferInstanceAs (Decidable (m.checkIsNotSelf hc.source = true))

/-- **What a report does to the status of a node.** -/
theorem get?_receive (m : Monitor) (r : Report) (x : Address) :
    (m.receive r).nodeStatuses.get? x =
      if r.target = x ∧ m.Accepts r then some r.nodeStatus else m.nodeStatuses.get? x := by
  cases r with
  | status shardId lastUpdated hc =>
    have hset := nodeStatuses_updateNodeStatus m shardId
      { hc with targetLastUpdated := some lastUpdated } rfl
    simp only [receive, Report.target, Report.nodeStatus, Accepts]
    rw [hset]
    change (if lastUpdated > (m.latestUpdate.get? hc.updateNode).getD 0 then
      m.nodeStatuses.set hc.updateNode hc.updateStatus else m.nodeStatuses).get? x = _
    split
    · next h => simp [h, Dict.get?_set, eq_comm]
    · next h => simp [h]
  | health shardId hc localNodeStatus wasSuspect =>
    simp only [receive, nodeStatuses_updateNodeHealth, Dict.get?_set]
    simp [Report.target, Report.nodeStatus, Accepts, eq_comm]
  | pushed shardId hc =>
    simp only [receive, nodeStatuses_pushStatusUpdateAnswered, Report.target, Report.nodeStatus,
      Accepts]
    by_cases h : m.checkIsNotSelf hc.source = true
    · simp [h, Dict.get?_set, eq_comm]
    · simp [h]

/-! ## 2. The newest report -/

/-- The reports about `x`. -/
def reportsOn (x : Address) (rs : List Report) : List Report := rs.filter fun r => r.target = x

/-- After the reports `rs`, the status held for `x` is the one of a newest report about it. -/
def HoldsNewest (x : Address) (m : Monitor) (rs : List Report) : Prop :=
  reportsOn x rs ≠ [] →
    ∃ r, Newest Report.time (reportsOn x rs) r ∧ m.nodeStatuses.get? x = some r.nodeStatus

/-- The report `r` about `x` comes in time, after the reports `rs`: if it is written, it is at
least as new as all of them, or it says what a newest one of them says; if it is not, one of
them is at least as new, or it says what is held anyway. -/
def Timely (x : Address) (m : Monitor) (rs : List Report) (r : Report) : Prop :=
  r.target = x →
    if m.Accepts r then
      (∀ y ∈ reportsOn x rs, y.time ≤ r.time) ∨
        ∃ y, Newest Report.time (reportsOn x rs) y ∧ y.nodeStatus = r.nodeStatus
    else
      (∃ y ∈ reportsOn x rs, r.time ≤ y.time) ∨ m.nodeStatuses.get? x = some r.nodeStatus

theorem reportsOn_concat_of_ne {x : Address} {r : Report} (rs : List Report) (h : r.target ≠ x) :
    reportsOn x (rs ++ [r]) = reportsOn x rs := by
  simp [reportsOn, h]

theorem reportsOn_concat_self (rs : List Report) (r : Report) :
    reportsOn r.target (rs ++ [r]) = reportsOn r.target rs ++ [r] := by
  simp [reportsOn]

/-- **One report keeps the newest status exactly if it comes in time.** -/
theorem holdsNewest_concat_iff {x : Address} {m : Monitor} {rs : List Report}
    (h : HoldsNewest x (m.receiveAll rs) rs) (r : Report) :
    HoldsNewest x (m.receiveAll (rs ++ [r])) (rs ++ [r]) ↔ Timely x (m.receiveAll rs) rs r := by
  by_cases hx : r.target = x
  · subst hx
    have hne : reportsOn r.target rs ++ [r] ≠ [] := by simp
    simp only [HoldsNewest, Timely, reportsOn_concat_self, receiveAll_concat, get?_receive, hne,
      newest_concat_iff, ne_eq, not_false_eq_true, true_and, forall_const]
    by_cases hacc : (m.receiveAll rs).Accepts r
    · simp only [hacc, if_true, Option.some.injEq]
      constructor
      · rintro ⟨z, ⟨rfl, hall⟩ | ⟨hz, -⟩, hs⟩
        · exact Or.inl hall
        · exact Or.inr ⟨z, hz, hs.symm⟩
      · rintro (hall | ⟨y, hy, hs⟩)
        · exact ⟨r, Or.inl ⟨rfl, hall⟩, rfl⟩
        · rcases le_total r.time y.time with hle | hle
          · exact ⟨y, Or.inr ⟨hy, hle⟩, hs.symm⟩
          · exact ⟨r, Or.inl ⟨rfl, fun w hw => (hy.2 w hw).trans hle⟩, rfl⟩
    · simp only [hacc, if_false]
      -- when one of the others is at least as new, what is held stays newest
      have hold : (∃ y ∈ reportsOn r.target rs, r.time ≤ y.time) →
          ∃ z, Newest Report.time (reportsOn r.target rs) z ∧ r.time ≤ z.time ∧
            (m.receiveAll rs).nodeStatuses.get? r.target = some z.nodeStatus := by
        rintro ⟨y, hy, hle⟩
        obtain ⟨z, hz, hs⟩ := h (List.ne_nil_of_mem hy)
        exact ⟨z, hz, hle.trans (hz.2 y hy), hs⟩
      constructor
      · rintro ⟨z, ⟨rfl, -⟩ | ⟨hz, hle⟩, hs⟩
        · exact Or.inr hs
        · exact Or.inl ⟨z, hz.1, hle⟩
      · intro ht
        by_cases hlate : ∃ y ∈ reportsOn r.target rs, r.time ≤ y.time
        · obtain ⟨z, hz, hle, hs⟩ := hold hlate
          exact ⟨z, Or.inr ⟨hz, hle⟩, hs⟩
        · have hall : ∀ y ∈ reportsOn r.target rs, y.time ≤ r.time := by
            intro y hy
            by_contra hlt
            exact hlate ⟨y, hy, le_of_not_ge hlt⟩
          exact ⟨r, Or.inl ⟨rfl, hall⟩, ht.resolve_left hlate⟩
  · simp only [HoldsNewest, Timely, reportsOn_concat_of_ne rs hx, receiveAll_concat, get?_receive,
      hx, false_and, if_false, IsEmpty.forall_iff, iff_true]
    exact h

/-! ## 3. Runs -/

/-- **The newest status is held all along exactly if every report comes in time.** -/
theorem gossip_newest_iff (m : Monitor) (x : Address) (rs : List Report) :
    (∀ l, l <+: rs → HoldsNewest x (m.receiveAll l) l) ↔
      ∀ l r, l ++ [r] <+: rs → Timely x (m.receiveAll l) l r := by
  have h₀ : HoldsNewest x (m.receiveAll []) [] := fun hne => absurd rfl hne
  exact forall_prefix_iff (P := fun l => HoldsNewest x (m.receiveAll l) l) h₀
    fun l r h => holdsNewest_concat_iff h r

/-- Two monitors that hold the newest of the same reports hold the same status, in whichever
order and however often each of them was told. -/
theorem agree_of_holdsNewest {x : Address} {m m' : Monitor} {rs rs' : List Report}
    (hmem : ∀ r, r ∈ rs ↔ r ∈ rs') (hne : reportsOn x rs ≠ [])
    (hsame : ∀ r r', Newest Report.time (reportsOn x rs) r →
      Newest Report.time (reportsOn x rs) r' → r.nodeStatus = r'.nodeStatus)
    (h : HoldsNewest x m rs) (h' : HoldsNewest x m' rs') :
    m.nodeStatuses.get? x = m'.nodeStatuses.get? x := by
  have hmem' : ∀ r, r ∈ reportsOn x rs ↔ r ∈ reportsOn x rs' := by
    intro r
    simp only [reportsOn, List.mem_filter, hmem]
  obtain ⟨z, hz, hs⟩ := h hne
  have hne' : reportsOn x rs' ≠ [] := List.ne_nil_of_mem ((hmem' z).mp hz.1)
  obtain ⟨z', hz', hs'⟩ := h' hne'
  rw [hs, hs', hsame z z' hz ((newest_congr hmem' z').mpr hz')]

/-- A report of `update_node_status` about the node at port 9001. -/
def reportAt (lastUpdated : Int) (status : HealthStatus) : Report :=
  .status 0 lastUpdated
    { host := none
      port := none
      error := none
      targetHost := some "10.0.0.1"
      targetPort := some 9001
      targetStatus := some status
      targetLastUpdated := none
      registeredNodes := none
      registeredCount := none
      sourceHost := "10.0.0.2"
      sourcePort := 9002
      sourceStatus := none
      status := .healthy }

/-- A report of time 20 is followed by one of time 10, which is written over it: the first one
left `_latest_update` as it was. -/
theorem older_report_wins :
    ¬ ∀ (address : Address) (maxSuspectMultiplier : Int) (x : Address) (rs : List Report),
      HoldsNewest x ((init address maxSuspectMultiplier).receiveAll rs) rs := by
  intro h
  obtain ⟨r, ⟨hr, hmax⟩, hs⟩ := h ⟨"10.0.0.3", 9003⟩ 7 ⟨"10.0.0.1", 9001⟩
    [reportAt 20 .healthy, reportAt 10 .suspect] (by decide)
  have hfirst := hmax (reportAt 20 .healthy) (List.mem_cons_self ..)
  have hheld : r.nodeStatus = .suspect := by
    have hdec : ((init ⟨"10.0.0.3", 9003⟩ 7).receiveAll
      [reportAt 20 .healthy, reportAt 10 .suspect]).nodeStatuses.get? ⟨"10.0.0.1", 9001⟩ =
        some .suspect := by decide
    rw [hdec, Option.some.injEq] at hs
    exact hs.symm
  rcases List.mem_cons.mp (List.mem_filter.mp hr).1 with rfl | hr
  · exact absurd hheld (by decide)
  · obtain rfl := List.mem_singleton.mp hr
    exact absurd hfirst (by decide)

end Monitor
end Hedra
