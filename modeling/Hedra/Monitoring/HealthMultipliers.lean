/-
# The local health multipliers

A node counts for every other one how unhealthy its own view of it is.  A dozen places of
`distributed/monitoring/monitor_service.py` raise the count, lower it or set it back, some of them
between the awaits of a loop that retries.  All of them read and write it without an await in
between, and all but one go through `_increase_health_multiplier` and `_reduce_health_multiplier`,
which cut the count off; the one that does not sets it to `0`.  So whatever the handlers do in
whatever order, the count stays between `0` and `max_suspect_multiplier`.

* `adjusts_adjust`: what an event can do to the counts;
* `always_multipliersBounded`: they stay in bounds in every run.
-/
import Hedra.Lib.Machine
import Hedra.Monitoring.Monitor

namespace Hedra
namespace Monitor

open Lib Lib.Machine

/-! ## 1. The places -/

/-- `self._local_health_multipliers[a] = self._increase_health_multiplier(a)` -/
def increaseMultiplier (m : Monitor) (a : Address) : Monitor :=
  { m with
    localHealthMultipliers := m.localHealthMultipliers.set a (m.increaseHealthMultiplier a) }

/-- `self._local_health_multipliers[a] = 0` -/
def resetMultiplier (m : Monitor) (a : Address) : Monitor :=
  { m with localHealthMultipliers := m.localHealthMultipliers.set a 0 }

/-- `update_as_suspect`, from where it writes: whether the node was healthy it has read before. -/
def updateAsSuspect (m : Monitor) (wasHealthy : Bool) (hc : HealthCheck) : Monitor :=
  if wasHealthy then m.increaseMultiplier hc.source else m

/-- `send_indirect_check`, when the probe of the target or the acknowledgement has come back.
`request_indirect_check` always names a target. -/
def sendIndirectCheckAnswered (m : Monitor) (target : Address) : Monitor :=
  m.reduceMultiplier target

/-- `send_indirect_check`, when one of them has raised.  The status of the target was read
before. -/
def sendIndirectCheckFailed (m : Monitor) (targetStatus : HealthStatus) (target : Address) :
    Monitor :=
  if targetStatus ≠ .failed then m.increaseMultiplier target else m

/-- The coroutines that try a call to a node several times. -/
inductive Retrying
  | runTcpHealthcheck
  | runHealthcheck
  | pushStatusUpdate
  | pushTcpStatusUpdate
  | updateLogs
deriving DecidableEq

/-- `if not_self: self._node_statuses[source] = status` -/
def noteAnswer (m : Monitor) (source : Address) (status : HealthStatus) : Monitor :=
  if m.checkIsNotSelf source then { m with nodeStatuses := m.nodeStatuses.set source status } else m

/-- A call to `a` is answered by `source`: the `try` of the loop. -/
def answered (m : Monitor) (a source : Address) (status : HealthStatus) : Retrying → Monitor
  | .runTcpHealthcheck =>
    { m with nodeStatuses := m.nodeStatuses.set source status }.reduceMultiplier a
  | .runHealthcheck | .updateLogs => (m.noteAnswer source status).reduceMultiplier a
  | .pushStatusUpdate => m.noteAnswer source status
  | .pushTcpStatusUpdate => (m.reduceMultiplier a).noteAnswer source status

/-- A call to `a` raises, or is not answered in time: the `except` of the loop, the same in each. -/
def unanswered (m : Monitor) (a : Address) (_ : Retrying) : Monitor := m.increaseMultiplier a

/-- `_start_suspect_monitor`, when the indirect probes of a round are over: `indirectAckCount` of
the members asked have acknowledged, and `suspectCount` suspect the node as well.  What the last
call of `_reduce_health_multiplier` returns is not used. -/
def noteProbes (m : Monitor) (suspect : Address) (confirmationMembersCount indirectAckCount : Nat)
    (suspectCount : Int) : Monitor :=
  let missingAckCount : Int := confirmationMembersCount - indirectAckCount
  let nextHealthMultiplier := m.multiplier suspect + missingAckCount - indirectAckCount
  let m := if nextHealthMultiplier < 0 then m.resetMultiplier suspect
    else m.increaseMultiplier suspect
  if suspectCount < confirmationMembersCount then
    { m with nodeStatuses := m.nodeStatuses.set suspect .healthy }
  else m

/-- `receive_log_update` of a `ReplicationController`, when the entries are in its logs. -/
def logUpdateReceived (m : Monitor) (source : Address) : Monitor := m.reduceMultiplier source

/-! ## 2. The machine -/

/-- What can happen to the multipliers.  Each event is what a handler does between two awaits. -/
inductive MultiplierEvent
  | updateNodeStatus
      (shardId : Int)
      (healthcheck : HealthCheck)
  | updateAsSuspect
      (wasHealthy : Bool)
      (healthcheck : HealthCheck)
  | indirectCheckAnswered
      (target : Address)
  | indirectCheckFailed
      (targetStatus : HealthStatus)
      (target : Address)
  | answered
      (call : Retrying)
      (a source : Address)
      (status : HealthStatus)
  | unanswered
      (call : Retrying)
      (a : Address)
  | probes
      (suspect : Address)
      (confirmationMembersCount indirectAckCount : Nat)
      (suspectCount : Int)
  | logUpdate
      (source : Address)
  /-- Other handlers change the statuses. -/
  | statuses
      (status : HealthStatus)
      (nodeStatuses : Dict Address HealthStatus)

/-- What the event does. -/
def adjust (m : Monitor) : MultiplierEvent → Monitor
  | .updateNodeStatus shardId hc => (m.updateNodeStatus shardId hc).1
  | .updateAsSuspect wasHealthy hc => m.updateAsSuspect wasHealthy hc
  | .indirectCheckAnswered target => m.sendIndirectCheckAnswered target
  | .indirectCheckFailed targetStatus target => m.sendIndirectCheckFailed targetStatus target
  | .answered call a source status => m.answered a source status call
  | .unanswered call a => m.unanswered a call
  | .probes suspect confirmationMembersCount indirectAckCount suspectCount =>
    m.noteProbes suspect confirmationMembersCount indirectAckCount suspectCount
  | .logUpdate source => m.logUpdateReceived source
  | .statuses status nodeStatuses => { m with status := status, nodeStatuses := nodeStatuses }

/-- The machine of the multipliers: every event can happen in every state. -/
def multiplierStep (m : Monitor) (ev : MultiplierEvent) : Option Monitor := some (m.adjust ev)

/-- **The multipliers are in bounds**: each is between `0` and the maximum.  A maximum below `0`,
which the environment does not exclude, is the lower bound. -/
def MultipliersBounded (m : Monitor) : Prop :=
  ∀ a, min 0 m.maxSuspectMultiplier ≤ m.multiplier a ∧
    m.multiplier a ≤ max 0 m.maxSuspectMultiplier

theorem multipliersBounded_iff {m : Monitor} (h : 0 ≤ m.maxSuspectMultiplier) :
    m.MultipliersBounded ↔ ∀ a, 0 ≤ m.multiplier a ∧ m.multiplier a ≤ m.maxSuspectMultiplier := by
  unfold MultipliersBounded
  rw [Int.min_eq_left h, Int.max_eq_right h]

/-! ## 3. What an event does to a multiplier -/

/-- What can become of the count `v`. -/
inductive Adjusted (top v : Int) : Int → Prop
  | kept : Adjusted top v v
  | reduced (modifier : Nat) : Adjusted top v (max (v - 1 * modifier) 0)
  | increased : Adjusted top v (min (v + 1) top)
  | reset : Adjusted top v 0

theorem Adjusted.bounded {top v v' : Int} (h : Adjusted top v v') (hlow : min 0 top ≤ v)
    (hhigh : v ≤ max 0 top) : min 0 top ≤ v' ∧ v' ≤ max 0 top := by
  cases h with
  | kept => exact ⟨hlow, hhigh⟩
  | reduced modifier => omega
  | increased => omega
  | reset => omega

/-- `m'` has the multipliers of `m` but for one change each. -/
def Adjusts (m m' : Monitor) : Prop :=
  m'.maxSuspectMultiplier = m.maxSuspectMultiplier ∧
    ∀ x, Adjusted m.maxSuspectMultiplier (m.multiplier x) (m'.multiplier x)

/-- Nothing but statuses changes. -/
theorem adjusts_of_eq {m m' : Monitor}
    (hmax : m'.maxSuspectMultiplier = m.maxSuspectMultiplier)
    (hmult : m'.localHealthMultipliers = m.localHealthMultipliers) : m.Adjusts m' := by
  refine ⟨hmax, fun x => ?_⟩
  have heq : m'.multiplier x = m.multiplier x := by
    unfold multiplier
    rw [hmult]
  rw [heq]
  exact .kept

theorem adjusts_set {m m' : Monitor} {a : Address} {v : Int}
    (hv : Adjusted m.maxSuspectMultiplier (m.multiplier a) v)
    (hmax : m'.maxSuspectMultiplier = m.maxSuspectMultiplier)
    (hmult : m'.localHealthMultipliers = m.localHealthMultipliers.set a v) : m.Adjusts m' := by
  refine ⟨hmax, fun x => ?_⟩
  have hx : m'.multiplier x = if x = a then v else m.multiplier x := by
    unfold multiplier
    rw [hmult, Dict.get?_set]
    split <;> rfl
  rw [hx]
  split
  · next h => exact h ▸ hv
  · exact .kept

theorem adjusts_reduceMultiplier (m : Monitor) (a : Address) : m.Adjusts (m.reduceMultiplier a) :=
  adjusts_set (.reduced _) rfl rfl

theorem adjusts_increaseMultiplier (m : Monitor) (a : Address) :
    m.Adjusts (m.increaseMultiplier a) :=
  adjusts_set .increased rfl rfl

theorem adjusts_resetMultiplier (m : Monitor) (a : Address) : m.Adjusts (m.resetMultiplier a) :=
  adjusts_set .reset rfl rfl

/-- New statuses before an adjustment. -/
theorem Adjusts.of_statuses {m m' : Monitor} {nodeStatuses : Dict Address HealthStatus}
    (h : { m with nodeStatuses := nodeStatuses }.Adjusts m') : m.Adjusts m' := h

/-- New statuses after an adjustment. -/
theorem Adjusts.statuses {m m' : Monitor} (h : m.Adjusts m')
    (nodeStatuses : Dict Address HealthStatus) :
    m.Adjusts { m' with nodeStatuses := nodeStatuses } := h

theorem noteAnswer_eq (m : Monitor) (source : Address) (status : HealthStatus) :
    ∃ nodeStatuses, m.noteAnswer source status = { m with nodeStatuses := nodeStatuses } := by
  unfold noteAnswer
  split
  · exact ⟨_, rfl⟩
  · exact ⟨_, rfl⟩

theorem adjusts_updateNodeStatus (m : Monitor) (shardId : Int) (hc : HealthCheck) :
    m.Adjusts (m.updateNodeStatus shardId hc).1 := by
  unfold updateNodeStatus
  dsimp only
  split
  · exact adjusts_of_eq rfl rfl
  · split
    · exact adjusts_set (.reduced _) rfl rfl
    · exact adjusts_set (.reduced _) rfl rfl

theorem adjusts_answered (m : Monitor) (a source : Address) (status : HealthStatus)
    (call : Retrying) : m.Adjusts (m.answered a source status call) := by
  obtain ⟨before, hbefore⟩ := noteAnswer_eq m source status
  cases call with
  | runTcpHealthcheck => exact (adjusts_reduceMultiplier _ a).of_statuses
  | runHealthcheck | updateLogs =>
    change m.Adjusts ((m.noteAnswer source status).reduceMultiplier a)
    rw [hbefore]
    exact (adjusts_reduceMultiplier _ a).of_statuses
  | pushStatusUpdate =>
    change m.Adjusts (m.noteAnswer source status)
    rw [hbefore]
    exact adjusts_of_eq rfl rfl
  | pushTcpStatusUpdate =>
    obtain ⟨after, hafter⟩ := noteAnswer_eq (m.reduceMultiplier a) source status
    change m.Adjusts ((m.reduceMultiplier a).noteAnswer source status)
    rw [hafter]
    exact (adjusts_reduceMultiplier m a).statuses after

theorem adjusts_noteProbes (m : Monitor) (suspect : Address)
    (confirmationMembersCount indirectAckCount : Nat) (suspectCount : Int) :
    m.Adjusts (m.noteProbes suspect confirmationMembersCount indirectAckCount suspectCount) := by
  have hcount : ∀ b : Prop, [Decidable b] →
      m.Adjusts (if b then m.resetMultiplier suspect else m.increaseMultiplier suspect) := by
    intro b _
    split
    · exact adjusts_resetMultiplier m suspect
    · exact adjusts_increaseMultiplier m suspect
  unfold noteProbes
  dsimp only
  split
  · exact (hcount _).statuses _
  · exact hcount _

/-- **What an event can do** to the multipliers. -/
theorem adjusts_adjust (m : Monitor) (ev : MultiplierEvent) : m.Adjusts (m.adjust ev) := by
  cases ev with
  | updateNodeStatus shardId hc => exact adjusts_updateNodeStatus m shardId hc
  | updateAsSuspect wasHealthy hc =>
    cases wasHealthy with
    | true => exact adjusts_increaseMultiplier m hc.source
    | false => exact adjusts_of_eq rfl rfl
  | indirectCheckAnswered target => exact adjusts_reduceMultiplier m target
  | indirectCheckFailed targetStatus target =>
    change m.Adjusts (if targetStatus ≠ .failed then m.increaseMultiplier target else m)
    split
    · exact adjusts_increaseMultiplier m target
    · exact adjusts_of_eq rfl rfl
  | answered call a source status => exact adjusts_answered m a source status call
  | unanswered call a => exact adjusts_increaseMultiplier m a
  | probes suspect confirmationMembersCount indirectAckCount suspectCount =>
    exact adjusts_noteProbes m suspect confirmationMembersCount indirectAckCount suspectCount
  | logUpdate source => exact adjusts_reduceMultiplier m source
  | statuses status nodeStatuses => exact adjusts_of_eq rfl rfl

/-! ## 4. Runs -/

theorem multipliersBounded_init (address : Address) (maxSuspectMultiplier : Int) :
    (init address maxSuspectMultiplier).MultipliersBounded := by
  intro a
  have hzero : (init address maxSuspectMultiplier).multiplier a = 0 := rfl
  rw [hzero]
  exact ⟨Int.min_le_left _ _, Int.le_max_left _ _⟩

theorem multipliersBounded_step {m m' : Monitor} {ev : MultiplierEvent}
    (h : m.MultipliersBounded) (hstep : m.multiplierStep ev = some m') :
    m'.MultipliersBounded := by
  obtain rfl := Option.some.inj hstep
  obtain ⟨hmax, hadj⟩ := adjusts_adjust m ev
  intro a
  rw [hmax]
  exact (hadj a).bounded (h a).1 (h a).2

/-- **The multipliers stay in bounds** in every run of the handlers. -/
theorem always_multipliersBounded (address : Address) (maxSuspectMultiplier : Int)
    (evs : List MultiplierEvent) :
    Always multiplierStep MultipliersBounded (init address maxSuspectMultiplier) evs :=
  always_of_step (fun _ _ _ => multipliersBounded_step)
    (multipliersBounded_init address maxSuspectMultiplier)

end Monitor

end Hedra
