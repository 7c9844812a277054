/-
# `Monitor`: what a node knows of the others

`distributed/monitoring/monitor_service.py`: the state of a monitor, and the handlers that
record the status of other nodes, `update_node_status`, `update_node_health` and the two
callers of `push_status_update`.  Their awaits are logger calls, before the first and after
the last access to the state, so each is one segment; only `update_node_health` may wait
between what it reads and what it writes.

`"inactive"`, which `deregister_node` writes, is no `HealthStatus` of the message model:
building a `HealthCheck` with it raises.
-/
import Hedra.Lib.Dict
import Hedra.Replication.Models

namespace Hedra

open Lib

/-! ## 1. `HealthCheck` -/

/-- `HealthCheck` -/
structure HealthCheck where
  host : Option String
  port : Option Int
  error : Option String
  targetHost : Option String
  targetPort : Option Int
  targetStatus : Option HealthStatus
  targetLastUpdated : Option Int
  registeredNodes : Option (List (Address × Nat))
  registeredCount : Option Int
  sourceHost : String
  sourcePort : Int
  sourceStatus : Option HealthStatus
  status : HealthStatus
deriving DecidableEq

namespace HealthCheck

/-- The pair `(source_host, source_port)`. -/
def source (hc : HealthCheck) : Address := ⟨hc.sourceHost, hc.sourcePort⟩

/-- The validation of the three fields of type `HealthStatus`. -/
def validate (hc : HealthCheck) : Except PyError HealthCheck :=
  if hc.status = .inactive ∨ hc.targetStatus = some .inactive ∨ hc.sourceStatus = some .inactive
  then .error .validationError
  else .ok hc

/-- `if target_host and target_port`: an empty host and the port `0` do not count. -/
def givenTarget (targetHost : Option String) (targetPort : Option Int) : Option Address :=
  match targetHost, targetPort with
  | some host, some port => if host ≠ "" ∧ port ≠ 0 then some ⟨host, port⟩ else none
  | _, _ => none

/-- `(update_node_host, update_node_port)` -/
def updateNode (hc : HealthCheck) : Address :=
  (givenTarget hc.targetHost hc.targetPort).getD hc.source

/-- `if healthcheck.target_status` -/
def updateStatus (hc : HealthCheck) : HealthStatus := hc.targetStatus.getD hc.status

end HealthCheck

/-! ## 2. State -/

/-- A task of `_start_suspect_monitor`. -/
inductive Probe
  | created
  | investigating
      (suspect : Address)
  /-- `cancel` has been called on it, and it has not run since. -/
  | stopping
  | ended
deriving DecidableEq

/-- A call of `_cancel_suspicion_probe` that waits for the task it has cancelled, with its copy
of `_suspect_tasks`. -/
structure Cancelling where
  suspect : Address
  task : Nat
  suspectTasks : Dict Address Nat

/-- `Monitor`.  `probes` are the tasks of `_start_suspect_monitor` created so far, and a task is
its place in this list.  `cancelCreated` are the calls of `_cancel_suspicion_probe` that have
been created and not started. -/
structure Monitor where
  address : Address
  status : HealthStatus
  errorContext : Option String
  nodeStatuses : Dict Address HealthStatus
  latestUpdate : Dict Address Int
  instanceIds : Dict Address Nat
  localHealthMultipliers : Dict Address Int
  maxSuspectMultiplier : Int
  suspectNodes : List Address
  suspectTasks : Dict Address Nat
  probes : List Probe
  cancelCreated : List Address
  cancelling : List Cancelling

namespace Monitor

/-- A fresh monitor. -/
def init (address : Address) (maxSuspectMultiplier : Int) : Monitor where
  address := address
  status := .initializing
  errorContext := none
  nodeStatuses := Dict.empty
  latestUpdate := Dict.empty
  instanceIds := Dict.empty
  localHealthMultipliers := Dict.empty
  maxSuspectMultiplier := maxSuspectMultiplier
  suspectNodes := []
  suspectTasks := Dict.empty
  probes := []
  cancelCreated := []
  cancelling := []

/-- `_check_is_not_self(host, port)`: both have to differ. -/
def checkIsNotSelf (m : Monitor) (a : Address) : Bool :=
  a.host ≠ m.address.host && a.port ≠ m.address.port

/-- `self._local_health_multipliers[a]`, a `defaultdict` of `0`. -/
def multiplier (m : Monitor) (a : Address) : Int := (m.localHealthMultipliers.get? a).getD 0

/-- `_reduce_health_multiplier(host, port)` -/
def reduceHealthMultiplier (m : Monitor) (a : Address) : Int :=
  let modifier := (m.nodeStatuses.items.filter fun p => p.2 = .healthy).length
  max (m.multiplier a - 1 * modifier) 0

/-- `_increase_health_multiplier(host, port)` -/
def increaseHealthMultiplier (m : Monitor) (a : Address) : Int :=
  min (m.multiplier a + 1) m.maxSuspectMultiplier

/-- `self._local_health_multipliers[a] = self._reduce_health_multiplier(a)` -/
def reduceMultiplier (m : Monitor) (a : Address) : Monitor :=
  { m with
    localHealthMultipliers := m.localHealthMultipliers.set a (m.reduceHealthMultiplier a) }

/-- The answer of a handler to the source of a message. -/
def answer (m : Monitor) (hc : HealthCheck) (sourceStatus : Option HealthStatus)
    (error : Option String) : Except PyError HealthCheck :=
  HealthCheck.validate
    { host := some hc.sourceHost
      port := some hc.sourcePort
      error := error
      targetHost := none
      targetPort := none
      targetStatus := none
      targetLastUpdated := none
      registeredNodes := none
      registeredCount := none
      sourceHost := m.address.host
      sourcePort := m.address.port
      sourceStatus := sourceStatus
      status := m.status }

/-! ## 3. Handlers -/

/-- `update_node_status`.  The time of the last update is compared and not written.  Without
one in the message the comparison raises. -/
def updateNodeStatus (m : Monitor) (shardId : Int) (hc : HealthCheck) :
    Monitor × Except PyError HealthCheck :=
  let updateNode := hc.updateNode
  let localLastUpdated := (m.latestUpdate.get? updateNode).getD 0
  let instanceId := (Snowflake.parse shardId).instanceId.toNat
  let m := { m with instanceIds := m.instanceIds.set hc.source instanceId }
  match hc.targetLastUpdated with
  | none => (m, .error .typeError)
  | some targetLastUpdated =>
    let m :=
      if targetLastUpdated > localLastUpdated then
        { m with nodeStatuses := m.nodeStatuses.set updateNode hc.updateStatus }
      else m
    let m := m.reduceMultiplier updateNode
    (m, m.answer hc none none)

/-- `update_node_health`, from where it writes.  When it began it read `localNodeStatus`, and
saw whether the source was suspect; in that case it has waited for the logger since. -/
def updateNodeHealth (m : Monitor) (localNodeStatus : Option HealthStatus) (wasSuspect : Bool)
    (shardId : Int) (hc : HealthCheck) : Monitor × Except PyError HealthCheck :=
  let m := if wasSuspect then { m with cancelCreated := m.cancelCreated ++ [hc.source] } else m
  let m := { m with
    nodeStatuses := m.nodeStatuses.set hc.source hc.status
    latestUpdate := m.latestUpdate.set hc.source (Snowflake.parse shardId).timestamp }
  (m, m.answer hc localNodeStatus m.errorContext)

/-- `push_status_update`, the message to `a` about a target, or about `a` itself. -/
def pushStatusUpdate (m : Monitor) (a : Address) (healthStatus : HealthStatus)
    (targetHost : Option String) (targetPort : Option Int) (errorContext : Option String) :
    Except PyError HealthCheck :=
  let target := HealthCheck.givenTarget targetHost targetPort
  HealthCheck.validate
    { host := some a.host
      port := some a.port
      error := errorContext
      targetHost := targetHost
      targetPort := targetPort
      targetStatus := target.bind m.nodeStatuses.get?
      targetLastUpdated := some ((m.latestUpdate.get? (target.getD a)).getD 0)
      registeredNodes := none
      registeredCount := none
      sourceHost := m.address.host
      sourcePort := m.address.port
      sourceStatus := none
      status := healthStatus }

/-- `_push_status_update`, when the answer to its `push_status_update` has come. -/
def pushStatusUpdateAnswered (m : Monitor) (hc : HealthCheck) : Monitor :=
  if m.checkIsNotSelf hc.source then
    { m with nodeStatuses := m.nodeStatuses.set hc.source hc.status }
  else m

/-- `_push_tcp_status_update` of `a`, when the answer has come. -/
def pushTcpStatusUpdateAnswered (m : Monitor) (a : Address) (hc : HealthCheck) : Monitor :=
  (m.reduceMultiplier a).pushStatusUpdateAnswered hc

/-! ## 4. The statuses after a handler -/

theorem nodeStatuses_updateNodeStatus (m : Monitor) (shardId : Int) (hc : HealthCheck) {t : Int}
    (ht : hc.targetLastUpdated = some t) :
    (m.updateNodeStatus shardId hc).1.nodeStatuses =
      if t > (m.latestUpdate.get? hc.updateNode).getD 0 then
        m.nodeStatuses.set hc.updateNode hc.updateStatus
      else m.nodeStatuses := by
  simp only [updateNodeStatus, ht, reduceMultiplier]
  split <;> rfl

theorem nodeStatuses_updateNodeHealth (m : Monitor) (localNodeStatus : Option HealthStatus)
    (wasSuspect : Bool) (shardId : Int) (hc : HealthCheck) :
    (m.updateNodeHealth localNodeStatus wasSuspect shardId hc).1.nodeStatuses =
      m.nodeStatuses.set hc.source hc.status := by
  cases wasSuspect <;> rfl

theorem nodeStatuses_pushStatusUpdateAnswered (m : Monitor) (hc : HealthCheck) :
    (m.pushStatusUpdateAnswered hc).nodeStatuses =
      if m.checkIsNotSelf hc.source then m.nodeStatuses.set hc.source hc.status
      else m.nodeStatuses := by
  unfold pushStatusUpdateAnswered
  split <;> rfl

end Monitor

end Hedra
