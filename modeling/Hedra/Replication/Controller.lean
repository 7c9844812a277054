/-
# `ReplicationController`

`distributed/replication/replication_controller.py`.  Its coroutines run on one event loop:
between two awaits a coroutine is alone, and at an await any other one may run.  So a
coroutine is modelled as a chain of **segments**, one for each stretch between awaits, and
what is left of a suspended coroutine is a `Task` of the state.  Loggers are awaits too.

The membership (`_node_statuses`, `_instance_ids`, `_suspect_tasks`) is maintained by the
health checks and registrations of `Monitor`.  This file reads it, and writes it where the
replication code does; for the rest it may change in any way at any time
(`Event.membership`).  `failed_nodes` is left out: its entries are triples with a time, so
the test `failed_node not in self.failed_nodes` holds of every pair.
-/
import Mathlib.Data.List.Sort
import Mathlib.Data.PNat.Defs
import Hedra.Replication.LogQueue

namespace Hedra

open Lib

/-! ## 1. State -/

/-- A running call of `_update_logs`: `retries` attempts are left, an attempt may be
`waiting` for its answer, and `heard` says that `update_response` has been assigned. -/
structure Update where
  member : Address
  entries : List Entry
  failedNode : Option Address
  retries : Nat
  waiting : Bool
  heard : Bool
deriving DecidableEq

/-- What is left of a suspended coroutine. -/
inductive Task
  /-- `run_election`, created and not started. -/
  | startElection
      (failedNode : Option Address)
  /-- `_start_suspect_monitor`, in `notify_of_failed_node`. -/
  | notifying
      (failedNode : Address)
  /-- `run_election`, before the selection. -/
  | electing
      (nextTerm : Int)
      (failedNode : Option Address)
  /-- `run_election`, when the node has selected itself. -/
  | elected
      (nextTerm : Int)
      (failedNode : Option Address)
  /-- `run_election`, when the node has selected another one. -/
  | lost
      (nextTerm : Int)
  /-- `run_election`, in its `gather`. -/
  | announcing
      (nextTerm : Int)
      (updates : List Update)
  /-- `_cancel_election`, created and not started. -/
  | cancelElection
      (message : RaftMessage)
  /-- `receive_log_update`, in the branch for a newer term. -/
  | adopting
      (message : RaftMessage)
      (leader : Option Address)
  /-- `receive_log_update`, at a suspicion that is being cleared; the source's own may be
  still to check. -/
  | applying
      (message : RaftMessage)
      (checkSource : Bool)
  /-- `_submit_logs_to_members`, created and not started. -/
  | submitting
      (entries : List Entry)
  /-- `_submit_logs_to_members`, in its `gather`. -/
  | replicating
      (updates : List Update)
deriving DecidableEq

/-- `ReplicationController`.  In `termLeaders`, `none` is the pair `(None, None)`. -/
structure Controller where
  address : Address
  instanceId : Nat
  pollRetries : ℕ+
  status : HealthStatus
  nodeStatuses : Dict Address HealthStatus
  instanceIds : Dict Address Nat
  suspectTasks : List Address
  termNumber : Int
  electionStatus : ElectionState
  raftNodeStatus : NodeState
  termLeaders : List (Option Address)
  logs : LogQueue
  generator : SnowflakeGenerator
  tasks : List Task

/-- The handlers of the RPC layer. -/
inductive Handler
  | voteRequest | logUpdate | forwardedEntries | failureNotification
deriving DecidableEq

/-- What a node puts on the wire: the call of a handler, or the answer to one. -/
inductive Packet
  | call (handler : Handler) (message : RaftMessage)
  | answer (handler : Handler) (message response : RaftMessage)
deriving DecidableEq

namespace Controller

/-- A fresh controller.  What `start` and `register` record comes in by `Event.membership`. -/
def init (address : Address) (instanceId current : Nat) (pollRetries : ℕ+) (pruneMaxAge : ℚ)
    (pruneMaxCount : Nat) : Controller where
  address := address
  instanceId := instanceId
  pollRetries := pollRetries
  status := .initializing
  nodeStatuses := Dict.empty
  instanceIds := Dict.empty
  suspectTasks := []
  termNumber := 0
  electionStatus := .ready
  raftNodeStatus := .follower
  termLeaders := []
  logs := LogQueue.empty pruneMaxAge pruneMaxCount
  generator := SnowflakeGenerator.ofInstance instanceId current
  tasks := []

/-! ## 2. Small parts -/

/-- `asyncio.create_task`, or the rest of the running coroutine at an await. -/
def spawn (c : Controller) (t : Task) : Controller := { c with tasks := c.tasks ++ [t] }

/-- `_check_is_not_self(host, port)`: both have to differ. -/
def checkIsNotSelf (c : Controller) (a : Address) : Bool :=
  a.host ≠ c.address.host && a.port ≠ c.address.port

/-- `[address for address, status in self._node_statuses.items() if status == 'healthy']` -/
def members (c : Controller) : List Address :=
  (c.nodeStatuses.items.filter fun p => p.2 = .healthy).map Prod.fst

/-- `self._instance_ids.get(instance, self._instance_id)` -/
def instanceKey (c : Controller) (a : Address) : Nat := (c.instanceIds.get? a).getD c.instanceId

/-- `_get_max_instance_id()`; `sorted` is stable, and so is `insertionSort`. -/
def getMaxInstanceId (c : Controller) : Address :=
  let nodes := c.members ++ [c.address]
  ((nodes.insertionSort fun a b => c.instanceKey a ≤ c.instanceKey b).getLast?).getD c.address

/-- The fields every `RaftMessage` of a node has; all others are `None`. -/
def message (c : Controller) (host : Option String) (port : Option Int) : RaftMessage where
  host := host
  port := port
  error := none
  sourceHost := c.address.host
  sourcePort := c.address.port
  electedLeader := none
  failedNode := none
  voteResult := none
  raftNodeStatus := c.raftNodeStatus
  status := c.status
  entries := none
  termNumber := c.termNumber
  receivedTimestamp := none

/-- A message to `a`. -/
def messageTo (c : Controller) (a : Address) : RaftMessage := c.message (some a.host) (some a.port)

/-- `request_vote(host, port)` -/
def requestVote (c : Controller) (a : Address) : RaftMessage := c.messageTo a

/-- `submit_log_update(host, port, entries, failed_node)` -/
def submitLogUpdate (c : Controller) (a : Address) (entries : List Entry)
    (failedNode : Option Address) : RaftMessage :=
  { c.messageTo a with failedNode := failedNode, entries := some entries }

/-- `forward_entries_to_leader(host, port, entries)` -/
def forwardEntriesToLeader (c : Controller) (a : Address) (entries : List Entry) : RaftMessage :=
  { c.messageTo a with entries := some entries }

/-- `submit_failure_notification(host, port, failed_node)` -/
def submitFailureNotification (c : Controller) (a failedNode : Address) : RaftMessage :=
  { c.messageTo a with failedNode := some failedNode }

/-- The `data` of a heartbeat entry. -/
def logsUpdate (c : Controller) : EntryData where
  key := "logs_update"
  value := "Node - " ++ c.address.host ++ ":" ++ toString c.address.port ++
    " - submitted log update"

/-- The `data` of the entry that announces an election. -/
def electionUpdate (c : Controller) : EntryData where
  key := "election_update"
  value := "Election complete! Elected - " ++ c.address.host ++ ":" ++ toString c.address.port

/-- `Entry.from_data(entry_id=self._entry_id_generator.generate(), ..)` -/
def generateEntry (c : Controller) (now : Nat) (leader : Option Address) (data : EntryData) :
    Controller × Except PyError Entry :=
  match c.generator.generate now with
  | (g, id) => ({ c with generator := g }, Entry.fromData id leader c.termNumber data)

/-- `sorted(message.entries, key=lambda entry: Snowflake.parse(entry.entry_id).timestamp)` -/
def sortEntries (entries : List Entry) : List Entry :=
  entries.insertionSort fun a b => a.stamp ≤ b.stamp

/-- The local `entries` of `receive_log_update`. -/
def sortedEntries (m : RaftMessage) : List Entry := sortEntries (m.entries.getD [])

/-- `(last_entry.leader_host, last_entry.leader_port)` -/
def leaderOf (m : RaftMessage) : Option Address := (sortedEntries m).getLast?.map Entry.leader

/-- `_update_logs(host, port, entries, failed_node)`, called for each member. -/
def updateLogs (c : Controller) (members : List Address) (entries : List Entry)
    (failedNode : Option Address) : List Update :=
  members.map fun a => ⟨a, entries, failedNode, c.pollRetries, false, false⟩

/-! ## 3. `receive_vote_request` -/

/-- The error of a refused vote, which `receive_log_update` sends too. -/
def staleTermError : String := "Election request term cannot be less than current term."

/-- `receive_vote_request` changes nothing.  It raises when no leader has been recorded, or
when the last one recorded is `(None, None)`. -/
def receiveVoteRequest (c : Controller) (m : RaftMessage) : Except PyError RaftMessage :=
  let answer (elected : Address) : RaftMessage :=
    { c.message (some m.sourceHost) (some m.sourcePort) with
      electedLeader := some elected
      voteResult := some (if elected = m.source then .accepted else .rejected)
      termNumber := m.termNumber }
  if m.termNumber > c.termNumber then
    -- the requesting node is ahead: it is elected by default
    .ok (answer m.source)
  else if m.termNumber = c.termNumber ∧ c.raftNodeStatus ≠ .leader then
    .ok (answer c.getMaxInstanceId)
  else
    match c.termLeaders.getLast? with
    | none => .error (.indexError "list index out of range")
    | some none => .error .validationError
    | some (some leader) =>
      .ok { c.message (some m.sourceHost) (some m.sourcePort) with
        electedLeader := some leader
        error := some staleTermError
        voteResult := some .rejected }

/-! ## 4. `receive_log_update` -/

/-- The answer to an update that was filed, was rejected or raised. -/
def updateAnswer (c : Controller) (m : RaftMessage) : UpdateResult → RaftMessage
  | .done =>
    { c.message (some m.sourceHost) (some m.sourcePort) with
      electedLeader := leaderOf m
      receivedTimestamp := some c.logs.lastTimestamp }
  | .rejected err =>
    { c.message (some m.sourceHost) (some m.sourcePort) with
      electedLeader := leaderOf m
      error := some err.str }
  | .raised err =>
    { c.message (some m.sourceHost) (some m.sourcePort) with
      electedLeader := leaderOf m
      error := some err.str }

/-- The segment that files the entries. -/
def applyUpdate (c : Controller) (m : RaftMessage) : Controller × List Packet :=
  match c.logs.update (sortedEntries m) with
  | (q, r) =>
    let c' := { c with logs := q }
    (c', [.answer .logUpdate m (c'.updateAnswer m r)])

/-- The segment that looks whether the source is suspect. -/
def checkSource (c : Controller) (m : RaftMessage) : Controller × List Packet :=
  if m.source ∈ c.suspectTasks then (c.spawn (.applying m false), [])
  else c.applyUpdate m

/-- The segment that looks whether the failed node is suspect. -/
def checkFailedNode (c : Controller) (m : RaftMessage) : Controller × List Packet :=
  if m.failedNode.any (· ∈ c.suspectTasks) then (c.spawn (.applying m true), [])
  else c.checkSource m

/-- The branch for a newer term, up to its first await.  The leaders of the terms that were
missed are recorded as unknown. -/
def adoptTerm (c : Controller) (m : RaftMessage) : Controller :=
  let amountBehind := max (m.termNumber - c.termNumber - 1) 0
  let c := c.spawn (.cancelElection m)
  let c := { c with
    termNumber := m.termNumber
    termLeaders := c.termLeaders ++ List.replicate amountBehind.toNat none }
  c.spawn (.adopting m (leaderOf m))

/-- `receive_log_update`, up to its first await. -/
def receiveLogUpdate (c : Controller) (m : RaftMessage) : Controller × List Packet :=
  match m.entries with
  | none => (c, []) -- `len(None)`: the call is never answered
  | some [] => (c, [.answer .logUpdate m (c.message m.host m.port)])
  | some (_ :: _) =>
    if m.termNumber > c.termNumber then (c.adoptTerm m, [])
    else c.checkFailedNode m

/-- The rest of the branch for a newer term. -/
def adoptLeader (c : Controller) (m : RaftMessage) (leader : Option Address) :
    Controller × List Packet :=
  let c := { c with
    termLeaders := c.termLeaders ++ [leader]
    electionStatus := .ready
    raftNodeStatus := .follower }
  (c, [.answer .logUpdate m
    { c.message (some m.sourceHost) (some m.sourcePort) with
      electedLeader := leader
      error := some staleTermError
      voteResult := some .rejected }])

/-- `_cancel_election(message)`.  `_election_task` is never assigned, so there is never one to
cancel. -/
def cancelElection (c : Controller) (m : RaftMessage) : Controller :=
  { c with electionStatus := .ready, termNumber := m.termNumber }

/-! ## 5. `run_election` -/

/-- Up to the first await. -/
def runElection (c : Controller) (failedNode : Option Address) : Controller :=
  { c with raftNodeStatus := .candidate }.spawn (.electing (c.termNumber + 1) failedNode)

/-- The selection. -/
def electLeader (c : Controller) (nextTerm : Int) (failedNode : Option Address) : Controller :=
  let elected := c.getMaxInstanceId
  let c := { c with termLeaders := c.termLeaders ++ [some elected] }
  if elected = c.address then c.spawn (.elected nextTerm failedNode)
  else { c with raftNodeStatus := .follower }.spawn (.lost nextTerm)

/-- `self._logs.update(entries)` and `self._logs.latest()`, which are made in one segment; the
second part is `none` when one of them raises.  An `InvalidTermError` that `update` returns is
ignored. -/
def updateAndLatest (c : Controller) (entries : List Entry) : Controller × Option (List Entry) :=
  match c.logs.update entries with
  | (q, .raised _) => ({ c with logs := q }, none)
  | (q, _) => ({ c with logs := q }, q.latest.toOption)

/-- The new leader files the entry that announces it.  An exception ends the election. -/
def fileElection (c : Controller) (now : Nat) : Controller × Option (List Entry) :=
  match c.generateEntry now (some c.address) c.electionUpdate with
  | (c, .error _) => (c, none)
  | (c, .ok e) => c.updateAndLatest [e]

/-- `self._raft_node_status = NodeState.LEADER; self._term_number += 1` -/
def enterTerm (c : Controller) : Controller :=
  { c with raftNodeStatus := .leader, termNumber := c.termNumber + 1 }

/-- The node becomes leader and announces itself. -/
def becomeLeader (c : Controller) (nextTerm : Int) (failedNode : Option Address) (now : Nat) :
    Controller :=
  match c.enterTerm.fileElection now with
  | (c, none) => c
  | (c, some latestLogs) =>
    c.spawn (.announcing nextTerm (c.updateLogs c.members latestLogs failedNode))

/-- The end of an election. -/
def endElection (c : Controller) (nextTerm : Int) : Controller :=
  { c with
    termNumber := if c.termNumber > nextTerm then nextTerm else c.termNumber
    electionStatus := .ready }

/-! ## 6. `_submit_logs_to_members` -/

/-- Up to the `gather`. -/
def submitLogsToMembers (c : Controller) (entries : List Entry) : Controller :=
  let members := c.members
  match c.updateAndLatest entries with
  | (c, none) => c
  | (c, some latestLogs) => c.spawn (.replicating (c.updateLogs members latestLogs none))

/-- After the `gather`. -/
def commitLogs (c : Controller) : Controller := { c with logs := c.logs.commit }

/-- `_convert_data_to_entries`, for a leader that has been read already.  The ids of the entries
before a failing one are used up. -/
def convertAll (c : Controller) (now : Nat) (leader : Option Address) :
    List EntryData → Controller × Except PyError (List Entry)
  | [] => (c, .ok [])
  | d :: ds =>
    match c.generateEntry now leader d with
    | (c, .error err) => (c, .error err)
    | (c, .ok e) =>
      match c.convertAll now leader ds with
      | (c, .error err) => (c, .error err)
      | (c, .ok es) => (c, .ok (e :: es))

/-- `_convert_data_to_entries(entries)` -/
def convertDataToEntries (c : Controller) (now : Nat) (data : List EntryData) :
    Controller × Except PyError (List Entry) :=
  match c.termLeaders.getLast? with
  | none => (c, .error (.indexError "list index out of range"))
  | some leader => c.convertAll now leader data

/-- `push_entries(entries)`, up to the `gather` or to the call that forwards the entries. -/
def pushEntries (c : Controller) (now : Nat) (data : List EntryData) :
    Controller × List Packet :=
  match c.convertDataToEntries now (data ++ [c.logsUpdate]) with
  | (c, .error _) => (c, [])
  | (c, .ok entries) =>
    if c.raftNodeStatus = .leader then (c.submitLogsToMembers entries, [])
    else
      match c.termLeaders.getLast? with
      | some (some leader) => (c, [.call .forwardedEntries (c.forwardEntriesToLeader leader entries)])
      | _ => (c, [])

/-- `receive_forwarded_entries` -/
def receiveForwardedEntries (c : Controller) (now : Nat) (m : RaftMessage) :
    Controller × List Packet :=
  let answer (c : Controller) : Packet := .answer .forwardedEntries m
    { c.message m.host m.port with receivedTimestamp := some c.logs.lastTimestamp }
  match c.raftNodeStatus, m.entries with
  | .leader, some (e :: es) =>
    match c.generateEntry now (some c.address) c.logsUpdate with
    | (c, .error _) => (c, [])
    | (c, .ok last) =>
      let c := c.spawn (.submitting (e :: es ++ [last]))
      (c, [answer c])
  | _, _ => (c, [answer c])

/-- One round of `_run_raft_monitor`. -/
def runRaftMonitor (c : Controller) (now : Nat) : Controller :=
  if c.raftNodeStatus = .leader then
    match c.generateEntry now (some c.address) c.logsUpdate with
    | (c, .error _) => c
    | (c, .ok e) => c.spawn (.submitting [e])
  else c

/-! ## 7. `_update_logs` -/

/-- The events of one call of `_update_logs`. -/
inductive UpdateEvent
  /-- The next attempt is sent. -/
  | send
  /-- Its answer arrives. -/
  | response (m : RaftMessage)
  /-- It times out, or its answer cannot be read (`heard`). -/
  | fail (heard : Bool)
  /-- No attempt is left. -/
  | giveUp

/-- What an answer says about its sender. -/
def noteStatus (c : Controller) (m : RaftMessage) : Controller :=
  if c.checkIsNotSelf m.source then
    { c with nodeStatuses := c.nodeStatuses.set m.source m.status }
  else c

/-- A member that never answered becomes suspect. -/
def noteSilence (c : Controller) (u : Update) : Controller :=
  if c.checkIsNotSelf u.member ∧ u.heard = false ∧
      c.nodeStatuses.get? u.member = some .healthy then
    { c with
      nodeStatuses := c.nodeStatuses.set u.member .suspect
      suspectTasks := c.suspectTasks ++ [u.member] }
  else c

/-- One event of a running `_update_logs`; `none` in the second place when it returns. -/
def continueUpdate (c : Controller) (u : Update) :
    UpdateEvent → Option (Controller × Option Update × List Packet)
  | .send =>
    if u.waiting = false ∧ 0 < u.retries then
      some (c, some { u with waiting := true, retries := u.retries - 1 },
        [.call .logUpdate (c.submitLogUpdate u.member u.entries u.failedNode)])
    else none
  | .response m => if u.waiting then some (c.noteStatus m, none, []) else none
  | .fail heard =>
    if u.waiting then some (c, some { u with waiting := false, heard := u.heard || heard }, [])
    else none
  | .giveUp =>
    if u.waiting = false ∧ u.retries = 0 then some (c.noteSilence u, none, []) else none

/-! ## 8. Failures of other nodes -/

/-- `receive_failure_notification`; an exception in it is swallowed, and never answered. -/
def receiveFailureNotification (c : Controller) (m : RaftMessage) : Controller × List Packet :=
  let answer (c : Controller) : Packet := .answer .failureNotification m
    { c.message m.host m.port with receivedTimestamp := some c.logs.lastTimestamp }
  match m.failedNode with
  | none => (c, [])
  | some failedNode =>
    if c.checkIsNotSelf failedNode ∧ c.electionStatus = .ready then
      let c := { c with
        nodeStatuses := c.nodeStatuses.set failedNode .failed
        electionStatus := .active }
      let c := c.spawn (.startElection (some failedNode))
      (c, [answer c])
    else (c, [answer c])

/-- `_start_suspect_monitor`, from where the probe of `failedNode` has ended up to
`notify_of_failed_node`. -/
def startSuspectMonitor (c : Controller) (failedNode : Address) : Controller × List Packet :=
  if c.electionStatus = .ready ∧ c.nodeStatuses.get? failedNode = some .failed then
    let c := { c with electionStatus := .active }
    let monitors := c.members.filter (· ≠ failedNode)
    (c.spawn (.notifying failedNode),
      monitors.map fun a => .call .failureNotification (c.submitFailureNotification a failedNode))
  else (c, [])

end Controller

end Hedra
