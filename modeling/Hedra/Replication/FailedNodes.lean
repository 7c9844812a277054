/-
# `failed_nodes`

A `ReplicationController` is a `Monitor` with the elections on top.  Both write `failed_nodes`
(`distributed/monitoring/monitor_service.py`, `distributed/replication/replication_controller.py`),
and always as triples: the host, the port and the time.  Both test it with the pair of host and
port, and in Python a pair is never equal to a triple.  So `register_node` never finds the node that
comes back, and neither failure handler ever finds that the failure has been dealt with.

What is left of the bookkeeping is what the order of events grants: the records stay one for
each address, without the addresses that have come back, and with one election for each failure
of the leader, if and only if no failure is noted of a node that is still recorded (or whose
failure as leader has already started an election), and no node registers that is still
recorded.

* `not_inFailedNodes`: the test never matches;
* `recorded_step`: what a step does to the records;
* `booked_iff`: the books are right along a run exactly if every step keeps them.
-/
import Hedra.Monitoring.Monitor
import Hedra.Replication.ControllerStep

namespace Hedra

open Lib Lib.Machine

/-! ## 1. Records -/

/-- What stands in the tuples that are compared. -/
inductive PyValue
  | str (text : String)
  | int (value : Int)
  | float (value : ℚ)
deriving DecidableEq

/-- The pair `(host, port)`. -/
def Address.tuple (a : Address) : List PyValue := [.str a.host, .int a.port]

/-- A record of `failed_nodes` or `removed_nodes`: `(host, port, time.monotonic())`. -/
structure FailedNode where
  address : Address
  time : ℚ
deriving DecidableEq

/-- The triple. -/
def FailedNode.tuple (r : FailedNode) : List PyValue :=
  [.str r.address.host, .int r.address.port, .float r.time]

/-- A `ReplicationController` with the bookkeeping of its `Monitor` part. -/
structure ReplicationNode where
  controller : Controller
  registeredCounts : Dict Address Int
  cancelCreated : List Address
  failedNodes : List FailedNode
  removedNodes : List FailedNode
  failedMaxAge : ℚ
  removedMaxAge : ℚ

namespace ReplicationNode

/-- `a in self.failed_nodes`, for a pair `a`. -/
def InFailedNodes (n : ReplicationNode) (a : Address) : Prop :=
  a.tuple ∈ n.failedNodes.map FailedNode.tuple

instance (n : ReplicationNode) (a : Address) : Decidable (n.InFailedNodes a) :=
  inferInstanceAs (Decidable (a.tuple ∈ n.failedNodes.map FailedNode.tuple))

/-- **The test never matches.** -/
theorem not_inFailedNodes (n : ReplicationNode) (a : Address) : ¬ n.InFailedNodes a := by
  intro h
  obtain ⟨r, -, hr⟩ := List.mem_map.mp h
  simp [FailedNode.tuple, Address.tuple] at hr

/-- The addresses that have a record. -/
def recorded (n : ReplicationNode) : List Address := n.failedNodes.map FailedNode.address

/-! ## 2. Registrations -/

/-- A node that registers, or that another one tells of, becomes healthy if it is new. -/
def noteRegistered (n : ReplicationNode) (a : Address) : ReplicationNode :=
  if n.controller.checkIsNotSelf a ∧ n.controller.nodeStatuses.get? a = none then
    { n with controller.nodeStatuses := n.controller.nodeStatuses.set a .healthy }
  else n

/-- `self._instance_ids[a] = instance_id` -/
def setInstanceId (n : ReplicationNode) (a : Address) (instanceId : Nat) : ReplicationNode :=
  { n with controller.instanceIds := n.controller.instanceIds.set a instanceId }

/-- A task of `_cancel_suspicion_probe` is created. -/
def createCancel (n : ReplicationNode) (a : Address) : ReplicationNode :=
  { n with cancelCreated := n.cancelCreated ++ [a] }

/-- One node of `healthcheck.registered_nodes`. -/
def noteMember (n : ReplicationNode) (member : Address × Nat) : ReplicationNode :=
  let isNew := n.controller.checkIsNotSelf member.1 ∧
    n.controller.nodeStatuses.get? member.1 = none
  let n := if isNew then (n.noteRegistered member.1).createCancel member.1 else n
  n.setInstanceId member.1 member.2

/-- `if node_address in self.failed_nodes: self.failed_nodes.remove(node_address)` -/
def clearFailed (n : ReplicationNode) (a : Address) : ReplicationNode :=
  if n.InFailedNodes a then
    { n with failedNodes := n.failedNodes.eraseP fun r => r.tuple = a.tuple }
  else n

/-- What `register_node` writes, up to the counts. -/
def noteRegistration (n : ReplicationNode) (shardId : Int) (hc : HealthCheck) : ReplicationNode :=
  let n := (n.noteRegistered hc.source).setInstanceId hc.source
    (Snowflake.parse shardId).instanceId.toNat
  let n := (hc.registeredNodes.getD []).foldl noteMember n
  (n.createCancel hc.source).clearFailed hc.source

/-- `register_node`.  Without a `registered_count` it raises, which is swallowed: there is no
answer. -/
def registerNode (n : ReplicationNode) (shardId : Int) (hc : HealthCheck) :
    ReplicationNode × Option HealthCheck :=
  let n := n.noteRegistration shardId hc
  match hc.registeredCount with
  | none => (n, none)
  | some count =>
    let known := (n.registeredCounts.get? hc.source).getD 0
    let n := { n with registeredCounts := n.registeredCounts.set hc.source (max count known) }
    (n, some
      { host := some hc.sourceHost
        port := some hc.sourcePort
        error := none
        targetHost := none
        targetPort := none
        targetStatus := none
        targetLastUpdated := none
        registeredNodes := some n.controller.instanceIds.items
        registeredCount := some n.controller.instanceIds.items.length
        sourceHost := n.controller.address.host
        sourcePort := n.controller.address.port
        sourceStatus := none
        status := n.controller.status })

/-- `deregister_node`, whose answer says nothing about the node. -/
def deregisterNode (n : ReplicationNode) (hc : HealthCheck) : ReplicationNode :=
  let n := if hc.source ∈ n.controller.suspectTasks then n.createCancel hc.source else n
  match n.controller.nodeStatuses.get? hc.source with
  | none => n
  | some _ => { n with controller.nodeStatuses := n.controller.nodeStatuses.set hc.source .inactive }

/-! ## 3. Failures -/

/-- `receive_failure_notification`; an exception in it is swallowed, and never answered. -/
def receiveFailureNotification (n : ReplicationNode) (now : ℚ) (m : RaftMessage) :
    ReplicationNode × List Packet :=
  match m.failedNode with
  | none => (n, [])
  | some failedNode =>
    if n.controller.checkIsNotSelf failedNode ∧ n.controller.electionStatus = .ready ∧
        ¬ n.InFailedNodes failedNode then
      let noted := n.controller.receiveFailureNotification m
      ({ n with controller := noted.1, failedNodes := n.failedNodes ++ [⟨failedNode, now⟩] },
        noted.2)
    else
      (n, [.answer .failureNotification m
        { n.controller.message m.host m.port with
          receivedTimestamp := some n.controller.logs.lastTimestamp }])

/-- `_start_suspect_monitor`, when the probe of `failedNode` has ended. -/
def startSuspectMonitor (n : ReplicationNode) (now : ℚ) (failedNode : Address) :
    ReplicationNode × List Packet :=
  if n.controller.electionStatus = .ready ∧
      n.controller.nodeStatuses.get? failedNode = some .failed ∧ ¬ n.InFailedNodes failedNode then
    let noted := n.controller.startSuspectMonitor failedNode
    ({ n with controller := noted.1, failedNodes := n.failedNodes ++ [⟨failedNode, now⟩] },
      noted.2)
  else (n, [])

/-- One record, in the pass of `cleanup_pending_checks` over `failed_nodes`. -/
def cleanupRecord (now : ℚ) (n : ReplicationNode) (r : FailedNode) : ReplicationNode :=
  let elapsed := now - r.time
  let n := if r ∈ n.removedNodes then n else { n with removedNodes := n.removedNodes ++ [r] }
  if elapsed ≥ n.failedMaxAge then { n with failedNodes := n.failedNodes.erase r }
  else if elapsed ≥ n.removedMaxAge then { n with removedNodes := n.removedNodes.erase r }
  else n

/-- The pass over `failed_nodes`. -/
def cleanup (n : ReplicationNode) (now : ℚ) : ReplicationNode :=
  n.failedNodes.foldl (cleanupRecord now) n

/-! ## 4. The machine -/

/-- A fresh node. -/
def init (address : Address) (instanceId current : Nat) (pollRetries : ℕ+) (pruneMaxAge : ℚ)
    (pruneMaxCount : Nat) (failedMaxAge removedMaxAge : ℚ) : ReplicationNode where
  controller := Controller.init address instanceId current pollRetries pruneMaxAge pruneMaxCount
  registeredCounts := Dict.empty
  cancelCreated := []
  failedNodes := []
  removedNodes := []
  failedMaxAge := failedMaxAge
  removedMaxAge := removedMaxAge

/-- What can happen to a node. -/
inductive Event
  | register
      (shardId : Int)
      (healthcheck : HealthCheck)
  | deregister
      (healthcheck : HealthCheck)
  | failureNotification
      (message : RaftMessage)
      (now : ℚ)
  /-- A probe of a suspect has ended, in `_start_suspect_monitor`. -/
  | probed
      (failedNode : Address)
      (now : ℚ)
  | cleanup
      (now : ℚ)
  /-- Anything else that can happen to a controller: elections go on, updates arrive, the
  membership changes. -/
  | other
      (event : Controller.Event)

/-- The events of a controller that are not about failures. -/
def IsOther : Controller.Event → Prop
  | .probed _ | .failureNotification _ => False
  | _ => True

instance : DecidablePred IsOther
  | .probed _ | .failureNotification _ => isFalse id
  | .boot | .voteRequest _ | .logUpdate _ | .forwardedEntries .. | .pushEntries ..
  | .requestVote _ | .raftMonitor _ | .prune _ | .resume .. | .update .. | .drop _
  | .membership .. => isTrue trivial

/-- The machine of one node. -/
def step (n : ReplicationNode) : Event → Option ReplicationNode
  | .register shardId hc => some (n.registerNode shardId hc).1
  | .deregister hc => some (n.deregisterNode hc)
  | .failureNotification m now => some (n.receiveFailureNotification now m).1
  | .probed failedNode now => some (n.startSuspectMonitor now failedNode).1
  | .cleanup now => some (n.cleanup now)
  | .other ev =>
    if IsOther ev then (n.controller.step ev).map fun c => { n with controller := c } else none

/-! ## 5. What a step does to the records -/

/-- The failure that the event makes the node note. -/
def noted (n : ReplicationNode) : Event → Option Address
  | .failureNotification m _ =>
    match m.failedNode with
    | some a =>
      if n.controller.checkIsNotSelf a ∧ n.controller.electionStatus = .ready then some a else none
    | none => none
  | .probed a _ =>
    if n.controller.electionStatus = .ready ∧ n.controller.nodeStatuses.get? a = some .failed
    then some a else none
  | _ => none

/-- The node that the event registers, when it is answered. -/
def registers : Event → Option Address
  | .register _ hc => hc.registeredCount.map fun _ => hc.source
  | _ => none

@[simp] theorem failedNodes_noteRegistered (n : ReplicationNode) (a : Address) :
    (n.noteRegistered a).failedNodes = n.failedNodes := by
  unfold noteRegistered
  split <;> rfl

theorem failedNodes_noteMember (n : ReplicationNode) (member : Address × Nat) :
    (n.noteMember member).failedNodes = n.failedNodes := by
  simp only [noteMember, setInstanceId, createCancel]
  split
  · exact failedNodes_noteRegistered n member.1
  · rfl

theorem failedNodes_foldl_noteMember (members : List (Address × Nat)) (n : ReplicationNode) :
    (members.foldl noteMember n).failedNodes = n.failedNodes := by
  induction members generalizing n with
  | nil => rfl
  | cons x members ih => rw [List.foldl_cons, ih, failedNodes_noteMember]

/-- **A registration leaves the records as they are.** -/
theorem failedNodes_registerNode (n : ReplicationNode) (shardId : Int) (hc : HealthCheck) :
    (n.registerNode shardId hc).1.failedNodes = n.failedNodes := by
  have hnote : (n.noteRegistration shardId hc).failedNodes = n.failedNodes := by
    unfold noteRegistration clearFailed
    simp only [not_inFailedNodes, if_false, createCancel, failedNodes_foldl_noteMember,
      setInstanceId, failedNodes_noteRegistered]
  unfold registerNode
  simp only
  split <;> exact hnote

theorem failedNodes_deregisterNode (n : ReplicationNode) (hc : HealthCheck) :
    (n.deregisterNode hc).failedNodes = n.failedNodes := by
  unfold deregisterNode createCancel
  simp only
  split <;> split <;> rfl

theorem failedNodes_cleanupRecord (now : ℚ) (n : ReplicationNode) (r : FailedNode) :
    (cleanupRecord now n r).failedNodes.Sublist n.failedNodes := by
  unfold cleanupRecord
  simp only
  split_ifs
  · exact List.erase_sublist
  · exact List.Sublist.refl _
  · exact List.Sublist.refl _
  · exact List.erase_sublist
  · exact List.Sublist.refl _
  · exact List.Sublist.refl _

/-- A cleanup only removes records. -/
theorem failedNodes_cleanup (n : ReplicationNode) (now : ℚ) :
    (n.cleanup now).failedNodes.Sublist n.failedNodes := by
  have hfold : ∀ (rs : List FailedNode) (n : ReplicationNode),
      (rs.foldl (cleanupRecord now) n).failedNodes.Sublist n.failedNodes := by
    intro rs
    induction rs with
    | nil => exact fun n => List.Sublist.refl _
    | cons r rs ih => exact fun n => (ih _).trans (failedNodes_cleanupRecord now n r)
  exact hfold n.failedNodes n

/-- **What a step does to the records**: one is added for a failure that is noted, and otherwise
some may be removed. -/
theorem recorded_step {n n' : ReplicationNode} {ev : Event} (h : n.step ev = some n') :
    match n.noted ev with
    | some a => n'.recorded = n.recorded ++ [a]
    | none => n'.recorded.Sublist n.recorded := by
  cases ev with
  | register shardId hc =>
    obtain rfl := Option.some.inj h
    simp only [noted, recorded, failedNodes_registerNode]
    exact List.Sublist.refl _
  | deregister hc =>
    obtain rfl := Option.some.inj h
    simp only [noted, recorded, failedNodes_deregisterNode]
    exact List.Sublist.refl _
  | failureNotification m now =>
    obtain rfl := Option.some.inj h
    cases hm : m.failedNode with
    | none =>
      simp only [noted, receiveFailureNotification, hm]
      exact List.Sublist.refl _
    | some a =>
      simp only [noted, receiveFailureNotification, hm, not_inFailedNodes, not_false_eq_true,
        and_true]
      by_cases hacc : n.controller.checkIsNotSelf a ∧ n.controller.electionStatus = .ready
      · simp only [if_pos hacc, recorded, List.map_append, List.map_cons, List.map_nil]
      · simp only [if_neg hacc]
        exact List.Sublist.refl _
  | probed a now =>
    obtain rfl := Option.some.inj h
    simp only [noted, startSuspectMonitor, not_inFailedNodes, not_false_eq_true, and_true]
    by_cases hacc : n.controller.electionStatus = .ready ∧
        n.controller.nodeStatuses.get? a = some .failed
    · simp only [if_pos hacc, recorded, List.map_append, List.map_cons, List.map_nil]
    · simp only [if_neg hacc]
      exact List.Sublist.refl _
  | cleanup now =>
    obtain rfl := Option.some.inj h
    exact (failedNodes_cleanup n now).map FailedNode.address
  | other ev =>
    simp only [step] at h
    split at h
    · obtain ⟨c, -, rfl⟩ := Option.map_eq_some_iff.mp h
      exact List.Sublist.refl _
    · cases h

theorem recorded_of_registers {n n' : ReplicationNode} {ev : Event} {a : Address}
    (h : n.step ev = some n') (ha : registers ev = some a) : n'.recorded = n.recorded := by
  cases ev with
  | register shardId hc =>
    obtain rfl := Option.some.inj h
    rw [recorded, failedNodes_registerNode, recorded]
  | _ => cases ha

/-- A failure that is noted starts an election: at once, or after the other nodes have been
notified. -/
theorem election_of_noted {n n' : ReplicationNode} {ev : Event} {a : Address}
    (h : n.step ev = some n') (ha : n.noted ev = some a) :
    n'.controller.tasks = n.controller.tasks ++ [.startElection (some a)] ∨
      n'.controller.tasks = n.controller.tasks ++ [.notifying a] := by
  cases ev with
  | failureNotification m now =>
    obtain rfl := Option.some.inj h
    simp only [noted] at ha
    split at ha
    · next b hm =>
      split at ha
      · next hacc =>
        obtain rfl := Option.some.inj ha
        left
        simp only [receiveFailureNotification, hm, not_inFailedNodes, not_false_eq_true, and_true,
          if_pos hacc, Controller.receiveFailureNotification]
        rfl
      · cases ha
    · cases ha
  | probed b now =>
    obtain rfl := Option.some.inj h
    simp only [noted] at ha
    split at ha
    · next hacc =>
      obtain rfl := Option.some.inj ha
      right
      simp only [startSuspectMonitor, not_inFailedNodes, not_false_eq_true, and_true,
        if_pos hacc, Controller.startSuspectMonitor]
      rfl
    · cases ha
  | _ => cases ha

/-! ## 6. Runs -/

/-- A node with what the bookkeeping should say: `rejoined` are the addresses that have
registered and not failed since, and `elections` has an address once for each election that
its failure as leader has started since it last registered. -/
structure Watched where
  node : ReplicationNode
  rejoined : List Address
  elections : List Address

namespace Watched

/-- The node that this one takes to be the leader. -/
def IsLeader (w : Watched) (a : Address) : Prop :=
  w.node.controller.termLeaders.getLast? = some (some a)

instance (w : Watched) (a : Address) : Decidable (w.IsLeader a) :=
  inferInstanceAs (Decidable (w.node.controller.termLeaders.getLast? = some (some a)))

/-- The failure of `a` starts an election. -/
def startElection (w : Watched) (a : Address) : List Address :=
  if w.IsLeader a ∨ a ∈ w.elections then w.elections ++ [a] else w.elections

/-- The machine of one node, watched. -/
def step (w : Watched) (ev : Event) : Option Watched :=
  (w.node.step ev).map fun n =>
    match w.node.noted ev, registers ev with
    | some a, _ => ⟨n, w.rejoined.filter (· ≠ a), w.startElection a⟩
    | none, some a => ⟨n, w.rejoined ++ [a], w.elections.filter (· ≠ a)⟩
    | none, none => ⟨n, w.rejoined, w.elections⟩

/-- A fresh node. -/
def init (address : Address) (instanceId current : Nat) (pollRetries : ℕ+) (pruneMaxAge : ℚ)
    (pruneMaxCount : Nat) (failedMaxAge removedMaxAge : ℚ) : Watched where
  node := ReplicationNode.init address instanceId current pollRetries pruneMaxAge pruneMaxCount
    failedMaxAge removedMaxAge
  rejoined := []
  elections := []

/-- The bookkeeping is right. -/
structure Booked (w : Watched) : Prop where
  one_record : w.node.recorded.Nodup
  rejoined : ∀ a ∈ w.rejoined, a ∉ w.node.recorded
  one_election : w.elections.Nodup

/-- The event notes no failure of a node that is still recorded or whose failure has started an
election, and registers no node that is still recorded. -/
structure KeepsBooks (w : Watched) (ev : Event) : Prop where
  noted : ∀ a, w.node.noted ev = some a → a ∉ w.node.recorded ∧ a ∉ w.elections
  registers : ∀ a, registers ev = some a → a ∉ w.node.recorded

theorem nodup_concat_iff {α : Type*} {l : List α} (h : l.Nodup) (a : α) :
    (l ++ [a]).Nodup ↔ a ∉ l := by
  rw [← List.concat_eq_append, List.nodup_concat]
  exact and_iff_left h

theorem nodup_startElection_iff {w : Watched} (h : w.elections.Nodup) (a : Address) :
    (w.startElection a).Nodup ↔ a ∉ w.elections := by
  unfold startElection
  split
  · exact nodup_concat_iff h a
  · next hno => exact iff_of_true h fun ha => hno (Or.inr ha)

theorem keepsBooks_of_noted {w : Watched} {ev : Event} {a : Address}
    (ha : w.node.noted ev = some a) :
    w.KeepsBooks ev ↔ a ∉ w.node.recorded ∧ a ∉ w.elections := by
  have hreg : registers ev = none := by
    cases ev with
    | register shardId hc => cases ha
    | _ => rfl
  constructor
  · exact fun h => h.noted a ha
  · refine fun h => ⟨fun b hb => ?_, fun b hb => ?_⟩
    · rw [ha, Option.some.injEq] at hb
      exact hb ▸ h
    · rw [hreg] at hb
      cases hb

/-- **One step keeps the books right exactly if it notes no failure twice and registers no node
that is still recorded.** -/
theorem booked_step_iff {w w' : Watched} {ev : Event} (h : w.Booked) (hs : w.step ev = some w') :
    w'.Booked ↔ w.KeepsBooks ev := by
  obtain ⟨n, hn, rfl⟩ := Option.map_eq_some_iff.mp hs
  have hrec := recorded_step hn
  cases ha : w.node.noted ev with
  | some a =>
    simp only [ha] at hrec ⊢
    rw [keepsBooks_of_noted ha]
    constructor
    · intro hb
      have hone : n.recorded.Nodup := hb.one_record
      rw [hrec, nodup_concat_iff h.one_record] at hone
      exact ⟨hone, (nodup_startElection_iff h.one_election a).mp hb.one_election⟩
    · rintro ⟨hone, helec⟩
      refine ⟨?_, ?_, (nodup_startElection_iff h.one_election a).mpr helec⟩
      · change n.recorded.Nodup
        rw [hrec, nodup_concat_iff h.one_record]
        exact hone
      · intro b hb
        change b ∉ n.recorded
        obtain ⟨hb, hne⟩ := List.mem_filter.mp hb
        rw [hrec, List.mem_append, List.mem_singleton, not_or]
        exact ⟨h.rejoined b hb, by simpa using hne⟩
  | none =>
    simp only [ha] at hrec ⊢
    have hkeep : w.KeepsBooks ev ↔ ∀ a, registers ev = some a → a ∉ w.node.recorded :=
      ⟨fun h => h.registers, fun h => ⟨fun a hn => by simp [ha] at hn, h⟩⟩
    rw [hkeep]
    cases hreg : registers ev with
    | none =>
      refine iff_of_true ⟨h.one_record.sublist hrec, fun b hb hmem => ?_, h.one_election⟩ (by simp)
      exact h.rejoined b hb (hrec.subset hmem)
    | some a =>
      have heq : n.recorded = w.node.recorded := recorded_of_registers hn hreg
      simp only [Option.some.injEq, forall_eq']
      constructor
      · intro hb
        exact heq ▸ hb.rejoined a (List.mem_append_right _ (List.mem_singleton_self a))
      · intro hno
        refine ⟨?_, fun b hb => ?_, h.one_election.filter _⟩
        · exact heq ▸ h.one_record
        · change b ∉ n.recorded
          rw [heq]
          rcases List.mem_append.mp hb with hb | hb
          · exact h.rejoined b hb
          · exact (List.mem_singleton.mp hb) ▸ hno

/-- **The bookkeeping is right all along a run exactly if every step keeps the books.** -/
theorem booked_iff (address : Address) (instanceId current : Nat) (pollRetries : ℕ+)
    (pruneMaxAge : ℚ) (pruneMaxCount : Nat) (failedMaxAge removedMaxAge : ℚ) (evs : List Event) :
    Always step Booked (init address instanceId current pollRetries pruneMaxAge pruneMaxCount
        failedMaxAge removedMaxAge) evs ↔
      Along step (fun w ev _ => w.KeepsBooks ev) (init address instanceId current pollRetries
        pruneMaxAge pruneMaxCount failedMaxAge removedMaxAge) evs := by
  refine always_iff_along ?_ ?_
  · intro w ev w' h hs
    exact booked_step_iff h hs
  · constructor <;> simp [init, ReplicationNode.init, recorded]

/-- A message of node 9002 that reports the failure of node 9001. -/
def failureOf9001 : RaftMessage where
  host := some "127.0.0.3"
  port := some 9003
  error := none
  sourceHost := "127.0.0.2"
  sourcePort := 9002
  electedLeader := none
  failedNode := some ⟨"127.0.0.1", 9001⟩
  voteResult := none
  raftNodeStatus := .follower
  status := .healthy
  entries := none
  termNumber := 1
  receivedTimestamp := none

/-- The registration of node 9001. -/
def registrationOf9001 : HealthCheck where
  host := some "127.0.0.3"
  port := some 9003
  error := none
  targetHost := none
  targetPort := none
  targetStatus := none
  targetLastUpdated := none
  registeredNodes := some []
  registeredCount := some 1
  sourceHost := "127.0.0.1"
  sourcePort := 9001
  sourceStatus := none
  status := .healthy

/-- `P` holds all along every run of every node. -/
def HoldsInEveryRun (P : Watched → Prop) : Prop :=
  ∀ (address : Address) (instanceId current : Nat) (pollRetries : ℕ+) (pruneMaxAge : ℚ)
    (pruneMaxCount : Nat) (failedMaxAge removedMaxAge : ℚ) (evs : List Event),
    Always step P (init address instanceId current pollRetries pruneMaxAge pruneMaxCount
      failedMaxAge removedMaxAge) evs

/-- Node 9001 is elected, and its failure is reported a second time when the election that the
first report started is over. -/
def reportedTwice : List Event :=
  [.other (.membership .healthy
      ((Dict.empty.set ⟨"127.0.0.1", 9001⟩ .healthy).set ⟨"127.0.0.2", 9002⟩ .healthy)
      ((Dict.empty.set ⟨"127.0.0.1", 9001⟩ 9).set ⟨"127.0.0.2", 9002⟩ 8) []),
    .other .boot, .other (.resume (.electing 1 none) 0), .other (.resume (.lost 1) 0),
    .failureNotification failureOf9001 1,
    .other (.resume (.startElection (some ⟨"127.0.0.1", 9001⟩)) 0),
    .other (.resume (.electing 1 (some ⟨"127.0.0.1", 9001⟩)) 0), .other (.resume (.lost 1) 0),
    .failureNotification failureOf9001 2]

/-- No part of the bookkeeping holds in every run: a failure that is reported twice is recorded
twice and starts two elections, and a node that registers again keeps its record. -/
theorem bookkeeping_fails :
    ¬ HoldsInEveryRun (fun w => w.node.recorded.Nodup) ∧
      ¬ HoldsInEveryRun (fun w => ∀ a ∈ w.rejoined, a ∉ w.node.recorded) ∧
      ¬ HoldsInEveryRun (fun w => w.elections.Nodup) := by
  refine ⟨fun h => ?_, fun h => ?_, fun h => ?_⟩
  · have hlast := (h ⟨"127.0.0.3", 9003⟩ 7 0 1 0 0 60 60 reportedTwice).last rfl
    exact absurd hlast (by decide)
  · have hlast := (h ⟨"127.0.0.3", 9003⟩ 7 0 1 0 0 60 60
      [.failureNotification failureOf9001 1, .register 0 registrationOf9001]).last rfl
    exact hlast ⟨"127.0.0.1", 9001⟩ (by decide) (by decide)
  · have hlast := (h ⟨"127.0.0.3", 9003⟩ 7 0 1 0 0 60 60 reportedTwice).last rfl
    exact absurd hlast (by decide)

end Watched
end ReplicationNode
end Hedra
