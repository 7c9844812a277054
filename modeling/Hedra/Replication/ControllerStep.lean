/-
# The machine of one controller

A step of the machine is one segment: a handler that is called, a coroutine that is resumed,
or a change that comes from outside the replication code.  Every order of segments that the
event loop can choose is a run of this machine, and so is every behaviour of the network: a
call may come with any message, any number of times.

The rest of the file says once what a step can do, from three sides: to the term and its
leaders (`ledger_step`), to the `LogQueue` (`logs_step`) and to the membership
(`keeps_step`).  What is proved about runs later is proved from these.

The segments are those of `distributed/replication/replication_controller.py`, as `Controller.lean`
has them.
-/
import Mathlib.Data.Multiset.AddSub
import Hedra.Lib.Machine
import Hedra.Replication.LogQueueSync
import Hedra.Replication.Controller

namespace Hedra
namespace Controller

open Lib Lib.Machine

/-! ## 1. Events -/

/-- What can happen to a controller. -/
inductive Event
  /-- The end of `register`. -/
  | boot
  /-- A probe of a suspect has ended, in `_start_suspect_monitor`. -/
  | probed
      (failedNode : Address)
  | failureNotification
      (message : RaftMessage)
  | voteRequest
      (message : RaftMessage)
  | logUpdate
      (message : RaftMessage)
  | forwardedEntries
      (message : RaftMessage)
      (now : Nat)
  | pushEntries
      (data : List EntryData)
      (now : Nat)
  /-- `request_vote`, which the code itself never calls. -/
  | requestVote
      (candidate : Address)
  | raftMonitor
      (now : Nat)
  | prune
      (now : Nat)
  /-- A suspended coroutine runs its next segment. -/
  | resume
      (task : Task)
      (now : Nat)
  /-- One of the calls of `_update_logs` that a coroutine waits for goes on. -/
  | update
      (task : Task)
      (index : Nat)
      (event : UpdateEvent)
  /-- A coroutine that waits in an election ends there: `_cancel_suspicion_probe` cancels the
  task of `_start_suspect_monitor`, `notify_of_failed_node` raises, or a logger does. -/
  | drop
      (task : Task)
  /-- Health checks and registrations change what the node knows of the others. -/
  | membership
      (status : HealthStatus)
      (nodeStatuses : Dict Address HealthStatus)
      (instanceIds : Dict Address Nat)
      (suspectTasks : List Address)

/-- The calls of `_update_logs` that a coroutine waits for. -/
def taskUpdates : Task → List Update
  | .announcing _ updates => updates
  | .replicating updates => updates
  | _ => []

/-- The coroutine when these are left. -/
def withUpdates (updates : List Update) : Task → Task
  | .announcing nextTerm _ => .announcing nextTerm updates
  | .replicating _ => .replicating updates
  | t => t

/-- The coroutines that `Event.drop` may end. -/
def Droppable : Task → Prop
  | .notifying _ | .electing _ _ | .elected _ _ | .lost _ | .announcing _ _ => True
  | _ => False

instance : DecidablePred Droppable := fun t => by
  cases t <;> unfold Droppable <;> infer_instance

/-- The next segment of a suspended coroutine.  The announcements of an election have
timeouts, so their `gather` may end at any time; the one of `_submit_logs_to_members` ends when
every call has returned. -/
def runTask (c : Controller) (now : Nat) : Task → Option (Controller × List Packet)
  | .startElection failedNode => some (c.runElection failedNode, [])
  | .notifying failedNode => some (c.runElection (some failedNode), [])
  | .electing nextTerm failedNode => some (c.electLeader nextTerm failedNode, [])
  | .elected nextTerm failedNode => some (c.becomeLeader nextTerm failedNode now, [])
  | .lost nextTerm => some (c.endElection nextTerm, [])
  | .announcing nextTerm _ => some (c.endElection nextTerm, [])
  | .cancelElection m => some (c.cancelElection m, [])
  | .adopting m leader => some (c.adoptLeader m leader)
  | .applying m true => some (c.checkSource m)
  | .applying m false => some (c.applyUpdate m)
  | .submitting entries => some (c.submitLogsToMembers entries, [])
  | .replicating [] => some (c.commitLogs, [])
  | .replicating (_ :: _) => none

/-- One call of `_update_logs` goes on, for a coroutine that has been taken off the list. -/
def runUpdate (c : Controller) (t : Task) (j : Nat) (ev : UpdateEvent) :
    Option (Controller × List Packet) :=
  match (taskUpdates t)[j]? with
  | none => none
  | some u =>
    match c.continueUpdate u ev with
    | none => none
    | some (c, some u', out) => some (c.spawn (withUpdates ((taskUpdates t).set j u') t), out)
    | some (c, none, out) => some (c.spawn (withUpdates ((taskUpdates t).eraseIdx j) t), out)

/-- The controller while a coroutine of its list runs. -/
def taking (c : Controller) (t : Task) : Controller := { c with tasks := c.tasks.erase t }

/-- One segment, with the packets it sends; `none` when the event cannot happen. -/
def react (c : Controller) : Event → Option (Controller × List Packet)
  | .boot =>
    if c.termNumber = 0 then some ({ c with electionStatus := .active }.runElection none, [])
    else none
  | .probed failedNode => some (c.startSuspectMonitor failedNode)
  | .failureNotification m => some (c.receiveFailureNotification m)
  | .voteRequest m =>
    match c.receiveVoteRequest m with
    | .ok answer => some (c, [.answer .voteRequest m answer])
    | .error _ => some (c, [])
  | .logUpdate m => some (c.receiveLogUpdate m)
  | .forwardedEntries m now => some (c.receiveForwardedEntries now m)
  | .pushEntries data now => some (c.pushEntries now data)
  | .requestVote a => some (c, [.call .voteRequest (c.requestVote a)])
  | .raftMonitor now => some (c.runRaftMonitor now, [])
  | .prune now => some ({ c with logs := c.logs.prune now }, [])
  | .resume t now => if t ∈ c.tasks then (c.taking t).runTask now t else none
  | .update t j ev => if t ∈ c.tasks then (c.taking t).runUpdate t j ev else none
  | .drop t => if t ∈ c.tasks ∧ Droppable t then some (c.taking t, []) else none
  | .membership status nodeStatuses instanceIds suspectTasks =>
    some ({ c with
      status := status
      nodeStatuses := nodeStatuses
      instanceIds := instanceIds
      suspectTasks := suspectTasks }, [])

/-- The machine of one controller. -/
def step (c : Controller) (ev : Event) : Option Controller := (c.react ev).map Prod.fst

theorem step_eq_some {c c' : Controller} {ev : Event} :
    c.step ev = some c' ↔ ∃ out, c.react ev = some (c', out) := by
  unfold step
  simp

/-! ## 2. The ledger of terms and leaders -/

/-- What a suspended coroutine is about to do to the term or its leaders. -/
inductive Phase
  | electing (nextTerm : Int)
  | elected (nextTerm : Int)
  | ending (nextTerm : Int)
  | adopting (leader : Option Address)
  | cancelling (term : Int)
deriving DecidableEq

/-- The phase of a coroutine, if it has one. -/
def phase : Task → Option Phase
  | .electing nextTerm _ => some (.electing nextTerm)
  | .elected nextTerm _ => some (.elected nextTerm)
  | .lost nextTerm => some (.ending nextTerm)
  | .announcing nextTerm _ => some (.ending nextTerm)
  | .adopting _ leader => some (.adopting leader)
  | .cancelElection m => some (.cancelling m.termNumber)
  | _ => none

/-- The part of a controller that elections and newer terms are about. -/
@[ext] structure Ledger where
  address : Address
  term : Int
  leaders : List (Option Address)
  role : NodeState
  phases : Multiset Phase

/-- What a segment does to the ledger. -/
inductive Move
  | quiet
  | start
  | choose (nextTerm : Int) (leader : Address)
  | win (nextTerm : Int) (announces : Bool)
  | finish (nextTerm : Int)
  | behind (term : Int) (leader : Option Address)
  | adopt (leader : Option Address)
  | cancel (term : Int)

/-- The ledger of a controller. -/
def ledger (c : Controller) : Ledger where
  address := c.address
  term := c.termNumber
  leaders := c.termLeaders
  role := c.raftNodeStatus
  phases := (c.tasks.filterMap phase : List Phase)

/-- The ledger when a coroutine in phase `p` has been taken off the list. -/
def Ledger.take (l : Ledger) : Option Phase → Ledger
  | some p => { l with phases := l.phases.erase p }
  | none => l

/-- The ledger when a coroutine in phase `p` has been put on the list. -/
def Ledger.put (l : Ledger) : Option Phase → Ledger
  | some p => { l with phases := p ::ₘ l.phases }
  | none => l

/-- The ledger after a move. -/
def Ledger.apply (l : Ledger) : Move → Ledger
  | .quiet => l
  | .start => { l with role := .candidate }.put (some (.electing (l.term + 1)))
  | .choose nextTerm leader =>
    let l := { l with leaders := l.leaders ++ [some leader] }
    if leader = l.address then l.put (some (.elected nextTerm))
    else { l with role := .follower }.put (some (.ending nextTerm))
  | .win nextTerm announces =>
    let l := { l with term := l.term + 1, role := .leader }
    if announces then l.put (some (.ending nextTerm)) else l
  | .finish nextTerm => { l with term := if l.term > nextTerm then nextTerm else l.term }
  | .behind term leader =>
    let l := { l with
      term := term
      leaders := l.leaders ++ List.replicate (max (term - l.term - 1) 0).toNat none }
    (l.put (some (.cancelling term))).put (some (.adopting leader))
  | .adopt leader => { l with leaders := l.leaders ++ [leader], role := .follower }
  | .cancel term => { l with term := term }

/-- The move of a coroutine that is resumed. -/
def resumeMove (c : Controller) (now : Nat) : Task → Move
  | .startElection _ => .start
  | .notifying _ => .start
  | .electing nextTerm _ => .choose nextTerm c.getMaxInstanceId
  | .elected nextTerm _ => .win nextTerm (c.enterTerm.fileElection now).2.isSome
  | .lost nextTerm => .finish nextTerm
  | .announcing nextTerm _ => .finish nextTerm
  | .cancelElection m => .cancel m.termNumber
  | .adopting _ leader => .adopt leader
  | _ => .quiet

/-- The move of an event. -/
def move (c : Controller) : Event → Move
  | .boot => .start
  | .logUpdate m =>
    match m.entries with
    | some (_ :: _) =>
      if m.termNumber > c.termNumber then .behind m.termNumber (leaderOf m) else .quiet
    | _ => .quiet
  | .resume t now => (c.taking t).resumeMove now t
  | _ => .quiet

/-- The phase that an event ends. -/
def ended : Event → Option Phase
  | .resume t _ => phase t
  | .drop t => phase t
  | _ => none

/-! ## 3. What a segment leaves alone -/

/-- `q'` comes from `q` by calls of `update` and `commit`. -/
inductive Extends (q : LogQueue) : LogQueue → Prop
  | refl : Extends q q
  | update {q' : LogQueue} (h : Extends q q') (entries : List Entry) : Extends q (q'.update entries).1
  | commit {q' : LogQueue} (h : Extends q q') : Extends q q'.commit

theorem Extends.trans {q q' q'' : LogQueue} (h : Extends q q') (h' : Extends q' q'') :
    Extends q q'' := by
  induction h' with
  | refl => exact h
  | update _ es ih => exact ih.update es
  | commit _ ih => exact ih.commit

/-- The membership and the address are left alone, and the queue is only added to. -/
structure Keeps (c c' : Controller) : Prop where
  address : c'.address = c.address
  nodeStatuses : c'.nodeStatuses = c.nodeStatuses
  instanceIds : c'.instanceIds = c.instanceIds
  instanceId : c'.instanceId = c.instanceId
  logs : Extends c.logs c'.logs

/-- So is the ledger. -/
structure Works (c c' : Controller) : Prop extends Keeps c c' where
  ledger : c'.ledger = c.ledger

theorem Keeps.refl (c : Controller) : Keeps c c := ⟨rfl, rfl, rfl, rfl, .refl⟩

theorem Keeps.trans {c c' c'' : Controller} (h : Keeps c c') (h' : Keeps c' c'') : Keeps c c'' where
  address := h'.address.trans h.address
  nodeStatuses := h'.nodeStatuses.trans h.nodeStatuses
  instanceIds := h'.instanceIds.trans h.instanceIds
  instanceId := h'.instanceId.trans h.instanceId
  logs := h.logs.trans h'.logs

theorem Works.refl (c : Controller) : Works c c := ⟨Keeps.refl c, rfl⟩

theorem Works.trans {c c' c'' : Controller} (h : Works c c') (h' : Works c' c'') : Works c c'' :=
  ⟨h.toKeeps.trans h'.toKeeps, h'.ledger.trans h.ledger⟩

theorem keeps_spawn (c : Controller) (t : Task) : Keeps c (c.spawn t) := ⟨rfl, rfl, rfl, rfl, .refl⟩

theorem keeps_taking (c : Controller) (t : Task) : Keeps c (c.taking t) := ⟨rfl, rfl, rfl, rfl, .refl⟩

theorem ledger_spawn (c : Controller) (t : Task) :
    (c.spawn t).ledger = c.ledger.put (phase t) := by
  cases h : phase t with
  | none => simp [ledger, spawn, Ledger.put, h]
  | some p =>
    have hcomm : ((c.tasks.filterMap phase ++ [p] : List Phase) : Multiset Phase) =
        p ::ₘ (c.tasks.filterMap phase : List Phase) := by
      rw [Multiset.cons_coe, Multiset.coe_eq_coe]
      exact List.perm_append_singleton p _
    simp [ledger, spawn, Ledger.put, h, hcomm]

theorem ledger_taking (c : Controller) {t : Task} (ht : t ∈ c.tasks) :
    (c.taking t).ledger = c.ledger.take (phase t) := by
  have hperm := (List.perm_cons_erase ht).filterMap phase
  cases h : phase t with
  | none =>
    rw [List.filterMap_cons_none h] at hperm
    have heq : ((c.tasks.erase t).filterMap phase : Multiset Phase) =
        (c.tasks.filterMap phase : List Phase) := Multiset.coe_eq_coe.mpr hperm.symm
    simp [ledger, taking, Ledger.take, heq]
  | some p =>
    rw [List.filterMap_cons_some h] at hperm
    have heq : ((c.tasks.filterMap phase : List Phase) : Multiset Phase) =
        p ::ₘ ((c.tasks.erase t).filterMap phase : List Phase) := Multiset.coe_eq_coe.mpr hperm
    simp [ledger, taking, Ledger.take, heq]

theorem works_spawn (c : Controller) {t : Task} (h : phase t = none) : Works c (c.spawn t) := by
  refine ⟨keeps_spawn c t, ?_⟩
  rw [ledger_spawn, h]
  rfl

section Parts

variable (c : Controller)

theorem works_generateEntry (now : Nat) (leader : Option Address) (data : EntryData) :
    Works c (c.generateEntry now leader data).1 := ⟨⟨rfl, rfl, rfl, rfl, .refl⟩, rfl⟩

theorem works_updateAndLatest (entries : List Entry) :
    Works c (c.updateAndLatest entries).1 := by
  have h : Extends c.logs (c.logs.update entries).1 := Extends.refl.update entries
  unfold updateAndLatest
  split <;> next heq => rw [heq] at h; exact ⟨⟨rfl, rfl, rfl, rfl, h⟩, rfl⟩

theorem works_fileElection (now : Nat) : Works c (c.fileElection now).1 := by
  have h := works_generateEntry c now (some c.address) c.electionUpdate
  unfold fileElection
  split <;> next heq => rw [heq] at h; first | exact h | exact h.trans (works_updateAndLatest _ _)

theorem works_submitLogsToMembers (entries : List Entry) :
    Works c (c.submitLogsToMembers entries) := by
  have h := works_updateAndLatest c entries
  unfold submitLogsToMembers
  simp only
  split <;> next heq => rw [heq] at h; first | exact h | exact h.trans (works_spawn _ rfl)

theorem works_applyUpdate (m : RaftMessage) : Works c (c.applyUpdate m).1 :=
  ⟨⟨rfl, rfl, rfl, rfl, Extends.refl.update (sortedEntries m)⟩, rfl⟩

theorem works_checkSource (m : RaftMessage) : Works c (c.checkSource m).1 := by
  unfold checkSource
  split
  · exact works_spawn c rfl
  · exact works_applyUpdate c m

theorem works_checkFailedNode (m : RaftMessage) : Works c (c.checkFailedNode m).1 := by
  unfold checkFailedNode
  split
  · exact works_spawn c rfl
  · exact works_checkSource c m

theorem works_convertAll (now : Nat) (leader : Option Address) :
    ∀ (c : Controller) (data : List EntryData), Works c (c.convertAll now leader data).1
  | c, [] => Works.refl c
  | c, d :: ds => by
    have h := works_generateEntry c now leader d
    unfold convertAll
    split
    · next heq => rw [heq] at h; exact h
    · next c' e heq =>
      rw [heq] at h
      have hrest := works_convertAll now leader c' ds
      split <;> next heq' => rw [heq'] at hrest; exact h.trans hrest

theorem works_convertDataToEntries (now : Nat) (data : List EntryData) :
    Works c (c.convertDataToEntries now data).1 := by
  unfold convertDataToEntries
  split
  · exact Works.refl c
  · exact works_convertAll now _ c data

theorem works_pushEntries (now : Nat) (data : List EntryData) :
    Works c (c.pushEntries now data).1 := by
  have h := works_convertDataToEntries c now (data ++ [c.logsUpdate])
  unfold pushEntries
  split
  · next heq => rw [heq] at h; exact h
  · next c' es heq =>
    rw [heq] at h
    split
    · exact h.trans (works_submitLogsToMembers c' es)
    · split <;> exact h

theorem works_receiveForwardedEntries (now : Nat) (m : RaftMessage) :
    Works c (c.receiveForwardedEntries now m).1 := by
  have h := works_generateEntry c now (some c.address) c.logsUpdate
  unfold receiveForwardedEntries
  simp only
  split
  · split <;> next heq => rw [heq] at h; first | exact h | exact h.trans (works_spawn _ rfl)
  · exact Works.refl c

theorem works_runRaftMonitor (now : Nat) : Works c (c.runRaftMonitor now) := by
  have h := works_generateEntry c now (some c.address) c.logsUpdate
  unfold runRaftMonitor
  split
  · split <;> next heq => rw [heq] at h; first | exact h | exact h.trans (works_spawn _ rfl)
  · exact Works.refl c

end Parts

/-! ## 4. What a segment does to the ledger -/

section Moves

variable (c : Controller) {c' : Controller} {out : List Packet} {t : Task} {now : Nat}

theorem ledger_runElection (failedNode : Option Address) :
    (c.runElection failedNode).ledger = c.ledger.apply .start := by
  rw [runElection, ledger_spawn]
  rfl

theorem ledger_electLeader (nextTerm : Int) (failedNode : Option Address) :
    (c.electLeader nextTerm failedNode).ledger =
      c.ledger.apply (.choose nextTerm c.getMaxInstanceId) := by
  unfold electLeader
  simp only [Ledger.apply]
  by_cases hself : c.getMaxInstanceId = c.address
  · rw [if_pos hself, if_pos (show _ = c.ledger.address from hself), ledger_spawn]
    rfl
  · rw [if_neg hself, if_neg (show ¬ _ = c.ledger.address from hself), ledger_spawn]
    rfl

theorem ledger_becomeLeader (nextTerm : Int) (failedNode : Option Address) :
    (c.becomeLeader nextTerm failedNode now).ledger =
      c.ledger.apply (.win nextTerm (c.enterTerm.fileElection now).2.isSome) := by
  have h := (works_fileElection c.enterTerm now).ledger
  unfold becomeLeader
  split
  · next heq =>
    rw [heq] at h ⊢
    exact h
  · next heq =>
    rw [heq] at h ⊢
    rw [ledger_spawn, h]
    rfl

theorem ledger_adoptTerm (m : RaftMessage) :
    (c.adoptTerm m).ledger = c.ledger.apply (.behind m.termNumber (leaderOf m)) := by
  have hcancel := ledger_spawn c (.cancelElection m)
  unfold adoptTerm
  simp only
  rw [ledger_spawn]
  exact congrArg (fun l : Ledger => Ledger.put { l with
    term := m.termNumber
    leaders := c.termLeaders ++ List.replicate (max (m.termNumber - c.termNumber - 1) 0).toNat none }
    (some (.adopting (leaderOf m)))) hcancel

/-- **What a coroutine that is resumed does to the ledger.** -/
theorem ledger_runTask (h : c.runTask now t = some (c', out)) :
    c'.ledger = c.ledger.apply (c.resumeMove now t) := by
  cases t with
  | startElection failedNode =>
    cases h
    exact ledger_runElection c failedNode
  | notifying failedNode =>
    cases h
    exact ledger_runElection c failedNode
  | electing nextTerm failedNode =>
    cases h
    exact ledger_electLeader c nextTerm failedNode
  | elected nextTerm failedNode =>
    cases h
    exact ledger_becomeLeader c nextTerm failedNode
  | lost nextTerm =>
    cases h
    rfl
  | announcing nextTerm updates =>
    cases h
    rfl
  | cancelElection m =>
    cases h
    rfl
  | adopting m leader =>
    cases h
    rfl
  | applying m check =>
    cases check with
    | true =>
      obtain rfl := congrArg Prod.fst (Option.some.inj h)
      exact (works_checkSource c m).ledger
    | false =>
      cases h
      rfl
  | submitting entries =>
    cases h
    exact (works_submitLogsToMembers c entries).ledger
  | replicating updates =>
    cases updates with
    | nil =>
      cases h
      rfl
    | cons u us => cases h

theorem keeps_electLeader (nextTerm : Int) (failedNode : Option Address) :
    Keeps c (c.electLeader nextTerm failedNode) := by
  unfold electLeader
  simp only
  split <;> exact ⟨rfl, rfl, rfl, rfl, .refl⟩

theorem keeps_becomeLeader (nextTerm : Int) (failedNode : Option Address) :
    Keeps c (c.becomeLeader nextTerm failedNode now) := by
  have henter : Keeps c c.enterTerm := ⟨rfl, rfl, rfl, rfl, .refl⟩
  have h := henter.trans (works_fileElection c.enterTerm now).toKeeps
  unfold becomeLeader
  split <;> next heq => rw [heq] at h; first | exact h | exact h.trans (keeps_spawn _ _)

theorem keeps_runTask (h : c.runTask now t = some (c', out)) : Keeps c c' := by
  cases t with
  | startElection failedNode => cases h; exact ⟨rfl, rfl, rfl, rfl, .refl⟩
  | notifying failedNode => cases h; exact ⟨rfl, rfl, rfl, rfl, .refl⟩
  | electing nextTerm failedNode => cases h; exact keeps_electLeader c nextTerm failedNode
  | elected nextTerm failedNode => cases h; exact keeps_becomeLeader c nextTerm failedNode
  | lost nextTerm => cases h; exact ⟨rfl, rfl, rfl, rfl, .refl⟩
  | announcing nextTerm updates => cases h; exact ⟨rfl, rfl, rfl, rfl, .refl⟩
  | cancelElection m => cases h; exact ⟨rfl, rfl, rfl, rfl, .refl⟩
  | adopting m leader => cases h; exact ⟨rfl, rfl, rfl, rfl, .refl⟩
  | applying m check =>
    cases check with
    | true =>
      obtain rfl := congrArg Prod.fst (Option.some.inj h)
      exact (works_checkSource c m).toKeeps
    | false => cases h; exact (works_applyUpdate c m).toKeeps
  | submitting entries => cases h; exact (works_submitLogsToMembers c entries).toKeeps
  | replicating updates =>
    cases updates with
    | nil => cases h; exact ⟨rfl, rfl, rfl, rfl, Extends.refl.commit⟩
    | cons u us => cases h

/-- A call of `_update_logs` changes at most the membership. -/
theorem continueUpdate_cases {u : Update} {ev : UpdateEvent} {u' : Option Update}
    (h : c.continueUpdate u ev = some (c', u', out)) :
    ∃ nodeStatuses suspectTasks,
      c' = { c with nodeStatuses := nodeStatuses, suspectTasks := suspectTasks } := by
  cases ev with
  | send =>
    rw [continueUpdate] at h
    split at h <;> cases h
    exact ⟨_, _, rfl⟩
  | response m =>
    rw [continueUpdate] at h
    split at h <;> cases h
    unfold noteStatus
    split <;> exact ⟨_, _, rfl⟩
  | fail heard =>
    rw [continueUpdate] at h
    split at h <;> cases h
    exact ⟨_, _, rfl⟩
  | giveUp =>
    rw [continueUpdate] at h
    split at h <;> cases h
    unfold noteSilence
    split <;> exact ⟨_, _, rfl⟩

theorem phase_withUpdates (us : List Update) (t : Task) : phase (withUpdates us t) = phase t := by
  cases t <;> rfl

/-- After one of its calls has gone on, a coroutine is back on the list. -/
theorem runUpdate_cases {j : Nat} {ev : UpdateEvent} (h : c.runUpdate t j ev = some (c', out)) :
    ∃ nodeStatuses suspectTasks us,
      c' = { c with nodeStatuses := nodeStatuses, suspectTasks := suspectTasks }.spawn
        (withUpdates us t) := by
  unfold runUpdate at h
  split at h
  · cases h
  · split at h
    · cases h
    · next heq =>
      cases h
      obtain ⟨ns, st, rfl⟩ := continueUpdate_cases c heq
      exact ⟨ns, st, _, rfl⟩
    · next heq =>
      cases h
      obtain ⟨ns, st, rfl⟩ := continueUpdate_cases c heq
      exact ⟨ns, st, _, rfl⟩

end Moves

/-! ## 5. What a step can do -/

theorem Ledger.put_take {l : Ledger} {p : Option Phase} (h : ∀ x, p = some x → x ∈ l.phases) :
    (l.take p).put p = l := by
  cases p with
  | none => rfl
  | some p =>
    change Ledger.mk _ _ _ _ (p ::ₘ l.phases.erase p) = l
    rw [Multiset.cons_erase (h p rfl)]
    rfl

theorem mem_phases {c : Controller} {t : Task} {p : Phase} (ht : t ∈ c.tasks)
    (hp : phase t = some p) : p ∈ c.ledger.phases :=
  Multiset.mem_coe.mpr (List.mem_filterMap.mpr ⟨t, ht, hp⟩)

/-- **What a step does to the ledger.** -/
theorem ledger_step {c c' : Controller} {ev : Event} (h : c.step ev = some c') :
    c'.ledger = (c.ledger.take (ended ev)).apply (c.move ev) := by
  obtain ⟨out, h⟩ := step_eq_some.mp h
  cases ev with
  | boot =>
    rw [react] at h
    split at h <;> cases h
    exact ledger_runElection _ none
  | probed failedNode =>
    obtain rfl := congrArg Prod.fst (Option.some.inj h)
    unfold startSuspectMonitor
    split
    · exact (works_spawn _ rfl).ledger
    · rfl
  | failureNotification m =>
    obtain rfl := congrArg Prod.fst (Option.some.inj h)
    unfold receiveFailureNotification
    split
    · rfl
    · split
      · exact (works_spawn _ rfl).ledger
      · rfl
  | voteRequest m =>
    rw [react] at h
    split at h <;> cases h <;> rfl
  | logUpdate m =>
    obtain rfl := congrArg Prod.fst (Option.some.inj h)
    rw [move, receiveLogUpdate]
    rcases m.entries with _ | ⟨_ | ⟨e, es⟩⟩
    · rfl
    · rfl
    · simp only
      split
      · exact ledger_adoptTerm c m
      · exact (works_checkFailedNode c m).ledger
  | forwardedEntries m now =>
    obtain rfl := congrArg Prod.fst (Option.some.inj h)
    exact (works_receiveForwardedEntries c now m).ledger
  | pushEntries data now =>
    obtain rfl := congrArg Prod.fst (Option.some.inj h)
    exact (works_pushEntries c now data).ledger
  | requestVote a => cases h; rfl
  | raftMonitor now =>
    cases h
    exact (works_runRaftMonitor c now).ledger
  | prune now => cases h; rfl
  | resume t now =>
    rw [react] at h
    split at h
    · next ht =>
      rw [ledger_runTask _ h, ledger_taking c ht]
      rfl
    · cases h
  | update t j ev =>
    rw [react] at h
    split at h
    · next ht =>
      obtain ⟨ns, st, us, rfl⟩ := runUpdate_cases _ h
      rw [ledger_spawn, phase_withUpdates]
      change (c.taking t).ledger.put (phase t) = c.ledger
      rw [ledger_taking c ht, Ledger.put_take fun p hp => mem_phases ht hp]
    · cases h
  | drop t =>
    rw [react] at h
    split at h
    · next ht =>
      cases h
      exact ledger_taking c ht.1
    · cases h
  | membership status ns ids st => cases h; rfl

/-- The events that may change what the node knows of the others. -/
def ChangesView : Event → Prop
  | .failureNotification _ | .update _ _ _ | .membership _ _ _ _ => True
  | _ => False

instance : DecidablePred ChangesView := fun ev => by
  cases ev <;> unfold ChangesView <;> infer_instance

/-- **Every other event but `prune` leaves the membership alone.** -/
theorem keeps_step {c c' : Controller} {ev : Event} (h : c.step ev = some c')
    (hview : ¬ ChangesView ev) (hprune : ∀ now, ev ≠ .prune now) : Keeps c c' := by
  obtain ⟨out, h⟩ := step_eq_some.mp h
  cases ev with
  | boot =>
    rw [react] at h
    split at h <;> cases h
    exact ⟨rfl, rfl, rfl, rfl, .refl⟩
  | probed failedNode =>
    obtain rfl := congrArg Prod.fst (Option.some.inj h)
    unfold startSuspectMonitor
    split <;> exact ⟨rfl, rfl, rfl, rfl, .refl⟩
  | failureNotification m => exact absurd trivial hview
  | voteRequest m =>
    rw [react] at h
    split at h <;> cases h <;> exact Keeps.refl c
  | logUpdate m =>
    obtain rfl := congrArg Prod.fst (Option.some.inj h)
    unfold receiveLogUpdate
    split
    · exact Keeps.refl c
    · exact Keeps.refl c
    · split
      · exact ⟨rfl, rfl, rfl, rfl, .refl⟩
      · exact (works_checkFailedNode c m).toKeeps
  | forwardedEntries m now =>
    obtain rfl := congrArg Prod.fst (Option.some.inj h)
    exact (works_receiveForwardedEntries c now m).toKeeps
  | pushEntries data now =>
    obtain rfl := congrArg Prod.fst (Option.some.inj h)
    exact (works_pushEntries c now data).toKeeps
  | requestVote a => cases h; exact Keeps.refl c
  | raftMonitor now => cases h; exact (works_runRaftMonitor c now).toKeeps
  | prune now => exact absurd rfl (hprune now)
  | resume t now =>
    rw [react] at h
    split at h
    · exact (keeps_taking c t).trans (keeps_runTask _ h)
    · cases h
  | update t j ev => exact absurd trivial hview
  | drop t =>
    rw [react] at h
    split at h <;> cases h
    exact keeps_taking c t
  | membership status ns ids st => exact absurd trivial hview

/-- **The controller uses its `LogQueue` only through `update`, `commit` and `prune`.** -/
theorem logs_step {c c' : Controller} {ev : Event} (h : c.step ev = some c') :
    (∃ now, ev = .prune now ∧ c'.logs = c.logs.prune now) ∨ Extends c.logs c'.logs := by
  by_cases hprune : ∃ now, ev = .prune now
  · obtain ⟨now, rfl⟩ := hprune
    cases h
    exact Or.inl ⟨now, rfl, rfl⟩
  · refine Or.inr ?_
    by_cases hview : ChangesView ev
    · obtain ⟨out, h⟩ := step_eq_some.mp h
      cases ev with
      | failureNotification m =>
        obtain rfl := congrArg Prod.fst (Option.some.inj h)
        unfold receiveFailureNotification
        split
        · exact .refl
        · split <;> exact .refl
      | update t j ev =>
        rw [react] at h
        split at h
        · obtain ⟨ns, st, us, rfl⟩ := runUpdate_cases _ h
          exact .refl
        · cases h
      | membership status ns ids st => cases h; exact .refl
      | _ => exact absurd hview (by simp [ChangesView])
    · exact (keeps_step h hview fun now he => hprune ⟨now, he⟩).logs

theorem Extends.synced {q q' : LogQueue} (h : Extends q q') (hq : q.Synced) : q'.Synced := by
  induction h with
  | refl => exact hq
  | update _ es ih => exact ih.update es
  | commit _ ih => exact ih.commit

/-- Every queue that a controller can reach is synced. -/
theorem synced_step {c c' : Controller} {ev : Event} (hq : c.logs.Synced)
    (h : c.step ev = some c') : c'.logs.Synced := by
  rcases logs_step h with ⟨now, -, hlogs⟩ | hext
  · rw [hlogs]
    exact hq.prune now
  · exact hext.synced hq

theorem synced_run {c c' : Controller} {evs : List Event} (hq : c.logs.Synced)
    (h : run step c evs = some c') : c'.logs.Synced :=
  invariant_of_run (fun _ _ _ hq h => synced_step hq h) hq h

/-- An update of the leader of `term`, with one entry of millisecond `ms`. -/
def leaderUpdate (term ms : Int) : RaftMessage where
  host := some "127.0.0.1"
  port := some 9002
  error := none
  sourceHost := "127.0.0.1"
  sourcePort := 9001
  electedLeader := none
  failedNode := none
  voteResult := none
  raftNodeStatus := .leader
  status := .healthy
  entries := some [⟨ms * 2 ^ 22, "key", "value", term, "127.0.0.1", 9001⟩]
  termNumber := term
  receivedTimestamp := none

end Controller
end Hedra
