/-
# Registrations

A node that joins submits its registration to those it knows, and records the answers.  Both
`register_node` and `_submit_registration` keep a node from recording itself by
`_check_is_not_self`, which lets an address pass only when its host *and* its port differ: of the
nodes on one machine, or on one port, none ever records another.  `register_node` moreover leaves a
node that it knows already at whatever status it has, so one that has failed or left stays failed or
inactive when it registers again.

Both are in `distributed/replication/replication_controller.py`.

* `statusOf_registerNode`: what a request leaves of its source;
* `statusOf_submitRegistrationAnswered`: what an answer leaves of it;
* `tracks_iff`: when a registration is tracked.
-/
import Hedra.Replication.FailedNodes

namespace Hedra
namespace ReplicationNode

open Lib

/-! ## 1. The two handlers -/

/-- `_submit_registration`, when the answer has come.  Without a `registered_count` it raises
after it has recorded the node. -/
def submitRegistrationAnswered (n : ReplicationNode) (shardId : Int) (response : HealthCheck) :
    ReplicationNode :=
  let n := n.setInstanceId response.source (Snowflake.parse shardId).instanceId.toNat
  let n := if n.controller.checkIsNotSelf response.source then
      { n with controller.nodeStatuses :=
          n.controller.nodeStatuses.set response.source .healthy }
    else n
  match response.registeredCount with
  | none => n
  | some count =>
    let known := (n.registeredCounts.get? response.source).getD 0
    { n with registeredCounts := n.registeredCounts.set response.source (max count known) }

/-- A registration that comes in, or the answer to one. -/
inductive Registration
  | request
      (shardId : Int)
      (healthcheck : HealthCheck)
  | answer
      (shardId : Int)
      (response : HealthCheck)

/-- The node that registers. -/
def Registration.source : Registration → Address
  | .request _ hc => hc.source
  | .answer _ response => response.source

/-- The handler of the registration. -/
def receiveRegistration (n : ReplicationNode) : Registration → ReplicationNode
  | .request shardId hc => (n.registerNode shardId hc).1
  | .answer shardId response => n.submitRegistrationAnswered shardId response

/-- The status that is recorded of `a`. -/
def statusOf (n : ReplicationNode) (a : Address) : Option HealthStatus :=
  n.controller.nodeStatuses.get? a

/-- **A registration is tracked**: another node is then recorded as healthy, and a node does not
record itself. -/
def Tracks (n : ReplicationNode) (r : Registration) : Prop :=
  (r.source ≠ n.controller.address →
      (n.receiveRegistration r).statusOf r.source = some .healthy) ∧
    (r.source = n.controller.address →
      (n.receiveRegistration r).statusOf r.source = n.statusOf r.source)

/-- The handler takes the registration for one that is new: a request only of a node that it does
not know. -/
def IsNew (n : ReplicationNode) : Registration → Prop
  | .request _ hc => n.statusOf hc.source = none
  | .answer _ _ => True

/-! ## 2. The statuses after a registration -/

/-- `_check_is_not_self` says no to the own address. -/
theorem checkIsNotSelf_eq_true_iff (n : ReplicationNode) (a : Address) :
    n.controller.checkIsNotSelf a = true ↔
      a.host ≠ n.controller.address.host ∧ a.port ≠ n.controller.address.port := by
  simp [Controller.checkIsNotSelf]

@[simp] theorem statusOf_setInstanceId (n : ReplicationNode) (b : Address) (instanceId : Nat)
    (a : Address) : (n.setInstanceId b instanceId).statusOf a = n.statusOf a := rfl

@[simp] theorem statusOf_createCancel (n : ReplicationNode) (b a : Address) :
    (n.createCancel b).statusOf a = n.statusOf a := rfl

@[simp] theorem statusOf_clearFailed (n : ReplicationNode) (b a : Address) :
    (n.clearFailed b).statusOf a = n.statusOf a := by
  unfold clearFailed
  split <;> rfl

theorem statusOf_noteRegistered (n : ReplicationNode) (b a : Address) :
    (n.noteRegistered b).statusOf a =
      if a = b ∧ n.controller.checkIsNotSelf b = true ∧ n.statusOf b = none then some .healthy
      else n.statusOf a := by
  unfold noteRegistered statusOf
  by_cases hnew : n.controller.checkIsNotSelf b = true ∧ n.controller.nodeStatuses.get? b = none
  · rw [if_pos hnew]
    dsimp only
    rw [Dict.get?_set]
    by_cases ha : a = b
    · rw [if_pos ha, if_pos ⟨ha, hnew⟩]
    · rw [if_neg ha, if_neg fun h => ha h.1]
  · rw [if_neg hnew, if_neg fun h => hnew h.2]

/-- A member that somebody tells of does not change what is recorded of a known node, or of a node
that shares the host or the port. -/
theorem statusOf_noteMember {n : ReplicationNode} {a : Address}
    (h : n.controller.checkIsNotSelf a = true → n.statusOf a ≠ none) (member : Address × Nat) :
    (n.noteMember member).statusOf a = n.statusOf a := by
  unfold noteMember
  dsimp only
  split
  · rename_i hnew
    rw [statusOf_setInstanceId, statusOf_createCancel, statusOf_noteRegistered, if_neg]
    rintro ⟨rfl, hself, hnone⟩
    exact h hself hnone
  · rfl

@[simp] theorem address_noteMember (n : ReplicationNode) (member : Address × Nat) :
    (n.noteMember member).controller.address = n.controller.address := by
  simp only [noteMember, noteRegistered, createCancel, setInstanceId]
  split_ifs <;> rfl

theorem statusOf_foldl_noteMember (members : List (Address × Nat)) {n : ReplicationNode}
    {a : Address} (h : n.controller.checkIsNotSelf a = true → n.statusOf a ≠ none) :
    (members.foldl noteMember n).statusOf a = n.statusOf a := by
  induction members generalizing n with
  | nil => rfl
  | cons member members ih =>
    have hkeep := statusOf_noteMember h member
    rw [List.foldl_cons, ih, hkeep]
    intro hself
    rw [hkeep]
    apply h
    rwa [checkIsNotSelf_eq_true_iff, address_noteMember, ← checkIsNotSelf_eq_true_iff] at hself

/-- **After a request** its source is healthy if it was new, and what it was otherwise. -/
theorem statusOf_registerNode (n : ReplicationNode) (shardId : Int) (hc : HealthCheck) :
    (n.registerNode shardId hc).1.statusOf hc.source =
      if n.controller.checkIsNotSelf hc.source = true ∧ n.statusOf hc.source = none
      then some .healthy else n.statusOf hc.source := by
  have hsource : ∀ instanceId, ((n.noteRegistered hc.source).setInstanceId hc.source
      instanceId).statusOf hc.source =
        if n.controller.checkIsNotSelf hc.source = true ∧ n.statusOf hc.source = none
        then some .healthy else n.statusOf hc.source := by
    intro instanceId
    rw [statusOf_setInstanceId, statusOf_noteRegistered]
    simp only [true_and]
  have hnote : (n.noteRegistration shardId hc).statusOf hc.source =
      if n.controller.checkIsNotSelf hc.source = true ∧ n.statusOf hc.source = none
      then some .healthy else n.statusOf hc.source := by
    unfold noteRegistration
    dsimp only
    rw [statusOf_clearFailed, statusOf_createCancel, statusOf_foldl_noteMember, hsource]
    intro hself
    have hself' : n.controller.checkIsNotSelf hc.source = true := by
      rw [checkIsNotSelf_eq_true_iff] at hself ⊢
      have haddress : ((n.noteRegistered hc.source).setInstanceId hc.source
          (Snowflake.parse shardId).instanceId.toNat).controller.address =
            n.controller.address := by
        simp only [noteRegistered, setInstanceId]
        split_ifs <;> rfl
      rwa [haddress] at hself
    rw [hsource]
    split
    · simp
    · rename_i hknown
      exact fun hnone => hknown ⟨hself', hnone⟩
  unfold registerNode
  dsimp only
  split <;> exact hnote

/-- **After an answer** its source is healthy unless it is taken for the node itself. -/
theorem statusOf_submitRegistrationAnswered (n : ReplicationNode) (shardId : Int)
    (response : HealthCheck) :
    (n.submitRegistrationAnswered shardId response).statusOf response.source =
      if n.controller.checkIsNotSelf response.source = true then some .healthy
      else n.statusOf response.source := by
  have hself : ∀ instanceId, (n.setInstanceId response.source
      instanceId).controller.checkIsNotSelf response.source =
        n.controller.checkIsNotSelf response.source := fun _ => rfl
  unfold submitRegistrationAnswered
  dsimp only
  rw [hself]
  by_cases h : n.controller.checkIsNotSelf response.source = true
  · rw [if_pos h, if_pos h]
    split <;> simp [statusOf]
  · rw [if_neg h, if_neg h]
    split <;> rfl

theorem statusOf_receiveRegistration (n : ReplicationNode) (r : Registration) :
    (n.receiveRegistration r).statusOf r.source = some .healthy ↔
      (n.controller.checkIsNotSelf r.source = true ∧ n.IsNew r) ∨
        n.statusOf r.source = some .healthy := by
  cases r with
  | request shardId hc =>
    simp only [receiveRegistration, Registration.source, IsNew, statusOf_registerNode]
    split
    · rename_i h
      exact iff_of_true rfl (Or.inl h)
    · rename_i h
      exact ⟨Or.inr, fun hor => hor.resolve_left h⟩
  | answer shardId response =>
    simp only [receiveRegistration, Registration.source, IsNew,
      statusOf_submitRegistrationAnswered, and_true]
    split
    · rename_i h
      exact iff_of_true rfl (Or.inl h)
    · rename_i h
      exact ⟨Or.inr, fun hor => hor.resolve_left h⟩

/-- The own address is never recorded. -/
theorem statusOf_receiveRegistration_self {n : ReplicationNode} {r : Registration}
    (h : r.source = n.controller.address) :
    (n.receiveRegistration r).statusOf r.source = n.statusOf r.source := by
  have hself : ¬ n.controller.checkIsNotSelf r.source = true := by
    rw [checkIsNotSelf_eq_true_iff, h]
    exact fun hne => hne.1 rfl
  cases r with
  | request shardId hc =>
    exact (statusOf_registerNode n shardId hc).trans (if_neg fun hnew => hself hnew.1)
  | answer shardId response =>
    exact (statusOf_submitRegistrationAnswered n shardId response).trans (if_neg hself)

/-- **When a registration is tracked**: it is the node's own, or that of a node on another host and
another port which the handler takes for new, or of one that is recorded as healthy already. -/
theorem tracks_iff (n : ReplicationNode) (r : Registration) :
    n.Tracks r ↔ r.source = n.controller.address ∨
      (r.source.host ≠ n.controller.address.host ∧ r.source.port ≠ n.controller.address.port ∧
        n.IsNew r) ∨ n.statusOf r.source = some .healthy := by
  unfold Tracks
  rw [statusOf_receiveRegistration, checkIsNotSelf_eq_true_iff, and_assoc]
  by_cases h : r.source = n.controller.address
  · exact iff_of_true ⟨fun hne => absurd h hne, statusOf_receiveRegistration_self⟩ (Or.inl h)
  · constructor
    · exact fun htracks => Or.inr (htracks.1 h)
    · rintro (hself | hrec)
      · exact absurd hself h
      · exact ⟨fun _ => hrec, fun hself => absurd hself h⟩

/-- The request of a fresh node on another host, with the same port. -/
def samePort : HealthCheck where
  host := some "10.0.0.1"
  port := some 8000
  error := none
  targetHost := none
  targetPort := none
  targetStatus := none
  targetLastUpdated := none
  registeredNodes := none
  registeredCount := some 1
  sourceHost := "10.0.0.2"
  sourcePort := 8000
  sourceStatus := none
  status := .healthy

/-- It is answered and not recorded. -/
theorem not_tracks : ¬ ∀ (n : ReplicationNode) (r : Registration), n.Tracks r := by
  intro h
  have htracks := (h (init ⟨"10.0.0.1", 8000⟩ 1 0 3 60 100 60 60) (.request 0 samePort)).1
    (by decide)
  exact absurd htracks (by decide +kernel)

end ReplicationNode

end Hedra
