/-
# Controllers on a network

Every address carries a controller, and a controller that nothing happens to is a node that was
never started.  A call arrives at the address in its message, and an answer to an update at the
node the update came from; both may arrive late, again, or never, and in any order.  What nodes
learn of each other by other ways is free (`Event.membership`), so every node may have its own
view of the members.

The controllers are those of `distributed/replication/replication_controller.py`, one segment at a
time (`ControllerStep.lean`); the network is `Lib.Network`.
-/
import Hedra.Lib.Network
import Hedra.Replication.ControllerStep

namespace Hedra

open Lib Lib.Machine

/-- The nodes, and what is on the wire. -/
abbrev Cluster := Net Address Controller Packet

/-- What can happen in a cluster: an event at a node. -/
abbrev ClusterEvent := Address × Controller.Event

namespace Cluster

/-- The call of `handler` with `m` is on the wire, and addressed to `a`. -/
def called (wire : List Packet) (a : Address) (handler : Handler) (m : RaftMessage) : Bool :=
  wire.contains (.call handler m) && m.host = some a.host && m.port = some a.port

/-- An update from `a` has been answered with `response`. -/
def answered (wire : List Packet) (a : Address) (response : RaftMessage) : Bool :=
  wire.any fun
    | .answer .logUpdate m r => r = response && m.source = a
    | _ => false

/-- Handlers run on calls from the wire, and calls of `_update_logs` read answers from it. -/
def admits (wire : List Packet) (a : Address) : Controller.Event → Bool
  | .voteRequest m => called wire a .voteRequest m
  | .logUpdate m => called wire a .logUpdate m
  | .forwardedEntries m _ => called wire a .forwardedEntries m
  | .failureNotification m => called wire a .failureNotification m
  | .update _ _ (.response response) => answered wire a response
  | _ => true

/-- One event in a cluster. -/
def step (s : Cluster) (e : ClusterEvent) : Option Cluster :=
  Net.step Controller.react admits s e

/-- Fresh controllers, with any instance ids and clocks, and an empty wire. -/
def init (instanceId current : Address → Nat) (pollRetries : ℕ+) (maxAge : ℚ) (maxCount : Nat) :
    Cluster where
  nodes a := Controller.init a (instanceId a) (current a) pollRetries maxAge maxCount
  wire := []

/-- A step of a cluster is a step of the node it happens at. -/
theorem step_node {s s' : Cluster} {a : Address} {ev : Controller.Event}
    (h : step s (a, ev) = some s') :
    ∃ out, (s.nodes a).react ev = some (s'.nodes a, out) ∧ s'.wire = s.wire ++ out :=
  (Net.nodes_step h).1

/-- Every queue in a cluster is synced. -/
theorem synced_run {s s' : Cluster} {es : List ClusterEvent} {a : Address}
    (hq : (s.nodes a).logs.Synced) (h : run step s es = some s') : (s'.nodes a).logs.Synced := by
  refine Net.node_of_run (I := fun c => c.logs.Synced) (Q := fun _ => True)
    (fun c ev c' out hq _ hr => ?_) (fun _ _ => trivial) hq h
  exact Controller.synced_step hq (Controller.step_eq_some.mpr ⟨out, hr⟩)

/-- The node at `port`. -/
def node (port : Int) : Address := ⟨"127.0.0.1", port⟩

/-- Each of two nodes learns of the other, and of the ids 9 and 7. -/
def introduce (port other : Int) : ClusterEvent :=
  (node port, .membership .healthy (Dict.empty.set (node other) .healthy)
    ((Dict.empty.set (node 9001) 9).set (node 9002) 7) [])

end Cluster
end Hedra
