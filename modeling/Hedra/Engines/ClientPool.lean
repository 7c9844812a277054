/-
# The pools of the HTTP clients

A request enters the semaphore of its client, pops a connection (and a pipe) off the pool, and gives
it back; when something is raised in between, a new connection takes its place
(`core/engines/types/http/client.py`, `http2/client.py`, and their pools).  The pool can be made larger or
smaller at any time, and the client has a new semaphore then; who waits for the old one gets into that.

The HTTP client gives the connection back before it calls the hooks behind a request, in the same
`try`: what a hook raises adds another connection.  A cancelled request, whose `CancelledError` is
no `Exception`, leaves its place empty.  And a resize forgets the connections that are out, with the
semaphore that counted them.

* `Effect`: by how many each step changes the connections that a client has, in the pool or in use;
* `always_conserved_iff`: they stay as many as configured exactly along the runs all of whose steps
  keep them (`Keeps`);
* `along_keeps_of_careful`: a run in which nothing but the hooks could go wrong finds no empty pool.
-/
import Hedra.Lib.Machine
import Hedra.Lib.Tasks
import Mathlib.Data.List.Nodup
import Mathlib.Tactic.NormNum

namespace Hedra
namespace Engines

open Lib Machine

/-! ## 1. The pool -/

/-- `MercuryHTTPClient` or `MercuryHTTP2Client`. -/
inductive Protocol
  | http
  | http2
deriving DecidableEq

/-- A `Pool` or an `HTTP2Pool`; only the latter has pipes.  Objects are numbered. -/
structure Pool where
  size : Int
  connections : List Nat
  pipes : List Nat

/-- What a request has from the pool. -/
structure Held where
  connection : Nat
  pipe : Nat
deriving DecidableEq

/-- Where `execute_prepared_request` is. -/
inductive Stage
  /-- In the semaphore. -/
  | entered
  /-- In the `try`, with a connection. -/
  | holding
      (held : Held)
  /-- In the `try`, with the connection back in the pool: the hooks behind the request. -/
  | returned
  /-- Behind the `try`. -/
  | ended
  /-- Out of the semaphore. -/
  | left
deriving DecidableEq

/-- A call of `execute_prepared_request`, with the semaphore it is in. -/
structure Request where
  sem : Nat
  stage : Stage

/-- A client: its pool, the values of its semaphores, the last one of which is `sem`, and its
requests.  Objects that are made are numbered from `next` on. -/
structure Client where
  pool : Pool
  sems : List Nat
  requests : List Request
  next : Nat

/-- `xs.pop()` -/
def pop (xs : List Nat) : Option (Nat × List Nat) := xs.getLast?.map fun x => (x, xs.dropLast)

/-- `xs[:n]` -/
def sliceTo (xs : List Nat) (n : Int) : List Nat :=
  if 0 ≤ n then xs.take n.toNat else xs.take (xs.length + n).toNat

namespace Client

/-- `n` new objects. -/
def fresh (c : Client) (n : Nat) : List Nat := (List.range n).map (c.next + ·)

/-- The client, when it is made. -/
def init (concurrency : Nat) : Client where
  pool := ⟨concurrency, List.range concurrency, List.range concurrency⟩
  sems := [concurrency]
  requests := []
  next := concurrency

/-- `self.pool.connections.append(HTTPConnection(…))`, or `self.pool.reset()`. -/
def replace (c : Client) : Protocol → Client
  | .http => { c with
      pool := { c.pool with connections := c.pool.connections ++ [c.next] }
      next := c.next + 1 }
  | .http2 => { c with
      pool := { c.pool with
        connections := c.pool.connections ++ [c.next]
        pipes := c.pool.pipes ++ [c.next] }
      next := c.next + 1 }

/-- `create_pool` of the `HTTP2Pool`: all is new. -/
def createPool (c : Client) : Client := { c with
  pool := { c.pool with
    connections := c.fresh c.pool.size.toNat
    pipes := c.fresh c.pool.size.toNat }
  next := c.next + c.pool.size.toNat }

/-- `self.sem = Semaphore(self.pool.size)`, which raises for a negative size. -/
def newSem (c : Client) : Client :=
  if 0 ≤ c.pool.size then { c with sems := c.sems ++ [c.pool.size.toNat] } else c

/-- `self.pool.size += …` -/
def addSize (c : Client) (n : Int) : Client :=
  { c with pool := { c.pool with size := c.pool.size + n } }

/-- `extend_pool` -/
def extendPool (c : Client) (increasedCapacity : Nat) : Protocol → Client
  | .http =>
    let c := c.addSize increasedCapacity
    newSem { c with
      pool := { c.pool with connections := c.pool.connections ++ c.fresh increasedCapacity }
      next := c.next + increasedCapacity }
  | .http2 => (c.addSize increasedCapacity).createPool.newSem

/-- `shrink_pool` -/
def shrinkPool (c : Client) (decreaseCapacity : Nat) : Protocol → Client
  | .http =>
    let c := c.addSize (-decreaseCapacity)
    newSem { c with pool := { c.pool with connections := sliceTo c.pool.connections c.pool.size } }
  | .http2 => (c.addSize (-decreaseCapacity)).createPool.newSem

/-! ## 2. Requests -/

/-- Request `i` goes on. -/
def setStage (c : Client) (i : Nat) (r : Request) (stage : Stage) : Client :=
  { c with requests := c.requests.set i { r with stage := stage } }

/-- `async with self.sem`: a permit of the semaphore that was the client's when the request came. -/
def enter (c : Client) (sem : Nat) : Option Client :=
  match c.sems[sem]? with
  | some (value + 1) => some { c with
      sems := c.sems.set sem value
      requests := c.requests ++ [⟨sem, .entered⟩] }
  | _ => none

/-- Out of the semaphore that the request is in. -/
def leave (c : Client) (i : Nat) (r : Request) : Client :=
  { c.setStage i r .left with sems := c.sems.modify r.sem (· + 1) }

/-- `connection = self.pool.connections.pop()`, for the HTTP client in the `try`; for the HTTP/2
client before it, and behind that of a pipe. -/
def popConnection (c : Client) (i : Nat) (r : Request) : Protocol → Client
  | .http =>
    match pop c.pool.connections with
    | some (connection, connections) =>
      { c.setStage i r (.holding ⟨connection, 0⟩) with
        pool := { c.pool with connections := connections } }
    | none => (c.replace .http).setStage i r .ended
  | .http2 =>
    match pop c.pool.pipes with
    | none => c.leave i r
    | some (pipe, pipes) =>
      match pop c.pool.connections with
      | none => { c.leave i r with pool := { c.pool with pipes := pipes } }
      | some (connection, connections) =>
        { c.setStage i r (.holding ⟨connection, pipe⟩) with
          pool := { c.pool with connections := connections, pipes := pipes } }

/-- `self.pool.connections.append(connection)`.  For the HTTP/2 client this is the end of the
`try`. -/
def giveBack (c : Client) (i : Nat) (r : Request) (held : Held) : Protocol → Client
  | .http => { c.setStage i r .returned with
      pool := { c.pool with connections := c.pool.connections ++ [held.connection] } }
  | .http2 => { c.setStage i r .ended with
      pool := { c.pool with
        connections := c.pool.connections ++ [held.connection]
        pipes := c.pool.pipes ++ [held.pipe] } }

inductive Event
  /-- A new request gets into the semaphore, or one that waits for an older semaphore into that. -/
  | enter
      (sem : Nat)
  | pop
      (request : Nat)
  | giveBack
      (request : Nat)
  /-- The end of the `try`, or of the request. -/
  | finish
      (request : Nat)
  /-- An `Exception`, at an `await` or in a hook. -/
  | raise
      (request : Nat)
  /-- A `CancelledError`. -/
  | cancel
      (request : Nat)
  | extend
      (increasedCapacity : Nat)
  | shrink
      (decreaseCapacity : Nat)
deriving DecidableEq

/-- Where a request pops. -/
def stepPop (protocol : Protocol) (c : Client) (i : Nat) (r : Request) : Option Client :=
  match r.stage with
  | .entered => some (c.popConnection i r protocol)
  | _ => none

def stepGiveBack (protocol : Protocol) (c : Client) (i : Nat) (r : Request) : Option Client :=
  match r.stage with
  | .holding held => some (c.giveBack i r held protocol)
  | _ => none

def stepFinish (c : Client) (i : Nat) (r : Request) : Option Client :=
  match r.stage with
  | .returned => some (c.setStage i r .ended)
  | .ended => some (c.leave i r)
  | _ => none

/-- In the `try`, the handler puts a new connection in the pool. -/
def stepRaise (protocol : Protocol) (c : Client) (i : Nat) (r : Request) : Option Client :=
  match r.stage with
  | .holding _ | .returned => some ((c.replace protocol).setStage i r .ended)
  | .entered | .ended => some (c.leave i r)
  | .left => none

/-- No handler is for a `CancelledError`. -/
def stepCancel (c : Client) (i : Nat) (r : Request) : Option Client :=
  match r.stage with
  | .left => none
  | _ => some (c.leave i r)

def step (protocol : Protocol) (c : Client) : Event → Option Client
  | .enter sem => c.enter sem
  | .pop i => c.requests[i]?.bind (stepPop protocol c i)
  | .giveBack i => c.requests[i]?.bind (stepGiveBack protocol c i)
  | .finish i => c.requests[i]?.bind (stepFinish c i)
  | .raise i => c.requests[i]?.bind (stepRaise protocol c i)
  | .cancel i => c.requests[i]?.bind (stepCancel c i)
  | .extend n => some (c.extendPool n protocol)
  | .shrink n => some (c.shrinkPool n protocol)

/-! ## 3. What should hold -/

/-- The connection a request has. -/
def connection? (r : Request) : Option Nat :=
  match r.stage with
  | .holding held => some held.connection
  | _ => none

/-- The connections in use. -/
def held (c : Client) : List Nat := c.requests.filterMap connection?

/-- All connections of the client: in the pool, and in use. -/
def inventory (c : Client) : List Nat := c.pool.connections ++ c.held

/-- **Conservation**: as many connections as configured, no one in two places. -/
structure Conserved (c : Client) : Prop where
  length : (c.pool.connections.length : Int) + c.held.length = c.pool.size
  nodup : c.inventory.Nodup

/-- Where nothing goes wrong: the HTTP client finds a connection; nothing is raised when a
connection has been given back; no request with a connection is cancelled; and none has one when
the pool is made smaller, or, for HTTP/2, larger. -/
def Keeps (protocol : Protocol) (c : Client) : Event → Client → Prop
  | .pop _, _ => protocol = .http → c.pool.connections ≠ []
  | .raise i, _ => ∀ r ∈ c.requests[i]?, r.stage ≠ .returned
  | .cancel i, _ => ∀ r ∈ c.requests[i]?, connection? r = none
  | .extend _, _ => protocol = .http2 → c.held = []
  | .shrink n, _ => (protocol = .http ∧ n = 0) ∨ (c.held = [] ∧ n ≤ c.pool.size)
  | _, _ => True

/-! ## 4. What one step does to the connections -/

variable {c c' : Client} {protocol : Protocol} {i : Nat} {r : Request}

/-- The connections of a client are different ones, and have been made. -/
structure Wf (c : Client) : Prop where
  nodup : c.inventory.Nodup
  made : ∀ x ∈ c.inventory, x < c.next

/-- A step of a request that changes the number of connections by `d`. -/
structure Effect (c c' : Client) (d : Int) : Prop where
  size : c'.pool.size = c.pool.size
  length : (c'.inventory.length : Int) = c.inventory.length + d
  wf : c.Wf → c'.Wf

theorem Wf.of_perm (h : c.Wf) (hperm : c'.inventory.Perm c.inventory) (hnext : c.next ≤ c'.next) :
    c'.Wf :=
  ⟨hperm.nodup_iff.mpr h.nodup, fun x hx => (h.made x (hperm.mem_iff.mp hx)).trans_le hnext⟩

/-- The connections are where they were, or elsewhere. -/
theorem Effect.keep (hsize : c'.pool.size = c.pool.size) (hnext : c.next ≤ c'.next)
    (h : c'.inventory.Perm c.inventory) : Effect c c' 0 :=
  ⟨hsize, by rw [h.length_eq, Int.add_zero], fun hwf => hwf.of_perm h hnext⟩

/-- A new one for one in use. -/
theorem Effect.replace {x : Nat} {rest : List Nat} (hsize : c'.pool.size = c.pool.size)
    (hnext : c'.next = c.next + 1) (h : c.inventory.Perm (x :: rest))
    (h' : c'.inventory.Perm (c.next :: rest)) : Effect c c' 0 := by
  refine ⟨hsize, by rw [h'.length_eq, h.length_eq, Int.add_zero]; rfl, fun hwf => ?_⟩
  have hnodup := h.nodup_iff.mp hwf.nodup
  have hmade : ∀ y ∈ rest, y < c.next := fun y hy =>
    hwf.made y (h.mem_iff.mpr (List.mem_cons_of_mem x hy))
  refine ⟨h'.nodup_iff.mpr (List.nodup_cons.mpr ⟨fun hmem => ?_, (List.nodup_cons.mp hnodup).2⟩),
    fun y hy => ?_⟩
  · exact absurd (hmade _ hmem) (Nat.lt_irrefl _)
  · rw [hnext]
    rcases List.mem_cons.mp (h'.mem_iff.mp hy) with rfl | hy
    · exact Nat.lt_succ_self _
    · exact Nat.lt_succ_of_lt (hmade y hy)

/-- A new one more. -/
theorem Effect.add (hsize : c'.pool.size = c.pool.size) (hnext : c'.next = c.next + 1)
    (h : c'.inventory.Perm (c.next :: c.inventory)) : Effect c c' 1 := by
  refine ⟨hsize, by rw [h.length_eq]; rfl, fun hwf => ⟨h.nodup_iff.mpr (List.nodup_cons.mpr
    ⟨fun hmem => absurd (hwf.made _ hmem) (Nat.lt_irrefl _), hwf.nodup⟩), fun y hy => ?_⟩⟩
  rw [hnext]
  rcases List.mem_cons.mp (h.mem_iff.mp hy) with rfl | hy
  · exact Nat.lt_succ_self _
  · exact Nat.lt_succ_of_lt (hwf.made y hy)

/-- One in use is gone. -/
theorem Effect.drop {x : Nat} (hsize : c'.pool.size = c.pool.size) (hnext : c.next ≤ c'.next)
    (h : c.inventory.Perm (x :: c'.inventory)) : Effect c c' (-1) := by
  refine ⟨hsize, by rw [h.length_eq, List.length_cons]; omega, fun hwf => ⟨?_, fun y hy => ?_⟩⟩
  · exact (List.nodup_cons.mp (h.nodup_iff.mp hwf.nodup)).2
  · exact (hwf.made y (h.mem_iff.mpr (List.mem_cons_of_mem x hy))).trans_le hnext

/-- **Only a step that leaves the number of connections alone keeps them.** -/
theorem Effect.conserved_iff {d : Int} (h : Effect c c' d) (hwf : c.Wf) (hc : c.Conserved) :
    c'.Conserved ↔ d = 0 := by
  have hlength := h.length
  simp only [inventory, List.length_append, Nat.cast_add] at hlength
  have hsum := hc.length
  have hsize := h.size
  constructor
  · intro hc'
    have hsum' := hc'.length
    omega
  · intro hd
    exact ⟨by omega, (h.wf hwf).nodup⟩

theorem held_setStage (h : c.requests[i]? = some r) :
    ∃ rest, c.held.Perm ((connection? r).toList ++ rest) ∧
      ∀ stage, (c.setStage i r stage).held.Perm
        ((connection? { r with stage := stage }).toList ++ rest) := by
  obtain ⟨rest, hheld, hset⟩ := Tasks.exists_filterMap_perm connection? h
  exact ⟨rest, hheld, fun stage => hset _⟩

theorem pop_eq_some {xs rest : List Nat} {x : Nat} (h : pop xs = some (x, rest)) :
    xs = rest ++ [x] := by
  obtain ⟨y, hy, heq⟩ := Option.map_eq_some_iff.mp h
  obtain ⟨rfl, rfl⟩ := Prod.mk.inj heq
  obtain ⟨init, rfl⟩ := List.getLast?_eq_some_iff.mp hy
  rw [List.dropLast_concat]

theorem pop_eq_none_iff {xs : List Nat} : pop xs = none ↔ xs = [] := by
  rw [pop, Option.map_eq_none_iff, List.getLast?_eq_none_iff]

/-- A request that has no connection, and gets none, changes nothing. -/
theorem inventory_setStage (h : c.requests[i]? = some r) {stage : Stage}
    (hr : connection? r = connection? { r with stage := stage }) :
    (c.setStage i r stage).inventory.Perm c.inventory := by
  obtain ⟨rest, hheld, hset⟩ := held_setStage h
  refine List.Perm.append_left _ ((hset stage).trans ?_)
  rw [← hr]
  exact hheld.symm

theorem connection?_holding {held : Held} (hr : r.stage = .holding held) :
    connection? r = some held.connection := by
  rw [connection?, hr]

theorem connection?_of_ne (hr : ∀ held, r.stage ≠ .holding held) : connection? r = none := by
  rw [connection?]
  split
  · next h => exact absurd h (hr _)
  · rfl

theorem effect_setStage (h : c.requests[i]? = some r) {stage : Stage}
    (hr : ∀ held, r.stage ≠ .holding held) (hstage : ∀ held, stage ≠ .holding held) :
    Effect c (c.setStage i r stage) 0 :=
  .keep rfl (le_refl _) (inventory_setStage h
    ((connection?_of_ne hr).trans (connection?_of_ne (r := { r with stage := stage }) hstage).symm))

/-- Out of the semaphore, with or without a connection. -/
theorem effect_leave (h : c.requests[i]? = some r) :
    Effect c (c.leave i r) (if connection? r = none then 0 else -1) := by
  obtain ⟨rest, hheld, hset⟩ := held_setStage h
  have hset : (c.leave i r).held.Perm rest := hset .left
  cases hr : connection? r with
  | none =>
    rw [hr] at hheld
    exact .keep rfl (le_refl _) (List.Perm.append_left _ (hset.trans hheld.symm))
  | some x =>
    rw [hr] at hheld
    have hdrop : c.held.Perm (x :: (c.leave i r).held) := hheld.trans (hset.symm.cons x)
    exact .drop rfl (le_refl _) ((List.Perm.append_left _ hdrop).trans List.perm_middle)

theorem effect_replace (h : c.requests[i]? = some r) (protocol : Protocol) :
    Effect c ((c.replace protocol).setStage i r .ended)
      (if connection? r = none then 1 else 0) := by
  obtain ⟨rest, hheld, hset⟩ := held_setStage h
  have hset : ((c.replace protocol).setStage i r .ended).held.Perm rest := by
    cases protocol <;> exact hset .ended
  have hpool : ((c.replace protocol).setStage i r .ended).pool.connections =
      c.pool.connections ++ [c.next] := by cases protocol <;> rfl
  have hnext : ((c.replace protocol).setStage i r .ended).next = c.next + 1 := by
    cases protocol <;> rfl
  have hsize : ((c.replace protocol).setStage i r .ended).pool.size = c.pool.size := by
    cases protocol <;> rfl
  have hinventory : ((c.replace protocol).setStage i r .ended).inventory.Perm
      (c.next :: (c.pool.connections ++ rest)) := by
    rw [inventory, hpool, List.append_assoc]
    exact (List.Perm.append_left _ (hset.append_left [c.next])).trans List.perm_middle
  cases hr : connection? r with
  | none =>
    rw [hr] at hheld
    exact .add hsize hnext (hinventory.trans ((List.Perm.append_left _ hheld.symm).cons _))
  | some x =>
    rw [hr] at hheld
    exact .replace hsize hnext ((List.Perm.append_left _ hheld).trans List.perm_middle) hinventory

/-- A connection off the pool, or an empty pool. -/
theorem effect_popConnection (h : c.requests[i]? = some r) (hr : r.stage = .entered) :
    Effect c (c.popConnection i r protocol)
      (if protocol = .http ∧ c.pool.connections = [] then 1 else 0) := by
  have hnone : connection? r = none := by rw [connection?, hr]
  obtain ⟨rest, hheld, hset⟩ := held_setStage h
  rw [hnone] at hheld
  have htake : ∀ {x : Nat} {xs : List Nat} {pipe : Nat} (pipes : List Nat),
      pop c.pool.connections = some (x, xs) →
        Effect c { c.setStage i r (.holding ⟨x, pipe⟩) with
          pool := { c.pool with connections := xs, pipes := pipes } } 0 := by
    intro x xs pipe pipes hpop
    refine .keep rfl (le_refl _) ?_
    rw [inventory, inventory, pop_eq_some hpop, List.append_assoc]
    exact List.Perm.append_left _ ((hset (.holding ⟨x, pipe⟩)).trans (hheld.symm.cons x))
  have hempty : ∀ {x : Nat} {xs : List Nat}, pop c.pool.connections = some (x, xs) →
      c.pool.connections ≠ [] := by
    intro x xs hpop hnil
    rw [pop_eq_none_iff.mpr hnil] at hpop
    cases hpop
  cases protocol with
  | http =>
    unfold popConnection
    cases hpop : pop c.pool.connections with
    | none =>
      have hreplace := effect_replace h .http
      rw [if_pos hnone] at hreplace
      rw [if_pos ⟨rfl, pop_eq_none_iff.mp hpop⟩]
      exact hreplace
    | some p =>
      rw [if_neg fun hand => hempty hpop hand.2]
      exact htake _ hpop
  | http2 =>
    have hleave := effect_leave h
    rw [if_pos hnone] at hleave
    rw [if_neg (by simp)]
    unfold popConnection
    cases hpipe : pop c.pool.pipes with
    | none => exact hleave
    | some q =>
      cases hpop : pop c.pool.connections with
      | none =>
        exact ⟨hleave.size, hleave.length, fun hwf =>
          ⟨(hleave.wf hwf).nodup, (hleave.wf hwf).made⟩⟩
      | some p => exact htake _ hpop

theorem effect_giveBack (h : c.requests[i]? = some r) {held : Held} (hr : r.stage = .holding held) :
    Effect c (c.giveBack i r held protocol) 0 := by
  obtain ⟨rest, hheld, hset⟩ := held_setStage h
  rw [connection?_holding hr] at hheld
  have hgive : ∀ {t : Client}, t.pool.connections = c.pool.connections ++ [held.connection] →
      t.pool.size = c.pool.size → t.next = c.next → t.held.Perm rest → Effect c t 0 := by
    intro t hpool hsize hnext ht
    refine .keep hsize hnext.ge ?_
    rw [inventory, inventory, hpool, List.append_assoc]
    exact List.Perm.append_left _ ((ht.append_left [held.connection]).trans hheld.symm)
  cases protocol with
  | http => exact hgive rfl rfl rfl (hset .returned)
  | http2 => exact hgive rfl rfl rfl (hset .ended)

/-! ## 5. Resizes -/

theorem length_fresh (c : Client) (n : Nat) : (c.fresh n).length = n := by
  rw [fresh, List.length_map, List.length_range]

theorem nodup_fresh (c : Client) (n : Nat) : (c.fresh n).Nodup :=
  List.Nodup.map (fun _ _ h => Nat.add_left_cancel h) List.nodup_range

theorem mem_fresh {n x : Nat} (hx : x ∈ c.fresh n) : c.next ≤ x ∧ x < c.next + n := by
  obtain ⟨k, hk, rfl⟩ := List.mem_map.mp hx
  have hlt := List.mem_range.mp hk
  omega

/-- The semaphore counts no connection. -/
theorem newSem_eq (c : Client) : c.newSem.pool = c.pool ∧ c.newSem.requests = c.requests ∧
    c.newSem.next = c.next := by
  unfold newSem
  split <;> exact ⟨rfl, rfl, rfl⟩

/-- Connections that are kept, and new ones. -/
theorem Wf.resize (hwf : c.Wf) {kept : List Nat} {n : Nat} (hkept : kept.Sublist c.inventory)
    (hnext : c'.next = c.next + n) (h : c'.inventory.Perm (kept ++ c.fresh n)) : c'.Wf := by
  have hmade : ∀ x ∈ kept, x < c.next := fun x hx => hwf.made x (hkept.subset hx)
  refine ⟨h.nodup_iff.mpr (List.nodup_append.mpr ⟨hkept.nodup hwf.nodup, nodup_fresh c n, ?_⟩), ?_⟩
  · intro x hx y hy heq
    have hlt := hmade x hx
    have hge := (mem_fresh hy).1
    omega
  · intro x hx
    rw [hnext]
    rcases List.mem_append.mp (h.mem_iff.mp hx) with hx | hx
    · exact Nat.lt_add_right n (hmade x hx)
    · exact (mem_fresh hx).2

theorem length_sliceTo (xs : List Nat) (n : Int) : ((sliceTo xs n).length : Int) =
    if 0 ≤ n then min n xs.length else max 0 (xs.length + n) := by
  unfold sliceTo
  split
  · rw [List.length_take]
    omega
  · rw [List.length_take]
    omega

theorem sliceTo_sublist (xs : List Nat) (n : Int) : (sliceTo xs n).Sublist xs := by
  unfold sliceTo
  split <;> exact List.take_sublist _ _

/-- `create_pool` of the `HTTP2Pool`: new connections beside those in use. -/
theorem createPool_eq (hwf : c.Wf) (n : Int) :
    let t := (c.addSize n).createPool.newSem
    t.Wf ∧ t.pool.size = c.pool.size + n ∧ t.pool.connections.length = (c.pool.size + n).toNat ∧
      t.held = c.held := by
  obtain ⟨hpool, hrequests, hnext⟩ := (c.addSize n).createPool.newSem_eq
  have hheld : (c.addSize n).createPool.newSem.held = c.held := by
    rw [held, hrequests]
    rfl
  have hconnections : (c.addSize n).createPool.newSem.pool.connections =
      c.fresh (c.pool.size + n).toNat := by
    rw [hpool]
    rfl
  refine ⟨hwf.resize (List.sublist_append_right c.pool.connections c.held) hnext ?_, ?_, ?_, hheld⟩
  · rw [inventory, hheld, hconnections]
    exact List.perm_append_comm
  · rw [hpool]
    rfl
  · rw [hconnections, length_fresh]

theorem extendPool_http_eq (hwf : c.Wf) (n : Nat) :
    let t := c.extendPool n .http
    t.Wf ∧ t.pool.size = c.pool.size + n ∧
      t.pool.connections.length = c.pool.connections.length + n ∧ t.held = c.held := by
  obtain ⟨hpool, hrequests, hnext⟩ := newSem_eq
    { c.addSize n with
      pool := { (c.addSize n).pool with
        connections := (c.addSize n).pool.connections ++ (c.addSize n).fresh n }
      next := (c.addSize n).next + n }
  have hheld : (c.extendPool n .http).held = c.held := congrArg (List.filterMap connection?) hrequests
  have hconnections : (c.extendPool n .http).pool.connections = c.pool.connections ++ c.fresh n :=
    congrArg Pool.connections hpool
  refine ⟨hwf.resize (List.Sublist.refl c.inventory) hnext ?_, congrArg Pool.size hpool, ?_, hheld⟩
  · rw [inventory, hheld, hconnections, inventory, List.append_assoc, List.append_assoc]
    exact List.Perm.append_left _ List.perm_append_comm
  · rw [hconnections, List.length_append, length_fresh]

theorem shrinkPool_http_eq (hwf : c.Wf) (n : Nat) :
    let t := c.shrinkPool n .http
    t.Wf ∧ t.pool.size = c.pool.size - n ∧
      t.pool.connections = sliceTo c.pool.connections (c.pool.size - n) ∧ t.held = c.held := by
  obtain ⟨hpool, hrequests, hnext⟩ := newSem_eq
    { c.addSize (-n) with
      pool := { (c.addSize (-n)).pool with
        connections := sliceTo (c.addSize (-n)).pool.connections (c.addSize (-n)).pool.size } }
  have hheld : (c.shrinkPool n .http).held = c.held := congrArg (List.filterMap connection?) hrequests
  have hconnections : (c.shrinkPool n .http).pool.connections =
      sliceTo c.pool.connections (c.pool.size - n) := congrArg Pool.connections hpool
  have hkept : (sliceTo c.pool.connections (c.pool.size - n) ++ c.held).Sublist c.inventory :=
    (sliceTo_sublist _ _).append_right c.held
  refine ⟨hwf.resize (n := 0) hkept hnext ?_, congrArg Pool.size hpool, hconnections, hheld⟩
  rw [inventory, hheld, hconnections]
  exact (List.append_nil _).symm ▸ List.Perm.refl _

theorem effect_enter {sem : Nat} (h : c.enter sem = some c') : Effect c c' 0 := by
  unfold enter at h
  split at h
  · obtain rfl := Option.some.inj h
    refine .keep rfl (le_refl _) ?_
    rw [inventory, held, List.filterMap_append]
    exact (List.append_nil _).symm ▸ List.Perm.refl _
  · cases h

theorem effect_finish (hr : c.requests[i]? = some r) (h : stepFinish c i r = some c') :
    Effect c c' 0 := by
  unfold stepFinish at h
  split at h
  · next hstage =>
    obtain rfl := Option.some.inj h
    exact effect_setStage hr (by simp [hstage]) (by simp)
  · next hstage =>
    obtain rfl := Option.some.inj h
    have hleave := effect_leave hr
    rwa [if_pos (connection?_of_ne (by simp [hstage]))] at hleave
  · cases h

/-- What raises behind the return has given its connection back, and another one is put beside it. -/
theorem effect_raise (hr : c.requests[i]? = some r) (h : stepRaise protocol c i r = some c') :
    Effect c c' (if r.stage = .returned then 1 else 0) := by
  have hreplace := effect_replace hr protocol
  have hleave := effect_leave hr
  unfold stepRaise at h
  split at h
  · next held hstage =>
    obtain rfl := Option.some.inj h
    rw [connection?_holding hstage, if_neg (by simp)] at hreplace
    rwa [if_neg (by simp [hstage])]
  · next hstage =>
    obtain rfl := Option.some.inj h
    rw [if_pos (connection?_of_ne (by simp [hstage]))] at hreplace
    rwa [if_pos hstage]
  · next hstage =>
    obtain rfl := Option.some.inj h
    rw [if_pos (connection?_of_ne (by simp [hstage]))] at hleave
    rwa [if_neg (by simp [hstage])]
  · next hstage =>
    obtain rfl := Option.some.inj h
    rw [if_pos (connection?_of_ne (by simp [hstage]))] at hleave
    rwa [if_neg (by simp [hstage])]
  · cases h

theorem effect_cancel (hr : c.requests[i]? = some r) (h : stepCancel c i r = some c') :
    Effect c c' (if connection? r = none then 0 else -1) := by
  have hleave : c' = c.leave i r := by
    unfold stepCancel at h
    split at h
    · cases h
    · exact (Option.some.inj h).symm
  exact hleave ▸ effect_leave hr

/-! ## 6. Whole runs -/

theorem conserved_createPool_iff (hwf : c.Wf) (n : Int) :
    (c.addSize n).createPool.newSem.Conserved ↔ c.held = [] ∧ 0 ≤ c.pool.size + n := by
  obtain ⟨hwf', hsize, hlength, hheld⟩ := createPool_eq hwf n
  rw [← List.length_eq_zero_iff]
  constructor
  · intro hc'
    have hsum := hc'.length
    rw [hsize, hlength, hheld] at hsum
    omega
  · rintro ⟨hnone, hpos⟩
    refine ⟨?_, hwf'.nodup⟩
    rw [hsize, hlength, hheld]
    omega

/-- Connections are given up with their places where none is out. -/
theorem conserved_shrinkPool_http_iff (hwf : c.Wf) (hc : c.Conserved) (n : Nat) :
    (c.shrinkPool n .http).Conserved ↔ Keeps .http c (.shrink n) (c.shrinkPool n .http) := by
  have hsum := hc.length
  obtain ⟨hwf', hsize, hconnections, hheld⟩ := shrinkPool_http_eq hwf n
  refine ⟨fun hc' => ?_, fun hkeeps => ⟨?_, hwf'.nodup⟩⟩
  · have hsum' := hc'.length
    rw [hsize, hconnections, hheld, length_sliceTo] at hsum'
    rw [Keeps, ← List.length_eq_zero_iff]
    split at hsum'
    · by_cases hn : n = 0
      · exact .inl ⟨rfl, hn⟩
      · exact .inr ⟨by omega, by omega⟩
    · omega
  · rw [hsize, hconnections, hheld, length_sliceTo]
    rw [Keeps, ← List.length_eq_zero_iff] at hkeeps
    rcases hkeeps with ⟨-, rfl⟩ | ⟨hnone, hle⟩
    · rw [if_pos (by omega)]
      omega
    · rw [if_pos (by omega)]
      omega

/-- **One step.** -/
theorem conserved_step_iff {ev : Event} (hwf : c.Wf) (hc : c.Conserved)
    (h : step protocol c ev = some c') : c'.Wf ∧ (c'.Conserved ↔ Keeps protocol c ev c') := by
  have hsum := hc.length
  cases ev with
  | enter sem =>
    have heffect := effect_enter h
    exact ⟨heffect.wf hwf, (heffect.conserved_iff hwf hc).trans (iff_of_true rfl trivial)⟩
  | pop i =>
    obtain ⟨r, hr, h⟩ := Option.bind_eq_some_iff.mp h
    unfold stepPop at h
    split at h
    · next hstage =>
      obtain rfl := Option.some.inj h
      have heffect := @effect_popConnection _ protocol _ _ hr hstage
      refine ⟨heffect.wf hwf, (heffect.conserved_iff hwf hc).trans ?_⟩
      rw [Keeps, ← not_and]
      split <;> simp_all
    · cases h
  | giveBack i =>
    obtain ⟨r, hr, h⟩ := Option.bind_eq_some_iff.mp h
    unfold stepGiveBack at h
    split at h
    · next hstage =>
      obtain rfl := Option.some.inj h
      have heffect := @effect_giveBack _ protocol _ _ hr _ hstage
      exact ⟨heffect.wf hwf, (heffect.conserved_iff hwf hc).trans (iff_of_true rfl trivial)⟩
    · cases h
  | finish i =>
    obtain ⟨r, hr, h⟩ := Option.bind_eq_some_iff.mp h
    have heffect := effect_finish hr h
    exact ⟨heffect.wf hwf, (heffect.conserved_iff hwf hc).trans (iff_of_true rfl trivial)⟩
  | raise i =>
    obtain ⟨r, hr, h⟩ := Option.bind_eq_some_iff.mp h
    have heffect := effect_raise hr h
    refine ⟨heffect.wf hwf, (heffect.conserved_iff hwf hc).trans ?_⟩
    simp only [Keeps, hr, Option.mem_some_iff, forall_eq']
    split <;> simp_all
  | cancel i =>
    obtain ⟨r, hr, h⟩ := Option.bind_eq_some_iff.mp h
    have heffect := effect_cancel hr h
    refine ⟨heffect.wf hwf, (heffect.conserved_iff hwf hc).trans ?_⟩
    simp only [Keeps, hr, Option.mem_some_iff, forall_eq']
    split <;> simp_all
  | extend n =>
    obtain rfl := Option.some.inj h
    cases protocol with
    | http =>
      obtain ⟨hwf', hsize, hlength, hheld⟩ := extendPool_http_eq hwf n
      refine ⟨hwf', iff_of_true ⟨?_, hwf'.nodup⟩ (by simp [Keeps])⟩
      rw [hsize, hlength, hheld]
      omega
    | http2 =>
      obtain ⟨hwf', -⟩ := createPool_eq hwf (n : Int)
      refine ⟨hwf', (conserved_createPool_iff hwf n).trans ?_⟩
      rw [Keeps, and_iff_left (by omega : 0 ≤ c.pool.size + n)]
      exact ⟨fun h _ => h, fun h => h rfl⟩
  | shrink n =>
    obtain rfl := Option.some.inj h
    cases protocol with
    | http =>
      exact ⟨(shrinkPool_http_eq hwf n).1, conserved_shrinkPool_http_iff hwf hc n⟩
    | http2 =>
      obtain ⟨hwf', -⟩ := createPool_eq hwf (-n : Int)
      refine ⟨hwf', (conserved_createPool_iff hwf (-n)).trans ?_⟩
      rw [Keeps]
      simp only [reduceCtorEq, false_and, false_or]
      exact and_congr_right fun _ => by omega

theorem wf_init (n : Nat) : (init n).Wf := by
  have hinventory : (init n).inventory = List.range n := List.append_nil _
  exact ⟨hinventory ▸ List.nodup_range, fun x hx => List.mem_range.mp (hinventory ▸ hx)⟩

theorem conserved_init (n : Nat) : (init n).Conserved :=
  ⟨by simp [init, held], (wf_init n).nodup⟩

/-- **The connections are conserved in all states of a run if and only if no step of it goes
wrong.** -/
theorem always_conserved_iff (protocol : Protocol) (concurrency : Nat) (evs : List Event) :
    Always (step protocol) Conserved (init concurrency) evs ↔
      Along (step protocol) (Keeps protocol) (init concurrency) evs := by
  refine always_iff_along_of_invariant (J := Wf) ?_ (wf_init concurrency)
    (conserved_init concurrency)
  exact fun _ _ _ hwf hc h => conserved_step_iff hwf hc h

/-- One request at a time: a hook of the HTTP client raises, and the HTTP/2 client gets a larger pool
while a request is out. -/
theorem not_conserved :
    ¬ Always (step .http) Conserved (init 1) [.enter 0, .pop 0, .giveBack 0, .raise 0] ∧
      ¬ Always (step .http2) Conserved (init 1) [.enter 0, .pop 0, .extend 1] := by
  constructor
  · intro h
    have hlength : (2 : Int) = 1 := (h.last rfl).length
    exact absurd hlength (by decide)
  · intro h
    have hlength : (3 : Int) = 2 := (h.last rfl).length
    exact absurd hlength (by decide)

/-! ## 7. When the pool is empty -/

/-- A request that is in its semaphore. -/
def inside (r : Request) : Bool := decide (r.stage ≠ .left)

/-- The current semaphore has counted all requests that are in one. -/
structure Admitted (c : Client) : Prop where
  value : ∃ value, c.sems.getLast? = some value ∧
    (value : Int) + c.requests.countP inside = c.pool.size
  current : ∀ r ∈ c.requests, r.stage ≠ .left → r.sem = c.sems.length - 1

/-- Requests get into the current semaphore, nothing is raised behind one, none with a connection is
cancelled, and the pool is resized while no request is in a semaphore. -/
def Careful (c : Client) : Event → Client → Prop
  | .enter sem, _ => sem = c.sems.length - 1
  | .raise i, _ => ∀ r ∈ c.requests[i]?, r.stage ≠ .returned
  | .cancel i, _ => ∀ r ∈ c.requests[i]?, connection? r = none
  | .extend _, _ => c.requests.countP inside = 0
  | .shrink n, _ => c.requests.countP inside = 0 ∧ n ≤ c.pool.size
  | _, _ => True

theorem length_held_le (c : Client) : c.held.length ≤ c.requests.countP inside := by
  rw [held, List.length_filterMap_eq_countP]
  refine List.countP_mono_left fun r _ hr => ?_
  rw [inside, decide_eq_true_eq]
  intro hstage
  rw [connection?, hstage] at hr
  exact absurd hr (by decide)

/-- **A request that has been admitted finds a connection.** -/
theorem connections_ne_nil (hc : c.Conserved) (hadmitted : c.Admitted) (h : c.requests[i]? = some r)
    (hr : r.stage = .entered) : c.pool.connections ≠ [] := by
  obtain ⟨value, -, hvalue⟩ := hadmitted.value
  -- as if the request had left: one less in the semaphore, and as many in use
  have hless := (c.setStage i r .left).length_held_le
  obtain ⟨rest, hheld, hset⟩ := held_setStage h
  rw [connection?_of_ne (by simp [hr])] at hheld
  have hsame : (c.setStage i r .left).held.length = c.held.length :=
    ((hset .left).trans hheld.symm).length_eq
  have hcount := Tasks.countP_set inside h { r with stage := .left }
  rw [if_pos (by simp [inside, hr]), if_neg (by simp [inside])] at hcount
  have hcount : (c.setStage i r .left).requests.countP inside + 1 = c.requests.countP inside := hcount
  have hsum := hc.length
  intro hnil
  rw [hnil, List.length_nil] at hsum
  omega

/-- A step of a request within its semaphore. -/
theorem Admitted.setStage (h : c.Admitted) (hr : c.requests[i]? = some r) (hin : r.stage ≠ .left)
    {stage : Stage} (hstage : stage ≠ .left) (hsems : c'.sems = c.sems)
    (hsize : c'.pool.size = c.pool.size)
    (hrequests : c'.requests = c.requests.set i { r with stage := stage }) : c'.Admitted := by
  have hcount := Tasks.countP_set inside hr { r with stage := stage }
  rw [if_pos (by simpa [inside] using hin), if_pos (by simpa [inside] using hstage)] at hcount
  obtain ⟨value, hlast, hvalue⟩ := h.value
  refine ⟨⟨value, by rw [hsems, hlast], by rw [hsize, hrequests]; omega⟩, fun r' hr' hin' => ?_⟩
  rw [hsems]
  rw [hrequests] at hr'
  rcases List.mem_or_eq_of_mem_set hr' with hr' | rfl
  · exact h.current r' hr' hin'
  · exact h.current r (List.mem_of_getElem? hr) hin

/-- A request out of its semaphore. -/
theorem Admitted.leave (h : c.Admitted) (hr : c.requests[i]? = some r) (hin : r.stage ≠ .left) :
    (c.leave i r).Admitted := by
  have hcount := Tasks.countP_set inside hr { r with stage := .left }
  rw [if_pos (by simpa [inside] using hin), if_neg (by simp [inside])] at hcount
  obtain ⟨value, hlast, hvalue⟩ := h.value
  have hsem := h.current r (List.mem_of_getElem? hr) hin
  refine ⟨⟨value + 1, ?_, ?_⟩, fun r' hr' hin' => ?_⟩
  · have hsems : (c.leave i r).sems = c.sems.modify (c.sems.length - 1) (· + 1) := by
      rw [← hsem]
      rfl
    rw [hsems, List.getLast?_eq_getElem?, List.length_modify, List.getElem?_modify,
      ← List.getLast?_eq_getElem?, hlast]
    exact congrArg some (if_pos rfl)
  · have hrequests : (c.leave i r).requests = c.requests.set i { r with stage := .left } := rfl
    have hsize : (c.leave i r).pool.size = c.pool.size := rfl
    rw [hrequests, hsize]
    push_cast
    omega
  · have hlength : (c.leave i r).sems.length = c.sems.length := List.length_modify ..
    rw [hlength]
    rcases List.mem_or_eq_of_mem_set hr' with hr' | rfl
    · exact h.current r' hr' hin'
    · exact absurd rfl hin'

/-- A new semaphore, when no request is in one. -/
theorem admitted_newSem (hnone : c.requests.countP inside = 0) (hpos : 0 ≤ c.pool.size) :
    c.newSem.Admitted := by
  have hleft : ∀ r ∈ c.requests, r.stage = .left := by
    intro r hr
    have hin := List.countP_eq_zero.mp hnone r hr
    simpa [inside] using hin
  rw [newSem, if_pos hpos]
  refine ⟨⟨c.pool.size.toNat, by rw [List.getLast?_concat], ?_⟩,
    fun r hr hin => absurd (hleft r hr) hin⟩
  simp only [hnone]
  omega

theorem admitted_init (n : Nat) : (init n).Admitted :=
  ⟨⟨n, rfl, by simp [init]⟩, fun r hr => absurd hr List.not_mem_nil⟩

/-- A request that the current semaphore lets in. -/
theorem Admitted.enter (hadmitted : c.Admitted) (h : enter c (c.sems.length - 1) = some c') : c'.Admitted := by
  unfold Client.enter at h
  split at h
  · next value hlast =>
    obtain rfl := Option.some.inj h
    obtain ⟨value', hlast', hvalue⟩ := hadmitted.value
    rw [List.getLast?_eq_getElem?] at hlast'
    obtain rfl : value + 1 = value' := Option.some.inj (hlast.symm.trans hlast')
    have hlt : c.sems.length - 1 < c.sems.length := (List.getElem?_eq_some_iff.mp hlast).1
    refine ⟨⟨value, ?_, ?_⟩, fun r hr hin => ?_⟩
    · rw [List.getLast?_eq_getElem?, List.length_set, List.getElem?_set_self hlt]
    · simp only [List.countP_append]
      have hone : [(⟨c.sems.length - 1, .entered⟩ : Request)].countP inside = 1 := rfl
      rw [hone]
      push_cast at hvalue ⊢
      omega
    · simp only [List.length_set]
      rcases List.mem_append.mp hr with hr | hr
      · exact hadmitted.current r hr hin
      · rw [List.mem_singleton.mp hr]
  · cases h

/-- A request that finds a connection. -/
theorem Admitted.popConnection (hadmitted : c.Admitted) (hr : c.requests[i]? = some r)
    (hstage : r.stage = .entered) (hne : c.pool.connections ≠ []) :
    (c.popConnection i r protocol).Admitted := by
  have hin : r.stage ≠ .left := by simp [hstage]
  cases hpop : pop c.pool.connections with
  | none => exact absurd (pop_eq_none_iff.mp hpop) hne
  | some p =>
    cases protocol with
    | http =>
      rw [Client.popConnection, hpop]
      exact hadmitted.setStage hr hin (by simp) rfl rfl rfl
    | http2 =>
      unfold Client.popConnection
      cases hpipe : pop c.pool.pipes with
      | none => exact hadmitted.leave hr hin
      | some q =>
        simp only [hpop]
        exact hadmitted.setStage hr hin (by simp) rfl rfl rfl

/-- What a step of a request does to the semaphores. -/
theorem admitted_step {ev : Event} (hadmitted : c.Admitted) (h : step protocol c ev = some c')
    (hcareful : Careful c ev c') (hconnection : ∀ i, ev = .pop i → c.pool.connections ≠ []) :
    c'.Admitted := by
  cases ev with
  | enter sem =>
    obtain rfl : sem = c.sems.length - 1 := hcareful
    exact hadmitted.enter h
  | pop i =>
    obtain ⟨r, hr, h⟩ := Option.bind_eq_some_iff.mp h
    unfold stepPop at h
    split at h
    · next hstage => exact Option.some.inj h ▸ hadmitted.popConnection hr hstage (hconnection i rfl)
    · cases h
  | giveBack i =>
    obtain ⟨r, hr, h⟩ := Option.bind_eq_some_iff.mp h
    unfold stepGiveBack at h
    split at h
    · next hstage =>
      obtain rfl := Option.some.inj h
      have hin : r.stage ≠ .left := by simp [hstage]
      cases protocol <;> exact hadmitted.setStage hr hin (by simp) rfl rfl rfl
    · cases h
  | finish i =>
    obtain ⟨r, hr, h⟩ := Option.bind_eq_some_iff.mp h
    unfold stepFinish at h
    split at h
    · next hstage =>
      obtain rfl := Option.some.inj h
      exact hadmitted.setStage hr (by simp [hstage]) (by simp) rfl rfl rfl
    · next hstage =>
      obtain rfl := Option.some.inj h
      exact hadmitted.leave hr (by simp [hstage])
    · cases h
  | raise i =>
    obtain ⟨r, hr, h⟩ := Option.bind_eq_some_iff.mp h
    have hreplace : r.stage ≠ .left → ((c.replace protocol).setStage i r .ended).Admitted := by
      intro hin
      cases protocol <;> exact hadmitted.setStage hr hin (by simp) rfl rfl rfl
    unfold stepRaise at h
    split at h
    · next hstage => exact Option.some.inj h ▸ hreplace (by simp [hstage])
    · next hstage => exact Option.some.inj h ▸ hreplace (by simp [hstage])
    · next hstage => exact Option.some.inj h ▸ hadmitted.leave hr (by simp [hstage])
    · next hstage => exact Option.some.inj h ▸ hadmitted.leave hr (by simp [hstage])
    · cases h
  | cancel i =>
    obtain ⟨r, hr, h⟩ := Option.bind_eq_some_iff.mp h
    unfold stepCancel at h
    split at h
    · cases h
    · next hin => exact Option.some.inj h ▸ hadmitted.leave hr hin
  | extend n =>
    obtain rfl := Option.some.inj h
    obtain ⟨value, -, hvalue⟩ := hadmitted.value
    have hpos : 0 ≤ c.pool.size + n := by omega
    cases protocol <;> exact admitted_newSem hcareful hpos
  | shrink n =>
    obtain rfl := Option.some.inj h
    have hpos : 0 ≤ c.pool.size + (-n) := by
      have hle := hcareful.2
      omega
    cases protocol <;> exact admitted_newSem hcareful.1 hpos

/-- **A careful run conserves the connections**: no request of it finds the pool empty. -/
theorem along_keeps_of_careful (protocol : Protocol) (concurrency : Nat) {evs : List Event}
    (h : Along (step protocol) Careful (init concurrency) evs) :
    Along (step protocol) (Keeps protocol) (init concurrency) evs := by
  refine h.of_invariant (J := fun c => c.Wf ∧ c.Conserved ∧ c.Admitted) ?_
    ⟨wf_init concurrency, conserved_init concurrency, admitted_init concurrency⟩
  rintro c ev c' ⟨hwf, hc, hadmitted⟩ hstep hcareful
  have hconnection : ∀ i, ev = .pop i → c.pool.connections ≠ [] := by
    rintro i rfl
    obtain ⟨r, hr, hpop⟩ := Option.bind_eq_some_iff.mp hstep
    unfold stepPop at hpop
    split at hpop
    · next hstage => exact connections_ne_nil hc hadmitted hr hstage
    · cases hpop
  have hunused : c.requests.countP inside = 0 → c.held = [] := by
    intro hnone
    have hle := c.length_held_le
    exact List.eq_nil_of_length_eq_zero (by omega)
  have hkeeps : Keeps protocol c ev c' := by
    cases ev with
    | pop i => exact fun _ => hconnection i rfl
    | raise i => exact hcareful
    | cancel i => exact hcareful
    | extend n => exact fun _ => hunused hcareful
    | shrink n => exact .inr ⟨hunused hcareful.1, hcareful.2⟩
    | enter sem | giveBack i | finish i => trivial
  obtain ⟨hwf', hiff⟩ := conserved_step_iff hwf hc hstep
  exact ⟨⟨hwf', hiff.mpr hkeeps, admitted_step hadmitted hstep hcareful hconnection⟩, hkeeps⟩

end Client

end Engines
end Hedra
