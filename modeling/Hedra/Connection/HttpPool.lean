/-
# The transports of the HTTP client

`send` and `send_request` pop a transport off the pool of an address, write to it and await a waiter.
`read` gives what any transport receives to the newest waiter, whichever address it is for.

A pool keeps its size where every call that has a transport ends with a reply: what is raised in
between adds a transport besides the one that is given back, and a cancelled call gives none back.
Transports are handed out without a look at them, and replies without a look at where they came from;
they reach their callers where they arrive in the reverse order of the requests.

The client is `MercurySyncHTTPConnection`
(`distributed/connection/tcp/mercury_sync_http_connection.py`); this file has the steps of its
calls, and what each does to the transports (`Stock`) and to the waiters (`Paired`).  The runs are
in `HttpPoolRuns.lean`.
-/
import Hedra.Lib.Dict
import Hedra.Lib.Future
import Hedra.Lib.Machine
import Hedra.Lib.Tasks
import Mathlib.Data.List.Flatten

namespace Hedra
namespace HttpPool

open Lib Machine

/-! ## 1. The client -/

inductive Kind
  | send
  | sendRequest
deriving DecidableEq

/-- What a transport has received. -/
structure Reply (ρ : Type) where
  transport : ℕ
  message : ρ
deriving DecidableEq

/-- Where a call is. -/
inductive Stage (ρ : Type)
  /-- At the semaphore. -/
  | waiting
  /-- In `connect_client`. -/
  | connecting
  /-- `await waiter` -/
  | awaiting (transport waiter : ℕ)
  /-- In `_connect_client`, behind the `except`. -/
  | reconnecting (transport : ℕ)
  | returned (transport : ℕ) (result : Option (Reply ρ))
  | raised

/-- A call of `send` or `send_request`, to an address. -/
structure Call (α ρ : Type) where
  kind : Kind
  address : α
  stage : Stage ρ

/-- Whom a reply was given to, and who has awaited one on its transport. -/
structure Delivery where
  given : Option ℕ
  owner : Option ℕ
deriving DecidableEq

/-- A `MercurySyncHTTPConnection` that is no server, with a log of the transports that were handed out,
closed or not, and of the replies.  Transports, futures and calls are numbered. -/
structure Client (α ρ : Type) where
  /-- `_max_concurrency` -/
  size : ℕ
  /-- What the semaphore has left. -/
  permits : ℕ
  connections : Dict α (Option (List ℕ))
  waiters : List ℕ
  futures : List (Future (Reply ρ))
  calls : List (Call α ρ)
  closed : List ℕ
  next : ℕ
  handed : List (ℕ × Bool) := []
  deliveries : List Delivery := []

/-- What happens: to a call, or to a transport. -/
inductive Event (α δ : Type)
  | call (kind : Kind) (address : α)
  /-- A call enters the semaphore; the request is prepared or not, and written or not. -/
  | enter (i : ℕ) (prepared written : Bool)
  | connected (i : ℕ) (ok : Bool)
  | reconnected (i : ℕ) (ok : Bool)
  | received (transport : ℕ) (data : δ)
  /-- A call goes on with the result of its waiter. -/
  | resume (i : ℕ)
  /-- A call is cancelled, as by `wait_for` when the time is out. -/
  | cancel (i : ℕ)
  | lost (transport : ℕ)

variable {α ρ δ : Type}

/-- The transport of a call. -/
def Call.holds (call : Call α ρ) : Option ℕ :=
  match call.stage with
  | .awaiting t _ | .reconnecting t => some t
  | _ => none

/-- The waiter of a call. -/
def Call.waiter (call : Call α ρ) : Option ℕ :=
  match call.stage with
  | .awaiting _ w => some w
  | _ => none

/-- The call awaits a reply on the transport. -/
def Call.awaits (futures : List (Future (Reply ρ))) (transport : ℕ) (call : Call α ρ) : Bool :=
  match call.stage with
  | .awaiting t w => t = transport ∧ Future.IsPending futures w
  | _ => false

namespace Client

variable [DecidableEq α]

/-- Call `i` goes on. -/
def setStage (c : Client α ρ) (i : ℕ) (call : Call α ρ) (stage : Stage ρ) : Client α ρ :=
  { c with calls := c.calls.set i { call with stage := stage } }

/-- Call `i` leaves the semaphore. -/
def leave (c : Client α ρ) (i : ℕ) (call : Call α ρ) (stage : Stage ρ) : Client α ρ :=
  { c with permits := c.permits + 1 }.setStage i call stage

/-- `self._connections[address].append(transport)`, of a `defaultdict`; `None` takes nothing. -/
def append (c : Client α ρ) (a : α) (transport : ℕ) : Option (Client α ρ) :=
  match c.connections.get? a with
  | none => some { c with connections := c.connections.set a (some [transport]) }
  | some none => none
  | some (some ts) => some { c with connections := c.connections.set a (some (ts ++ [transport])) }

/-- `connections.pop()` and what follows up to the next `await`, inside the semaphore. -/
def take (c : Client α ρ) (i : ℕ) (call : Call α ρ) (written : Bool) : Client α ρ :=
  match c.connections.get? call.address with
  | none | some none => c.setStage i call .raised
  | some (some ts) =>
    match ts.getLast? with
    | none => c.setStage i call .raised
    | some t =>
      let c := { c with
        permits := c.permits - 1
        connections := c.connections.set call.address (some ts.dropLast)
        handed := c.handed ++ [(t, decide (t ∈ c.closed))] }
      if written then
        { c with
          waiters := c.waiters ++ [c.futures.length]
          futures := c.futures ++ [Future.pending] }.setStage i call (.awaiting t c.futures.length)
      else c.setStage i call (.reconnecting t)

/-- A call, from the semaphore to its first `await`.  `send` prepares its request in the `try`. -/
def enter (c : Client α ρ) (i : ℕ) (call : Call α ρ) (prepared written : Bool) : Client α ρ :=
  match call.kind with
  | .sendRequest => if prepared then c.take i call written else c.setStage i call .raised
  | .send =>
    match c.connections.get? call.address with
    | none | some none => { c with permits := c.permits - 1 }.setStage i call .connecting
    | some (some _) => c.take i call (prepared && written)

/-- Who awaits a reply on the transport. -/
def owner (c : Client α ρ) (transport : ℕ) : Option ℕ :=
  c.calls.findIdx? (Call.awaits c.futures transport)

/-- Whom what arrives next is given to. -/
def given (parse : δ → Option ρ) (c : Client α ρ) (data : δ) : Option ℕ :=
  match c.waiters.getLast?, parse data with
  | some w, some _ =>
    if Future.IsPending c.futures w then c.calls.findIdx? fun call => call.waiter = some w else none
  | _, _ => none

/-- `read`, of a client. -/
def read (parse : δ → Option ρ) (c : Client α ρ) (transport : ℕ) (data : δ) : Client α ρ :=
  let c : Client α ρ := { c with deliveries := c.deliveries ++ [⟨c.given parse data, c.owner transport⟩] }
  match c.waiters.getLast? with
  | none => c
  | some w =>
    let c := { c with waiters := c.waiters.dropLast }
    match parse data with
    | none => c
    | some message => { c with futures := c.futures.modify w (Future.setResult ⟨transport, message⟩) }

/-- `connect_client`, where it connects. -/
def connectClient (c : Client α ρ) (a : α) : Client α ρ :=
  { c with
    connections := c.connections.set a (some (List.range' c.next c.size))
    next := c.next + c.size }

/-- What `send` does with what `connect_client` returns: it writes `None` over the new transports, and
fails to pop one. -/
def afterConnect (c : Client α ρ) (i : ℕ) (call : Call α ρ) (ok : Bool) : Client α ρ :=
  if ok then
    let c := c.connectClient call.address
    { c with connections := c.connections.set call.address none }.leave i call .raised
  else c.leave i call .raised

/-- The `except`, where a transport is connected, and what is behind it. -/
def afterReconnect (c : Client α ρ) (i : ℕ) (call : Call α ρ) (t : ℕ) (ok : Bool) : Client α ρ :=
  if ok then
    match ({ c with next := c.next + 1 }.append call.address c.next).bind (·.append call.address t) with
    | some c => c.leave i call (.returned t none)
    | none => { c with next := c.next + 1 }.leave i call .raised
  else c.leave i call .raised

def step (parse : δ → Option ρ) (c : Client α ρ) : Event α δ → Option (Client α ρ)
  | .call kind a => some { c with calls := c.calls ++ [⟨kind, a, .waiting⟩] }
  | .enter i prepared written =>
    match c.calls[i]? with
    | some call =>
      match call.stage with
      | .waiting => if 0 < c.permits then some (c.enter i call prepared written) else none
      | _ => none
    | none => none
  | .connected i ok =>
    match c.calls[i]? with
    | some call =>
      match call.stage with
      | .connecting => some (c.afterConnect i call ok)
      | _ => none
    | none => none
  | .reconnected i ok =>
    match c.calls[i]? with
    | some call =>
      match call.stage with
      | .reconnecting t => some (c.afterReconnect i call t ok)
      | _ => none
    | none => none
  | .received t data => if t < c.next ∧ t ∉ c.closed then some (c.read parse t data) else none
  | .resume i =>
    match c.calls[i]? with
    | some call =>
      match call.stage with
      | .awaiting t w =>
        match c.futures[w]? with
        | some (.result r) =>
          match c.append call.address t with
          | some c => some (c.leave i call (.returned t (some r)))
          | none => some (c.leave i call .raised)
        | _ => none
      | _ => none
    | none => none
  | .cancel i =>
    match c.calls[i]? with
    | some call =>
      match call.stage with
      | .waiting => some (c.setStage i call .raised)
      | .connecting | .reconnecting _ => some (c.leave i call .raised)
      | .awaiting _ w =>
        some ({ c with futures := c.futures.modify w Future.cancel }.leave i call .raised)
      | .returned _ _ | .raised => none
    | none => none
  | .lost t => if t < c.next ∧ t ∉ c.closed then some { c with closed := c.closed ++ [t] } else none

/-- A client before its first call, with these addresses connected. -/
def init (size : ℕ) (addresses : List α) : Client α ρ :=
  addresses.foldl connectClient
    { size := size, permits := size, connections := .empty, waiters := [], futures := [], calls := [],
      closed := [], next := 0 }

end Client

/-! ## 2. What is asked of it -/

variable [DecidableEq α]

/-- The call has a transport of the address. -/
def Call.uses (a : α) (call : Call α ρ) : Bool := decide (call.address = a) && call.holds.isSome

/-- Of every address, the transports that are available and those in use are as many as were
configured. -/
def Conserved (size : ℕ) (connections : Dict α (Option (List ℕ))) (calls : List (Call α ρ)) : Prop :=
  ∀ a ts, connections.get? a = some ts → (ts.getD []).length + calls.countP (Call.uses a) = size

/-- The pools keep their size, no transport was handed out closed, every reply was given to the call
that has awaited one on its transport, and what a call returns was received there. -/
structure Sound (c : Client α ρ) : Prop where
  conserved : Conserved c.size c.connections c.calls
  handed : ∀ h ∈ c.handed, h.2 = false
  delivered : ∀ d ∈ c.deliveries, d.given = d.owner
  returned : ∀ call ∈ c.calls, ∀ t r, call.stage = .returned t (some r) → r.transport = t

/-- The transport that a call takes is open; addresses are connected before they are sent to; a call
that has a transport ends with a reply; what arrives for a call can be parsed, while the waiter of the
call is the newest; and what arrives for nobody cannot be, or finds no waiter. -/
def Orderly (parse : δ → Option ρ) (c : Client α ρ) : Event α δ → Prop
  | .enter i prepared _ => ∀ call ∈ c.calls[i]?, prepared = true ∨ call.kind = .send →
      ∀ ts, c.connections.get? call.address = some (some ts) → ∀ t ∈ ts.getLast?, t ∉ c.closed
  | .connected _ ok => ok = false
  | .reconnected _ _ => False
  | .received t data =>
    (∀ call ∈ c.calls, call.awaits c.futures t = true →
      (parse data).isSome ∧ call.waiter = c.waiters.getLast?) ∧
    ((parse data).isSome → ∀ w ∈ c.waiters.getLast?,
      ∃ call ∈ c.calls, call.waiter = some w ∧ call.holds = some t)
  | .cancel i => ∀ call ∈ c.calls[i]?, call.holds = none
  | .call _ _ | .resume _ | .lost _ => True

/-! ## 3. The transports -/

/-- Every transport, in a pool or in use. -/
def transports (connections : Dict α (Option (List ℕ))) (calls : List (Call α ρ)) : List ℕ :=
  (connections.items.flatMap fun i => i.2.getD []) ++ calls.filterMap Call.holds

/-- The pools keep their size, calls have transports of connected addresses and connect the others, and no
transport is in two places. -/
structure Stock (size : ℕ) (connections : Dict α (Option (List ℕ))) (calls : List (Call α ρ))
    (next : ℕ) : Prop where
  conserved : Conserved size connections calls
  listed : ∀ call ∈ calls, call.holds.isSome →
    ∃ ts, connections.get? call.address = some (some ts)
  unlisted : ∀ call ∈ calls, call.stage = .connecting →
    ∀ ts, connections.get? call.address ≠ some (some ts)
  nodup : (transports connections calls).Nodup
  below : ∀ t ∈ transports connections calls, t < next

section Stock

variable {size next : ℕ} {connections : Dict α (Option (List ℕ))} {calls : List (Call α ρ)}
  {i t : ℕ} {call call' : Call α ρ} {ts : List ℕ}

theorem uses_of_holds_none (h : call.holds = none) (a : α) : call.uses a = false := by
  rw [Call.uses, h]
  exact Bool.and_false _

theorem uses_of_ne {a : α} (h : call.address ≠ a) : call.uses a = false := by
  rw [Call.uses, decide_eq_false h]
  exact Bool.false_and _

theorem uses_self (call : Call α ρ) :
    (if call.uses call.address then 1 else 0) = call.holds.toList.length := by
  unfold Call.uses
  cases call.holds <;> simp

/-- A call that has no transport goes on without one. -/
theorem Stock.quiet (h : Stock size connections calls next) (hi : calls[i]? = some call)
    (hcall : call.holds = none) (hcall' : call'.holds = none)
    (hunlisted : call'.stage = .connecting → ∀ ts, connections.get? call'.address ≠ some (some ts)) :
    Stock size connections (calls.set i call') next := by
  obtain ⟨rest, hbefore, hafter⟩ := Tasks.exists_filterMap_perm Call.holds hi
  have hperm : ((calls.set i call').filterMap Call.holds).Perm (calls.filterMap Call.holds) := by
    refine (hafter call').trans (List.Perm.trans ?_ hbefore.symm)
    rw [hcall, hcall']
  have htransports : (transports connections (calls.set i call')).Perm (transports connections calls) :=
    hperm.append_left _
  refine ⟨fun a ts hget => ?_, fun c hc hholds => ?_, fun c hc hstage => ?_,
    htransports.nodup_iff.mpr h.nodup, fun t ht => h.below t (htransports.mem_iff.mp ht)⟩
  · have hcount := Tasks.countP_set (Call.uses a) hi call'
    rw [uses_of_holds_none hcall, uses_of_holds_none hcall'] at hcount
    have hsize := h.conserved a ts hget
    simp only [Bool.false_eq_true, if_false, Nat.add_zero] at hcount
    rw [hcount]
    exact hsize
  · rcases List.mem_or_eq_of_mem_set hc with hmem | rfl
    · exact h.listed c hmem hholds
    · rw [hcall'] at hholds
      cases hholds
  · rcases List.mem_or_eq_of_mem_set hc with hmem | rfl
    · exact h.unlisted c hmem hstage
    · exact hunlisted hstage

/-- A new call has no transport. -/
theorem Stock.push (h : Stock size connections calls next) (hcall : call.stage = .waiting) :
    Stock size connections (calls ++ [call]) next := by
  have hnone : call.holds = none := by rw [Call.holds, hcall]
  have htransports : transports connections (calls ++ [call]) = transports connections calls := by
    rw [transports, List.filterMap_append, List.filterMap_cons_none hnone, List.filterMap_nil,
      List.append_nil]
    rfl
  refine ⟨fun a ts hget => ?_, fun c hc hholds => ?_, fun c hc hstage => ?_, htransports ▸ h.nodup,
    htransports ▸ h.below⟩
  · rw [List.countP_append, List.countP_singleton, uses_of_holds_none hnone]
    exact h.conserved a ts hget
  · rcases List.mem_append.mp hc with hmem | hmem
    · exact h.listed c hmem hholds
    · rw [List.mem_singleton.mp hmem, hnone] at hholds
      cases hholds
  · rcases List.mem_append.mp hc with hmem | hmem
    · exact h.unlisted c hmem hstage
    · rw [List.mem_singleton.mp hmem, hcall] at hstage
      cases hstage

/-- A transport goes from its pool to a call, or back. -/
theorem Stock.move {ts' : List ℕ} (h : Stock size connections calls next) (hi : calls[i]? = some call)
    (haddress : call'.address = call.address) (hcall' : call'.stage ≠ .connecting)
    (hget : connections.get? call.address = some (some ts))
    (hperm : (ts' ++ call'.holds.toList).Perm (ts ++ call.holds.toList)) :
    Stock size (connections.set call.address (some ts')) (calls.set i call') next := by
  obtain ⟨rest, hbefore, hafter⟩ := Tasks.exists_filterMap_perm Call.holds hi
  obtain ⟨front, behind, hitems, hset⟩ := Dict.exists_split hget
  have htransports : (transports (connections.set call.address (some ts')) (calls.set i call')).Perm
      (transports connections calls) := by
    rw [List.perm_iff_count]
    intro u
    have hpool := hperm.count_eq u
    have hold := hbefore.count_eq u
    have hnew := (hafter call').count_eq u
    simp only [transports, hitems, hset, List.flatMap_append, List.flatMap_cons, Option.getD_some,
      List.count_append] at hpool hold hnew ⊢
    omega
  refine ⟨fun a us hus => ?_, fun c hc hholds => ?_, fun c hc hstage us => ?_,
    htransports.nodup_iff.mpr h.nodup, fun u hu => h.below u (htransports.mem_iff.mp hu)⟩
  · have hcount := Tasks.countP_set (Call.uses a) hi call'
    by_cases ha : a = call.address
    · subst ha
      rw [Dict.get?_set_self, Option.some.injEq] at hus
      subst hus
      have hsize := h.conserved _ _ hget
      have hlength := hperm.length_eq
      have hself := uses_self call'
      rw [haddress] at hself
      rw [uses_self, hself] at hcount
      simp only [Option.getD_some, List.length_append] at hsize hlength ⊢
      omega
    · rw [Dict.get?_set_ne _ _ ha] at hus
      have hsize := h.conserved a us hus
      rw [uses_of_ne (Ne.symm ha), uses_of_ne (haddress ▸ Ne.symm ha)] at hcount
      simp only [Bool.false_eq_true, if_false, Nat.add_zero] at hcount
      rw [hcount]
      exact hsize
  · rw [Dict.get?_set]
    split
    · exact ⟨ts', rfl⟩
    · next hne =>
      rcases List.mem_or_eq_of_mem_set hc with hmem | rfl
      · exact h.listed c hmem hholds
      · exact absurd haddress hne
  · rcases List.mem_or_eq_of_mem_set hc with hmem | rfl
    · have hne : c.address ≠ call.address := fun heq => h.unlisted c hmem hstage ts (heq ▸ hget)
      rw [Dict.get?_set_ne _ _ hne]
      exact h.unlisted c hmem hstage us
    · exact absurd hstage hcall'

/-- Nobody has a transport of an address that is being connected. -/
theorem Stock.countP_uses_eq_zero (h : Stock size connections calls next) (hi : calls[i]? = some call)
    (hcall : call.stage = .connecting) (hcall' : call'.holds = none) :
    (calls.set i call').countP (Call.uses call.address) = 0 := by
  refine List.countP_eq_zero.mpr fun c hc huses => ?_
  rw [Call.uses, Bool.and_eq_true, decide_eq_true_iff] at huses
  rcases List.mem_or_eq_of_mem_set hc with hmem | rfl
  · obtain ⟨ts, hget⟩ := h.listed c hmem huses.2
    exact h.unlisted call (List.mem_of_getElem? hi) hcall ts (huses.1 ▸ hget)
  · rw [hcall'] at huses
    cases huses.2

/-- A transport that a call has let go is in its pool, where the pools keep their size. -/
theorem Stock.length_eq {connections' : Dict α (Option (List ℕ))} {ts' : List ℕ} {stage : Stage ρ}
    (h : Stock size connections calls next) (hi : calls[i]? = some call)
    (hcall : call.holds = some t) (hstage : Call.holds { call with stage := stage } = none)
    (hget : connections.get? call.address = some (some ts))
    (hget' : connections'.get? call.address = some (some ts'))
    (hconserved : Conserved size connections' (calls.set i { call with stage := stage })) :
    ts'.length = ts.length + 1 := by
  have hbefore := h.conserved _ _ hget
  have hafter := hconserved _ _ hget'
  have hcount := Tasks.countP_set (Call.uses call.address) hi { call with stage := stage }
  have hself := uses_self { call with stage := stage }
  rw [hstage] at hself
  rw [uses_self, hself, hcall] at hcount
  simp only [Option.getD_some, Option.toList_some, Option.toList_none, List.length_singleton,
    List.length_nil] at hbefore hafter hcount
  omega

/-- An address is connected before the first call. -/
theorem Stock.connect (h : Stock size connections ([] : List (Call α ρ)) next) (a : α) :
    Stock size (connections.set a (some (List.range' next size))) ([] : List (Call α ρ)) (next + size) := by
  obtain ⟨before, behind, hsub, hset⟩ := connections.exists_items_set a (some (List.range' next size))
  have hperm : (transports (connections.set a (some (List.range' next size))) ([] : List (Call α ρ))).Perm
      (List.range' next size ++ (before ++ behind).flatMap fun i => i.2.getD []) := by
    simp only [transports, hset, List.filterMap_nil, List.append_nil, List.flatMap_append,
      List.flatMap_cons, Option.getD_some]
    exact List.perm_append_comm_assoc _ _ _
  have hrest : ((before ++ behind).flatMap fun i => i.2.getD []).Sublist
      (transports connections ([] : List (Call α ρ))) := by
    simp only [transports, List.filterMap_nil, List.append_nil]
    exact hsub.flatMap _
  refine ⟨fun b ts hget => ?_, fun _ hc => absurd hc List.not_mem_nil,
    fun _ hc => absurd hc List.not_mem_nil, hperm.nodup_iff.mpr (List.nodup_append.mpr
      ⟨List.nodup_range', h.nodup.sublist hrest, fun u hu v hv => ?_⟩), fun u hu => ?_⟩
  · rw [Dict.get?_set] at hget
    split at hget
    · obtain rfl := Option.some.inj hget
      exact List.length_range'
    · exact h.conserved b ts hget
  · have hlow := (List.mem_range'_1.mp hu).1
    have hhigh := h.below v (hrest.subset hv)
    omega
  · rcases List.mem_append.mp (hperm.mem_iff.mp hu) with hmem | hmem
    · exact (List.mem_range'_1.mp hmem).2
    · have hhigh := h.below u (hrest.subset hmem)
      omega

end Stock

/-! ## 4. The waiters -/

/-- The waiter of the call is pending, or out of the deque with a reply that was received on the transport
of the call; and what the call returns was received there. -/
def Call.Fits (waiters : List ℕ) (futures : List (Future (Reply ρ))) (call : Call α ρ) : Prop :=
  match call.stage with
  | .awaiting t w => Future.IsPending futures w ∨
      (w ∉ waiters ∧ ∃ r, futures[w]? = some (.result r) ∧ r.transport = t)
  | .returned t (some r) => r.transport = t
  | _ => True

/-- No two calls have one waiter, and the waiters in the deque are those of calls. -/
structure Paired (calls : List (Call α ρ)) (waiters : List ℕ) (futures : List (Future (Reply ρ))) :
    Prop where
  alone : (calls.filterMap Call.waiter).Nodup
  nodup : waiters.Nodup
  owned : ∀ w ∈ waiters, w ∈ calls.filterMap Call.waiter
  fits : ∀ call ∈ calls, call.Fits waiters futures

section Paired

omit [DecidableEq α]

variable {calls : List (Call α ρ)} {waiters waiters' : List ℕ} {futures futures' : List (Future (Reply ρ))}
  {i t w : ℕ} {call call' : Call α ρ}

theorem exists_awaiting (h : call.waiter = some w) : ∃ t, call.stage = .awaiting t w := by
  unfold Call.waiter at h
  split at h
  · next t w' hstage => exact ⟨t, hstage.trans (by rw [Option.some.inj h])⟩
  · cases h

theorem waiter_of_awaiting (h : call.stage = .awaiting t w) : call.waiter = some w := by
  rw [Call.waiter, h]

theorem holds_of_awaiting (h : call.stage = .awaiting t w) : call.holds = some t := by
  rw [Call.holds, h]

theorem fits_of_awaiting (h : call.stage = .awaiting t w) :
    call.Fits waiters futures ↔ Future.IsPending futures w ∨
      (w ∉ waiters ∧ ∃ r, futures[w]? = some (.result r) ∧ r.transport = t) := by
  rw [Call.Fits, h]

/-- Of the deque and of the futures, a call sees its own waiter. -/
theorem Call.Fits.congr (h : call.Fits waiters futures)
    (hsame : ∀ w, call.waiter = some w → (w ∈ waiters' → w ∈ waiters) ∧ futures'[w]? = futures[w]?) :
    call.Fits waiters' futures' := by
  unfold Call.Fits Future.IsPending at h ⊢
  split
  · next t w hstage =>
    obtain ⟨hmem, hget⟩ := hsame w (waiter_of_awaiting hstage)
    rw [hstage] at h
    rw [hget]
    exact h.imp_right fun hresult => ⟨fun hw => hresult.1 (hmem hw), hresult.2⟩
  · next t r hstage =>
    rw [hstage] at h
    exact h
  · exact trivial

theorem Call.Fits.lt (h : call.Fits waiters futures) (hw : call.waiter = some w) :
    w < futures.length := by
  obtain ⟨t, hstage⟩ := exists_awaiting hw
  rcases (fits_of_awaiting hstage).mp h with hpending | ⟨-, r, hresult, -⟩
  · exact (List.getElem?_eq_some_iff.mp hpending).1
  · exact (List.getElem?_eq_some_iff.mp hresult).1

/-- The waiter of a call that goes on with a result is not in the deque, and the result is its own. -/
theorem Call.Fits.of_result {r : Reply ρ} (h : call.Fits waiters futures)
    (hstage : call.stage = .awaiting t w) (hresult : futures[w]? = some (.result r)) :
    w ∉ waiters ∧ r.transport = t := by
  rcases (fits_of_awaiting hstage).mp h with hpending | ⟨hnot, r', hr', ht⟩
  · cases hresult.symm.trans hpending
  · obtain rfl := Future.result.inj (Option.some.inj (hresult.symm.trans hr'))
    exact ⟨hnot, ht⟩

theorem Paired.push (h : Paired calls waiters futures) (hcall : call.waiter = none)
    (hfits : call.Fits waiters futures) : Paired (calls ++ [call]) waiters futures := by
  have hwaiters : (calls ++ [call]).filterMap Call.waiter = calls.filterMap Call.waiter := by
    rw [List.filterMap_append, List.filterMap_cons_none hcall, List.filterMap_nil, List.append_nil]
  refine ⟨hwaiters ▸ h.alone, h.nodup, hwaiters ▸ h.owned, fun c hc => ?_⟩
  rcases List.mem_append.mp hc with hmem | hmem
  · exact h.fits c hmem
  · exact List.mem_singleton.mp hmem ▸ hfits

/-- A call goes on without a waiter. -/
theorem Paired.settle (h : Paired calls waiters futures) (hi : calls[i]? = some call)
    (hcall : ∀ w, call.waiter = some w → w ∉ waiters) (hcall' : call'.waiter = none)
    (hfits : call'.Fits waiters futures) : Paired (calls.set i call') waiters futures := by
  obtain ⟨rest, hbefore, hafter⟩ := Tasks.exists_filterMap_perm Call.waiter hi
  have hrest := hafter call'
  rw [hcall', Option.toList_none, List.nil_append] at hrest
  refine ⟨hrest.nodup_iff.mpr (List.nodup_append.mp (hbefore.nodup_iff.mp h.alone)).2.1, h.nodup,
    fun w hw => hrest.mem_iff.mpr ?_, fun c hc => ?_⟩
  · rcases List.mem_append.mp (hbefore.mem_iff.mp (h.owned w hw)) with hmem | hmem
    · exact absurd hw (hcall w (Option.mem_toList.mp hmem))
    · exact hmem
  · rcases List.mem_or_eq_of_mem_set hc with hmem | rfl
    · exact h.fits c hmem
    · exact hfits

/-- A call begins to wait. -/
theorem Paired.enroll (h : Paired calls waiters futures) (hi : calls[i]? = some call)
    (hcall : call.waiter = none) (hcall' : call'.stage = .awaiting t futures.length) :
    Paired (calls.set i call') (waiters ++ [futures.length]) (futures ++ [.pending]) := by
  obtain ⟨rest, hbefore, hafter⟩ := Tasks.exists_filterMap_perm Call.waiter hi
  rw [hcall, Option.toList_none, List.nil_append] at hbefore
  have hset := hafter call'
  rw [waiter_of_awaiting hcall', Option.toList_some, List.singleton_append] at hset
  have hlt : ∀ w ∈ calls.filterMap Call.waiter, w < futures.length := by
    intro w hw
    obtain ⟨c, hc, hcw⟩ := List.mem_filterMap.mp hw
    exact (h.fits c hc).lt hcw
  have hnew : futures.length ∉ calls.filterMap Call.waiter := fun hmem => Nat.lt_irrefl _ (hlt _ hmem)
  refine ⟨hset.nodup_iff.mpr (List.nodup_cons.mpr ⟨fun hmem => hnew (hbefore.mem_iff.mpr hmem),
    hbefore.nodup_iff.mp h.alone⟩), ?_, fun w hw => hset.mem_iff.mpr ?_, fun c hc => ?_⟩
  · refine List.nodup_append.mpr ⟨h.nodup, List.nodup_singleton _, fun w hw w' hw' => ?_⟩
    rw [List.mem_singleton.mp hw']
    exact Nat.ne_of_lt (hlt w (h.owned w hw))
  · rcases List.mem_append.mp hw with hmem | hmem
    · exact List.mem_cons_of_mem _ (hbefore.mem_iff.mp (h.owned w hmem))
    · exact List.mem_singleton.mp hmem ▸ List.mem_cons_self
  · rcases List.mem_or_eq_of_mem_set hc with hmem | rfl
    · refine (h.fits c hmem).congr fun w hw => ?_
      have hw := (h.fits c hmem).lt hw
      refine ⟨?_, List.getElem?_append_left hw⟩
      rw [List.mem_append, List.mem_singleton]
      exact fun hmem => hmem.resolve_right (Nat.ne_of_lt hw)
    · exact (fits_of_awaiting hcall').mpr (Or.inl List.getElem?_concat_length)

/-- A reply is given to the newest waiter, of whose call the transport is. -/
theorem Paired.deliver (h : Paired calls (waiters ++ [w]) futures) (hcall : call ∈ calls)
    (hstage : call.stage = .awaiting t w) (message : ρ) :
    Paired calls waiters (futures.modify w (Future.setResult ⟨t, message⟩)) := by
  obtain ⟨hnodup, -, hnot⟩ := List.nodup_append.mp h.nodup
  have hw : w ∉ waiters := fun hmem => hnot w hmem w (List.mem_singleton_self w) rfl
  refine ⟨h.alone, hnodup, fun u hu => h.owned u (List.mem_append_left _ hu), fun c hc => ?_⟩
  by_cases hcw : c.waiter = some w
  · obtain rfl := Tasks.eq_of_filterMap_nodup h.alone hc hcall hcw (waiter_of_awaiting hstage)
    rcases (fits_of_awaiting hstage).mp (h.fits c hc) with hpending | ⟨hout, -⟩
    · refine (fits_of_awaiting hstage).mpr (Or.inr ⟨hw, ⟨t, message⟩, ?_, rfl⟩)
      rw [List.getElem?_modify, show futures[w]? = _ from hpending]
      simp [Future.setResult]
    · exact absurd (List.mem_append_right _ (List.mem_singleton_self w)) hout
  · refine (h.fits c hc).congr fun u hu => ?_
    have hne : u ≠ w := fun heq => hcw (heq ▸ hu)
    refine ⟨List.mem_append_left _, ?_⟩
    rw [List.getElem?_modify]
    simp [Ne.symm hne]

/-- The newest waiter gets nothing. -/
theorem Paired.discard (h : Paired calls (waiters ++ [w]) futures) : Paired calls waiters futures :=
  ⟨h.alone, (List.nodup_append.mp h.nodup).1, fun u hu => h.owned u (List.mem_append_left _ hu),
    fun c hc => (h.fits c hc).congr fun _ _ => ⟨List.mem_append_left _, rfl⟩⟩

/-- A waiter in the deque is pending, and is the waiter of a call. -/
theorem Paired.exists_call (h : Paired calls waiters futures) (hw : w ∈ waiters) :
    Future.IsPending futures w ∧ ∃ call ∈ calls, call.waiter = some w := by
  obtain ⟨call, hcall, hwaiter⟩ := List.mem_filterMap.mp (h.owned w hw)
  obtain ⟨t, hstage⟩ := exists_awaiting hwaiter
  refine ⟨?_, call, hcall, hwaiter⟩
  exact ((fits_of_awaiting hstage).mp (h.fits call hcall)).resolve_right fun hout => hout.1 hw

end Paired

end HttpPool
end Hedra
