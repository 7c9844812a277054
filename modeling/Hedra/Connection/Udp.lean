/-
# Who gets a reply that arrives over UDP?

`MercurySyncUDPConnection.send` (`distributed/connection/udp/mercury_sync_udp_connection.py`) puts a
waiter into the queue of its event name, and `read` starts a task of `_receive_response` for each
reply, which gives the reply to the **oldest** waiter of the event name.  As over TCP, nothing in
the reply says which request it is for.  A waiter whose call has timed out stays in the queue, so
after one timeout the next reply is given to a call that is over, and after a late reply every call
gets the reply of the one before.

`bool` of an `asyncio.Queue` is always `True`.  A reply that finds the queue empty is therefore
kept, in a task that waits, and given to the next call.

The calls get their own replies if and only if each reply finds the waiter of its own call on top,
or one whose call is over, while its own call no longer waits.  Section 4 says when that is so
whatever times out: when the replies of an event are received in the order of their requests.

* `matched_step_iff`: one step, and `replies_matched_iff` a run;
* `matched_of_inOrder`: it is enough that the replies of each event are received in order.
-/
import Mathlib.Data.List.Perm.Basic
import Hedra.Connection.Tcp

namespace Hedra

open Lib Lib.Machine

/-! ## 1. The connection -/

/-- A datagram of type `response`.  The number of the request that it answers is not part of it. -/
structure Datagram (Data : Type) where
  request : Nat
  eventName : String
  shardId : Int
  payload : Data
deriving DecidableEq

/-- A task of `_receive_response` that has no waiter yet.  It was in time if the call still waited
when the datagram was read. -/
structure Receiving (Data : Type) where
  response : Datagram Data
  inTime : Bool
deriving DecidableEq

/-- What such a task has done: `timedOut` if the call of the waiter that it took was over. -/
structure Delivery (Data : Type) where
  response : Datagram Data
  inTime : Bool
  waiter : Nat
  timedOut : Bool
deriving DecidableEq

/-- The client side of a `MercurySyncUDPConnection`, its calls of `send`, and what is on its way
between it and the server. -/
structure UdpConnection (Data : Type) where
  /-- A waiter for each request that has been sent, with the number of the request. -/
  waiters : Waiters (Datagram Data)
  requests : List Request
  datagrams : List (Datagram Data)
  receiving : List (Receiving Data)
  /-- The history of the deliveries. -/
  deliveries : List (Delivery Data)

namespace UdpConnection

variable {Data : Type}

/-- A connection of which nothing has been sent. -/
def init : UdpConnection Data where
  waiters := Waiters.empty
  requests := []
  datagrams := []
  receiving := []
  deliveries := []

/-- The request with the number `n`, as long as it is not answered. -/
def findRequest (c : UdpConnection Data) (n : Nat) : Option Request :=
  c.requests.find? fun q => q.number = n

/-- `send`, up to where it waits. -/
def send (c : UdpConnection Data) (e : String) : UdpConnection Data :=
  { c with
    requests := c.requests ++ [⟨c.waiters.futures.length, e⟩]
    waiters := c.waiters.enroll e }

/-- The server answers, in `_read`. -/
def answer (c : UdpConnection Data) (q : Request) (shardId : Int) (payload : Data) :
    UdpConnection Data :=
  { c with
    requests := c.requests.erase q
    datagrams := c.datagrams ++ [⟨q.number, q.eventName, shardId, payload⟩] }

/-- `read`, of a datagram of type `response`. -/
def read (c : UdpConnection Data) (r : Datagram Data) : UdpConnection Data :=
  { c with receiving := c.receiving ++ [⟨r, decide (c.waiters.IsPending r.request)⟩] }

/-- `_receive_response`, from where `get` returns the waiter `n`. -/
def receive (c : UdpConnection Data) (t : Receiving Data) (n : Nat) : UdpConnection Data :=
  { c with
    waiters := c.waiters.giveOldest t.response.eventName t.response
    deliveries := c.deliveries ++ [⟨t.response, t.inTime, n, decide (c.waiters.TimedOut n)⟩] }

/-- What can happen to a connection.  A datagram that is lost is never read, and a request that is
lost is never answered. -/
inductive Event (Data : Type)
  /-- `send` is called; when `sendto` raises, it returns an error at once. -/
  | send
      (eventName : String)
      (raises : Bool)
  | answer
      (request : Nat)
      (shardId : Int)
      (payload : Data)
  | read
      (index : Nat)
  /-- A task of `_receive_response` gets a waiter: while the queue is empty, it waits. -/
  | receive
      (index : Nat)
  | timeout
      (request : Nat)

/-- The machine of one connection. -/
def step (c : UdpConnection Data) : Event Data → Option (UdpConnection Data)
  | .send e raises => if raises then some c else some (c.send e)
  | .answer n shardId payload => (c.findRequest n).map fun q => c.answer q shardId payload
  | .read i => c.datagrams[i]?.map fun r => { c with datagrams := c.datagrams.eraseIdx i }.read r
  | .receive i =>
    c.receiving[i]?.bind fun t =>
      (c.waiters.of t.response.eventName).head?.map fun n =>
        { c with receiving := c.receiving.eraseIdx i }.receive t n
  | .timeout n =>
    if c.waiters.IsPending n then some { c with waiters := c.waiters.cancel n } else none

/-! ## 2. Matching -/

/-- The call that sent the request `n` returns `r`. -/
def Returns (c : UdpConnection Data) (n : Nat) (r : Datagram Data) : Prop :=
  c.waiters.futures[n]? = some (.result r)

/-- Each call that returns a response returns the one to its own request, and a reply that came in
time was never given to the waiter of an earlier call that had timed out. -/
structure Matched (c : UdpConnection Data) : Prop where
  own : ∀ n r, c.Returns n r → r.request = n
  inTime : ∀ d ∈ c.deliveries, d.inTime → d.timedOut → ¬ d.waiter < d.response.request

/-- A reply that is given to a waiter now goes to its own call, or to one that is over; and if the
reply came in time, not to an earlier one. -/
def KeepsMatched (c : UdpConnection Data) : Event Data → Prop
  | .receive i => ∀ t n, c.receiving[i]? = some t →
      (c.waiters.of t.response.eventName).head? = some n →
        (c.waiters.IsPending n → t.response.request = n) ∧
          (t.inTime → c.waiters.TimedOut n → ¬ n < t.response.request)
  | _ => True

/-- **Delivering a reply keeps the calls matched exactly if it is for the waiter, or that one is
done and not an earlier one that a reply in time should have passed over.** -/
theorem matched_receive_iff {c : UdpConnection Data} (h : c.Matched) {t : Receiving Data} {n : Nat}
    (hn : (c.waiters.of t.response.eventName).head? = some n) :
    (c.receive t n).Matched ↔ (c.waiters.IsPending n → t.response.request = n) ∧
      (t.inTime → c.waiters.TimedOut n → ¬ n < t.response.request) := by
  have hown : c.waiters.Own fun r n => r.request = n := h.own
  have hgive := hown.giveOldest_iff t.response.eventName t.response
  simp only [hn, Option.some.injEq, forall_eq'] at hgive
  constructor
  · intro h'
    refine ⟨hgive.mp h'.own, fun hin hover => ?_⟩
    have hmem : (⟨t.response, t.inTime, n, decide (c.waiters.TimedOut n)⟩ : Delivery Data) ∈
        (c.receive t n).deliveries := List.mem_append_right _ (List.mem_singleton_self _)
    exact h'.inTime _ hmem hin (by simpa using hover)
  · rintro ⟨hmine, hin⟩
    refine ⟨hgive.mpr hmine, fun d hd => ?_⟩
    rcases List.mem_append.mp hd with hd | hd
    · exact h.inTime d hd
    · obtain rfl := List.mem_singleton.mp hd
      simpa using hin

/-- **One step keeps the calls matched exactly if it gives no reply to a wrong waiter.** -/
theorem matched_step_iff {c c' : UdpConnection Data} {ev : Event Data} (h : c.Matched)
    (hs : c.step ev = some c') : c'.Matched ↔ c.KeepsMatched ev := by
  have hown : c.waiters.Own fun r n => r.request = n := h.own
  cases ev with
  | send e raises =>
    refine iff_of_true ?_ trivial
    simp only [step] at hs
    split at hs
    · obtain rfl := Option.some.inj hs
      exact h
    · obtain rfl := Option.some.inj hs
      exact ⟨hown.enroll e, h.inTime⟩
  | answer n shardId payload =>
    obtain ⟨q, -, rfl⟩ := Option.map_eq_some_iff.mp hs
    exact iff_of_true ⟨h.own, h.inTime⟩ trivial
  | read i =>
    obtain ⟨r, -, rfl⟩ := Option.map_eq_some_iff.mp hs
    exact iff_of_true ⟨h.own, h.inTime⟩ trivial
  | receive i =>
    obtain ⟨t, ht, hs⟩ := Option.bind_eq_some_iff.mp hs
    obtain ⟨n, hn, rfl⟩ := Option.map_eq_some_iff.mp hs
    have h' : { c with receiving := c.receiving.eraseIdx i }.Matched := ⟨h.own, h.inTime⟩
    rw [matched_receive_iff h' hn]
    constructor
    · intro hall t' m ht' hm
      obtain rfl : t = t' := by rwa [ht, Option.some.injEq] at ht'
      obtain rfl : n = m := by rwa [hn, Option.some.injEq] at hm
      exact hall
    · intro hall
      exact hall t n ht hn
  | timeout n =>
    simp only [step] at hs
    split at hs
    · obtain rfl := Option.some.inj hs
      exact iff_of_true ⟨hown.cancel n, h.inTime⟩ trivial
    · cases hs

/-! ## 3. Runs -/

theorem matched_init : (init : UdpConnection Data).Matched where
  own := Waiters.own_empty
  inTime := by simp [init]

/-- **The calls get their own replies all along a run, and in time, exactly if every reply finds
its own waiter, or one whose call is over and that it does not come too early for.** -/
theorem replies_matched_iff (evs : List (Event Data)) :
    Always step Matched init evs ↔ Along step (fun c ev _ => c.KeepsMatched ev) init evs := by
  refine always_iff_along ?_ matched_init
  intro c ev c' h hs
  exact matched_step_iff h hs

/-- Two calls wait, and the reply to the second is the first to arrive: the first call returns it.
And when the first call has timed out, the reply to the second is lost on its waiter. -/
theorem reply_after_timeout :
    ¬ (∀ evs : List (Event Nat), Always step (fun c => ∀ n r, c.Returns n r → r.request = n)
        init evs) ∧
      ¬ ∀ evs : List (Event Nat), Always step (fun c => ∀ d ∈ c.deliveries, d.inTime →
        d.timedOut → ¬ d.waiter < d.response.request) init evs := by
  constructor
  · intro h
    have hlast := (h [.send "job" false, .send "job" false, .answer 1 8 80, .read 0,
      .receive 0]).last rfl
    exact absurd (hlast 0 ⟨1, "job", 8, 80⟩ rfl) (by decide)
  · intro h
    have hlast := (h [.send "job" false, .timeout 0, .send "job" false, .answer 1 8 80, .read 0,
      .receive 0]).last rfl
    exact absurd (hlast ⟨⟨1, "job", 8, 80⟩, true, 0, true⟩ (by decide)) (by decide)

/-! ## 4. Replies in order -/

/-- What is under way: the requests and replies whose waiters should still be in the queues. -/
def underWay (c : UdpConnection Data) : List (String × Nat) :=
  c.requests.map (fun q => (q.eventName, q.number)) ++
    c.datagrams.map (fun r => (r.eventName, r.request)) ++
    c.receiving.map fun t => (t.response.eventName, t.response.request)

/-- The numbers under way of the event `e`. -/
def underWayOf (c : UdpConnection Data) (e : String) : List Nat :=
  (c.underWay.filter fun p => p.1 = e).map Prod.snd

/-- A reply that is received now is the oldest of its event. -/
def InOrder (c : UdpConnection Data) : Event Data → Prop
  | .receive i => ∀ t, c.receiving[i]? = some t →
      ∀ n ∈ c.underWayOf t.response.eventName, t.response.request ≤ n
  | _ => True

/-- The queue of an event holds what is under way of it, in order. -/
structure Queued (c : UdpConnection Data) : Prop where
  perm : ∀ e, (c.waiters.of e).Perm (c.underWayOf e)
  sorted : ∀ e, (c.waiters.of e).Pairwise (· < ·)
  lt : ∀ e, ∀ n ∈ c.waiters.of e, n < c.waiters.futures.length

theorem underWayOf_perm {c c' : UdpConnection Data} (h : c'.underWay.Perm c.underWay)
    (e : String) : (c'.underWayOf e).Perm (c.underWayOf e) := (h.filter _).map _

theorem underWayOf_perm_cons {c c' : UdpConnection Data} {e : String} {n : Nat}
    (h : c'.underWay.Perm ((e, n) :: c.underWay)) (e' : String) :
    (c'.underWayOf e').Perm (if e = e' then n :: c.underWayOf e' else c.underWayOf e') := by
  have hp := (h.filter fun p => decide (p.1 = e')).map Prod.snd
  by_cases he : e = e'
  · rw [List.filter_cons_of_pos (by simpa using he)] at hp
    rwa [if_pos he]
  · rw [List.filter_cons_of_neg (by simpa using he)] at hp
    rwa [if_neg he]

/-- What is under way goes on, and nothing else changes. -/
theorem Queued.of_perm {c c' : UdpConnection Data} (h : c.Queued)
    (hw : ∀ e, c'.waiters.of e = c.waiters.of e)
    (hl : c'.waiters.futures.length = c.waiters.futures.length)
    (hp : c'.underWay.Perm c.underWay) : c'.Queued := by
  constructor
  · intro e
    rw [hw]
    exact (h.perm e).trans (underWayOf_perm hp e).symm
  · intro e
    rw [hw]
    exact h.sorted e
  · intro e n hn
    rw [hw] at hn
    rw [hl]
    exact h.lt e n hn

theorem Queued.send {c : UdpConnection Data} (h : c.Queued) (e : String) : (c.send e).Queued := by
  have hw (e' : String) : (c.send e).waiters.of e' =
      if e' = e then c.waiters.of e ++ [c.waiters.futures.length] else c.waiters.of e' :=
    c.waiters.of_enroll e e'
  have hp : (c.send e).underWay.Perm ((e, c.waiters.futures.length) :: c.underWay) := by
    simp only [underWay, UdpConnection.send, List.map_append, List.map_cons, List.map_nil,
      List.append_assoc, List.cons_append, List.nil_append]
    exact List.perm_middle
  constructor
  · intro e'
    refine List.Perm.trans ?_ (underWayOf_perm_cons hp e').symm
    rw [hw]
    by_cases he : e' = e
    · rw [if_pos he, if_pos he.symm, he]
      exact (List.perm_append_singleton _ _).trans ((h.perm e).cons _)
    · rw [if_neg he, if_neg (Ne.symm he)]
      exact h.perm e'
  · intro e'
    rw [hw]
    split
    · refine List.pairwise_append.mpr ⟨h.sorted e, List.pairwise_singleton _ _, ?_⟩
      intro m hm n hn
      obtain rfl := List.mem_singleton.mp hn
      exact h.lt e m hm
    · exact h.sorted e'
  · intro e' n hn
    change n < (c.waiters.futures ++ [Future.pending]).length
    rw [List.length_append, List.length_singleton]
    rw [hw] at hn
    split at hn
    · rcases List.mem_append.mp hn with hn | hn
      · exact Nat.lt_succ_of_lt (h.lt e n hn)
      · rw [List.mem_singleton.mp hn]
        exact Nat.lt_succ_self _
    · exact Nat.lt_succ_of_lt (h.lt e' n hn)

/-- **The oldest reply of an event is for the oldest waiter.** -/
theorem Queued.head_eq {c : UdpConnection Data} (h : c.Queued) {t : Receiving Data}
    (ht : t ∈ c.receiving)
    (hmin : ∀ n ∈ c.underWayOf t.response.eventName, t.response.request ≤ n) {n : Nat}
    {ns : List Nat} (hw : c.waiters.of t.response.eventName = n :: ns) :
    t.response.request = n := by
  have hsorted := h.sorted t.response.eventName
  have hperm := h.perm t.response.eventName
  rw [hw] at hsorted hperm
  have hmem : t.response.request ∈ c.underWayOf t.response.eventName := by
    refine List.mem_map.mpr ⟨(t.response.eventName, t.response.request), ?_, rfl⟩
    refine List.mem_filter.mpr ⟨List.mem_append_right _ ?_, by simp⟩
    exact List.mem_map.mpr ⟨t, ht, rfl⟩
  have hle : t.response.request ≤ n := hmin n (hperm.mem_iff.mp List.mem_cons_self)
  rcases List.mem_cons.mp (hperm.mem_iff.mpr hmem) with heq | hin
  · exact heq
  · exact absurd (List.rel_of_pairwise_cons hsorted hin) (Nat.not_lt.mpr hle)

theorem Queued.receive {c : UdpConnection Data} (h : c.Queued) {i : Nat} {t : Receiving Data}
    (ht : c.receiving[i]? = some t)
    (hmin : ∀ n ∈ c.underWayOf t.response.eventName, t.response.request ≤ n) {n : Nat}
    {ns : List Nat} (hw : c.waiters.of t.response.eventName = n :: ns) :
    ({ c with receiving := c.receiving.eraseIdx i }.receive t n).Queued := by
  have hhead := h.head_eq (List.mem_of_getElem? ht) hmin hw
  have hof (e : String) :
      ({ c with receiving := c.receiving.eraseIdx i }.receive t n).waiters.of e =
        if e = t.response.eventName then ns else c.waiters.of e := by
    have hgive := c.waiters.of_giveOldest t.response.eventName e t.response
    rwa [hw] at hgive
  have hp : c.underWay.Perm ((t.response.eventName, n) ::
      ({ c with receiving := c.receiving.eraseIdx i }.receive t n).underWay) := by
    obtain ⟨hi, hti⟩ := List.getElem?_eq_some_iff.mp ht
    have herase := List.getElem_cons_eraseIdx_perm hi
    rw [hti] at herase
    have hmap := herase.map fun t : Receiving Data => (t.response.eventName, t.response.request)
    rw [List.map_cons, hhead] at hmap
    simp only [underWay, UdpConnection.receive]
    exact ((List.Perm.refl _).append hmap.symm).trans List.perm_middle
  constructor
  · intro e
    have hperm := (h.perm e).trans (underWayOf_perm_cons hp e)
    rw [hof]
    by_cases he : t.response.eventName = e
    · subst he
      rw [if_pos rfl, hw] at hperm
      rw [if_pos rfl]
      exact (List.perm_cons n).mp hperm
    · rw [if_neg he] at hperm
      rw [if_neg (Ne.symm he)]
      exact hperm
  · intro e
    rw [hof]
    split
    · have hsorted := h.sorted t.response.eventName
      rw [hw] at hsorted
      exact hsorted.of_cons
    · exact h.sorted e
  · intro e m hm
    change m < (c.waiters.giveOldest t.response.eventName t.response).futures.length
    rw [Waiters.length_futures_giveOldest]
    rw [hof] at hm
    split at hm
    · refine h.lt t.response.eventName m ?_
      rw [hw]
      exact List.mem_cons_of_mem n hm
    · exact h.lt e m hm

theorem queued_step {c c' : UdpConnection Data} {ev : Event Data} (h : c.Queued)
    (hs : c.step ev = some c') (ho : c.InOrder ev) : c'.Queued := by
  cases ev with
  | send e raises =>
    simp only [step] at hs
    split at hs
    · obtain rfl := Option.some.inj hs
      exact h
    · obtain rfl := Option.some.inj hs
      exact h.send e
  | answer n shardId payload =>
    obtain ⟨q, hq, rfl⟩ := Option.map_eq_some_iff.mp hs
    refine h.of_perm (fun _ => rfl) rfl ?_
    have herase := List.perm_cons_erase (List.mem_of_find?_eq_some hq)
    have hmap := herase.map fun q : Request => (q.eventName, q.number)
    simp only [underWay, UdpConnection.answer, List.map_append, List.map_cons, List.map_nil,
      List.append_assoc] at hmap ⊢
    refine List.Perm.trans ?_ (hmap.symm.append_right _)
    rw [List.cons_append, ← List.append_assoc]
    exact List.perm_middle.trans (by simp)
  | read i =>
    obtain ⟨r, hr, rfl⟩ := Option.map_eq_some_iff.mp hs
    refine h.of_perm (fun _ => rfl) rfl ?_
    obtain ⟨hi, hri⟩ := List.getElem?_eq_some_iff.mp hr
    have herase := List.getElem_cons_eraseIdx_perm hi
    rw [hri] at herase
    have hmap := herase.map fun r : Datagram Data => (r.eventName, r.request)
    simp only [underWay, UdpConnection.read, List.map_append, List.map_cons, List.map_nil,
      List.append_assoc] at hmap ⊢
    refine List.Perm.append_left _ ?_
    refine List.Perm.trans ?_ (hmap.append_right _)
    rw [List.cons_append, ← List.append_assoc]
    exact List.perm_append_singleton _ _
  | receive i =>
    obtain ⟨t, ht, hs⟩ := Option.bind_eq_some_iff.mp hs
    obtain ⟨n, hn, rfl⟩ := Option.map_eq_some_iff.mp hs
    obtain ⟨ns, hw⟩ := List.head?_eq_some_iff.mp hn
    exact h.receive ht (ho t ht) hw
  | timeout n =>
    simp only [step] at hs
    split at hs
    · obtain rfl := Option.some.inj hs
      exact h.of_perm (fun _ => rfl) (List.length_modify ..) (List.Perm.refl _)
    · cases hs

/-- **When the replies of each event are received in order, the calls get their own**, whichever of
them time out. -/
theorem matched_of_inOrder (evs : List (Event Data))
    (h : Along step (fun c ev _ => c.InOrder ev) init evs) : Always step Matched init evs := by
  have hboth : Always step (fun c : UdpConnection Data => c.Matched ∧ c.Queued) init evs := by
    refine Along.always ?_ ?_ h
    · rintro c ev c' ⟨hm, hq⟩ hs ho
      refine ⟨(matched_step_iff hm hs).mpr ?_, queued_step hq hs ho⟩
      cases ev with
      | receive i =>
        intro t n ht hn
        obtain ⟨ns, hns⟩ := List.head?_eq_some_iff.mp hn
        have heq := hq.head_eq (List.mem_of_getElem? ht) (ho t ht) hns
        exact ⟨fun _ => heq, fun _ _ => by rw [heq]; exact Nat.lt_irrefl n⟩
      | _ => trivial
    · refine ⟨matched_init, ?_⟩
      constructor <;> simp [init, underWayOf, underWay]
  exact hboth.mono fun _ hc => hc.1

end UdpConnection
end Hedra
