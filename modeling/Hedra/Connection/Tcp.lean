/-
# Who gets a reply that arrives over TCP?

`MercurySyncTCPConnection.send` (`distributed/connection/tcp/mercury_sync_tcp_connection.py`) writes
a request that carries an id, and appends a waiter to the deque of its event name.  The reply
carries the event name and an id of the server's own: nothing in it says which request it is for.
`read` gives it to the **newest** waiter of the event name.  A waiter whose call has timed out stays
in the deque; a reply that reaches it is lost.

So the calls get their own replies if and only if, whenever a reply is read, the newest waiter of
its event name is the one of its own call, or one whose call is over.  Section 5 says which calls
have to be kept apart for that: those of one event name.

* `matched_step_iff`: one step keeps the calls matched exactly if it reads no response for the wrong
  waiter;
* `responses_matched_iff`: so does a run, exactly if all its steps do;
* `matched_of_orderly`: it is enough that one request of an event is under way at a time.
-/
import Hedra.Connection.Waiters
import Hedra.Lib.Machine

namespace Hedra

open Lib Lib.Machine

/-! ## 1. The connection -/

/-- A message of type `response`, on its way back.  `_send_error` leaves the event name out.  The
number of the request that it answers is not part of the message. -/
structure Response (Data : Type) where
  request : Nat
  eventName : Option String
  shardId : Int
  payload : Data
deriving DecidableEq

/-- A request that has been written and not been answered.  Requests are numbered in the order in
which they are written. -/
structure Request where
  number : Nat
  eventName : String
deriving DecidableEq

/-- The client side of a `MercurySyncTCPConnection`, its calls of `send`, and what is on its way
between it and the server. -/
structure TcpConnection (Data : Type) where
  /-- What is left of `_semaphore`. -/
  permits : Nat
  /-- The event names of the calls that wait for the semaphore, and for `connect_client`. -/
  queued : List String
  connecting : List String
  /-- `_client_transports` has the address. -/
  connected : Bool
  lastCall : List String
  /-- A waiter for each request that has been written, with the number of the request. -/
  waiters : Waiters (Option (Response Data))
  requests : List Request
  responses : List (Response Data)

namespace TcpConnection

variable {Data : Type}

/-- A connection of which nothing has been sent. -/
def init (maxConcurrency : Nat) : TcpConnection Data where
  permits := maxConcurrency
  queued := []
  connecting := []
  connected := false
  lastCall := []
  waiters := Waiters.empty
  requests := []
  responses := []

/-- A call of `send` returns an error before it has a waiter, and releases the semaphore. -/
def giveUp (c : TcpConnection Data) : TcpConnection Data := { c with permits := c.permits + 1 }

/-! ## 2. Functions -/

/-- `send`, from where the transport is known up to where it waits.  A transport that is closing
ends the call with 'Transport closed.'. -/
def write (c : TcpConnection Data) (e : String) (isClosing : Bool) : TcpConnection Data :=
  if isClosing then c.giveUp
  else
    { c with
      requests := c.requests ++ [⟨c.waiters.futures.length, e⟩]
      waiters := c.waiters.enroll e }

/-- `send`, from where it has the semaphore up to its first await. -/
def enter (c : TcpConnection Data) (e : String) (isClosing : Bool) : TcpConnection Data :=
  let c := { c with permits := c.permits - 1, lastCall := c.lastCall ++ [e] }
  if c.connected then c.write e isClosing else { c with connecting := c.connecting ++ [e] }

/-- `read`, once the event name is known: the newest waiter is popped, and its call goes on and
returns, if it still waits. -/
def deliver (c : TcpConnection Data) (e : String) (x : Option (Response Data)) :
    TcpConnection Data :=
  { c with
    waiters := c.waiters.giveNewest e x
    permits := if ∃ n ∈ (c.waiters.of e).getLast?, c.waiters.IsPending n then c.permits + 1
      else c.permits }

/-- `read`, of a message of type `response`. -/
def read (c : TcpConnection Data) (r : Response Data) : TcpConnection Data :=
  match r.eventName, c.lastCall.getLast? with
  | some e, _ => c.deliver e (some r)
  | none, some e =>
    { c with lastCall := c.lastCall.dropLast }.deliver e (some { r with eventName := some e })
  | none, none => c

/-- `read`, of a chunk that does not decompress.  The result `None` makes the call that gets it
raise, hence return an error. -/
def readGarbled (c : TcpConnection Data) : TcpConnection Data :=
  match c.lastCall.getLast? with
  | none => c
  | some e => { c with lastCall := c.lastCall.dropLast }.deliver e none

/-- `wait_for` cancels the waiter, which stays in its deque. -/
def timeout (c : TcpConnection Data) (n : Nat) : TcpConnection Data :=
  { c with waiters := c.waiters.cancel n, permits := c.permits + 1 }

/-! ## 3. The machine -/

/-- What can happen to a connection. -/
inductive Event (Data : Type)
  /-- `send` is called. -/
  | send
      (eventName : String)
  | enter
      (eventName : String)
      (isClosing : Bool)
  /-- `connect_client` ends; `none` when it raises. -/
  | connect
      (eventName : String)
      (isClosing : Option Bool)
  /-- The server answers a request, in `_read`. -/
  | answer
      (request : Nat)
      (shardId : Int)
      (payload : Data)
  /-- The server answers a request that it cannot read, in `_send_error`. -/
  | sendError
      (request : Nat)
      (shardId : Int)
      (error : Data)
  | read
      (index : Nat)
  | readGarbled
  | timeout
      (request : Nat)

/-- The request with the number `n`, as long as it is not answered. -/
def findRequest (c : TcpConnection Data) (n : Nat) : Option Request :=
  c.requests.find? fun q => q.number = n

/-- A response is on its way. -/
def respond (c : TcpConnection Data) (q : Request) (r : Response Data) : TcpConnection Data :=
  { c with requests := c.requests.erase q, responses := c.responses ++ [r] }

/-- The machine of one connection. -/
def step (c : TcpConnection Data) : Event Data → Option (TcpConnection Data)
  | .send e => some { c with queued := c.queued ++ [e] }
  | .enter e isClosing =>
    if e ∈ c.queued ∧ 0 < c.permits then
      some ({ c with queued := c.queued.erase e }.enter e isClosing)
    else none
  | .connect e isClosing =>
    if e ∈ c.connecting then
      let c := { c with connecting := c.connecting.erase e }
      match isClosing with
      | none => some c.giveUp
      | some isClosing => some ({ c with connected := true }.write e isClosing)
    else none
  | .answer n shardId payload =>
    (c.findRequest n).map fun q => c.respond q ⟨n, some q.eventName, shardId, payload⟩
  | .sendError n shardId error =>
    (c.findRequest n).map fun q => c.respond q ⟨n, none, shardId, error⟩
  | .read i =>
    c.responses[i]?.map fun r => { c with responses := c.responses.eraseIdx i }.read r
  | .readGarbled => some c.readGarbled
  | .timeout n => if c.waiters.IsPending n then some (c.timeout n) else none

/-- All that an event can do. -/
def Does (c : TcpConnection Data) : Event Data → TcpConnection Data → Prop
  | .send e, c' => c' = { c with queued := c.queued ++ [e] }
  | .enter e isClosing, c' => (e ∈ c.queued ∧ 0 < c.permits) ∧
      c' = { c with queued := c.queued.erase e }.enter e isClosing
  | .connect e none, c' => e ∈ c.connecting ∧
      c' = { c with connecting := c.connecting.erase e }.giveUp
  | .connect e (some isClosing), c' => e ∈ c.connecting ∧
      c' = { c with connecting := c.connecting.erase e, connected := true }.write e isClosing
  | .answer n shardId payload, c' => ∃ q ∈ c.requests, q.number = n ∧
      c' = c.respond q ⟨n, some q.eventName, shardId, payload⟩
  | .sendError n shardId error, c' => ∃ q ∈ c.requests, q.number = n ∧
      c' = c.respond q ⟨n, none, shardId, error⟩
  | .read i, c' => ∃ r, c.responses[i]? = some r ∧
      c' = { c with responses := c.responses.eraseIdx i }.read r
  | .readGarbled, c' => c' = c.readGarbled
  | .timeout n, c' => c.waiters.IsPending n ∧ c' = c.timeout n

theorem of_findRequest {c : TcpConnection Data} {n : Nat} {q : Request}
    (h : c.findRequest n = some q) : q ∈ c.requests ∧ q.number = n :=
  ⟨List.mem_of_find?_eq_some h, by simpa using List.find?_some h⟩

theorem does_of_step {c c' : TcpConnection Data} {ev : Event Data} (h : c.step ev = some c') :
    c.Does ev c' := by
  unfold step at h
  cases ev with
  | send e | readGarbled => exact (Option.some.inj h).symm
  | enter e isClosing | timeout n =>
    simp only at h
    split at h
    · next hif => exact ⟨hif, (Option.some.inj h).symm⟩
    · cases h
  | connect e isClosing =>
    simp only at h
    split at h
    · next hif => cases isClosing <;> exact ⟨hif, (Option.some.inj h).symm⟩
    · cases h
  | answer n shardId payload | sendError n shardId error =>
    obtain ⟨q, hq, rfl⟩ := Option.map_eq_some_iff.mp h
    obtain ⟨hmem, hn⟩ := of_findRequest hq
    exact ⟨q, hmem, hn, rfl⟩
  | read i =>
    obtain ⟨r, hr, rfl⟩ := Option.map_eq_some_iff.mp h
    exact ⟨r, hr, rfl⟩

/-! ## 4. Matching -/

/-- The call that wrote the request `n` returns `r`. -/
def Returns (c : TcpConnection Data) (n : Nat) (r : Response Data) : Prop :=
  c.waiters.futures[n]? = some (.result (some r))

/-- Each call that returns a response returns the one to its own request. -/
def Matched (c : TcpConnection Data) : Prop := ∀ n r, c.Returns n r → r.request = n

/-- The waiter that `read` gives `r` to. -/
def receiver (c : TcpConnection Data) (r : Response Data) : Option Nat :=
  (r.eventName.or c.lastCall.getLast?).bind fun e => (c.waiters.of e).getLast?

/-- A response that is read now goes to its own call, or to one that is over. -/
def KeepsMatched (c : TcpConnection Data) : Event Data → Prop
  | .read i => ∀ r n, c.responses[i]? = some r → c.receiver r = some n →
      c.waiters.IsPending n → r.request = n
  | _ => True

/-- What is set as a result is for the waiter. -/
def IsFor (x : Option (Response Data)) (n : Nat) : Prop := ∀ r ∈ x, r.request = n

theorem matched_iff_own {c : TcpConnection Data} : c.Matched ↔ c.waiters.Own IsFor := by
  constructor
  · rintro h n x hx r rfl
    exact h n r hx
  · intro h n r hr
    exact h n (some r) hr r rfl

/-- Only the waiters count. -/
theorem Matched.of_waiters {c c' : TcpConnection Data} (h : c.Matched)
    (hw : c'.waiters = c.waiters) : c'.Matched := by
  rw [matched_iff_own] at h ⊢
  rwa [hw]

/-- **Delivering a result keeps the calls matched exactly if it is for the newest waiter, or that
one is done.** -/
theorem matched_deliver_iff {c : TcpConnection Data} (h : c.Matched) (e : String)
    (x : Option (Response Data)) :
    (c.deliver e x).Matched ↔ ∀ n, (c.waiters.of e).getLast? = some n →
      c.waiters.IsPending n → IsFor x n := by
  rw [matched_iff_own] at h ⊢
  exact h.giveNewest_iff e x

theorem matched_read_iff {c : TcpConnection Data} (h : c.Matched) (r : Response Data) :
    (c.read r).Matched ↔ ∀ n, c.receiver r = some n → c.waiters.IsPending n →
      r.request = n := by
  unfold read receiver
  cases he : r.eventName with
  | some e => simpa [IsFor] using matched_deliver_iff h e (some r)
  | none =>
    cases hl : c.lastCall.getLast? with
    | none => simpa using h
    | some e =>
      have h' : { c with lastCall := c.lastCall.dropLast }.Matched := h
      simpa [IsFor] using matched_deliver_iff h' e (some { r with eventName := some e })

theorem Matched.write {c : TcpConnection Data} (h : c.Matched) (e : String) (isClosing : Bool) :
    (c.write e isClosing).Matched := by
  unfold TcpConnection.write
  split
  · exact h
  · rw [matched_iff_own] at h ⊢
    exact h.enroll e

theorem Matched.readGarbled {c : TcpConnection Data} (h : c.Matched) : c.readGarbled.Matched := by
  unfold TcpConnection.readGarbled
  split
  · exact h
  · have h' : { c with lastCall := c.lastCall.dropLast }.Matched := h
    exact (matched_deliver_iff h' _ none).mpr fun _ _ _ => by simp [IsFor]

/-- **One step keeps the calls matched exactly if it is not the reading of a response whose event
has another call's waiter on top, still waiting.** -/
theorem matched_step_iff {c c' : TcpConnection Data} {ev : Event Data} (h : c.Matched)
    (hs : c.step ev = some c') : c'.Matched ↔ c.KeepsMatched ev := by
  have hdoes := does_of_step hs
  cases ev with
  | send e =>
    obtain rfl := hdoes
    exact iff_of_true h trivial
  | enter e isClosing =>
    obtain ⟨-, rfl⟩ := hdoes
    refine iff_of_true ?_ trivial
    unfold TcpConnection.enter
    simp only
    split
    · refine Matched.write ?_ e isClosing
      exact h.of_waiters rfl
    · exact h
  | connect e isClosing =>
    cases isClosing with
    | none =>
      obtain ⟨-, rfl⟩ := hdoes
      exact iff_of_true h trivial
    | some isClosing =>
      obtain ⟨-, rfl⟩ := hdoes
      refine iff_of_true (Matched.write ?_ e isClosing) trivial
      exact h.of_waiters rfl
  | answer n shardId payload | sendError n shardId error =>
    obtain ⟨q, -, -, rfl⟩ := hdoes
    exact iff_of_true h trivial
  | read i =>
    obtain ⟨r, hr, rfl⟩ := hdoes
    have h' : { c with responses := c.responses.eraseIdx i }.Matched := h
    rw [matched_read_iff h']
    simp only [KeepsMatched, hr, Option.some.injEq]
    constructor
    · rintro hall r' n rfl hn
      exact hall n hn
    · intro hall n hn
      exact hall r n rfl hn
  | readGarbled =>
    obtain rfl := hdoes
    exact iff_of_true h.readGarbled trivial
  | timeout n =>
    obtain ⟨-, rfl⟩ := hdoes
    refine iff_of_true ?_ trivial
    rw [matched_iff_own] at h ⊢
    exact h.cancel n

theorem matched_init (maxConcurrency : Nat) : (init maxConcurrency : TcpConnection Data).Matched :=
  matched_iff_own.mpr Waiters.own_empty

/-- **The calls get their own responses all along a run exactly if every response that is read
finds its own waiter on top, or one whose call is over.** -/
theorem responses_matched_iff (maxConcurrency : Nat) (evs : List (Event Data)) :
    Always step Matched (init maxConcurrency) evs ↔
      Along step (fun c ev _ => c.KeepsMatched ev) (init maxConcurrency) evs := by
  refine always_iff_along ?_ (matched_init maxConcurrency)
  intro c ev c' h hs
  exact matched_step_iff h hs

/-- Two calls of one event wait, and the first reply arrives: the second call returns it. -/
theorem reply_of_another_call :
    ¬ ∀ (maxConcurrency : Nat) (evs : List (Event Nat)),
      Always step Matched (init maxConcurrency) evs := by
  intro h
  have hlast := (h 2 [.send "job", .enter "job" false, .connect "job" (some false), .send "job",
    .enter "job" false, .answer 0 7 70, .answer 1 8 80, .read 0]).last rfl
  exact absurd (hlast 1 ⟨0, some "job", 7, 70⟩ rfl) (by decide)

/-! ## 5. One call of an event at a time -/

/-- Nobody waits for a reply to the event `e`, and none can come any more. -/
structure Quiet (c : TcpConnection Data) (e : String) : Prop where
  waiters : c.waiters.of e = []
  requests : ∀ q ∈ c.requests, q.eventName ≠ e
  responses : ∀ r ∈ c.responses, r.eventName ≠ some e

/-- The event name of the request that is written in a step. -/
def written (c : TcpConnection Data) : Event Data → Option String
  | .enter e false => if c.connected then some e else none
  | .connect e (some false) => some e
  | _ => none

/-- A request is written only while nothing of its event is under way, and each is answered
under its name. -/
structure Orderly (c : TcpConnection Data) (ev : Event Data) : Prop where
  quiet : ∀ e, c.written ev = some e → c.Quiet e
  named : ∀ n shardId error, ev ≠ .sendError n shardId error

/-- At most one request of each event is under way, and it is the one of the waiter. -/
structure Apart (c : TcpConnection Data) : Prop where
  waiters : ∀ e, ∀ n ∈ c.waiters.of e, c.waiters.of e = [n]
  requests : ∀ e, ∀ n ∈ c.waiters.of e, ∀ q ∈ c.requests, q.eventName = e → q.number = n
  responses : ∀ e, ∀ n ∈ c.waiters.of e, ∀ r ∈ c.responses, r.eventName = some e → r.request = n
  named : ∀ r ∈ c.responses, r.eventName ≠ none

theorem Apart.write {c : TcpConnection Data} (h : c.Apart) {e : String} (hq : c.Quiet e) :
    (c.write e false).Apart := by
  have hw (e' : String) : (c.write e false).waiters.of e' =
      if e' = e then [c.waiters.futures.length] else c.waiters.of e' := by
    have hof := c.waiters.of_enroll e e'
    rwa [hq.waiters, List.nil_append] at hof
  constructor
  · intro e' n hn
    rw [hw] at hn ⊢
    split at hn
    · next he => rw [if_pos he, List.mem_singleton.mp hn]
    · next he =>
      rw [if_neg he]
      exact h.waiters e' n hn
  · intro e' n hn q hmem hqe
    rw [hw] at hn
    rcases List.mem_append.mp hmem with hmem | hmem
    · split at hn
      · next he => exact absurd (hqe.trans he) (hq.requests q hmem)
      · exact h.requests e' n hn q hmem hqe
    · obtain rfl := List.mem_singleton.mp hmem
      obtain rfl : e = e' := hqe
      rw [if_pos rfl] at hn
      exact (List.mem_singleton.mp hn).symm
  · intro e' n hn r hmem hre
    rw [hw] at hn
    split at hn
    · next he => exact absurd (he ▸ hre) (hq.responses r hmem)
    · exact h.responses e' n hn r hmem hre
  · exact h.named

/-- Popping a waiter leaves the others. -/
theorem mem_of_deliver {c : TcpConnection Data} (h : c.Apart) {e e' : String}
    {x : Option (Response Data)} {n : Nat} (hn : n ∈ (c.deliver e x).waiters.of e') :
    n ∈ c.waiters.of e' ∧ (c.deliver e x).waiters.of e' = c.waiters.of e' := by
  change n ∈ (c.waiters.giveNewest e x).of e' at hn
  change _ ∧ (c.waiters.giveNewest e x).of e' = _
  rw [Waiters.of_giveNewest] at hn ⊢
  split at hn
  · next he =>
    have hm := h.waiters e n (List.dropLast_subset _ hn)
    simp [hm] at hn
  · next he => exact ⟨hn, if_neg he⟩

theorem Apart.deliver {c : TcpConnection Data} (h : c.Apart) (e : String)
    (x : Option (Response Data)) : (c.deliver e x).Apart := by
  constructor
  · intro e' n hn
    obtain ⟨hn, heq⟩ := mem_of_deliver h hn
    rw [heq]
    exact h.waiters e' n hn
  · intro e' n hn
    exact h.requests e' n (mem_of_deliver h hn).1
  · intro e' n hn
    exact h.responses e' n (mem_of_deliver h hn).1
  · exact h.named

/-- Fewer responses, and other bookkeeping. -/
theorem Apart.of_subset {c c' : TcpConnection Data} (h : c.Apart)
    (hw : ∀ e, c'.waiters.of e = c.waiters.of e) (hreq : c'.requests = c.requests)
    (hres : c'.responses ⊆ c.responses) : c'.Apart := by
  constructor
  · intro e n hn
    rw [hw] at hn ⊢
    exact h.waiters e n hn
  · intro e n hn
    rw [hw] at hn
    rw [hreq]
    exact h.requests e n hn
  · intro e n hn r hr
    rw [hw] at hn
    exact h.responses e n hn r (hres hr)
  · exact fun r hr => h.named r (hres hr)

theorem Apart.answer {c : TcpConnection Data} (h : c.Apart) {q : Request} (hq : q ∈ c.requests)
    (shardId : Int) (payload : Data) :
    (c.respond q ⟨q.number, some q.eventName, shardId, payload⟩).Apart := by
  constructor
  · exact h.waiters
  · intro e n hn p hp
    exact h.requests e n hn p (List.mem_of_mem_erase hp)
  · intro e n hn r hr hre
    rcases List.mem_append.mp hr with hr | hr
    · exact h.responses e n hn r hr hre
    · obtain rfl := List.mem_singleton.mp hr
      exact h.requests e n hn q hq (Option.some.inj hre)
  · intro r hr
    rcases List.mem_append.mp hr with hr | hr
    · exact h.named r hr
    · obtain rfl := List.mem_singleton.mp hr
      simp

theorem apart_step {c c' : TcpConnection Data} {ev : Event Data} (h : c.Apart)
    (hs : c.step ev = some c') (ho : c.Orderly ev) : c'.Apart := by
  have hdoes := does_of_step hs
  cases ev with
  | send e =>
    obtain rfl := hdoes
    exact h.of_subset (fun _ => rfl) rfl fun _ hr => hr
  | enter e isClosing =>
    obtain ⟨-, rfl⟩ := hdoes
    have hq := ho.quiet e
    unfold TcpConnection.enter
    cases hc : c.connected with
    | false =>
      exact h.of_subset (fun _ => rfl) rfl fun _ hr => hr
    | true =>
      cases isClosing with
      | true => exact h.of_subset (fun _ => rfl) rfl fun _ hr => hr
      | false =>
        have hquiet : c.Quiet e := hq (by simp [written, hc])
        refine Apart.write ?_ ⟨hquiet.waiters, hquiet.requests, hquiet.responses⟩
        exact h.of_subset (fun _ => rfl) rfl fun _ hr => hr
  | connect e isClosing =>
    match isClosing with
    | none | some true =>
      obtain ⟨-, rfl⟩ := hdoes
      exact h.of_subset (fun _ => rfl) rfl fun _ hr => hr
    | some false =>
      obtain ⟨-, rfl⟩ := hdoes
      have hquiet : c.Quiet e := ho.quiet e rfl
      refine Apart.write ?_ ⟨hquiet.waiters, hquiet.requests, hquiet.responses⟩
      exact h.of_subset (fun _ => rfl) rfl fun _ hr => hr
  | answer n shardId payload =>
    obtain ⟨q, hq, rfl, rfl⟩ := hdoes
    exact h.answer hq shardId payload
  | sendError n shardId error => exact absurd rfl (ho.named n shardId error)
  | read i =>
    obtain ⟨r, -, rfl⟩ := hdoes
    have h' (l : List String) :
        { c with responses := c.responses.eraseIdx i, lastCall := l }.Apart :=
      h.of_subset (fun _ => rfl) rfl (List.eraseIdx_subset ..)
    unfold TcpConnection.read
    split
    · exact (h' c.lastCall).deliver _ _
    · exact (h' _).deliver _ _
    · exact h' c.lastCall
  | readGarbled =>
    obtain rfl := hdoes
    unfold TcpConnection.readGarbled
    split
    · exact h
    · refine Apart.deliver ?_ _ _
      exact h.of_subset (fun _ => rfl) rfl fun _ hr => hr
  | timeout n =>
    obtain ⟨-, rfl⟩ := hdoes
    exact h.of_subset (fun _ => rfl) rfl fun _ hr => hr

/-- With one request of an event under way, its reply finds its waiter. -/
theorem Apart.keepsMatched {c : TcpConnection Data} (h : c.Apart) (ev : Event Data) :
    c.KeepsMatched ev := by
  cases ev with
  | read i =>
    intro r n hr hn _
    have hmem : r ∈ c.responses := List.mem_of_getElem? hr
    obtain ⟨e, he⟩ := Option.ne_none_iff_exists'.mp (h.named r hmem)
    unfold receiver at hn
    rw [he] at hn
    exact h.responses e n (List.mem_of_getLast? hn) r hmem he
  | _ => trivial

/-- **Calls that keep one request of an event under way at a time get their own responses.** -/
theorem matched_of_orderly (maxConcurrency : Nat) (evs : List (Event Data))
    (h : Along step (fun c ev _ => c.Orderly ev) (init maxConcurrency) evs) :
    Always step Matched (init maxConcurrency) evs := by
  have hboth : Always step (fun c : TcpConnection Data => c.Matched ∧ c.Apart)
      (init maxConcurrency) evs := by
    refine Along.always ?_ ?_ h
    · rintro c ev c' ⟨hm, ha⟩ hs ho
      exact ⟨(matched_step_iff hm hs).mpr (ha.keepsMatched ev), apart_step ha hs ho⟩
    · refine ⟨matched_init maxConcurrency, ?_⟩
      constructor <;> simp [init]
  exact hboth.mono fun _ hc => hc.1

end TcpConnection
end Hedra
