/-
# What does a client get of a stream?

A server runs the handler of a stream and sends each message that it yields as a message of type
`response`.  On the client `read` does with it what it does with any response: it sets the result
of one waiter.  Nothing is put into `queue`, from which `stream` takes what it yields; only the
branches of `read` for the messages that ask for a stream write there, and those run on the
server.

Over TCP the first thing that `stream` does with the answer to 'stream_connect' is to pop from
that empty deque, which raises: every call ends with an error message.  Over UDP the loop over the
empty deque ends at once.  So a call yields what the handler yields over TCP never, and over UDP
only when the handler yields nothing and a response to some other call is taken for its answer.

The calls are `stream` of `distributed/connection/tcp/mercury_sync_tcp_connection.py` and of
`udp/mercury_sync_udp_connection.py`.

* `never_delivers`: over TCP no call delivers its stream;
* `delivers_iff`: over UDP exactly those that the last paragraph says;
* `streams_delivered_iff`: both.
-/
import Hedra.Connection.Udp

namespace Hedra

open Lib Lib.Machine

/-! ## 1. Calls of `stream` -/

/-- What a call of `stream` yields: a message that was received, or an error of its own. -/
inductive Yielded (Data : Type)
  | message
      (shardId : Int)
      (payload : Data)
  | error
      (text : String)
deriving DecidableEq

/-- The message, if it is one. -/
def Yielded.payload? {Data : Type} : Yielded Data → Option Data
  | .message _ payload => some payload
  | .error _ => none

/-- How far a call of `stream` is: it waits for the answer to its first message, or to its second
one, or it is over. -/
inductive StreamPhase
  | connecting
  | streaming
  | ended
deriving DecidableEq

/-- A call of `stream`.  `messages` is what the handler yields for it. -/
structure StreamCall (Data : Type) where
  eventName : String
  messages : List Data
  waiter : Option Nat
  phase : StreamPhase
  output : List (Yielded Data)
deriving DecidableEq

/-- The call has yielded what the handler yields. -/
def StreamCall.Delivers {Data : Type} (call : StreamCall Data) : Prop :=
  call.output.map Yielded.payload? = call.messages.map some

/-- A task of the server that answers the request of a waiter, with the messages that it has not
sent yet. -/
structure Serving (Data : Type) where
  request : Nat
  eventName : String
  left : List Data
deriving DecidableEq

variable {Data : Type}

theorem not_delivers_of_error {call : StreamCall Data} {text : String}
    (h : .error text ∈ call.output) : ¬ call.Delivers := by
  intro hd
  have hmem : none ∈ call.output.map Yielded.payload? := List.mem_map.mpr ⟨_, h, rfl⟩
  rw [show call.output.map _ = _ from hd] at hmem
  simp at hmem

/-! ## 2. Over TCP -/

/-- What `stream` finds in `_client_transports`. -/
inductive Transport
  | missing
  | closing
  | ready
deriving DecidableEq

/-- The client side of a `MercurySyncTCPConnection`, its calls of `stream`, and what is on its way
between it and the server.  The semaphore only makes a call start later, and is left out. -/
structure TcpStreams (Data : Type) where
  lastCall : List String
  /-- `_stream` -/
  stream : Bool
  /-- The ids and payloads in `queue`. -/
  queue : Dict String (List (Int × Data))
  waiters : Waiters (Option (Response Data))
  calls : List (StreamCall Data)
  serving : List (Serving Data)
  responses : List (Response Data)

namespace TcpStreams

/-- A fresh connection. -/
def init : TcpStreams Data where
  lastCall := []
  stream := false
  queue := Dict.empty
  waiters := Waiters.empty
  calls := []
  serving := []
  responses := []

/-- `queue[event_name]` -/
def queueOf (c : TcpStreams Data) (e : String) : List (Int × Data) := (c.queue.get? e).getD []

/-- A message is written, that the server answers with `answer`, and a waiter is created. -/
def request (c : TcpStreams Data) (e : String) (answer : List Data) : TcpStreams Data :=
  { c with
    waiters := c.waiters.enroll e
    serving := c.serving ++ [⟨c.waiters.futures.length, e, answer⟩] }

/-- The call `k` yields `out` and ends, which clears `queue`. -/
def finish (c : TcpStreams Data) (k : Nat) (out : List (Yielded Data)) : TcpStreams Data :=
  { c with
    queue := Dict.empty
    calls := c.calls.modify k fun call =>
      { call with phase := .ended, output := call.output ++ out } }

/-- The call `k` raises. -/
def fail (c : TcpStreams Data) (k : Nat) : TcpStreams Data :=
  c.finish k [.error "Request timed out."]

/-- A call is noted. -/
def addCall (c : TcpStreams Data) (call : StreamCall Data) : TcpStreams Data :=
  { c with calls := c.calls ++ [call] }

/-- `stream`, up to its first await.  It writes 'stream_connect', which the server answers with the
empty message `blank`, or 'stream' once `_stream` is set.  A transport that is closing makes it
yield an error, and then go on. -/
def startStream (c : TcpStreams Data) (blank : Data) (e : String) (messages : List Data)
    (transport : Transport) : TcpStreams Data :=
  let c := { c with lastCall := c.lastCall ++ [e] }
  let waiter := some c.waiters.futures.length
  let answer := if c.stream then messages else [blank]
  match transport with
  | .missing => (c.addCall ⟨e, messages, none, .connecting, []⟩).fail c.calls.length
  | .closing =>
    (c.addCall ⟨e, messages, waiter, .connecting, [.error "Transport closed."]⟩).request e answer
  | .ready => (c.addCall ⟨e, messages, waiter, .connecting, []⟩).request e answer

/-- The last part of `stream`: it takes from the end of `queue[event_name]` as long as there is
something. -/
def drain (c : TcpStreams Data) (k : Nat) (e : String) : TcpStreams Data :=
  c.finish k (if c.stream then (c.queueOf e).reverse.map fun p => .message p.1 p.2 else [])

/-- `stream`, after its first await.  `queue[event_name].pop()` raises on an empty deque. -/
def connected (c : TcpStreams Data) (k : Nat) (call : StreamCall Data) : TcpStreams Data :=
  if c.stream then c.drain k call.eventName
  else if c.queueOf call.eventName = [] then c.fail k
  else
    { c with
      queue := c.queue.set call.eventName (c.queueOf call.eventName).dropLast
      stream := true
      calls := c.calls.modify k fun call =>
        { call with phase := .streaming, waiter := some c.waiters.futures.length }
      }.request call.eventName call.messages

/-- `read`, of a message of type `response`, as in `TcpConnection.read`. -/
def read (c : TcpStreams Data) (r : Response Data) : TcpStreams Data :=
  match r.eventName, c.lastCall.getLast? with
  | some e, _ => { c with waiters := c.waiters.giveNewest e (some r) }
  | none, some e =>
    { c with
      lastCall := c.lastCall.dropLast
      waiters := c.waiters.giveNewest e (some { r with eventName := some e }) }
  | none, none => c

/-- `read`, of a chunk that does not decompress. -/
def readGarbled (c : TcpStreams Data) : TcpStreams Data :=
  match c.lastCall.getLast? with
  | none => c
  | some e =>
    { c with lastCall := c.lastCall.dropLast, waiters := c.waiters.giveNewest e none }

/-- `stream`, when the future that it waits for is done. -/
def resume (c : TcpStreams Data) (k : Nat) : Option (TcpStreams Data) :=
  c.calls[k]?.bind fun call =>
    call.waiter.bind fun n =>
      match call.phase, c.waiters.futures[n]? with
      | .connecting, some (.result _) => some (c.connected k call)
      | .streaming, some (.result _) => some (c.drain k call.eventName)
      | .connecting, some .cancelled | .streaming, some .cancelled => some (c.fail k)
      | _, _ => none

/-- What can happen to a connection. -/
inductive Event (Data : Type)
  /-- `stream` is called. -/
  | stream
      (eventName : String)
      (messages : List Data)
      (transport : Transport)
  /-- `send` is called. -/
  | send
      (eventName : String)
      (answer : Data)
  /-- A task of the server sends its next message. -/
  | serve
      (index : Nat)
      (shardId : Int)
  | read
      (index : Nat)
  | readGarbled
  | timeout
      (waiter : Nat)
  | resume
      (call : Nat)

/-- The machine of one connection. -/
def step (blank : Data) (c : TcpStreams Data) : Event Data → Option (TcpStreams Data)
  | .stream e messages transport => some (c.startStream blank e messages transport)
  | .send e answer => some ({ c with lastCall := c.lastCall ++ [e] }.request e [answer])
  | .serve i shardId =>
    match c.serving[i]? with
    | some ⟨n, e, m :: left⟩ =>
      some { c with
        serving := c.serving.set i ⟨n, e, left⟩
        responses := c.responses ++ [⟨n, some e, shardId, m⟩] }
    | _ => none
  | .read i => c.responses[i]?.map fun r => { c with responses := c.responses.eraseIdx i }.read r
  | .readGarbled => some c.readGarbled
  | .timeout n =>
    if c.waiters.IsPending n then some { c with waiters := c.waiters.cancel n } else none
  | .resume k => c.resume k

/-- Nothing is in `queue`, so no call gets as far as its second message, and those that are over
have yielded an error. -/
structure Failing (c : TcpStreams Data) : Prop where
  stream : c.stream = false
  queue : ∀ e, c.queueOf e = []
  phase : ∀ call ∈ c.calls, call.phase ≠ .streaming
  ended : ∀ call ∈ c.calls, call.phase = .ended → ∃ text, .error text ∈ call.output

/-- Only these parts count. -/
theorem Failing.of_eq {c c' : TcpStreams Data} (h : c.Failing) (hs : c'.stream = c.stream)
    (hq : c'.queue = c.queue) (hc : c'.calls = c.calls) : c'.Failing where
  stream := hs.trans h.stream
  queue e := by
    unfold queueOf
    rw [hq]
    exact h.queue e
  phase := hc ▸ h.phase
  ended := hc ▸ h.ended

theorem Failing.addCall {c : TcpStreams Data} (h : c.Failing) {call : StreamCall Data}
    (hc : call.phase = .connecting) : (c.addCall call).Failing where
  stream := h.stream
  queue := h.queue
  phase call' hmem := by
    rcases List.mem_append.mp hmem with hmem | hmem
    · exact h.phase call' hmem
    · obtain rfl := List.mem_singleton.mp hmem
      simp [hc]
  ended call' hmem := by
    rcases List.mem_append.mp hmem with hmem | hmem
    · exact h.ended call' hmem
    · obtain rfl := List.mem_singleton.mp hmem
      simp [hc]

theorem Failing.fail {c : TcpStreams Data} (h : c.Failing) (k : Nat) : (c.fail k).Failing where
  stream := h.stream
  queue _ := rfl
  phase call hmem := by
    obtain ⟨i, hi⟩ := List.mem_iff_getElem?.mp hmem
    simp only [TcpStreams.fail, finish, List.getElem?_modify] at hi
    obtain ⟨call', hcall', rfl⟩ := Option.map_eq_some_iff.mp hi
    split
    · simp
    · exact h.phase call' (List.mem_of_getElem? hcall')
  ended call hmem := by
    obtain ⟨i, hi⟩ := List.mem_iff_getElem?.mp hmem
    simp only [TcpStreams.fail, finish, List.getElem?_modify] at hi
    obtain ⟨call', hcall', rfl⟩ := Option.map_eq_some_iff.mp hi
    split
    · exact fun _ => ⟨"Request timed out.", by simp⟩
    · exact h.ended call' (List.mem_of_getElem? hcall')

theorem Failing.resume {c c' : TcpStreams Data} (h : c.Failing) {k : Nat}
    (hs : c.resume k = some c') : c'.Failing := by
  obtain ⟨call, hcall, hs⟩ := Option.bind_eq_some_iff.mp hs
  obtain ⟨n, -, hs⟩ := Option.bind_eq_some_iff.mp hs
  have hphase := h.phase call (List.mem_of_getElem? hcall)
  split at hs
  · -- the deque is empty, so `pop` raises
    obtain rfl := Option.some.inj hs
    simp only [connected, h.stream, h.queue, Bool.false_eq_true, if_false, if_true]
    exact h.fail k
  · next heq _ => exact absurd heq hphase
  · obtain rfl := Option.some.inj hs
    exact h.fail k
  · next heq _ => exact absurd heq hphase
  · cases hs

theorem failing_step {blank : Data} {c c' : TcpStreams Data} {ev : Event Data} (h : c.Failing)
    (hs : step blank c ev = some c') : c'.Failing := by
  cases ev with
  | stream e messages transport =>
    obtain rfl := Option.some.inj hs
    have h' : { c with lastCall := c.lastCall ++ [e] }.Failing := h.of_eq rfl rfl rfl
    unfold startStream
    cases transport with
    | missing => exact (h'.addCall rfl).fail _
    | closing | ready => exact Failing.of_eq (h'.addCall rfl) rfl rfl rfl
  | send e answer =>
    obtain rfl := Option.some.inj hs
    exact h.of_eq rfl rfl rfl
  | serve i shardId =>
    simp only [step] at hs
    split at hs
    · obtain rfl := Option.some.inj hs
      exact h.of_eq rfl rfl rfl
    · cases hs
  | read i =>
    obtain ⟨r, -, rfl⟩ := Option.map_eq_some_iff.mp hs
    unfold TcpStreams.read
    split <;> exact h.of_eq rfl rfl rfl
  | readGarbled =>
    obtain rfl := Option.some.inj hs
    unfold TcpStreams.readGarbled
    split
    · exact h
    · exact h.of_eq rfl rfl rfl
  | timeout n =>
    simp only [step] at hs
    split at hs
    · obtain rfl := Option.some.inj hs
      exact h.of_eq rfl rfl rfl
    · cases hs
  | resume k => exact h.resume hs

/-- **Over TCP no call delivers its stream**, whatever the handler yields. -/
theorem never_delivers {blank : Data} {evs : List (Event Data)} {c : TcpStreams Data}
    (h : run (step blank) init evs = some c) {call : StreamCall Data} (hc : call ∈ c.calls)
    (he : call.phase = .ended) : ¬ call.Delivers := by
  have h₀ : (init : TcpStreams Data).Failing := by constructor <;> simp [init, queueOf]
  have hall := invariant_of_run (fun _ _ _ => failing_step) h₀ h
  obtain ⟨text, ht⟩ := hall.ended call hc he
  exact not_delivers_of_error ht

end TcpStreams

/-! ## 3. Over UDP -/

/-- The client side of a `MercurySyncUDPConnection`, its calls of `stream`, and what is on its way
between it and the server. -/
structure UdpStreams (Data : Type) where
  queue : Dict String (List (Int × Data))
  waiters : Waiters (Datagram Data)
  calls : List (StreamCall Data)
  serving : List (Serving Data)
  datagrams : List (Datagram Data)
  /-- The tasks of `_receive_response` that have no waiter yet. -/
  receiving : List (Datagram Data)

namespace UdpStreams

/-- A fresh connection. -/
def init : UdpStreams Data where
  queue := Dict.empty
  waiters := Waiters.empty
  calls := []
  serving := []
  datagrams := []
  receiving := []

/-- `queue[event_name]` -/
def queueOf (c : UdpStreams Data) (e : String) : List (Int × Data) := (c.queue.get? e).getD []

/-- A message is sent, that the server answers with `answer`, and a waiter is created. -/
def request (c : UdpStreams Data) (e : String) (answer : List Data) : UdpStreams Data :=
  { c with
    waiters := c.waiters.enroll e
    serving := c.serving ++ [⟨c.waiters.futures.length, e, answer⟩] }

/-- A call is noted. -/
def addCall (c : UdpStreams Data) (call : StreamCall Data) : UdpStreams Data :=
  { c with calls := c.calls ++ [call] }

/-- `stream`, up to its first await; `sendto` may raise. -/
def startStream (c : UdpStreams Data) (e : String) (messages : List Data) (raises : Bool) :
    UdpStreams Data :=
  if raises then c.addCall ⟨e, messages, none, .ended, [.error "Request timed out."]⟩
  else
    (c.addCall ⟨e, messages, some c.waiters.futures.length, .connecting, []⟩).request e messages

/-- The call `k` yields `out` and ends. -/
def finish (c : UdpStreams Data) (k : Nat) (out : List (Yielded Data)) : UdpStreams Data :=
  { c with
    calls := c.calls.modify k fun call =>
      { call with phase := .ended, output := call.output ++ out } }

/-- `stream`, when the future that it waits for is done: it yields what is in
`queue[event_name]`. -/
def resume (c : UdpStreams Data) (k : Nat) : Option (UdpStreams Data) :=
  c.calls[k]?.bind fun call =>
    call.waiter.bind fun n =>
      match call.phase, c.waiters.futures[n]? with
      | .connecting, some (.result _) =>
        some ({ c with queue := Dict.empty }.finish k
          ((c.queueOf call.eventName).map fun p : Int × Data => .message p.1 p.2))
      | .connecting, some .cancelled => some (c.finish k [.error "Request timed out."])
      | _, _ => none

/-- What can happen to a connection. -/
inductive Event (Data : Type)
  /-- `stream` is called. -/
  | stream
      (eventName : String)
      (messages : List Data)
      (raises : Bool)
  /-- `send` is called. -/
  | send
      (eventName : String)
      (answer : Data)
  /-- A task of the server sends its next message. -/
  | serve
      (index : Nat)
      (shardId : Int)
  | read
      (index : Nat)
  /-- A task of `_receive_response` gets a waiter. -/
  | receive
      (index : Nat)
  | timeout
      (waiter : Nat)
  | resume
      (call : Nat)

/-- The machine of one connection. -/
def step (c : UdpStreams Data) : Event Data → Option (UdpStreams Data)
  | .stream e messages raises => some (c.startStream e messages raises)
  | .send e answer => some (c.request e [answer])
  | .serve i shardId =>
    match c.serving[i]? with
    | some ⟨n, e, m :: left⟩ =>
      some { c with
        serving := c.serving.set i ⟨n, e, left⟩
        datagrams := c.datagrams ++ [⟨n, e, shardId, m⟩] }
    | _ => none
  | .read i =>
    c.datagrams[i]?.map fun r =>
      { c with datagrams := c.datagrams.eraseIdx i, receiving := c.receiving ++ [r] }
  | .receive i =>
    c.receiving[i]?.bind fun r =>
      if c.waiters.of r.eventName = [] then none
      else some { c with
        receiving := c.receiving.eraseIdx i
        waiters := c.waiters.giveOldest r.eventName r }
  | .timeout n =>
    if c.waiters.IsPending n then some { c with waiters := c.waiters.cancel n } else none
  | .resume k => c.resume k

/-- The waiter of the call has been given a response to another call. -/
def AnsweredForAnother (c : UdpStreams Data) (call : StreamCall Data) : Prop :=
  ∃ n r, call.waiter = some n ∧ c.waiters.futures[n]? = some (.result r) ∧ r.request ≠ n

/-- The handler of the request `n` yields something. -/
structure Answers (c : UdpStreams Data) (n : Nat) : Prop where
  lt : n < c.waiters.futures.length
  messages : ∀ call ∈ c.calls, call.waiter = some n → call.messages ≠ []

/-- How a call of `stream` that is over has ended: with nothing, after an answer, or with an error,
after none. -/
def Over (c : UdpStreams Data) (call : StreamCall Data) : Prop :=
  (call.output = [] ∧ ∃ n r, call.waiter = some n ∧ c.waiters.Done n (.result r)) ∨
    (∃ text, call.output = [.error text]) ∧ ∀ n, call.waiter = some n →
      c.waiters.Done n .cancelled

/-- What holds of every connection. -/
structure Wf (c : UdpStreams Data) : Prop where
  queue : ∀ e, c.queueOf e = []
  waiter : ∀ call ∈ c.calls, ∀ n, call.waiter = some n → n < c.waiters.futures.length
  calls : ∀ call ∈ c.calls, if call.phase = .ended then c.Over call else call.output = []
  serving : ∀ s ∈ c.serving, s.left ≠ [] → c.Answers s.request
  datagrams : ∀ r ∈ c.datagrams, c.Answers r.request
  receiving : ∀ r ∈ c.receiving, c.Answers r.request
  results : c.waiters.Own fun r _ => c.Answers r.request

/-- What a step leaves: futures that are done, and the calls of the waiters that there were. -/
structure Extends (c c' : UdpStreams Data) : Prop where
  length : c.waiters.futures.length ≤ c'.waiters.futures.length
  done : ∀ n f, c.waiters.Done n f → c'.waiters.Done n f
  calls : ∀ call' ∈ c'.calls, ∀ n < c.waiters.futures.length, call'.waiter = some n →
    ∃ call ∈ c.calls, call.waiter = some n ∧ call.messages = call'.messages

theorem Answers.extend {c c' : UdpStreams Data} {n : Nat} (h : c.Answers n) (he : c.Extends c') :
    c'.Answers n where
  lt := Nat.lt_of_lt_of_le h.lt he.length
  messages call' hmem hw := by
    obtain ⟨call, hcall, hwaiter, hm⟩ := he.calls call' hmem n h.lt hw
    exact hm ▸ h.messages call hcall hwaiter

theorem Over.extend {c c' : UdpStreams Data} {call : StreamCall Data} (h : c.Over call)
    (he : c.Extends c') : c'.Over call := by
  rcases h with ⟨ho, n, r, hw, hd⟩ | ⟨ho, hd⟩
  · exact Or.inl ⟨ho, n, r, hw, he.done n _ hd⟩
  · exact Or.inr ⟨ho, fun n hw => he.done n _ (hd n hw)⟩

/-- The calls stay as they are. -/
theorem extends_of_calls_eq {c c' : UdpStreams Data} (hc : c'.calls = c.calls)
    (hl : c.waiters.futures.length ≤ c'.waiters.futures.length)
    (hd : ∀ n f, c.waiters.Done n f → c'.waiters.Done n f) : c.Extends c' where
  length := hl
  done := hd
  calls call hmem _ _ hw := ⟨call, hc ▸ hmem, hw, rfl⟩

/-- What a step that extends the connection has left to show. -/
theorem Wf.extend {c c' : UdpStreams Data} (h : c.Wf) (he : c.Extends c')
    (hq : ∀ e, c'.queueOf e = [])
    (hw : ∀ call ∈ c'.calls, call ∈ c.calls ∨
      ((∀ n, call.waiter = some n → n < c'.waiters.futures.length) ∧
        if call.phase = .ended then c'.Over call else call.output = []))
    (hs : ∀ s ∈ c'.serving, s.left ≠ [] → (∃ t ∈ c.serving, t.left ≠ [] ∧ t.request = s.request) ∨
      c'.Answers s.request)
    (hd : ∀ r ∈ c'.datagrams, r ∈ c.datagrams ∨ c'.Answers r.request)
    (hr : ∀ r ∈ c'.receiving, r ∈ c.receiving ∨ c'.Answers r.request)
    (hres : c'.waiters.Own fun r _ => c'.Answers r.request) : c'.Wf where
  queue := hq
  waiter call hmem n hn := by
    rcases hw call hmem with hold | ⟨hnew, -⟩
    · exact Nat.lt_of_lt_of_le (h.waiter call hold n hn) he.length
    · exact hnew n hn
  calls call hmem := by
    rcases hw call hmem with hold | ⟨-, hnew⟩
    · have hcall := h.calls call hold
      split at hcall
      · next hp => exact (if_pos hp).mpr (hcall.extend he)
      · next hp => exact (if_neg hp).mpr hcall
    · exact hnew
  serving s hmem hleft := by
    rcases hs s hmem hleft with ⟨t, ht, hne, heq⟩ | hnew
    · exact heq ▸ (h.serving t ht hne).extend he
    · exact hnew
  datagrams r hmem := (hd r hmem).elim (fun hold => (h.datagrams r hold).extend he) id
  receiving r hmem := (hr r hmem).elim (fun hold => (h.receiving r hold).extend he) id
  results := hres

theorem extends_request (c : UdpStreams Data) (e : String) (answer : List Data) :
    c.Extends (c.request e answer) := by
  refine extends_of_calls_eq rfl ?_ fun n f hd => hd.enroll e
  simp [request, Waiters.enroll]

theorem Wf.request {c : UdpStreams Data} (h : c.Wf) (e : String) {answer : List Data}
    (ha : answer ≠ [] → (c.request e answer).Answers c.waiters.futures.length) :
    (c.request e answer).Wf := by
  have he := extends_request c e answer
  refine h.extend he h.queue (fun _ => Or.inl) ?_ (fun _ => Or.inl) (fun _ => Or.inl) ?_
  · intro s hs hleft
    rcases List.mem_append.mp hs with hs | hs
    · exact Or.inl ⟨s, hs, hleft, rfl⟩
    · obtain rfl := List.mem_singleton.mp hs
      exact Or.inr (ha hleft)
  · exact (h.results.mono fun _ _ hr => hr.extend he).enroll e

theorem length_lt_request (c : UdpStreams Data) (e : String) (answer : List Data) :
    c.waiters.futures.length < (c.request e answer).waiters.futures.length := by
  simp [UdpStreams.request, Waiters.enroll]

/-- The waiter of a call of `send` is not one of a call of `stream`. -/
theorem Wf.send {c : UdpStreams Data} (h : c.Wf) (e : String) (answer : Data) :
    (c.request e [answer]).Wf := by
  refine h.request e fun _ => ⟨length_lt_request c e [answer], fun call hmem hw => ?_⟩
  exact absurd (h.waiter call hmem _ hw) (Nat.lt_irrefl _)

theorem Wf.addCall_ended {c : UdpStreams Data} (h : c.Wf) (e : String) (messages : List Data)
    (text : String) : (c.addCall ⟨e, messages, none, .ended, [.error text]⟩).Wf := by
  have he : c.Extends (c.addCall ⟨e, messages, none, .ended, [.error text]⟩) := by
    refine ⟨Nat.le_refl _, fun _ _ => id, fun call hmem n _ hw => ?_⟩
    rcases List.mem_append.mp hmem with hmem | hmem
    · exact ⟨call, hmem, hw, rfl⟩
    · obtain rfl := List.mem_singleton.mp hmem
      cases hw
  refine h.extend he h.queue ?_ (fun s hs hleft => Or.inl ⟨s, hs, hleft, rfl⟩) (fun _ => Or.inl)
    (fun _ => Or.inl) (h.results.mono fun _ _ hr => hr.extend he)
  intro call hmem
  rcases List.mem_append.mp hmem with hmem | hmem
  · exact Or.inl hmem
  · obtain rfl := List.mem_singleton.mp hmem
    refine Or.inr ⟨by simp, (if_pos rfl).mpr (Or.inr ⟨⟨text, rfl⟩, by simp⟩)⟩

theorem Wf.startStream {c : UdpStreams Data} (h : c.Wf) (e : String) (messages : List Data)
    (raises : Bool) : (c.startStream e messages raises).Wf := by
  unfold UdpStreams.startStream
  split
  · exact h.addCall_ended e messages _
  · set call : StreamCall Data := ⟨e, messages, some c.waiters.futures.length, .connecting, []⟩
    have hlt := length_lt_request (c.addCall call) e messages
    have hreq := extends_request c e messages
    have he : c.Extends ((c.addCall call).request e messages) := by
      refine ⟨hreq.length, hreq.done, fun call' hmem n hn hw => ?_⟩
      rcases List.mem_append.mp hmem with hmem | hmem
      · exact ⟨call', hmem, hw, rfl⟩
      · obtain rfl := List.mem_singleton.mp hmem
        obtain rfl := Option.some.inj hw
        exact absurd hn (Nat.lt_irrefl _)
    refine h.extend he h.queue ?_ ?_ (fun _ => Or.inl) (fun _ => Or.inl)
      ((h.results.mono fun _ _ hr => hr.extend he).enroll e)
    · intro call' hmem
      rcases List.mem_append.mp hmem with hmem | hmem
      · exact Or.inl hmem
      · obtain rfl := List.mem_singleton.mp hmem
        refine Or.inr ⟨fun n hn => ?_, rfl⟩
        obtain rfl := Option.some.inj hn
        exact hlt
    · intro s hs hleft
      rcases List.mem_append.mp hs with hs | hs
      · exact Or.inl ⟨s, hs, hleft, rfl⟩
      · obtain rfl := List.mem_singleton.mp hs
        -- the handler yields what is left to send
        refine Or.inr ⟨hlt, fun call' hmem hw => ?_⟩
        rcases List.mem_append.mp hmem with hmem | hmem
        · exact absurd (h.waiter call' hmem _ hw) (Nat.lt_irrefl _)
        · obtain rfl := List.mem_singleton.mp hmem
          exact hleft

theorem extends_finish (c : UdpStreams Data) (k : Nat) (out : List (Yielded Data)) :
    c.Extends (c.finish k out) := by
  refine ⟨Nat.le_refl _, fun _ _ => id, fun call hmem n _ hw => ?_⟩
  obtain ⟨i, hi⟩ := List.mem_iff_getElem?.mp hmem
  simp only [finish, List.getElem?_modify] at hi
  obtain ⟨call', hcall', rfl⟩ := Option.map_eq_some_iff.mp hi
  refine ⟨call', List.mem_of_getElem? hcall', ?_, ?_⟩
  · split at hw <;> exact hw
  · split <;> rfl

theorem Wf.finish {c : UdpStreams Data} (h : c.Wf) {k : Nat} {call : StreamCall Data}
    (hk : c.calls[k]? = some call) {out : List (Yielded Data)}
    (ho : c.Over { call with phase := .ended, output := call.output ++ out }) :
    (c.finish k out).Wf := by
  have he := extends_finish c k out
  refine h.extend he h.queue ?_ (fun s hs hleft => Or.inl ⟨s, hs, hleft, rfl⟩) (fun _ => Or.inl)
    (fun _ => Or.inl) (h.results.mono fun _ _ hr => hr.extend he)
  intro call' hmem
  obtain ⟨i, hi⟩ := List.mem_iff_getElem?.mp hmem
  simp only [UdpStreams.finish, List.getElem?_modify] at hi
  obtain ⟨call₀, hcall₀, rfl⟩ := Option.map_eq_some_iff.mp hi
  split
  · next hki =>
    obtain rfl : call = call₀ := by rwa [← hki, hk, Option.some.injEq] at hcall₀
    exact Or.inr ⟨h.waiter call (List.mem_of_getElem? hk), (if_pos rfl).mpr (ho.extend he)⟩
  · exact Or.inl (List.mem_of_getElem? hcall₀)

theorem Wf.clearQueue {c : UdpStreams Data} (h : c.Wf) : { c with queue := Dict.empty }.Wf := by
  have he : c.Extends { c with queue := Dict.empty } :=
    extends_of_calls_eq rfl (Nat.le_refl _) fun _ _ => id
  refine h.extend he (fun _ => rfl) (fun _ => Or.inl) ?_ (fun _ => Or.inl) (fun _ => Or.inl)
    (h.results.mono fun _ _ hr => hr.extend he)
  exact fun s hs hleft => Or.inl ⟨s, hs, hleft, rfl⟩

theorem Wf.resume {c c' : UdpStreams Data} (h : c.Wf) {k : Nat} (hs : c.resume k = some c') :
    c'.Wf := by
  obtain ⟨call, hcall, hs⟩ := Option.bind_eq_some_iff.mp hs
  obtain ⟨n, hn, hs⟩ := Option.bind_eq_some_iff.mp hs
  have hout := h.calls call (List.mem_of_getElem? hcall)
  split at hs
  · next r hphase hf =>
    obtain rfl := Option.some.inj hs
    rw [if_neg (by simp [hphase])] at hout
    refine h.clearQueue.finish hcall (Or.inl ⟨?_, n, r, hn, hf, by simp⟩)
    simp [hout, h.queue]
  · next hphase hf =>
    obtain rfl := Option.some.inj hs
    rw [if_neg (by simp [hphase])] at hout
    refine h.finish hcall (Or.inr ⟨⟨_, by simp [hout]; rfl⟩, fun m hm => ?_⟩)
    obtain rfl : n = m := by rwa [hn, Option.some.injEq] at hm
    exact ⟨hf, by simp⟩
  · cases hs

theorem wf_step {c c' : UdpStreams Data} {ev : Event Data} (h : c.Wf) (hs : c.step ev = some c') :
    c'.Wf := by
  cases ev with
  | stream e messages raises =>
    obtain rfl := Option.some.inj hs
    exact h.startStream e messages raises
  | send e answer =>
    obtain rfl := Option.some.inj hs
    exact h.send e answer
  | serve i shardId =>
    simp only [step] at hs
    split at hs
    · next n e m left hi =>
      obtain rfl := Option.some.inj hs
      have hmem : ⟨n, e, m :: left⟩ ∈ c.serving := List.mem_of_getElem? hi
      have he : c.Extends { c with
          serving := c.serving.set i ⟨n, e, left⟩
          datagrams := c.datagrams ++ [⟨n, e, shardId, m⟩] } :=
        extends_of_calls_eq rfl (Nat.le_refl _) fun _ _ => id
      refine h.extend he h.queue (fun _ => Or.inl) ?_ ?_ (fun _ => Or.inl)
        (h.results.mono fun _ _ hr => hr.extend he)
      · intro s hs hleft
        rcases List.mem_or_eq_of_mem_set hs with hs | rfl
        · exact Or.inl ⟨s, hs, hleft, rfl⟩
        · exact Or.inl ⟨_, hmem, by simp, rfl⟩
      · intro r hr
        rcases List.mem_append.mp hr with hr | hr
        · exact Or.inl hr
        · obtain rfl := List.mem_singleton.mp hr
          exact Or.inr ((h.serving _ hmem (by simp)).extend he)
    · cases hs
  | read i =>
    obtain ⟨r, hr, rfl⟩ := Option.map_eq_some_iff.mp hs
    have he : c.Extends { c with
        datagrams := c.datagrams.eraseIdx i, receiving := c.receiving ++ [r] } :=
      extends_of_calls_eq rfl (Nat.le_refl _) fun _ _ => id
    refine h.extend he h.queue (fun _ => Or.inl) (fun s hs hleft => Or.inl ⟨s, hs, hleft, rfl⟩)
      (fun r' hr' => Or.inl (List.eraseIdx_subset hr')) ?_
      (h.results.mono fun _ _ hr => hr.extend he)
    intro r' hr'
    rcases List.mem_append.mp hr' with hr' | hr'
    · exact Or.inl hr'
    · obtain rfl := List.mem_singleton.mp hr'
      exact Or.inr ((h.datagrams _ (List.mem_of_getElem? hr)).extend he)
  | receive i =>
    obtain ⟨r, hr, hs⟩ := Option.bind_eq_some_iff.mp hs
    split at hs
    · cases hs
    · obtain rfl := Option.some.inj hs
      have he : c.Extends { c with
          receiving := c.receiving.eraseIdx i
          waiters := c.waiters.giveOldest r.eventName r } :=
        extends_of_calls_eq rfl (by simp) fun _ _ hd => hd.giveOldest r.eventName r
      refine h.extend he h.queue (fun _ => Or.inl) (fun s hs hleft => Or.inl ⟨s, hs, hleft, rfl⟩)
        (fun _ => Or.inl) (fun r' hr' => Or.inl (List.eraseIdx_subset hr')) ?_
      refine ((h.results.mono fun _ _ hr => hr.extend he).giveOldest_iff _ _).mpr ?_
      intro n _ _
      exact (h.receiving r (List.mem_of_getElem? hr)).extend he
  | timeout n =>
    simp only [step] at hs
    split at hs
    · obtain rfl := Option.some.inj hs
      have he : c.Extends { c with waiters := c.waiters.cancel n } :=
        extends_of_calls_eq rfl (by simp [Waiters.cancel]) fun _ _ hd => hd.cancel n
      exact h.extend he h.queue (fun _ => Or.inl) (fun s hs hleft => Or.inl ⟨s, hs, hleft, rfl⟩)
        (fun _ => Or.inl) (fun _ => Or.inl) ((h.results.mono fun _ _ hr => hr.extend he).cancel n)
    · cases hs
  | resume k => exact h.resume hs

/-- **Over UDP a call delivers its stream exactly if there is nothing in it, and a response to
another call was taken for its answer.** -/
theorem delivers_iff {evs : List (Event Data)} {c : UdpStreams Data} (h : run step init evs = some c)
    {call : StreamCall Data} (hc : call ∈ c.calls) (he : call.phase = .ended) :
    call.Delivers ↔ call.messages = [] ∧ c.AnsweredForAnother call := by
  have h₀ : (init : UdpStreams Data).Wf := by
    constructor <;> simp [init, queueOf, Waiters.own_empty]
  have hwf : c.Wf := invariant_of_run (fun _ _ _ => wf_step) h₀ h
  have hover : c.Over call := by simpa [he] using hwf.calls call hc
  rcases hover with ⟨ho, n, r, hn, hd⟩ | ⟨⟨text, ho⟩, hd⟩
  · have hdel : call.Delivers ↔ call.messages = [] := by
      rw [StreamCall.Delivers, ho, List.map_nil, eq_comm, List.map_eq_nil_iff]
    rw [hdel]
    refine ⟨fun hm => ⟨hm, n, r, hn, hd.get, ?_⟩, fun hm => hm.1⟩
    rintro rfl
    exact (hwf.results r.request r hd.get).messages call hc hn hm
  · have herror : .error text ∈ call.output := by simp [ho]
    refine iff_of_false (not_delivers_of_error herror) ?_
    rintro ⟨-, n, r, hn, hget, -⟩
    have hcancelled := (hd n hn).get
    rw [hget] at hcancelled
    cases hcancelled

end UdpStreams

/-! ## 4. Both -/

/-- **A call of `stream` that ends has yielded what the handler yields over TCP never, and over UDP
exactly if that is nothing and a response to another call was taken for its answer.** -/
theorem streams_delivered_iff (blank : Data) :
    (∀ evs (c : TcpStreams Data), run (TcpStreams.step blank) TcpStreams.init evs = some c →
      ∀ call ∈ c.calls, call.phase = .ended → ¬ call.Delivers) ∧
    ∀ evs (c : UdpStreams Data), run UdpStreams.step UdpStreams.init evs = some c →
      ∀ call ∈ c.calls, call.phase = .ended →
        (call.Delivers ↔ call.messages = [] ∧ c.AnsweredForAnother call) :=
  ⟨fun _ _ h _ => TcpStreams.never_delivers h, fun _ _ h _ => UdpStreams.delivers_iff h⟩

/-- The handler yields one message, nothing is lost, and over TCP the client gets an error, over
UDP nothing. -/
theorem one_message_stream :
    ¬ (∀ evs (c : TcpStreams Nat), run (TcpStreams.step 0) TcpStreams.init evs = some c →
      ∀ call ∈ c.calls, call.phase = .ended → call.Delivers) ∧
    ¬ ∀ evs (c : UdpStreams Nat), run UdpStreams.step UdpStreams.init evs = some c →
      ∀ call ∈ c.calls, call.phase = .ended → call.Delivers := by
  constructor
  · intro h
    have hcall := h [.stream "ticks" [5] .ready, .serve 0 7, .read 0, .resume 0] _ rfl
      ⟨"ticks", [5], some 0, .ended, [.error "Request timed out."]⟩ (by decide) rfl
    exact absurd hcall (by unfold StreamCall.Delivers; decide)
  · intro h
    have hcall := h [.stream "ticks" [5] false, .serve 0 7, .read 0, .receive 0, .resume 0] _ rfl
      ⟨"ticks", [5], some 0, .ended, []⟩ (by decide) rfl
    exact absurd hcall (by unfold StreamCall.Delivers; decide)

end Hedra
