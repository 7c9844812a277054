/-
# Stream ids

All frames of a request are to carry one odd stream id, and the ids of the requests on a TCP
connection are to increase.  `connect` (`core/engines/types/http2/connection.py`) sets the id in
three places: in the connection, in its stream, from which the `DATA` frames take it, and in the
headers frame.  A new TCP connection sets it in the connection only.  So the first body goes out on
stream 0, the headers of a request on another TCP connection keep the last id of the one before, and
the next request falls back behind it.

* `ids_step`: one request keeps the ids exactly if it sets them right;
* `always_idsAgree_iff`: and so does a run of them.
-/
import Hedra.Http2.Session

namespace Hedra
namespace Http2

open Lib Machine

/-! ## 1. What the ids should be -/

/-- The frames carry one id, which is odd, and so not 0. -/
def OneId (frames : List Frame) : Prop := ∃ id : Int, id % 2 = 1 ∧ ∀ f ∈ frames, f.wireId = id

/-- The ids of the requests on this TCP connection. -/
structure Session.IdsAgree (s : Session) : Prop where
  one : ∀ frames ∈ s.requests, OneId frames
  increase : s.requests.Pairwise fun a b => ∀ f ∈ a, ∀ g ∈ b, f.wireId < g.wireId

/-- A request whose ids come out right.  Where `connect` makes a new TCP connection, `DATA` frames
can only be sent if the stream has the id of the headers frame; otherwise the next id has to be
larger than the last one, also without its first bit. -/
def Session.SetsIds (s : Session) (dnsAddress : String) (q : Request) : Prop :=
  if s.connection.Reconnects dnsAddress then
    (∀ data ∈ q.encodedData, s.receiving.pipe.Blocks s.receiving.stream data) ∨
      s.receiving.stream.streamId % 0x80000000 = s.currentId
  else s.currentId < (s.connection.streamId + 2) % 0x80000000

/-! ## 2. One step -/

/-- `connect`, on a new TCP connection. -/
theorem Connection.connect_of_reconnects {c : Connection} {stream : Stream} {dnsAddress : String}
    (h : c.Reconnects dnsAddress) :
    c.connect stream dnsAddress =
      ({ c with
          connected := true
          streamId := c.initId
          dnsAddress := some dnsAddress },
        { stream with frameBuffer := ⟨[], []⟩ }) := if_pos h

/-- `connect`, on the TCP connection there is. -/
theorem Connection.connect_of_connected {c : Connection} {stream : Stream} {dnsAddress : String}
    (h : ¬c.Reconnects dnsAddress) (hodd : c.streamId % 2 = 1) :
    c.connect stream dnsAddress =
      ({ c with streamId := c.streamId + 2 },
        { stream with
          frameBuffer := ⟨[], []⟩
          streamId := c.streamId + 2
          headersFrame := { stream.headersFrame with streamId := c.streamId + 2 } }) := by
  have hnext : ¬(c.streamId + 2) % 2 = 0 := by omega
  unfold connect
  simp only [if_neg h, if_neg hnext]

namespace Session

/-- How the ids in their three places hang together. -/
structure IdsWf (s : Session) : Prop where
  initId : s.connection.initId % 2 = 1
  headersId : s.currentId % 2 = 1
  streamId : s.connection.connected = true → s.connection.streamId % 2 = 1
  last : s.connection.connected = true → ∃ before last, s.requests = before ++ [last] ∧
    ∃ f ∈ last, f.wireId = s.currentId

variable {s s' : Session} {dnsAddress : String} {q : Request}

/-- The frames of one request, and the ids they carry. -/
theorem oneId_iff {headers : Frame} {data : List Frame} {streamId : Int}
    (hheaders : headers.wireId % 2 = 1) (hdata : ∀ f ∈ data, f.streamId = streamId) :
    OneId (headers :: data) ↔ data = [] ∨ streamId % 0x80000000 = headers.wireId := by
  constructor
  · rintro ⟨id, -, hall⟩
    refine (List.eq_nil_or_concat data).imp_right fun ⟨front, f, hf⟩ => ?_
    have hmem : f ∈ data := by simp [hf]
    rw [hall headers List.mem_cons_self, ← hall f (List.mem_cons_of_mem _ hmem), Frame.wireId,
      hdata f hmem]
  · intro h
    refine ⟨headers.wireId, hheaders, fun f hf => ?_⟩
    rcases List.mem_cons.mp hf with rfl | hf
    · rfl
    · rcases h with rfl | h
      · cases hf
      · rw [Frame.wireId, hdata f hf, h]

/-- No frame so far has a larger id than the current one. -/
theorem IdsWf.wireId_le (hwf : s.IdsWf) (hids : s.IdsAgree) (hconnected : s.connection.connected = true)
    {frames : List Frame} (hframes : frames ∈ s.requests) {f : Frame} (hf : f ∈ frames) :
    f.wireId ≤ s.currentId := by
  obtain ⟨before, last, hrequests, g, hg, hcurrent⟩ := hwf.last hconnected
  have hincrease := hids.increase
  rw [hrequests] at hframes hincrease
  rcases List.mem_append.mp hframes with hbefore | hlast
  · have hlt := (List.pairwise_append.mp hincrease).2.2 frames hbefore last (List.mem_singleton_self _)
    exact (hcurrent ▸ hlt f hf g hg).le
  · obtain rfl := List.mem_singleton.mp hlast
    obtain ⟨id, -, hid⟩ := hids.one frames (by rw [hrequests]; simp)
    rw [hid f hf, ← hcurrent, hid g hg]

/-- The frames that a request adds, and the ids they get from the stream that `connect` returns. -/
theorem requests_request (s : Session) (dnsAddress : String) (q : Request) :
    ∃ headers data, (s.request dnsAddress q).requests =
        (if s.connection.Reconnects dnsAddress then [] else s.requests) ++ [headers :: data] ∧
      (s.request dnsAddress q).currentId = headers.wireId ∧
      headers.streamId =
        (s.connection.connect s.receiving.stream dnsAddress).2.headersFrame.streamId ∧
      (∀ f ∈ data,
        f.streamId = (s.connection.connect s.receiving.stream dnsAddress).2.streamId) ∧
      (data = [] ↔ ∀ body ∈ q.encodedData,
        s.receiving.pipe.Blocks (s.connection.connect s.receiving.stream dnsAddress).2 body) := by
  obtain ⟨data, hframes, hid, hdata, hnil⟩ := Pipe.frames_of_sendRequest s.receiving.pipe
    (s.connection.connect s.receiving.stream dnsAddress).2 q
  exact ⟨_, data, congrArg (_ ++ [·]) hframes, rfl, hid, fun f hf => (hdata f hf).1, hnil⟩

/-- The ids agree with a request at the end if and only if they agree without it, it has one id, and
all ids before are smaller. -/
theorem idsAgree_concat_iff {old : List (List Frame)} {frames : List Frame}
    (hrequests : s.requests = old ++ [frames]) :
    s.IdsAgree ↔ ((∀ before ∈ old, OneId before) ∧
        old.Pairwise fun a b => ∀ f ∈ a, ∀ g ∈ b, f.wireId < g.wireId) ∧
      OneId frames ∧ ∀ before ∈ old, ∀ f ∈ before, ∀ g ∈ frames, f.wireId < g.wireId := by
  have hagree : s.IdsAgree ↔ (∀ frames ∈ s.requests, OneId frames) ∧
      s.requests.Pairwise fun a b => ∀ f ∈ a, ∀ g ∈ b, f.wireId < g.wireId :=
    ⟨fun h => ⟨h.one, h.increase⟩, fun h => ⟨h.1, h.2⟩⟩
  rw [hagree, hrequests, List.forall_mem_append, List.forall_mem_singleton, List.pairwise_append]
  simp only [List.mem_singleton, forall_eq, List.pairwise_singleton, true_and]
  exact and_and_and_comm

/-- A request on a new TCP connection. -/
theorem ids_request_of_reconnects (hwf : s.IdsWf) (h : s.connection.Reconnects dnsAddress) :
    (s.request dnsAddress q).IdsWf ∧
      ((s.request dnsAddress q).IdsAgree ↔ s.SetsIds dnsAddress q) := by
  obtain ⟨headers, data, hrequests, hcurrent, hid, hdata, hnil⟩ := s.requests_request dnsAddress q
  have hconnection : (s.request dnsAddress q).connection =
      (s.connection.connect s.receiving.stream dnsAddress).1 := rfl
  rw [Connection.connect_of_reconnects h] at hid hdata hnil hconnection
  rw [if_pos h] at hrequests
  have hwire : headers.wireId = s.currentId := congrArg (· % 0x80000000) hid
  have hodd : headers.wireId % 2 = 1 := by rw [hwire, hwf.headersId]
  constructor
  · refine ⟨?_, by rw [hcurrent, hodd], fun _ => ?_,
      fun _ => ⟨[], _, hrequests, headers, List.mem_cons_self, hcurrent.symm⟩⟩
    · rw [hconnection]
      exact hwf.initId
    · rw [hconnection]
      exact hwf.initId
  · have hone := oneId_iff hodd hdata
    rw [hnil, hwire] at hone
    rw [idsAgree_concat_iff hrequests, SetsIds, if_pos h]
    have hold : ((∀ before ∈ ([] : List (List Frame)), OneId before) ∧
        ([] : List (List Frame)).Pairwise fun a b => ∀ f ∈ a, ∀ g ∈ b, f.wireId < g.wireId) :=
      ⟨fun _ h => absurd h List.not_mem_nil, List.Pairwise.nil⟩
    rw [and_iff_right hold, and_iff_left fun _ h => absurd h List.not_mem_nil]
    exact hone

/-- A request on the same TCP connection: its frames have one id, which is the next one. -/
theorem ids_request_of_connected (hwf : s.IdsWf) (h : ¬s.connection.Reconnects dnsAddress) :
    (s.request dnsAddress q).IdsWf ∧ (s.IdsAgree →
      ((s.request dnsAddress q).IdsAgree ↔ s.SetsIds dnsAddress q)) := by
  have hconnected : s.connection.connected = true := Bool.not_eq_false _ ▸ fun hc => h (.inl hc)
  have hodd := hwf.streamId hconnected
  obtain ⟨headers, data, hrequests, hcurrent, hid, hdata, -⟩ := s.requests_request dnsAddress q
  have hconnection : (s.request dnsAddress q).connection =
      (s.connection.connect s.receiving.stream dnsAddress).1 := rfl
  rw [Connection.connect_of_connected h hodd] at hid hdata hconnection
  rw [if_neg h] at hrequests
  have hwire : headers.wireId = (s.connection.streamId + 2) % 0x80000000 :=
    congrArg (· % 0x80000000) hid
  have hwireOdd : headers.wireId % 2 = 1 := by omega
  have hone : OneId (headers :: data) := (oneId_iff hwireOdd hdata).mpr (.inr hwire.symm)
  constructor
  · refine ⟨?_, by rw [hcurrent, hwireOdd], fun _ => ?_,
      fun _ => ⟨_, _, hrequests, headers, List.mem_cons_self, hcurrent.symm⟩⟩
    · rw [hconnection]
      exact hwf.initId
    · rw [hconnection]
      simp only
      omega
  · intro hids
    rw [SetsIds, if_neg h, ← hwire, idsAgree_concat_iff hrequests,
      and_iff_right ⟨hids.one, hids.increase⟩, and_iff_right hone]
    constructor
    · intro hlt
      obtain ⟨before, last, hlast, f, hf, hcurrent'⟩ := hwf.last hconnected
      rw [← hcurrent']
      exact hlt last (by rw [hlast]; simp) f hf headers List.mem_cons_self
    · intro hlt before hbefore f hf g hg
      obtain ⟨_, _, hall⟩ := hone
      rw [hall g hg, ← hall headers List.mem_cons_self]
      exact (hwf.wireId_le hids hconnected hbefore hf).trans_lt hlt

/-- **A request keeps the ids as they should be if and only if it sets them right.** -/
theorem ids_request (hwf : s.IdsWf) :
    (s.request dnsAddress q).IdsWf ∧ (s.IdsAgree →
      ((s.request dnsAddress q).IdsAgree ↔ s.SetsIds dnsAddress q)) := by
  by_cases h : s.connection.Reconnects dnsAddress
  · exact (ids_request_of_reconnects hwf h).imp_right fun hiff _ => hiff
  · exact ids_request_of_connected hwf h

/-- A step of a response leaves the ids alone. -/
theorem ids_response {r : Receiving} {phase : Phase} {ledger : Ledger}
    (hframe : r.stream.headersFrame = s.receiving.stream.headersFrame) :
    ((s.IdsWf → (s.go phase ledger r).IdsWf) ∧ ((s.go phase ledger r).IdsAgree ↔ s.IdsAgree)) := by
  have hcurrent : (s.go phase ledger r).currentId = s.currentId := congrArg Frame.wireId hframe
  refine ⟨fun h => ⟨h.initId, by rw [hcurrent]; exact h.headersId, h.streamId, fun hc => ?_⟩,
    fun h => ⟨h.one, h.increase⟩, fun h => ⟨h.one, h.increase⟩⟩
  rw [hcurrent]
  exact h.last hc

end Session

/-! ## 3. Whole runs -/

namespace Session

variable {s s' : Session}

/-- The requests of a run that set their ids right. -/
def StepSetsIds (s : Session) : Event → Session → Prop
  | .request dnsAddress q, _ => s.SetsIds dnsAddress q
  | _, _ => True

instance (s : Session) : ∀ (ev : Event) (s' : Session), Decidable (s.StepSetsIds ev s')
  | .request _ _, _ => inferInstanceAs (Decidable (ite _ _ _))
  | .frame _, _ => isTrue trivial
  | .endRead _, _ => isTrue trivial

/-- **One step.** -/
theorem ids_step {ev : Event} (h : step s ev = some s') (hwf : s.IdsWf) :
    s'.IdsWf ∧ (s.IdsAgree → (s'.IdsAgree ↔ s.StepSetsIds ev s')) := by
  have hskip : ∀ {t : Session}, (s.IdsWf → t.IdsWf) ∧ (t.IdsAgree ↔ s.IdsAgree) →
      s.StepSetsIds ev t → t.IdsWf ∧ (s.IdsAgree → (t.IdsAgree ↔ s.StepSetsIds ev t)) :=
    fun ht hev => ⟨ht.1 hwf, fun hids => iff_of_true (ht.2.mpr hids) hev⟩
  rcases step_cases h with ⟨dnsAddress, q, rfl, -, rfl⟩ | ⟨f, r, rfl, -, hr, rfl⟩ |
    ⟨f, e, rfl, -, -, rfl⟩ | ⟨buffer, rfl, -, rfl⟩
  · -- a request
    exact ids_request hwf
  · -- a frame
    refine hskip (ids_response ?_) trivial
    rw [(Receiving.sameStream_receiveFrame hr).headersFrame, s.read_eq.2.1]
  · -- a frame that is raised on
    exact hskip ⟨fun h => ⟨h.initId, h.headersId, h.streamId, h.last⟩,
      fun h => ⟨h.one, h.increase⟩, fun h => ⟨h.one, h.increase⟩⟩ trivial
  · -- the end of a read
    refine hskip (ids_response ?_) trivial
    have hread : s.read.stream.headersFrame = s.receiving.stream.headersFrame :=
      congrArg Stream.headersFrame s.read_eq.2.1
    exact (Receiving.sameStream_finishEvents _ _).headersFrame.trans hread

/-- A connection that has just been made. -/
theorem ids_init {streamId : Int} {concurrency n : Nat} {resetConnection : Bool}
    {connection : Connection} {stream : Stream}
    (h : Connection.create streamId concurrency resetConnection = .ok (connection, stream)) :
    (init connection stream n).IdsWf ∧ (init connection stream n).IdsAgree := by
  obtain ⟨settingsData, -, h⟩ := bind_eq_ok_iff.mp h
  obtain ⟨rfl, rfl⟩ := Prod.mk.inj (Except.ok.inj h)
  have hodd : (if streamId % 2 = 0 then streamId + 1 else streamId) % 2 = 1 := by
    split <;> omega
  have hwire : ((if streamId % 2 = 0 then streamId + 1 else streamId) % 0x80000000) % 2 = 1 := by
    omega
  exact ⟨⟨hodd, hwire, fun h => (nomatch h), fun h => (nomatch h)⟩,
    ⟨fun frames hframes => absurd hframes List.not_mem_nil, List.Pairwise.nil⟩⟩

/-- **The ids of a connection are as they should be in all states of a run if and only if every
request of the run sets them right.** -/
theorem always_idsAgree_iff {streamId : Int} {concurrency n : Nat} {resetConnection : Bool}
    {connection : Connection} {stream : Stream}
    (h : Connection.create streamId concurrency resetConnection = .ok (connection, stream))
    (evs : List Event) :
    Always step IdsAgree (init connection stream n) evs ↔
      Along step StepSetsIds (init connection stream n) evs := by
  obtain ⟨hwf, hids⟩ := ids_init (n := n) h
  exact always_iff_along_of_invariant (J := IdsWf)
    (fun _ _ _ hs hagree hstep => ⟨(ids_step hstep hs).1, (ids_step hstep hs).2 hagree⟩) hwf hids

/-- A request without a body, and then one with a body: both as they should be. -/
theorem idsAgree_getPost : ∃ connection stream,
    Connection.create 7 1 false = .ok (connection, stream) ∧
      Always step IdsAgree (init connection stream 1)
        [.request "10.0.0.1" ⟨[0x82], none⟩, .request "10.0.0.1" ⟨[0x83], some [0x61]⟩] :=
  ⟨_, _, rfl, (@always_idsAgree_iff 7 1 1 false _ _ rfl _).mpr (by decide)⟩

/-- The first request has a body: its headers go out on stream 7, and the `DATA` frames on stream
0. -/
theorem not_idsAgree_post : ∃ connection stream,
    Connection.create 7 1 false = .ok (connection, stream) ∧
      ¬ Always step IdsAgree (init connection stream 1)
        [.request "10.0.0.1" ⟨[0x83], some [0x61]⟩] := by
  refine ⟨_, _, rfl, fun h => ?_⟩
  obtain ⟨id, -, hid⟩ := (h.2 _ rfl).one _ List.mem_cons_self
  have hheaders : (7 : Int) = id := hid _ List.mem_cons_self
  have hdata : (0 : Int) = id := hid _ (List.mem_cons_of_mem _ List.mem_cons_self)
  omega

end Session

end Http2
end Hedra
