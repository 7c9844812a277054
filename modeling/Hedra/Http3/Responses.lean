/-
# Responses

A request (`core/engines/types/common/protocols/udp/quic_protocol.py`) waits for the response on its
stream.  Its waiter gets the headers and the whole body with the last event of the stream that
carries data, whatever the chunks were and whenever the header block got ready; but the event of the
headers completes nothing, even when it says that the stream has ended.  So a response without a
body is complete only when its end arrives by itself, after the headers.

* `before_run`: where the stream is, after any run before the end;
* `final_run`: the request is done, or it never will be, after any run behind the end;
* `Exchange.completed_iff`: when a request gets its response.
-/
import Hedra.Http3.RequestStream
import Hedra.Http3.Views

namespace Hedra
namespace Http3

open Lib

variable {C : Codec} {id : Nat} {block : Bytes} {headers : Headers} {body : List Bytes}

/-! ## 1. Events and the response -/

/-- The event of the headers, when the stream goes on. -/
def headersOf (id : Nat) (headers : Headers) : HeadersReceived := ⟨headers, none, id, false⟩

theorem deliver_pieces (stream : H3Stream) : ∀ (parts : List Bytes) {v : View}
    {c : ResponseFrameCollection}, v.response = some c →
    (parts.map (piece stream false)).foldl View.deliver v =
      { v with response := some { c with body := c.body ++ parts.flatten } }
  | [], v, c, h => by
    rw [List.map_nil, List.foldl_nil, List.flatten_nil, List.append_nil, ← h]
  | data :: parts, v, c, h => by
    have hfirst : v.deliver (piece stream false data) =
        { v with response := some { c with body := c.body ++ data } } := by
      unfold piece View.deliver
      rw [h]
      rfl
    rw [List.map_cons, List.foldl_cons, hfirst, deliver_pieces stream parts rfl, List.flatten_cons,
      List.append_assoc]

theorem deliver_end (stream : H3Stream) (parts : List Bytes) (last : Bytes) {v : View}
    {c : ResponseFrameCollection} (h : v.response = some c) (hw : v.waiter = some .pending) :
    (parts.map (piece stream false) ++ [piece stream true last]).foldl View.deliver v =
      { v with
        response := none
        waiter := some (.done { c with body := c.body ++ (parts.flatten ++ last) }) } := by
  rw [List.foldl_append, deliver_pieces stream parts h, List.foldl_cons, List.foldl_nil,
    ← List.append_assoc]
  unfold piece View.deliver
  dsimp only
  rw [if_pos ⟨rfl, hw⟩]
  rfl

theorem deliver_headers (stream : H3Stream) (streamEnded : Bool) {v : View}
    (h : v.response = none) :
    v.deliver (headersEvent stream headers streamEnded) =
      { v with
        response := some ⟨some ⟨headers, stream.pushId, stream.streamId, streamEnded⟩, []⟩ } := by
  unfold headersEvent View.deliver
  rw [h]
  rfl

/-! ## 2. Before the end -/

/-- The stream of a request whose waiter waits. -/
structure Waiting (id : Nat) (v : View) : Prop where
  streamId : v.stream.streamId = id
  pushId : v.stream.pushId = none
  sessionId : v.stream.sessionId = none
  waiter : v.waiter = some .pending

variable (C block headers body) in
/-- How far a response has come, and what is to come. -/
inductive Phase (id : Nat) (future : Bytes) (v : View) : Prop
  | headers (blocked : v.stream.blocked = false) (state : v.stream.headersRecvState = .initial)
      (inHeaders : InHeaders C block body v.stream (v.stream.buffer ++ future))
      (more : future ≠ []) (pending : v.pending = none) (response : v.response = none)
  | blocked (blocked : v.stream.blocked = true) (state : v.stream.headersRecvState = .initial)
      (size : v.stream.frameSize = none)
      (frames : DataFrames C body (v.stream.buffer ++ future)) (pending : v.pending = some block)
      (response : v.response = none)
  | body {r c} (blocked : v.stream.blocked = false)
      (state : v.stream.headersRecvState = .afterHeaders) (pending : v.pending = none)
      (inBody : InBody C v.stream (v.stream.buffer ++ future) r) (response : v.response = some c)
      (frame : c.headersFrame = some (headersOf id headers)) (bytes : c.body ++ r = body.flatten)
      (empty : body = [] → v.stream.buffer ++ future = [])

variable (C block headers body) in
/-- A response that has not ended. -/
structure Before (id : Nat) (future : Bytes) (v : View) : Prop where
  waiting : Waiting id v
  ended : v.stream.ended = false
  phase : Phase C block headers body id future v

theorem Waiting.of_same {v : View} {stream' : H3Stream} (h : Waiting id v)
    (hsame : SameStream v.stream stream') (pending : Option Bytes)
    (response : Option ResponseFrameCollection) :
    Waiting id ⟨stream', pending, response, v.waiter⟩ :=
  ⟨hsame.streamId.trans h.streamId, hsame.pushId.trans h.pushId,
    hsame.sessionId.trans h.sessionId, h.waiter⟩

/-- Bytes of the stream before its end. -/
theorem SameStream.extend (stream : H3Stream) (data : Bytes) :
    SameStream stream (stream.extend data false) :=
  ⟨rfl, rfl, Bool.or_false _, rfl, rfl, rfl⟩

theorem SameStream.setState {stream stream' : H3Stream} (h : SameStream stream stream')
    (state : HeadersState) :
    SameStream { stream with headersRecvState := state }
      { stream' with headersRecvState := state } :=
  ⟨h.streamId, h.blocked, h.ended, rfl, h.pushId, h.sessionId⟩

theorem InHeaders.congr {stream stream' : H3Stream} {u : Bytes}
    (h : InHeaders C block body stream u) (hsize : stream'.frameSize = stream.frameSize)
    (htype : stream'.frameType = stream.frameType) : InHeaders C block body stream' u := by
  cases h with
  | before size response => exact .before (hsize.trans size) response
  | within type size frames => exact .within (htype.trans type) (hsize.trans size) frames

/-- Before the headers the stream is read by the loop. -/
theorem receive_inHeaders {stream : H3Stream} (h : Reading stream) {data u : Bytes}
    (hin : InHeaders C block body stream u) (decoder : Decoder) (streamEnded : Bool)
    (hne : streamEnded = false ∨ stream.buffer ++ data ≠ []) :
    receiveRequestOrPushData C decoder stream data streamEnded =
      readFrames C streamEnded ((stream.buffer ++ data).length + 2) decoder
        (stream.extend data streamEnded) (stream.buffer ++ data) := by
  rw [h.receive_eq]
  dsimp only
  rw [if_neg, if_neg]
  · rfl
  · rintro ⟨hended, hnil⟩
    rcases hne with h | h
    · rw [h] at hended
      cases hended
    · exact h hnil
  · rintro ⟨htype, size, hsize, -⟩
    cases hin with
    | before hnone response =>
      have hsize : stream.frameSize = some size := hsize
      rw [hnone] at hsize
      cases hsize
    | within type hsome frames =>
      have htype : stream.frameType = some FrameType.data := htype
      rw [type] at htype
      exact absurd htype (by decide)

theorem fold_headers (stream : H3Stream) (streamEnded : Bool) {v : View}
    (hresponse : v.response = none) (events : List H3Event) :
    (headersEvent stream headers streamEnded :: events).foldl View.deliver v =
      events.foldl View.deliver { v with
        response := some ⟨some ⟨headers, stream.pushId, stream.streamId, streamEnded⟩, []⟩ } := by
  rw [List.foldl_cons, deliver_headers stream streamEnded hresponse]

/-- The stream after its headers, when there is more to come. -/
theorem before_body {v : View} {stream' : H3Stream} {parts : List Bytes} {future r' : Bytes}
    (h : Waiting id v) (hended : v.stream.ended = false) (hblocked : v.stream.blocked = false)
    (hsame : SameStream { v.stream with headersRecvState := .afterHeaders } stream')
    {c : ResponseFrameCollection} (hresponse : v.response = some c)
    (hframe : c.headersFrame = some (headersOf id headers))
    (hbody : InBody C stream' (stream'.buffer ++ future) r')
    (hbytes : c.body ++ (parts.flatten ++ r') = body.flatten)
    (hempty : body = [] → stream'.buffer ++ future = []) (stream : H3Stream) :
    Before C block headers body id future
      ((parts.map (piece stream false)).foldl View.deliver
        { v with stream := stream', pending := none }) := by
  rw [deliver_pieces stream parts (v := { v with stream := stream', pending := none }) hresponse]
  refine ⟨?_, hsame.ended.trans hended, .body (hsame.blocked.trans hblocked) hsame.state rfl hbody
    rfl hframe ?_ hempty⟩
  · exact ⟨hsame.streamId.trans h.streamId, hsame.pushId.trans h.pushId,
      hsame.sessionId.trans h.sessionId, h.waiter⟩
  · rw [List.append_assoc]
    exact hbytes

/-- The stream after its headers, with the first of what comes after them. -/
theorem before_fresh {v : View} (hw : Waiting id v) (hended : v.stream.ended = false)
    {stream' : H3Stream} (hsame : SameStream
      { v.stream with headersRecvState := .afterHeaders, blocked := false } stream')
    {rest future : Bytes} (hframes : DataFrames C body (rest ++ future))
    (hlen : stream'.buffer.length ≤ rest.length) {r' : Bytes}
    (hbody : InBody C stream' (stream'.buffer ++ future) r') {parts : List Bytes}
    (hr' : body.flatten = parts.flatten ++ r') (stream : H3Stream) :
    Before C block headers body id future ((parts.map (piece stream false)).foldl View.deliver
      { v with
        stream := stream'
        pending := none
        response := some ⟨some (headersOf id headers), []⟩ }) := by
  refine before_body (v := { v with
    stream := { v.stream with blocked := false }
    response := some ⟨some (headersOf id headers), []⟩ })
    ⟨hw.streamId, hw.pushId, hw.sessionId, hw.waiter⟩ hended rfl hsame rfl rfl hbody hr'.symm
    (fun hnil => ?_) stream
  obtain ⟨hrest, hfuture⟩ := List.append_eq_nil_iff.mp (hframes.eq_nil_iff.mpr hnil)
  rw [hrest, List.length_nil] at hlen
  rw [hfuture, List.eq_nil_of_length_eq_zero (Nat.le_zero.mp hlen), List.append_nil]

/-- The events of the headers and of what follows. -/
theorem after_headers {v : View} {r : Received} {events : List H3Event}
    {streamEnded : Bool} (h : Waiting id v) (hresponse : v.response = none)
    (hevents : r.events = headersEvent v.stream headers streamEnded :: events) :
    v.after r = events.foldl View.deliver
      { v with
        stream := r.stream
        pending := r.decoder.pending.get? id
        response := some ⟨some ⟨headers, none, id, streamEnded⟩, []⟩ } := by
  have hresponse' : View.response { v with
      stream := r.stream, pending := r.decoder.pending.get? v.stream.streamId } = none := hresponse
  rw [View.after, hevents, fold_headers v.stream streamEnded hresponse', h.streamId, h.pushId]

/-- What is received while the blocks that wait stay the same. -/
theorem after_same {decoder : Decoder} {v : View} {r : Received} (hw : Waiting id v)
    (hpending : decoder.pending.get? id = v.pending) (hdecoder : r.decoder = decoder) :
    v.after r =
      r.events.foldl View.deliver { v with stream := r.stream, pending := v.pending } := by
  rw [View.after, hdecoder, hw.streamId, hpending]

/-- The block of the headers has to wait. -/
theorem after_blocked {v : View} (hw : Waiting id v) (decoder : Decoder) (stream' : H3Stream) :
    v.after ⟨{ decoder with pending := decoder.pending.set id block }, stream', [], none⟩ =
      { v with stream := stream', pending := some block } := by
  have hpending : (decoder.pending.set id block).get? id = some block := Dict.get?_set_self _ _ _
  rw [View.after, List.foldl_nil, hw.streamId, hpending]

/-- The block of the headers is there as a whole, and it can be decoded: what follows is read, too. -/
theorem before_ready
    (hvalid : validateHeaders responsePseudoHeaders responsePseudoHeaders headers = none)
    {decoder : Decoder} {v : View} (hw : Waiting id v) (hended : v.stream.ended = false)
    (hblocked : v.stream.blocked = false) (hresponse : v.response = none)
    (hpending : decoder.pending.get? id = none) (hready : C.ready decoder.fed block = true)
    (hdecode : C.decode decoder.fed block = some headers) {stream stream₁ : H3Stream}
    (hstream : SameStream v.stream stream) {future rest' : Bytes} {fuel : Nat} {result : Received}
    (hpass : HeaderPass C block body stream future decoder fuel false result stream₁ rest')
    (hlen : rest'.length < fuel) :
    Before C block headers body id future (v.after result) := by
  obtain ⟨hsame, hsize, hframes, hhandled, -⟩ := hpass
  have hended₁ : stream.ended = false := hstream.ended.trans hended
  have hbody₁ : InBody C { stream₁ with headersRecvState := .afterHeaders } (rest' ++ future)
      body.flatten := .between hsize hframes
  obtain ⟨stream', parts, r', hsame', hlen', hbody', hr', hread⟩ := readFrames_body false decoder
    hlen hbody₁ rfl (hsame.ended.trans hended₁)
  have hevent : headersEvent stream headers false = headersEvent v.stream headers false := by
    unfold headersEvent
    rw [hstream.pushId, hstream.streamId]
  rw [hhandled headers hvalid hready hdecode, hread, hended₁, Bool.false_and, hevent]
  rw [after_headers hw hresponse rfl]
  have hafter' : SameStream
      { v.stream with headersRecvState := .afterHeaders, blocked := false } stream' := by
    have h := ((hstream.trans hsame).setState .afterHeaders).trans hsame'
    exact ⟨h.streamId, h.blocked.trans hblocked, h.ended, h.state, h.pushId, h.sessionId⟩
  change Before C block headers body id future ((parts.map _).foldl View.deliver
    { v with
      stream := stream'
      pending := decoder.pending.get? id
      response := some ⟨some (headersOf id headers), []⟩ })
  rw [hpending]
  exact before_fresh hw hended hafter' hframes hlen' hbody' hr' _

/-- Data before the end, within the headers. -/
theorem before_receive_headers
    (hvalid : validateHeaders responsePseudoHeaders responsePseudoHeaders headers = none)
    {decoder : Decoder} {v : View} (hpending : decoder.pending.get? id = v.pending)
    (hdecode : C.ready decoder.fed block → C.decode decoder.fed block = some headers)
    {data future : Bytes} (hw : Waiting id v) (hended : v.stream.ended = false)
    (blocked : v.stream.blocked = false) (state : v.stream.headersRecvState = .initial)
    (inHeaders : InHeaders C block body v.stream (v.stream.buffer ++ (data ++ future)))
    (more : data ++ future ≠ []) (pending : v.pending = none) (response : v.response = none) :
    Before C block headers body id future
      (v.after (receiveRequestOrPushData C decoder v.stream data false)) := by
  have hreading : Reading v.stream := ⟨blocked, hw.sessionId⟩
  have hext := SameStream.extend v.stream data
  rw [receive_inHeaders hreading inHeaders decoder false (.inl rfl)]
  by_cases hnil : v.stream.buffer ++ data = []
  · obtain ⟨hbuffer, hdata⟩ := List.append_eq_nil_iff.mp hnil
    rw [hnil, readFrames_nil, after_same hw hpending rfl]
    have hsame : SameStream v.stream { v.stream.extend data false with buffer := [] } :=
      hext.trans ⟨rfl, rfl, rfl, rfl, rfl, rfl⟩
    refine ⟨hw.of_same hsame _ _, hext.ended.trans hended,
      .headers blocked state ?_ ?_ pending response⟩
    · rw [hdata, hbuffer] at inHeaders
      exact inHeaders.congr rfl rfl
    · rwa [hdata] at more
  · rw [← List.append_assoc] at inHeaders
    have hin₁ : InHeaders C block body (v.stream.extend data false)
        (v.stream.buffer ++ data ++ future) := inHeaders.congr rfl rfl
    rcases readFrames_headers hnil (hext.state.trans state) hin₁ decoder
        ((v.stream.buffer ++ data).length + 1) false with
      ⟨hfuture, stream', hsame, hin, hread⟩ | ⟨stream₁, rest', hlen, hpass⟩
    · have hsame := hext.trans hsame
      rw [hread, after_same hw hpending rfl]
      exact ⟨hw.of_same hsame _ _, hsame.ended.trans hended,
        .headers (hsame.blocked.trans blocked) (hsame.state.trans state) hin hfuture pending
          response⟩
    · cases hready : C.ready decoder.fed block with
      | true =>
        exact before_ready hvalid hw hended blocked response (hpending.trans pending) hready
          (hdecode hready) hext hpass (by omega)
      | false =>
        obtain ⟨hsame, hsize, hframes, -, hblock⟩ := hpass
        have hsame := hext.trans hsame
        rw [hblock (by rw [hready]; exact Bool.false_ne_true), hext.streamId.trans hw.streamId,
          after_blocked hw]
        have hwaiting := hw.of_same hsame (some block) none
        exact ⟨⟨hwaiting.streamId, hwaiting.pushId, hwaiting.sessionId, hw.waiter⟩,
          hsame.ended.trans hended,
          .blocked rfl (hsame.state.trans state) hsize hframes rfl response⟩

/-- **Data before the end.** -/
theorem before_receive
    (hvalid : validateHeaders responsePseudoHeaders responsePseudoHeaders headers = none)
    {decoder : Decoder} {v : View} (hpending : decoder.pending.get? id = v.pending)
    (hdecode : C.ready decoder.fed block → C.decode decoder.fed block = some headers)
    {data future : Bytes} (h : Before C block headers body id (data ++ future) v) :
    Before C block headers body id future
      (v.after (receiveRequestOrPushData C decoder v.stream data false)) := by
  obtain ⟨hw, hended, hphase⟩ := h
  cases hphase with
  | headers blocked state inHeaders more pending response =>
    exact before_receive_headers hvalid hpending hdecode hw hended blocked state inHeaders more
      pending response
  | blocked blocked state size frames pending response =>
    have hread : receiveRequestOrPushData C decoder v.stream data false =
        ⟨decoder, v.stream.extend data false, [], none⟩ := if_pos blocked
    have hext := SameStream.extend v.stream data
    rw [hread, after_same hw hpending rfl]
    refine ⟨hw.of_same hext _ _, hext.ended.trans hended,
      .blocked blocked state size ?_ pending response⟩
    rwa [← List.append_assoc] at frames
  | @body r c blocked state pending inBody response frame bytes empty =>
    rw [← List.append_assoc] at inBody empty
    obtain ⟨stream', parts, r', hsame, hlen, hbody', rfl, hread⟩ :=
      receive_body ⟨blocked, hw.sessionId⟩ state hended inBody decoder
    rw [hread, after_same hw hpending rfl, pending]
    refine before_body hw hended blocked ?_ response frame hbody' bytes (fun hnil => ?_) v.stream
    · exact ⟨hsame.streamId, hsame.blocked, hsame.ended, hsame.state.trans state, hsame.pushId,
        hsame.sessionId⟩
    · have hnone := empty hnil
      have hlen0 := congrArg List.length hnone
      rw [List.length_append, List.length_nil] at hlen0
      refine List.append_eq_nil_iff.mpr ⟨List.eq_nil_of_length_eq_zero (by omega), ?_⟩
      exact List.eq_nil_of_length_eq_zero (by omega)

/-! ## 3. The end -/

variable (C block headers body) in
/-- What becomes of a response whose end is there: whether its waiter gets it depends on `cond`. -/
inductive Final (id : Nat) (cond : Prop) (v : View) : Prop
  | blocked (waiting : Waiting id v) (ended : v.stream.ended = true)
      (blocked : v.stream.blocked = true) (state : v.stream.headersRecvState = .initial)
      (size : v.stream.frameSize = none) (frames : DataFrames C body v.stream.buffer)
      (pending : v.pending = some block) (response : v.response = none)
      (decides : cond ↔ body ≠ [])
  | complete (blocked : v.stream.blocked = false) (pending : v.pending = none)
      (waiter : v.waiter = some (.done ⟨some (headersOf id headers), body.flatten⟩)) (holds : cond)
  | stuck (blocked : v.stream.blocked = false) (pending : v.pending = none)
      (waiter : v.waiter = some .pending) (fails : ¬ cond)

/-- The last event of the stream carries data. -/
theorem final_complete {v : View} {stream' : H3Stream} {parts : List Bytes} {last : Bytes}
    {cond : Prop} (hcond : cond) (hw : v.waiter = some .pending) (hblocked : stream'.blocked = false)
    {c : ResponseFrameCollection} (hresponse : v.response = some c)
    (hframe : c.headersFrame = some (headersOf id headers))
    (hbytes : c.body ++ (parts.flatten ++ last) = body.flatten) (stream : H3Stream) :
    Final C block headers body id cond
      ((parts.map (piece stream false) ++ [piece stream true last]).foldl View.deliver
        { v with stream := stream', pending := none }) := by
  rw [deliver_end stream parts last (v := { v with stream := stream', pending := none }) hresponse
    hw, hbytes, hframe]
  exact .complete hblocked rfl rfl hcond

/-- The block of the headers is there as a whole with the end, and it can be decoded. -/
theorem final_ready
    (hvalid : validateHeaders responsePseudoHeaders responsePseudoHeaders headers = none)
    {decoder : Decoder} {v : View} (hw : Waiting id v) (hblocked : v.stream.blocked = false)
    (hresponse : v.response = none) (hpending : decoder.pending.get? id = none)
    (hready : C.ready decoder.fed block = true)
    (hdecode : C.decode decoder.fed block = some headers) {data : Bytes} {stream₁ : H3Stream}
    {rest' : Bytes} {fuel : Nat} {result : Received} {cond : Prop} (hdecides : cond ↔ body ≠ [])
    (hpass : HeaderPass C block body (v.stream.extend data true) [] decoder fuel true result
      stream₁ rest') (hlen : rest'.length < fuel) :
    Final C block headers body id cond (v.after result) := by
  obtain ⟨hsame, hsize, hframes, hhandled, -⟩ := hpass
  rw [List.append_nil] at hframes
  have hended : (v.stream.extend data true).ended = true := Bool.or_true _
  have hblocked₁ : stream₁.blocked = false := hsame.blocked.trans hblocked
  rw [hhandled headers hvalid hready hdecode, hended, Bool.true_and]
  by_cases hrest : rest' = []
  · have hbody := hframes.eq_nil_iff.mp hrest
    rw [hrest, readFrames_nil, List.isEmpty_nil, after_headers hw hresponse rfl]
    exact .stuck hblocked₁ hpending hw.waiter fun hcond => hdecides.mp hcond hbody
  · have hbody₁ : InBody C { stream₁ with headersRecvState := .afterHeaders } rest'
        body.flatten := .between hsize hframes
    obtain ⟨stream', parts, last, hsame', -, hr', hread⟩ := readFrames_end true decoder hlen hrest
      hbody₁ rfl (hsame.ended.trans hended)
    rw [hread, List.isEmpty_eq_false_iff.mpr hrest, after_headers hw hresponse rfl]
    change Final C block headers body id _ ((parts.map _ ++ [_]).foldl View.deliver
      { v with
        stream := stream'
        pending := decoder.pending.get? id
        response := some ⟨some (headersOf id headers), []⟩ })
    rw [hpending]
    have hcond : body ≠ [] := fun hnil => hrest (hframes.eq_nil_iff.mpr hnil)
    exact final_complete (v := { v with
      response := some ⟨some (headersOf id headers), []⟩ }) (hdecides.mpr hcond) hw.waiter
      (hsame'.blocked.trans hblocked₁) rfl rfl hr'.symm
      { stream₁ with headersRecvState := .afterHeaders }

/-- The end, within the headers: all that is still to come comes with it. -/
theorem final_receive_headers
    (hvalid : validateHeaders responsePseudoHeaders responsePseudoHeaders headers = none)
    {decoder : Decoder} {v : View} (hpending : decoder.pending.get? id = v.pending)
    (hdecode : C.ready decoder.fed block → C.decode decoder.fed block = some headers)
    {data : Bytes} (hw : Waiting id v) (blocked : v.stream.blocked = false)
    (state : v.stream.headersRecvState = .initial)
    (inHeaders : InHeaders C block body v.stream (v.stream.buffer ++ data)) (more : data ≠ [])
    (pending : v.pending = none) (response : v.response = none) :
    Final C block headers body id (body ≠ [] ∨ data = [] ∧ v.stream.blocked = false)
      (v.after (receiveRequestOrPushData C decoder v.stream data true)) := by
  have hreading : Reading v.stream := ⟨blocked, hw.sessionId⟩
  have hended : (v.stream.extend data true).ended = true := Bool.or_true _
  have hne : v.stream.buffer ++ data ≠ [] := List.append_ne_nil_of_right_ne_nil _ more
  have hdecides : (body ≠ [] ∨ data = [] ∧ v.stream.blocked = false) ↔ body ≠ [] :=
    or_iff_left fun hdata => more hdata.1
  rw [receive_inHeaders hreading inHeaders decoder true (.inr hne)]
  have hin₁ : InHeaders C block body (v.stream.extend data true)
      (v.stream.buffer ++ data ++ []) := by
    rw [List.append_nil]
    exact inHeaders.congr rfl rfl
  have hstate₁ : (v.stream.extend data true).headersRecvState = .initial := state
  rcases readFrames_headers hne hstate₁ hin₁ decoder ((v.stream.buffer ++ data).length + 1) true
    with ⟨hfuture, -⟩ | ⟨stream₁, rest', hlen, hpass⟩
  · exact absurd rfl hfuture
  · cases hready : C.ready decoder.fed block with
    | true =>
      exact final_ready hvalid hw blocked response (hpending.trans pending) hready
        (hdecode hready) hdecides hpass (by omega)
    | false =>
      obtain ⟨hsame, hsize, hframes, -, hblock⟩ := hpass
      rw [List.append_nil] at hframes
      rw [hblock (by rw [hready]; exact Bool.false_ne_true)]
      have hid : (v.stream.extend data true).streamId = id := hw.streamId
      rw [hid, after_blocked hw]
      refine .blocked ⟨?_, ?_, ?_, hw.waiter⟩ (hsame.ended.trans hended) rfl
        (hsame.state.trans state) hsize hframes rfl response hdecides
      · exact hsame.streamId.trans hw.streamId
      · exact hsame.pushId.trans hw.pushId
      · exact hsame.sessionId.trans hw.sessionId

/-- **The end of the stream, with data or alone.** -/
theorem final_receive
    (hvalid : validateHeaders responsePseudoHeaders responsePseudoHeaders headers = none)
    {decoder : Decoder} {v : View} (hpending : decoder.pending.get? id = v.pending)
    (hdecode : C.ready decoder.fed block → C.decode decoder.fed block = some headers)
    {data : Bytes} (h : Before C block headers body id data v) :
    Final C block headers body id (body ≠ [] ∨ data = [] ∧ v.stream.blocked = false)
      (v.after (receiveRequestOrPushData C decoder v.stream data true)) := by
  obtain ⟨hw, hended, hphase⟩ := h
  cases hphase with
  | headers blocked state inHeaders more pending response =>
    exact final_receive_headers hvalid hpending hdecode hw blocked state inHeaders more pending
      response
  | blocked blocked state size frames pending response =>
    have hread : receiveRequestOrPushData C decoder v.stream data true =
        ⟨decoder, v.stream.extend data true, [], none⟩ := if_pos blocked
    rw [hread, after_same hw hpending rfl]
    refine .blocked ⟨hw.streamId, hw.pushId, hw.sessionId, hw.waiter⟩ (Bool.or_true _) blocked state
      size frames pending response (or_iff_left fun hdata => ?_)
    rw [blocked] at hdata
    exact absurd hdata.2 (by decide)
  | @body r c blocked state pending inBody response frame bytes empty =>
    obtain ⟨stream', parts, last, hsame, -, rfl, hread⟩ :=
      receive_end ⟨blocked, hw.sessionId⟩ state inBody decoder
    rw [hread, after_same hw hpending rfl, pending]
    refine final_complete ?_ hw.waiter (hsame.blocked.trans blocked) response frame bytes v.stream
    by_cases hbody : body = []
    · exact .inr ⟨(List.append_eq_nil_iff.mp (empty hbody)).2, blocked⟩
    · exact .inl hbody

/-! ## 4. The block gets ready -/

/-- The block that waits is handled. -/
theorem resume_eq {decoder : Decoder} {stream : H3Stream} {ended : Bool}
    (hid : stream.streamId = id) (hended : stream.ended = ended)
    (hstate : stream.headersRecvState = .initial)
    (hvalid : validateHeaders responsePseudoHeaders responsePseudoHeaders headers = none)
    (hpending : decoder.pending.get? id = some block) (hready : C.ready decoder.fed block)
    (hdecode : C.decode decoder.fed block = some headers) :
    resumeStream C decoder stream =
      let decoder' : Decoder := { decoder with pending := decoder.pending.erase id }
      let event := headersEvent stream headers (ended && stream.buffer.isEmpty)
      let stream' : H3Stream :=
        { stream with headersRecvState := .afterHeaders, blocked := false }
      if stream.buffer = [] then ⟨decoder', stream', [event], none⟩
      else (receiveRequestOrPushData C decoder' stream' [] ended).after [event] := by
  subst hended
  have hdecoded : decodeHeaders C decoder stream.streamId none =
      ({ decoder with pending := decoder.pending.erase id }, .ok headers) := by
    simp only [decodeHeaders, hid, hpending, if_pos hready, decoded, hdecode]
  unfold resumeStream
  rw [handle_decoded hstate hvalid hdecoded]

/-- **The stream goes on before the end.** -/
theorem before_resume
    (hvalid : validateHeaders responsePseudoHeaders responsePseudoHeaders headers = none)
    {decoder : Decoder} {v : View} {future : Bytes} (hpending : decoder.pending.get? id = some block)
    (hv : v.pending = some block) (hready : C.ready decoder.fed block)
    (hdecode : C.decode decoder.fed block = some headers)
    (h : Before C block headers body id future v) :
    Before C block headers body id future (v.after (resumeStream C decoder v.stream)) := by
  obtain ⟨hw, hended, hphase⟩ := h
  cases hphase with
  | headers blocked state inHeaders more pending response =>
    rw [pending] at hv
    cases hv
  | body blocked state pending inBody response frame bytes empty =>
    rw [pending] at hv
    cases hv
  | blocked blocked state size frames pending response =>
    have herase : (decoder.pending.erase id).get? id = none := by rw [Dict.get?_erase, if_pos rfl]
    have hbody : InBody C { v.stream with headersRecvState := .afterHeaders, blocked := false }
        (v.stream.buffer ++ future) body.flatten := .between size frames
    rw [resume_eq hw.streamId hended state hvalid hpending hready hdecode, Bool.false_and]
    dsimp only
    split
    · rw [after_headers hw response rfl, herase]
      exact @before_fresh _ _ _ _ _ v hw hended _ (.refl _) _ _ frames (Nat.le_refl _) _ hbody [] rfl
        v.stream
    · have hreading : Reading { v.stream with headersRecvState := .afterHeaders, blocked := false } :=
        ⟨rfl, hw.sessionId⟩
      rw [← List.append_nil v.stream.buffer] at hbody
      obtain ⟨stream', parts, r', hsame, hlen, hbody', hr', hread⟩ := receive_body hreading rfl
        hended hbody { decoder with pending := decoder.pending.erase id }
      rw [List.append_nil] at hlen
      rw [hread, after_headers hw response rfl]
      change Before C block headers body id future ((parts.map _).foldl View.deliver { v with
        stream := stream'
        pending := (decoder.pending.erase id).get? id
        response := some ⟨some (headersOf id headers), []⟩ })
      rw [herase]
      exact before_fresh hw hended hsame frames hlen hbody' hr' _

/-- **The stream goes on after the end.** -/
theorem final_resume
    (hvalid : validateHeaders responsePseudoHeaders responsePseudoHeaders headers = none)
    {decoder : Decoder} {v : View} {cond : Prop} (hpending : decoder.pending.get? id = some block)
    (hv : v.pending = some block) (hready : C.ready decoder.fed block)
    (hdecode : C.decode decoder.fed block = some headers)
    (h : Final C block headers body id cond v) :
    Final C block headers body id cond (v.after (resumeStream C decoder v.stream)) := by
  cases h with
  | complete blocked pending waiter holds =>
    rw [pending] at hv
    cases hv
  | stuck blocked pending waiter fails =>
    rw [pending] at hv
    cases hv
  | blocked hw ended blocked state size frames pending response decides =>
    have herase : (decoder.pending.erase id).get? id = none := by rw [Dict.get?_erase, if_pos rfl]
    rw [resume_eq hw.streamId ended state hvalid hpending hready hdecode, Bool.true_and]
    dsimp only
    split
    · next hnil =>
      rw [after_headers hw response rfl, herase]
      exact .stuck rfl rfl hw.waiter fun hcond => decides.mp hcond (frames.eq_nil_iff.mp hnil)
    · next hne =>
      have hbody : InBody C { v.stream with headersRecvState := .afterHeaders, blocked := false }
          (v.stream.buffer ++ []) body.flatten := by
        rw [List.append_nil]
        exact .between size frames
      have hreading : Reading { v.stream with headersRecvState := .afterHeaders, blocked := false } :=
        ⟨rfl, hw.sessionId⟩
      obtain ⟨stream', parts, last, hsame, -, hr', hread⟩ := receive_end hreading rfl hbody
        { decoder with pending := decoder.pending.erase id }
      have hcond : cond := decides.mpr fun hnil => hne (frames.eq_nil_iff.mpr hnil)
      rw [hread, List.isEmpty_eq_false_iff.mpr hne, after_headers hw response rfl]
      change Final C block headers body id cond ((parts.map _ ++ [_]).foldl View.deliver { v with
        stream := stream'
        pending := (decoder.pending.erase id).get? id
        response := some ⟨some (headersOf id headers), []⟩ })
      rw [herase]
      exact final_complete (v := { v with response := some ⟨some (headersOf id headers), []⟩ })
        hcond hw.waiter hsame.blocked rfl rfl hr'.symm _

/-! ## 5. Runs -/

open QuicProtocol Machine

/-- The header block means these headers, for as much of the encoder stream as there is. -/
theorem decode_of_le {fed fed' : Bytes} (hdecode : C.decode fed' block = some headers)
    (hle : fed <+: fed') (hready : C.ready fed block) : C.decode fed block = some headers := by
  obtain ⟨more, rfl⟩ := hle
  rw [← C.decode_append hready more, hdecode]

/-- What comes in on a stream. -/
def incoming (id : Nat) (events : List Event) : Bytes :=
  ((events.filterMap (dataFor id)).map Prod.fst).flatten

theorem incoming_cons_some {event : Event} {d : Bytes × Bool} (h : dataFor id event = some d)
    (events : List Event) : incoming id (event :: events) = d.1 ++ incoming id events := by
  rw [incoming, List.filterMap_cons_some h]
  rfl

theorem incoming_cons_none {event : Event} (h : dataFor id event = none) (events : List Event) :
    incoming id (event :: events) = incoming id events := by
  rw [incoming, List.filterMap_cons_none h]
  rfl

theorem event_of_dataFor {event : Event} {data : Bytes} {endStream : Bool}
    (h : dataFor id event = some (data, endStream)) :
    event = .quic (.streamDataReceived id data endStream) := by
  unfold dataFor at h
  split at h
  · split at h
    · next hid =>
      subst hid
      obtain ⟨rfl, rfl⟩ := Prod.mk.inj (Option.some.inj h)
      rfl
    · cases h
  · cases h

section Run

variable (hvalid : validateHeaders responsePseudoHeaders responsePseudoHeaders headers = none)
  {fed : Bytes} (hdecode : C.decode fed block = some headers)
include hvalid hdecode

omit hvalid in
/-- A step on other streams keeps what is so of a request that waits, where it is kept when its block is
ready and the stream goes on. -/
theorem view_keeps {P : View → Prop} {event : Event} {p p₁ : QuicProtocol} (hp : p.Wf)
    (h : step C p event = some p₁) (hfed : p₁.decoder.fed <+: fed) (hdata : dataFor id event = none)
    (htimeout : event ≠ .timeout id) (hwaiter : p.requestWaiter id ≠ none)
    (hwaits : ∀ block', (p.view id).pending = some block' → block' = block)
    (hresume : ∀ decoder : Decoder, decoder.pending.get? id = some block →
      (p.view id).pending = some block → C.ready decoder.fed block →
      C.decode decoder.fed block = some headers →
      P ((p.view id).after (resumeStream C decoder (p.view id).stream)))
    (hview : P (p.view id)) : P (p₁.view id) := by
  obtain ⟨-, -, hsame | ⟨r, hgoes, hafter⟩⟩ := view_other hp hdata (.inr hwaiter) htimeout h
  · rwa [hsame]
  · obtain ⟨block', decoder, hdfed, hpending, hdpending, hready, rfl⟩ := hgoes
    obtain rfl := hwaits block' hpending
    rw [← hdfed] at hready hfed
    rw [hafter]
    exact hresume decoder hdpending hpending hready (decode_of_le hdecode hfed hready)

/-- **A run before the end.** -/
theorem before_run (hbi : C.isUnidirectional id = false) {future : Bytes} : ∀ {events : List Event} {p p' : QuicProtocol}, p.Wf →
    run (step C) p events = some p' → p'.decoder.fed <+: fed →
    (∀ d ∈ events.filterMap (dataFor id), d.2 = false) → .timeout id ∉ events →
    Before C block headers body id (incoming id events ++ future) (p.view id) →
    Before C block headers body id future (p'.view id)
  | [], p, p', _, h, _, _, _, hbefore => by
    obtain rfl := Option.some.inj h
    exact hbefore
  | event :: events, p, p', hp, h, hfed, hopen, htimeout, hbefore => by
    obtain ⟨p₁, h₁, h⟩ := run_cons_eq_some.mp h
    obtain ⟨hp₁, hfed₁⟩ := wf_step hp h₁
    obtain ⟨-, hfed'⟩ := wf_run hp₁ h
    have hfed₂ : p₁.decoder.fed <+: fed := hfed'.trans hfed
    rw [List.mem_cons, not_or] at htimeout
    have hrest : ∀ d ∈ events.filterMap (dataFor id), d.2 = false := fun d hd => by
      obtain ⟨e, he, hde⟩ := List.mem_filterMap.mp hd
      exact hopen d (List.mem_filterMap.mpr ⟨e, List.mem_cons_of_mem _ he, hde⟩)
    refine before_run hbi hp₁ h hfed hrest htimeout.2 ?_
    cases hdata : dataFor id event with
    | some d =>
      obtain ⟨data, endStream⟩ := d
      obtain rfl : endStream = false :=
        hopen (data, endStream) (List.mem_filterMap.mpr ⟨event, List.mem_cons_self, hdata⟩)
      rw [incoming_cons_some hdata, List.append_assoc] at hbefore
      obtain rfl := event_of_dataFor hdata
      obtain ⟨-, hfedEq, hview⟩ := view_own hp hbi h₁
      rw [hview]
      exact before_receive hvalid rfl
        (decode_of_le hdecode (by rw [← hfedEq]; exact hfed₂)) hbefore
    | none =>
      rw [incoming_cons_none hdata] at hbefore
      have hwaiter : p.requestWaiter id ≠ none := by
        have hw : p.requestWaiter id = some .pending := hbefore.waiting.waiter
        rw [hw]
        exact Option.some_ne_none _
      refine view_keeps hdecode hp h₁ hfed₂ hdata (Ne.symm htimeout.1) hwaiter (fun block' hpend => ?_)
        (fun _ hdpending hpending hready hdecoded =>
          before_resume hvalid hdpending hpending hready hdecoded hbefore) hbefore
      cases hbefore.phase with
      | headers blocked state inHeaders more pending response =>
        rw [pending] at hpend
        cases hpend
      | blocked blocked state size frames pending response =>
        exact Option.some.inj (hpend.symm.trans pending)
      | body blocked state pending inBody response frame bytes empty =>
        rw [pending] at hpend
        cases hpend

/-- **A run after the end.** -/
theorem final_run {cond : Prop} : ∀ {events : List Event} {p p' : QuicProtocol}, p.Wf →
    run (step C) p events = some p' → p'.decoder.fed <+: fed →
    events.filterMap (dataFor id) = [] → .timeout id ∉ events →
    Final C block headers body id cond (p.view id) →
    Final C block headers body id cond (p'.view id)
  | [], p, p', _, h, _, _, _, hfinal => by
    obtain rfl := Option.some.inj h
    exact hfinal
  | event :: events, p, p', hp, h, hfed, hquiet, htimeout, hfinal => by
    obtain ⟨p₁, h₁, h⟩ := run_cons_eq_some.mp h
    obtain ⟨hp₁, -⟩ := wf_step hp h₁
    obtain ⟨-, hfed'⟩ := wf_run hp₁ h
    have hfed₂ : p₁.decoder.fed <+: fed := hfed'.trans hfed
    rw [List.mem_cons, not_or] at htimeout
    have hdata : dataFor id event = none := by
      cases hd : dataFor id event with
      | none => rfl
      | some d =>
        rw [List.filterMap_cons_some hd] at hquiet
        cases hquiet
    rw [List.filterMap_cons_none hdata] at hquiet
    refine final_run hp₁ h hfed hquiet htimeout.2 ?_
    have hwaiter : p.requestWaiter id ≠ none := by
      intro hnone
      have hnone : (p.view id).waiter = none := hnone
      cases hfinal with
      | blocked hw => rw [hw.waiter] at hnone; cases hnone
      | complete _ _ waiter _ => rw [waiter] at hnone; cases hnone
      | stuck _ _ waiter _ => rw [waiter] at hnone; cases hnone
    refine view_keeps hdecode hp h₁ hfed₂ hdata (Ne.symm htimeout.1) hwaiter (fun block' hpend => ?_)
      (fun _ hdpending hpending hready hdecoded =>
        final_resume hvalid hdpending hpending hready hdecoded hfinal) hfinal
    cases hfinal with
    | blocked _ _ _ _ _ _ pending => exact Option.some.inj (hpend.symm.trans pending)
    | complete _ pending =>
      rw [pending] at hpend
      cases hpend
    | stuck _ pending =>
      rw [pending] at hpend
      cases hpend

end Run

/-! ## 6. What a request gets -/

/-- The request waits, and nothing has come in on its stream. -/
def Fresh (id : Nat) (p : QuicProtocol) : Prop :=
  p.view id = ⟨{ streamId := id }, none, none, some .pending⟩

/-- A new request on any connection is fresh. -/
theorem fresh_request {size : Option Nat} {events : List Event} {p p' : QuicProtocol}
    (h : run (step C) (init size) events = some p) (hquiet : events.filterMap (dataFor id) = [])
    (hrequest : .request id ∉ events) (htimeout : .timeout id ∉ events)
    (h' : step C p (.request id) = some p') : p'.Wf ∧ Fresh id p' := by
  have hview : ∀ {events : List Event} {q q' : QuicProtocol}, q.Wf →
      run (step C) q events = some q' → events.filterMap (dataFor id) = [] →
      .request id ∉ events → .timeout id ∉ events →
      q.view id = ⟨{ streamId := id }, none, none, none⟩ →
      q'.view id = ⟨{ streamId := id }, none, none, none⟩ := by
    intro events
    induction events with
    | nil =>
      intro q q' _ h _ _ _ hq
      obtain rfl := Option.some.inj h
      exact hq
    | cons event events ih =>
      intro q q' hwf h hquiet hrequest htimeout hq
      obtain ⟨q₁, h₁, h⟩ := run_cons_eq_some.mp h
      rw [List.mem_cons, not_or] at hrequest htimeout
      have hdata : dataFor id event = none := by
        cases hd : dataFor id event with
        | none => rfl
        | some d =>
          rw [List.filterMap_cons_some hd] at hquiet
          cases hquiet
      rw [List.filterMap_cons_none hdata] at hquiet
      refine ih (wf_step hwf h₁).1 h hquiet hrequest.2 htimeout.2 ?_
      obtain ⟨-, -, hview | ⟨r, ⟨block, decoder, -, hpending, -⟩, -⟩⟩ :=
        view_other hwf hdata (.inl (Ne.symm hrequest.1)) (Ne.symm htimeout.1) h₁
      · rw [hview, hq]
      · have hnone : (q.view id).pending = none := by rw [hq]
        rw [show (q.view id).pending = some block from hpending] at hnone
        cases hnone
  have hwf : (init size).Wf := fun _ => rfl
  have hp := hview hwf h hquiet hrequest htimeout rfl
  have hpwf := (wf_run hwf h).1
  refine ⟨(wf_step hpwf h').1, ?_⟩
  unfold step at h'
  dsimp only at h'
  split at h'
  · obtain rfl := Option.some.inj h'
    have hstream : p.stream id = { streamId := id } := congrArg View.stream hp
    have hpending : p.decoder.pending.get? id = none := congrArg View.pending hp
    have hresponse : p.responses id = none := congrArg View.response hp
    unfold Fresh view setWaiter
    simp only [hstream, hpending, hresponse, if_true]
  · cases h'

variable (C id) in
/-- A response on the stream of a request, from the request on: what comes before the end of the
stream, the end, and what comes after it on the connection. -/
structure Exchange where
  headers : Headers
  block : Bytes
  body : List Bytes
  start : QuicProtocol
  before : List Event
  received : QuicProtocol
  /-- The data that comes with the end of the stream. -/
  last : Bytes
  ended : QuicProtocol
  after : List Event
  final : QuicProtocol
  bidirectional : C.isUnidirectional id = false
  wf : start.Wf
  fresh : Fresh id start
  run_before : run (step C) start before = some received
  step_last : step C received (.quic (.streamDataReceived id last true)) = some ended
  run_after : run (step C) ended after = some final
  open_before : ∀ d ∈ before.filterMap (dataFor id), d.2 = false
  quiet_after : after.filterMap (dataFor id) = []
  patient_before : .timeout id ∉ before
  patient_after : .timeout id ∉ after
  response : IsResponse C block body (incoming id before ++ last)
  valid : validateHeaders responsePseudoHeaders responsePseudoHeaders headers = none
  decode : C.decode final.decoder.fed block = some headers
  /-- The block is ready in the end. -/
  unblocked : (final.stream id).blocked = false

/-- The waiter has got the headers and the whole body. -/
def Exchange.Completed (x : Exchange C id) : Prop :=
  x.final.requestWaiter id = some (.done ⟨some (headersOf id x.headers), x.body.flatten⟩)

/-- **When a request gets its response.**  There is a `DATA` frame, or the end of the stream comes
alone, when the headers are decoded. -/
theorem Exchange.completed_iff (x : Exchange C id) :
    x.Completed ↔ x.body ≠ [] ∨ x.last = [] ∧ (x.received.stream id).blocked = false := by
  obtain ⟨hwf₁, hfed₁⟩ := wf_run x.wf x.run_before
  obtain ⟨hwf₂, hfed₂⟩ := wf_step hwf₁ x.step_last
  obtain ⟨-, hfed₃⟩ := wf_run hwf₂ x.run_after
  have hne : incoming id x.before ++ x.last ≠ [] := by
    obtain ⟨f, data, frame, -, heq⟩ := x.response
    rw [heq]
    exact List.append_ne_nil_of_left_ne_nil frame.ne_nil _
  have hstart : Before C x.block x.headers x.body id (incoming id x.before ++ x.last)
      (x.start.view id) := by
    rw [x.fresh]
    exact ⟨⟨rfl, rfl, rfl, rfl⟩, rfl, .headers rfl rfl (.before rfl x.response) hne rfl rfl⟩
  have hbefore := before_run x.valid x.decode x.bidirectional x.wf x.run_before
    (hfed₂.trans hfed₃) x.open_before x.patient_before hstart
  obtain ⟨-, hfedEq, hview⟩ := view_own hwf₁ x.bidirectional x.step_last
  have hended := final_receive x.valid rfl
    (decode_of_le x.decode (hfed₂.trans hfed₃)) hbefore
  change Final C _ _ _ _ _ ((x.received.view id).after (receiveRequestOrPushData C
    x.received.decoder (x.received.stream id) x.last true)) at hended
  rw [← hview] at hended
  have hfinal := final_run x.valid x.decode hwf₂ x.run_after (List.prefix_refl _) x.quiet_after
    x.patient_after hended
  cases hfinal with
  | blocked _ _ blocked => exact absurd (blocked.symm.trans x.unblocked) (by decide)
  | complete _ _ waiter holds => exact iff_of_true waiter holds
  | stuck _ _ waiter fails =>
    refine iff_of_false (fun hdone => ?_) fails
    have hpending : x.final.requestWaiter id = some .pending := waiter
    rw [Exchange.Completed, hpending] at hdone
    cases Option.some.inj hdone

/-- Integers as QUIC has them, and one header block, which refers to the static table only. -/
def staticCodec : Codec where
  uintVar := uintVar
  isUnidirectional := fun id => id / 2 % 2 = 1
  encoderStreamOk := fun _ => true
  decoderStreamOk := fun _ => true
  ready := fun _ _ => true
  decode := fun _ block =>
    if block = [0x00, 0x00, 0xd9] then some [(ascii ":status", ascii "200")] else none
  setOrder := fun ids => ids
  encoderStreamOk_prefix := fun _ => rfl
  decoderStreamOk_prefix := fun _ => rfl
  ready_append := fun _ _ => rfl
  decode_append := fun _ _ => rfl
  setOrder_perm := fun _ => .refl _

theorem isFrame_headers :
    IsFrame staticCodec FrameType.headers [0x00, 0x00, 0xd9] [0x01, 0x03, 0x00, 0x00, 0xd9] :=
  ⟨[0x01], [0x03], rfl, rfl, rfl⟩

/-- The request on stream 0 of a new connection. -/
def requested : QuicProtocol := (init none).setWaiter 0 .pending

/-- The frame of the headers, and with it the end of the stream. -/
def headersEnd : Event := .quic (.streamDataReceived 0 [0x01, 0x03, 0x00, 0x00, 0xd9] true)

theorem isSome_headersEnd : (step staticCodec requested headersEnd).isSome := by decide +kernel

/-- A response without a body whose end comes with its headers. -/
def headersOnly : Exchange staticCodec 0 where
  headers := [(ascii ":status", ascii "200")]
  block := [0x00, 0x00, 0xd9]
  body := []
  start := requested
  before := []
  received := requested
  last := [0x01, 0x03, 0x00, 0x00, 0xd9]
  ended := (step staticCodec requested headersEnd).get isSome_headersEnd
  after := []
  final := (step staticCodec requested headersEnd).get isSome_headersEnd
  bidirectional := rfl
  wf := fun _ => rfl
  fresh := rfl
  run_before := rfl
  step_last := (Option.some_get isSome_headersEnd).symm
  run_after := rfl
  open_before := fun _ h => absurd h List.not_mem_nil
  quiet_after := rfl
  patient_before := List.not_mem_nil
  patient_after := List.not_mem_nil
  response := ⟨_, [], isFrame_headers, .nil, rfl⟩
  valid := by decide +kernel
  decode := rfl
  unblocked := by decide +kernel

/-- The frame of the headers, and the first half of a frame of data. -/
def headersData : Event :=
  .quic (.streamDataReceived 0 [0x01, 0x03, 0x00, 0x00, 0xd9, 0x00, 0x02, 0x68] false)

theorem isSome_headersData : (step staticCodec requested headersData).isSome := by decide +kernel

/-- When the first half has come. -/
def halfway : QuicProtocol := (step staticCodec requested headersData).get isSome_headersData

theorem isSome_dataEnd :
    (step staticCodec halfway (.quic (.streamDataReceived 0 [0x69] true))).isSome := by decide +kernel

theorem dataFrames_data : DataFrames staticCodec [[0x68, 0x69]] [0x00, 0x02, 0x68, 0x69] := by
  have hframe : IsFrame staticCodec FrameType.data [0x68, 0x69] [0x00, 0x02, 0x68, 0x69] :=
    ⟨[0x00], [0x02], rfl, rfl, rfl⟩
  exact .cons hframe .nil

/-- A response with a frame of data, whose second half comes with the end of the stream. -/
def withBody : Exchange staticCodec 0 where
  headers := [(ascii ":status", ascii "200")]
  block := [0x00, 0x00, 0xd9]
  body := [[0x68, 0x69]]
  start := requested
  before := [headersData]
  received := halfway
  last := [0x69]
  ended := (step staticCodec halfway (.quic (.streamDataReceived 0 [0x69] true))).get isSome_dataEnd
  after := []
  final := (step staticCodec halfway (.quic (.streamDataReceived 0 [0x69] true))).get isSome_dataEnd
  bidirectional := rfl
  wf := fun _ => rfl
  fresh := rfl
  run_before := by
    rw [run_cons_eq_some]
    exact ⟨halfway, (Option.some_get isSome_headersData).symm, rfl⟩
  step_last := (Option.some_get isSome_dataEnd).symm
  run_after := rfl
  open_before := by decide
  quiet_after := rfl
  patient_before := by decide
  patient_after := List.not_mem_nil
  response := ⟨_, _, isFrame_headers, dataFrames_data, rfl⟩
  valid := by decide +kernel
  decode := rfl
  unblocked := by decide +kernel

example : withBody.final.requestWaiter 0 =
    some (.done ⟨some (headersOf 0 withBody.headers), [0x68, 0x69]⟩) := by decide +kernel

/-- **A response without a body hangs.** -/
theorem not_completed : ¬ ∀ (C : Codec) (id : Nat) (x : Exchange C id), x.Completed := by
  intro h
  have hdone := h staticCodec 0 headersOnly
  have hpending : headersOnly.final.requestWaiter 0 = some .pending := by decide +kernel
  rw [Exchange.Completed, hpending] at hdone
  cases Option.some.inj hdone

end Http3
end Hedra
