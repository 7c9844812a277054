/-
# One stream of a connection

What is received on a stream (`core/engines/types/common/protocols/udp/quic_protocol.py`) concerns
this stream alone, as far as the requests can see: its parser, the block that waits for it at the
decoder, its response and its waiter.  This is the `View` of the stream.  Another stream of the
connection does not change it, unless the peer's encoder stream makes the block ready that waits;
then the stream goes on by itself.

* `view_own`: data on the stream, as the view has it;
* `view_other`: any other step leaves the view, or it goes on by itself;
* `resumeAll_view`: how it goes on.
-/
import Mathlib.Data.List.Infix
import Hedra.Http3.Protocol

namespace Hedra
namespace Http3

open Lib

variable {C : Codec}

/-! ## 1. What a stream leaves alone -/

def H3Event.streamId : H3Event → Nat
  | .headersReceived event => event.streamId
  | .dataReceived _ _ id _ => id
  | .pushPromiseReceived _ _ id => id
  | .webTransportStreamDataReceived _ _ id _ => id

/-- The decoder is changed only under one number. -/
structure Decoder.Only (id : Nat) (decoder decoder' : Decoder) : Prop where
  fed : decoder'.fed = decoder.fed
  pending : ∀ i ≠ id, decoder'.pending.get? i = decoder.pending.get? i

theorem Decoder.Only.refl (id : Nat) (decoder : Decoder) : Decoder.Only id decoder decoder :=
  ⟨rfl, fun _ _ => rfl⟩

theorem Decoder.Only.trans {id : Nat} {d d' d'' : Decoder} (h : Decoder.Only id d d')
    (h' : Decoder.Only id d' d'') : Decoder.Only id d d'' :=
  ⟨h'.fed.trans h.fed, fun i hi => (h'.pending i hi).trans (h.pending i hi)⟩

/-- What is received concerns the stream alone. -/
structure Own (decoder : Decoder) (stream : H3Stream) (r : Received) : Prop where
  streamId : r.stream.streamId = stream.streamId
  events : ∀ e ∈ r.events, e.streamId = stream.streamId
  decoder : Decoder.Only stream.streamId decoder r.decoder

theorem only_decodeHeaders (decoder : Decoder) (id : Nat) (data : Option Bytes) :
    Decoder.Only id decoder (decodeHeaders C decoder id data).1 := by
  cases data with
  | some block =>
    unfold decodeHeaders
    dsimp only
    split
    · exact .refl id decoder
    · exact ⟨rfl, fun i hi => Dict.get?_set_ne _ _ hi⟩
  | none =>
    unfold decodeHeaders
    dsimp only
    split
    · exact .refl id decoder
    · split
      · exact ⟨rfl, fun i hi => by rw [Dict.get?_erase, if_neg hi]⟩
      · exact .refl id decoder

theorem only_receivePushPromise (decoder : Decoder) (stream : H3Stream) (data : Bytes) :
    Decoder.Only stream.streamId decoder (receivePushPromise C decoder stream data).1 := by
  unfold receivePushPromise
  split
  · exact .refl _ _
  · next pushId block hpull =>
    have hdecode := only_decodeHeaders (C := C) decoder stream.streamId (some block)
    split
    · next h =>
      rw [h] at hdecode
      exact hdecode
    · next h =>
      rw [h] at hdecode
      split <;> exact hdecode

theorem events_receivePushPromise {decoder : Decoder} {stream : H3Stream} {data : Bytes}
    {events : List H3Event} (h : (receivePushPromise C decoder stream data).2 = .ok events) :
    ∀ e ∈ events, e.streamId = stream.streamId := by
  unfold receivePushPromise at h
  split at h
  · cases h
  · split at h
    · cases h
    · split at h
      · cases h
      · obtain rfl := Except.ok.inj h
        intro e he
        rw [List.mem_singleton.mp he]
        rfl

/-- What handling a frame concerns. -/
structure OwnHandled (decoder : Decoder) (stream : H3Stream) (h : Handled) : Prop where
  streamId : h.stream.streamId = stream.streamId
  events : ∀ events, h.result = .ok events → ∀ e ∈ events, e.streamId = stream.streamId
  decoder : Decoder.Only stream.streamId decoder h.decoder

theorem own_receiveHeaders (stream : H3Stream) (streamEnded : Bool) (headers : Headers) :
    (stream.receiveHeaders streamEnded headers).1.streamId = stream.streamId ∧
      ∀ events, (stream.receiveHeaders streamEnded headers).2 = .ok events →
        ∀ e ∈ events, e.streamId = stream.streamId := by
  unfold H3Stream.receiveHeaders
  dsimp only
  split
  · exact ⟨rfl, fun events h => nomatch h⟩
  · refine ⟨rfl, fun events h e he => ?_⟩
    obtain rfl := Except.ok.inj h
    rw [List.mem_singleton.mp he]
    rfl

theorem own_handle (decoder : Decoder) (frameType : Option Nat) (data : Option Bytes)
    (stream : H3Stream) (streamEnded : Bool) :
    OwnHandled decoder stream
      (handleRequestOrPushFrame C decoder frameType data stream streamEnded) := by
  have hquiet {result : Except Raised (List H3Event)}
      (h : ∀ events, result = .ok events → ∀ e ∈ events, e.streamId = stream.streamId) :
      OwnHandled decoder stream ⟨decoder, stream, result⟩ := ⟨rfl, h, .refl _ _⟩
  unfold handleRequestOrPushFrame
  split
  · split
    · exact hquiet fun events h => nomatch h
    · split
      · refine hquiet fun events h e he => ?_
        obtain rfl := Except.ok.inj h
        rw [List.mem_singleton.mp he]
        rfl
      · refine hquiet fun events h e he => ?_
        obtain rfl := Except.ok.inj h
        exact absurd he List.not_mem_nil
  · split
    · split
      · exact hquiet fun events h => nomatch h
      · have hdecode := only_decodeHeaders (C := C) decoder stream.streamId data
        split
        · next h =>
          rw [h] at hdecode
          exact ⟨rfl, fun _ he => (nomatch he), hdecode⟩
        · next headers h =>
          rw [h] at hdecode
          obtain ⟨hid, hevents⟩ := own_receiveHeaders stream streamEnded headers
          exact ⟨hid, hevents, hdecode⟩
    · split
      · exact ⟨rfl, fun events h => events_receivePushPromise h, only_receivePushPromise ..⟩
      · split
        · exact hquiet fun events h => nomatch h
        · refine hquiet fun events h e he => ?_
          obtain rfl := Except.ok.inj h
          exact absurd he List.not_mem_nil

def Fetched.stream : Fetched → H3Stream
  | .wait stream => stream
  | .webTransport stream _ _ => stream
  | .frame stream _ _ => stream

theorem streamId_fetchFrame (stream : H3Stream) (rest : Bytes) :
    (fetchFrame C stream rest).stream.streamId = stream.streamId := by
  unfold fetchFrame
  split
  · rfl
  · split
    · rfl
    · split
      · rfl
      · split <;> rfl

theorem streamId_detectEnd (stream : H3Stream) (left : Nat) :
    (stream.detectEnd left).streamId = stream.streamId := by
  unfold H3Stream.detectEnd
  split <;> rfl

theorem own_readFrames (streamEnded : Bool) : ∀ (fuel : Nat) (decoder : Decoder)
    (stream : H3Stream) (rest : Bytes),
    Own decoder stream (readFrames C streamEnded fuel decoder stream rest)
  | 0, decoder, stream, rest => ⟨rfl, fun _ h => absurd h List.not_mem_nil, .refl _ _⟩
  | fuel + 1, decoder, stream, rest => by
    have hid := streamId_fetchFrame (C := C) stream rest
    unfold readFrames
    split
    · exact ⟨rfl, fun _ h => absurd h List.not_mem_nil, .refl _ _⟩
    · split
      · next h =>
        rw [h] at hid
        exact ⟨hid, fun _ h => absurd h List.not_mem_nil, .refl _ _⟩
      · next h =>
        rw [h] at hid
        refine ⟨hid, fun e he => ?_, .refl _ _⟩
        dsimp only at he
        split at he
        · rw [List.mem_singleton.mp he]
          exact hid
        · exact absurd he List.not_mem_nil
      · next stream₁ size rest₁ h =>
        rw [h] at hid
        dsimp only
        split
        · exact ⟨hid, fun _ h => absurd h List.not_mem_nil, .refl _ _⟩
        · generalize hleft : size - min size rest₁.length = left
          have hid₁ : (stream₁.detectEnd left).streamId = stream.streamId :=
            (streamId_detectEnd stream₁ left).trans hid
          have hown := own_handle (C := C) decoder stream₁.frameType
            (some (rest₁.take (min size rest₁.length))) (stream₁.detectEnd left)
            (stream₁.ended && (rest₁.drop (min size rest₁.length)).isEmpty)
          generalize handleRequestOrPushFrame C decoder stream₁.frameType _
            (stream₁.detectEnd left) _ = h at hown
          obtain ⟨hstream, hevents, hdec⟩ := hown
          rw [hid₁] at hstream hevents hdec
          split
          · next events hresult =>
            have ih := own_readFrames streamEnded fuel h.decoder h.stream
              (rest₁.drop (min size rest₁.length))
            obtain ⟨hstream', hevents', hdec'⟩ := ih
            rw [hstream] at hstream' hevents' hdec'
            refine ⟨hstream', fun e he => ?_, hdec.trans hdec'⟩
            rcases List.mem_append.mp he with he | he
            · exact hevents events hresult e he
            · exact hevents' e he
          · exact ⟨hstream, fun _ h => absurd h List.not_mem_nil, hdec⟩
          · exact ⟨hstream, fun _ h => absurd h List.not_mem_nil, hdec⟩

theorem own_receive (decoder : Decoder) (stream : H3Stream) (data : Bytes) (streamEnded : Bool) :
    Own decoder stream (receiveRequestOrPushData C decoder stream data streamEnded) := by
  have hone {stream' : H3Stream} {event : H3Event} (hid : stream'.streamId = stream.streamId)
      (hevent : event.streamId = stream.streamId) :
      Own decoder stream ⟨decoder, stream', [event], none⟩ := by
    refine ⟨hid, fun e he => ?_, .refl _ _⟩
    rw [List.mem_singleton.mp he]
    exact hevent
  unfold receiveRequestOrPushData
  dsimp only
  split
  · exact ⟨rfl, fun _ h => absurd h List.not_mem_nil, .refl _ _⟩
  · split
    · exact hone rfl rfl
    · split
      · exact hone rfl rfl
      · split
        · exact hone rfl rfl
        · obtain ⟨hstream, hevents, hdec⟩ := own_readFrames (C := C) streamEnded
            ((stream.buffer ++ data).length + 2) decoder
            (stream.extend data streamEnded) (stream.buffer ++ data)
          exact ⟨hstream, hevents, hdec⟩

theorem own_resume (decoder : Decoder) (stream : H3Stream) :
    Own decoder stream (resumeStream C decoder stream) := by
  obtain ⟨hstream, hevents, hdec⟩ := own_handle (C := C) decoder (some FrameType.headers) none
    stream (stream.ended && stream.buffer.isEmpty)
  unfold resumeStream
  generalize handleRequestOrPushFrame C decoder (some FrameType.headers) none stream _ = h
    at hstream hevents hdec ⊢
  dsimp only
  split
  · exact ⟨hstream, fun _ h => absurd h List.not_mem_nil, hdec⟩
  · next events hresult =>
    split
    · exact ⟨hstream, hevents events hresult, hdec⟩
    · obtain ⟨hstream', hevents', hdec'⟩ := own_receive (C := C) h.decoder
        { h.stream with blocked := false } [] h.stream.ended
      refine ⟨hstream'.trans hstream, fun e he => ?_, hdec.trans ?_⟩
      · rcases List.mem_append.mp he with he | he
        · exact hevents events hresult e he
        · exact (hevents' e he).trans hstream
      · exact hstream ▸ hdec'

/-! ## 2. The loop over a unidirectional stream -/

/-- The state a pass leaves, whether the loop goes on or not. -/
def Pass.uni : Pass → Uni
  | .error u => u
  | .ok (u, _, _) => u

/-- Neither the decoder nor the streams that were unblocked change. -/
structure Uni.Steady (u u' : Uni) : Prop where
  streamId : u'.stream.streamId = u.stream.streamId
  decoder : u'.decoder = u.decoder
  unblocked : u'.unblockedStreams = u.unblockedStreams

theorem Uni.Steady.trans {u v w : Uni} (h : u.Steady v) (h' : v.Steady w) : u.Steady w :=
  ⟨h'.streamId.trans h.streamId, h'.decoder.trans h.decoder, h'.unblocked.trans h.unblocked⟩

theorem Uni.Steady.refl (u : Uni) : u.Steady u := ⟨rfl, rfl, rfl⟩

/-- The state whether it is an error or not. -/
def either : Except Uni Uni → Uni
  | .error u => u
  | .ok u => u

theorem steady_checkUnicity (u : Uni) (streamType : Nat) :
    u.Steady (either (u.checkUnicity streamType)) := by
  unfold Uni.checkUnicity
  dsimp only
  repeat' split
  all_goals exact ⟨rfl, rfl, rfl⟩

theorem steady_fetchType (u : Uni) (buf rest : Bytes) : u.Steady (u.fetchType C buf rest).uni := by
  unfold Uni.fetchType
  split
  · exact .refl u
  · split
    · exact ⟨rfl, rfl, rfl⟩
    · next streamType buf' _ =>
      have hcheck := steady_checkUnicity
        { u with stream := { u.stream with streamType := some streamType } } streamType
      dsimp only
      split
      · next u' h =>
        rw [h] at hcheck
        exact ⟨hcheck.streamId, hcheck.decoder, hcheck.unblocked⟩
      · next u' h =>
        rw [h] at hcheck
        exact ⟨hcheck.streamId, hcheck.decoder, hcheck.unblocked⟩

theorem steady_control (size : Option Nat) (endStream : Bool) (u : Uni) (buf rest : Bytes) :
    u.Steady (u.control C size endStream buf rest).uni := by
  unfold Uni.control
  split
  · exact ⟨rfl, rfl, rfl⟩
  · split
    · exact ⟨rfl, rfl, rfl⟩
    · unfold Uni.controlFrame
      repeat' split
      all_goals exact ⟨rfl, rfl, rfl⟩

theorem steady_webTransport (u : Uni) (buf rest : Bytes) :
    u.Steady (u.webTransport C buf rest).uni := by
  unfold Uni.webTransport
  repeat' split
  all_goals exact ⟨rfl, rfl, rfl⟩

theorem steady_qpackDecoder (u : Uni) (buf : Bytes) : u.Steady (u.qpackDecoder C buf).uni := by
  unfold Uni.qpackDecoder
  dsimp only
  split <;> exact ⟨rfl, rfl, rfl⟩

/-- What the loop may do: blocks are put under the stream's own number, and more may be fed. -/
structure Uni.Grows (u u' : Uni) : Prop where
  streamId : u'.stream.streamId = u.stream.streamId
  fed : u.decoder.fed <+: u'.decoder.fed
  pending : ∀ i ≠ u.stream.streamId, u'.decoder.pending.get? i = u.decoder.pending.get? i

theorem Uni.Grows.trans {u v w : Uni} (h : u.Grows v) (h' : v.Grows w) : u.Grows w where
  streamId := h'.streamId.trans h.streamId
  fed := h.fed.trans h'.fed
  pending i hi := (h'.pending i (h.streamId ▸ hi)).trans (h.pending i hi)

theorem Uni.Steady.grows {u u' : Uni} (h : u.Steady u') : u.Grows u' where
  streamId := h.streamId
  fed := by
    rw [h.decoder]
  pending i _ := by rw [h.decoder]

/-- The streams to go on with: none, or all that are ready now. -/
def Uni.Settled (C : Codec) (u : Uni) : Prop :=
  u.unblockedStreams = [] ∨ u.unblockedStreams = u.decoder.unblocked C

theorem push_cases (endStream : Bool) (u : Uni) (buf rest : Bytes) :
    ∃ u', u.push C endStream buf rest = .error u' ∧ u.Grows u' ∧
      u'.unblockedStreams = u.unblockedStreams := by
  have hgo (v : Uni) (hv : u.Steady v) (rest : Bytes) :
      let r := receiveRequestOrPushData C v.decoder { v.stream with buffer := rest } [] endStream
      u.Grows { v with
        stream := r.stream, decoder := r.decoder, raised := r.raised, returned := true } := by
    intro r
    obtain ⟨hid, -, hdec⟩ := own_receive (C := C) v.decoder { v.stream with buffer := rest } []
      endStream
    refine hv.grows.trans ⟨hid, ?_, hdec.pending⟩
    change v.decoder.fed <+: r.decoder.fed
    rw [hdec.fed]
  unfold Uni.push
  dsimp only
  split
  · exact ⟨_, rfl, hgo u (.refl u) rest, rfl⟩
  · split
    · exact ⟨_, rfl, Uni.Steady.grows ⟨rfl, rfl, rfl⟩, rfl⟩
    · next pushId buf' _ =>
      exact ⟨_, rfl, hgo { u with stream := { u.stream with pushId := some pushId } }
        ⟨rfl, rfl, rfl⟩ buf', rfl⟩

/-- **A pass of the loop.**  It blocks nothing, or it ends the loop, or it feeds the decoder. -/
theorem pass_cases (size : Option Nat) (endStream : Bool) (u : Uni) (buf rest : Bytes) :
    let p := u.pass C size endStream buf rest
    u.Steady p.uni ∨ (∃ u', p = .error u' ∧ u.Grows u' ∧ u'.unblockedStreams = u.unblockedStreams) ∨
      ∃ u', p = .ok (u', [], []) ∧ u.Grows u' ∧ u'.stream.streamType = some StreamType.qpackEncoder ∧
        u'.unblockedStreams = u.unblockedStreams ++ u'.decoder.unblocked C := by
  have hfetch := steady_fetchType (C := C) u buf rest
  unfold Uni.pass
  dsimp only
  split
  · next u' h =>
    rw [h] at hfetch
    exact .inl hfetch
  · next u₁ buf₁ rest₁ h =>
    rw [h] at hfetch
    have hfetch : u.Steady u₁ := hfetch
    split
    · exact .inl (hfetch.trans (steady_control ..))
    · split
      · obtain ⟨u', hu', hgrows, hunblocked⟩ := push_cases (C := C) endStream u₁ buf₁ rest₁
        exact .inr (.inl ⟨u', hu', hfetch.grows.trans hgrows, hunblocked.trans hfetch.unblocked⟩)
      · split
        · exact .inl (hfetch.trans (steady_webTransport ..))
        · split
          · exact .inl (hfetch.trans (steady_qpackDecoder ..))
          · split
            · next htype =>
              have hgrows (d : Decoder) (hd : d = { u₁.decoder with fed := u₁.decoder.fed ++ buf₁ })
                  (ids : List Nat) : u.Grows { u₁ with decoder := d, unblockedStreams := ids } := by
                subst hd
                exact hfetch.grows.trans ⟨rfl, List.prefix_append _ _, fun _ _ => rfl⟩
              unfold Uni.qpackEncoder
              dsimp only
              split
              · refine .inr (.inr ⟨_, rfl, hgrows _ rfl _, htype, ?_⟩)
                rw [hfetch.unblocked]
              · refine .inr (.inl ⟨_, rfl, ?_, hfetch.unblocked⟩)
                exact (hgrows _ rfl u₁.unblockedStreams).trans (Uni.Steady.grows ⟨rfl, rfl, rfl⟩)
            · exact .inl hfetch

/-- **The loop over a unidirectional stream.** -/
theorem loop_grows (size : Option Nat) (endStream : Bool) : ∀ (fuel : Nat) (u : Uni)
    (buf rest : Bytes), (u.unblockedStreams = [] ∨ buf = [] ∧
      u.stream.streamType = some StreamType.qpackEncoder ∧
      u.unblockedStreams = u.decoder.unblocked C) →
    u.Grows (Uni.loop C size endStream fuel u buf rest) ∧
      (Uni.loop C size endStream fuel u buf rest).Settled C
  | 0, u, _, rest, h =>
    ⟨Uni.Steady.grows ⟨rfl, rfl, rfl⟩, h.imp id fun h => h.2.2⟩
  | fuel + 1, u, buf, rest, h => by
    unfold Uni.loop
    split
    · next hloop =>
      have hnone : u.unblockedStreams = [] := by
        rcases h with h | ⟨rfl, htype, -⟩
        · exact h
        · rw [htype] at hloop
          exact absurd hloop (by decide)
      rcases pass_cases (C := C) size endStream u buf rest with
        hsteady | ⟨u', hu', hgrows, hunblocked⟩ | ⟨u', hu', hgrows, htype, hunblocked⟩
      · split
        · next u' hu' =>
          rw [hu'] at hsteady
          exact ⟨hsteady.grows, .inl (hsteady.unblocked.trans hnone)⟩
        · next u' buf' rest' hu' =>
          rw [hu'] at hsteady
          have hsteady : u.Steady u' := hsteady
          obtain ⟨hgrows, hsettled⟩ := loop_grows size endStream fuel u' buf' rest'
            (.inl (hsteady.unblocked.trans hnone))
          exact ⟨hsteady.grows.trans hgrows, hsettled⟩
      · rw [hu']
        exact ⟨hgrows, .inl (hunblocked.trans hnone)⟩
      · rw [hu']
        rw [hnone, List.nil_append] at hunblocked
        obtain ⟨hgrows', hsettled⟩ := loop_grows size endStream fuel u' [] []
          (.inr ⟨rfl, htype, hunblocked⟩)
        exact ⟨hgrows.trans hgrows', hsettled⟩
    · exact ⟨Uni.Steady.grows ⟨rfl, rfl, rfl⟩, h.imp id fun h => h.2.2⟩

/-! ## 3. The view of a stream -/

structure View where
  stream : H3Stream
  /-- The block that waits at the decoder. -/
  pending : Option Bytes
  response : Option ResponseFrameCollection
  waiter : Option Waiter

def QuicProtocol.view (p : QuicProtocol) (id : Nat) : View :=
  ⟨p.stream id, p.decoder.pending.get? id, p.responses id, p.requestWaiter id⟩

/-- An event of the stream. -/
def View.deliver (v : View) : H3Event → View
  | .headersReceived event =>
    { v with response := some { v.response.getD {} with headersFrame := some event } }
  | .dataReceived data _ _ streamEnded =>
    let response := { v.response.getD {} with body := (v.response.getD {}).body ++ data }
    if streamEnded ∧ v.waiter = some .pending then
      { v with response := none, waiter := some (.done response) }
    else { v with response := some response }
  | _ => v

/-- What is received on the stream, with its events. -/
def View.after (v : View) (r : Received) : View :=
  r.events.foldl View.deliver
    { v with stream := r.stream, pending := r.decoder.pending.get? v.stream.streamId }

/-- The streams stand under their numbers. -/
def QuicProtocol.Wf (p : QuicProtocol) : Prop := ∀ id, (p.stream id).streamId = id

/-- What is not handled with the events. -/
structure SameParser (p p' : QuicProtocol) : Prop where
  stream : p'.stream = p.stream
  decoder : p'.decoder = p.decoder
  isDone : p'.isDone = p.isDone

open QuicProtocol

theorem view_handleEvent {p p' : QuicProtocol} {event : H3Event}
    (h : p.handleEvent event = (p', none)) (id : Nat) :
    SameParser p p' ∧
      p'.view id = if event.streamId = id then (p.view id).deliver event else p.view id := by
  cases event with
  | headersReceived event =>
    obtain ⟨rfl, -⟩ := Prod.mk.inj h
    refine ⟨⟨rfl, rfl, rfl⟩, ?_⟩
    by_cases hid : id = event.streamId
    · subst hid
      simp [view, setResponse, View.deliver, H3Event.streamId, response]
    · simp [view, setResponse, H3Event.streamId, hid, Ne.symm hid]
  | dataReceived data pushId i streamEnded =>
    unfold handleEvent at h
    dsimp only at h
    split at h
    · next hended =>
      subst hended
      split at h
      · cases h
      · next hwaiter =>
        have hwaiter : p.requestWaiter i = some .pending := hwaiter
        obtain ⟨rfl, -⟩ := Prod.mk.inj h
        refine ⟨⟨rfl, rfl, rfl⟩, ?_⟩
        by_cases hid : id = i
        · subst hid
          simp [view, setResponse, setWaiter, View.deliver, H3Event.streamId, response, hwaiter]
        · simp [view, setResponse, setWaiter, H3Event.streamId, hid, Ne.symm hid]
      · next w hw hwaiter =>
        have hwaiter : p.requestWaiter i = some w := hwaiter
        obtain ⟨rfl, -⟩ := Prod.mk.inj h
        refine ⟨⟨rfl, rfl, rfl⟩, ?_⟩
        by_cases hid : id = i
        · subst hid
          have hw : w ≠ .pending := hw
          simp [view, setResponse, View.deliver, H3Event.streamId, response, hwaiter, hw]
        · simp [view, setResponse, H3Event.streamId, hid, Ne.symm hid]
    · next hended =>
      obtain ⟨rfl, -⟩ := Prod.mk.inj h
      refine ⟨⟨rfl, rfl, rfl⟩, ?_⟩
      by_cases hid : id = i
      · subst hid
        simp [view, setResponse, View.deliver, H3Event.streamId, response, hended]
      · simp [view, setResponse, H3Event.streamId, hid, Ne.symm hid]
  | pushPromiseReceived headers pushId i =>
    obtain ⟨rfl, -⟩ := Prod.mk.inj h
    exact ⟨⟨rfl, rfl, rfl⟩, by simp [View.deliver]⟩
  | webTransportStreamDataReceived data sessionId i streamEnded =>
    obtain ⟨rfl, -⟩ := Prod.mk.inj h
    exact ⟨⟨rfl, rfl, rfl⟩, by simp [View.deliver]⟩

/-- **The events of other streams do not matter.** -/
theorem view_handleEvents {p p' : QuicProtocol} {events : List H3Event}
    (h : p.handleEvents events = (p', none)) (id : Nat) :
    SameParser p p' ∧
      p'.view id = (events.filter fun e => e.streamId = id).foldl View.deliver (p.view id) := by
  induction events generalizing p with
  | nil =>
    obtain ⟨rfl, -⟩ := Prod.mk.inj h
    exact ⟨⟨rfl, rfl, rfl⟩, rfl⟩
  | cons event events ih =>
    unfold handleEvents at h
    split at h
    · cases h
    · next p₁ h₁ =>
      obtain ⟨hsame, hview⟩ := view_handleEvent h₁ id
      obtain ⟨hsame', hview'⟩ := ih h
      refine ⟨⟨hsame'.stream.trans hsame.stream, hsame'.decoder.trans hsame.decoder,
        hsame'.isDone.trans hsame.isDone⟩, ?_⟩
      rw [hview', hview]
      by_cases hid : event.streamId = id
      · rw [if_pos hid, List.filter_cons_of_pos (by simpa using hid), List.foldl_cons]
      · rw [if_neg hid, List.filter_cons_of_neg (by simpa using hid)]

/-! ## 4. Steps as a stream sees them -/

/-- What the streams that go on leave alone. -/
structure SameRequests (p p' : QuicProtocol) : Prop where
  responses : p'.responses = p.responses
  requestWaiter : p'.requestWaiter = p.requestWaiter
  isDone : p'.isDone = p.isDone

theorem wf_afterStream {p : QuicProtocol} (h : p.Wf) (r : Received) : (p.afterStream r).Wf := by
  intro id
  unfold afterStream setStream
  dsimp only
  split
  · next hid => exact hid.symm
  · exact h id

/-- The stream of `r`, and the others. -/
theorem stream_afterStream_self (p : QuicProtocol) (r : Received) :
    (p.afterStream r).stream r.stream.streamId = r.stream := if_pos rfl

theorem stream_afterStream_ne (p : QuicProtocol) {r : Received} {id : Nat}
    (h : id ≠ r.stream.streamId) : (p.afterStream r).stream id = p.stream id := if_neg h

/-- Another stream. -/
theorem view_afterStream_ne {p : QuicProtocol} {r : Received} {i id : Nat} (hp : p.Wf)
    (hown : Own p.decoder (p.stream i) r) (hid : id ≠ i) :
    (p.afterStream r).view id = p.view id := by
  have hi : r.stream.streamId = i := hown.streamId.trans (hp i)
  unfold view
  rw [stream_afterStream_ne p (by rwa [hi])]
  change View.mk _ (r.decoder.pending.get? id) _ _ = _
  rw [hown.decoder.pending id (by rwa [hp i])]
  rfl

/-- The stream itself. -/
theorem view_afterStream_self {p : QuicProtocol} {r : Received} {i : Nat} (hp : p.Wf)
    (hown : Own p.decoder (p.stream i) r) :
    (p.afterStream r).view i =
      { p.view i with stream := r.stream, pending := r.decoder.pending.get? i } := by
  have hi : r.stream.streamId = i := hown.streamId.trans (hp i)
  have hself := stream_afterStream_self p r
  rw [hi] at hself
  unfold view
  rw [hself]
  rfl

theorem filter_events_ne {decoder : Decoder} {stream : H3Stream} {r : Received} {id : Nat}
    (hown : Own decoder stream r) (hid : id ≠ stream.streamId) :
    (r.events.filter fun e => e.streamId = id) = [] := by
  rw [List.filter_eq_nil_iff]
  intro e he
  rw [hown.events e he]
  simpa using hid.symm

theorem filter_events_self {decoder : Decoder} {stream : H3Stream} {r : Received}
    (hown : Own decoder stream r) :
    (r.events.filter fun e => e.streamId = stream.streamId) = r.events := by
  rw [List.filter_eq_self]
  intro e he
  simpa using hown.events e he

/-- The stream goes on, whatever the decoder has for others. -/
def Resumed (C : Codec) (p : QuicProtocol) (id : Nat) (r : Received) : Prop :=
  ∃ decoder, decoder.fed = p.decoder.fed ∧
    decoder.pending.get? id = p.decoder.pending.get? id ∧ r = resumeStream C decoder (p.stream id)

/-- **The streams that were unblocked, as one stream sees them.** -/
theorem resumeAll_view {id : Nat} : ∀ {ids : List Nat} {p p' : QuicProtocol}
    {events : List H3Event}, ids.Nodup → p.Wf → p.resumeAll C ids = (p', events, none) →
    SameRequests p p' ∧ p'.Wf ∧ p'.decoder.fed = p.decoder.fed ∧
    (id ∉ ids → p'.view id = p.view id ∧ (events.filter fun e => e.streamId = id) = []) ∧
    (id ∈ ids → ∃ r, Resumed C p id r ∧
      p'.view id = { p.view id with stream := r.stream, pending := r.decoder.pending.get? id } ∧
      (events.filter fun e => e.streamId = id) = r.events)
  | [], p, p', events, _, hp, h => by
    obtain ⟨rfl, hr⟩ := Prod.mk.inj h
    obtain ⟨rfl, -⟩ := Prod.mk.inj hr
    exact ⟨⟨rfl, rfl, rfl⟩, hp, rfl, fun _ => ⟨rfl, rfl⟩, fun h => absurd h List.not_mem_nil⟩
  | i :: ids, p, p', events, hids, hp, h => by
    obtain ⟨hi, hids⟩ := List.nodup_cons.mp hids
    have hown := own_resume (C := C) p.decoder (p.stream i)
    unfold resumeAll at h
    dsimp only at h
    generalize hr : resumeStream C p.decoder (p.stream i) = r at hown h
    split at h
    · cases h
    · have hp₁ := wf_afterStream hp r
      rcases hrest : (p.afterStream r).resumeAll C ids with ⟨p₂, events₂, raised⟩
      rw [hrest] at h
      obtain ⟨h₁, h₂⟩ := Prod.mk.inj h
      obtain ⟨h₂, h₃⟩ := Prod.mk.inj h₂
      obtain rfl : p₂ = p' := h₁
      obtain rfl : r.events ++ events₂ = events := h₂
      obtain rfl : raised = none := h₃
      obtain ⟨hsame, hp', hfed, hout, hin⟩ := resumeAll_view hids hp₁ hrest
      have hfed₁ : (p.afterStream r).decoder.fed = p.decoder.fed := hown.decoder.fed
      refine ⟨⟨hsame.responses, hsame.requestWaiter, hsame.isDone⟩, hp', hfed.trans hfed₁,
        fun hmem => ?_, fun hmem => ?_⟩
      · rw [List.mem_cons, not_or] at hmem
        obtain ⟨hview, hevents⟩ := hout hmem.2
        rw [hview, view_afterStream_ne hp hown hmem.1, List.filter_append, hevents,
          filter_events_ne hown (by rw [hp i]; exact hmem.1)]
        exact ⟨rfl, rfl⟩
      · by_cases hid : id = i
        · subst hid
          obtain ⟨hview, hevents⟩ := hout hi
          refine ⟨r, ⟨p.decoder, rfl, rfl, hr.symm⟩, ?_, ?_⟩
          · rw [hview, view_afterStream_self hp hown]
          · have hself := filter_events_self hown
            rw [hp id] at hself
            rw [List.filter_append, hevents, hself, List.append_nil]
        · have hmem := (List.mem_cons.mp hmem).resolve_left hid
          obtain ⟨r', ⟨decoder, hdfed, hdpending, hr'⟩, hview, hevents⟩ := hin hmem
          have hview₁ := view_afterStream_ne hp hown hid
          have hstream₁ : (p.afterStream r).stream id = p.stream id := congrArg View.stream hview₁
          have hpending₁ : (p.afterStream r).decoder.pending.get? id =
              p.decoder.pending.get? id := congrArg View.pending hview₁
          refine ⟨r', ⟨decoder, hdfed.trans hfed₁, hdpending.trans hpending₁, ?_⟩, ?_, ?_⟩
          · rw [hr', hstream₁]
          · rw [hview, hview₁]
          · rw [List.filter_append, hevents, filter_events_ne hown (by rw [hp i]; exact hid),
              List.nil_append]

theorem step_quic {p p' : QuicProtocol} {event : QuicEvent}
    (h : step C p (.quic event) = some p') :
    ∃ p₁ events, p.h3Events C event = (p₁, events, none) ∧
      p₁.handleEvents events = (p', none) := by
  unfold step quicEventReceived at h
  dsimp only at h
  split at h
  · next p₁ hq =>
    split at h
    · next hdone =>
      obtain rfl := Option.some.inj h
      split at hq
      · next hp =>
        obtain ⟨rfl, -⟩ := Prod.mk.inj hq
        exact absurd hdone hp
      · split at hq
        · next p₂ events hevents => exact ⟨p₂, events, hevents, hq⟩
        · obtain ⟨rfl, -⟩ := Prod.mk.inj hq
          cases hdone
        · cases hq
    · cases h
  · cases h

/-- **Data on the stream.** -/
theorem view_own {p p' : QuicProtocol} {id : Nat} {data : Bytes} {endStream : Bool} (hp : p.Wf)
    (hbi : C.isUnidirectional id = false)
    (h : step C p (.quic (.streamDataReceived id data endStream)) = some p') :
    p'.Wf ∧ p'.decoder.fed = p.decoder.fed ∧
      p'.view id = (p.view id).after
        (receiveRequestOrPushData C p.decoder (p.stream id) data endStream) := by
  obtain ⟨p₁, events, hevents, hhandle⟩ := step_quic h
  have hown := own_receive (C := C) p.decoder (p.stream id) data endStream
  simp only [h3Events, hbi, Bool.false_eq_true, if_false] at hevents
  rw [Prod.mk.injEq, Prod.mk.injEq] at hevents
  obtain ⟨rfl, rfl, -⟩ := hevents
  obtain ⟨hsame, hview⟩ := view_handleEvents hhandle id
  have hself := filter_events_self hown
  rw [hp id] at hself
  refine ⟨fun i => ?_, ?_, ?_⟩
  · rw [hsame.stream]
    exact wf_afterStream hp _ i
  · rw [hsame.decoder]
    exact hown.decoder.fed
  · rw [hview, hself, view_afterStream_self hp hown, View.after]
    change _ = List.foldl View.deliver { p.view id with
      stream := _, pending := Dict.get? _ (p.stream id).streamId } _
    rw [hp id]

theorem mem_unblocked {decoder : Decoder} {id : Nat} :
    id ∈ decoder.unblocked C ↔
      ∃ block, decoder.pending.get? id = some block ∧ C.ready decoder.fed block := by
  simp only [Decoder.unblocked, List.mem_map, List.mem_filter, Prod.exists, exists_and_right,
    exists_eq_right, ← Dict.mem_items_iff]

theorem nodup_unblocked (decoder : Decoder) : (decoder.unblocked C).Nodup :=
  Dict.nodup_filter decoder.pending.nodup _

/-- What the loop over a unidirectional stream leaves. -/
theorem readUnidirectional_spec (p : QuicProtocol) (i : Nat) (data : Bytes) (endStream : Bool) :
    let u := p.readUnidirectional C i data endStream
    u.stream.streamId = (p.stream i).streamId ∧ p.decoder.fed <+: u.decoder.fed ∧
      (∀ j ≠ (p.stream i).streamId, u.decoder.pending.get? j = p.decoder.pending.get? j) ∧
      u.Settled C := by
  obtain ⟨hgrows, hsettled⟩ := loop_grows (C := C) p.remoteMaxDatagramFrameSize endStream
    (((p.stream i).extend data endStream).buffer.length + 2)
    { stream := (p.stream i).extend data endStream, peer := p.peer, decoder := p.decoder }
    ((p.stream i).extend data endStream).buffer ((p.stream i).extend data endStream).buffer
    (.inl rfl)
  exact ⟨hgrows.streamId, hgrows.fed, hgrows.pending, hsettled⟩

/-- The stream goes on by itself, as far as it can see. -/
def GoesOn (C : Codec) (p p' : QuicProtocol) (id : Nat) (r : Received) : Prop :=
  ∃ block decoder, decoder.fed = p'.decoder.fed ∧ p.decoder.pending.get? id = some block ∧
    decoder.pending.get? id = some block ∧ C.ready p'.decoder.fed block ∧
    r = resumeStream C decoder (p.stream id)

/-- The data of a unidirectional stream, as another stream sees it. -/
theorem view_receiveUnidirectional {p p' : QuicProtocol} {i id : Nat} {data : Bytes}
    {endStream : Bool} {events : List H3Event} (hp : p.Wf) (hid : id ≠ i)
    (h : p.receiveUnidirectional C i data endStream = (p', events, none)) :
    p'.Wf ∧ p.decoder.fed <+: p'.decoder.fed ∧
      (p'.view id = p.view id ∧ (events.filter fun e => e.streamId = id) = [] ∨
        ∃ r, GoesOn C p p' id r ∧
          p'.view id = { p.view id with
            stream := r.stream, pending := r.decoder.pending.get? id } ∧
          (events.filter fun e => e.streamId = id) = r.events) := by
  obtain ⟨hstream, hfed, hpending, hsettled⟩ :=
    readUnidirectional_spec (C := C) p i data endStream
  unfold receiveUnidirectional at h
  generalize p.readUnidirectional C i data endStream = u at h hstream hfed hpending hsettled
  rw [hp i] at hstream hpending
  have hp₁ : (p.afterUni u).Wf := by
    intro j
    unfold afterUni setStream
    dsimp only
    split
    · next hj => exact hj.symm
    · exact hp j
  have hstream₁ : (p.afterUni u).stream id = p.stream id := if_neg (by rwa [hstream])
  have hpending₁ : (p.afterUni u).decoder.pending.get? id = p.decoder.pending.get? id :=
    hpending id hid
  have hview₁ : (p.afterUni u).view id = p.view id := by
    unfold view
    rw [hstream₁, hpending₁]
    rfl
  dsimp only at h
  split at h
  · rw [Prod.mk.injEq, Prod.mk.injEq] at h
    obtain ⟨rfl, rfl, -⟩ := h
    exact ⟨hp₁, hfed, .inl ⟨hview₁, rfl⟩⟩
  · have hmem : ∀ j, j ∈ C.setOrder u.unblockedStreams ↔ j ∈ u.unblockedStreams := fun j =>
      (C.setOrder_perm _).mem_iff
    have hnodup : (C.setOrder u.unblockedStreams).Nodup := by
      refine (C.setOrder_perm _).nodup_iff.mpr ?_
      rcases hsettled with hs | hs
      · rw [hs]
        exact List.nodup_nil
      · rw [hs]
        exact nodup_unblocked _
    obtain ⟨hsame, hp', hfed', hout, hin⟩ := resumeAll_view hnodup hp₁ h
    have hfed₂ : p'.decoder.fed = u.decoder.fed := hfed'
    refine ⟨hp', by rwa [hfed₂], ?_⟩
    by_cases hj : id ∈ u.unblockedStreams
    · obtain ⟨r, ⟨decoder, hdfed, hdpending, hr⟩, hview, hevents⟩ := hin ((hmem id).mpr hj)
      have hready : id ∈ u.decoder.unblocked C := by
        rcases hsettled with hs | hs
        · rw [hs] at hj
          exact absurd hj List.not_mem_nil
        · rwa [hs] at hj
      obtain ⟨block, hblock, hblockReady⟩ := mem_unblocked.mp hready
      have hblock₁ : p.decoder.pending.get? id = some block := (hpending id hid).symm.trans hblock
      refine .inr ⟨r, ⟨block, decoder, ?_, hblock₁, ?_, ?_, ?_⟩, ?_, hevents⟩
      · exact hdfed.trans hfed₂.symm
      · exact hdpending.trans hblock
      · rwa [hfed₂]
      · rw [hr, hstream₁]
      · rw [hview, hview₁]
    · obtain ⟨hview, hevents⟩ := hout fun h => hj ((hmem id).mp h)
      exact .inl ⟨hview.trans hview₁, hevents⟩

/-- What an event brings for a stream. -/
def dataFor (id : Nat) : Event → Option (Bytes × Bool)
  | .quic (.streamDataReceived i data endStream) => if i = id then some (data, endStream) else none
  | _ => none

theorem view_setWaiter_ne (p : QuicProtocol) {i id : Nat} (w : Waiter) (h : id ≠ i) :
    (p.setWaiter i w).view id = p.view id := by
  unfold view
  rw [setWaiter]
  simp only [h, if_false]

/-- **Any other step.** -/
theorem view_other {p p' : QuicProtocol} {event : Event} {id : Nat} (hp : p.Wf)
    (hdata : dataFor id event = none)
    (hrequest : event ≠ .request id ∨ p.requestWaiter id ≠ none) (htimeout : event ≠ .timeout id)
    (h : step C p event = some p') :
    p'.Wf ∧ p.decoder.fed <+: p'.decoder.fed ∧
      (p'.view id = p.view id ∨ ∃ r, GoesOn C p p' id r ∧ p'.view id = (p.view id).after r) := by
  cases event with
  | request i =>
    unfold step at h
    dsimp only at h
    split at h
    · next hi =>
      obtain rfl := Option.some.inj h
      have hne : id ≠ i := by
        rintro rfl
        exact hrequest.elim (fun h => h rfl) fun h => h hi
      exact ⟨hp, List.prefix_refl _, .inl (view_setWaiter_ne p _ hne)⟩
    · cases h
  | timeout i =>
    unfold step at h
    dsimp only at h
    split at h
    · obtain rfl := Option.some.inj h
      have hne : id ≠ i := by
        rintro rfl
        exact htimeout rfl
      exact ⟨hp, List.prefix_refl _, .inl (view_setWaiter_ne p _ hne)⟩
    · cases h
  | quic event =>
    obtain ⟨p₁, events, hevents, hhandle⟩ := step_quic h
    obtain ⟨hsame, hview⟩ := view_handleEvents hhandle id
    have hp₁ (h : p₁.Wf) : p'.Wf := fun i => by
      rw [hsame.stream]
      exact h i
    cases event with
    | datagramFrameReceived data =>
      unfold h3Events at hevents
      dsimp only at hevents
      split at hevents
      · cases hevents
      · rw [Prod.mk.injEq, Prod.mk.injEq] at hevents
        obtain ⟨rfl, rfl, -⟩ := hevents
        exact ⟨hp₁ hp, by rw [hsame.decoder], .inl hview⟩
    | streamDataReceived i data endStream =>
      have hne : id ≠ i := by
        rintro rfl
        rw [dataFor, if_pos rfl] at hdata
        cases hdata
      cases hi : C.isUnidirectional i with
      | false =>
        have hown := own_receive (C := C) p.decoder (p.stream i) data endStream
        simp only [h3Events, hi, Bool.false_eq_true, if_false] at hevents
        rw [Prod.mk.injEq, Prod.mk.injEq] at hevents
        obtain ⟨rfl, rfl, -⟩ := hevents
        refine ⟨hp₁ (wf_afterStream hp _), ?_, .inl ?_⟩
        · rw [hsame.decoder]
          change _ <+: Decoder.fed (receiveRequestOrPushData C _ _ _ _).decoder
          rw [hown.decoder.fed]
        · rw [hview, filter_events_ne hown (by rwa [hp i]), view_afterStream_ne hp hown hne]
          rfl
      | true =>
        simp only [h3Events, hi, if_true] at hevents
        obtain ⟨hp₂, hfed, hcases⟩ := view_receiveUnidirectional hp hne hevents
        refine ⟨hp₁ hp₂, by rwa [hsame.decoder], ?_⟩
        rcases hcases with ⟨hview₁, hnone⟩ | ⟨r, hr, hview₁, hevents₁⟩
        · rw [hview, hnone, hview₁]
          exact .inl rfl
        · refine .inr ⟨r, ?_, ?_⟩
          · unfold GoesOn at hr ⊢
            rwa [hsame.decoder]
          · rw [hview, hevents₁, hview₁, View.after]
            change _ = List.foldl View.deliver { p.view id with
              stream := _, pending := Dict.get? _ (p.stream id).streamId } _
            rw [hp id]

/-- The decoder is only fed more. -/
theorem wf_step {p p' : QuicProtocol} {event : Event} (hp : p.Wf)
    (h : step C p event = some p') : p'.Wf ∧ p.decoder.fed <+: p'.decoder.fed := by
  cases event with
  | request i =>
    unfold step at h
    dsimp only at h
    split at h
    · obtain rfl := Option.some.inj h
      exact ⟨hp, List.prefix_refl _⟩
    · cases h
  | timeout i =>
    unfold step at h
    dsimp only at h
    split at h
    · obtain rfl := Option.some.inj h
      exact ⟨hp, List.prefix_refl _⟩
    · cases h
  | quic event =>
    cases event with
    | datagramFrameReceived data =>
      obtain ⟨p₁, events, hevents, hhandle⟩ := step_quic h
      obtain ⟨hsame, -⟩ := view_handleEvents hhandle 0
      unfold h3Events at hevents
      dsimp only at hevents
      split at hevents
      · cases hevents
      · rw [Prod.mk.injEq] at hevents
        obtain ⟨rfl, -⟩ := hevents
        refine ⟨fun i => ?_, by rw [hsame.decoder]⟩
        rw [hsame.stream]
        exact hp i
    | streamDataReceived i data endStream =>
      cases hi : C.isUnidirectional i with
      | false =>
        obtain ⟨hp', hfed, -⟩ := view_own hp hi h
        exact ⟨hp', by rw [hfed]⟩
      | true =>
        obtain ⟨p₁, events, hevents, hhandle⟩ := step_quic h
        obtain ⟨hsame, -⟩ := view_handleEvents hhandle 0
        simp only [h3Events, hi, if_true] at hevents
        obtain ⟨hp₁, hfed, -⟩ :=
          view_receiveUnidirectional hp (Nat.succ_ne_self i) hevents
        refine ⟨fun j => ?_, by rwa [hsame.decoder]⟩
        rw [hsame.stream]
        exact hp₁ j

theorem wf_run {p p' : QuicProtocol} {events : List Event} (hp : p.Wf)
    (h : Machine.run (step C) p events = some p') : p'.Wf ∧ p.decoder.fed <+: p'.decoder.fed := by
  induction events generalizing p with
  | nil =>
    obtain rfl := Option.some.inj h
    exact ⟨hp, List.prefix_refl _⟩
  | cons event events ih =>
    obtain ⟨p₁, h₁, h⟩ := Machine.run_cons_eq_some.mp h
    obtain ⟨hp₁, hfed₁⟩ := wf_step hp h₁
    obtain ⟨hp', hfed⟩ := ih hp₁ h
    exact ⟨hp', hfed₁.trans hfed⟩

end Http3
end Hedra
