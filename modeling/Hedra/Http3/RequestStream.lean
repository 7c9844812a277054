/-
# A response on its stream

The parser of a request stream (`_receive_request_or_push_data` of
`core/engines/types/common/protocols/udp/quic_protocol.py`) stands somewhere within the frames of a
response: before the headers, at a header block that is not ready, or within the `DATA` frames.
Where it stands, and what is in the buffer together with what is still to come, says which data is
still missing; whatever chunk comes next, the data of its events and the data that is missing then
are the data that was missing before.

* `readFrames_headers`: a pass within the headers;
* `readFrames_body`: the loop within the body, before the stream has ended;
* `readFrames_end`: and when it has ended: the last event says so.
-/
import Hedra.Http3.Protocol

namespace Hedra
namespace Http3

open Lib

variable {C : Codec}

/-! ## 1. The bytes of a response -/

/-- The bytes of a frame, with its type and its data. -/
def IsFrame (C : Codec) (frameType : Nat) (data bytes : Bytes) : Prop :=
  ∃ h l, C.uintVar.Encodes h frameType ∧ C.uintVar.Encodes l data.length ∧
    bytes = h ++ (l ++ data)

/-- The bytes of the `DATA` frames with these payloads. -/
inductive DataFrames (C : Codec) : List Bytes → Bytes → Prop
  | nil : DataFrames C [] []
  | cons {d ds f bytes} (frame : IsFrame C FrameType.data d f) (frames : DataFrames C ds bytes) :
      DataFrames C (d :: ds) (f ++ bytes)

/-- The bytes of a response: the frame of its header block, and the frames of its body. -/
def IsResponse (C : Codec) (block : Bytes) (body : List Bytes) (bytes : Bytes) : Prop :=
  ∃ f data, IsFrame C FrameType.headers block f ∧ DataFrames C body data ∧ bytes = f ++ data

theorem IsFrame.ne_nil {t : Nat} {d f : Bytes} (h : IsFrame C t d f) : f ≠ [] := by
  obtain ⟨b, l, hb, -, rfl⟩ := h
  exact List.append_ne_nil_of_left_ne_nil hb.ne_nil _

theorem DataFrames.eq_nil_iff {ds : List Bytes} {bytes : Bytes} (h : DataFrames C ds bytes) :
    bytes = [] ↔ ds = [] := by
  cases h with
  | nil => simp
  | cons frame frames => simp [frame.ne_nil]

/-- What is fetched of a frame of which at least something is there. -/
theorem fetchFrame_cases {stream : H3Stream} (hsize : stream.frameSize = none) {t : Nat}
    (ht : t ≠ FrameType.webtransportStream) {d f rest future more : Bytes} (hf : IsFrame C t d f)
    (heq : rest ++ future = f ++ more) :
    (future ≠ [] ∧ ∃ frameType, fetchFrame C stream rest =
      .wait { stream with frameType := frameType }) ∨
    (∃ rest', fetchFrame C stream rest =
        .frame { stream with frameType := some t, frameSize := some d.length } d.length rest' ∧
      rest'.length < rest.length ∧ rest' ++ future = d ++ more) := by
  obtain ⟨h, l, hh, hl, rfl⟩ := hf
  rw [List.append_assoc] at heq
  have hwait {m : Bytes} {e : Bytes} {b : Nat} (he : C.uintVar.Encodes e b) {r : Bytes}
      (hr : m ++ future = e ++ r) (hnone : C.uintVar.pull m = none) : future ≠ [] := by
    rintro rfl
    rw [List.append_nil] at hr
    rw [hr, he.pull_append] at hnone
    cases hnone
  obtain ⟨streamId, blocked, buffer, ended, frameSize, frameType, state, pushId, sessionId, type⟩ :=
    stream
  obtain rfl : frameSize = none := hsize
  unfold fetchFrame
  cases ht' : C.uintVar.pull rest with
  | none => exact Or.inl ⟨hwait hh heq ht', frameType, rfl⟩
  | some p =>
    obtain ⟨t', rest₁⟩ := p
    obtain ⟨rfl, hrest, heq₁⟩ := hh.of_pull heq ht'
    rw [List.append_assoc] at heq₁
    cases hl' : C.uintVar.pull rest₁ with
    | none => exact Or.inl ⟨hwait hl heq₁.symm hl', some t', by simp [hl']⟩
    | some p =>
      obtain ⟨n, rest₂⟩ := p
      obtain ⟨rfl, -, heq₂⟩ := hl.of_pull heq₁.symm hl'
      have hlt := Pull.length_lt hl'
      have hlt' := Pull.length_lt ht'
      exact Or.inr ⟨rest₂, by simp [hl', ht], by omega, heq₂.symm⟩

/-! ## 2. Where the parser stands -/

/-- What the parser never changes between the headers and the end. -/
structure SameStream (stream stream' : H3Stream) : Prop where
  streamId : stream'.streamId = stream.streamId
  blocked : stream'.blocked = stream.blocked
  ended : stream'.ended = stream.ended
  state : stream'.headersRecvState = stream.headersRecvState
  pushId : stream'.pushId = stream.pushId
  sessionId : stream'.sessionId = stream.sessionId

theorem SameStream.refl (stream : H3Stream) : SameStream stream stream := ⟨rfl, rfl, rfl, rfl, rfl, rfl⟩

theorem SameStream.trans {s t u : H3Stream} (h : SameStream s t) (h' : SameStream t u) :
    SameStream s u :=
  ⟨h'.streamId.trans h.streamId, h'.blocked.trans h.blocked, h'.ended.trans h.ended,
    h'.state.trans h.state, h'.pushId.trans h.pushId, h'.sessionId.trans h.sessionId⟩

/-- The parser stands within the `DATA` frames: what it has not consumed, and the data in it. -/
inductive InBody (C : Codec) (stream : H3Stream) : Bytes → Bytes → Prop
  | between {ds bytes} (size : stream.frameSize = none) (frames : DataFrames C ds bytes) :
      InBody C stream bytes ds.flatten
  | within {d ds bytes} (ne : d ≠ []) (type : stream.frameType = some FrameType.data)
      (size : stream.frameSize = some d.length) (frames : DataFrames C ds bytes) :
      InBody C stream (d ++ bytes) (d ++ ds.flatten)

theorem InBody.eq_nil {stream : H3Stream} {u r : Bytes} (h : InBody C stream u r) (hu : u = []) :
    r = [] := by
  cases h with
  | between size frames => rw [frames.eq_nil_iff.mp hu, List.flatten_nil]
  | within ne type size frames => exact absurd (List.append_eq_nil_iff.mp hu).1 ne

/-- The event of a piece of the body. -/
def piece (stream : H3Stream) (streamEnded : Bool) (data : Bytes) : H3Event :=
  .dataReceived data stream.pushId stream.streamId streamEnded

theorem SameStream.piece {s t : H3Stream} (h : SameStream s t) : piece t = piece s := by
  funext e d
  rw [Http3.piece, Http3.piece, h.pushId, h.streamId]

/-- The events of a piece: none when there is nothing to say. -/
def pieceEvents (stream : H3Stream) (streamEnded : Bool) (data : Bytes) : List H3Event :=
  if streamEnded ∨ data ≠ [] then [piece stream streamEnded data] else []

theorem sameStream_detectEnd (stream : H3Stream) (left : Nat) :
    SameStream stream (stream.detectEnd left) := by
  unfold H3Stream.detectEnd
  split
  · exact ⟨rfl, rfl, rfl, rfl, rfl, rfl⟩
  · exact ⟨rfl, rfl, rfl, rfl, rfl, rfl⟩

theorem handle_data (decoder : Decoder) {stream : H3Stream} (data : Bytes) (streamEnded : Bool)
    (h : stream.headersRecvState = .afterHeaders) :
    handleRequestOrPushFrame C decoder (some FrameType.data) (some data) stream streamEnded =
      ⟨decoder, stream, .ok (pieceEvents stream streamEnded data)⟩ := by
  unfold handleRequestOrPushFrame pieceEvents piece
  rw [if_pos rfl, if_neg (not_not.mpr h), Option.getD_some]
  by_cases hp : streamEnded = true ∨ data ≠ []
  · rw [if_pos hp, if_pos hp]
  · rw [if_neg hp, if_neg hp]

/-- What a pass does with a `DATA` frame of which the type and the size are known. -/
theorem pass_data {stream : H3Stream} {d more rest future : Bytes} {ds : List Bytes}
    (htype : stream.frameType = some FrameType.data)
    (heq : rest ++ future = d ++ more) (hds : DataFrames C ds more) :
    let chunk := min d.length rest.length
    let stream' := stream.detectEnd (d.length - chunk)
    ∃ r, InBody C stream' (rest.drop chunk ++ future) r ∧
      d ++ ds.flatten = rest.take chunk ++ r := by
  intro chunk stream'
  rcases Nat.lt_or_ge rest.length d.length with hlt | hle
  · -- The frame goes on behind the chunk.
    obtain ⟨d', rfl⟩ : ∃ d', d = rest ++ d' := by
      rcases List.append_eq_append_iff.mp heq with ⟨c, rfl, -⟩ | ⟨c, rfl, -⟩
      · exact ⟨c, rfl⟩
      · rw [List.length_append] at hlt
        omega
    have hchunk : chunk = rest.length := Nat.min_eq_right (Nat.le_of_lt hlt)
    have hne : d' ≠ [] := by
      rintro rfl
      rw [List.append_nil] at hlt
      omega
    have hfut : future = d' ++ more := by
      rw [List.append_assoc] at heq
      exact List.append_cancel_left heq
    have hleft : (rest ++ d').length - chunk = d'.length := by
      rw [hchunk, List.length_append]
      omega
    have hpos := List.length_pos_iff.mpr hne
    refine ⟨d' ++ ds.flatten, ?_, by rw [hchunk, List.take_length, List.append_assoc]⟩
    rw [hchunk, List.drop_length, List.nil_append, hfut]
    refine .within hne ?_ ?_ hds
    · change (stream.detectEnd _).frameType = _
      rw [hleft, H3Stream.detectEnd, if_neg (by omega)]
      exact htype
    · change (stream.detectEnd _).frameSize = _
      rw [hleft, H3Stream.detectEnd, if_neg (by omega)]
  · -- The frame is there as a whole.
    obtain ⟨rest', rfl⟩ : ∃ rest', rest = d ++ rest' := by
      rcases List.append_eq_append_iff.mp heq with ⟨c, hc, -⟩ | ⟨c, rfl, -⟩
      · rw [hc, List.length_append] at hle
        have hnil : c = [] := List.eq_nil_of_length_eq_zero (by omega)
        exact ⟨[], by rw [hc, hnil, List.append_nil, List.append_nil]⟩
      · exact ⟨c, rfl⟩
    have hchunk : chunk = d.length := Nat.min_eq_left hle
    have hmore : rest' ++ future = more := by
      rw [List.append_assoc] at heq
      exact List.append_cancel_left heq
    refine ⟨ds.flatten, ?_, by rw [hchunk, List.take_left]⟩
    rw [hchunk, List.drop_left, hmore]
    refine .between ?_ hds
    change (stream.detectEnd _).frameSize = _
    rw [hchunk, Nat.sub_self]
    rfl

/-- A pass whose frame is there. -/
theorem readFrames_frame {stream stream₁ : H3Stream} {rest rest₁ : Bytes} {size : Nat}
    {decoder : Decoder} {streamEnded : Bool} (hne : rest ≠ [])
    (hfetch : fetchFrame C stream rest = .frame stream₁ size rest₁)
    (hthere : stream₁.frameType = some FrameType.data ∨ size ≤ rest₁.length) (fuel : Nat) :
    readFrames C streamEnded (fuel + 1) decoder stream rest =
      let rest' := rest₁.drop (min size rest₁.length)
      let h := handleRequestOrPushFrame C decoder stream₁.frameType
        (some (rest₁.take (min size rest₁.length)))
        (stream₁.detectEnd (size - min size rest₁.length)) (stream₁.ended && rest'.isEmpty)
      match h.result with
      | .ok events => (readFrames C streamEnded fuel h.decoder h.stream rest').after events
      | .error .streamBlocked =>
        ⟨h.decoder, { h.stream with blocked := true, buffer := rest' }, [], none⟩
      | .error e => ⟨h.decoder, h.stream, [], some e⟩ := by
  have hgo : ¬ (stream₁.frameType ≠ some FrameType.data ∧ min size rest₁.length < size) := by
    rintro ⟨htype, hlt⟩
    rcases hthere with h | h
    · exact htype h
    · rw [Nat.min_eq_left h] at hlt
      exact absurd hlt (Nat.lt_irrefl _)
  rw [readFrames, if_neg hne, hfetch]
  exact if_neg hgo

/-- A pass that gets at the data of a `DATA` frame. -/
theorem readFrames_data {stream stream₁ : H3Stream} {d more rest rest₁ future : Bytes}
    {ds : List Bytes} (hne : rest ≠ []) (hstate : stream.headersRecvState = .afterHeaders)
    (hfetch : fetchFrame C stream rest = .frame stream₁ d.length rest₁)
    (hsame : SameStream stream stream₁) (htype : stream₁.frameType = some FrameType.data)
    (heq : rest₁ ++ future = d ++ more) (hds : DataFrames C ds more)
    (hlen : rest₁.length < rest.length ∨ rest₁ = rest ∧ d ≠ []) (streamEnded : Bool) (fuel : Nat)
    (decoder : Decoder) :
    ∃ stream' data rest' r', SameStream stream stream' ∧ rest'.length < rest.length ∧
      InBody C stream' (rest' ++ future) r' ∧ d ++ ds.flatten = data ++ r' ∧
      readFrames C streamEnded (fuel + 1) decoder stream rest =
        (readFrames C streamEnded fuel decoder stream' rest').after
          (pieceEvents stream (stream.ended && rest'.isEmpty) data) := by
  obtain ⟨r', hbody', hr'⟩ := pass_data htype heq hds
  have hsame' := hsame.trans (sameStream_detectEnd stream₁ (d.length - min d.length rest₁.length))
  refine ⟨_, _, _, r', hsame', ?_, hbody', hr', ?_⟩
  · rw [List.length_drop]
    rcases hlen with hlt | ⟨rfl, hd⟩
    · omega
    · have := List.length_pos_iff.mpr hd
      have := List.length_pos_iff.mpr hne
      omega
  · rw [readFrames_frame hne hfetch (.inl htype)]
    simp only [htype, handle_data _ _ _ (hsame'.state.trans hstate), hsame.ended, pieceEvents,
      hsame'.piece]

/-- **A pass within the body.**  It waits, where something is still to come, or it consumes some data
and goes on. -/
theorem readFrames_pass {stream : H3Stream} {rest future r : Bytes} (hne : rest ≠ [])
    (hbody : InBody C stream (rest ++ future) r) (hstate : stream.headersRecvState = .afterHeaders)
    (streamEnded : Bool) (fuel : Nat) (decoder : Decoder) :
    (future ≠ [] ∧ ∃ stream', SameStream stream stream' ∧ stream'.buffer = rest ∧
      InBody C stream' (rest ++ future) r ∧
      readFrames C streamEnded (fuel + 1) decoder stream rest = ⟨decoder, stream', [], none⟩) ∨
    ∃ stream' data rest' r', SameStream stream stream' ∧ rest'.length < rest.length ∧
      InBody C stream' (rest' ++ future) r' ∧ r = data ++ r' ∧
      readFrames C streamEnded (fuel + 1) decoder stream rest =
        (readFrames C streamEnded fuel decoder stream' rest').after
          (pieceEvents stream (stream.ended && rest'.isEmpty) data) := by
  generalize hu : rest ++ future = u at hbody ⊢
  cases hbody with
  | between size frames =>
    cases frames with
    | nil => exact absurd (List.append_eq_nil_iff.mp hu).1 hne
    | cons frame frames =>
      rcases fetchFrame_cases size (by decide) frame hu with
        ⟨hfut, frameType, hfetch⟩ | ⟨rest₁, hfetch, hlen, heq⟩
      · refine Or.inl ⟨hfut, { stream with frameType := frameType, buffer := rest }, ?_, rfl,
          .between size (.cons frame frames), ?_⟩
        · exact ⟨rfl, rfl, rfl, rfl, rfl, rfl⟩
        · rw [readFrames, if_neg hne, hfetch]
      · exact Or.inr (readFrames_data hne hstate hfetch ⟨rfl, rfl, rfl, rfl, rfl, rfl⟩ rfl heq frames
          (.inl hlen) streamEnded fuel decoder)
  | @within d ds bytes ne type size frames =>
    have hfetch : fetchFrame C stream rest = .frame stream d.length rest := by
      rw [fetchFrame, size]
    exact Or.inr (readFrames_data hne hstate hfetch (.refl stream) type hu frames
      (.inr ⟨rfl, ne⟩) streamEnded fuel decoder)

/-! ## 3. Runs of the parser within the body -/

theorem InBody.congr {stream stream' : H3Stream} {u r : Bytes} (h : InBody C stream u r)
    (hsize : stream'.frameSize = stream.frameSize) (htype : stream'.frameType = stream.frameType) :
    InBody C stream' u r := by
  cases h with
  | between size frames => exact .between (hsize.trans size) frames
  | within ne type size frames => exact .within ne (htype.trans type) (hsize.trans size) frames

theorem readFrames_nil (streamEnded : Bool) (fuel : Nat) (decoder : Decoder) (stream : H3Stream) :
    readFrames C streamEnded fuel decoder stream [] =
      ⟨decoder, { stream with buffer := [] }, [], none⟩ := by
  cases fuel with
  | zero => rfl
  | succ fuel => rw [readFrames, if_pos rfl]

theorem exists_pieces (stream : H3Stream) (data : Bytes) :
    ∃ parts : List Bytes, pieceEvents stream false data = parts.map (piece stream false) ∧
      parts.flatten = data := by
  by_cases h : data = []
  · exact ⟨[], by simp [pieceEvents, h], by rw [h, List.flatten_nil]⟩
  · exact ⟨[data], by simp [pieceEvents, h], List.flatten_singleton⟩

/-- **The loop within the body, before the stream ends.** -/
theorem readFrames_body (streamEnded : Bool) (decoder : Decoder) {future : Bytes} :
    ∀ {fuel : Nat} {stream : H3Stream} {rest r : Bytes}, rest.length < fuel →
      InBody C stream (rest ++ future) r → stream.headersRecvState = .afterHeaders →
      stream.ended = false →
      ∃ (stream' : H3Stream) (parts : List Bytes) (r' : Bytes), SameStream stream stream' ∧ stream'.buffer.length ≤ rest.length ∧
        InBody C stream' (stream'.buffer ++ future) r' ∧ r = parts.flatten ++ r' ∧
        readFrames C streamEnded fuel decoder stream rest =
          ⟨decoder, stream', parts.map (piece stream false), none⟩
  | 0, _, _, _, hfuel, _, _, _ => absurd hfuel (Nat.not_lt_zero _)
  | fuel + 1, stream, rest, r, hfuel, hbody, hstate, hended => by
    by_cases hne : rest = []
    · subst hne
      exact ⟨{ stream with buffer := [] }, [], r, ⟨rfl, rfl, rfl, rfl, rfl, rfl⟩, Nat.le_refl _,
        hbody.congr rfl rfl, rfl, readFrames_nil ..⟩
    · rcases readFrames_pass hne hbody hstate streamEnded fuel decoder with
        ⟨-, stream', hsame, hbuffer, hbody', hread⟩ |
        ⟨stream₁, data, rest₁, r₁, hsame, hlen, hbody₁, rfl, hread⟩
      · refine ⟨stream', [], r, hsame, Nat.le_of_eq (by rw [hbuffer]), ?_, rfl, hread⟩
        rwa [hbuffer]
      · obtain ⟨stream', parts, r', hsame', hlen', hbody', rfl, hread'⟩ :=
          readFrames_body streamEnded decoder (by omega : rest₁.length < fuel) hbody₁
            (hsame.state.trans hstate) (hsame.ended.trans hended)
        obtain ⟨pieces, hpieces, hdata⟩ := exists_pieces stream data
        refine ⟨stream', pieces ++ parts, r', hsame.trans hsame', by omega, hbody', ?_, ?_⟩
        · rw [List.flatten_append, hdata, List.append_assoc]
        · rw [hread, hread', hended, Bool.false_and, hpieces, hsame.piece, List.map_append]
          rfl

/-- **The loop within the body when the stream has ended.**  Its last event says so. -/
theorem readFrames_end (streamEnded : Bool) (decoder : Decoder) :
    ∀ {fuel : Nat} {stream : H3Stream} {rest r : Bytes}, rest.length < fuel → rest ≠ [] →
      InBody C stream rest r → stream.headersRecvState = .afterHeaders → stream.ended = true →
      ∃ (stream' : H3Stream) (parts : List Bytes) (last : Bytes), SameStream stream stream' ∧ stream'.buffer = [] ∧
        r = parts.flatten ++ last ∧
        readFrames C streamEnded fuel decoder stream rest =
          ⟨decoder, stream', parts.map (piece stream false) ++ [piece stream true last], none⟩
  | 0, _, _, _, hfuel, _, _, _, _ => absurd hfuel (Nat.not_lt_zero _)
  | fuel + 1, stream, rest, r, hfuel, hne, hbody, hstate, hended => by
    rw [← List.append_nil rest] at hbody
    rcases readFrames_pass hne hbody hstate streamEnded fuel decoder with
      ⟨hfut, -⟩ | ⟨stream₁, data, rest₁, r₁, hsame, hlen, hbody₁, rfl, hread⟩
    · exact absurd rfl hfut
    · rw [List.append_nil] at hbody₁
      rw [hended, Bool.true_and] at hread
      by_cases hne₁ : rest₁ = []
      · obtain rfl := hbody₁.eq_nil hne₁
        subst hne₁
        rw [readFrames_nil] at hread
        refine ⟨{ stream₁ with buffer := [] }, [], data, hsame.trans ⟨rfl, rfl, rfl, rfl, rfl, rfl⟩,
          rfl, List.append_nil _, ?_⟩
        rw [hread, List.isEmpty_nil, pieceEvents, if_pos (Or.inl rfl)]
        rfl
      · obtain ⟨stream', parts, last, hsame', hbuffer, rfl, hread'⟩ :=
          readFrames_end streamEnded decoder (by omega : rest₁.length < fuel) hne₁ hbody₁
            (hsame.state.trans hstate) (hsame.ended.trans hended)
        obtain ⟨pieces, hpieces, hdata⟩ := exists_pieces stream data
        refine ⟨stream', pieces ++ parts, last, hsame.trans hsame', hbuffer, ?_, ?_⟩
        · rw [List.flatten_append, hdata, List.append_assoc]
        · rw [hread, hread', List.isEmpty_eq_false_iff.mpr hne₁, hpieces, hsame.piece,
            List.map_append, List.append_assoc]
          rfl

/-! ## 4. Data that comes in within the body -/

/-- The stream reads a response: it is no WebTransport stream, and it does not wait for QPACK. -/
structure Reading (stream : H3Stream) : Prop where
  blocked : stream.blocked = false
  sessionId : stream.sessionId = none

theorem Reading.receive_eq {stream : H3Stream} (h : Reading stream) (decoder : Decoder)
    (data : Bytes) (streamEnded : Bool) :
    receiveRequestOrPushData C decoder stream data streamEnded =
      let stream := stream.extend data streamEnded
      if stream.frameType = some FrameType.data ∧
          ∃ size ∈ stream.frameSize, stream.buffer.length < size then
        ⟨decoder, { stream with
            frameSize := stream.frameSize.map (· - stream.buffer.length)
            buffer := [] },
          [.dataReceived stream.buffer stream.pushId stream.streamId false], none⟩
      else if streamEnded ∧ stream.buffer = [] then
        ⟨decoder, stream, [.dataReceived [] stream.pushId stream.streamId true], none⟩
      else readFrames C streamEnded (stream.buffer.length + 2) decoder stream stream.buffer := by
  have hblocked : ¬ (stream.extend data streamEnded).blocked = true :=
    Bool.eq_false_iff.mp h.blocked
  have hsession : ¬ ((stream.extend data streamEnded).frameType =
      some FrameType.webtransportStream ∧ (stream.extend data streamEnded).sessionId ≠ none) :=
    fun hw => hw.2 h.sessionId
  unfold receiveRequestOrPushData
  rw [if_neg hblocked, if_neg hsession]

theorem receive_body {stream : H3Stream} {data future r : Bytes} (h : Reading stream)
    (hstate : stream.headersRecvState = .afterHeaders) (hended : stream.ended = false)
    (hbody : InBody C stream (stream.buffer ++ data ++ future) r) (decoder : Decoder) :
    ∃ (stream' : H3Stream) (parts : List Bytes) (r' : Bytes), SameStream stream stream' ∧
      stream'.buffer.length ≤ (stream.buffer ++ data).length ∧
      InBody C stream' (stream'.buffer ++ future) r' ∧ r = parts.flatten ++ r' ∧
      receiveRequestOrPushData C decoder stream data false =
        ⟨decoder, stream', parts.map (piece stream false), none⟩ := by
  have hbody₁ : InBody C (stream.extend data false) (stream.buffer ++ data ++ future) r :=
    hbody.congr rfl rfl
  obtain ⟨stream', parts, r', hsame, hlen, hbody', hr, hread⟩ := readFrames_body false decoder
    (by omega : (stream.buffer ++ data).length < (stream.buffer ++ data).length + 2) hbody₁ hstate
    ((Bool.or_false _).trans hended)
  have hsame' : SameStream stream stream' :=
    ⟨hsame.streamId, hsame.blocked, hsame.ended.trans (Bool.or_false _), hsame.state, hsame.pushId,
      hsame.sessionId⟩
  rw [h.receive_eq]
  simp only [Bool.false_eq_true, false_and, if_false]
  split
  · next hfrag =>
    -- The shortcut: all of the buffer belongs to the frame that is being read.
    obtain ⟨htype, size, hsize, hlt⟩ := hfrag
    have hsize : stream.frameSize = some size := hsize
    have hlt : (stream.buffer ++ data).length < size := hlt
    generalize hu : stream.buffer ++ data ++ future = u at hbody
    cases hbody with
    | between hnone frames => rw [hnone] at hsize; cases hsize
    | @within d ds bytes ne type hsome frames =>
      obtain rfl : d.length = size := by
        rw [hsome] at hsize
        exact Option.some.inj hsize
      obtain ⟨d', rfl⟩ : ∃ d', d = stream.buffer ++ data ++ d' := by
        rcases List.append_eq_append_iff.mp hu with ⟨c, rfl, -⟩ | ⟨c, hc, -⟩
        · exact ⟨c, rfl⟩
        · have := congrArg List.length hc
          rw [@List.length_append _ d] at this
          omega
      have hfut : future = d' ++ bytes := by
        rw [List.append_assoc _ d'] at hu
        exact List.append_cancel_left hu
      have hne' : d' ≠ [] := by
        rintro rfl
        rw [List.append_nil] at hlt
        exact absurd hlt (Nat.lt_irrefl _)
      refine ⟨_, [stream.buffer ++ data], d' ++ ds.flatten, ?_, ?_, ?_, ?_, rfl⟩
      · exact ⟨rfl, rfl, Bool.or_false _, rfl, rfl, rfl⟩
      · exact Nat.zero_le _
      · rw [hfut]
        refine .within hne' type ?_ frames
        change stream.frameSize.map (· - (stream.buffer ++ data).length) = some d'.length
        rw [hsome, Option.map_some, List.length_append, Nat.add_sub_cancel_left]
      · rw [List.flatten_singleton, List.append_assoc]
  · exact ⟨stream', parts, r', hsame', hlen, hbody', hr, hread⟩

/-- The end of the stream, with data or alone. -/
theorem receive_end {stream : H3Stream} {data r : Bytes} (h : Reading stream)
    (hstate : stream.headersRecvState = .afterHeaders)
    (hbody : InBody C stream (stream.buffer ++ data) r) (decoder : Decoder) :
    ∃ (stream' : H3Stream) (parts : List Bytes) (last : Bytes), SameStream { stream with ended := true } stream' ∧ stream'.buffer = [] ∧
      r = parts.flatten ++ last ∧
      receiveRequestOrPushData C decoder stream data true =
        ⟨decoder, stream', parts.map (piece stream false) ++ [piece stream true last], none⟩ := by
  rw [h.receive_eq]
  simp only [true_and]
  split
  · next hfrag =>
    obtain ⟨htype, size, hsize, hlt⟩ := hfrag
    have hsize : stream.frameSize = some size := hsize
    have hlt : (stream.buffer ++ data).length < size := hlt
    generalize stream.buffer ++ data = u at hbody hlt
    cases hbody with
    | between hnone frames => rw [hnone] at hsize; cases hsize
    | within ne type hsome frames =>
      rw [hsome] at hsize
      obtain rfl := Option.some.inj hsize
      rw [List.length_append] at hlt
      omega
  · split
    · next hnil =>
      refine ⟨_, [], [], ?_, hnil, hbody.eq_nil hnil, rfl⟩
      exact ⟨rfl, rfl, Bool.or_true _, rfl, rfl, rfl⟩
    · next hne =>
      have hbody₁ : InBody C (stream.extend data true) (stream.buffer ++ data) r :=
        hbody.congr rfl rfl
      obtain ⟨stream', parts, last, hsame, hbuffer, hr, hread⟩ := readFrames_end true decoder
        (by omega : (stream.buffer ++ data).length < (stream.buffer ++ data).length + 2) hne hbody₁
        hstate (Bool.or_true _)
      have hsame' : SameStream { stream with ended := true } stream' :=
        ⟨hsame.streamId, hsame.blocked, hsame.ended.trans (Bool.or_true _), hsame.state,
          hsame.pushId, hsame.sessionId⟩
      exact ⟨stream', parts, last, hsame', hbuffer, hr, hread⟩

/-! ## 5. The headers -/

variable (C) in
/-- The parser stands before the header block, or within it. -/
inductive InHeaders (block : Bytes) (body : List Bytes) (stream : H3Stream) : Bytes → Prop
  | before {bytes} (size : stream.frameSize = none) (response : IsResponse C block body bytes) :
      InHeaders block body stream bytes
  | within {bytes} (type : stream.frameType = some FrameType.headers)
      (size : stream.frameSize = some block.length) (frames : DataFrames C body bytes) :
      InHeaders block body stream (block ++ bytes)

/-- The event of the headers. -/
def headersEvent (stream : H3Stream) (headers : Headers) (streamEnded : Bool) : H3Event :=
  .headersReceived ⟨headers, stream.pushId, stream.streamId, streamEnded⟩

/-- A `HEADERS` frame of a response whose block is decoded, now or after it has waited. -/
theorem handle_decoded {decoder decoder' : Decoder} {stream : H3Stream} {frameData : Option Bytes}
    {headers : Headers} (hstate : stream.headersRecvState = .initial)
    (hvalid : validateHeaders responsePseudoHeaders responsePseudoHeaders headers = none)
    (hdecoded : decodeHeaders C decoder stream.streamId frameData = (decoder', .ok headers))
    (streamEnded : Bool) :
    handleRequestOrPushFrame C decoder (some FrameType.headers) frameData stream streamEnded =
      ⟨decoder', { stream with headersRecvState := .afterHeaders },
        .ok [headersEvent stream headers streamEnded]⟩ := by
  have hdata : ¬ some FrameType.headers = some FrameType.data := by decide
  have htrailers : ¬ stream.headersRecvState = .afterTrailers := by rw [hstate]; decide
  unfold handleRequestOrPushFrame
  rw [if_neg hdata, if_pos rfl, if_neg htrailers, hdecoded]
  simp only [H3Stream.receiveHeaders, hstate, if_true, hvalid, headersEvent]

theorem handle_headers {decoder : Decoder} {stream : H3Stream} {block : Bytes} {headers : Headers}
    (hstate : stream.headersRecvState = .initial)
    (hvalid : validateHeaders responsePseudoHeaders responsePseudoHeaders headers = none)
    (hready : C.ready decoder.fed block) (hdecode : C.decode decoder.fed block = some headers)
    (streamEnded : Bool) :
    handleRequestOrPushFrame C decoder (some FrameType.headers) (some block) stream streamEnded =
      ⟨decoder, { stream with headersRecvState := .afterHeaders },
        .ok [headersEvent stream headers streamEnded]⟩ := by
  refine handle_decoded hstate hvalid ?_ streamEnded
  rw [decodeHeaders, if_pos hready, decoded, hdecode]

theorem handle_headers_blocked {decoder : Decoder} {stream : H3Stream} {block : Bytes}
    (hstate : stream.headersRecvState = .initial) (hready : ¬ C.ready decoder.fed block)
    (streamEnded : Bool) :
    handleRequestOrPushFrame C decoder (some FrameType.headers) (some block) stream streamEnded =
      ⟨{ decoder with pending := decoder.pending.set stream.streamId block }, stream,
        .error .streamBlocked⟩ := by
  have hdata : ¬ some FrameType.headers = some FrameType.data := by decide
  have htrailers : ¬ stream.headersRecvState = .afterTrailers := by rw [hstate]; decide
  unfold handleRequestOrPushFrame
  rw [if_neg hdata, if_pos rfl, if_neg htrailers]
  simp only [decodeHeaders, if_neg hready]

/-- What a pass makes of the header block: it is handled, or it waits for QPACK. -/
structure HeaderPass (C : Codec) (block : Bytes) (body : List Bytes) (stream : H3Stream)
    (future : Bytes) (decoder : Decoder) (fuel : Nat) (streamEnded : Bool) (result : Received)
    (stream₁ : H3Stream) (rest' : Bytes) : Prop where
  same : SameStream stream stream₁
  size : stream₁.frameSize = none
  frames : DataFrames C body (rest' ++ future)
  handled : ∀ headers, validateHeaders responsePseudoHeaders responsePseudoHeaders headers = none →
    C.ready decoder.fed block → C.decode decoder.fed block = some headers →
    result = (readFrames C streamEnded fuel decoder
      { stream₁ with headersRecvState := .afterHeaders } rest').after
        [headersEvent stream headers (stream.ended && rest'.isEmpty)]
  blocked : ¬ C.ready decoder.fed block →
    result = ⟨{ decoder with pending := decoder.pending.set stream.streamId block },
      { stream₁ with blocked := true, buffer := rest' }, [], none⟩

/-- The pass when the type and the size of the frame are known. -/
theorem readFrames_headers_frame {block more rest rest₁ future : Bytes} {body : List Bytes}
    {stream stream₁ : H3Stream} (hne : rest ≠ []) (hstate : stream.headersRecvState = .initial)
    (hfetch : fetchFrame C stream rest = .frame stream₁ block.length rest₁)
    (hsame : SameStream stream stream₁) (htype : stream₁.frameType = some FrameType.headers)
    (hsize : stream₁.frameSize = some block.length) (hlen : rest₁.length ≤ rest.length)
    (heq : rest₁ ++ future = block ++ more) (hds : DataFrames C body more) (decoder : Decoder)
    (fuel : Nat) (streamEnded : Bool) :
    (future ≠ [] ∧ ∃ stream', SameStream stream stream' ∧
      InHeaders C block body stream' (stream'.buffer ++ future) ∧
      readFrames C streamEnded (fuel + 1) decoder stream rest = ⟨decoder, stream', [], none⟩) ∨
    ∃ stream' rest', rest'.length ≤ rest.length ∧
      HeaderPass C block body stream future decoder fuel streamEnded
        (readFrames C streamEnded (fuel + 1) decoder stream rest) stream' rest' := by
  rcases Nat.lt_or_ge rest₁.length block.length with hlt | hle
  · -- The block is not there as a whole.
    refine Or.inl ⟨?_, { stream₁ with buffer := rest₁ }, ?_, ?_, ?_⟩
    · rintro rfl
      have := congrArg List.length heq
      rw [List.append_nil, List.length_append] at this
      omega
    · exact hsame.trans ⟨rfl, rfl, rfl, rfl, rfl, rfl⟩
    · rw [heq]
      exact .within htype hsize hds
    · have hdata : ¬ stream₁.frameType = some FrameType.data := by rw [htype]; decide
      have hwait : stream₁.frameType ≠ some FrameType.data ∧
          min block.length rest₁.length < block.length := ⟨hdata, by omega⟩
      rw [readFrames, if_neg hne, hfetch]
      simp only [hwait, ne_eq, not_false_eq_true, and_self, if_true]
  · obtain ⟨rest', rfl⟩ : ∃ rest', rest₁ = block ++ rest' := by
      rcases List.append_eq_append_iff.mp heq with ⟨c, hc, -⟩ | ⟨c, rfl, -⟩
      · rw [hc, List.length_append] at hle
        have hnil : c = [] := List.eq_nil_of_length_eq_zero (by omega)
        exact ⟨[], by rw [hc, hnil, List.append_nil, List.append_nil]⟩
      · exact ⟨c, rfl⟩
    have hmin : min block.length (block ++ rest').length = block.length := Nat.min_eq_left hle
    have hmore : rest' ++ future = more := by
      rw [List.append_assoc] at heq
      exact List.append_cancel_left heq
    have hend := sameStream_detectEnd stream₁ 0
    have hstate₁ : (stream₁.detectEnd 0).headersRecvState = .initial :=
      (hend.state.trans hsame.state).trans hstate
    refine Or.inr ⟨stream₁.detectEnd 0, rest', ?_, hsame.trans hend, rfl, ?_, ?_, ?_⟩
    · rw [List.length_append] at hlen
      omega
    · rwa [hmore]
    · intro headers hvalid hready hdecode
      have hhandle := handle_headers hstate₁ hvalid hready hdecode
        (stream.ended && rest'.isEmpty)
      have hevent : headersEvent (stream₁.detectEnd 0) headers (stream.ended && rest'.isEmpty) =
          headersEvent stream headers (stream.ended && rest'.isEmpty) := by
        rw [headersEvent, headersEvent, hend.streamId, hsame.streamId, hend.pushId, hsame.pushId]
      rw [hevent] at hhandle
      rw [readFrames_frame hne hfetch (.inr hle)]
      simp only [hmin, List.take_left, List.drop_left, Nat.sub_self, htype, hsame.ended, hhandle]
    · intro hready
      have hhandle := handle_headers_blocked hstate₁ hready
        (stream.ended && rest'.isEmpty)
      rw [hend.streamId, hsame.streamId] at hhandle
      rw [readFrames_frame hne hfetch (.inr hle)]
      simp only [hmin, List.take_left, List.drop_left, Nat.sub_self, htype, hsame.ended, hhandle]

/-- **A pass within the headers.** -/
theorem readFrames_headers {block rest future : Bytes} {body : List Bytes} {stream : H3Stream}
    (hne : rest ≠ []) (hstate : stream.headersRecvState = .initial)
    (hin : InHeaders C block body stream (rest ++ future)) (decoder : Decoder) (fuel : Nat)
    (streamEnded : Bool) :
    (future ≠ [] ∧ ∃ stream', SameStream stream stream' ∧
      InHeaders C block body stream' (stream'.buffer ++ future) ∧
      readFrames C streamEnded (fuel + 1) decoder stream rest = ⟨decoder, stream', [], none⟩) ∨
    ∃ stream' rest', rest'.length ≤ rest.length ∧
      HeaderPass C block body stream future decoder fuel streamEnded
        (readFrames C streamEnded (fuel + 1) decoder stream rest) stream' rest' := by
  generalize hu : rest ++ future = u at hin
  cases hin with
  | before size response =>
    obtain ⟨f, data, frame, frames, rfl⟩ := response
    rcases fetchFrame_cases size (by decide) frame hu with
      ⟨hfut, frameType, hfetch⟩ | ⟨rest₁, hfetch, hlen, heq⟩
    · refine Or.inl ⟨hfut, { stream with frameType := frameType, buffer := rest }, ?_, ?_, ?_⟩
      · exact ⟨rfl, rfl, rfl, rfl, rfl, rfl⟩
      · rw [hu]
        exact .before size ⟨f, data, frame, frames, rfl⟩
      · rw [readFrames, if_neg hne, hfetch]
    · exact readFrames_headers_frame hne hstate hfetch ⟨rfl, rfl, rfl, rfl, rfl, rfl⟩ rfl rfl
        (Nat.le_of_lt hlen) heq frames decoder fuel streamEnded
  | within type size frames =>
    have hfetch : fetchFrame C stream rest = .frame stream block.length rest := by
      rw [fetchFrame, size]
    exact readFrames_headers_frame hne hstate hfetch (.refl stream) type size (Nat.le_refl _) hu
      frames decoder fuel streamEnded

end Http3
end Hedra
