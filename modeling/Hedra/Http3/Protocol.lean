/-
# The HTTP/3 protocol

`QuicProtocol` (`core/engines/types/common/protocols/udp/quic_protocol.py`) as far as it reads:
`quic_event_received` takes the data of a stream as QUIC gives it out, in chunks, parses the frames
in it and hands what they say to the waiters of the requests.  The parser of frames, the integers of
QUIC and the decoder of header blocks are those of other packages; what the code relies on of them
is a `Codec`.

This file has the steps of a connection: data on a request stream or on a unidirectional one, a
request, a time-out.  What they do to one stream is in `Views.lean`.
-/
import Hedra.Lib.Dict
import Hedra.Lib.Machine
import Hedra.Lib.Pull

namespace Hedra
namespace Http3

open Lib

abbrev Bytes := List UInt8

abbrev Headers := List (Bytes × Bytes)

/-! ## 1. What is called -/

/-- aioquic's `Buffer` and stream numbers, and pylsqpack.

A decoder is what it was fed of the peer's encoder stream: it says whether a header block can be
decoded already, and into what.  More of the stream changes neither. -/
structure Codec where
  uintVar : Pull UInt8 Nat
  /-- `stream_is_unidirectional` -/
  isUnidirectional : Nat → Bool
  /-- `feed_encoder` raises nothing on this much of the encoder stream. -/
  encoderStreamOk : Bytes → Bool
  /-- `feed_decoder` raises nothing on this much of the decoder stream. -/
  decoderStreamOk : Bytes → Bool
  /-- The block refers to nothing that is not there yet. -/
  ready : Bytes → Bytes → Bool
  /-- The headers of a block, or `DecompressionFailed`. -/
  decode : Bytes → Bytes → Option Headers
  /-- The order in which a set of stream numbers is gone through. -/
  setOrder : List Nat → List Nat
  encoderStreamOk_prefix : ∀ {fed more}, encoderStreamOk (fed ++ more) → encoderStreamOk fed
  decoderStreamOk_prefix : ∀ {fed more}, decoderStreamOk (fed ++ more) → decoderStreamOk fed
  ready_append : ∀ {fed block}, ready fed block → ∀ more, ready (fed ++ more) block
  decode_append : ∀ {fed block}, ready fed block → ∀ more,
    decode (fed ++ more) block = decode fed block
  setOrder_perm : ∀ ids, (setOrder ids).Perm ids

/-! ## 2. Errors -/

/-- The texts of `validate_headers`. -/
inductive MessageError
  /-- `"Header %r contains uppercase letters"` -/
  | uppercase
      (key : Bytes)
  /-- `"Pseudo-header %r is not allowed after regular headers"` -/
  | afterRegular
      (key : Bytes)
  /-- `"Pseudo-header %r is not valid"` -/
  | notValid
      (key : Bytes)
  /-- `"Pseudo-header %r is included twice"` -/
  | twice
      (key : Bytes)
  /-- `"Pseudo-headers %s are missing"` -/
  | missing
      (keys : List Bytes)
  /-- `"Pseudo-header b':authority' cannot be empty"` -/
  | emptyAuthority
  /-- `"Pseudo-header b':path' cannot be empty"` -/
  | emptyPath
deriving DecidableEq

inductive SettingsError
  /-- `"Setting identifier 0x%x is reserved"` -/
  | reserved
      (setting : Nat)
  /-- `"Setting identifier 0x%x is included twice"` -/
  | twice
      (setting : Nat)
  /-- `f"{setting.name} setting must be 0 or 1"` -/
  | notBool
      (name : String)
  /-- `"H3_DATAGRAM requires max_datagram_frame_size transport parameter"` -/
  | noDatagrams
  /-- `"ENABLE_WEBTRANSPORT requires H3_DATAGRAM"` -/
  | noH3Datagram
deriving DecidableEq

inductive ProtocolError
  | general
      (reasonPhrase : String)
  | qpackDecompressionFailed
  | qpackDecoderStream
  | qpackEncoderStream
  | closedCriticalStream
      (reasonPhrase : String)
  | frameUnexpected
      (reasonPhrase : String)
  | message
      (error : MessageError)
  | missingSettings
  | settings
      (error : SettingsError)
  | streamCreation
      (reasonPhrase : String)
deriving DecidableEq

/-- `error_code` -/
def ProtocolError.errorCode : ProtocolError → Nat
  | .general _ => 0x101
  | .qpackDecompressionFailed => 0x200
  | .qpackDecoderStream => 0x202
  | .qpackEncoderStream => 0x201
  | .closedCriticalStream _ => 0x104
  | .frameUnexpected _ => 0x105
  | .message _ => 0x10E
  | .missingSettings => 0x10A
  | .settings _ => 0x109
  | .streamCreation _ => 0x103

/-- What is raised. -/
inductive Raised
  | protocol
      (error : ProtocolError)
  /-- pylsqpack's `StreamBlocked` -/
  | streamBlocked
  /-- aioquic's `BufferReadError` -/
  | bufferRead
  /-- `Exception('Err. - Stream failed')` -/
  | streamFailed
deriving DecidableEq

/-! ## 3. Headers -/

/-- The bytes of an ASCII text. -/
def ascii (s : String) : Bytes := s.toUTF8.data.toList

/-- The regular expression `[A-Z]` finds something. -/
def hasUppercase (key : Bytes) : Bool := key.any fun b => 65 ≤ b && b ≤ 90

/-- The loop of `validate_headers`, with the pseudo-headers it has seen. -/
def checkHeaders (allowed : List Bytes) :
    Bool → List (Bytes × Bytes) → Headers → Except MessageError (List (Bytes × Bytes))
  | _, seen, [] => .ok seen
  | afterPseudo, seen, (key, value) :: headers =>
    if hasUppercase key then .error (.uppercase key)
    else if (ascii ":").isPrefixOf key then
      if afterPseudo then .error (.afterRegular key)
      else if key ∉ allowed then .error (.notValid key)
      else if key ∈ seen.map Prod.fst then .error (.twice key)
      else checkHeaders allowed afterPseudo (seen ++ [(key, value)]) headers
    else checkHeaders allowed true seen headers

/-- The value of a pseudo-header, `b""` when it has none. -/
def pseudo (seen : List (Bytes × Bytes)) (key : String) : Bytes :=
  ((seen.find? fun p => p.1 = ascii key).map Prod.snd).getD []

def validateHeaders (allowed required : List Bytes) (headers : Headers) : Option MessageError :=
  match checkHeaders allowed false [] headers with
  | .error e => some e
  | .ok seen =>
    let missing := required.filter (· ∉ seen.map Prod.fst)
    if missing ≠ [] then some (.missing missing)
    else if pseudo seen ":scheme" ∈ [ascii "http", ascii "https"] then
      if pseudo seen ":authority" = [] then some .emptyAuthority
      else if pseudo seen ":path" = [] then some .emptyPath
      else none
    else none

def responsePseudoHeaders : List Bytes := [ascii ":status"]

/-- In the order in which `sorted` puts them. -/
def requestPseudoHeaders : List Bytes :=
  [ascii ":authority", ascii ":method", ascii ":path", ascii ":scheme"]

/-! ## 4. Streams and events -/

namespace FrameType

def data : Nat := 0x0
def headers : Nat := 0x1
def priority : Nat := 0x2
def cancelPush : Nat := 0x3
def settings : Nat := 0x4
def pushPromise : Nat := 0x5
def goaway : Nat := 0x7
def maxPushId : Nat := 0xD
def duplicatePush : Nat := 0xE
def webtransportStream : Nat := 0x41

end FrameType

inductive HeadersState
  | initial
  | afterHeaders
  | afterTrailers
deriving DecidableEq

structure H3Stream where
  streamId : Nat
  blocked : Bool := false
  buffer : Bytes := []
  ended : Bool := false
  frameSize : Option Nat := none
  frameType : Option Nat := none
  headersRecvState : HeadersState := .initial
  pushId : Option Nat := none
  sessionId : Option Nat := none
  streamType : Option Nat := none
deriving DecidableEq

structure HeadersReceived where
  headers : Headers
  pushId : Option Nat
  streamId : Nat
  streamEnded : Bool
deriving DecidableEq

inductive H3Event
  | headersReceived
      (event : HeadersReceived)
  | dataReceived
      (data : Bytes) (pushId : Option Nat) (streamId : Nat) (streamEnded : Bool)
  | pushPromiseReceived
      (headers : Headers) (pushId streamId : Nat)
  | webTransportStreamDataReceived
      (data : Bytes) (sessionId : Nat) (streamId : Nat) (streamEnded : Bool)
deriving DecidableEq

/-- `pylsqpack.Decoder`: what it was fed, and the blocks that wait for more. -/
structure Decoder where
  fed : Bytes
  pending : Dict Nat Bytes
deriving DecidableEq

/-! ## 5. Frames on a request or push stream -/

section Frames

variable (C : Codec)

/-- What a block decodes to. -/
def decoded (fed block : Bytes) : Except Raised Headers :=
  match C.decode fed block with
  | none => .error (.protocol .qpackDecompressionFailed)
  | some headers => .ok headers

/-- `_decode_headers`.  A block that is not ready waits under its stream; `none` resumes it. -/
def decodeHeaders (decoder : Decoder) (streamId : Nat) :
    Option Bytes → Decoder × Except Raised Headers
  | some block =>
    if C.ready decoder.fed block then (decoder, decoded C decoder.fed block)
    else ({ decoder with pending := decoder.pending.set streamId block }, .error .streamBlocked)
  | none =>
    match decoder.pending.get? streamId with
    | none => (decoder, .error .streamBlocked)
    | some block =>
      if C.ready decoder.fed block then
        ({ decoder with pending := decoder.pending.erase streamId }, decoded C decoder.fed block)
      else (decoder, .error .streamBlocked)

/-- What handling a frame leaves. -/
structure Handled where
  decoder : Decoder
  stream : H3Stream
  result : Except Raised (List H3Event)

/-- A `HEADERS` frame whose block was decoded. -/
def H3Stream.receiveHeaders (stream : H3Stream) (streamEnded : Bool) (headers : Headers) :
    H3Stream × Except Raised (List H3Event) :=
  let required := if stream.headersRecvState = .initial then responsePseudoHeaders else []
  match validateHeaders required required headers with
  | some e => (stream, .error (.protocol (.message e)))
  | none =>
    ({ stream with headersRecvState :=
        if stream.headersRecvState = .initial then .afterHeaders else .afterTrailers },
      .ok [.headersReceived ⟨headers, stream.pushId, stream.streamId, streamEnded⟩])

/-- A `PUSH_PROMISE` frame on a request stream. -/
def receivePushPromise (decoder : Decoder) (stream : H3Stream) (frameData : Bytes) :
    Decoder × Except Raised (List H3Event) :=
  match C.uintVar.pull frameData with
  | none => (decoder, .error .bufferRead)
  | some (pushId, block) =>
    match decodeHeaders C decoder stream.streamId (some block) with
    | (decoder, .error e) => (decoder, .error e)
    | (decoder, .ok headers) =>
      match validateHeaders requestPseudoHeaders requestPseudoHeaders headers with
      | some e => (decoder, .error (.protocol (.message e)))
      | none => (decoder, .ok [.pushPromiseReceived headers pushId stream.streamId])

/-- The frame types that are not allowed on a request or push stream. -/
def forbiddenOnRequest : List Nat :=
  [FrameType.priority, FrameType.cancelPush, FrameType.settings, FrameType.pushPromise,
    FrameType.goaway, FrameType.maxPushId, FrameType.duplicatePush]

/-- `_handle_request_or_push_frame` -/
def handleRequestOrPushFrame (decoder : Decoder) (frameType : Option Nat)
    (frameData : Option Bytes) (stream : H3Stream) (streamEnded : Bool) : Handled :=
  if frameType = some FrameType.data then
    if stream.headersRecvState ≠ .afterHeaders then
      ⟨decoder, stream,
        .error (.protocol (.frameUnexpected "DATA frame is not allowed in this state"))⟩
    else if streamEnded ∨ frameData.getD [] ≠ [] then
      ⟨decoder, stream,
        .ok [.dataReceived (frameData.getD []) stream.pushId stream.streamId streamEnded]⟩
    else ⟨decoder, stream, .ok []⟩
  else if frameType = some FrameType.headers then
    if stream.headersRecvState = .afterTrailers then
      ⟨decoder, stream,
        .error (.protocol (.frameUnexpected "HEADERS frame is not allowed in this state"))⟩
    else
      match decodeHeaders C decoder stream.streamId frameData with
      | (decoder, .error e) => ⟨decoder, stream, .error e⟩
      | (decoder, .ok headers) =>
        ⟨decoder, (stream.receiveHeaders streamEnded headers).1,
          (stream.receiveHeaders streamEnded headers).2⟩
  else if frameType = some FrameType.pushPromise ∧ stream.pushId = none then
    ⟨(receivePushPromise C decoder stream (frameData.getD [])).1, stream,
      (receivePushPromise C decoder stream (frameData.getD [])).2⟩
  else if ∃ t ∈ forbiddenOnRequest, frameType = some t then
    ⟨decoder, stream, .error (.protocol (.frameUnexpected
      (if stream.pushId = none then "Invalid frame type on request stream"
        else "Invalid frame type on push stream")))⟩
  else ⟨decoder, stream, .ok []⟩

/-- What is read of the next frame before its data. -/
inductive Fetched
  /-- Its type and size are not there as a whole. -/
  | wait
      (stream : H3Stream)
  | webTransport
      (stream : H3Stream) (sessionId : Nat) (rest : Bytes)
  | frame
      (stream : H3Stream) (size : Nat) (rest : Bytes)

/-- `# fetch next frame header`: the type is set as soon as it is there. -/
def fetchFrame (stream : H3Stream) (rest : Bytes) : Fetched :=
  match stream.frameSize with
  | some size => .frame stream size rest
  | none =>
    match C.uintVar.pull rest with
    | none => .wait stream
    | some (frameType, rest') =>
      match C.uintVar.pull rest' with
      | none => .wait { stream with frameType := some frameType }
      | some (frameSize, rest'') =>
        if frameType = FrameType.webtransportStream then
          .webTransport { stream with frameType := some frameType, sessionId := some frameSize }
            frameSize rest''
        else
          .frame { stream with frameType := some frameType, frameSize := some frameSize }
            frameSize rest''

/-- `# detect end of frame` -/
def H3Stream.detectEnd (stream : H3Stream) (left : Nat) : H3Stream :=
  if left = 0 then { stream with frameSize := none, frameType := none }
  else { stream with frameSize := some left }

/-- What receiving data on a request or push stream leaves. -/
structure Received where
  decoder : Decoder
  stream : H3Stream
  events : List H3Event
  raised : Option Raised

/-- Events that came before. -/
def Received.after (r : Received) (events : List H3Event) : Received :=
  { r with events := events ++ r.events }

/-- The loop of `_receive_request_or_push_data`; `rest` is what it has not consumed of the buffer.  A
pass consumes something of it, unless it ends a frame of size zero. -/
def readFrames (streamEnded : Bool) : Nat → Decoder → H3Stream → Bytes → Received
  | 0, decoder, stream, rest => ⟨decoder, { stream with buffer := rest }, [], none⟩
  | fuel + 1, decoder, stream, rest =>
    if rest = [] then ⟨decoder, { stream with buffer := rest }, [], none⟩
    else
      match fetchFrame C stream rest with
      | .wait stream => ⟨decoder, { stream with buffer := rest }, [], none⟩
      | .webTransport stream sessionId rest =>
        ⟨decoder, { stream with buffer := [] },
          if rest ≠ [] ∨ streamEnded then
            [.webTransportStreamDataReceived rest sessionId stream.streamId streamEnded]
          else [], none⟩
      | .frame stream size rest =>
        let chunkSize := min size rest.length
        if stream.frameType ≠ some FrameType.data ∧ chunkSize < size then
          ⟨decoder, { stream with buffer := rest }, [], none⟩
        else
          let rest' := rest.drop chunkSize
          let h := handleRequestOrPushFrame C decoder stream.frameType
            (some (rest.take chunkSize)) (stream.detectEnd (size - chunkSize))
            (stream.ended && rest'.isEmpty)
          match h.result with
          | .ok events => (readFrames streamEnded fuel h.decoder h.stream rest').after events
          | .error .streamBlocked =>
            ⟨h.decoder, { h.stream with blocked := true, buffer := rest' }, [], none⟩
          | .error e => ⟨h.decoder, h.stream, [], some e⟩

/-- The stream with the data of an event. -/
def H3Stream.extend (stream : H3Stream) (data : Bytes) (streamEnded : Bool) : H3Stream :=
  { stream with
    buffer := stream.buffer ++ data
    ended := stream.ended || streamEnded }

/-- `_receive_request_or_push_data` -/
def receiveRequestOrPushData (decoder : Decoder) (stream : H3Stream) (data : Bytes)
    (streamEnded : Bool) : Received :=
  let stream := stream.extend data streamEnded
  if stream.blocked then ⟨decoder, stream, [], none⟩
  else if stream.frameType = some FrameType.webtransportStream ∧ stream.sessionId ≠ none then
    ⟨decoder, { stream with buffer := [] },
      [.webTransportStreamDataReceived stream.buffer (stream.sessionId.getD 0) stream.streamId
        streamEnded], none⟩
  else if stream.frameType = some FrameType.data ∧
      ∃ size ∈ stream.frameSize, stream.buffer.length < size then
    ⟨decoder, { stream with
        frameSize := stream.frameSize.map (· - stream.buffer.length)
        buffer := [] },
      [.dataReceived stream.buffer stream.pushId stream.streamId false], none⟩
  else if streamEnded ∧ stream.buffer = [] then
    ⟨decoder, stream, [.dataReceived [] stream.pushId stream.streamId true], none⟩
  else readFrames C streamEnded (stream.buffer.length + 2) decoder stream stream.buffer

/-- A stream whose block is ready goes on. -/
def resumeStream (decoder : Decoder) (stream : H3Stream) : Received :=
  let h := handleRequestOrPushFrame C decoder (some FrameType.headers) none stream
    (stream.ended && stream.buffer.isEmpty)
  match h.result with
  | .error e => ⟨h.decoder, h.stream, [], some e⟩
  | .ok events =>
    let stream : H3Stream := { h.stream with blocked := false }
    if stream.buffer = [] then ⟨h.decoder, stream, events, none⟩
    else (receiveRequestOrPushData C h.decoder stream [] stream.ended).after events

end Frames

/-! ## 6. Unidirectional streams -/

namespace StreamType

def control : Nat := 0
def push : Nat := 1
def qpackEncoder : Nat := 2
def qpackDecoder : Nat := 3
def webtransport : Nat := 0x54

end StreamType

namespace Setting

def enableConnectProtocol : Nat := 0x8
def h3Datagram : Nat := 0xFFD277
def enableWebtransport : Nat := 0x2B603742

end Setting

/-- `RESERVED_SETTINGS` -/
def reservedSettings : List Nat := [0x0, 0x2, 0x3, 0x4, 0x5]

/-- What is known of the peer. -/
structure Peer where
  settingsReceived : Bool := false
  receivedSettings : Option (Dict Nat Nat) := none
  controlStreamId : Option Nat := none
  decoderStreamId : Option Nat := none
  encoderStreamId : Option Nat := none
  /-- What `feed_decoder` was given. -/
  decoderStream : Bytes := []

section Streams

variable (C : Codec)

/-- The loop that reads the settings of a frame. -/
def readSettings : Nat → Dict Nat Nat → Bytes → Except Raised (Dict Nat Nat)
  | 0, settings, _ => .ok settings
  | fuel + 1, settings, buf =>
    if buf = [] then .ok settings
    else
      match C.uintVar.pull buf with
      | none => .error .bufferRead
      | some (setting, buf) =>
        match C.uintVar.pull buf with
        | none => .error .bufferRead
        | some (value, buf) =>
          if setting ∈ reservedSettings then
            .error (.protocol (.settings (.reserved setting)))
          else if (settings.get? setting).isSome then
            .error (.protocol (.settings (.twice setting)))
          else readSettings fuel (settings.set setting value) buf

/-- The setting is there and is neither 0 nor 1. -/
def notBool (settings : Dict Nat Nat) (setting : Nat) : Bool :=
  (settings.get? setting).any fun value => value ≠ 0 ∧ value ≠ 1

/-- The checks of the settings that were read. -/
def checkSettings (remoteMaxDatagramFrameSize : Option Nat) (settings : Dict Nat Nat) :
    Option SettingsError :=
  if notBool settings Setting.enableConnectProtocol then some (.notBool "ENABLE_CONNECT_PROTOCOL")
  else if notBool settings Setting.enableWebtransport then some (.notBool "ENABLE_WEBTRANSPORT")
  else if notBool settings Setting.h3Datagram then some (.notBool "H3_DATAGRAM")
  else if settings.get? Setting.h3Datagram = some 1 ∧ remoteMaxDatagramFrameSize = none then
    some .noDatagrams
  else if settings.get? Setting.enableWebtransport = some 1 ∧
      settings.get? Setting.h3Datagram ≠ some 1 then
    some .noH3Datagram
  else none

/-- The state of the loop over a unidirectional stream, and how it is left. -/
structure Uni where
  stream : H3Stream
  peer : Peer
  decoder : Decoder
  unblockedStreams : List Nat := []
  raised : Option Raised := none
  /-- The function returns without going on to the streams that were unblocked. -/
  returned : Bool := false

/-- The loop is left by a `break`, or by its condition: the processed data goes. -/
def Uni.leave (u : Uni) (rest : Bytes) : Uni := { u with stream := { u.stream with buffer := rest } }

def Uni.raise (u : Uni) (e : Raised) : Uni := { u with raised := some e }

/-- A pass goes on with a buffer and with what is not consumed, or leaves the loop. -/
abbrev Pass := Except Uni (Uni × Bytes × Bytes)

/-- `# check unicity` -/
def Uni.checkUnicity (u : Uni) (streamType : Nat) : Except Uni Uni :=
  let id := u.stream.streamId
  if streamType = StreamType.control then
    if u.peer.controlStreamId ≠ none then
      .error (u.raise (.protocol (.streamCreation "Only one control stream is allowed")))
    else .ok { u with peer := { u.peer with controlStreamId := some id } }
  else if streamType = StreamType.qpackDecoder then
    if u.peer.decoderStreamId ≠ none then
      .error (u.raise (.protocol (.streamCreation "Only one QPACK decoder stream is allowed")))
    else .ok { u with peer := { u.peer with decoderStreamId := some id } }
  else if streamType = StreamType.qpackEncoder then
    if u.peer.encoderStreamId ≠ none then
      .error (u.raise (.protocol (.streamCreation "Only one QPACK encoder stream is allowed")))
    else .ok { u with peer := { u.peer with encoderStreamId := some id } }
  else .ok u

/-- `# fetch stream type for unidirectional streams` -/
def Uni.fetchType (u : Uni) (buf rest : Bytes) : Pass :=
  if u.stream.streamType ≠ none then .ok (u, buf, rest)
  else
    match C.uintVar.pull buf with
    | none => .error (u.leave rest)
    | some (streamType, buf) =>
      let u := { u with stream := { u.stream with streamType := some streamType } }
      match u.checkUnicity streamType with
      | .error u => .error u
      | .ok u => .ok (u, buf, buf)

/-- The frame types that are not allowed on the control stream. -/
def forbiddenOnControl : List Nat :=
  [FrameType.data, FrameType.headers, FrameType.pushPromise, FrameType.duplicatePush]

/-- A frame of the control stream.  The buffer of the settings takes the place of the stream's. -/
def Uni.controlFrame (remoteMaxDatagramFrameSize : Option Nat) (u : Uni) (frameType : Nat)
    (frameData buf : Bytes) : Pass :=
  if frameType ≠ FrameType.settings ∧ u.peer.settingsReceived = false then
    .error (u.raise (.protocol .missingSettings))
  else if frameType = FrameType.settings then
    if u.peer.settingsReceived then
      .error (u.raise (.protocol (.frameUnexpected "SETTINGS have already been received")))
    else
      match readSettings C frameData.length Dict.empty frameData with
      | .error e => .error (u.raise e)
      | .ok settings =>
        match checkSettings remoteMaxDatagramFrameSize settings with
        | some e => .error (u.raise (.protocol (.settings e)))
        | none =>
          .ok ({ u with peer := { u.peer with
            receivedSettings := some settings, settingsReceived := true } }, [], buf)
  else if frameType ∈ forbiddenOnControl then
    .error (u.raise (.protocol (.frameUnexpected "Invalid frame type on control stream")))
  else .ok (u, buf, buf)

/-- `# fetch next frame`: its type, its data and what comes behind it. -/
def pullFrame (buf : Bytes) : Option (Nat × Bytes × Bytes) :=
  match C.uintVar.pull buf with
  | none => none
  | some (frameType, buf) =>
    match C.uintVar.pull buf with
    | none => none
    | some (frameLength, buf) =>
      if buf.length < frameLength then none
      else some (frameType, buf.take frameLength, buf.drop frameLength)

/-- The branch of the control stream. -/
def Uni.control (remoteMaxDatagramFrameSize : Option Nat) (endStream : Bool) (u : Uni)
    (buf rest : Bytes) : Pass :=
  if endStream then
    .error (u.raise (.protocol (.closedCriticalStream "Closing control stream is not allowed")))
  else
    match pullFrame C buf with
    | none => .error (u.leave rest)
    | some (frameType, frameData, buf) =>
      u.controlFrame C remoteMaxDatagramFrameSize frameType frameData buf

/-- The branch of a push stream. -/
def Uni.push (endStream : Bool) (u : Uni) (buf rest : Bytes) : Pass :=
  let go (u : Uni) (rest : Bytes) : Pass :=
    let r := receiveRequestOrPushData C u.decoder { u.stream with buffer := rest } [] endStream
    .error { u with stream := r.stream, decoder := r.decoder, raised := r.raised, returned := true }
  if u.stream.pushId ≠ none then go u rest
  else
    match C.uintVar.pull buf with
    | none => .error (u.leave rest)
    | some (pushId, buf) => go { u with stream := { u.stream with pushId := some pushId } } buf

/-- The branch of a WebTransport stream.  Its events are returned, and nobody reads them. -/
def Uni.webTransport (u : Uni) (buf rest : Bytes) : Pass :=
  if u.stream.sessionId ≠ none then .error { u.leave [] with returned := true }
  else
    match C.uintVar.pull buf with
    | none => .error (u.leave rest)
    | some (sessionId, _) => .error { u with
        stream := { u.stream with sessionId := some sessionId, buffer := [] }
        returned := true }

/-- The branch of the peer's decoder stream. -/
def Uni.qpackDecoder (u : Uni) (buf : Bytes) : Pass :=
  let fed := u.peer.decoderStream ++ buf
  let u := { u with peer := { u.peer with decoderStream := fed } }
  if C.decoderStreamOk fed then .ok (u, [], []) else .error (u.raise (.protocol .qpackDecoderStream))

/-- The streams whose blocks are ready now. -/
def Decoder.unblocked (decoder : Decoder) : List Nat :=
  (decoder.pending.items.filter fun p => C.ready decoder.fed p.2).map Prod.fst

/-- The branch of the peer's encoder stream. -/
def Uni.qpackEncoder (u : Uni) (buf : Bytes) : Pass :=
  let decoder := { u.decoder with fed := u.decoder.fed ++ buf }
  if C.encoderStreamOk decoder.fed then
    .ok ({ u with
      decoder := decoder
      unblockedStreams := u.unblockedStreams ++ decoder.unblocked C }, [], [])
  else .error ({ u with decoder := decoder }.raise (.protocol .qpackEncoderStream))

/-- A pass of the loop over a unidirectional stream. -/
def Uni.pass (remoteMaxDatagramFrameSize : Option Nat) (endStream : Bool) (u : Uni)
    (buf rest : Bytes) : Pass :=
  match u.fetchType C buf rest with
  | .error u => .error u
  | .ok (u, buf, rest) =>
    if u.stream.streamType = some StreamType.control then
      u.control C remoteMaxDatagramFrameSize endStream buf rest
    else if u.stream.streamType = some StreamType.push then u.push C endStream buf rest
    else if u.stream.streamType = some StreamType.webtransport then u.webTransport C buf rest
    else if u.stream.streamType = some StreamType.qpackDecoder then u.qpackDecoder C buf
    else if u.stream.streamType = some StreamType.qpackEncoder then u.qpackEncoder C buf
    else .ok (u, [], [])

/-- The stream types whose loop goes on at the end of the buffer. -/
def pastEnd : List Nat := [StreamType.push, StreamType.control, StreamType.webtransport]

/-- The loop over a unidirectional stream. -/
def Uni.loop (remoteMaxDatagramFrameSize : Option Nat) (endStream : Bool) :
    Nat → Uni → Bytes → Bytes → Uni
  | 0, u, _, rest => u.leave rest
  | fuel + 1, u, buf, rest =>
    if (∃ t ∈ pastEnd, u.stream.streamType = some t) ∨ buf ≠ [] then
      match u.pass C remoteMaxDatagramFrameSize endStream buf rest with
      | .error u => u
      | .ok (u, buf, rest) => Uni.loop remoteMaxDatagramFrameSize endStream fuel u buf rest
    else u.leave rest

/-! ## 7. The protocol -/

structure ResponseFrameCollection where
  headersFrame : Option HeadersReceived := none
  body : Bytes := []
deriving DecidableEq

/-- The future of a request. -/
inductive Waiter
  | pending
  | done
      (response : ResponseFrameCollection)
  | cancelled
deriving DecidableEq

structure QuicProtocol where
  stream : Nat → H3Stream
  decoder : Decoder
  peer : Peer
  responses : Nat → Option ResponseFrameCollection
  requestWaiter : Nat → Option Waiter
  /-- `_is_done`, and the error with which the connection was closed. -/
  isDone : Option ProtocolError
  /-- `_quic._remote_max_datagram_frame_size` -/
  remoteMaxDatagramFrameSize : Option Nat

namespace QuicProtocol

def init (remoteMaxDatagramFrameSize : Option Nat) : QuicProtocol where
  stream := fun id => { streamId := id }
  decoder := ⟨[], Dict.empty⟩
  peer := {}
  responses := fun _ => none
  requestWaiter := fun _ => none
  isDone := none
  remoteMaxDatagramFrameSize := remoteMaxDatagramFrameSize

/-- `self._stream[stream_id]` -/
def setStream (p : QuicProtocol) (stream : H3Stream) : QuicProtocol :=
  { p with stream := fun id => if id = stream.streamId then stream else p.stream id }

def setResponse (p : QuicProtocol) (id : Nat) (response : Option ResponseFrameCollection) :
    QuicProtocol :=
  { p with responses := fun id' => if id' = id then response else p.responses id' }

def setWaiter (p : QuicProtocol) (id : Nat) (waiter : Waiter) : QuicProtocol :=
  { p with requestWaiter := fun id' => if id' = id then some waiter else p.requestWaiter id' }

/-- What receiving data on a stream leaves of the connection. -/
def afterStream (p : QuicProtocol) (r : Received) : QuicProtocol :=
  { p with decoder := r.decoder }.setStream r.stream

/-- `# process unblocked streams`: whatever is raised ends it, and the events are gone. -/
def resumeAll (p : QuicProtocol) : List Nat → QuicProtocol × List H3Event × Option Raised
  | [] => (p, [], none)
  | id :: ids =>
    let r := resumeStream C p.decoder (p.stream id)
    match r.raised with
    | some e => (p.afterStream r, [], some e)
    | none =>
      let s := resumeAll (p.afterStream r) ids
      (s.1, r.events ++ s.2.1, s.2.2)

/-- The loop over a unidirectional stream, with the data of an event. -/
def readUnidirectional (p : QuicProtocol) (id : Nat) (data : Bytes) (endStream : Bool) : Uni :=
  let stream := (p.stream id).extend data endStream
  Uni.loop C p.remoteMaxDatagramFrameSize endStream (stream.buffer.length + 2)
    { stream := stream, peer := p.peer, decoder := p.decoder } stream.buffer stream.buffer

/-- What the loop leaves of the connection. -/
def afterUni (p : QuicProtocol) (u : Uni) : QuicProtocol :=
  { p with peer := u.peer, decoder := u.decoder }.setStream u.stream

/-- The data of a unidirectional stream. -/
def receiveUnidirectional (p : QuicProtocol) (id : Nat) (data : Bytes) (endStream : Bool) :
    QuicProtocol × List H3Event × Option Raised :=
  let u := p.readUnidirectional C id data endStream
  if u.raised ≠ none ∨ u.returned then (p.afterUni u, [], u.raised)
  else (p.afterUni u).resumeAll C (C.setOrder u.unblockedStreams)

/-- `self.responses[stream_id]`, created when it is not there. -/
def response (p : QuicProtocol) (id : Nat) : ResponseFrameCollection := (p.responses id).getD {}

/-- One event for the waiters. -/
def handleEvent (p : QuicProtocol) : H3Event → QuicProtocol × Option Raised
  | .headersReceived event =>
    (p.setResponse event.streamId
      (some { p.response event.streamId with headersFrame := some event }), none)
  | .dataReceived data _ id streamEnded =>
    let response := { p.response id with body := (p.response id).body ++ data }
    let p := p.setResponse id (some response)
    if streamEnded then
      match p.requestWaiter id with
      | none => (p, some .streamFailed)
      | some .pending => ((p.setResponse id none).setWaiter id (.done response), none)
      | some _ => (p, none)
    else (p, none)
  | _ => (p, none)

def handleEvents (p : QuicProtocol) : List H3Event → QuicProtocol × Option Raised
  | [] => (p, none)
  | event :: events =>
    match p.handleEvent event with
    | (p, some e) => (p, some e)
    | (p, none) => handleEvents p events

/-- An event of QUIC. -/
inductive QuicEvent
  | streamDataReceived
      (streamId : Nat) (data : Bytes) (endStream : Bool)
  | datagramFrameReceived
      (data : Bytes)
deriving DecidableEq

/-- The events of HTTP/3 that an event of QUIC makes. -/
def h3Events (p : QuicProtocol) : QuicEvent → QuicProtocol × List H3Event × Option Raised
  | .streamDataReceived id data endStream =>
    if C.isUnidirectional id then p.receiveUnidirectional C id data endStream
    else
      let r := receiveRequestOrPushData C p.decoder (p.stream id) data endStream
      (p.afterStream r, r.events, r.raised)
  | .datagramFrameReceived data =>
    match C.uintVar.pull data with
    | none => (p, [], some (.protocol (.general "Could not parse flow ID")))
    | some _ => (p, [], none)

/-- `quic_event_received`, with what it raises: a protocol error closes the connection instead. -/
def quicEventReceived (p : QuicProtocol) (event : QuicEvent) : QuicProtocol × Option Raised :=
  if p.isDone ≠ none then (p, none)
  else
    match p.h3Events C event with
    | (p, events, none) => p.handleEvents events
    | (p, _, some (.protocol e)) => ({ p with isDone := some e }, none)
    | (p, _, some e) => (p, some e)

/-- What happens on a connection: QUIC gives something out, a client makes a request on a stream of
its own and waits for it, and the wait is given up. -/
inductive Event
  | quic
      (event : QuicEvent)
  | request
      (streamId : Nat)
  | timeout
      (streamId : Nat)
deriving DecidableEq

/-- A step in which nothing is raised. -/
def step (p : QuicProtocol) : Event → Option QuicProtocol
  | .quic event =>
    match p.quicEventReceived C event with
    | (p', none) => if p'.isDone = none then some p' else none
    | (_, some _) => none
  | .request id => if p.requestWaiter id = none then some (p.setWaiter id .pending) else none
  | .timeout id =>
    if p.requestWaiter id = some .pending then some (p.setWaiter id .cancelled) else none

end QuicProtocol

end Streams

end Http3
end Hedra
