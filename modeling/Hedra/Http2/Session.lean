/-
# Requests on a connection

An `HTTP2Connection` (`core/engines/types/http2/connection.py`) is connected anew, or used again
under the next stream id, for every request.  The client then sends the request through the pipe,
and receives the response read by read.  What is raised on the way makes the pool drop the
connection and the pipe.

The ledger beside them keeps what both sides have granted and used of the flow-control windows, as
the frames on the wire say.  Nothing of the client depends on it.

* `sendRequest_eq`: what a request sends: a headers frame, and the frames of its body;
* `step_cases`: what a step does, for the modules over this one;
* `run_receiveRead`: a read of `receive_response` is a run of the session.
-/
import Hedra.Http2.Pipe
import Hedra.Lib.Machine

namespace Hedra
namespace Http2

open Lib

/-! ## 1. Connections -/

/-- An `HTTP2Connection`.  The headers frame, which it shares with its stream, is there. -/
structure Connection where
  connected : Bool
  initId : Int
  streamId : Int
  dnsAddress : Option String
  resetConnection : Bool

/-- `b'PRI * HTTP/2.0\r\n\r\nSM\r\n\r\n'` -/
def preface : Bytes :=
  [0x50, 0x52, 0x49, 0x20, 0x2A, 0x20, 0x48, 0x54, 0x54, 0x50, 0x2F, 0x32, 0x2E, 0x30, 0x0D, 0x0A,
    0x0D, 0x0A, 0x53, 0x4D, 0x0D, 0x0A, 0x0D, 0x0A]

/-- `local_settings_dict` -/
def localSettingsDict (concurrency : Nat) : Dict Nat Nat :=
  (Pipe.localSettingsOf concurrency).mapValues fun values => (values.head?.getD none).getD 0

/-- `HTTP2Connection(stream_id, …, concurrency, reset_connection, …)`, and its stream. -/
def Connection.create (streamId : Int) (concurrency : Nat) (resetConnection : Bool) :
    Except Error (Connection × Stream) := do
  let initId := if streamId % 2 = 0 then streamId + 1 else streamId
  let settingsFrame : Frame := ⟨0, ∅, .settings (localSettingsDict concurrency)⟩
  let settingsData ← settingsFrame.serialize
  return (
    { connected := false
      initId := initId
      streamId := 0
      dnsAddress := none
      resetConnection := resetConnection },
    { streamId := 0
      maxOutboundFrameSize := 0
      currentOutboundWindowSize := 0
      resetConnection := false
      inbound := none
      frameBuffer := ⟨[], []⟩
      headersFrame := ⟨initId, {.endHeaders}, .headers 0 0 0 false []⟩
      connectionData := preface ++ settingsData })

/-- `connect` makes a new TCP connection. -/
def Connection.Reconnects (c : Connection) (dnsAddress : String) : Prop :=
  c.connected = false ∨ c.dnsAddress ≠ some dnsAddress ∨ c.resetConnection = true

instance (c : Connection) (dnsAddress : String) : Decidable (c.Reconnects dnsAddress) :=
  inferInstanceAs (Decidable (_ ∨ _))

/-- `connect`, when `create_http2` succeeds. -/
def Connection.connect (c : Connection) (stream : Stream) (dnsAddress : String) :
    Connection × Stream :=
  let stream := { stream with frameBuffer := ⟨[], []⟩ }
  if c.Reconnects dnsAddress then
    ({ c with
        connected := true
        streamId := c.initId
        dnsAddress := some dnsAddress }, stream)
  else
    let streamId := if (c.streamId + 2) % 2 = 0 then c.streamId + 2 + 1 else c.streamId + 2
    ({ c with streamId := streamId },
      { stream with
        streamId := streamId
        headersFrame := { stream.headersFrame with streamId := streamId } })

/-- The frame that is written. -/
def Written.frame? : Written → Option Frame
  | .connectionData _ => none
  | .frame f => some f

/-- `connect` changes only the ids of the stream, and its buffer. -/
theorem Connection.stream_connect (c : Connection) (stream : Stream) (dnsAddress : String) :
    (c.connect stream dnsAddress).2.resetConnection = stream.resetConnection ∧
      (c.connect stream dnsAddress).2.headersFrame.payload = stream.headersFrame.payload := by
  unfold connect
  simp only
  split <;> exact ⟨rfl, rfl⟩

/-- What the client sends for a request, and what is raised. -/
def Pipe.sendRequest (p : Pipe) (stream : Stream) (request : Request) :
    Pipe × Stream × List Written × Except Error Unit :=
  let (p, stream, written) := p.sendRequestHeaders stream request
  match request.encodedData with
  | none => (p, stream, written, .ok ())
  | some data =>
    let (p, frames, result) := p.submitRequestBody stream data
    (p, stream, written ++ frames.map .frame, result)

theorem Payload.type_setData (bytes : Bytes) (p : Payload) : (p.setData bytes).type = p.type := by
  cases p <;> rfl

namespace Pipe

/-- The window of the connection when a request sends its body. -/
def windowBefore (p : Pipe) (stream : Stream) : Int :=
  if p.initSent = false ∨ stream.resetConnection then p.remoteSettings.initialWindowSize
  else p.outboundFlowControlWindow

/-- How much of a body goes into a frame. -/
def flow (p : Pipe) : Nat := min p.remoteSettings.initialWindowSize p.remoteSettings.maxFrameSize

/-- What `send_request_headers` leaves of the pipe and of the stream. -/
structure HeadersSent (p : Pipe) (stream : Stream) (p' : Pipe) (stream' : Stream) : Prop where
  streamId : stream'.streamId = stream.streamId
  headersId : stream'.headersFrame.streamId = stream.headersFrame.streamId
  headersType : stream'.headersFrame.payload.type = stream.headersFrame.payload.type
  resetConnection : stream'.resetConnection = stream.resetConnection
  currentWindow : stream'.currentOutboundWindowSize = p.remoteSettings.initialWindowSize
  flow : stream'.flow = p.flow
  inbound : stream'.inbound =
    some ((WindowManager.init p.localSettings.initialWindowSize).windowOpened 65536)
  initSent : p'.initSent = true
  window : p'.outboundFlowControlWindow = p.windowBefore stream
  localSettings : p'.localSettings = p.localSettings
  remoteSettings : p'.remoteSettings = p.remoteSettings

theorem headersSent (p : Pipe) (stream : Stream) (q : Request) :
    let sent := p.sendRequestHeaders stream q
    HeadersSent p stream sent.1 sent.2.1 ∧
      sent.2.2.filterMap Written.frame? = [sent.2.1.headersFrame] := by
  have hflow : (min (p.remoteSettings.initialWindowSize : Int) p.remoteSettings.maxFrameSize).toNat =
      p.flow := by
    unfold flow
    omega
  have htype := Payload.type_setData q.encodedHeaders stream.headersFrame.payload
  by_cases h : p.initSent = false ∨ stream.resetConnection
  · simp only [sendRequestHeaders, if_pos h]
    exact ⟨⟨rfl, rfl, htype, rfl, rfl, hflow, rfl, rfl, (if_pos h).symm, rfl, rfl⟩, rfl⟩
  · have hinit : p.initSent = true := Bool.not_eq_false _ ▸ fun hinit => h (.inl hinit)
    simp only [sendRequestHeaders, if_neg h]
    exact ⟨⟨rfl, rfl, htype, rfl, rfl, hflow, rfl, hinit, (if_neg h).symm, rfl, rfl⟩, rfl⟩

/-- **What a request sends**: a headers frame, and then the frames of its body. -/
theorem sendRequest_eq (p : Pipe) (stream : Stream) (q : Request) :
    let sent := p.sendRequestHeaders stream q
    let body : Pipe × List Frame × Except Error Unit := match q.encodedData with
      | none => (sent.1, [], .ok ())
      | some data => sent.1.submitRequestBody sent.2.1 data
    p.sendRequest stream q = (body.1, sent.2.1, sent.2.2 ++ body.2.1.map .frame, body.2.2) := by
  unfold sendRequest
  cases q.encodedData with
  | none => simp
  | some data => rfl

/-- What a request leaves of the pipe, but for the window. -/
theorem sendRequest_pipe (p : Pipe) (stream : Stream) (q : Request) :
    let sent := p.sendRequest stream q
    sent.2.1 = (p.sendRequestHeaders stream q).2.1 ∧ sent.1.initSent = true ∧
      sent.1.localSettings = p.localSettings ∧ sent.1.remoteSettings = p.remoteSettings := by
  obtain ⟨hsent, -⟩ := p.headersSent stream q
  rw [sendRequest_eq]
  cases q.encodedData with
  | none => exact ⟨rfl, hsent.initSent, hsent.localSettings, hsent.remoteSettings⟩
  | some data =>
    simp only [submitRequestBody_eq, true_and]
    exact ⟨hsent.initSent, hsent.localSettings, hsent.remoteSettings⟩

theorem filterMap_frame? (frames : List Frame) :
    (frames.map Written.frame).filterMap Written.frame? = frames := by
  rw [List.filterMap_map]
  exact List.filterMap_some

/-- No frame of a body gets out: a window of the stream or of the connection is too small for the
first of them. -/
def Blocks (p : Pipe) (stream : Stream) (data : Bytes) : Prop :=
  data ≠ [] ∧ (p.flow = 0 ∨ p.windowBefore stream < (data.take p.flow).length)

instance (p : Pipe) (stream : Stream) (data : Bytes) : Decidable (p.Blocks stream data) :=
  inferInstanceAs (Decidable (_ ∧ _))

/-- The frames of a request: the headers frame, and the frames of the body on the stream. -/
theorem frames_of_sendRequest (p : Pipe) (stream : Stream) (q : Request) :
    let sent := p.sendRequest stream q
    ∃ data, sent.2.2.1.filterMap Written.frame? = sent.2.1.headersFrame :: data ∧
      sent.2.1.headersFrame.streamId = stream.headersFrame.streamId ∧
      (∀ f ∈ data, f.streamId = stream.streamId ∧ f.payload.type = 0) ∧
      (data = [] ↔ ∀ body ∈ q.encodedData, p.Blocks stream body) := by
  obtain ⟨hsent, hheaders⟩ := p.headersSent stream q
  rw [sendRequest_eq]
  simp only [List.filterMap_append, hheaders, filterMap_frame?, List.singleton_append]
  refine ⟨_, rfl, hsent.headersId, ?_, ?_⟩
  · cases q.encodedData with
    | none => simp
    | some body =>
      intro f hf
      rw [← hsent.streamId]
      exact frames_of_submitRequestBody _ _ f hf
  · cases q.encodedData with
    | none => simp
    | some body =>
      have hwindow : 0 ≤ (p.sendRequestHeaders stream q).2.1.currentOutboundWindowSize := by
        rw [hsent.currentWindow]
        exact Int.natCast_nonneg _
      simp only [submitRequestBody_eq_nil_iff hwindow, hsent.flow, hsent.window,
        Option.mem_some_iff, forall_eq']
      rfl

end Pipe

/-! ## 2. What is granted, and what is used -/

/-- A flow-control window. -/
structure Account where
  granted : Int
  used : Int
deriving DecidableEq

/-- The windows of a TCP connection and of its current stream, in both directions. -/
structure Ledger where
  /-- What the peer grants a new stream. -/
  peerInitialWindow : Int
  outConnection : Account
  outStream : Account
  inConnection : Account
  inStream : Account
deriving DecidableEq

namespace Ledger

/-- A new TCP connection. -/
def connect : Ledger := ⟨65535, ⟨65535, 0⟩, ⟨65535, 0⟩, ⟨65535, 0⟩, ⟨65535, 0⟩⟩

/-- A new stream.  Our settings grant it the default. -/
def openStream (l : Ledger) : Ledger :=
  { l with outStream := ⟨l.peerInitialWindow, 0⟩, inStream := ⟨65535, 0⟩ }

/-- A frame of the peer.  `streamId` is the current stream. -/
def receive (streamId : Int) (l : Ledger) (frame : Frame) : Ledger :=
  match frame.payload with
  | .data _ _ =>
    let length := frame.flowControlledLength
    { l with
      inConnection := { l.inConnection with used := l.inConnection.used + length }
      inStream :=
        if frame.streamId = streamId then
          { l.inStream with used := l.inStream.used + length }
        else l.inStream }
  | .settings settings =>
    match settings.get? SettingCode.initialWindowSize.code with
    | none => l
    | some window =>
      { l with
        peerInitialWindow := window
        outStream :=
          { l.outStream with granted := l.outStream.granted + (window - l.peerInitialWindow) } }
  | .windowupdate increment =>
    if frame.streamId = 0 then
      { l with
        outConnection := { l.outConnection with granted := l.outConnection.granted + increment } }
    else if frame.streamId = streamId then
      { l with outStream := { l.outStream with granted := l.outStream.granted + increment } }
    else l
  | _ => l

/-- What is written for the current stream. -/
def send (streamId : Int) (l : Ledger) : Written → Ledger
  | .connectionData _ => l
  | .frame frame =>
    match frame.payload with
    | .data _ _ =>
      let length := frame.flowControlledLength
      { l with
        outConnection := { l.outConnection with used := l.outConnection.used + length }
        outStream := { l.outStream with used := l.outStream.used + length } }
    | .windowupdate increment =>
      if frame.streamId = 0 then
        { l with
          inConnection := { l.inConnection with granted := l.inConnection.granted + increment } }
      else if frame.streamId = streamId then
        { l with inStream := { l.inStream with granted := l.inStream.granted + increment } }
      else l
    | _ => l

end Ledger

/-! ## 3. Sessions -/

/-- Where the client is. -/
inductive Phase
  /-- No response is received. -/
  | idle
  /-- A read is waited for. -/
  | waiting
  /-- The frames of a read are gone through. -/
  | reading
  /-- Something has been raised. -/
  | closed
deriving DecidableEq

/-- The stream id of a frame on the wire. -/
def Frame.wireId (f : Frame) : Int := f.streamId % 0x80000000

/-- A connection with its stream and its pipe. -/
structure Session where
  connection : Connection
  receiving : Receiving
  phase : Phase
  ledger : Ledger
  /-- The frames of the requests on this TCP connection. -/
  requests : List (List Frame)

namespace Session

/-- A connection and a pipe, as the pool makes them. -/
def init (connection : Connection) (stream : Stream) (concurrency : Nat) : Session where
  connection := connection
  receiving :=
    { pipe := .init concurrency
      stream := stream
      response := .init
      done := false
      frames := []
      streamEvents := []
      writeData := []
      written := [] }
  phase := .idle
  ledger := .connect
  requests := []

/-- The id of the current stream. -/
def currentId (s : Session) : Int := s.receiving.stream.headersFrame.wireId

/-- A request: `connect`, and what is sent.  Then the response is waited for. -/
def request (s : Session) (dnsAddress : String) (request : Request) : Session :=
  let reconnects := s.connection.Reconnects dnsAddress
  let (connection, stream) := s.connection.connect s.receiving.stream dnsAddress
  let (pipe, stream, written, result) := s.receiving.pipe.sendRequest stream request
  { connection := connection
    receiving :=
      { pipe := pipe
        stream := stream
        response := .init
        done := false
        frames := []
        streamEvents := []
        writeData := []
        written := s.receiving.written ++ written }
    phase := if result = .ok () then .waiting else .closed
    ledger := written.foldl (Ledger.send stream.headersFrame.wireId)
      (if reconnects then Ledger.connect else s.ledger).openStream
    requests := (if reconnects then [] else s.requests) ++ [written.filterMap Written.frame?] }

/-- The variables of a read. -/
def read (s : Session) : Receiving :=
  if s.phase = .waiting then { s.receiving with frames := [], streamEvents := [], writeData := [] }
  else s.receiving

/-- The session after a part of a read. -/
def go (s : Session) (phase : Phase) (ledger : Ledger) (r : Receiving) : Session :=
  { s with
    receiving := r
    phase := phase
    ledger := (r.written.drop s.read.written.length).foldl (Ledger.send s.currentId) ledger }

/-- A frame out of the buffer. -/
def frame (s : Session) (frame : Frame) : Session :=
  let ledger := s.ledger.receive s.currentId frame
  match s.read.receiveFrame frame with
  | .error _ => { s with phase := .closed, ledger := ledger }
  | .ok r => s.go .reading ledger r

/-- The end of a read, with what is left in the buffer. -/
def endRead (s : Session) (buffer : FrameBuffer) : Session :=
  let r := { s.read with stream := { s.read.stream with frameBuffer := buffer } }
  let r := r.streamEvents.foldl Receiving.finishEvent r
  s.go (if r.done then .idle else .waiting) s.ledger r

/-- The steps of a session. -/
inductive Event
  | request
      (dnsAddress : String)
      (request : Request)
  | frame
      (frame : Frame)
  | endRead
      (buffer : FrameBuffer)

/-- A response that does not come times out, and another request may follow. -/
def step (s : Session) : Event → Option Session
  | .request dnsAddress request =>
    if s.phase = .idle ∨ s.phase = .waiting then some (s.request dnsAddress request) else none
  | .frame frame =>
    if s.phase = .waiting ∨ s.phase = .reading then some (s.frame frame) else none
  | .endRead buffer =>
    if s.phase = .waiting ∨ s.phase = .reading then some (s.endRead buffer) else none

end Session

/-! ## 4. Steps -/

@[simp] theorem Pipe.initSent_guardIncrementWindow (p : Pipe) (current increment : Int) :
    (p.guardIncrementWindow current increment).1.initSent = p.initSent := by
  unfold guardIncrementWindow
  split <;> rfl

namespace Receiving

/-- What never changes while a response is received: the ids, and our settings. -/
structure SameStream (r r' : Receiving) : Prop where
  headersFrame : r'.stream.headersFrame = r.stream.headersFrame
  streamId : r'.stream.streamId = r.stream.streamId
  resetConnection : r'.stream.resetConnection = r.stream.resetConnection
  initSent : r'.pipe.initSent = r.pipe.initSent

theorem SameStream.refl (r : Receiving) : r.SameStream r := ⟨rfl, rfl, rfl, rfl⟩

theorem SameStream.trans {r s t : Receiving} (h : r.SameStream s) (h' : s.SameStream t) :
    r.SameStream t :=
  ⟨h'.headersFrame.trans h.headersFrame, h'.streamId.trans h.streamId,
    h'.resetConnection.trans h.resetConnection, h'.initSent.trans h.initSent⟩

theorem sameStream_changeFrameSize (r : Receiving) (c : Option ChangedSetting) :
    r.SameStream (r.changeFrameSize c) := by
  cases c <;> exact ⟨rfl, rfl, rfl, rfl⟩

theorem sameStream_changeRemote (r : Receiving) (changes : SettingCode → Option ChangedSetting) :
    r.SameStream (r.changeRemote changes) := by
  have hwindow : ∀ (t : Receiving) c, t.SameStream (t.changeWindow c) := by
    rintro t (_ | c)
    · exact .refl t
    · exact ⟨rfl, rfl, rfl, Pipe.initSent_guardIncrementWindow _ _ _⟩
  have htable : ∀ (t : Receiving) c, t.SameStream (t.changeTableSize c) := by
    rintro t (_ | c) <;> exact ⟨rfl, rfl, rfl, rfl⟩
  exact ((hwindow r _).trans (htable _ _)).trans (sameStream_changeFrameSize _ _)

theorem sameStream_acknowledgeLocal (r : Receiving) : r.SameStream r.acknowledgeLocal := by
  have hinbound : ∀ (t : Receiving) c, t.SameStream (t.changeInbound c) := by
    rintro t (_ | c) <;> exact ⟨rfl, rfl, rfl, rfl⟩
  have hlocal : r.SameStream { r with pipe :=
      { r.pipe with localSettings := r.pipe.localSettings.acknowledge.1 } } := ⟨rfl, rfl, rfl, rfl⟩
  exact (hlocal.trans (hinbound _ _)).trans (sameStream_changeFrameSize _ _)

theorem sameStream_receiveSettings {r r' : Receiving} {frame : Frame} {settings : Dict Nat Nat}
    (h : r.receiveSettings frame settings = .ok r') : r.SameStream r' := by
  have hack : r.SameStream (if .ack ∈ frame.flags then r.acknowledgeLocal else r) := by
    split
    · exact r.sameStream_acknowledgeLocal
    · exact .refl r
  unfold receiveSettings at h
  generalize (if .ack ∈ frame.flags then r.acknowledgeLocal else r) = acked at h hack
  refine hack.trans ?_
  simp only at h
  split at h
  · cases h
  · next remoteSettings _ =>
    have hremote : acked.SameStream { acked with pipe :=
        { acked.pipe with remoteSettings := remoteSettings.acknowledge.1 } } := ⟨rfl, rfl, rfl, rfl⟩
    have hframes : ∀ (t : Receiving) frames, t.SameStream { t with frames := frames } :=
      fun _ _ => ⟨rfl, rfl, rfl, rfl⟩
    rw [← Except.ok.inj h]
    exact (hremote.trans (sameStream_changeRemote _ _)).trans (hframes _ _)

theorem sameStream_dispatch {r r' : Receiving} {frame : Frame} (h : r.dispatch frame = .ok r') :
    r.SameStream r' := by
  unfold dispatch at h
  split at h
  · unfold receiveData at h
    split at h
    · cases h
    · rw [← Except.ok.inj h]
      exact ⟨rfl, rfl, rfl, rfl⟩
  · cases h
  · rw [← Except.ok.inj h]
    exact ⟨rfl, rfl, rfl, rfl⟩
  · cases h
  · exact sameStream_receiveSettings h
  · rw [← Except.ok.inj h]
    exact ⟨rfl, rfl, rfl, Pipe.initSent_guardIncrementWindow _ _ _⟩
  · rw [← Except.ok.inj h]
    exact .refl r

/-- **A frame of the peer changes no ids.** -/
theorem sameStream_receiveFrame {r r' : Receiving} {frame : Frame}
    (h : r.receiveFrame frame = .ok r') : r.SameStream r' := by
  obtain ⟨t, ht, rfl⟩ := map_eq_ok_iff.mp h
  refine (sameStream_dispatch ht).trans ?_
  unfold write
  split <;> exact ⟨rfl, rfl, rfl, rfl⟩

theorem sameStream_finishEvents (events : List DataReceived) : ∀ r : Receiving,
    r.SameStream (events.foldl finishEvent r) := by
  induction events with
  | nil => exact .refl
  | cons event events ih =>
    intro r
    have hevent : r.SameStream (r.finishEvent event) := ⟨rfl, rfl, rfl, rfl⟩
    exact hevent.trans (ih (r.finishEvent event))

end Receiving

namespace Session

open Machine

variable {s s' : Session} {ev : Event}

/-- A read starts with the pipe and the stream as they are. -/
theorem read_eq (s : Session) : s.read.pipe = s.receiving.pipe ∧
    s.read.stream = s.receiving.stream ∧ s.read.written = s.receiving.written := by
  unfold read
  split <;> exact ⟨rfl, rfl, rfl⟩

/-- A frame is received, or a read ends, within a read only. -/
def Receives (s : Session) : Prop := s.phase = .waiting ∨ s.phase = .reading

/-- **What a step does.** -/
theorem step_cases (h : step s ev = some s') :
    (∃ dnsAddress q, ev = .request dnsAddress q ∧ (s.phase = .idle ∨ s.phase = .waiting) ∧
      s' = s.request dnsAddress q) ∨
    (∃ f r, ev = .frame f ∧ s.Receives ∧ s.read.receiveFrame f = .ok r ∧
      s' = s.go .reading (s.ledger.receive s.currentId f) r) ∨
    (∃ f e, ev = .frame f ∧ s.Receives ∧ s.read.receiveFrame f = .error e ∧
      s' = { s with phase := .closed, ledger := s.ledger.receive s.currentId f }) ∨
    ∃ buffer, ev = .endRead buffer ∧ s.Receives ∧ s' = s.endRead buffer := by
  cases ev with
  | request dnsAddress q =>
    obtain ⟨hphase, hs'⟩ := Option.ite_none_right_eq_some.mp h
    exact .inl ⟨dnsAddress, q, rfl, hphase, (Option.some.inj hs').symm⟩
  | frame f =>
    obtain ⟨hphase, hs'⟩ := Option.ite_none_right_eq_some.mp h
    have hs' := Option.some.inj hs'
    unfold Session.frame at hs'
    cases hr : s.read.receiveFrame f with
    | ok r => exact .inr (.inl ⟨f, r, rfl, hphase, hr, by simpa only [hr] using hs'.symm⟩)
    | error e =>
      exact .inr (.inr (.inl ⟨f, e, rfl, hphase, hr, by simpa only [hr] using hs'.symm⟩))
  | endRead buffer =>
    obtain ⟨hphase, hs'⟩ := Option.ite_none_right_eq_some.mp h
    exact .inr (.inr (.inr ⟨buffer, rfl, hphase, (Option.some.inj hs').symm⟩))

/-- The frames of a read, one by one. -/
theorem run_frames {frames : List Frame} : ∀ {s : Session} {r : Receiving}, s.Receives →
    frames.foldlM Receiving.receiveFrame s.read = .ok r →
      ∃ s', run step s (frames.map .frame) = some s' ∧ s'.Receives ∧ s'.read = r := by
  induction frames with
  | nil => exact fun hphase h => ⟨_, rfl, hphase, Except.ok.inj h⟩
  | cons f frames ih =>
    intro s r hphase h
    rw [List.foldlM_cons] at h
    obtain ⟨t, ht, h⟩ := bind_eq_ok_iff.mp h
    have hstep : step s (.frame f) =
        some (s.go .reading (s.ledger.receive s.currentId f) t) := by
      refine (if_pos hphase).trans ?_
      unfold Session.frame
      rw [ht]
    obtain ⟨s', hrun, hphase', hread⟩ := ih
      (s := s.go .reading (s.ledger.receive s.currentId f) t) (.inr rfl) h
    exact ⟨s', run_cons_eq_some.mpr ⟨_, hstep, hrun⟩, hphase', hread⟩

/-- **A read of `receive_response` is a run of the session**: the frames that are there, and then
the end of the read. -/
theorem run_receiveRead {data : Bytes} {frames : List Frame} {buffer : FrameBuffer} {r : Receiving}
    (hphase : s.phase = .waiting)
    (hdrain : FrameBuffer.reader.drain { s.receiving.stream.frameBuffer with
      data := s.receiving.stream.frameBuffer.data ++ data } = (frames, .ok buffer))
    (h : s.receiving.receiveRead data = .ok r) :
    ∃ s', run step s (frames.map .frame ++ [.endRead buffer]) = some s' ∧ s'.receiving = r ∧
      s'.phase = if r.done then .idle else .waiting := by
  unfold Receiving.receiveRead at h
  rw [hdrain] at h
  obtain ⟨t, ht, h⟩ := bind_eq_ok_iff.mp h
  have hread : s.read =
      { s.receiving with frames := [], streamEvents := [], writeData := [] } := if_pos hphase
  obtain ⟨s', hrun, hphase', hs'⟩ := run_frames (.inl hphase) (by rw [hread]; exact ht)
  have hend : (s'.endRead buffer).receiving = r := by
    have hr := Except.ok.inj h
    rw [← hr, ← hs']
    rfl
  refine ⟨s'.endRead buffer, ?_, hend, by rw [← hend]; rfl⟩
  rw [run_append, hrun]
  exact run_cons_eq_some.mpr ⟨_, if_pos hphase', rfl⟩

end Session

end Http2
end Hedra
