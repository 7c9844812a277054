/-
# The pipe

An `HTTP2Pipe` (`core/engines/types/http2/pipe.py`) sends the headers and the body of a request and
receives its response.  What it writes is a list here: the preface of the connection, and frames.

One read of `receive_response` takes the frames out of what has come, does with each what its type
asks for, and then hands the `DATA` events of the read to the response.

Its stream, the settings of both sides and the windows are what it reads and writes (`stream.py`,
`streams/stream_settings.py`, `windows/window_manager.py`).  Whether one read is as it should be is
asked in `Body.lean`, `SettingsAck.lean` and `FlowControl.lean`.
-/
import Hedra.Http2.FrameBuffer
import Hedra.Http2.Windows

namespace Hedra
namespace Http2

open Lib

/-! ## 1. State -/

/-- An `HTTP2Pipe`.  Of its encoder, which encodes nothing, there is the size of the table. -/
structure Pipe where
  initSent : Bool
  localSettings : Settings
  remoteSettings : Settings
  outboundFlowControlWindow : Int
  inboundFlowControlWindowManager : WindowManager
  encoderTableSize : Nat

/-- A `Stream`.  There is no inbound window before the first request. -/
structure Stream where
  streamId : Int
  maxOutboundFrameSize : Nat
  currentOutboundWindowSize : Int
  resetConnection : Bool
  inbound : Option WindowManager
  frameBuffer : FrameBuffer
  headersFrame : Frame
  connectionData : Bytes

/-- What is written to the transport. -/
inductive Written
  | connectionData
      (data : Bytes)
  | frame
      (frame : Frame)
deriving DecidableEq

/-- What the pipe sends of an action. -/
structure Request where
  /-- `encoded_headers[0]` -/
  encodedHeaders : Bytes
  encodedData : Option Bytes

/-- What `receive_response` writes of an `HTTP2Result`. -/
structure Response where
  body : Bytes
  status : Option Nat
  /-- The raw headers of the `DeferredHeaders`. -/
  deferredHeaders : Option Bytes
deriving DecidableEq

/-- `HTTP2Result(action)` -/
def Response.init : Response := ⟨[], none, none⟩

/-- `settings.initial_window_size` -/
def Settings.initialWindowSize (s : Settings) : Nat := (s.getItem .initialWindowSize).getD 0

/-- `settings.max_frame_size` -/
def Settings.maxFrameSize (s : Settings) : Nat := (s.getItem .maxFrameSize).getD 0

namespace Pipe

/-- The settings of our side. -/
def localSettingsOf (concurrency : Nat) : Settings :=
  (Settings.init true [(.enablePush, 0), (.maxConcurrentStreams, concurrency),
    (.maxHeaderListSize, 65535)]).erase SettingCode.enableConnectProtocol.code

/-- `HTTP2Pipe(concurrency)` -/
def init (concurrency : Nat) : Pipe where
  initSent := false
  localSettings := localSettingsOf concurrency
  remoteSettings := Settings.init false []
  outboundFlowControlWindow := (Settings.init false []).initialWindowSize
  inboundFlowControlWindowManager := .init (localSettingsOf concurrency).initialWindowSize
  encoderTableSize := 4096

/-- `LARGEST_FLOW_CONTROL_WINDOW` -/
def largestFlowControlWindow : Int := 2 ^ 31 - 1

/-- `_guard_increment_window`, and what it returns. -/
def guardIncrementWindow (p : Pipe) (current increment : Int) : Pipe × Int :=
  if current + increment > largestFlowControlWindow then
    ({ p with
        outboundFlowControlWindow := p.remoteSettings.initialWindowSize
        inboundFlowControlWindowManager := .init p.localSettings.initialWindowSize },
      largestFlowControlWindow - current)
  else (p, largestFlowControlWindow - current)

/-! ## 2. Sending -/

/-- `send_request_headers`, and what it writes.  `stream.connection_data` starts the connection. -/
def sendRequestHeaders (p : Pipe) (stream : Stream) (request : Request) :
    Pipe × Stream × List Written :=
  let first := p.initSent = false ∨ stream.resetConnection
  let p :=
    if first then
      { p with
        inboundFlowControlWindowManager := p.inboundFlowControlWindowManager.windowOpened 65536
        initSent := true
        outboundFlowControlWindow := p.remoteSettings.initialWindowSize }
    else p
  let flags :=
    if request.encodedData = none then insert .endStream stream.headersFrame.flags
    else stream.headersFrame.flags
  let headersFrame : Frame :=
    ⟨stream.headersFrame.streamId, flags,
      stream.headersFrame.payload.setData request.encodedHeaders⟩
  (p,
    { stream with
      inbound := some ((WindowManager.init p.localSettings.initialWindowSize).windowOpened 65536)
      maxOutboundFrameSize := p.remoteSettings.maxFrameSize
      currentOutboundWindowSize := p.remoteSettings.initialWindowSize
      headersFrame := headersFrame },
    (if first then [.connectionData stream.connectionData] else []) ++ [.frame headersFrame])

/-- The loop of `submit_request_body`, for `n` frames at most: the connection's window after it, the
frames that are written, and what it raises.  There is no `_receive_events` to wait for a larger
window. -/
def submitData (stream : Stream) : Nat → Int → Bytes → Int × List Frame × Except Error Unit
  | 0, window, _ => (window, [], .ok ())
  | n + 1, window, data =>
    if data = [] then (window, [], .ok ())
    else
      let flow := min stream.currentOutboundWindowSize stream.maxOutboundFrameSize
      if flow = 0 then (window, [], .error .attributeError)
      else
        let chunk := data.take (min (data.length : Int) flow).toNat
        let window := window - chunk.length
        if window < 0 then (window, [], .error .assertionError)
        else
          let (window, frames, result) := submitData stream n window (data.drop chunk.length)
          (window, ⟨stream.streamId, ∅, .data 0 chunk⟩ :: frames, result)

/-- `submit_request_body` -/
def submitRequestBody (p : Pipe) (stream : Stream) (data : Bytes) :
    Pipe × List Frame × Except Error Unit :=
  let (window, frames, result) := submitData stream data.length p.outboundFlowControlWindow data
  let p := { p with outboundFlowControlWindow := window }
  match result with
  | .ok () => (p, frames ++ [⟨stream.streamId, {.endStream}, .data 0 []⟩], .ok ())
  | .error e => (p, frames, .error e)

end Pipe

/-! ## 3. Receiving -/

/-- `flow_controlled_length`: the payload, and the padding with its length. -/
def Frame.flowControlledLength (f : Frame) : Nat :=
  match f.payload with
  | .data padLength bytes => bytes.length + (if .padded ∈ f.flags then padLength + 1 else 0)
  | _ => 0

/-- A `DataReceived` event. -/
structure DataReceived where
  data : Option Bytes
  flowControlledLength : Option Nat
deriving DecidableEq

/-- The variables of `receive_response`.  `frames` is not reset for every frame, and `writeData` is
written anew with each addition. -/
structure Receiving where
  pipe : Pipe
  stream : Stream
  response : Response
  done : Bool
  frames : List Frame
  streamEvents : List DataReceived
  writeData : List Frame
  written : List Written

namespace Receiving

/-- `stream_events[0].data = …` -/
def setFirst (event : DataReceived) : List DataReceived → List DataReceived
  | [] => []
  | _ :: events => event :: events

/-- A `DATA` frame.  The event is appended, but the first one is written to. -/
def receiveData (r : Receiving) (frame : Frame) (bytes : Bytes) : Except Error Receiving :=
  let length := frame.flowControlledLength
  match r.stream.inbound with
  | none => .error (.connection r.stream.streamId)
  | some inbound =>
    .ok { r with
      frames := []
      pipe := { r.pipe with
        inboundFlowControlWindowManager :=
          r.pipe.inboundFlowControlWindowManager.windowConsumed length }
      stream := { r.stream with inbound := some (inbound.windowConsumed length) }
      done := r.done ∨ .endStream ∈ frame.flags
      streamEvents := setFirst ⟨some bytes, some length⟩ (r.streamEvents ++ [⟨none, none⟩]) }

/-- `new_value - original_value` -/
def delta (c : ChangedSetting) : Int := (c.newValue.getD 0 : Int) - c.originalValue.getD 0

/-- `if initial_window_size_change: …` -/
def changeWindow (r : Receiving) : Option ChangedSetting → Receiving
  | none => r
  | some c =>
    let (pipe, window) := r.pipe.guardIncrementWindow r.stream.currentOutboundWindowSize (delta c)
    { r with pipe := pipe, stream := { r.stream with currentOutboundWindowSize := window } }

/-- `if header_table_size_change: …` -/
def changeTableSize (r : Receiving) : Option ChangedSetting → Receiving
  | none => r
  | some c => { r with pipe := { r.pipe with encoderTableSize := c.newValue.getD 0 } }

/-- `if max_frame_size_change: …`, for the settings of both sides. -/
def changeFrameSize (r : Receiving) : Option ChangedSetting → Receiving
  | none => r
  | some c => { r with stream := { r.stream with maxOutboundFrameSize := c.newValue.getD 0 } }

/-- What an initial window of our own changes. -/
def changeInbound (r : Receiving) : Option ChangedSetting → Receiving
  | none => r
  | some c =>
    { r with stream := { r.stream with
        inbound := r.stream.inbound.map fun w =>
          { w.windowOpened (delta c) with maxWindowSize := w.maxWindowSize + delta c } } }

/-- What the acknowledgement of our settings changes. -/
def acknowledgeLocal (r : Receiving) : Receiving :=
  let (localSettings, changes) := r.pipe.localSettings.acknowledge
  let r := { r with pipe := { r.pipe with localSettings := localSettings } }
  (r.changeInbound (changes .initialWindowSize)).changeFrameSize (changes .maxFrameSize)

/-- What the settings of the peer change. -/
def changeRemote (r : Receiving) (changes : SettingCode → Option ChangedSetting) : Receiving :=
  ((r.changeWindow (changes .initialWindowSize)).changeTableSize
    (changes .headerTableSize)).changeFrameSize (changes .maxFrameSize)

/-- A `SETTINGS` frame.  It is acknowledged, and so is an acknowledgement. -/
def receiveSettings (r : Receiving) (frame : Frame) (settings : Dict Nat Nat) :
    Except Error Receiving :=
  let r := if .ack ∈ frame.flags then r.acknowledgeLocal else r
  match r.pipe.remoteSettings.update settings.items with
  | .error _ => .error (.connection r.stream.streamId)
  | .ok remoteSettings =>
    let (remoteSettings, changes) := remoteSettings.acknowledge
    let r := { r with pipe := { r.pipe with remoteSettings := remoteSettings } }
    .ok { r.changeRemote changes with frames := [⟨0, {.ack}, .settings Dict.empty⟩] }

/-- A `WINDOW_UPDATE` frame, of a stream or of the connection. -/
def receiveWindowUpdate (r : Receiving) (increment : Nat) : Receiving :=
  let (pipe, window) := r.pipe.guardIncrementWindow r.pipe.outboundFlowControlWindow increment
  { r with pipe := { pipe with outboundFlowControlWindow := window }, frames := [] }

/-- `if frames: …` -/
def write (r : Receiving) : Receiving :=
  if r.frames = [] then r
  else
    { r with
      writeData := r.writeData ++ r.frames
      written := r.written ++ (r.writeData ++ r.frames).map .frame }

/-- What is done with a frame, by its type. -/
def dispatch (r : Receiving) (frame : Frame) : Except Error Receiving :=
  match frame.payload with
  | .data _ bytes => r.receiveData frame bytes
  | .goaway _ _ _ => .error (.connection r.stream.streamId)
  | .headers _ _ _ _ bytes =>
    .ok { r with
      frames := []
      response := { r.response with deferredHeaders := some bytes }
      done := r.done ∨ .endStream ∈ frame.flags }
  | .reset _ => .error (.connection r.stream.streamId)
  | .settings settings => r.receiveSettings frame settings
  | .windowupdate increment => .ok (r.receiveWindowUpdate increment)
  | _ => .ok r

/-- A frame out of the buffer. -/
def receiveFrame (r : Receiving) (frame : Frame) : Except Error Receiving :=
  (r.dispatch frame).map write

/-- What is done with an event, at the end of a read. -/
def finishEvent (r : Receiving) (event : DataReceived) : Receiving :=
  let (manager, increment) := r.pipe.inboundFlowControlWindowManager.processBytes
    (event.flowControlledLength.map Nat.cast)
  let increment := increment.getD 0
  { r with
    pipe := { r.pipe with inboundFlowControlWindowManager := manager }
    written := r.written ++
      (if increment = 0 then []
      else [.frame ⟨0, ∅, .windowupdate (increment % 0x80000000).toNat⟩])
    response := { r.response with body := r.response.body ++ event.data.getD [] } }

/-- A read that has got `data`. -/
def receiveRead (r : Receiving) (data : Bytes) : Except Error Receiving := do
  let (frames, buffer) := FrameBuffer.reader.drain
    { r.stream.frameBuffer with data := r.stream.frameBuffer.data ++ data }
  let r ← frames.foldlM receiveFrame { r with frames := [], streamEvents := [], writeData := [] }
  -- the loop over the frame buffer raises here
  let buffer ← buffer
  let r := { r with stream := { r.stream with frameBuffer := buffer } }
  return r.streamEvents.foldl finishEvent r

/-- The loop over the reads.  When no more comes, the read times out. -/
def receiveReads : Receiving → List Bytes → Except Error Receiving
  | r, [] => .ok { r with response := { r.response with status := some 408 } }
  | r, data :: reads => do
    let r ← r.receiveRead data
    if r.done then return r else receiveReads r reads

end Receiving

/-- `receive_response`, with what the reads return. -/
def Pipe.receiveResponse (p : Pipe) (stream : Stream) (response : Response) (reads : List Bytes) :
    Except Error Receiving :=
  Receiving.receiveReads
    { pipe := p
      stream := stream
      response := response
      done := false
      frames := []
      streamEvents := []
      writeData := []
      written := [] } reads

/-- The end of a read leaves the stream alone. -/
theorem Receiving.stream_finishEvents (events : List DataReceived) : ∀ r : Receiving,
    (events.foldl finishEvent r).stream = r.stream ∧ (events.foldl finishEvent r).done = r.done := by
  induction events with
  | nil => exact fun r => ⟨rfl, rfl⟩
  | cons event events ih => exact fun r => ih (r.finishEvent event)

/-! ## 4. The frames of a body -/

/-- How much of a body goes into a frame. -/
def Stream.flow (stream : Stream) : Nat :=
  (min stream.currentOutboundWindowSize stream.maxOutboundFrameSize).toNat

namespace Pipe

variable {stream : Stream}

/-- The next frame of a body. -/
theorem submitData_succ (hwindow : 0 ≤ stream.currentOutboundWindowSize) (n : Nat) (window : Int)
    (data : Bytes) :
    submitData stream (n + 1) window data =
      if data = [] then (window, [], .ok ())
      else if stream.flow = 0 then (window, [], .error .attributeError)
      else if window < (data.take stream.flow).length then
        (window - (data.take stream.flow).length, [], .error .assertionError)
      else
        let rest := submitData stream n (window - (data.take stream.flow).length)
          (data.drop stream.flow)
        (rest.1, ⟨stream.streamId, ∅, .data 0 (data.take stream.flow)⟩ :: rest.2.1, rest.2.2) := by
  have hflow : min stream.currentOutboundWindowSize stream.maxOutboundFrameSize =
      (stream.flow : Int) := by
    unfold Stream.flow
    omega
  have hchunk : data.take (min (data.length : Int) stream.flow).toNat = data.take stream.flow := by
    rcases Nat.le_total stream.flow data.length with h | h
    · rw [min_eq_right (by exact_mod_cast h), Int.toNat_natCast]
    · rw [min_eq_left (by exact_mod_cast h), Int.toNat_natCast, List.take_length,
        List.take_of_length_le h]
  have hdrop : data.drop (data.take stream.flow).length = data.drop stream.flow := by
    rw [List.length_take]
    rcases Nat.le_total stream.flow data.length with h | h
    · rw [min_eq_left h]
    · rw [min_eq_right h, List.drop_length, List.drop_of_length_le h]
  rw [submitData]
  simp only [hflow, hchunk, hdrop, Int.natCast_eq_zero, sub_neg]

/-- The frames of a body but the last are `DATA` frames of the stream without a flag. -/
theorem frames_of_submitData : ∀ (n : Nat) (window : Int) (data : Bytes),
    ∀ f ∈ (submitData stream n window data).2.1,
      f.streamId = stream.streamId ∧ f.payload.type = 0 ∧ f.flags = ∅
  | 0, _, _, f, hf => absurd hf List.not_mem_nil
  | n + 1, window, data, f, hf => by
    unfold submitData at hf
    split at hf
    · cases hf
    · simp only at hf
      split at hf
      · cases hf
      · split at hf
        · cases hf
        · rcases List.mem_cons.mp hf with rfl | hf
          · exact ⟨rfl, rfl, rfl⟩
          · exact frames_of_submitData n _ _ f hf

/-- The last frame of a body, behind the others. -/
theorem submitRequestBody_eq (p : Pipe) (data : Bytes) :
    let sent := submitData stream data.length p.outboundFlowControlWindow data
    p.submitRequestBody stream data =
      ({ p with outboundFlowControlWindow := sent.1 },
        sent.2.1 ++ (if sent.2.2 = .ok () then [⟨stream.streamId, {.endStream}, .data 0 []⟩] else []),
        sent.2.2) := by
  unfold submitRequestBody
  simp only
  split
  · next h => rw [h, if_pos rfl]
  · next h => rw [h, if_neg (by simp), List.append_nil]

theorem frames_of_submitRequestBody (p : Pipe) (data : Bytes) :
    ∀ f ∈ (p.submitRequestBody stream data).2.1,
      f.streamId = stream.streamId ∧ f.payload.type = 0 := by
  intro f hf
  rw [submitRequestBody_eq] at hf
  rcases List.mem_append.mp hf with hf | hf
  · obtain ⟨hid, htype, -⟩ := frames_of_submitData _ _ _ f hf
    exact ⟨hid, htype⟩
  · split at hf
    · rw [List.mem_singleton.mp hf]
      exact ⟨rfl, rfl⟩
    · cases hf

/-- No frame of a body gets out if a window is too small for the first of them. -/
theorem submitRequestBody_eq_nil_iff (hwindow : 0 ≤ stream.currentOutboundWindowSize) (p : Pipe)
    (data : Bytes) : (p.submitRequestBody stream data).2.1 = [] ↔ data ≠ [] ∧
      (stream.flow = 0 ∨ p.outboundFlowControlWindow < (data.take stream.flow).length) := by
  rw [submitRequestBody_eq]
  cases data with
  | nil => simp [submitData]
  | cons b data =>
    rw [List.length_cons, submitData_succ hwindow, if_neg (List.cons_ne_nil b data)]
    by_cases hflow : stream.flow = 0
    · rw [if_pos hflow]
      simp [hflow]
    · rw [if_neg hflow]
      by_cases hlt : p.outboundFlowControlWindow < ((b :: data).take stream.flow).length
      · rw [if_pos hlt]
        simp only [hlt, or_true]
        simp
      · rw [if_neg hlt]
        simp only [hlt, hflow]
        simp

/-- How many bytes of a body are sent, when so many go into a frame.  A frame that is too large for
the window of the connection, and what is behind it, is not sent. -/
def sentLength (flow window length : Nat) : Nat :=
  if flow = 0 then 0 else if length ≤ window then length else flow * (window / flow)

theorem sentLength_le_window (flow window length : Nat) : sentLength flow window length ≤ window := by
  unfold sentLength
  split
  · exact Nat.zero_le _
  · split
    · assumption
    · exact Nat.mul_div_le _ _

/-- One frame, and the rest. -/
theorem sentLength_step {flow window length : Nat} (hflow : flow ≠ 0)
    (hfits : min flow length ≤ window) :
    sentLength flow window length =
      min flow length + sentLength flow (window - min flow length) (length - flow) := by
  unfold sentLength
  rw [if_neg hflow, if_neg hflow]
  rcases Nat.le_total length flow with h | h
  · rw [min_eq_right h] at hfits ⊢
    rw [if_pos hfits, Nat.sub_eq_zero_of_le h, if_pos (Nat.zero_le _), Nat.add_zero]
  · rw [min_eq_left h] at hfits ⊢
    by_cases hlength : length ≤ window
    · rw [if_pos hlength, if_pos (by omega)]
      omega
    · have hdiv : window / flow = (window - flow) / flow + 1 := Nat.div_eq_sub_div (by omega) hfits
      rw [if_neg hlength, if_neg (by omega), hdiv, Nat.mul_add, Nat.mul_one]
      omega

/-- The bytes of a body in so many frames. -/
def dataLength (frames : List Frame) : Nat := (frames.map Frame.flowControlledLength).sum

/-- **How much of a body is sent**, and what is left of the window. -/
theorem dataLength_submitData (hwindow : 0 ≤ stream.currentOutboundWindowSize) :
    ∀ {n : Nat} {window : Int} {data : Bytes}, data.length ≤ n → 0 ≤ window →
      let sent := submitData stream n window data
      dataLength sent.2.1 = sentLength stream.flow window.toNat data.length ∧
        (sent.2.2 = .ok () → sent.1 = window - dataLength sent.2.1)
  | 0, window, data, hlength, _ => by
    have hnil : data.length = 0 := Nat.le_zero.mp hlength
    refine ⟨?_, fun _ => (Int.sub_zero _).symm⟩
    rw [hnil]
    unfold sentLength
    split <;> rfl
  | n + 1, window, data, hlength, hpos => by
    rw [submitData_succ hwindow]
    by_cases hnil : data = []
    · rw [if_pos hnil]
      refine ⟨?_, fun _ => (Int.sub_zero _).symm⟩
      rw [hnil]
      unfold sentLength
      split <;> rfl
    rw [if_neg hnil]
    by_cases hflow : stream.flow = 0
    · rw [if_pos hflow]
      refine ⟨?_, fun h => (nomatch h)⟩
      unfold sentLength
      rw [if_pos hflow]
      rfl
    rw [if_neg hflow, List.length_take]
    by_cases hlt : window < (min stream.flow data.length : Nat)
    · rw [if_pos hlt]
      refine ⟨?_, fun h => (nomatch h)⟩
      have hlong : ¬ data.length ≤ window.toNat := by omega
      have hzero : window.toNat / stream.flow = 0 := Nat.div_eq_of_lt (by omega)
      unfold sentLength
      rw [if_neg hflow, if_neg hlong, hzero, Nat.mul_zero]
      rfl
    · rw [if_neg hlt]
      have hpositive : 0 < data.length := List.length_pos_of_ne_nil hnil
      obtain ⟨hsent, hleft⟩ := @dataLength_submitData hwindow n
        (window - (min stream.flow data.length : Nat)) (data.drop stream.flow)
        (by rw [List.length_drop]; omega) (by omega)
      have htake : (⟨stream.streamId, ∅, .data 0 (data.take stream.flow)⟩ :
          Frame).flowControlledLength = min stream.flow data.length := by
        simp [Frame.flowControlledLength]
      have hnat : (window - (min stream.flow data.length : Nat)).toNat =
          window.toNat - min stream.flow data.length := by omega
      have htotal : dataLength (⟨stream.streamId, ∅, .data 0 (data.take stream.flow)⟩ ::
          (submitData stream n (window - (min stream.flow data.length : Nat))
            (data.drop stream.flow)).2.1) = sentLength stream.flow window.toNat data.length := by
        rw [dataLength, List.map_cons, List.sum_cons, htake,
          sentLength_step hflow (by omega : min stream.flow data.length ≤ window.toNat)]
        rw [dataLength, hnat, List.length_drop] at hsent
        rw [hsent]
      refine ⟨htotal, fun hok => ?_⟩
      have hrest := hleft hok
      simp only at htotal ⊢
      rw [htotal, sentLength_step hflow (by omega : min stream.flow data.length ≤ window.toNat)]
      rw [hrest, hsent, hnat, List.length_drop]
      omega

/-- **What a body takes of the windows.** -/
theorem dataLength_submitRequestBody (hwindow : 0 ≤ stream.currentOutboundWindowSize) {p : Pipe}
    (hpos : 0 ≤ p.outboundFlowControlWindow) (data : Bytes) :
    let sent := p.submitRequestBody stream data
    dataLength sent.2.1 =
        sentLength stream.flow p.outboundFlowControlWindow.toNat data.length ∧
      (sent.2.2 = .ok () →
        sent.1.outboundFlowControlWindow = p.outboundFlowControlWindow - dataLength sent.2.1) := by
  obtain ⟨hsent, hleft⟩ := dataLength_submitData hwindow (le_refl data.length) hpos
  rw [submitRequestBody_eq]
  have hlast : ∀ result : Except Error Unit, dataLength
      (if result = .ok () then [⟨stream.streamId, {.endStream}, .data 0 []⟩] else []) = 0 := by
    intro result
    split <;> rfl
  have happend : ∀ fs gs : List Frame, dataLength (fs ++ gs) = dataLength fs + dataLength gs := by
    intro fs gs
    rw [dataLength, List.map_append, List.sum_append]
    rfl
  simp only [happend, hlast, Nat.add_zero]
  exact ⟨hsent, hleft⟩

end Pipe

end Http2
end Hedra
