/-
# The body of a response

The `DATA` frames of a response are to be joined, whatever comes between them and however the bytes
are cut into reads.  `receive_response` (`core/engines/types/http2/pipe.py`) makes an event for
every `DATA` frame of a read, but writes the data to the first of these events, each time.  So of
the `DATA` frames that get whole with one read only the last one is kept.

A response is also lost when it has a header block in several frames, or a frame that the pipe
raises on.

* `receiveReads_of_calm`: what is kept of a response that the pipe never raises on, read by read;
* `receiveReads_of_doomed`: a response with a frame that it raises on does raise, when all of it has
  come;
* `whole_iff`: which responses are returned whole.
-/
import Hedra.Http2.Continuation
import Hedra.Http2.Pipe

namespace Hedra
namespace Http2

open Lib

/-! ## 1. Responses -/

namespace RawFrame

/-- The frame is the last of its stream, but for the `CONTINUATION` frames of its header block. -/
def EndsStream (r : RawFrame) : Prop :=
  (r.type = 0 ∨ r.type = 1) ∧ r.flags.toNat &&& Flag.endStream.bit ≠ 0

/-- A header block starts, and goes on in the next frame. -/
def OpensBlock (r : RawFrame) : Prop := (r.type = 1 ∨ r.type = 5) ∧ ¬ r.EndsHeaders

/-- A `DATA` frame with padding. -/
def Padded (r : RawFrame) : Prop := r.type = 0 ∧ r.flags.toNat &&& Flag.padded.bit ≠ 0

instance (r : RawFrame) : Decidable r.EndsStream := inferInstanceAs (Decidable (_ ∧ _))
instance (r : RawFrame) : Decidable r.OpensBlock := inferInstanceAs (Decidable (_ ∧ _))
instance (r : RawFrame) : Decidable r.Padded := inferInstanceAs (Decidable (_ ∧ _))

/-- The padding of a frame that has some is shorter than the rest of the frame. -/
def PaddingFits (r : RawFrame) : Prop :=
  r.Padded → ∃ pad rest, r.body = pad :: rest ∧ pad.toNat ≤ rest.length

/-- The payload of a `DATA` frame: without the padding, and without its length. -/
def payload (r : RawFrame) : Option Bytes :=
  if r.type = 0 then
    if r.Padded then some (r.body.tail.take (r.body.tail.length - (r.body.headD 0).toNat))
    else some r.body
  else none

end RawFrame

/-- The frames of a response.  Behind `END_STREAM` there may only be the rest of a header block, and
no header block is left open. -/
structure IsResponse (rs : List RawFrame) : Prop where
  parse : ∀ r ∈ rs, ∃ f, r.parse = .ok f
  padding : ∀ r ∈ rs, r.PaddingFits
  ends : ∀ front last back, rs = front ++ last :: back → last.EndsStream → back ≠ [] →
    last.OpensBlock
  closed : ∀ last ∈ rs.getLast?, ¬ last.OpensBlock ∧ (last.type = 9 → last.EndsHeaders)

/-- The payloads of all `DATA` frames, in order. -/
def body (rs : List RawFrame) : Bytes := (rs.filterMap RawFrame.payload).flatten

/-- The frames that get whole with each read. -/
def perRead (rs : List RawFrame) (reads : List Bytes) : List (List RawFrame) :=
  groups (fun r => r.bytes.length) 0 rs (reads.map List.length)

/-- The pipe does not raise on the frame. -/
def Frame.Harmless (f : Frame) : Prop :=
  match f.payload with
  | .goaway _ _ _ => False
  | .reset _ => False
  | .settings settings => ∀ item ∈ settings.items, validSetting item.1 item.2
  | _ => True

/-- The frame is a header block of its own, or none, and the pipe does not raise on it. -/
def RawFrame.Quiet (r : RawFrame) : Prop := ¬ r.OpensBlock ∧ ∃ f, r.parse = .ok f ∧ f.Harmless

/-- Of the `DATA` frames that get whole with one read, only the last one has a payload. -/
def OnePayload (rs : List RawFrame) : Prop :=
  ∀ bytes ∈ (rs.filterMap RawFrame.payload).dropLast, bytes = []

instance (rs : List RawFrame) : Decidable (OnePayload rs) :=
  inferInstanceAs (Decidable (∀ bytes ∈ _, bytes = []))

/-- The responses, and the reads, that work. -/
structure ResponseKept (rs : List RawFrame) (reads : List Bytes) : Prop where
  quiet : ∀ r ∈ rs, r.Quiet
  onePayload : ∀ group ∈ perRead rs reads, OnePayload group

/-! ## 2. One frame -/

/-- `frame.data` of a `DATA` frame. -/
def Frame.data? (f : Frame) : Option Bytes :=
  match f.payload with
  | .data _ bytes => some bytes
  | _ => none

/-- The frame makes the pipe stop after the read. -/
def Frame.ends (f : Frame) : Bool :=
  match f.payload with
  | .data _ _ => .endStream ∈ f.flags
  | .headers _ _ _ _ _ => .endStream ∈ f.flags
  | _ => false

/-- The data of the last `DATA` frame, if there is one. -/
def lastData (last : Option Bytes) (frames : List Frame) : Option Bytes :=
  frames.foldl (fun last f => f.data?.or last) last

/-- The events of a read: the first one has the last data, the others have none. -/
def Events : Option Bytes → List DataReceived → Prop
  | none, events => events = []
  | some bytes, events =>
    ∃ length rest, events = ⟨some bytes, length⟩ :: rest ∧ ∀ event ∈ rest, event.data = none

namespace Receiving

/-- What is left of `frames`, for the body of the response. -/
structure Took (r : Receiving) (frames : List Frame) (r' : Receiving) : Prop where
  inbound : r'.stream.inbound.isSome
  frameBuffer : r'.stream.frameBuffer = r.stream.frameBuffer
  body : r'.response.body = r.response.body
  done : r'.done = (r.done || frames.any Frame.ends)
  events : ∀ last, Events last r.streamEvents → Events (lastData last frames) r'.streamEvents

theorem Took.trans {r s t : Receiving} {frames frames' : List Frame} (h : r.Took frames s)
    (h' : s.Took frames' t) : r.Took (frames ++ frames') t where
  inbound := h'.inbound
  frameBuffer := h'.frameBuffer.trans h.frameBuffer
  body := h'.body.trans h.body
  done := by rw [h'.done, h.done, List.any_append, Bool.or_assoc]
  events last hlast := by
    unfold lastData
    rw [List.foldl_append]
    exact h'.events _ (h.events _ hlast)

/-- What a frame that is no `DATA` frame keeps. -/
structure Keeps (r r' : Receiving) : Prop where
  inbound : r'.stream.inbound.isSome = r.stream.inbound.isSome
  frameBuffer : r'.stream.frameBuffer = r.stream.frameBuffer
  body : r'.response.body = r.response.body
  done : r'.done = r.done
  events : r'.streamEvents = r.streamEvents

theorem Keeps.refl (r : Receiving) : r.Keeps r := ⟨rfl, rfl, rfl, rfl, rfl⟩

theorem Keeps.trans {r s t : Receiving} (h : r.Keeps s) (h' : s.Keeps t) : r.Keeps t :=
  ⟨h'.inbound.trans h.inbound, h'.frameBuffer.trans h.frameBuffer, h'.body.trans h.body,
    h'.done.trans h.done, h'.events.trans h.events⟩

theorem keeps_write (r : Receiving) : r.Keeps r.write := by
  unfold write
  split <;> exact ⟨rfl, rfl, rfl, rfl, rfl⟩

theorem keeps_changeFrameSize (r : Receiving) (c : Option ChangedSetting) :
    r.Keeps (r.changeFrameSize c) := by
  cases c <;> exact ⟨rfl, rfl, rfl, rfl, rfl⟩

theorem keeps_changeRemote (r : Receiving) (changes : SettingCode → Option ChangedSetting) :
    r.Keeps (r.changeRemote changes) := by
  have hwindow : ∀ (t : Receiving) c, t.Keeps (t.changeWindow c) := by
    rintro t (_ | c) <;> exact ⟨rfl, rfl, rfl, rfl, rfl⟩
  have htable : ∀ (t : Receiving) c, t.Keeps (t.changeTableSize c) := by
    rintro t (_ | c) <;> exact ⟨rfl, rfl, rfl, rfl, rfl⟩
  exact ((hwindow r _).trans (htable _ _)).trans (keeps_changeFrameSize _ _)

theorem keeps_acknowledgeLocal (r : Receiving) : r.Keeps r.acknowledgeLocal := by
  have hinbound : ∀ (t : Receiving) c, t.Keeps (t.changeInbound c) := by
    rintro t (_ | c) <;> exact ⟨by simp [changeInbound], rfl, rfl, rfl, rfl⟩
  have hlocal : r.Keeps { r with pipe :=
      { r.pipe with localSettings := r.pipe.localSettings.acknowledge.1 } } := ⟨rfl, rfl, rfl, rfl, rfl⟩
  exact (hlocal.trans (hinbound _ _)).trans (keeps_changeFrameSize _ _)

theorem keeps_receiveWindowUpdate (r : Receiving) (increment : Nat) :
    r.Keeps (r.receiveWindowUpdate increment) := ⟨rfl, rfl, rfl, rfl, rfl⟩

/-- Settings are taken if their values are valid. -/
theorem receiveSettings_of_valid (r : Receiving) (frame : Frame) {settings : Dict Nat Nat}
    (h : ∀ item ∈ settings.items, validSetting item.1 item.2) :
    ∃ r', r.receiveSettings frame settings = .ok r' ∧ r.Keeps r' := by
  have hack : r.Keeps (if .ack ∈ frame.flags then r.acknowledgeLocal else r) := by
    split
    · exact r.keeps_acknowledgeLocal
    · exact .refl r
  unfold receiveSettings
  generalize (if .ack ∈ frame.flags then r.acknowledgeLocal else r) = acked at hack
  obtain ⟨remoteSettings, hupdate⟩ := (Settings.update_ok_iff (s := acked.pipe.remoteSettings)).mpr h
  simp only [hupdate]
  refine ⟨_, rfl, hack.trans ?_⟩
  have hremote : acked.Keeps { acked with pipe :=
      { acked.pipe with remoteSettings := remoteSettings.acknowledge.1 } } :=
    ⟨rfl, rfl, rfl, rfl, rfl⟩
  have hframes : ∀ (t : Receiving) frames, t.Keeps { t with frames := frames } :=
    fun _ _ => ⟨rfl, rfl, rfl, rfl, rfl⟩
  exact (hremote.trans (keeps_changeRemote _ _)).trans (hframes _ _)

theorem receiveSettings_of_not_valid (r : Receiving) (frame : Frame) {settings : Dict Nat Nat}
    (h : ¬ ∀ item ∈ settings.items, validSetting item.1 item.2) :
    ∃ e, r.receiveSettings frame settings = .error e := by
  unfold receiveSettings
  generalize (if .ack ∈ frame.flags then r.acknowledgeLocal else r) = acked
  cases hupdate : acked.pipe.remoteSettings.update settings.items with
  | ok s => exact absurd (Settings.update_ok_iff.mp ⟨s, hupdate⟩) h
  | error e => exact ⟨.connection acked.stream.streamId, by simp only [hupdate]⟩

theorem took_of_keeps {r r' : Receiving} {f : Frame} (h : r.Keeps r') (hr : r.stream.inbound.isSome)
    (hdata : f.data? = none) (hends : f.ends = false) : r.Took [f] r' where
  inbound := h.inbound.trans hr
  frameBuffer := h.frameBuffer
  body := h.body
  done := by simp [h.done, hends]
  events last hlast := by
    rw [h.events]
    simpa [lastData, hdata] using hlast

/-- A `DATA` frame: what is written to the first event is its data. -/
theorem events_setFirst {last : Option Bytes} {events : List DataReceived} (h : Events last events)
    (bytes : Bytes) (length : Nat) :
    Events (some bytes) (setFirst ⟨some bytes, some length⟩ (events ++ [⟨none, none⟩])) := by
  cases last with
  | none =>
    obtain rfl : events = [] := h
    exact ⟨some length, [], rfl, by simp⟩
  | some bytes' =>
    obtain ⟨length', rest, rfl, hrest⟩ := h
    refine ⟨some length, rest ++ [⟨none, none⟩], rfl, fun event hevent => ?_⟩
    rcases List.mem_append.mp hevent with h | h
    · exact hrest event h
    · rw [List.mem_singleton.mp h]

theorem took_receiveData {r : Receiving} {f : Frame} {padLength : Nat} {bytes : Bytes}
    (hf : f.payload = .data padLength bytes) (hr : r.stream.inbound.isSome) :
    ∃ r', r.receiveData f bytes = .ok r' ∧ r.Took [f] r' := by
  obtain ⟨inbound, hinbound⟩ := Option.isSome_iff_exists.mp hr
  unfold receiveData
  simp only [hinbound]
  refine ⟨_, rfl, rfl, rfl, rfl, ?_, fun last hlast => ?_⟩
  · simp [Frame.ends, hf]
  · have hdata : f.data? = some bytes := by rw [Frame.data?, hf]
    simpa [lastData, hdata] using events_setFirst hlast bytes f.flowControlledLength

theorem dispatch_of_harmless {r : Receiving} {f : Frame} (hr : r.stream.inbound.isSome)
    (h : f.Harmless) : ∃ r', r.dispatch f = .ok r' ∧ r.Took [f] r' := by
  unfold Frame.Harmless at h
  unfold dispatch
  cases hf : f.payload with
  | data padLength bytes => exact took_receiveData hf hr
  | goaway _ _ _ => simp [hf] at h
  | reset _ => simp [hf] at h
  | headers _ _ _ _ bytes =>
    refine ⟨_, rfl, hr, rfl, rfl, ?_, fun last hlast => ?_⟩
    · simp [Frame.ends, hf]
    · simpa [lastData, Frame.data?, hf] using hlast
  | settings settings =>
    rw [hf] at h
    obtain ⟨r', hr', hkeeps⟩ := r.receiveSettings_of_valid f h
    exact ⟨r', hr', took_of_keeps hkeeps hr (by simp [Frame.data?, hf]) (by simp [Frame.ends, hf])⟩
  | windowupdate increment =>
    exact ⟨_, rfl, took_of_keeps (r.keeps_receiveWindowUpdate increment) hr
      (by simp [Frame.data?, hf]) (by simp [Frame.ends, hf])⟩
  | altsvc _ _ | continuation _ | ping _ | priority _ _ _ | pushpromise _ _ _ | extension _ _ =>
    exact ⟨r, rfl, took_of_keeps (.refl r) hr (by simp [Frame.data?, hf])
      (by simp [Frame.ends, hf])⟩

theorem dispatch_of_not_harmless {r : Receiving} {f : Frame} (h : ¬ f.Harmless) :
    ∃ e, r.dispatch f = .error e := by
  unfold Frame.Harmless at h
  unfold dispatch
  cases hf : f.payload with
  | goaway _ _ _ => exact ⟨_, rfl⟩
  | reset _ => exact ⟨_, rfl⟩
  | settings settings =>
    rw [hf] at h
    exact r.receiveSettings_of_not_valid f h
  | _ => simp [hf] at h

/-- **A frame that the pipe does not raise on.** -/
theorem receiveFrame_of_harmless {r : Receiving} {f : Frame} (hr : r.stream.inbound.isSome)
    (h : f.Harmless) : ∃ r', r.receiveFrame f = .ok r' ∧ r.Took [f] r' := by
  obtain ⟨r', hr', htook⟩ := dispatch_of_harmless hr h
  have hwrite := r'.keeps_write
  refine ⟨r'.write, map_eq_ok_iff.mpr ⟨r', hr', rfl⟩, hwrite.inbound.trans htook.inbound,
    hwrite.frameBuffer.trans htook.frameBuffer, hwrite.body.trans htook.body,
    hwrite.done.trans htook.done, fun last hlast => ?_⟩
  rw [hwrite.events]
  exact htook.events last hlast

/-- **A frame that the pipe raises on.** -/
theorem receiveFrame_of_not_harmless {r : Receiving} {f : Frame} (h : ¬ f.Harmless) :
    ∃ e, r.receiveFrame f = .error e := by
  obtain ⟨e, he⟩ := dispatch_of_not_harmless (r := r) h
  exact ⟨e, by rw [receiveFrame, he]; rfl⟩

end Receiving

/-! ## 3. Frames on the wire -/

/-- The data of a `DATA` frame that is parsed, where the padding fits. -/
theorem Payload.parse_data {r : RawFrame} (htype : r.type = 0) (hr : r.PaddingFits) :
    ∃ padLength bytes, Payload.parse (parsedFlags 0 r.flags.toNat) r.body 0 =
      .ok (.data padLength bytes) ∧ r.payload = some bytes := by
  have hpadded : .padded ∈ parsedFlags 0 r.flags.toNat ↔ r.Padded :=
    (mem_parsedFlags (by decide)).trans ⟨fun h => ⟨htype, h⟩, And.right⟩
  unfold RawFrame.payload
  rw [if_pos htype]
  by_cases h : r.Padded
  · obtain ⟨pad, rest, hbody, hle⟩ := hr h
    have hpadding : parsePadding (parsedFlags 0 r.flags.toNat) r.body = .ok (pad.toNat, 1) :=
      hbody ▸ parsePadding_cons (hpadded.mpr h) pad rest
    have hslice : slice r.body 1 (r.body.length - pad.toNat) = rest.take (rest.length - pad.toNat) := by
      have hstop : ((pad :: rest).length - pad.toNat : Int).toNat = rest.length - pad.toNat + 1 := by
        rw [List.length_cons]
        omega
      rw [hbody, slice_of_nonneg _ _ (by rw [List.length_cons]; omega), hstop, List.take_succ_cons]
      rfl
    refine ⟨pad.toNat, _, bind_eq_ok_iff.mpr ⟨_, hpadding, rfl⟩, ?_⟩
    rw [if_pos h, hslice, hbody]
    rfl
  · have hpadding : parsePadding (parsedFlags 0 r.flags.toNat) r.body = .ok (0, 0) :=
      if_neg (mt hpadded.mp h)
    refine ⟨0, _, bind_eq_ok_iff.mpr ⟨_, hpadding, rfl⟩, ?_⟩
    rw [if_neg h, slice_of_nonneg _ _ (by simp)]
    simp

/-- A `HEADERS` frame that is parsed. -/
theorem Payload.parse_headers {flags : Finset Flag} {body : Bytes} {p : Payload}
    (h : Payload.parse flags body 1 = .ok p) :
    ∃ padLength dependsOn streamWeight exclusive bytes,
      p = .headers padLength dependsOn streamWeight exclusive bytes := by
  obtain ⟨padding, -, h⟩ := bind_eq_ok_iff.mp h
  simp only at h
  split at h
  · obtain ⟨priority, -, h⟩ := bind_eq_ok_iff.mp h
    exact ⟨_, _, _, _, _, (Except.ok.inj h).symm⟩
  · exact ⟨_, _, _, _, _, (Except.ok.inj h).symm⟩

/-- What the pipe sees of a frame: its data, and whether it is the last one. -/
theorem RawFrame.data?_of_parse {r : RawFrame} {f : Frame} (hr : r.PaddingFits)
    (h : r.parse = .ok f) : f.data? = r.payload ∧ (f.ends = true ↔ r.EndsStream) := by
  obtain ⟨p, hp, hf⟩ := bind_eq_ok_iff.mp h
  obtain rfl : f = ⟨r.streamId, parsedFlags r.type.toNat r.flags.toNat, p⟩ :=
    (Except.ok.inj hf).symm
  by_cases hdata : r.type = 0
  · have hends : .endStream ∈ parsedFlags 0 r.flags.toNat ↔ r.EndsStream :=
      (mem_parsedFlags (by decide)).trans ⟨fun h => ⟨.inl hdata, h⟩, And.right⟩
    obtain ⟨padLength, bytes, hparse, hpayload⟩ := Payload.parse_data hdata hr
    have hzero : r.type.toNat = 0 := by rw [hdata]; rfl
    rw [hzero] at hp
    rw [hparse] at hp
    obtain rfl : p = .data padLength bytes := (Except.ok.inj hp).symm
    rw [hpayload, hzero, ← hends]
    exact ⟨rfl, decide_eq_true_iff⟩
  · have hpayload : r.payload = none := if_neg hdata
    have hne : r.type.toNat ≠ 0 := fun h => hdata (UInt8.toNat_inj.mp h)
    have htype := Payload.type_of_parse hp
    by_cases hheaders : r.type = 1
    · have hends : .endStream ∈ parsedFlags 1 r.flags.toNat ↔ r.EndsStream :=
        (mem_parsedFlags (by decide)).trans ⟨fun h => ⟨.inr hheaders, h⟩, And.right⟩
      have hone : r.type.toNat = 1 := by rw [hheaders]; rfl
      rw [hone] at hp
      obtain ⟨padLength, dependsOn, streamWeight, exclusive, bytes, rfl⟩ := Payload.parse_headers hp
      rw [hpayload, hone, ← hends]
      exact ⟨rfl, decide_eq_true_iff⟩
    · have hno : ¬ r.EndsStream := fun h => h.1.elim hdata hheaders
      have hone : r.type.toNat ≠ 1 := fun h => hheaders (UInt8.toNat_inj.mp h)
      rw [hpayload]
      cases p with
      | data _ _ => exact absurd htype.symm hne
      | headers _ _ _ _ _ => exact absurd htype.symm hone
      | _ => exact ⟨rfl, by simp [Frame.ends, hno]⟩

/-- A frame that opens a header block is kept. -/
theorem receive_of_opens {r : RawFrame} {f : Frame} (hopen : r.OpensBlock) (h : r.parse = .ok f) :
    receive [] r.streamId r.type.toNat r.flags.toNat r.body = .ok ([f], none) := by
  obtain ⟨p, hp, hf⟩ := bind_eq_ok_iff.mp h
  have htype := Payload.type_of_parse hp
  obtain ⟨hstart, hends⟩ := hopen
  refine bind_eq_ok_iff.mpr ⟨f, h, if_pos ?_⟩
  rw [← Except.ok.inj hf]
  have hdefined : .endHeaders ∈ definedFlags r.type.toNat := by
    rcases hstart with h | h <;> rw [h] <;> decide
  refine ⟨?_, fun hmem => hends ((mem_parsedFlags hdefined).mp hmem)⟩
  rw [htype]
  exact hstart.imp (fun h => by rw [h]; rfl) fun h => by rw [h]; rfl

/-- A frame that opens no header block is given out, when no block is open. -/
theorem receive_of_quiet {r : RawFrame} {f : Frame} (hopen : ¬ r.OpensBlock) (h : r.parse = .ok f) :
    receive [] r.streamId r.type.toNat r.flags.toNat r.body = .ok ([], some f) := by
  obtain ⟨p, hp, hf⟩ := bind_eq_ok_iff.mp h
  have htype := Payload.type_of_parse hp
  refine bind_eq_ok_iff.mpr ⟨f, h, if_neg ?_⟩
  rw [← Except.ok.inj hf]
  rintro ⟨hstart, hends⟩
  rw [htype] at hstart
  have hstart : r.type = 1 ∨ r.type = 5 :=
    hstart.imp (fun h => UInt8.toNat_inj.mp h) fun h => UInt8.toNat_inj.mp h
  refine hopen ⟨hstart, fun hbit => hends ((mem_parsedFlags ?_).mpr hbit)⟩
  rcases hstart with h | h <;> rw [h] <;> decide

/-- **Frames that open no header block are all given out.** -/
theorem deliver_of_quiet {rs : List RawFrame} (hpadding : ∀ r ∈ rs, r.PaddingFits)
    (h : ∀ r ∈ rs, r.Quiet) :
    ∃ frames, FrameBuffer.deliver [] rs = (frames, .ok []) ∧ (∀ f ∈ frames, f.Harmless) ∧
      frames.filterMap Frame.data? = rs.filterMap RawFrame.payload ∧
      (frames.any Frame.ends = true ↔ ∃ r ∈ rs, r.EndsStream) := by
  induction rs with
  | nil => exact ⟨[], rfl, by simp, rfl, by simp⟩
  | cons r rs ih =>
    obtain ⟨hopen, f, hf, hharmless⟩ := h r List.mem_cons_self
    obtain ⟨frames, hframes, hall, hdata, hends⟩ := ih
      (fun r' hr' => hpadding r' (List.mem_cons_of_mem r hr'))
      fun r' hr' => h r' (List.mem_cons_of_mem r hr')
    obtain ⟨hfdata, hfends⟩ := RawFrame.data?_of_parse (hpadding r List.mem_cons_self) hf
    refine ⟨f :: frames, ?_, List.forall_mem_cons.mpr ⟨hharmless, hall⟩, ?_, ?_⟩
    · rw [FrameBuffer.deliver, receive_of_quiet hopen hf]
      simp only [hframes]
      rfl
    · rw [List.filterMap_cons, List.filterMap_cons, hfdata, hdata]
    · simp [hfends, hends]

namespace Receiving

/-! ## 4. One read -/

theorem took_nil {r : Receiving} (hr : r.stream.inbound.isSome) : r.Took [] r :=
  ⟨hr, rfl, rfl, by simp, fun _ h => h⟩

/-- The frames of a read. -/
theorem receiveFrames_of_harmless {frames : List Frame} : ∀ {r : Receiving},
    r.stream.inbound.isSome → (∀ f ∈ frames, f.Harmless) →
      ∃ r', frames.foldlM receiveFrame r = .ok r' ∧ r.Took frames r' := by
  induction frames with
  | nil => exact fun hr _ => ⟨_, rfl, took_nil hr⟩
  | cons f frames ih =>
    intro r hr h
    obtain ⟨s, hs, hrs⟩ := receiveFrame_of_harmless hr (h f List.mem_cons_self)
    obtain ⟨t, ht, hst⟩ := ih hrs.inbound fun g hg => h g (List.mem_cons_of_mem f hg)
    exact ⟨t, by rw [List.foldlM_cons]; exact bind_eq_ok_iff.mpr ⟨s, hs, ht⟩, hrs.trans hst⟩

/-- What the events add to the body. -/
theorem body_finishEvents (events : List DataReceived) : ∀ r : Receiving,
    (events.foldl finishEvent r).response.body =
      r.response.body ++ (events.map fun event => event.data.getD []).flatten := by
  induction events with
  | nil => exact fun r => by simp
  | cons event events ih =>
    intro r
    rw [List.foldl_cons, ih (r.finishEvent event), List.map_cons, List.flatten_cons,
      ← List.append_assoc]
    rfl

/-- Only the first event of a read has data. -/
theorem flatten_of_events {last : Option Bytes} {events : List DataReceived} (h : Events last events) :
    (events.map fun event => event.data.getD []).flatten = last.getD [] := by
  cases last with
  | none =>
    obtain rfl : events = [] := h
    rfl
  | some bytes =>
    obtain ⟨length, rest, rfl, hrest⟩ := h
    have hnil : (rest.map fun event => event.data.getD []).flatten = [] := by
      rw [List.flatten_eq_nil_iff]
      intro data hdata
      obtain ⟨event, hevent, rfl⟩ := List.mem_map.mp hdata
      rw [hrest event hevent]
      rfl
    rw [List.map_cons, List.flatten_cons, hnil, List.append_nil]

theorem lastData_eq (frames : List Frame) : ∀ last : Option Bytes,
    lastData last frames = (frames.filterMap Frame.data?).getLast?.or last := by
  induction frames with
  | nil => exact fun last => rfl
  | cons f frames ih =>
    intro last
    have hcons : lastData last (f :: frames) = lastData (f.data?.or last) frames := rfl
    rw [hcons, ih, List.filterMap_cons]
    cases hf : f.data? with
    | none => rfl
    | some bytes =>
      simp only [List.getLast?_cons, Option.some_or]
      cases (frames.filterMap Frame.data?).getLast? <;> rfl

/-- **A read of frames that the pipe does not raise on.** -/
theorem receiveRead_of_quiet {r : Receiving} {now : List RawFrame} {pending data rest : Bytes}
    (hr : r.stream.inbound.isSome) (hbuffer : r.stream.frameBuffer = ⟨pending, []⟩)
    (hdata : pending ++ data = (now.map RawFrame.bytes).flatten ++ rest)
    (hwait : ∀ kept, FrameBuffer.pass ⟨rest, kept⟩ = none) (hpadding : ∀ f ∈ now, f.PaddingFits)
    (hquiet : ∀ f ∈ now, f.Quiet) :
    ∃ r', r.receiveRead data = .ok r' ∧ r'.stream.inbound.isSome ∧
      r'.stream.frameBuffer = ⟨rest, []⟩ ∧
      r'.response.body = r.response.body ++ (now.filterMap RawFrame.payload).getLast?.getD [] ∧
      (r'.done = true ↔ r.done = true ∨ ∃ f ∈ now, f.EndsStream) := by
  obtain ⟨frames, hdeliver, hharmless, hframes, hends⟩ := deliver_of_quiet hpadding hquiet
  have hdrain : FrameBuffer.reader.drain
      { r.stream.frameBuffer with data := r.stream.frameBuffer.data ++ data } =
        (frames, .ok ⟨rest, []⟩) := by
    rw [hbuffer, hdata, FrameBuffer.drain_bytes hwait, hdeliver]
    rfl
  obtain ⟨s, hs, htook⟩ := receiveFrames_of_harmless
    (r := { r with frames := [], streamEvents := [], writeData := [] }) hr hharmless
  have hevents := htook.events none rfl
  rw [lastData_eq, hframes, Option.or_none] at hevents
  have hbody := body_finishEvents s.streamEvents
    { s with stream := { s.stream with frameBuffer := ⟨rest, []⟩ } }
  obtain ⟨hstream, hdone⟩ := stream_finishEvents s.streamEvents
    { s with stream := { s.stream with frameBuffer := ⟨rest, []⟩ } }
  refine ⟨s.streamEvents.foldl finishEvent
    { s with stream := { s.stream with frameBuffer := ⟨rest, []⟩ } }, ?_, ?_, ?_, ?_, ?_⟩
  · unfold receiveRead
    rw [hdrain]
    exact bind_eq_ok_iff.mpr ⟨s, hs, bind_eq_ok_iff.mpr ⟨_, rfl, rfl⟩⟩
  · rw [hstream]
    exact htook.inbound
  · rw [hstream]
  · rw [hbody, flatten_of_events hevents]
    exact congrArg (· ++ _) htook.body
  · rw [hdone]
    refine (Bool.eq_iff_iff.mp htook.done).trans ?_
    rw [Bool.or_eq_true, hends]

end Receiving

/-! ## 5. All reads -/

/-- What has come of the frames, cut at any point. -/
theorem RawFrame.split_bytes : ∀ {rs : List RawFrame} {data more : Bytes},
    data ++ more = (rs.map RawFrame.bytes).flatten →
      let (now, later) := whole (fun r => r.bytes.length) data.length rs
      ∃ rest, data = (now.map RawFrame.bytes).flatten ++ rest ∧
        rest ++ more = (later.map RawFrame.bytes).flatten ∧
        ∀ kept, FrameBuffer.pass ⟨rest, kept⟩ = none
  | [], data, more, h => by
    obtain ⟨rfl, rfl⟩ := List.append_eq_nil_iff.mp h
    exact ⟨[], rfl, rfl, fun _ => rfl⟩
  | r :: rs, data, more, h => by
    rw [List.map_cons, List.flatten_cons] at h
    unfold whole
    by_cases hlen : r.bytes.length ≤ data.length
    · simp only [if_pos hlen]
      obtain ⟨data', rfl⟩ : ∃ data', data = r.bytes ++ data' := by
        refine ⟨data.drop r.bytes.length, ?_⟩
        have htake := congrArg (List.take r.bytes.length) h
        rw [List.take_left, List.take_append_of_le_length hlen] at htake
        conv_lhs => rw [← List.take_append_drop r.bytes.length data, htake]
      rw [List.append_assoc] at h
      obtain ⟨rest, hdata, hmore, hwait⟩ := split_bytes (List.append_cancel_left h)
      rw [List.length_append, Nat.add_sub_cancel_left]
      exact ⟨rest, by rw [List.map_cons, List.flatten_cons, List.append_assoc, ← hdata], hmore, hwait⟩
    · simp only [if_neg hlen]
      refine ⟨data, rfl, h, fun kept => @FrameBuffer.pass_of_prefix r _
        (r.bytes.drop data.length) ?_ ?_ kept⟩
      · have htake := congrArg (List.take data.length) h
        rw [List.take_left, List.take_append_of_le_length (by omega)] at htake
        exact (congrArg (· ++ _) htake).trans (List.take_append_drop _ _)
      · rw [Ne, List.drop_eq_nil_iff]
        exact fun hle => hlen hle

/-- What is left of a read in the body. -/
def keptOf (group : List RawFrame) : Bytes := (group.filterMap RawFrame.payload).getLast?.getD []

/-- The frames of a response that the pipe never raises on: nothing is behind `END_STREAM`. -/
structure Calm (rs : List RawFrame) : Prop where
  padding : ∀ r ∈ rs, r.PaddingFits
  quiet : ∀ r ∈ rs, r.Quiet
  ends : ∀ front last back, rs = front ++ last :: back → last.EndsStream → back = []

namespace Calm

variable {now later : List RawFrame}

theorem left (h : Calm (now ++ later)) :
    (∀ r ∈ now, r.PaddingFits) ∧ ∀ r ∈ now, r.Quiet :=
  ⟨fun r hr => h.padding r (List.mem_append_left _ hr),
    fun r hr => h.quiet r (List.mem_append_left _ hr)⟩

theorem right (h : Calm (now ++ later)) : Calm later where
  padding r hr := h.padding r (List.mem_append_right _ hr)
  quiet r hr := h.quiet r (List.mem_append_right _ hr)
  ends front last back hsplit := by
    have hall : now ++ later = (now ++ front) ++ last :: back := by
      rw [hsplit, List.append_assoc]
    exact h.ends _ last back hall

theorem later_eq_nil (h : Calm (now ++ later)) (hends : ∃ r ∈ now, r.EndsStream) : later = [] := by
  obtain ⟨r, hr, hends⟩ := hends
  obtain ⟨front, back, rfl⟩ := List.append_of_mem hr
  have hnil := h.ends front r (back ++ later) (by simp) hends
  exact (List.append_eq_nil_iff.mp hnil).2

end Calm

theorem length_bytes_flatten (rs : List RawFrame) :
    (rs.map RawFrame.bytes).flatten.length = (rs.map fun r => r.bytes.length).sum := by
  rw [List.length_flatten, List.map_map]
  rfl

namespace Receiving

/-- **The reads of a response that the pipe never raises on**: of each read, what is kept. -/
theorem receiveReads_of_calm : ∀ {reads : List Bytes} {rs : List RawFrame} {pending : Bytes}
    {r : Receiving}, r.stream.inbound.isSome → r.stream.frameBuffer = ⟨pending, []⟩ →
    r.done = false → pending ++ reads.flatten = (rs.map RawFrame.bytes).flatten → Calm rs →
      ∃ r', receiveReads r reads = .ok r' ∧ r'.response.body = r.response.body ++
        ((groups (fun r => r.bytes.length) pending.length rs (reads.map List.length)).map
          keptOf).flatten
  | [], rs, pending, r, _, _, _, _, _ => ⟨_, rfl, (List.append_nil _).symm⟩
  | data :: reads, rs, pending, r, hr, hbuffer, hdone, hbytes, hcalm => by
    rw [List.flatten_cons, ← List.append_assoc] at hbytes
    obtain ⟨rest, hdata, hmore, hwait⟩ := RawFrame.split_bytes hbytes
    have hall := @whole_append RawFrame (fun r => r.bytes.length) (pending ++ data).length rs
    have hlen := congrArg List.length hdata
    rw [List.map_cons, groups]
    rw [← hall] at hcalm
    simp only [List.length_append] at hall hdata hmore hcalm hlen ⊢
    generalize whole (fun r : RawFrame => r.bytes.length) (pending.length + data.length) rs = parts
      at hall hdata hmore hcalm hlen ⊢
    obtain ⟨now, later⟩ := parts
    simp only at hdata hmore hcalm hlen ⊢
    obtain ⟨r', hread, hr', hbuffer', hbody, hdone'⟩ :=
      receiveRead_of_quiet hr hbuffer hdata hwait hcalm.left.1 hcalm.left.2
    have hrest : pending.length + data.length - (now.map fun r => r.bytes.length).sum =
        rest.length := by
      rw [length_bytes_flatten] at hlen
      omega
    rw [hrest]
    by_cases hend : r'.done
    · obtain rfl : later = [] :=
        hcalm.later_eq_nil ((hdone'.mp hend).resolve_left (by rw [hdone]; exact Bool.false_ne_true))
      have hnone : ((groups (fun r : RawFrame => r.bytes.length) rest.length []
          (reads.map List.length)).map keptOf).flatten = [] := by
        rw [List.flatten_eq_nil_iff]
        intro bytes hbytes
        obtain ⟨g, hg, rfl⟩ := List.mem_map.mp hbytes
        rw [groups_nil hg]
        rfl
      refine ⟨r', bind_eq_ok_iff.mpr ⟨r', hread, if_pos hend⟩, ?_⟩
      rw [List.map_cons, List.flatten_cons, hnone, List.append_nil]
      exact hbody
    · obtain ⟨t, ht, htbody⟩ := receiveReads_of_calm hr' hbuffer' (Bool.eq_false_iff.mpr hend) hmore
        hcalm.right
      refine ⟨t, bind_eq_ok_iff.mpr ⟨r', hread, (if_neg hend).trans ht⟩, ?_⟩
      rw [htbody, hbody, List.map_cons, List.flatten_cons, List.append_assoc]
      rfl

end Receiving

/-! ## 6. What is kept -/

/-- The last of some byte strings, against all of them. -/
theorem getLast_flatten (ds : List Bytes) :
    (ds.getLast?.getD []).length ≤ ds.flatten.length ∧
      ((ds.getLast?.getD []).length = ds.flatten.length ↔ ∀ d ∈ ds.dropLast, d = []) ∧
      ((∀ d ∈ ds.dropLast, d = []) → ds.getLast?.getD [] = ds.flatten) := by
  rcases List.eq_nil_or_concat ds with rfl | ⟨front, last, rfl⟩
  · simp
  · rw [List.concat_eq_append]
    have hlength : (front ++ [last]).flatten.length = front.flatten.length + last.length := by simp
    have hfront : front.flatten.length = 0 ↔ ∀ d ∈ front, d = [] := by
      rw [List.length_eq_zero_iff, List.flatten_eq_nil_iff]
    rw [List.getLast?_concat, List.dropLast_concat, Option.getD_some, hlength]
    refine ⟨by omega, by rw [← hfront]; omega, fun h => ?_⟩
    rw [List.flatten_concat, List.flatten_eq_nil_iff.mpr h, List.nil_append]

theorem body_append (rs rs' : List RawFrame) : body (rs ++ rs') = body rs ++ body rs' := by
  rw [body, body, body, List.filterMap_append, List.flatten_append]

/-- **All payloads are kept if there is one in each group, at the end.** -/
theorem kept_eq_body_iff (gs : List (List RawFrame)) :
    (gs.map keptOf).flatten = body gs.flatten ↔ ∀ g ∈ gs, OnePayload g := by
  -- the lengths decide: no group keeps more than it has
  have hlength : ∀ gs : List (List RawFrame),
      (gs.map keptOf).flatten.length ≤ (body gs.flatten).length ∧
        ((gs.map keptOf).flatten.length = (body gs.flatten).length → ∀ g ∈ gs, OnePayload g) := by
    intro gs
    induction gs with
    | nil => exact ⟨Nat.le_refl _, fun _ g hg => absurd hg List.not_mem_nil⟩
    | cons g gs ih =>
      obtain ⟨hle, hiff, -⟩ := getLast_flatten (g.filterMap RawFrame.payload)
      have hle : (keptOf g).length ≤ (body g).length := hle
      have hiff : (keptOf g).length = (body g).length ↔ OnePayload g := hiff
      rw [List.map_cons, List.flatten_cons, List.flatten_cons, body_append, List.length_append,
        List.length_append, List.forall_mem_cons]
      exact ⟨by omega, fun h => ⟨hiff.mp (by omega), ih.2 (by omega)⟩⟩
  refine ⟨fun h => (hlength gs).2 (congrArg List.length h), fun h => ?_⟩
  induction gs with
  | nil => rfl
  | cons g gs ih =>
    obtain ⟨hg, hgs⟩ := List.forall_mem_cons.mp h
    have hkept : keptOf g = body g := (getLast_flatten (g.filterMap RawFrame.payload)).2.2 hg
    rw [List.map_cons, List.flatten_cons, List.flatten_cons, body_append, hkept, ih hgs]

/-! ## 7. Responses that are lost -/

/-- A frame that the pipe raises on gets there, before `END_STREAM`. -/
inductive Doomed : List Frame → List RawFrame → Prop
  | fails {kept : List Frame} {r : RawFrame} {rs : List RawFrame} {e : Error}
      (receive : receive kept r.streamId r.type.toNat r.flags.toNat r.body = .error e) :
      Doomed kept (r :: rs)
  | harms {kept kept' : List Frame} {r : RawFrame} {rs : List RawFrame} {f : Frame}
      (receive : receive kept r.streamId r.type.toNat r.flags.toNat r.body = .ok (kept', some f))
      (harm : ¬ f.Harmless) : Doomed kept (r :: rs)
  | later {kept kept' : List Frame} {r : RawFrame} {rs : List RawFrame} {given : Option Frame}
      (receive : receive kept r.streamId r.type.toNat r.flags.toNat r.body = .ok (kept', given))
      (goesOn : ∀ f ∈ given, f.ends = false) (rest : Doomed kept' rs) : Doomed kept (r :: rs)

/-- Where a header block is open, only a frame that goes on with it does not raise. -/
theorem receive_of_open {first : Frame} {kept kept' : List Frame} {r : RawFrame}
    {given : Option Frame}
    (h : receive (first :: kept) r.streamId r.type.toNat r.flags.toNat r.body = .ok (kept', given)) :
    given = none ∧ (∃ kept'', kept' = first :: kept'') ∧ r.type = 9 ∧ ¬ r.EndsHeaders := by
  obtain ⟨f, hf, h⟩ := bind_eq_ok_iff.mp h
  obtain ⟨p, hp, hframe⟩ := bind_eq_ok_iff.mp hf
  have htype := Payload.type_of_parse hp
  have hflags : f.flags = parsedFlags r.type.toNat r.flags.toNat := by rw [← Except.ok.inj hframe]
  have hpayload : f.payload = p := by rw [← Except.ok.inj hframe]
  unfold updateHeaderBuffer at h
  simp only at h
  split at h
  · next hvalid =>
    have hnine : r.type.toNat = 9 := by rw [← htype, ← hpayload, hvalid.1]
    split at h
    · obtain ⟨d, hd, -⟩ := bind_eq_ok_iff.mp h
      cases hd
    · next hends =>
      obtain ⟨rfl, rfl⟩ := Prod.mk.inj (Except.ok.inj h)
      refine ⟨rfl, ⟨_, rfl⟩, UInt8.toNat_inj.mp hnine, fun hbit => hends ?_⟩
      rw [hflags, hnine]
      exact (mem_parsedFlags (by decide)).mpr hbit
  · cases h

/-- A header block that is opened, and closed by the end, dooms the response. -/
theorem doomed_of_open {first : Frame} {rs : List RawFrame} : ∀ {kept : List Frame}, rs ≠ [] →
    (∀ last ∈ rs.getLast?, ¬ last.OpensBlock ∧ (last.type = 9 → last.EndsHeaders)) →
      Doomed (first :: kept) rs := by
  induction rs with
  | nil => exact fun h _ => absurd rfl h
  | cons r rs ih =>
    intro kept _ hclosed
    cases hr : receive (first :: kept) r.streamId r.type.toNat r.flags.toNat r.body with
    | error e => exact .fails hr
    | ok p =>
      obtain ⟨kept', given⟩ := p
      obtain ⟨rfl, ⟨kept'', rfl⟩, hnine, hends⟩ := receive_of_open hr
      have hne : rs ≠ [] := by
        rintro rfl
        exact hends ((hclosed r rfl).2 hnine)
      refine .later hr (by simp) (ih hne fun last hlast => hclosed last ?_)
      rwa [List.getLast?_cons_of_ne_nil hne]

theorem IsResponse.tail {r : RawFrame} {rs : List RawFrame} (h : IsResponse (r :: rs)) :
    IsResponse rs where
  parse r' hr' := h.parse r' (List.mem_cons_of_mem r hr')
  padding r' hr' := h.padding r' (List.mem_cons_of_mem r hr')
  ends front last back hsplit := h.ends (r :: front) last back (by rw [hsplit]; rfl)
  closed last hlast := by
    cases rs with
    | nil => cases hlast
    | cons r' rs => exact h.closed last (by rwa [List.getLast?_cons_cons])

/-- **A response with a frame that is not quiet is doomed.** -/
theorem doomed_of_not_quiet {rs : List RawFrame} (hrs : IsResponse rs)
    (h : ¬ ∀ r ∈ rs, r.Quiet) : Doomed [] rs := by
  induction rs with
  | nil => exact absurd (fun r hr => absurd hr List.not_mem_nil) h
  | cons r rs ih =>
    obtain ⟨f, hf⟩ := hrs.parse r List.mem_cons_self
    obtain ⟨-, hends⟩ := RawFrame.data?_of_parse (hrs.padding r List.mem_cons_self) hf
    by_cases hopen : r.OpensBlock
    · have hne : rs ≠ [] := by
        rintro rfl
        exact (hrs.closed r rfl).1 hopen
      refine .later (receive_of_opens hopen hf) (by simp) (doomed_of_open hne fun last hlast => ?_)
      exact hrs.tail.closed last hlast
    · have hreceive := receive_of_quiet hopen hf
      by_cases hharm : f.Harmless
      · have hrest : ¬ ∀ r' ∈ rs, r'.Quiet := fun hquiet =>
          h (List.forall_mem_cons.mpr ⟨⟨hopen, f, hf, hharm⟩, hquiet⟩)
        have hne : rs ≠ [] := by
          rintro rfl
          exact hrest fun r hr => absurd hr List.not_mem_nil
        refine .later hreceive (fun g hg => ?_) (ih hrs.tail hrest)
        rw [← Option.some.inj hg, Bool.eq_false_iff]
        exact fun hend => hopen (hrs.ends [] r rs rfl (hends.mp hend) hne)
      · exact .harms hreceive hharm

namespace Receiving

/-- A frame that is given out, or none, before `END_STREAM`. -/
theorem receiveGiven {r : Receiving} {given : Option Frame} (hr : r.stream.inbound.isSome)
    (goesOn : ∀ f ∈ given, f.ends = false) :
    (∃ e, given.toList.foldlM receiveFrame r = .error e) ∨
      ∃ s, given.toList.foldlM receiveFrame r = .ok s ∧ r.Took given.toList s ∧ s.done = r.done := by
  cases given with
  | none => exact .inr ⟨r, rfl, took_nil hr, rfl⟩
  | some f =>
    rw [Option.toList_some, List.foldlM_cons]
    by_cases h : f.Harmless
    · obtain ⟨s, hs, htook⟩ := receiveFrame_of_harmless hr h
      refine .inr ⟨s, bind_eq_ok_iff.mpr ⟨s, hs, rfl⟩, htook, ?_⟩
      rw [htook.done]
      simp [goesOn f rfl]
    · obtain ⟨e, he⟩ := receiveFrame_of_not_harmless (r := r) h
      exact .inl ⟨e, by rw [he]; rfl⟩

/-- What becomes of a response that is doomed, while frames of it are received. -/
theorem receiveFrames_of_doomed {later now : List RawFrame} : ∀ {kept : List Frame} {r : Receiving},
    Doomed kept (now ++ later) → r.stream.inbound.isSome →
      (∃ e, (FrameBuffer.deliver kept now).1.foldlM receiveFrame r = .error e) ∨
      (∃ r' e, (FrameBuffer.deliver kept now).1.foldlM receiveFrame r = .ok r' ∧
        (FrameBuffer.deliver kept now).2 = .error e) ∨
      ∃ r' kept', (FrameBuffer.deliver kept now).1.foldlM receiveFrame r = .ok r' ∧
        (FrameBuffer.deliver kept now).2 = .ok kept' ∧ Doomed kept' later ∧
        r.Took (FrameBuffer.deliver kept now).1 r' ∧ r'.done = r.done := by
  induction now with
  | nil =>
    intro kept r h hr
    exact .inr (.inr ⟨r, kept, rfl, rfl, h, took_nil hr, rfl⟩)
  | cons f now ih =>
    intro kept r h hr
    rw [List.cons_append] at h
    cases h with
    | fails hreceive =>
      rw [FrameBuffer.deliver, hreceive]
      exact .inr (.inl ⟨r, _, rfl, rfl⟩)
    | harms hreceive harm =>
      obtain ⟨e, he⟩ := receiveFrame_of_not_harmless (r := r) harm
      rw [FrameBuffer.deliver, hreceive]
      refine .inl ⟨e, ?_⟩
      simp only [Option.toList_some, List.cons_append, List.foldlM_cons, he]
      rfl
    | @later _ kept' _ _ given hreceive goesOn rest =>
      rw [FrameBuffer.deliver, hreceive]
      simp only [List.foldlM_append]
      rcases receiveGiven hr goesOn with ⟨e, he⟩ | ⟨s, hs, htook, hdone⟩
      · exact .inl ⟨e, by rw [he]; rfl⟩
      · rw [hs]
        rcases ih rest htook.inbound with h | h | ⟨t, kept'', ht, hkept, hlater, htook', hdone'⟩
        · exact .inl h
        · exact .inr (.inl h)
        · exact .inr (.inr ⟨t, kept'', ht, hkept, hlater, htook.trans htook', hdone'.trans hdone⟩)

end Receiving

namespace Receiving

/-- A read of a response that is doomed. -/
theorem receiveRead_of_doomed {r : Receiving} {now later : List RawFrame} {kept : List Frame}
    {pending data rest : Bytes} (h : Doomed kept (now ++ later)) (hr : r.stream.inbound.isSome)
    (hbuffer : r.stream.frameBuffer = ⟨pending, kept⟩)
    (hdata : pending ++ data = (now.map RawFrame.bytes).flatten ++ rest)
    (hwait : ∀ kept, FrameBuffer.pass ⟨rest, kept⟩ = none) :
    (∃ e, r.receiveRead data = .error e) ∨
      ∃ r' kept', r.receiveRead data = .ok r' ∧ r'.stream.inbound.isSome ∧
        r'.stream.frameBuffer = ⟨rest, kept'⟩ ∧ r'.done = r.done ∧ Doomed kept' later := by
  have hdrain : FrameBuffer.reader.drain
      { r.stream.frameBuffer with data := r.stream.frameBuffer.data ++ data } =
        ((FrameBuffer.deliver kept now).1,
          (FrameBuffer.deliver kept now).2.map fun kept => ⟨rest, kept⟩) := by
    rw [hbuffer, hdata, FrameBuffer.drain_bytes hwait]
  unfold receiveRead
  rw [hdrain]
  simp only
  rcases receiveFrames_of_doomed
      (r := { r with frames := [], streamEvents := [], writeData := [] }) h hr with
    ⟨e, he⟩ | ⟨s, e, hs, he⟩ | ⟨s, kept', hs, hkept, hlater, htook, hdone⟩
  · exact .inl ⟨e, by rw [he]; rfl⟩
  · exact .inl ⟨e, by rw [hs, he]; rfl⟩
  · obtain ⟨hstream, hdone'⟩ := stream_finishEvents s.streamEvents
      { s with stream := { s.stream with frameBuffer := ⟨rest, kept'⟩ } }
    refine .inr ⟨s.streamEvents.foldl finishEvent
      { s with stream := { s.stream with frameBuffer := ⟨rest, kept'⟩ } }, kept', ?_, ?_, ?_, ?_,
        hlater⟩
    · rw [hs, hkept]
      rfl
    · rw [hstream]
      exact htook.inbound
    · rw [hstream]
    · rw [hdone']
      exact hdone

/-- **A response that is doomed raises, when all of it has come.** -/
theorem receiveReads_of_doomed : ∀ {reads : List Bytes} {rs : List RawFrame} {kept : List Frame}
    {pending : Bytes} {r : Receiving}, Doomed kept rs → r.stream.inbound.isSome →
    r.stream.frameBuffer = ⟨pending, kept⟩ → FrameBuffer.pass ⟨pending, kept⟩ = none →
    r.done = false → pending ++ reads.flatten = (rs.map RawFrame.bytes).flatten →
      ∃ e, receiveReads r reads = .error e
  | [], rs, kept, pending, r, h, _, _, hwait, _, hbytes => by
    rw [List.flatten_nil, List.append_nil] at hbytes
    cases rs with
    | nil => cases h
    | cons f rs =>
      rw [hbytes, List.map_cons, List.flatten_cons, FrameBuffer.pass_bytes] at hwait
      cases hwait
  | data :: reads, rs, kept, pending, r, h, hr, hbuffer, _, hdone, hbytes => by
    rw [List.flatten_cons, ← List.append_assoc] at hbytes
    obtain ⟨rest, hdata, hmore, hwait⟩ := RawFrame.split_bytes hbytes
    rw [← @whole_append RawFrame (fun r => r.bytes.length) (pending ++ data).length rs] at h
    rcases receiveRead_of_doomed h hr hbuffer hdata hwait with
      ⟨e, he⟩ | ⟨r', kept', hread, hr', hbuffer', hdone', hlater⟩
    · exact ⟨e, by rw [receiveReads, he]; rfl⟩
    · have hfalse : r'.done = false := hdone'.trans hdone
      obtain ⟨e, he⟩ := receiveReads_of_doomed hlater hr' hbuffer' (hwait kept') hfalse hmore
      refine ⟨e, ?_⟩
      rw [receiveReads, hread]
      exact (if_neg (by rw [hfalse]; exact Bool.false_ne_true)).trans he

end Receiving

/-! ## 8. Any response, in any reads -/

/-- The response that is returned has all of the body. -/
def Whole (rs : List RawFrame) (result : Except Error Receiving) : Prop :=
  ∃ r, result = .ok r ∧ r.response.body = body rs

/-- **The body of a response is returned as it is if and only if the pipe raises on no frame of it,
and of the `DATA` frames that get whole with one read only the last one has a payload.** -/
theorem whole_iff {p : Pipe} {stream : Stream} {rs : List RawFrame} {reads : List Bytes}
    (hinbound : stream.inbound.isSome) (hbuffer : stream.frameBuffer = ⟨[], []⟩)
    (hrs : IsResponse rs) (hreads : reads.flatten = (rs.map RawFrame.bytes).flatten) :
    Whole rs (p.receiveResponse stream .init reads) ↔ ResponseKept rs reads := by
  unfold Pipe.receiveResponse
  by_cases hquiet : ∀ r ∈ rs, r.Quiet
  · have hcalm : Calm rs := by
      refine ⟨hrs.padding, hquiet, fun front last back hsplit hends => ?_⟩
      by_contra hback
      exact (hquiet last (by rw [hsplit]; simp)).1 (hrs.ends front last back hsplit hends hback)
    obtain ⟨r, hr, hbody⟩ := Receiving.receiveReads_of_calm
      (r := ⟨p, stream, .init, false, [], [], [], []⟩) hinbound hbuffer rfl hreads hcalm
    have hflatten : (perRead rs reads).flatten = rs := by
      refine flatten_groups ?_ ?_
      · cases rs with
        | nil => rfl
        | cons r rs =>
          have hpos : ¬ r.bytes.length ≤ 0 := by
            rw [r.length_bytes]
            omega
          unfold whole
          rw [if_neg hpos]
      · rw [Nat.zero_add, ← List.length_flatten, hreads, length_bytes_flatten]
    have hkept := kept_eq_body_iff (perRead rs reads)
    rw [hflatten] at hkept
    have hbody : r.response.body = ((perRead rs reads).map keptOf).flatten := hbody
    rw [hr]
    constructor
    · rintro ⟨r', hr', hwhole⟩
      obtain rfl := Except.ok.inj hr'
      exact ⟨hquiet, hkept.mp (hbody.symm.trans hwhole)⟩
    · exact fun h => ⟨r, rfl, hbody.trans (hkept.mpr h.onePayload)⟩
  · obtain ⟨e, he⟩ := Receiving.receiveReads_of_doomed
      (r := ⟨p, stream, .init, false, [], [], [], []⟩) (doomed_of_not_quiet hrs hquiet) hinbound
      hbuffer rfl rfl hreads
    rw [he]
    refine iff_of_false ?_ fun h => hquiet h.quiet
    rintro ⟨r, hr, -⟩
    cases hr

theorem ends_of_dropLast {rs : List RawFrame} (h : ∀ r ∈ rs.dropLast, ¬ r.EndsStream)
    (front : List RawFrame) (last : RawFrame) (back : List RawFrame)
    (hsplit : rs = front ++ last :: back) (hends : last.EndsStream) (hback : back ≠ []) :
    last.OpensBlock := by
  refine absurd hends (h last ?_)
  rw [hsplit, List.dropLast_append_of_ne_nil (List.cons_ne_nil _ _),
    List.dropLast_cons_of_ne_nil hback]
  exact List.mem_append_right _ List.mem_cons_self

theorem indexedBlock_fits : ([0x88] : Bytes).length < 2 ^ 24 := by decide

/-- A response whose body comes in two frames, the first of them padded. -/
def twoData : List RawFrame :=
  [⟨1, 4, 1, [0x88], indexedBlock_fits⟩, ⟨0, 8, 1, [2, 0x61, 0x62, 0, 0], by decide⟩,
    ⟨0, 1, 1, [0x63], by decide⟩]

theorem isResponse_twoData : IsResponse twoData where
  parse := by
    simp only [twoData, List.forall_mem_cons]
    exact ⟨⟨_, rfl⟩, ⟨_, rfl⟩, ⟨_, rfl⟩, by simp⟩
  padding := by
    simp only [twoData, List.forall_mem_cons]
    exact ⟨fun h => absurd h (by decide), fun _ => ⟨2, [0x61, 0x62, 0, 0], rfl, by decide⟩,
      fun h => absurd h (by decide), by simp⟩
  ends := ends_of_dropLast (by decide)
  closed := by decide

/-- A stream that waits for a response. -/
def waiting : Stream where
  streamId := 1
  maxOutboundFrameSize := 16384
  currentOutboundWindowSize := 65535
  resetConnection := false
  inbound := some (.init 131071)
  frameBuffer := ⟨[], []⟩
  headersFrame := ⟨1, {.endHeaders}, .headers 0 0 0 false []⟩
  connectionData := []

/-- A read for each frame. -/
theorem whole_twoData :
    Whole twoData ((Pipe.init 1).receiveResponse waiting .init (twoData.map RawFrame.bytes)) := by
  refine (whole_iff rfl rfl isResponse_twoData rfl).mpr ⟨?_, by decide⟩
  simp only [twoData, List.forall_mem_cons]
  exact ⟨⟨by decide, _, rfl, trivial⟩, ⟨by decide, _, rfl, trivial⟩, ⟨by decide, _, rfl, trivial⟩,
    by simp⟩

/-- One read with all of the frames: the payload of the first `DATA` frame is lost. -/
theorem not_whole_twoData : IsResponse twoData ∧ body twoData = [0x61, 0x62, 0x63] ∧
    ¬ Whole twoData
      ((Pipe.init 1).receiveResponse waiting .init [(twoData.map RawFrame.bytes).flatten]) := by
  refine ⟨isResponse_twoData, rfl, ?_⟩
  rintro ⟨r, hr, hbody⟩
  have hlost : r.response.body = [0x63] := (congrArg (·.response.body) (Except.ok.inj hr)).symm
  rw [hlost] at hbody
  exact absurd hbody (by decide)

end Http2
end Hedra
