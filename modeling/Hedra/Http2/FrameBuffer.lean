/-
# Frames out of the bytes received

`FrameBuffer` (`core/engines/types/http2/frames/frame_buffer.py`) collects what is received and
gives out the frames in it, whole frames only.  It holds back a `HEADERS` or `PUSH_PROMISE` frame
without `END_HEADERS`: the `CONTINUATION` frames behind it are to be joined with it.  Joining them
goes over the frames themselves instead of their data, which raises, since a `Frame` is nothing to
iterate over.  So such a sequence never gets to its end: the frame with `END_HEADERS` raises a
`TypeError`.  What must not stand in the sequence raises as it should.

How the bytes are cut into reads does not matter for any of this.

* `pass_bytes`: a pass over a whole frame takes it off, and `pass_of_prefix` over a part of one
  waits;
* `feed_bytes`: the frames of a stream are given out as they come, in any cut.
-/
import Hedra.Http2.Frame
import Hedra.Lib.Incremental

namespace Hedra
namespace Http2

open Lib

/-! ## 1. The buffer -/

/-- A `FrameBuffer`. -/
structure FrameBuffer where
  data : Bytes
  headersBuffer : List Frame

/-- `bytearray.extend(frame)`.  A `Frame` has no `__iter__`, so this raises. -/
def Frame.extend (_ : Bytes) (_ : Frame) : Except Error Bytes := .error .typeError

/-- `frame.data = data`, for the frames that start a header block. -/
def Payload.setData (bytes : Bytes) : Payload → Payload
  | .headers padLength dependsOn streamWeight exclusive _ =>
    .headers padLength dependsOn streamWeight exclusive bytes
  | .pushpromise padLength promisedStreamId _ => .pushpromise padLength promisedStreamId bytes
  | payload => payload

/-- What is done with a frame that has been parsed: the header buffer after it, and the frame that
is given out. -/
def updateHeaderBuffer (headersBuffer : List Frame) (frame : Frame) :
    Except Error (List Frame × Option Frame) :=
  match headersBuffer with
  | first :: _ =>
    if frame.payload.type = 0x09 ∧ frame.streamId = first.streamId then
      if .endHeaders ∈ frame.flags then do
        let frameData ← (headersBuffer ++ [frame]).foldlM Frame.extend []
        return ([], some ⟨first.streamId, insert .endHeaders first.flags,
          first.payload.setData frameData⟩)
      else return (headersBuffer ++ [frame], none)
    else throw (.raised "Invalid frame during header block.")
  | [] =>
    if (frame.payload.type = 0x01 ∨ frame.payload.type = 0x05) ∧ .endHeaders ∉ frame.flags then
      return ([frame], none)
    else return ([], some frame)

/-- A frame whose header and body are there. -/
def receive (headersBuffer : List Frame) (streamId type flags : Nat) (body : Bytes) :
    Except Error (List Frame × Option Frame) := do
  let frame ← Frame.parse streamId type flags body
  updateHeaderBuffer headersBuffer frame

/-- One pass of the loop of `__iter__`. -/
def FrameBuffer.pass (fb : FrameBuffer) : Option (Except Error (FrameBuffer × Option Frame)) :=
  if fb.data.length < 9 then none
  else
    match unpack [2, 1, 1, 1, 4] (slice fb.data 0 9) with
    | .ok [high, low, type, flags, stream] =>
      let length := high * 256 + low
      if fb.data.length < length + 9 then none
      else
        some ((receive fb.headersBuffer (stream % 0x80000000) type flags
            (slice fb.data 9 (9 + length))).map
          fun r => (⟨fb.data.drop (9 + length), r.1⟩, r.2))
    | _ => some (.error .structError)

/-- A pass looks at the frame at the front only. -/
theorem FrameBuffer.pass_append {fb : FrameBuffer} {r : Except Error (FrameBuffer × Option Frame)}
    (c : Bytes) (h : fb.pass = some r) :
    pass { fb with data := fb.data ++ c } =
      some (r.map fun p => ({ p.1 with data := p.1.data ++ c }, p.2)) := by
  unfold pass at h ⊢
  split at h
  · cases h
  · next hlen =>
    have hlen' : ¬ (fb.data ++ c).length < 9 := by
      rw [List.length_append]
      omega
    simp only [if_neg hlen', slice_append_of_le 0 (by decide : (0 : Int) ≤ 9)
      (show (9 : Int) ≤ fb.data.length by omega) c]
    split at h
    · next high low type flags stream _ =>
      simp only at h ⊢
      split at h
      · cases h
      · next hfit =>
        have hfit' : ¬ (fb.data ++ c).length < high * 256 + low + 9 := by
          rw [List.length_append]
          omega
        rw [if_neg hfit', slice_append_of_le 9 (by omega) (by push_cast; omega),
          List.drop_append_of_le_length (by omega), ← Option.some.inj h]
        cases receive fb.headersBuffer (stream % 0x80000000) type flags
            (slice fb.data 9 (9 + ↑(high * 256 + low))) <;> rfl
    · next hne =>
      rw [← Option.some.inj h]
      rfl

/-- A pass takes a frame off. -/
theorem FrameBuffer.length_of_pass {fb fb' : FrameBuffer} {frame : Option Frame}
    (h : fb.pass = some (.ok (fb', frame))) : fb'.data.length < fb.data.length := by
  unfold pass at h
  split at h
  · cases h
  · next hlen =>
    split at h
    · next high low type flags stream _ =>
      simp only at h
      split at h
      · cases h
      · obtain ⟨r, -, hr⟩ := map_eq_ok_iff.mp (Option.some.inj h)
        rw [← congrArg (fun p => p.1.data.length) hr, List.length_drop]
        omega
    · cases h

/-- The frame buffer reads its input frame by frame. -/
def FrameBuffer.reader : Reader FrameBuffer UInt8 Frame Error where
  pass := pass
  extend fb c := { fb with data := fb.data ++ c }
  size fb := fb.data.length
  extend_nil fb := by rw [List.append_nil]
  extend_append fb c d := by rw [List.append_assoc]
  pass_extend fb c r h := pass_append c h
  size_lt fb fb' b h := length_of_pass h

theorem FrameBuffer.reader_pass (fb : FrameBuffer) : reader.pass fb = fb.pass := rfl

/-! ## 2. Frames on the wire -/

/-- A frame as it is sent.  The first bit of the stream is reserved. -/
structure RawFrame where
  type : UInt8
  flags : UInt8
  stream : UInt32
  body : Bytes
  fits : body.length < 2 ^ 24

namespace RawFrame

/-- The fields of the header, with their widths. -/
def header (r : RawFrame) : List (Nat × Nat) :=
  [(2, r.body.length / 256), (1, r.body.length % 256), (1, r.type.toNat), (1, r.flags.toNat),
    (4, r.stream.toNat)]

/-- The bytes of a frame. -/
def bytes (r : RawFrame) : Bytes := BigEndian.encodeAll r.header ++ r.body

/-- The stream without the reserved bit. -/
def streamId (r : RawFrame) : Nat := r.stream.toNat % 0x80000000

/-- The frame that is parsed. -/
def parse (r : RawFrame) : Except Error Frame :=
  Frame.parse r.streamId r.type.toNat r.flags.toNat r.body

@[simp] theorem length_header (r : RawFrame) : (BigEndian.encodeAll r.header).length = 9 := by
  rw [BigEndian.length_encodeAll]
  rfl

theorem length_bytes (r : RawFrame) : r.bytes.length = 9 + r.body.length := by
  rw [bytes, List.length_append, length_header]

theorem header_fits (r : RawFrame) : ∀ f ∈ r.header, f.2 < 256 ^ f.1 := by
  have hfits := r.fits
  simp only [header, List.forall_mem_cons, List.not_mem_nil, false_imp_iff, implies_true, and_true]
  exact ⟨by omega, by omega, r.type.toNat_lt, r.flags.toNat_lt, r.stream.toNat_lt⟩

end RawFrame

namespace FrameBuffer

/-- What a pass sees of the header of a frame. -/
theorem pass_of_header {r : RawFrame} {data : Bytes}
    (h : ∃ rest, data = BigEndian.encodeAll r.header ++ rest) (headersBuffer : List Frame) :
    pass ⟨data, headersBuffer⟩ =
      if data.length < r.body.length + 9 then none
      else
        some ((receive headersBuffer r.streamId r.type.toNat r.flags.toNat
            (slice data 9 (9 + r.body.length))).map
          fun p => (⟨data.drop (9 + r.body.length), p.1⟩, p.2)) := by
  obtain ⟨rest, rfl⟩ := h
  have hlen : ¬ (BigEndian.encodeAll r.header ++ rest).length < 9 := by
    rw [List.length_append, RawFrame.length_header]
    omega
  have hhead : slice (BigEndian.encodeAll r.header ++ rest) 0 9 = BigEndian.encodeAll r.header := by
    have h9 : (9 : Int).toNat = (BigEndian.encodeAll r.header).length := r.length_header.symm
    rw [slice_of_nonneg _ _ (by decide), h9, List.take_left, List.drop_zero]
  have hunpack : unpack [2, 1, 1, 1, 4] (BigEndian.encodeAll r.header) =
      .ok [r.body.length / 256, r.body.length % 256, r.type.toNat, r.flags.toNat,
        r.stream.toNat] := unpack_encodeAll r.header_fits
  have hbody : r.body.length / 256 * 256 + r.body.length % 256 = r.body.length :=
    Nat.div_add_mod' ..
  unfold pass
  rw [if_neg hlen, hhead, hunpack]
  simp only [hbody]
  rfl

/-- **A pass over a whole frame.** -/
theorem pass_bytes (r : RawFrame) (rest : Bytes) (headersBuffer : List Frame) :
    pass ⟨r.bytes ++ rest, headersBuffer⟩ =
      some ((receive headersBuffer r.streamId r.type.toNat r.flags.toNat r.body).map
        fun p => (⟨rest, p.1⟩, p.2)) := by
  have hlen : ¬ (r.bytes ++ rest).length < r.body.length + 9 := by
    rw [List.length_append, r.length_bytes]
    omega
  have hbody : slice (r.bytes ++ rest) 9 (9 + r.body.length) = r.body := by
    rw [RawFrame.bytes, slice_middle r.length_header (by norm_cast)]
  rw [pass_of_header ⟨r.body ++ rest, by rw [RawFrame.bytes, List.append_assoc]⟩, if_neg hlen,
    List.drop_left' r.length_bytes, hbody]

/-- **A pass over a part of a frame waits.** -/
theorem pass_of_prefix {r : RawFrame} {data rest : Bytes} (h : data ++ rest = r.bytes)
    (hrest : rest ≠ []) (headersBuffer : List Frame) : pass ⟨data, headersBuffer⟩ = none := by
  have hlt : data.length < r.body.length + 9 := by
    have := congrArg List.length h
    rw [List.length_append, r.length_bytes] at this
    have := List.length_pos_of_ne_nil hrest
    omega
  by_cases h9 : data.length < 9
  · unfold pass
    rw [if_pos h9]
  · have hhead : ∃ tail, data = BigEndian.encodeAll r.header ++ tail := by
      refine ⟨data.drop 9, ?_⟩
      have htake := congrArg (List.take 9) h
      rw [RawFrame.bytes, List.take_left' r.length_header,
        List.take_append_of_le_length (Nat.not_lt.mp h9)] at htake
      rw [← htake, List.take_append_drop]
    rw [pass_of_header hhead, if_pos hlt]

/-! ## 3. Whole frames -/

/-- What is given out of a sequence of frames, and the header buffer after it. -/
def deliver (headersBuffer : List Frame) : List RawFrame → List Frame × Except Error (List Frame)
  | [] => ([], .ok headersBuffer)
  | r :: rs =>
    match receive headersBuffer r.streamId r.type.toNat r.flags.toNat r.body with
    | .error e => ([], .error e)
    | .ok (headersBuffer, frame) =>
      (frame.toList ++ (deliver headersBuffer rs).1, (deliver headersBuffer rs).2)

/-- **Frames that are there are given out; what waits behind them stays.** -/
theorem drain_bytes {rest : Bytes} (hrest : ∀ headersBuffer, pass ⟨rest, headersBuffer⟩ = none) :
    ∀ (rs : List RawFrame) (headersBuffer : List Frame),
      reader.drain ⟨(rs.map RawFrame.bytes).flatten ++ rest, headersBuffer⟩ =
        ((deliver headersBuffer rs).1, (deliver headersBuffer rs).2.map fun hb => ⟨rest, hb⟩)
  | [], headersBuffer => Reader.drain_of_wait (hrest headersBuffer)
  | r :: rs, headersBuffer => by
    have hpass := (reader_pass _).trans
      (pass_bytes r ((rs.map RawFrame.bytes).flatten ++ rest) headersBuffer)
    rw [List.map_cons, List.flatten_cons, List.append_assoc, deliver]
    cases hr : receive headersBuffer r.streamId r.type.toNat r.flags.toNat r.body with
    | error e =>
      simp only [hr, Except.map] at hpass
      rw [Reader.drain_of_error hpass]
      rfl
    | ok p =>
      simp only [hr, Except.map] at hpass
      rw [Reader.drain_of_pass hpass, drain_bytes hrest rs p.1]

/-- Frames behind frames that leave nothing in the header buffer. -/
theorem deliver_append {rs : List RawFrame} : ∀ {before : List RawFrame} {kept kept' : List Frame}
    {given : List Frame}, deliver kept before = (given, .ok kept') →
      deliver kept (before ++ rs) = (given ++ (deliver kept' rs).1, (deliver kept' rs).2)
  | [], kept, kept', given, h => by
    obtain ⟨rfl, hk⟩ := Prod.mk.inj h
    rw [Except.ok.inj hk]
    rfl
  | r :: before, kept, kept', given, h => by
    rw [deliver] at h
    rw [List.cons_append, deliver]
    split at h
    · cases (Prod.mk.inj h).2
    · next hb f hr =>
      obtain ⟨hgiven, hk⟩ := Prod.mk.inj h
      simp only [deliver_append (Prod.ext rfl hk), ← hgiven, List.append_assoc]

/-- **The frames of a stream that comes in pieces.** -/
theorem feed_bytes {rs : List RawFrame} {chunks : List Bytes}
    (h : chunks.flatten = (rs.map RawFrame.bytes).flatten) :
    reader.feed ⟨[], []⟩ chunks = ((deliver [] rs).1, (deliver [] rs).2.map fun kept => ⟨[], kept⟩) := by
  have hwait : ∀ kept, pass ⟨[], kept⟩ = none := fun _ => rfl
  have hdrain := drain_bytes hwait rs []
  rw [List.append_nil] at hdrain
  rw [Reader.feed_eq_drain (hwait []), h, ← hdrain]
  rfl

end FrameBuffer

end Http2
end Hedra
