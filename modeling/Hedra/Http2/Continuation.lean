/-
# Header blocks in several frames

A peer splits a header block over a `HEADERS` frame without `END_HEADERS` and `CONTINUATION` frames,
the last of them with `END_HEADERS`.  Nothing else may stand between them.  `FrameBuffer`
(`core/engines/types/http2/frames/frame_buffer.py`) keeps the frames of a sequence and reports what
interrupts it.  But when the sequence ends it raises as well, since it joins frames where it means
their data: no such block is ever given out.

* `receive_last`: the last frame of a sequence raises;
* `deliver_frames`: a sequence gives nothing out;
* `joined_iff`: what becomes of any sequence, complete or interrupted.
-/
import Hedra.Http2.FrameBuffer

namespace Hedra
namespace Http2

open Lib

/-! ## 1. Sequences -/

namespace RawFrame

/-- A `CONTINUATION` frame on the stream of `first`. -/
def Continues (first r : RawFrame) : Prop := r.type = 9 ∧ r.streamId = first.streamId

/-- The flag `END_HEADERS`, among those of header blocks. -/
def EndsHeaders (r : RawFrame) : Prop := r.flags.toNat &&& Flag.endHeaders.bit ≠ 0

instance (first r : RawFrame) : Decidable (first.Continues r) :=
  inferInstanceAs (Decidable (_ ∧ _))

instance (r : RawFrame) : Decidable r.EndsHeaders := inferInstanceAs (Decidable (_ ≠ _))

end RawFrame

/-- A `HEADERS` frame without `END_HEADERS`, the `CONTINUATION` frames behind it that have none
either, and the frame after those, which ends the block or does not belong there. -/
structure HeaderSequence where
  first : RawFrame
  frame : Frame
  continuations : List RawFrame
  last : RawFrame
  headers : first.type = 1
  starts : ¬ first.EndsHeaders
  parse : first.parse = .ok frame
  continues : ∀ r ∈ continuations, first.Continues r ∧ ¬ r.EndsHeaders
  ends : first.Continues last → last.EndsHeaders

/-- The data of a frame that starts a header block. -/
def Payload.headerData : Payload → Bytes
  | .headers _ _ _ _ bytes => bytes
  | .pushpromise _ _ bytes => bytes
  | _ => []

namespace HeaderSequence

/-- The frames of the sequence. -/
def frames (s : HeaderSequence) : List RawFrame := s.first :: s.continuations ++ [s.last]

/-- Another frame than a `CONTINUATION` of the stream stands in the sequence. -/
def Interrupted (s : HeaderSequence) : Prop := ¬ s.first.Continues s.last

instance (s : HeaderSequence) : Decidable s.Interrupted := inferInstanceAs (Decidable (¬ _))

/-- The header block: all fragments, in order. -/
def block (s : HeaderSequence) : Bytes :=
  s.frame.payload.headerData ++ (s.continuations.map RawFrame.body).flatten ++ s.last.body

/-- The `HEADERS` frame with the whole block. -/
def whole (s : HeaderSequence) : Frame :=
  ⟨s.frame.streamId, insert .endHeaders s.frame.flags, s.frame.payload.setData s.block⟩

/-- What a sequence should come to, when `given` are the frames before it: one `HEADERS` frame with
all of the block, and then what comes `after`; or an error, if the sequence is interrupted. -/
def Joined (s : HeaderSequence) (given : List Frame) (after : List RawFrame)
    (result : List Frame × Except Error FrameBuffer) : Prop :=
  if s.Interrupted then result.1 = given ∧ ∃ e, result.2 = .error e
  else result.1 = given ++ s.whole :: (FrameBuffer.deliver [] after).1

end HeaderSequence

/-! ## 2. Parsed frames -/

/-- A computation that returns has gone through its first step. -/
theorem of_bind_eq_ok {α β : Type} {x : Except Error α} {f : α → Except Error β} {b : β} {P : Prop}
    (h : (x >>= f) = .ok b) (hf : ∀ a, f a = .ok b → P) : P := by
  obtain ⟨a, -, ha⟩ := bind_eq_ok_iff.mp h
  exact hf a ha

/-- A frame has the type that its header names. -/
theorem Payload.type_of_parse {flags : Finset Flag} {body : Bytes} {type : Nat} {p : Payload}
    (h : Payload.parse flags body type = .ok p) : p.type = type := by
  unfold Payload.parse at h
  split at h
  · -- ALTSVC
    refine of_bind_eq_ok h fun a ha => ?_
    split at ha
    · simp only at ha
      split at ha
      · cases ha
      · exact Except.ok.inj ha ▸ rfl
    · cases ha
  · exact Except.ok.inj h ▸ rfl
  · -- DATA
    exact of_bind_eq_ok h fun a ha => Except.ok.inj ha ▸ rfl
  · -- GOAWAY
    refine of_bind_eq_ok h fun a ha => ?_
    split at ha
    · exact Except.ok.inj ha ▸ rfl
    · cases ha
  · -- HEADERS
    refine of_bind_eq_ok h fun a ha => ?_
    simp only at ha
    split at ha
    · exact of_bind_eq_ok ha fun b hb => Except.ok.inj hb ▸ rfl
    · exact Except.ok.inj ha ▸ rfl
  · exact Except.ok.inj h ▸ rfl
  · -- PRIORITY
    exact of_bind_eq_ok h fun a ha => Except.ok.inj ha ▸ rfl
  · -- PUSH_PROMISE
    refine of_bind_eq_ok h fun a ha => of_bind_eq_ok ha fun b hb => ?_
    split at hb
    · exact Except.ok.inj hb ▸ rfl
    · cases hb
  · -- RST_STREAM
    refine of_bind_eq_ok h fun a ha => ?_
    split at ha
    · exact Except.ok.inj ha ▸ rfl
    · cases ha
  · -- SETTINGS
    exact of_bind_eq_ok h fun a ha => Except.ok.inj ha ▸ rfl
  · -- WINDOW_UPDATE
    refine of_bind_eq_ok h fun a ha => ?_
    split at ha
    · exact Except.ok.inj ha ▸ rfl
    · cases ha
  · exact Except.ok.inj h ▸ rfl

/-! ## 3. The header buffer -/

namespace HeaderSequence

open FrameBuffer

variable (s : HeaderSequence)

/-- The `CONTINUATION` frame that is parsed. -/
def continuation (r : RawFrame) : Frame :=
  ⟨r.streamId, parsedFlags 9 r.flags.toNat, .continuation r.body⟩

theorem frame_eq : ∃ p, s.frame = ⟨s.first.streamId, parsedFlags 1 s.first.flags.toNat, p⟩ ∧
    p.type = 1 := by
  obtain ⟨p, hp, hframe⟩ := bind_eq_ok_iff.mp s.parse
  rw [s.headers] at hp hframe
  exact ⟨p, (Except.ok.inj hframe).symm, Payload.type_of_parse hp⟩

/-- The first frame is kept. -/
theorem receive_first : receive [] s.first.streamId s.first.type.toNat s.first.flags.toNat
    s.first.body = .ok ([s.frame], none) := by
  have hparse : Frame.parse s.first.streamId s.first.type.toNat s.first.flags.toNat s.first.body =
      .ok s.frame := s.parse
  obtain ⟨p, hframe, htype⟩ := s.frame_eq
  have hstarts : .endHeaders ∉ parsedFlags 1 s.first.flags.toNat := fun h =>
    s.starts ((mem_parsedFlags (by decide)).mp h)
  unfold receive
  rw [hparse, hframe]
  exact if_pos ⟨Or.inl htype, hstarts⟩

/-- What becomes of a `CONTINUATION` of the stream. -/
theorem receive_continues {r : RawFrame} (hr : s.first.Continues r) (kept : List Frame) :
    receive (s.frame :: kept) r.streamId r.type.toNat r.flags.toNat r.body =
      if r.EndsHeaders then .error .typeError
      else .ok (s.frame :: kept ++ [continuation r], none) := by
  obtain ⟨p, hframe, -⟩ := s.frame_eq
  have htype : r.type.toNat = 9 := by rw [hr.1]; rfl
  have hstream : (continuation r).streamId = s.frame.streamId := by
    rw [hframe]
    exact congrArg Nat.cast hr.2
  have hends := @mem_parsedFlags 9 r.flags.toNat .endHeaders (by decide)
  unfold receive
  rw [htype]
  refine (if_pos ⟨rfl, hstream⟩).trans ?_
  by_cases h : r.EndsHeaders
  · rw [if_pos h]
    exact if_pos (hends.mpr h)
  · rw [if_neg h]
    exact if_neg fun hmem => h (hends.mp hmem)

/-- **The last frame raises.** -/
theorem receive_last (kept : List Frame) :
    ∃ e, receive (s.frame :: kept) s.last.streamId s.last.type.toNat s.last.flags.toNat
      s.last.body = .error e := by
  by_cases hlast : s.first.Continues s.last
  · exact ⟨.typeError, by rw [s.receive_continues hlast, if_pos (s.ends hlast)]⟩
  · obtain ⟨p, hframe, -⟩ := s.frame_eq
    unfold receive
    cases hparse : Frame.parse s.last.streamId s.last.type.toNat s.last.flags.toNat s.last.body with
    | error e => exact ⟨e, rfl⟩
    | ok f =>
      obtain ⟨q, hq, hf⟩ := bind_eq_ok_iff.mp hparse
      have hf : f = ⟨s.last.streamId, _, q⟩ := (Except.ok.inj hf).symm
      refine ⟨_, if_neg ?_⟩
      rintro ⟨htype, hstream⟩
      rw [hf, hframe] at hstream
      rw [hf, Payload.type_of_parse hq] at htype
      exact hlast ⟨UInt8.toNat_inj.mp htype, Nat.cast_injective hstream⟩

/-- The frames before the last one are kept, and nothing is given out. -/
theorem deliver_kept (rs : List RawFrame) : ∀ {rest : List RawFrame} {kept : List Frame},
    (∀ r ∈ rest, s.first.Continues r ∧ ¬ r.EndsHeaders) →
      ∃ kept', deliver (s.frame :: kept) (rest ++ rs) = deliver (s.frame :: kept') rs
  | [], kept, _ => ⟨kept, rfl⟩
  | r :: rest, kept, h => by
    obtain ⟨hr, hends⟩ := h r List.mem_cons_self
    obtain ⟨kept', hrest⟩ := deliver_kept rs
      fun r' hr' => h r' (List.mem_cons_of_mem _ hr')
    refine ⟨kept', ?_⟩
    rw [List.cons_append, deliver, s.receive_continues hr, if_neg hends]
    exact hrest

/-- **A sequence gives nothing out, and raises.** -/
theorem deliver_frames (after : List RawFrame) :
    ∃ e, deliver [] (s.frames ++ after) = ([], .error e) := by
  obtain ⟨kept, hkept⟩ := @deliver_kept s (s.last :: after) s.continuations [] s.continues
  obtain ⟨e, he⟩ := s.receive_last kept
  refine ⟨e, ?_⟩
  have hframes : s.frames ++ after = s.first :: (s.continuations ++ s.last :: after) := by
    simp [frames]
  rw [hframes, deliver, s.receive_first]
  simp only [Option.toList_none, List.nil_append, hkept]
  rw [deliver, he]

end HeaderSequence

/-! ## 4. Any pieces -/

open FrameBuffer in
/-- **A header block in several frames comes out as it should if and only if the sequence is
interrupted: then the error is reported; a sequence that is complete is lost.** -/
theorem joined_iff (s : HeaderSequence) {before after : List RawFrame} {given : List Frame}
    (hbefore : deliver [] before = (given, .ok [])) {chunks : List Bytes}
    (hchunks : chunks.flatten = ((before ++ s.frames ++ after).map RawFrame.bytes).flatten) :
    s.Joined given after (reader.feed ⟨[], []⟩ chunks) ↔ s.Interrupted := by
  obtain ⟨e, he⟩ := s.deliver_frames after
  rw [List.append_assoc] at hchunks
  rw [feed_bytes hchunks, deliver_append hbefore, he]
  unfold HeaderSequence.Joined
  by_cases h : s.Interrupted
  · simp [h, Except.map]
  · simp [h]

/-- A block of two bytes in two frames. -/
def splitBlock : HeaderSequence where
  first := ⟨1, 0, 1, [0x88], by decide⟩
  frame := ⟨1, ∅, .headers 0 0 0 false [0x88]⟩
  continuations := []
  last := ⟨9, 4, 1, [0xBE], by decide⟩
  headers := rfl
  starts := by decide
  parse := rfl
  continues := by decide
  ends := by decide

/-- A sequence that is complete, in one piece for each frame. -/
theorem not_joined_splitBlock :
    ¬ splitBlock.Joined [] [] (FrameBuffer.reader.feed ⟨[], []⟩ (splitBlock.frames.map RawFrame.bytes)) :=
  fun h => absurd ((@joined_iff splitBlock [] [] [] rfl _ rfl).mp h) (by decide)

/-- No frame is given out, but a `TypeError` raised. -/
theorem feed_splitBlock : ¬ splitBlock.Interrupted ∧
    FrameBuffer.reader.feed ⟨[], []⟩
      [[0, 0, 1, 1, 0, 0, 0, 0, 1, 0x88], [0, 0, 1, 9, 4, 0, 0, 0, 1, 0xBE]] =
        ([], .error .typeError) ∧
    splitBlock.frames.map RawFrame.bytes =
      [[0, 0, 1, 1, 0, 0, 0, 0, 1, 0x88], [0, 0, 1, 9, 4, 0, 0, 0, 1, 0xBE]] :=
  ⟨by decide, rfl, rfl⟩

end Http2
end Hedra
