/-
# Frames are read back

What `serialize` writes (`core/engines/types/http2/frames/types/base_frame.py`), `FrameBuffer` reads
back as the same frame, however it is cut into reads: every type, with any flags that the type has,
its fields within their ranges, and with any padding.  A `HEADERS` or `PUSH_PROMISE` frame without
`END_HEADERS` is not given out; it is kept for its `CONTINUATION` frames.

* `Payload.Fits.back`: the body of a frame is read back, type by type;
* `Frame.Fits.exists_raw`: what is written is a frame as it is parsed;
* `feed_serialize`: any frame is read back, in any pieces.
-/
import Hedra.Http2.FrameBuffer
import Mathlib.Data.Finset.Powerset

namespace Hedra
namespace Http2

open Lib

/-! ## 1. Frames that can be read back -/

/-- There is padding only with the flag for it, and its length is one byte. -/
def PaddingFits (flags : Finset Flag) (padLength : Nat) : Prop :=
  padLength < 256 ∧ (.padded ∉ flags → padLength = 0)

/-- The fields are within their ranges, and the fields that a flag stands for are there only with
the flag. -/
def Payload.Fits (flags : Finset Flag) : Payload → Prop
  | .altsvc origin _ => origin.length < 2 ^ 16
  | .continuation _ => True
  | .data padLength _ => PaddingFits flags padLength
  | .goaway lastStreamId errorCode _ => lastStreamId < 2 ^ 31 ∧ errorCode < 2 ^ 32
  | .headers padLength dependsOn streamWeight exclusive _ =>
    PaddingFits flags padLength ∧ dependsOn < 2 ^ 31 ∧ streamWeight < 256 ∧
      (.priority ∉ flags → dependsOn = 0 ∧ streamWeight = 0 ∧ exclusive = false)
  | .ping opaqueData => opaqueData.length = 8
  | .priority dependsOn streamWeight _ => dependsOn < 2 ^ 31 ∧ streamWeight < 256
  | .pushpromise padLength promisedStreamId _ =>
    PaddingFits flags padLength ∧ promisedStreamId < 2 ^ 31
  | .reset errorCode => errorCode < 2 ^ 32
  | .settings dict => ∀ item ∈ dict.items, item.1 < 256 ∧ item.2 < 2 ^ 32
  | .windowupdate windowIncrement => windowIncrement < 2 ^ 31
  | .extension type flagByte => 0xA < type ∧ type < 256 ∧ flagByte = 0

/-- A frame whose fields are within their ranges. -/
structure Frame.Fits (f : Frame) : Prop where
  streamId : 0 ≤ f.streamId ∧ f.streamId < 2 ^ 31
  flags : f.flags ⊆ (definedFlags f.payload.type).toFinset
  payload : f.payload.Fits f.flags
  length : ∀ body, f.payload.body f.flags = .ok body → body.length < 2 ^ 24

/-- The frame is kept for the `CONTINUATION` frames behind it. -/
def Frame.Kept (f : Frame) : Prop :=
  (f.payload.type = 0x01 ∨ f.payload.type = 0x05) ∧ .endHeaders ∉ f.flags

instance (f : Frame) : Decidable f.Kept := inferInstanceAs (Decidable (_ ∧ _))

/-! ## 2. Flags -/

/-- The lists of flags that types have. -/
def flagLists : List (List Flag) :=
  [[.endHeaders], [.endStream, .padded], [.endStream, .endHeaders, .padded, .priority], [.ack],
    [.endHeaders, .padded], []]

theorem definedFlags_mem (type : Nat) : definedFlags type ∈ flagLists := by
  unfold definedFlags flagLists
  split <;> simp

/-- Any of these flags, one way and back. -/
theorem filter_foldl_flags : ∀ L ∈ flagLists, ∀ flags ∈ L.toFinset.powerset,
    let byte := L.foldl (fun b flag => if flag ∈ flags then b ||| flag.bit else b) 0
    byte < 256 ∧ (L.filter fun flag => byte &&& flag.bit ≠ 0).toFinset = flags := by
  decide

/-- **The flags are read back.** -/
theorem Frame.Fits.parsedFlags {f : Frame} (h : f.Fits) :
    f.flagByte < 256 ∧ parsedFlags f.payload.type f.flagByte = f.flags := by
  have hbyte : f.flagByte = (definedFlags f.payload.type).foldl
      (fun b flag => if flag ∈ f.flags then b ||| flag.bit else b) 0 := by
    have hfits := h.payload
    unfold Frame.flagByte
    cases hp : f.payload with
    | extension type flagByte =>
      rw [hp] at hfits
      simp only [hfits.2.2]
    | _ => rfl
  rw [hbyte]
  exact filter_foldl_flags _ (definedFlags_mem _) f.flags (Finset.mem_powerset.mpr h.flags)

/-! ## 3. Parts of a body -/

theorem encodeAll_singleton (w x : Nat) : BigEndian.encodeAll [(w, x)] = BigEndian.encode w x := by
  simp [BigEndian.encodeAll]

/-- One integer, packed and unpacked in front of other bytes. -/
theorem pack_one {w x : Nat} (h : x < 256 ^ w) :
    pack [(w, (x : Int))] = .ok (BigEndian.encode w x) ∧
      unpack [w] (BigEndian.encode w x) = .ok [x] := by
  have hfits : ∀ f ∈ [(w, x)], f.2 < 256 ^ f.1 := by simpa using h
  have hp := pack_of_fits hfits
  have hu := unpack_encodeAll hfits
  rw [encodeAll_singleton] at hp hu
  exact ⟨hp, hu⟩

/-- Two integers. -/
theorem pack_two {w x v y : Nat} (hx : x < 256 ^ w) (hy : y < 256 ^ v) :
    ∃ bytes, pack [(w, (x : Int)), (v, (y : Int))] = .ok bytes ∧ bytes.length = w + v ∧
      unpack [w, v] bytes = .ok [x, y] := by
  have hfits : ∀ f ∈ [(w, x), (v, y)], f.2 < 256 ^ f.1 := by simpa using ⟨hx, hy⟩
  exact ⟨_, pack_of_fits hfits, BigEndian.length_encodeAll _, unpack_encodeAll hfits⟩

/-- What stands at the front. -/
theorem slice_front {x y : Bytes} {stop : Int} (h : stop = x.length) :
    slice (x ++ y) 0 stop = x :=
  slice_middle (x := []) rfl (by simpa using h)

/-- **The length of the padding.** -/
theorem padding_back {flags : Finset Flag} {padLength : Nat} (h : PaddingFits flags padLength) :
    ∃ bytes, paddingData flags padLength = .ok bytes ∧
      ∀ rest, parsePadding flags (bytes ++ rest) = .ok (padLength, bytes.length) := by
  unfold paddingData parsePadding
  by_cases hp : .padded ∈ flags
  · obtain ⟨hpack, hunpack⟩ := pack_one (w := 1) h.1
    refine ⟨_, (if_pos hp).trans hpack, fun rest => ?_⟩
    rw [if_pos hp, slice_front (by simp), hunpack]
    simp [bind, Except.bind, pure, Except.pure]
  · refine ⟨[], if_neg hp, fun rest => ?_⟩
    rw [if_neg hp, h.2 hp]
    rfl

/-- **The priority.** -/
theorem priority_back {dependsOn streamWeight : Nat} (exclusive : Bool)
    (hd : dependsOn < 2 ^ 31) (hw : streamWeight < 256) :
    ∃ bytes, priorityData dependsOn streamWeight exclusive = .ok bytes ∧ bytes.length = 5 ∧
      ∀ rest, parsePriority (bytes ++ rest) = .ok (dependsOn, streamWeight, exclusive) := by
  have hlt : dependsOn + (if exclusive then 0x80000000 else 0) < 256 ^ 4 := by split <;> omega
  obtain ⟨bytes, hpack, hlen, hunpack⟩ := pack_two hlt (show streamWeight < 256 ^ 1 from hw)
  refine ⟨bytes, ?_, hlen, fun rest => ?_⟩
  · rw [← hpack, priorityData]
    cases exclusive <;> rfl
  · unfold parsePriority
    rw [slice_front (by rw [hlen]; rfl), hunpack]
    have hmod : (dependsOn + if exclusive then 0x80000000 else 0) % 0x80000000 = dependsOn := by
      split <;> omega
    have hdiv : decide ((dependsOn + if exclusive then 0x80000000 else 0) / 0x80000000 ≠ 0) =
        exclusive := by
      cases exclusive
      · have : dependsOn / 0x80000000 = 0 := by omega
        simp [this]
      · have : (dependsOn + 0x80000000) / 0x80000000 = 1 := by omega
        simp [this]
    simp only [bind, Except.bind, pure, Except.pure, hmod, hdiv]

/-- **The settings.** -/
theorem settings_back {items : List (Nat × Nat)}
    (h : ∀ item ∈ items, item.1 < 256 ∧ item.2 < 2 ^ 32) :
    ∃ bytes, settingsData items = .ok bytes ∧ bytes.length = 6 * items.length ∧
      ∀ {n : Nat} {settings result : Dict Nat Nat}, items.length ≤ n →
        result.items = settings.items ++ items → parseSettings n bytes settings = .ok result := by
  induction items with
  | nil =>
    refine ⟨[], rfl, rfl, fun {n settings result} _ hresult => ?_⟩
    rw [List.append_nil] at hresult
    cases n <;> simp [parseSettings, Dict.ext_items hresult]
  | cons item items ih =>
    obtain ⟨name, value⟩ := item
    obtain ⟨hname, hvalue⟩ := List.forall_mem_cons.mp h |>.1
    obtain ⟨rest, hrest, hlen, hback⟩ := ih (List.forall_mem_cons.mp h).2
    have hname' : name < 256 ^ 2 := lt_of_lt_of_le hname (by decide)
    have hvalue' : value < 256 ^ 4 := lt_of_lt_of_le hvalue (by decide)
    obtain ⟨bytes, hpack, hbytes, hunpack⟩ := pack_two hname' hvalue'
    have hmask : name &&& 0xFF = name := by
      rw [show 0xFF = 2 ^ 8 - 1 from rfl, Nat.and_two_pow_sub_one_eq_mod]
      exact Nat.mod_eq_of_lt hname
    refine ⟨bytes ++ rest, ?_, ?_, fun {n settings result} hn hresult => ?_⟩
    · rw [settingsData, hmask]
      exact bind_eq_ok_iff.mpr ⟨bytes, hpack, bind_eq_ok_iff.mpr ⟨rest, hrest, rfl⟩⟩
    · rw [List.length_append, hbytes, hlen, List.length_cons]
      omega
    · obtain ⟨n, rfl⟩ : ∃ m, n = m + 1 := ⟨n - 1, by rw [List.length_cons] at hn; omega⟩
      have hne : bytes ++ rest ≠ [] := by
        intro hnil
        have := congrArg List.length hnil
        rw [List.length_append, hbytes] at this
        simp at this
      have hnew : name ∉ settings.items.map Prod.fst := by
        have hnodup := result.nodup
        rw [hresult, List.map_append, List.nodup_append] at hnodup
        exact fun hmem => hnodup.2.2 name hmem name List.mem_cons_self rfl
      have hset : result.items = (settings.set name value).items ++ items := by
        have hitems : (settings.set name value).items = settings.items ++ [(name, value)] :=
          Dict.setItems_of_not_mem value hnew
        rw [hitems, hresult, List.append_assoc, List.singleton_append]
      unfold parseSettings
      rw [if_neg hne, slice_front (by rw [hbytes]; rfl), hunpack, List.drop_left' hbytes]
      exact hback (Nat.le_of_succ_le_succ hn) hset

/-! ## 4. Bodies and frames -/

/-- A payload between its fields and its padding. -/
theorem slice_padded (x bytes : Bytes) (padLength : Nat) :
    slice (x ++ bytes ++ List.replicate padLength 0) x.length
      ((x ++ bytes ++ List.replicate padLength 0).length - padLength) = bytes := by
  refine slice_middle rfl ?_
  rw [List.length_append, List.length_append, List.length_replicate]
  push_cast
  omega

/-- What is behind the first of the fields. -/
theorem drop_padded (x y bytes : Bytes) (n : Nat) :
    (x ++ y ++ bytes ++ List.replicate n 0).drop x.length = y ++ bytes ++ List.replicate n 0 := by
  rw [List.append_assoc, List.append_assoc, List.drop_left, List.append_assoc]

/-- An alternative service. -/
theorem altsvc_back {flags : Finset Flag} {origin field : Bytes}
    (h : (Payload.altsvc origin field).Fits flags) :
    ∃ body, (Payload.altsvc origin field).body flags = .ok body ∧
      Payload.parse flags body (Payload.altsvc origin field).type = .ok (.altsvc origin field) := by
  obtain ⟨hpack, hunpack⟩ := pack_one (w := 2) (x := origin.length) h
  have hlen : (BigEndian.encode 2 origin.length).length = 2 := BigEndian.length_encode ..
  refine ⟨_, bind_eq_ok_iff.mpr ⟨_, hpack, rfl⟩, bind_eq_ok_iff.mpr ⟨[origin.length], ?_, ?_⟩⟩
  · rw [List.append_assoc, slice_front (by rw [hlen]; rfl)]
    exact hunpack
  · have hdrop : (BigEndian.encode 2 origin.length ++ origin ++ field).drop (2 + origin.length) =
        field := List.drop_left' (by rw [List.length_append, hlen])
    have hslice : slice (BigEndian.encode 2 origin.length ++ origin ++ field) 2
        (2 + origin.length) = origin := slice_middle hlen (by simp)
    simp only [hslice, hdrop]
    exact if_neg (not_not_intro rfl)

/-- The end of a connection. -/
theorem goaway_back {flags : Finset Flag} {lastStreamId errorCode : Nat} {additionalData : Bytes}
    (h : (Payload.goaway lastStreamId errorCode additionalData).Fits flags) :
    ∃ body, (Payload.goaway lastStreamId errorCode additionalData).body flags = .ok body ∧
      Payload.parse flags body (Payload.goaway lastStreamId errorCode additionalData).type =
        .ok (.goaway lastStreamId errorCode additionalData) := by
  have hmod : (lastStreamId : Int) % 0x80000000 = lastStreamId := by
    have := h.1
    omega
  obtain ⟨x, hpack, hlen, hunpack⟩ := pack_two (w := 4) (v := 4) (x := lastStreamId)
    (y := errorCode) (lt_of_lt_of_le h.1 (by decide)) h.2
  refine ⟨x ++ additionalData, bind_eq_ok_iff.mpr ⟨x, ?_, rfl⟩,
    bind_eq_ok_iff.mpr ⟨[lastStreamId, errorCode], ?_, ?_⟩⟩
  · rw [hmod]
    exact hpack
  · rw [slice_front (by rw [hlen]; rfl)]
    exact hunpack
  · simp only [List.drop_left' hlen]
    rfl

/-- Headers, with a priority or without one. -/
theorem headers_back {flags : Finset Flag} {padLength dependsOn streamWeight : Nat}
    {exclusive : Bool} {bytes : Bytes}
    (h : (Payload.headers padLength dependsOn streamWeight exclusive bytes).Fits flags) :
    ∃ body, (Payload.headers padLength dependsOn streamWeight exclusive bytes).body flags =
        .ok body ∧
      Payload.parse flags body
          (Payload.headers padLength dependsOn streamWeight exclusive bytes).type =
        .ok (.headers padLength dependsOn streamWeight exclusive bytes) := by
  obtain ⟨hpad, hd, hw, hnone⟩ := h
  obtain ⟨x, hdata, hparse⟩ := padding_back hpad
  by_cases hpriority : .priority ∈ flags
  · obtain ⟨y, hpack, hlen, hback⟩ := priority_back exclusive hd hw
    refine ⟨x ++ y ++ bytes ++ List.replicate padLength 0,
      bind_eq_ok_iff.mpr ⟨x, hdata, bind_eq_ok_iff.mpr ⟨y, (if_pos hpriority).trans hpack, rfl⟩⟩,
      bind_eq_ok_iff.mpr ⟨(padLength, x.length), ?_, ?_⟩⟩
    · rw [List.append_assoc, List.append_assoc]
      exact hparse _
    · have hslice := slice_padded y bytes padLength
      rw [hlen] at hslice
      simp only [drop_padded x y bytes padLength, hslice]
      refine (if_pos hpriority).trans (bind_eq_ok_iff.mpr
        ⟨(dependsOn, streamWeight, exclusive), ?_, rfl⟩)
      rw [List.append_assoc]
      exact hback _
  · obtain ⟨rfl, rfl, rfl⟩ := hnone hpriority
    refine ⟨x ++ [] ++ bytes ++ List.replicate padLength 0,
      bind_eq_ok_iff.mpr ⟨x, hdata, bind_eq_ok_iff.mpr ⟨[], if_neg hpriority, rfl⟩⟩,
      bind_eq_ok_iff.mpr ⟨(padLength, x.length), ?_, ?_⟩⟩
    · rw [List.append_assoc, List.append_assoc]
      exact hparse _
    · have hslice := slice_padded [] bytes padLength
      rw [List.length_nil] at hslice
      simp only [drop_padded x [] bytes padLength, hslice]
      exact if_neg hpriority

/-- The promise of a push. -/
theorem pushpromise_back {flags : Finset Flag} {padLength promisedStreamId : Nat} {bytes : Bytes}
    (h : (Payload.pushpromise padLength promisedStreamId bytes).Fits flags) :
    ∃ body, (Payload.pushpromise padLength promisedStreamId bytes).body flags = .ok body ∧
      Payload.parse flags body (Payload.pushpromise padLength promisedStreamId bytes).type =
        .ok (.pushpromise padLength promisedStreamId bytes) := by
  obtain ⟨hpad, hid⟩ := h
  obtain ⟨x, hdata, hparse⟩ := padding_back hpad
  obtain ⟨hpack, hunpack⟩ := pack_one (w := 4) (x := promisedStreamId)
    (lt_of_lt_of_le hid (by decide))
  have hlen : (BigEndian.encode 4 promisedStreamId).length = 4 := BigEndian.length_encode ..
  refine ⟨x ++ BigEndian.encode 4 promisedStreamId ++ bytes ++ List.replicate padLength 0,
    bind_eq_ok_iff.mpr ⟨x, hdata, bind_eq_ok_iff.mpr ⟨_, hpack, rfl⟩⟩,
    bind_eq_ok_iff.mpr ⟨(padLength, x.length), ?_,
      bind_eq_ok_iff.mpr ⟨[promisedStreamId], ?_, ?_⟩⟩⟩
  · rw [List.append_assoc, List.append_assoc, hparse]
    rfl
  · have hslice : slice (x ++ BigEndian.encode 4 promisedStreamId ++
        (bytes ++ List.replicate padLength 0)) x.length (x.length + 4) =
          BigEndian.encode 4 promisedStreamId := slice_middle rfl (by rw [hlen]; rfl)
    rw [List.append_assoc, hslice]
    exact hunpack
  · have hslice := slice_padded (x ++ BigEndian.encode 4 promisedStreamId) bytes padLength
    rw [List.length_append, hlen] at hslice
    simp only [hslice]
    rfl

/-- **The body of a frame is read back.** -/
theorem Payload.Fits.back {flags : Finset Flag} {p : Payload} (h : p.Fits flags) :
    ∃ body, p.body flags = .ok body ∧ Payload.parse flags body p.type = .ok p := by
  cases p with
  | altsvc origin field => exact altsvc_back h
  | continuation bytes => exact ⟨_, rfl, rfl⟩
  | data padLength bytes =>
    obtain ⟨x, hdata, hparse⟩ := padding_back h
    refine ⟨_, bind_eq_ok_iff.mpr ⟨x, hdata, rfl⟩, bind_eq_ok_iff.mpr ⟨(padLength, x.length), ?_, ?_⟩⟩
    · rw [List.append_assoc]
      exact hparse _
    · simp only [slice_padded]
      rfl
  | goaway lastStreamId errorCode additionalData => exact goaway_back h
  | headers padLength dependsOn streamWeight exclusive bytes => exact headers_back h
  | ping opaqueData =>
    refine ⟨_, rfl, ?_⟩
    have hlen : 8 - opaqueData.length = 0 := Nat.sub_eq_zero_of_le (le_of_eq (Eq.symm h))
    rw [hlen, List.replicate_zero, List.append_nil]
    rfl
  | priority dependsOn streamWeight exclusive =>
    obtain ⟨x, hpack, hlen, hparse⟩ := priority_back exclusive h.1 h.2
    have hx := hparse []
    rw [List.append_nil] at hx
    refine ⟨x, hpack, bind_eq_ok_iff.mpr ⟨(dependsOn, streamWeight, exclusive), ?_, rfl⟩⟩
    rw [hx]
    rfl
  | pushpromise padLength promisedStreamId bytes => exact pushpromise_back h
  | reset errorCode =>
    obtain ⟨hpack, hunpack⟩ := pack_one (w := 4) (x := errorCode) h
    exact ⟨_, hpack, bind_eq_ok_iff.mpr ⟨_, hunpack, rfl⟩⟩
  | settings dict =>
    obtain ⟨x, hdata, hlen, hback⟩ := settings_back h
    refine ⟨x, hdata, bind_eq_ok_iff.mpr ⟨dict, hback (by omega) ?_, rfl⟩⟩
    exact (List.nil_append _).symm
  | windowupdate windowIncrement =>
    have hmod : (windowIncrement : Int) % 0x80000000 = windowIncrement := by
      have : windowIncrement < 2 ^ 31 := h
      omega
    obtain ⟨hpack, hunpack⟩ := pack_one (w := 4) (x := windowIncrement)
      (lt_of_lt_of_le h (by decide))
    refine ⟨_, ?_, bind_eq_ok_iff.mpr ⟨_, hunpack, rfl⟩⟩
    rw [Payload.body, hmod]
    exact hpack
  | extension type flagByte =>
    obtain ⟨hlo, -, rfl⟩ := h
    refine ⟨[], rfl, ?_⟩
    unfold Payload.parse
    simp only [Payload.type]
    split <;> first | omega | rfl

theorem Payload.Fits.type_lt {flags : Finset Flag} {p : Payload} (h : p.Fits flags) :
    p.type < 256 := by
  cases p with
  | extension type flagByte => exact h.2.1
  | _ => exact Nat.le_of_ble_eq_true rfl

/-- **What `serialize` writes is the frame as it is parsed.** -/
theorem Frame.Fits.exists_raw {f : Frame} (h : f.Fits) :
    ∃ r : RawFrame, f.serialize = .ok r.bytes ∧ r.parse = .ok f := by
  obtain ⟨body, hbody, hparse⟩ := h.payload.back
  obtain ⟨hbyte, hflags⟩ := h.parsedFlags
  have hlen := h.length body hbody
  have htype := h.payload.type_lt
  obtain ⟨id, hid⟩ : ∃ id : Nat, f.streamId = id := ⟨f.streamId.toNat, by have := h.streamId; omega⟩
  have hidlt : id < 2 ^ 31 := by
    have := h.streamId.2
    omega
  let r : RawFrame :=
    ⟨UInt8.ofNat f.payload.type, UInt8.ofNat f.flagByte, UInt32.ofNat id, body, hlen⟩
  have hrtype : r.type.toNat = f.payload.type := UInt8.toNat_ofNat_of_lt' htype
  have hrflags : r.flags.toNat = f.flagByte := UInt8.toNat_ofNat_of_lt' hbyte
  have hrstream : r.stream.toNat = id := UInt32.toNat_ofNat_of_lt' (by
    change id < 2 ^ 32
    omega)
  refine ⟨r, bind_eq_ok_iff.mpr ⟨body, hbody, bind_eq_ok_iff.mpr
    ⟨BigEndian.encodeAll r.header, ?_, rfl⟩⟩, ?_⟩
  · have hdiv : body.length / 256 % 65536 = body.length / 256 := Nat.mod_eq_of_lt (by omega)
    have hmod : (id : Int) % 0x80000000 = id := by omega
    rw [← pack_of_fits r.header_fits, hid, hmod, hdiv]
    simp only [RawFrame.header, List.map_cons, List.map_nil, hrtype, hrflags, hrstream]
    rfl
  · have hstream : r.streamId = id := by
      rw [RawFrame.streamId, hrstream]
      exact Nat.mod_eq_of_lt hidlt
    rw [RawFrame.parse, Frame.parse, hrtype, hrflags, hflags, hstream, ← hid]
    exact bind_eq_ok_iff.mpr ⟨f.payload, hparse, rfl⟩

/-- **A frame that is written is read back, in any pieces, unless it waits for the rest of its header
block.** -/
theorem feed_serialize {f : Frame} (h : f.Fits) :
    ∃ data, f.serialize = .ok data ∧ ∀ chunks : List Bytes, chunks.flatten = data →
      FrameBuffer.reader.feed ⟨[], []⟩ chunks =
        if f.Kept then ([], .ok ⟨[], [f]⟩) else ([f], .ok ⟨[], []⟩) := by
  obtain ⟨r, hserialize, hparse⟩ := h.exists_raw
  refine ⟨r.bytes, hserialize, fun chunks hchunks => ?_⟩
  have hparse : Frame.parse r.streamId r.type.toNat r.flags.toNat r.body = .ok f := hparse
  have hreceive : receive [] r.streamId r.type.toNat r.flags.toNat r.body =
      if f.Kept then .ok ([f], none) else .ok ([], some f) := by
    rw [receive, hparse]
    rfl
  rw [@FrameBuffer.feed_bytes [r] _ (by simpa using hchunks), FrameBuffer.deliver, hreceive]
  by_cases hk : f.Kept
  · rw [if_pos hk, if_pos hk]
    rfl
  · rw [if_neg hk, if_neg hk]
    rfl

/-- A `HEADERS` frame with padding and a priority. -/
def headersFrame : Frame :=
  ⟨3, {.endHeaders, .padded, .priority}, .headers 2 5 16 true [0x82, 0x84]⟩

theorem feed_headersFrame : ∃ data, headersFrame.serialize = .ok data ∧
    ∀ chunks : List Bytes, chunks.flatten = data →
      FrameBuffer.reader.feed ⟨[], []⟩ chunks =
        if headersFrame.Kept then ([], .ok ⟨[], [headersFrame]⟩)
        else ([headersFrame], .ok ⟨[], []⟩) :=
  feed_serialize ⟨by decide, by decide, ⟨⟨by decide, by decide⟩, by decide, by decide, by decide⟩,
    fun body h => Except.ok.inj h ▸ by decide⟩

/-- A `HEADERS` frame that does not end its block. -/
def openFrame : Frame := ⟨1, ∅, .headers 0 0 0 false [0x82]⟩

/-- A `HEADERS` frame without `END_HEADERS` is not given out. -/
theorem feed_openFrame : openFrame.Fits ∧
    openFrame.serialize = .ok [0, 0, 1, 1, 0, 0, 0, 0, 1, 0x82] ∧
    FrameBuffer.reader.feed ⟨[], []⟩ [[0, 0, 1, 1, 0, 0, 0, 0, 1, 0x82]] =
      ([], .ok ⟨[], [openFrame]⟩) := by
  refine ⟨⟨by decide, by decide, ⟨⟨by decide, by decide⟩, by decide, by decide, by decide⟩,
      fun body h => Except.ok.inj h ▸ by decide⟩, ?_, ?_⟩
  · decide
  · rfl

end Http2
end Hedra
