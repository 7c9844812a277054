/-
# HTTP/2 frames

A `Frame` (`core/engines/types/http2/frames/types/base_frame.py`) has the fields of its type.
`serialize` writes them, and the parser of `FrameBuffer` reads them, each of them by hand for every
type: the flags of a frame say whether there is a length of padding in front of the payload, and
whether a `HEADERS` frame has a priority.

`RawFrame` is the frame as such, the nine bytes of its header and its body.

That the parser reads what was written is in `RoundTrip.lean`; `unpack_encodeAll` is the part of it
that all types share.
-/
import Hedra.Dns.Wire
import Hedra.Lib.BitField
import Mathlib.Data.Finset.Card
import Mathlib.Data.Finset.Dedup

namespace Hedra
namespace Http2

open Lib

/-- `bytes` -/
abbrev Bytes := List UInt8

/-- What is raised. -/
inductive Error
  /-- `Exception(message)` -/
  | raised
      (message : String)
  /-- `Exception(f'Connection {stream_id} err- …')`, which the pipe makes of what it catches. -/
  | connection
      (streamId : Int)
  | structError
  | typeError
  | attributeError
  | assertionError
deriving DecidableEq

/-- What a computation that returns has gone through. -/
theorem bind_eq_ok_iff {α β : Type} {x : Except Error α} {f : α → Except Error β} {b : β} :
    (x >>= f) = .ok b ↔ ∃ a, x = .ok a ∧ f a = .ok b := by
  cases x <;> simp [bind, Except.bind]

theorem map_eq_ok_iff {α β : Type} {x : Except Error α} {f : α → β} {b : β} :
    x.map f = .ok b ↔ ∃ a, x = .ok a ∧ f a = b := by
  cases x <;> simp [Except.map]

/-! ## 1. `struct` and slices -/

/-- `struct.pack` of unsigned integers, each with the count of its bytes. -/
def pack (fields : List (Nat × Int)) : Except Error Bytes :=
  match Dns.packInts fields with
  | .ok data => .ok data
  | .error _ => .error .structError

/-- `struct.unpack` -/
def unpack (widths : List Nat) (data : Bytes) : Except Error (List Nat) :=
  match Dns.unpackInts widths data with
  | .ok fields => .ok fields
  | .error _ => .error .structError

/-- What fits is packed. -/
theorem pack_of_fits {fields : List (Nat × Nat)} (h : ∀ f ∈ fields, f.2 < 256 ^ f.1) :
    pack (fields.map fun f => (f.1, (f.2 : Int))) = .ok (BigEndian.encodeAll fields) := by
  have hpack : Dns.packInts (fields.map fun f => (f.1, (f.2 : Int))) =
      .ok (BigEndian.encodeAll fields) := by
    refine Dns.packInts_eq_ok_iff.mpr ⟨fun f hf => ?_, ?_⟩
    · obtain ⟨g, hg, rfl⟩ := List.mem_map.mp hf
      have hlt : (g.2 : Int) < 256 ^ g.1 := by exact_mod_cast h g hg
      exact ⟨Int.natCast_nonneg _, hlt⟩
    · simp [Function.comp_def]
  unfold pack
  rw [hpack]

/-- **What is packed is unpacked.** -/
theorem unpack_encodeAll {fields : List (Nat × Nat)} (h : ∀ f ∈ fields, f.2 < 256 ^ f.1) :
    unpack (fields.map Prod.fst) (BigEndian.encodeAll fields) = .ok (fields.map Prod.snd) := by
  unfold unpack Dns.unpackInts
  rw [if_pos (BigEndian.length_encodeAll fields), BigEndian.decodeAll_encodeAll h]

/-- `data[start:stop]`, where `stop` may be counted from the end. -/
def slice (data : Bytes) (start : Nat) (stop : Int) : Bytes :=
  Dns.slice data start (if stop < 0 then stop + data.length else stop).toNat

theorem slice_of_nonneg (data : Bytes) (start : Nat) {stop : Int} (h : 0 ≤ stop) :
    slice data start stop = (data.take stop.toNat).drop start := by
  unfold slice Dns.slice
  rw [if_neg (by omega)]

/-- A slice of what is there does not change when more comes. -/
theorem slice_append_of_le {data : Bytes} (start : Nat) {stop : Int} (h : 0 ≤ stop)
    (hle : stop ≤ data.length) (c : Bytes) : slice (data ++ c) start stop = slice data start stop := by
  rw [slice_of_nonneg _ _ h, slice_of_nonneg _ _ h,
    List.take_append_of_le_length (by omega)]

/-- The middle of three parts. -/
theorem slice_middle {x y z : Bytes} {start : Nat} {stop : Int} (hstart : x.length = start)
    (hstop : stop = start + y.length) : slice (x ++ y ++ z) start stop = y := by
  rw [slice_of_nonneg _ _ (by omega), List.take_left' (by rw [List.length_append]; omega),
    List.drop_left' hstart]

/-! ## 2. Frames -/

/-- The flags, under their names. -/
inductive Flag
  | endHeaders
  | endStream
  | padded
  | priority
  | ack
deriving DecidableEq

/-- The bit of a flag. -/
def Flag.bit : Flag → Nat
  | .endHeaders => 0x04
  | .endStream => 0x01
  | .padded => 0x08
  | .priority => 0x20
  | .ack => 0x01

/-- The fields of the frames, by type. -/
inductive Payload
  | altsvc
      (origin field : Bytes)
  | continuation
      (data : Bytes)
  | data
      (padLength : Nat)
      (data : Bytes)
  | goaway
      (lastStreamId errorCode : Nat)
      (additionalData : Bytes)
  | headers
      (padLength dependsOn streamWeight : Nat)
      (exclusive : Bool)
      (data : Bytes)
  | ping
      (opaqueData : Bytes)
  | priority
      (dependsOn streamWeight : Nat)
      (exclusive : Bool)
  | pushpromise
      (padLength promisedStreamId : Nat)
      (data : Bytes)
  | reset
      (errorCode : Nat)
  | settings
      (settings : Dict Nat Nat)
  | windowupdate
      (windowIncrement : Nat)
  /-- A type without a name, with its code. -/
  | extension
      (type flagByte : Nat)
deriving DecidableEq

/-- `Frame.type` -/
def Payload.type : Payload → Nat
  | .altsvc .. => 0xA
  | .continuation .. => 0x09
  | .data .. => 0x0
  | .goaway .. => 0x07
  | .headers .. => 0x01
  | .ping .. => 0x06
  | .priority .. => 0x02
  | .pushpromise .. => 0x05
  | .reset .. => 0x03
  | .settings .. => 0x04
  | .windowupdate .. => 0x08
  | .extension type _ => type

/-- A `Frame`. -/
structure Frame where
  streamId : Int
  flags : Finset Flag
  payload : Payload
deriving DecidableEq

/-- `defined_flags` -/
def definedFlags : Nat → List Flag
  | 0x09 => [.endHeaders]
  | 0x0 => [.endStream, .padded]
  | 0x01 => [.endStream, .endHeaders, .padded, .priority]
  | 0x06 => [.ack]
  | 0x05 => [.endHeaders, .padded]
  | 0x04 => [.ack]
  | _ => []

/-- The flags that a byte stands for. -/
def parsedFlags (type flagByte : Nat) : Finset Flag :=
  ((definedFlags type).filter fun flag => flagByte &&& flag.bit ≠ 0).toFinset

/-- A flag is read off the byte, for the types that have it. -/
theorem mem_parsedFlags {type flagByte : Nat} {flag : Flag} (h : flag ∈ definedFlags type) :
    flag ∈ parsedFlags type flagByte ↔ flagByte &&& flag.bit ≠ 0 := by
  simp [parsedFlags, h]

/-! ## 3. Serialising -/

/-- The length of the padding, where there is a flag for it. -/
def paddingData (flags : Finset Flag) (padLength : Nat) : Except Error Bytes :=
  if .padded ∈ flags then pack [(1, padLength)] else .ok []

/-- The stream that a frame depends on, and its weight. -/
def priorityData (dependsOn streamWeight : Nat) (exclusive : Bool) : Except Error Bytes :=
  pack [(4, dependsOn + (if exclusive then 0x80000000 else 0)), (1, streamWeight)]

/-- The priority of a `HEADERS` frame, where there is a flag for it. -/
def headersPriority (flags : Finset Flag) (dependsOn streamWeight : Nat) (exclusive : Bool) :
    Except Error Bytes :=
  if .priority ∈ flags then priorityData dependsOn streamWeight exclusive else .ok []

/-- The settings, one behind the other. -/
def settingsData : List (Nat × Nat) → Except Error Bytes
  | [] => .ok []
  | (setting, value) :: settings => do
    let item ← pack [(2, (setting &&& 0xFF : Nat)), (4, value)]
    let rest ← settingsData settings
    return item ++ rest

/-- The body of a frame. -/
def Payload.body (flags : Finset Flag) : Payload → Except Error Bytes
  | .altsvc origin field => do
    let originLen ← pack [(2, origin.length)]
    return originLen ++ origin ++ field
  | .continuation bytes => .ok bytes
  | .data padLength bytes => do
    let padding ← paddingData flags padLength
    return padding ++ bytes ++ List.replicate padLength 0
  | .goaway lastStreamId errorCode additionalData => do
    let last ← pack [(4, lastStreamId % 0x80000000), (4, errorCode)]
    return last ++ additionalData
  | .headers padLength dependsOn streamWeight exclusive bytes => do
    let padding ← paddingData flags padLength
    let priority ← headersPriority flags dependsOn streamWeight exclusive
    return padding ++ priority ++ bytes ++ List.replicate padLength 0
  | .ping opaqueData => .ok (opaqueData ++ List.replicate (8 - opaqueData.length) 0)
  | .priority dependsOn streamWeight exclusive => priorityData dependsOn streamWeight exclusive
  | .pushpromise padLength promisedStreamId bytes => do
    let padding ← paddingData flags padLength
    let promise ← pack [(4, promisedStreamId)]
    return padding ++ promise ++ bytes ++ List.replicate padLength 0
  | .reset errorCode => pack [(4, errorCode)]
  | .settings dict => settingsData dict.items
  | .windowupdate windowIncrement => pack [(4, windowIncrement % 0x80000000)]
  | .extension _ _ => .ok []

/-- The byte of the flags. -/
def Frame.flagByte (f : Frame) : Nat :=
  let flags := match f.payload with
    | .extension _ flagByte => flagByte
    | _ => 0
  (definedFlags f.payload.type).foldl
    (fun flags flag => if flag ∈ f.flags then flags ||| flag.bit else flags) flags

/-- `serialize` -/
def Frame.serialize (f : Frame) : Except Error Bytes := do
  let body ← f.payload.body f.flags
  let bodyLen := body.length
  let header ← pack [(2, (bodyLen / 256 % 65536 : Nat)), (1, (bodyLen % 256 : Nat)),
    (1, f.payload.type), (1, f.flagByte), (4, f.streamId % 0x80000000)]
  return header ++ body

/-! ## 4. Parsing -/

/-- The length of the padding, and how many bytes it takes. -/
def parsePadding (flags : Finset Flag) (body : Bytes) : Except Error (Nat × Nat) := do
  if .padded ∈ flags then
    match ← unpack [1] (slice body 0 1) with
    | [padLength] => return (padLength, 1)
    | _ => throw .structError
  else return (0, 0)

/-- The length of the padding is in the first byte of the body. -/
theorem parsePadding_cons {flags : Finset Flag} (h : .padded ∈ flags) (pad : UInt8) (rest : Bytes) :
    parsePadding flags (pad :: rest) = .ok (pad.toNat, 1) := by
  have hunpack : unpack [1] (slice (pad :: rest) 0 1) = .ok [pad.toNat] := by
    rw [slice_of_nonneg _ _ (by decide)]
    simp [unpack, Dns.unpackInts, BigEndian.decodeAll, BigEndian.decode]
  rw [parsePadding, if_pos h, hunpack]
  rfl

/-- `depends_on`, `stream_weight` and `exclusive`. -/
def parsePriority (body : Bytes) : Except Error (Nat × Nat × Bool) := do
  match ← unpack [4, 1] (slice body 0 5) with
  | [dependsOn, streamWeight] =>
    return (dependsOn % 0x80000000, streamWeight, decide (dependsOn / 0x80000000 ≠ 0))
  | _ => throw .structError

/-- The loop over the settings, for `n` of them at most. -/
def parseSettings : Nat → Bytes → Dict Nat Nat → Except Error (Dict Nat Nat)
  | 0, _, settings => .ok settings
  | n + 1, body, settings =>
    if body = [] then .ok settings
    else do
      match ← unpack [2, 4] (slice body 0 6) with
      | [name, value] => parseSettings n (body.drop 6) (settings.set name value)
      | _ => throw .structError

/-- An exception with another text in its place. -/
def Error.replace {α : Type} (message : String) : Except Error α → Except Error α
  | .error .structError => .error (.raised message)
  | r => r

/-- The branch of a type of `FrameBuffer.__iter__`. -/
def Payload.parse (flags : Finset Flag) (body : Bytes) : Nat → Except Error Payload
  | 0xA => do
    match ← unpack [2] (slice body 0 2) with
    | [originLen] =>
      let origin := slice body 2 (2 + originLen)
      if origin.length ≠ originLen then throw (.raised "Invalid ALTSVC frame body.")
      return .altsvc origin (body.drop (2 + originLen))
    | _ => throw .structError
  | 0x09 => .ok (.continuation body)
  | 0x0 => do
    let (padLength, offset) ← parsePadding flags body
    return .data padLength (slice body offset (body.length - padLength))
  | 0x07 => do
    match ← unpack [4, 4] (slice body 0 8) with
    | [lastStreamId, errorCode] => return .goaway lastStreamId errorCode (body.drop 8)
    | _ => throw .structError
  | 0x01 => do
    let (padLength, offset) ← parsePadding flags body
    let body := body.drop offset
    if .priority ∈ flags then
      let (dependsOn, streamWeight, exclusive) ← parsePriority body
      return .headers padLength dependsOn streamWeight exclusive
        (slice body 5 (body.length - padLength))
    else
      return .headers padLength 0 0 false (slice body 0 (body.length - padLength))
  | 0x06 => .ok (.ping body)
  | 0x02 => do
    let (dependsOn, streamWeight, exclusive) ←
      Error.replace "Invalid Priority data" (parsePriority body)
    return .priority dependsOn streamWeight exclusive
  | 0x05 => do
    let (padLength, offset) ← Error.replace "Invalid Padding data" (parsePadding flags body)
    match ← unpack [4] (slice body offset (offset + 4)) with
    | [promisedStreamId] =>
      return .pushpromise padLength promisedStreamId
        (slice body (offset + 4) (body.length - padLength))
    | _ => throw .structError
  | 0x03 => do
    match ← unpack [4] body with
    | [errorCode] => return .reset errorCode
    | _ => throw .structError
  | 0x04 => do return .settings (← parseSettings body.length body Dict.empty)
  | 0x08 => do
    match ← unpack [4] body with
    | [windowIncrement] => return .windowupdate windowIncrement
    | _ => throw .structError
  | type => .ok (.extension type 0)

/-- A frame, from the fields of its header and its body. -/
def Frame.parse (streamId type flagByte : Nat) (body : Bytes) : Except Error Frame := do
  let flags := parsedFlags type flagByte
  let payload ← Payload.parse flags body type
  return ⟨streamId, flags, payload⟩

end Http2
end Hedra
