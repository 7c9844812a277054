/-
# Bytes of DNS messages

What the codec uses of Python: `struct` with the codes `B`, `H` and `L`, slices and indices of
`bytes`, `str.encode` and `bytes.decode`, `str.split` and `join` at the dots.  What raises there
is an `Error` here.

They are what `distributed/discovery/dns/core/record` and `distributed/models/dns/dns_message.py`
write and read with.  `unpackInts_packInts` is the round trip that the rest relies on.
-/
import Hedra.Lib.BigEndian
import Hedra.Lib.Dict
import Mathlib.Tactic.Zify

namespace Hedra
namespace Dns

open Lib

/-- `bytes` -/
abbrev Bytes := List UInt8

/-- What the codec raises. -/
inductive Error
  /-- `DNSError(code, message)` -/
  | dns
      (code : Int)
      (message : String)
  /-- `Exception(buffer, offset, message)`, of `load_domain_name`. -/
  | name
      (offset : Nat)
      (message : String)
  | structError
  | indexError
  | attributeError
  | typeError
  | unicodeDecodeError
  | osError
  | notImplementedError
deriving DecidableEq

/-- What a computation that returns has gone through. -/
theorem bind_eq_ok_iff {α β : Type} {x : Except Error α} {f : α → Except Error β} {b : β} :
    (x >>= f) = .ok b ↔ ∃ a, x = .ok a ∧ f a = .ok b := by
  cases x <;> simp [bind, Except.bind]

/-! ## 1. `struct` -/

/-- `struct.pack` of one unsigned integer in `w` bytes. -/
def packInt (w : Nat) (x : Int) : Except Error Bytes :=
  if 0 ≤ x ∧ x < 256 ^ w then .ok (BigEndian.encode w x.toNat) else .error .structError

/-- `struct.pack` of several, side by side. -/
def packInts : List (Nat × Int) → Except Error Bytes
  | [] => .ok []
  | (w, x) :: fields => do
    let bytes ← packInt w x
    let rest ← packInts fields
    return bytes ++ rest

/-- `struct.unpack`, which wants bytes of exactly the size of its format. -/
def unpackInts (widths : List Nat) (data : Bytes) : Except Error (List Nat) :=
  if data.length = widths.sum then .ok (BigEndian.decodeAll widths data) else .error .structError

theorem packInts_eq_ok_iff {fields : List (Nat × Int)} {data : Bytes} :
    packInts fields = .ok data ↔ (∀ f ∈ fields, 0 ≤ f.2 ∧ f.2 < 256 ^ f.1) ∧
      data = BigEndian.encodeAll (fields.map fun f => (f.1, f.2.toNat)) := by
  induction fields generalizing data with
  | nil => simp [packInts, BigEndian.encodeAll, eq_comm]
  | cons f fields ih =>
    simp only [packInts, bind_eq_ok_iff, ih, packInt, List.forall_mem_cons]
    by_cases hf : 0 ≤ f.2 ∧ f.2 < 256 ^ f.1
    · simp only [hf, and_self, if_true, Except.ok.injEq, exists_eq_left', true_and]
      constructor
      · rintro ⟨_, ⟨hall, rfl⟩, hd⟩
        exact ⟨hall, (Except.ok.inj hd).symm⟩
      · rintro ⟨hall, rfl⟩
        exact ⟨_, ⟨hall, rfl⟩, rfl⟩
    · simp [hf]

/-- **What is packed is unpacked.** -/
theorem unpackInts_packInts {fields : List (Nat × Int)} {data : Bytes}
    (h : packInts fields = .ok data) :
    unpackInts (fields.map Prod.fst) data = .ok (fields.map fun f => f.2.toNat) := by
  obtain ⟨hall, rfl⟩ := packInts_eq_ok_iff.mp h
  have hlt : ∀ f ∈ fields.map fun f => (f.1, f.2.toNat), f.2 < 256 ^ f.1 := by
    intro f hf
    obtain ⟨g, hg, rfl⟩ := List.mem_map.mp hf
    obtain ⟨hpos, hlt⟩ := hall g hg
    zify
    rwa [Int.toNat_of_nonneg hpos]
  have hdec := BigEndian.decodeAll_encodeAll hlt
  simp only [List.map_map, Function.comp_def] at hdec
  unfold unpackInts
  rw [BigEndian.length_encodeAll, List.map_map]
  simpa [Function.comp_def] using hdec

theorem length_of_packInts {fields : List (Nat × Int)} {data : Bytes}
    (h : packInts fields = .ok data) : data.length = (fields.map Prod.fst).sum := by
  obtain ⟨-, rfl⟩ := packInts_eq_ok_iff.mp h
  rw [BigEndian.length_encodeAll, List.map_map]
  rfl

/-- `data[start:stop]` -/
def slice (data : Bytes) (start stop : Nat) : Bytes := (data.take stop).drop start

/-- `data[i]` -/
def index (data : Bytes) (i : Nat) : Except Error Nat :=
  match data[i]? with
  | some b => .ok b.toNat
  | none => .error .indexError

/-! ## 2. Strings -/

/-- `s.encode()` -/
def encode (s : String) : Bytes := s.toUTF8.data.toList

/-- `data.decode()` -/
def decode (data : Bytes) : Except Error String :=
  match String.fromUTF8? ⟨data.toArray⟩ with
  | some s => .ok s
  | none => .error .unicodeDecodeError

/-- `name.split('.')` -/
def split (name : String) : List String := (name.toList.splitOn '.').map String.ofList

/-- `'.'.join(parts)` -/
def join (parts : List String) : String :=
  String.ofList (List.intercalate ['.'] (parts.map String.toList))

@[simp] theorem join_split (name : String) : join (split name) = name := by
  simp [join, split]

/-- `pack_string`, with a length of `w` bytes. -/
def packString (data : Bytes) (w : Nat) : Except Error Bytes := do
  let length ← packInt w data.length
  return length ++ data

/-- `load_string` -/
def loadString (buffer : Bytes) (offset : Nat) : Except Error (Nat × Bytes) := do
  let length ← index buffer offset
  return (offset + 1 + length, slice buffer (offset + 1) (offset + 1 + length))

end Dns
end Hedra
