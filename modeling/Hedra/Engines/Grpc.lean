/-
# gRPC messages

`_setup_data` (`core/engines/types/grpc/action.py`) puts a byte for the compression and four bytes
for the length in front of the serialized message, all of it as hexadecimal text.  `GRPCResult.data`
takes the length from the text again, and leaves out its first two digits: a message of `2 ^ 24`
bytes or more comes back short.

* `setupData_eq`: what a frame is made of;
* `data_header`: how much of it is read: what the lower three bytes of the length say;
* `message_read_back_iff`: which messages are read back.
-/
import Hedra.Lib.Hexadecimal

namespace Hedra
namespace Engines
namespace Grpc

open Lib
open Lib.Hexadecimal

abbrev Bytes := List UInt8

/-- `_setup_data`, of what `SerializeToString` gives.  `len(encoded_protobuf)/2` is a float, and exact
for every text that fits into a memory. -/
def setupData (serialized : Bytes) : Option Bytes :=
  let encodedProtobuf := hexlify serialized
  let digits := (hex (encodedProtobuf.length / 2)).dropWhile (fun c => c = 48 ∨ c = 120)
  let encodedMessageLength := List.leftpad 8 48 digits
  unhexlify ([48, 48] ++ encodedMessageLength ++ encodedProtobuf)

/-- `text[start:stop]` -/
def slice (text : Bytes) (start stop : ℕ) : Bytes := (text.take stop).drop start

/-- `GRPCResult.data`.  The length is made of the digits that `b2a_hex` writes, so that it has no
sign. -/
def data (body : Bytes) : Option Bytes :=
  let wireMsg := hexlify body
  match Numerals.int 16 (slice wireMsg 4 10) with
  | none => none
  | some messageLength => unhexlify (slice wireMsg 10 (10 + messageLength.toNat * 2))

/-- A serialized message that gRPC can frame. -/
structure Payload where
  bytes : Bytes
  length_lt : bytes.length < 2 ^ 32

/-- The message is framed, and read back from the frame. -/
def RoundTrips (payload : Payload) : Prop :=
  ∃ body, setupData payload.bytes = some body ∧ data body = some payload.bytes

/-! ## 1. The frame -/

/-- What is put in front of a message. -/
def header (n : ℕ) : Bytes := 0 :: BigEndian.encode 4 n

theorem length_header (n : ℕ) : (header n).length = 5 := by
  rw [header, List.length_cons, BigEndian.length_encode]

/-- **The frame has the flag, the length and the message.** -/
theorem setupData_eq {serialized : Bytes} (h : serialized.length < 2 ^ 32) :
    setupData serialized = some (header serialized.length ++ serialized) := by
  have hlen : (hexlify serialized).length / 2 = serialized.length := by
    rw [length_hexlify]
    omega
  have hdigits : List.leftpad 8 48 (digitsOf serialized.length) =
      hexlify (BigEndian.encode 4 serialized.length) := by
    rw [leftpad_digitsOf (by omega)]
    exact padded_eq_hexlify 4 serialized.length
  have hflag : ([48, 48] : Bytes) = hexlify [0] := by decide
  simp only [setupData]
  rw [hlen, lstrip_hex, hdigits, hflag, ← hexlify_append, ← hexlify_append, unhexlify_hexlify]
  rfl

/-! ## 2. The length that is read -/

/-- Four bytes are a first one and the lower three. -/
theorem encode_four (n : ℕ) :
    BigEndian.encode 4 n = UInt8.ofNat (n / 256 / 256 / 256) :: BigEndian.encode 3 n := rfl

theorem decode_three (n : ℕ) : BigEndian.decode (BigEndian.encode 3 n) = n % 2 ^ 24 := by
  have hmod : BigEndian.encode 3 n = BigEndian.encode 3 (n % 2 ^ 24) := by
    simp only [BigEndian.encode, List.nil_append, List.cons_append]
    refine congrArg₂ List.cons ?_ (congrArg₂ List.cons ?_ (congrArg₂ List.cons ?_ rfl))
    all_goals
      apply UInt8.toNat_inj.mp
      rw [UInt8.toNat_ofNat', UInt8.toNat_ofNat']
      omega
  rw [hmod]
  exact BigEndian.decode_encode (Nat.mod_lt n (by omega))

/-- The digits at the places 4 to 9 are the lower three bytes of the length. -/
theorem slice_length (n : ℕ) (serialized : Bytes) :
    slice (hexlify (header n ++ serialized)) 4 10 = hexlify (BigEndian.encode 3 n) := by
  rw [slice, take_hexlify 5, drop_hexlify 2, List.take_left' (length_header n), header, encode_four]
  rfl

/-- The digits from the place 10 on are those of the message. -/
theorem slice_message (n k : ℕ) (serialized : Bytes) :
    slice (hexlify (header n ++ serialized)) 10 (10 + k * 2) = hexlify (serialized.take k) := by
  have htwice : 10 + k * 2 = 2 * (5 + k) := by omega
  have htake : (header n ++ serialized).take ((header n).length + k) =
      header n ++ serialized.take k := List.take_length_add_append k
  rw [length_header] at htake
  rw [slice, htwice, take_hexlify, drop_hexlify 5, htake, List.drop_left' (length_header n)]

/-- **What is read of a frame is as long as the lower three bytes of the length say.** -/
theorem data_header (n : ℕ) (serialized : Bytes) :
    data (header n ++ serialized) = some (serialized.take (n % 2 ^ 24)) := by
  have hne : BigEndian.encode 3 n ≠ [] := by
    intro hnil
    have hlen := BigEndian.length_encode 3 n
    rw [hnil] at hlen
    cases hlen
  have hint : Numerals.int 16 (hexlify (BigEndian.encode 3 n)) = some ((n % 2 ^ 24 : ℕ) : ℤ) := by
    rw [int_hexlify hne, decode_three]
  simp only [data, slice_length, hint]
  rw [Int.toNat_natCast, slice_message, unhexlify_hexlify]

/-! ## 3. There and back -/

theorem roundTrips_iff_take (payload : Payload) :
    RoundTrips payload ↔
      payload.bytes.take (payload.bytes.length % 2 ^ 24) = payload.bytes := by
  rw [RoundTrips, setupData_eq payload.length_lt]
  constructor
  · rintro ⟨body, hbody, hdata⟩
    rw [← Option.some.inj hbody, data_header] at hdata
    exact Option.some.inj hdata
  · intro htake
    exact ⟨_, rfl, by rw [data_header, htake]⟩

/-- **A message is read back exactly when its length fits into three bytes.** -/
theorem message_read_back_iff (payload : Payload) :
    RoundTrips payload ↔ payload.bytes.length < 2 ^ 24 := by
  rw [roundTrips_iff_take, List.take_eq_self_iff]
  omega

/-- The first message that comes back short: nothing is left of it. -/
theorem not_message_read_back : ¬ ∀ payload, RoundTrips payload := by
  intro hall
  have hlen : (List.replicate (2 ^ 24) (0 : UInt8)).length = 2 ^ 24 := List.length_replicate
  have htrip := hall ⟨List.replicate (2 ^ 24) 0, by omega⟩
  rw [roundTrips_iff_take, List.take_eq_self_iff] at htrip
  dsimp only at htrip
  omega

end Grpc
end Engines
end Hedra
