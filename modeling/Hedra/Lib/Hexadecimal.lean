/-
# Bytes and numbers in hexadecimal

Text is ASCII, given by its bytes.  A byte string is written with two digits for each byte, and read
back from them; read as one number, its digits are the number that the bytes are in big-endian order.

* `unhexlify_hexlify`: bytes are read back;
* `value_hexlify`: the digits are the number of the bytes;
* `padded_eq_hexlify`: a number padded to two digits for each byte is written as its bytes are.
-/
import Hedra.Lib.BigEndian
import Hedra.Lib.Numerals

namespace Lib
namespace Hexadecimal

open Numerals

/-! ## 1. Bytes -/

/-- A digit, in lower case. -/
def letter (d : ℕ) : UInt8 := if d < 10 then UInt8.ofNat (48 + d) else UInt8.ofNat (87 + d)

theorem digit_letter {d : ℕ} (h : d < 16) : digit 16 (letter d) = some d := by
  have hall : ∀ d < 16, digit 16 (letter d) = some d := by decide
  exact hall d h

/-- `b2a_hex` -/
def hexlify (bs : List UInt8) : List UInt8 :=
  bs.flatMap fun b => [letter (b.toNat / 16), letter (b.toNat % 16)]

/-- `a2b_hex`, which raises on other characters, and on an odd number of digits. -/
def unhexlify : List UInt8 → Option (List UInt8)
  | [] => some []
  | [_] => none
  | x :: y :: text =>
    match digit 16 x, digit 16 y, unhexlify text with
    | some hi, some lo, some bs => some (UInt8.ofNat (hi * 16 + lo) :: bs)
    | _, _, _ => none

@[simp] theorem hexlify_nil : hexlify [] = [] := rfl

theorem hexlify_cons (b : UInt8) (bs : List UInt8) :
    hexlify (b :: bs) = letter (b.toNat / 16) :: letter (b.toNat % 16) :: hexlify bs := rfl

theorem hexlify_append (bs bs' : List UInt8) : hexlify (bs ++ bs') = hexlify bs ++ hexlify bs' :=
  List.flatMap_append

@[simp] theorem length_hexlify (bs : List UInt8) : (hexlify bs).length = 2 * bs.length := by
  induction bs with
  | nil => rfl
  | cons b bs ih =>
    rw [hexlify_cons, List.length_cons, List.length_cons, List.length_cons, ih]
    omega

theorem digit_halves (b : UInt8) :
    digit 16 (letter (b.toNat / 16)) = some (b.toNat / 16) ∧
      digit 16 (letter (b.toNat % 16)) = some (b.toNat % 16) := by
  have hb := b.toNat_lt
  exact ⟨digit_letter (by omega), digit_letter (by omega)⟩

/-- **Bytes are read back.** -/
theorem unhexlify_hexlify (bs : List UInt8) : unhexlify (hexlify bs) = some bs := by
  induction bs with
  | nil => rfl
  | cons b bs ih =>
    obtain ⟨hhi, hlo⟩ := digit_halves b
    rw [hexlify_cons, unhexlify, hhi, hlo, ih]
    dsimp only
    rw [Nat.div_add_mod' b.toNat 16, UInt8.ofNat_toNat]

theorem take_hexlify (n : ℕ) (bs : List UInt8) :
    (hexlify bs).take (2 * n) = hexlify (bs.take n) := by
  induction n generalizing bs with
  | zero => rfl
  | succ n ih =>
    cases bs with
    | nil => rfl
    | cons b bs =>
      rw [Nat.mul_succ, hexlify_cons, List.take_succ_cons, List.take_succ_cons, ih,
        List.take_succ_cons, hexlify_cons]

theorem drop_hexlify (n : ℕ) (bs : List UInt8) :
    (hexlify bs).drop (2 * n) = hexlify (bs.drop n) := by
  induction n generalizing bs with
  | zero => rfl
  | succ n ih =>
    cases bs with
    | nil => rfl
    | cons b bs =>
      rw [Nat.mul_succ, hexlify_cons, List.drop_succ_cons, List.drop_succ_cons, ih,
        List.drop_succ_cons]

/-! ## 2. Numbers -/

theorem numeral_hexlify {bs : List UInt8} (h : bs ≠ []) : Numeral 16 (hexlify bs) := by
  constructor
  · intro hnil
    have hlen := congrArg List.length hnil
    rw [length_hexlify] at hlen
    have := List.length_pos_iff.mpr h
    rw [List.length_nil] at hlen
    omega
  · intro c hc
    obtain ⟨b, -, hb⟩ := List.mem_flatMap.mp hc
    obtain ⟨hhi, hlo⟩ := digit_halves b
    rcases List.mem_cons.mp hb with rfl | hb
    · rw [hhi]
      rfl
    · rw [List.mem_singleton.mp hb, hlo]
      rfl

/-- **The digits are the number of the bytes.** -/
theorem value_hexlify (bs : List UInt8) : value 16 0 (hexlify bs) = BigEndian.decode bs := by
  rw [BigEndian.decode]
  generalize 0 = acc
  induction bs generalizing acc with
  | nil => rfl
  | cons b bs ih =>
    obtain ⟨hhi, hlo⟩ := digit_halves b
    have hstep : (acc * 16 + b.toNat / 16) * 16 + b.toNat % 16 = acc * 256 + b.toNat := by omega
    rw [hexlify_cons, value, List.foldl_cons, List.foldl_cons, hhi, hlo, Option.getD_some,
      Option.getD_some, hstep, ← value, ih, List.foldl_cons]

theorem int_hexlify {bs : List UInt8} (h : bs ≠ []) :
    int 16 (hexlify bs) = some (BigEndian.decode bs : ℤ) := by
  rw [int_eq_value (numeral_hexlify h), value_hexlify]
  rfl

/-- The digits of a number, none for zero. -/
def digitsOf (n : ℕ) : List UInt8 :=
  if n = 0 then [] else digitsOf (n / 16) ++ [letter (n % 16)]

/-- `hex(n)` -/
def hex (n : ℕ) : List UInt8 := 48 :: 120 :: if n = 0 then [48] else digitsOf n

/-- The number in a fixed count of digits. -/
def padded : ℕ → ℕ → List UInt8
  | 0, _ => []
  | w + 1, n => padded w (n / 16) ++ [letter (n % 16)]

theorem letter_ne {d : ℕ} (h : d < 16) (h0 : d ≠ 0) : letter d ≠ 48 ∧ letter d ≠ 120 := by
  have hall : ∀ d < 16, d ≠ 0 → letter d ≠ 48 ∧ letter d ≠ 120 := by decide
  exact hall d h h0

/-- The first digit is none of those that `lstrip("0x")` takes off. -/
theorem exists_digitsOf {n : ℕ} (h : n ≠ 0) :
    ∃ c text, digitsOf n = c :: text ∧ c ≠ 48 ∧ c ≠ 120 := by
  induction n using Nat.strongRecOn with
  | ind n ih =>
    rw [digitsOf, if_neg h]
    by_cases hdiv : n / 16 = 0
    · have hmod := letter_ne (Nat.mod_lt n (by omega)) (by omega : n % 16 ≠ 0)
      rw [hdiv, digitsOf, if_pos rfl]
      exact ⟨_, _, rfl, hmod⟩
    · obtain ⟨c, text, htext, hc⟩ := ih (n / 16) (by omega) hdiv
      rw [htext]
      exact ⟨c, text ++ [letter (n % 16)], rfl, hc⟩

/-- `hex(n).lstrip("0x")` -/
theorem lstrip_hex (n : ℕ) : (hex n).dropWhile (fun c => c = 48 ∨ c = 120) = digitsOf n := by
  rw [hex, List.dropWhile_cons_of_pos (by decide), List.dropWhile_cons_of_pos (by decide)]
  by_cases h : n = 0
  · rw [if_pos h, h, digitsOf, if_pos rfl]
    rfl
  · obtain ⟨c, text, htext, hc0, hcx⟩ := exists_digitsOf h
    rw [if_neg h, htext, List.dropWhile_cons_of_neg]
    simp [hc0, hcx]

theorem padded_zero (w : ℕ) : padded w 0 = List.replicate w 48 := by
  induction w with
  | zero => rfl
  | succ w ih =>
    rw [padded, Nat.zero_div, ih, List.replicate_succ']
    rfl

/-- `zfill` -/
theorem leftpad_digitsOf {w n : ℕ} (h : n < 16 ^ w) :
    List.leftpad w 48 (digitsOf n) = padded w n := by
  induction w generalizing n with
  | zero =>
    obtain rfl : n = 0 := by simpa using h
    rw [digitsOf, if_pos rfl]
    rfl
  | succ w ih =>
    have hdiv : n / 16 < 16 ^ w := Nat.div_lt_of_lt_mul (by rwa [Nat.pow_succ'] at h)
    by_cases h0 : n = 0
    · rw [h0, padded_zero, digitsOf, if_pos rfl, List.leftpad, List.append_nil]
      rfl
    · have hroom : w + 1 - ((digitsOf (n / 16)).length + 1) = w - (digitsOf (n / 16)).length := by
        omega
      rw [digitsOf, if_neg h0, padded, ← ih hdiv, List.leftpad, List.leftpad, List.length_append,
        List.length_singleton, hroom, List.append_assoc]

/-- **Two digits for each byte of the big-endian number.** -/
theorem padded_eq_hexlify (w n : ℕ) : padded (2 * w) n = hexlify (BigEndian.encode w n) := by
  induction w generalizing n with
  | zero => rfl
  | succ w ih =>
    have hlow : (UInt8.ofNat n).toNat = n % 256 := UInt8.toNat_ofNat'
    have hhi : n % 256 / 16 = n / 16 % 16 := by omega
    have hlo : n % 256 % 16 = n % 16 := by omega
    have hrest : n / 16 / 16 = n / 256 := by omega
    rw [Nat.mul_succ, padded, padded, hrest, ih, BigEndian.encode, hexlify_append, hexlify_cons,
      hlow, hhi, hlo, List.append_assoc]
    rfl

end Hexadecimal
end Lib
