/-
# Integers behind a prefix

A number begins in the last `w` bits of a byte; the bits in front of them, the flag, say something
else.  A number that does not fit fills these bits with ones, and the rest follows in base 128, the
least significant digit first, the top bit set in every byte but the last.

* `decode_encode`: a number is read back, whatever comes behind it;
* `first_mod`: and its first byte says whether the rest follows.
-/
import Mathlib.Data.List.Basic
import Mathlib.Algebra.Order.Ring.Nat

namespace Lib.PrefixInteger

/-- The digits of `n` in base 128; there are at most `fuel + 1`. -/
def digits : Nat → Nat → List UInt8
  | 0, n => [UInt8.ofNat n]
  | fuel + 1, n =>
    if n < 128 then [UInt8.ofNat n] else UInt8.ofNat (n % 128 + 128) :: digits fuel (n / 128)

/-- The number in digits, and what follows them. -/
def undigits : List UInt8 → Option (Nat × List UInt8)
  | [] => none
  | b :: bs =>
    if b.toNat < 128 then some (b.toNat, bs)
    else (undigits bs).map fun p => (b.toNat - 128 + 128 * p.1, p.2)

def encode (flag w n : Nat) : List UInt8 :=
  if n < 2 ^ w - 1 then [UInt8.ofNat (flag * 2 ^ w + n)]
  else UInt8.ofNat (flag * 2 ^ w + (2 ^ w - 1)) :: digits (n - (2 ^ w - 1)) (n - (2 ^ w - 1))

/-- The number, and what follows it. -/
def decode (w : Nat) : List UInt8 → Option (Nat × List UInt8)
  | [] => none
  | b :: bs =>
    if b.toNat % 2 ^ w < 2 ^ w - 1 then some (b.toNat % 2 ^ w, bs)
    else (undigits bs).map fun p => (2 ^ w - 1 + p.1, p.2)

theorem undigits_digits {fuel n : Nat} (h : n ≤ fuel) (rest : List UInt8) :
    undigits (digits fuel n ++ rest) = some (n, rest) := by
  induction fuel generalizing n with
  | zero =>
    obtain rfl : n = 0 := Nat.le_zero.mp h
    rfl
  | succ fuel ih =>
    by_cases hn : n < 128
    · have hbyte : n % 256 = n := by omega
      simp [digits, hn, undigits, hbyte]
    · have hbyte : (n % 128 + 128) % 256 = n % 128 + 128 := by omega
      have hdigit : n % 128 + 128 * (n / 128) = n := Nat.mod_add_div n 128
      simp [digits, hn, undigits, hbyte, ih (n := n / 128) (by omega), hdigit]

/-- The first byte of a number is below 256. -/
theorem first_lt {flag w x : Nat} (hw : w ≤ 8) (hflag : flag < 2 ^ (8 - w)) (hx : x < 2 ^ w) :
    flag * 2 ^ w + x < 256 := by
  have htop : 2 ^ (8 - w) * 2 ^ w = 256 := by rw [← Nat.pow_add, Nat.sub_add_cancel hw]
  calc flag * 2 ^ w + x < (flag + 1) * 2 ^ w := by rw [Nat.succ_mul]; omega
    _ ≤ 2 ^ (8 - w) * 2 ^ w := Nat.mul_le_mul_right _ hflag
    _ = 256 := htop

theorem decode_encode {flag w : Nat} (hw : w ≤ 8) (hflag : flag < 2 ^ (8 - w)) (n : Nat)
    (rest : List UInt8) : decode w (encode flag w n ++ rest) = some (n, rest) := by
  have hpos : 0 < 2 ^ w := Nat.two_pow_pos w
  by_cases hn : n < 2 ^ w - 1
  · have hbyte := first_lt hw hflag (show n < 2 ^ w by omega)
    have hmod : (flag * 2 ^ w + n) % 2 ^ w = n := by
      rw [Nat.mul_comm, Nat.mul_add_mod, Nat.mod_eq_of_lt (by omega)]
    simp [encode, hn, decode, Nat.mod_eq_of_lt hbyte, hmod]
  · have hbyte := first_lt hw hflag (show 2 ^ w - 1 < 2 ^ w by omega)
    have hmod : (flag * 2 ^ w + (2 ^ w - 1)) % 2 ^ w = 2 ^ w - 1 := by
      rw [Nat.mul_comm, Nat.mul_add_mod, Nat.mod_eq_of_lt (by omega)]
    have hsum : 2 ^ w - 1 + (n - (2 ^ w - 1)) = n := by omega
    simp [encode, hn, decode, Nat.mod_eq_of_lt hbyte, hmod, undigits_digits (Nat.le_refl _), hsum]

/-- The flag stands in front of the number. -/
theorem encode_eq_cons {flag w : Nat} (hw : w ≤ 8) (hflag : flag < 2 ^ (8 - w)) (n : Nat) :
    ∃ b bs, encode flag w n = b :: bs ∧ b.toNat / 2 ^ w = flag := by
  have hpos : 0 < 2 ^ w := Nat.two_pow_pos w
  have hdiv : ∀ x < 2 ^ w, (UInt8.ofNat (flag * 2 ^ w + x)).toNat / 2 ^ w = flag := by
    intro x hx
    rw [UInt8.toNat_ofNat', Nat.mod_eq_of_lt (first_lt hw hflag hx), Nat.mul_comm,
      Nat.mul_add_div hpos, Nat.div_eq_of_lt hx, Nat.add_zero]
  by_cases hn : n < 2 ^ w - 1
  · exact ⟨_, [], if_pos hn, hdiv n (by omega)⟩
  · exact ⟨_, _, if_neg hn, hdiv _ (by omega)⟩

/-- The bits behind the flag: the number, or all ones. -/
theorem first_mod {flag w n : Nat} {b : UInt8} {bs : List UInt8} (hw : w ≤ 8)
    (hflag : flag < 2 ^ (8 - w)) (h : encode flag w n = b :: bs) :
    b.toNat % 2 ^ w = min n (2 ^ w - 1) := by
  have hpos : 0 < 2 ^ w := Nat.two_pow_pos w
  have hmod : ∀ x < 2 ^ w, (UInt8.ofNat (flag * 2 ^ w + x)).toNat % 2 ^ w = x := by
    intro x hx
    rw [UInt8.toNat_ofNat', Nat.mod_eq_of_lt (first_lt hw hflag hx), Nat.mul_comm,
      Nat.mul_add_mod, Nat.mod_eq_of_lt hx]
  by_cases hn : n < 2 ^ w - 1
  · rw [encode, if_pos hn] at h
    rw [← (List.cons.inj h).1, hmod n (by omega), Nat.min_eq_left (by omega)]
  · rw [encode, if_neg hn] at h
    rw [← (List.cons.inj h).1, hmod _ (by omega), Nat.min_eq_right (by omega)]

end Lib.PrefixInteger
