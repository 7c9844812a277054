/-
# Numbers as bit strings

`bits n v` are the last `n` bits of `v`, the most significant first.  Programs that build a bit
string in one large integer shift it and OR the next bits in (`Lib.pack`); programs that cut one
into bytes write the integer in base 256 (`Lib.BigEndian`).  On the bit strings both are an append.

* `bits_pack`: to shift and OR is to append;
* `ofBytes_encode`: the bytes of a number are its bits;
* `bits_prefix_iff`: whether one string begins another is seen from the numbers.
-/
import Hedra.Lib.BitField
import Hedra.Lib.BigEndian

namespace Lib.BitString

/-- The last `n` bits of `v`. -/
def bits : Nat → Nat → List Bool
  | 0, _ => []
  | n + 1, v => bits n (v / 2) ++ [v % 2 == 1]

@[simp] theorem bits_zero (v : Nat) : bits 0 v = [] := rfl

@[simp] theorem length_bits (n v : Nat) : (bits n v).length = n := by
  induction n generalizing v with
  | zero => rfl
  | succ n ih => simp [bits, ih]

theorem bits_add (m n v : Nat) : bits (m + n) v = bits m (v / 2 ^ n) ++ bits n v := by
  induction n generalizing v with
  | zero => simp
  | succ n ih =>
    have hdiv : v / 2 / 2 ^ n = v / 2 ^ (n + 1) := by rw [Nat.div_div_eq_div_mul, Nat.pow_succ']
    have hleft : bits (m + (n + 1)) v = bits (m + n) (v / 2) ++ [v % 2 == 1] := rfl
    rw [hleft, ih, hdiv, List.append_assoc]
    rfl

theorem bits_mod (n v : Nat) : bits n (v % 2 ^ n) = bits n v := by
  induction n generalizing v with
  | zero => rfl
  | succ n ih =>
    have hdiv : v % 2 ^ (n + 1) / 2 = v / 2 % 2 ^ n := by
      rw [Nat.pow_succ', Nat.mod_mul_right_div_self]
    have hmod : v % 2 ^ (n + 1) % 2 = v % 2 := by
      rw [Nat.pow_succ', Nat.mod_mul_right_mod]
    rw [bits, bits, hdiv, hmod, ih]

/-- Shifting `v` and putting `w` below it puts the bits of `w` behind those of `v`. -/
theorem bits_pack (m v : Nat) {n w : Nat} (h : w < 2 ^ n) :
    bits (m + n) (pack v n w) = bits m v ++ bits n w := by
  have hhi : pack v n w / 2 ^ n = v := by
    rw [← Nat.shiftRight_eq_div_pow, pack_shiftRight v h]
  have hlo : pack v n w % 2 ^ n = w := by
    rw [← Nat.and_two_pow_sub_one_eq_mod, pack_and_mask v h]
  rw [bits_add, hhi, ← bits_mod n (pack v n w), hlo]

theorem bits_inj {n v w : Nat} (hv : v < 2 ^ n) (hw : w < 2 ^ n) (h : bits n v = bits n w) :
    v = w := by
  induction n generalizing v w with
  | zero => omega
  | succ n ih =>
    rw [Nat.pow_succ'] at hv hw
    have hinit := List.append_inj' h rfl
    have hdiv : v / 2 = w / 2 := ih (by omega) (by omega) hinit.1
    have hmod : (v % 2 == 1) = (w % 2 == 1) := by simpa using hinit.2
    have hbit : v % 2 = 1 ↔ w % 2 = 1 := by simpa using hmod
    omega

/-- One bit string begins another: an equation between the numbers. -/
theorem bits_prefix_iff {m n v w : Nat} (hv : v < 2 ^ m) (hw : w < 2 ^ n) :
    bits m v <+: bits n w ↔ m ≤ n ∧ w / 2 ^ (n - m) = v := by
  constructor
  · intro h
    have hle : m ≤ n := by simpa using h.length_le
    obtain ⟨k, rfl⟩ := Nat.exists_eq_add_of_le hle
    rw [bits_add] at h
    have heq : bits m v = bits m (w / 2 ^ k) :=
      (List.prefix_of_prefix_length_le h (List.prefix_append _ _) (by simp)).eq_of_length (by simp)
    have hlt : w / 2 ^ k < 2 ^ m := Nat.div_lt_of_lt_mul (by rwa [Nat.mul_comm, ← Nat.pow_add])
    rw [Nat.add_sub_cancel_left]
    exact ⟨Nat.le_add_right m k, (bits_inj hv hlt heq).symm⟩
  · rintro ⟨hle, rfl⟩
    obtain ⟨k, rfl⟩ := Nat.exists_eq_add_of_le hle
    rw [Nat.add_sub_cancel_left, bits_add]
    exact List.prefix_append _ _

@[simp] theorem bits_ones (n : Nat) : bits n (2 ^ n - 1) = List.replicate n true := by
  induction n with
  | zero => rfl
  | succ n ih =>
    have hpos : 0 < 2 ^ n := Nat.two_pow_pos n
    have hdiv : (2 ^ (n + 1) - 1) / 2 = 2 ^ n - 1 := by rw [Nat.pow_succ']; omega
    have hmod : (2 ^ (n + 1) - 1) % 2 = 1 := by rw [Nat.pow_succ']; omega
    rw [bits, hdiv, hmod, ih, List.replicate_succ']
    rfl

/-- The bits of bytes side by side. -/
def ofBytes (bs : List UInt8) : List Bool := bs.flatMap fun b => bits 8 b.toNat

@[simp] theorem ofBytes_nil : ofBytes [] = [] := rfl

@[simp] theorem ofBytes_cons (b : UInt8) (bs : List UInt8) :
    ofBytes (b :: bs) = bits 8 b.toNat ++ ofBytes bs := rfl

theorem length_ofBytes (bs : List UInt8) : (ofBytes bs).length = 8 * bs.length := by
  induction bs with
  | nil => rfl
  | cons b bs ih => simp [ih, Nat.mul_succ, Nat.add_comm]

theorem ofBytes_append (bs bs' : List UInt8) : ofBytes (bs ++ bs') = ofBytes bs ++ ofBytes bs' :=
  List.flatMap_append

theorem ofBytes_encode (w v : Nat) : ofBytes (BigEndian.encode w v) = bits (8 * w) v := by
  induction w generalizing v with
  | zero => rfl
  | succ w ih =>
    have hlast : bits 8 (UInt8.ofNat v).toNat = bits 8 v := by
      rw [UInt8.toNat_ofNat', bits_mod]
    rw [BigEndian.encode, ofBytes_append, ih, ofBytes_cons, hlast, ofBytes_nil, List.append_nil,
      Nat.mul_succ, bits_add]
    rfl

/-- A byte is read half by half. -/
theorem bits_byte (b : UInt8) :
    bits 8 b.toNat = bits 4 (b.toNat >>> 4) ++ bits 4 (b.toNat &&& 15) := by
  have hmask : b.toNat &&& 15 = b.toNat % 2 ^ 4 := Nat.and_two_pow_sub_one_eq_mod b.toNat 4
  rw [hmask, bits_mod, Nat.shiftRight_eq_div_pow]
  exact bits_add 4 4 b.toNat

end Lib.BitString
