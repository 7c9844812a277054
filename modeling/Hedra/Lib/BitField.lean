/-
# Two bit fields in one word

`pack hi w lo` puts `lo` into the low `w` bits and `hi` above them, with a shift and an OR.
The OR is an addition exactly as long as `lo` stays below `2 ^ w`, and everything a codec
relies on -- reading both fields back, and comparing words by comparing fields -- needs that
side condition.  A word with more than two fields is a nested `pack`, so these lemmas are
applied once per field boundary.
-/
import Mathlib.Data.Nat.Bitwise
import Mathlib.Tactic.Ring

namespace Lib

/-- `hi << w | lo` -/
def pack (hi w lo : Nat) : Nat := hi <<< w ||| lo

theorem pack_eq_add (hi : Nat) {w lo : Nat} (h : lo < 2 ^ w) : pack hi w lo = hi * 2 ^ w + lo := by
  rw [pack, ← Nat.shiftLeft_add_eq_or_of_lt h, Nat.shiftLeft_eq]

/-- The high field is read back by the shift. -/
theorem pack_shiftRight (hi : Nat) {w lo : Nat} (h : lo < 2 ^ w) : pack hi w lo >>> w = hi := by
  rw [pack_eq_add hi h, Nat.shiftRight_eq_div_pow, Nat.mul_comm, Nat.mul_add_div (Nat.two_pow_pos w),
    Nat.div_eq_of_lt h, Nat.add_zero]

/-- The low field is read back by the mask. -/
theorem pack_and_mask (hi : Nat) {w lo : Nat} (h : lo < 2 ^ w) :
    pack hi w lo &&& (2 ^ w - 1) = lo := by
  rw [Nat.and_two_pow_sub_one_eq_mod, pack_eq_add hi h, Nat.mul_comm, Nat.mul_add_mod,
    Nat.mod_eq_of_lt h]

/-- Two fields fill a word of the sum of their widths. -/
theorem pack_lt {hi v w lo : Nat} (hhi : hi < 2 ^ v) (hlo : lo < 2 ^ w) :
    pack hi w lo < 2 ^ (v + w) := by
  rw [pack_eq_add hi hlo, Nat.pow_add]
  calc hi * 2 ^ w + lo < hi * 2 ^ w + 2 ^ w := Nat.add_lt_add_left hlo _
    _ = (hi + 1) * 2 ^ w := (Nat.succ_mul hi _).symm
    _ ≤ 2 ^ v * 2 ^ w := Nat.mul_le_mul_right _ hhi

/-- A larger high field makes the larger word, whatever the low fields are. -/
theorem pack_lt_pack_of_lt {hi hi' w lo : Nat} (lo' : Nat) (hlo : lo < 2 ^ w) (h : hi < hi') :
    pack hi w lo < pack hi' w lo' := by
  have hshift : hi' <<< w ≤ pack hi' w lo' := Nat.left_le_or
  rw [Nat.shiftLeft_eq] at hshift
  refine lt_of_lt_of_le ?_ hshift
  rw [pack_eq_add hi hlo]
  calc hi * 2 ^ w + lo < hi * 2 ^ w + 2 ^ w := Nat.add_lt_add_left hlo _
    _ = (hi + 1) * 2 ^ w := (Nat.succ_mul hi _).symm
    _ ≤ hi' * 2 ^ w := Nat.mul_le_mul_right _ h

/-- At the same high field the low fields decide. -/
theorem pack_lt_pack_right (hi : Nat) {w lo lo' : Nat} (hlo' : lo' < 2 ^ w) (h : lo < lo') :
    pack hi w lo < pack hi w lo' := by
  rw [pack_eq_add hi (h.trans hlo'), pack_eq_add hi hlo']
  exact Nat.add_lt_add_left h _

end Lib
