/-
# The letters and digits of ASCII

The predicates of `Char` on letters and digits are ranges of numbers, and `Char.toLower` is an addition
on one of them.

* `toNat_toLower`: a capital letter is moved by 32;
* `toLower_eq`: and nothing else is moved;
* `eq_of_toLower_eq`: what is no small letter comes from itself alone.
-/
import Mathlib.Logic.Basic

namespace Lib
namespace Ascii

variable {c d : Char}

theorem isUpper_iff : c.isUpper = true ↔ 65 ≤ c.toNat ∧ c.toNat ≤ 90 := by
  change decide (65 ≤ c.val ∧ c.val ≤ 90) = true ↔ _
  simp [UInt32.le_iff_toNat_le]

theorem isLower_iff : c.isLower = true ↔ 97 ≤ c.toNat ∧ c.toNat ≤ 122 := by
  change (decide (97 ≤ c.val) && decide (c.val ≤ 122)) = true ↔ _
  simp [UInt32.le_iff_toNat_le]

theorem isDigit_iff : c.isDigit = true ↔ 48 ≤ c.toNat ∧ c.toNat ≤ 57 := Char.isDigit_iff_toNat

theorem lt_of_isAlphanum (h : c.isAlphanum = true) : c.toNat < 128 := by
  have h : ((c.isUpper || c.isLower) || c.isDigit) = true := h
  rw [Bool.or_eq_true, Bool.or_eq_true, isUpper_iff, isLower_iff, isDigit_iff] at h
  omega

/-! ## Lower case -/

theorem toLower_eq (h : c.isUpper = false) : c.toLower = c := by
  refine dif_neg fun hupper => ?_
  rw [isUpper_iff.mpr ⟨hupper.1, hupper.2⟩] at h
  cases h

theorem toLower_of_isLower (h : c.isLower = true) : c.toLower = c := by
  have hlower := isLower_iff.mp h
  refine toLower_eq (Bool.eq_false_iff.mpr fun hupper => ?_)
  have hupper := isUpper_iff.mp hupper
  omega

theorem toNat_toLower (h : c.isUpper = true) : c.toLower.toNat = c.toNat + 32 := by
  obtain ⟨hle, hge⟩ := isUpper_iff.mp h
  have hval : c.toLower.val = c.val + 32 := by
    unfold Char.toLower
    rw [dif_pos ⟨hle, hge⟩]
    rfl
  have hnat : c.toLower.toNat = (c.toNat + 32) % 2 ^ 32 := congrArg UInt32.toNat hval
  rw [hnat, Nat.mod_eq_of_lt (by omega)]

theorem isUpper_toLower (c : Char) : c.toLower.isUpper = false := by
  cases hupper : c.isUpper with
  | true =>
    have hlower := toNat_toLower hupper
    have hrange := isUpper_iff.mp hupper
    refine Bool.eq_false_iff.mpr fun h => ?_
    have hagain := isUpper_iff.mp h
    omega
  | false => rw [toLower_eq hupper, hupper]

theorem isLower_toLower (h : c.isUpper = true) : c.toLower.isLower = true := by
  have hlower := toNat_toLower h
  have hupper := isUpper_iff.mp h
  exact isLower_iff.mpr (by omega)

/-- What is not a letter is not the lower case of another character. -/
theorem eq_of_toLower_eq (hd : d.isLower = false) (h : c.toLower = d) : c = d := by
  cases hupper : c.isUpper with
  | true =>
    rw [← h, isLower_toLower hupper] at hd
    cases hd
  | false => rw [← h, toLower_eq hupper]

/-- What is a letter in lower case is no digit. -/
theorem not_isDigit_of_toLower (h : c.toLower.isLower = true) : c.isDigit = false := by
  refine Bool.eq_false_iff.mpr fun hdigit => ?_
  have hrange := isDigit_iff.mp hdigit
  have hsame : c.toLower = c := by
    refine toLower_eq (Bool.eq_false_iff.mpr fun hupper => ?_)
    have hupper := isUpper_iff.mp hupper
    omega
  have hlower := isLower_iff.mp (hsame ▸ h)
  omega

end Ascii
end Lib
