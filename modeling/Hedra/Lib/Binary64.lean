/-
# Double precision

The numbers of 53 significant bits.  `rounded` takes a number to the nearest of them, ties to even,
and `double` is that number where it is less than `2 ^ 1024`, and no number, the infinity of the
format, from there on.  There is no least exponent: subnormal numbers keep their bits here.

`rounded_mantissa` is the whole of what the rest needs of the rounding: a number of 53 bits, times any
power of two, is kept.  Rounding twice is then rounding once (`rounded_rounded`), whole numbers are
kept up to `2 ^ 53` (`rounded_intCast`), and powers of two go through (`rounded_mul_zpow`), because
they move the spacing of the numbers and nothing else (`spacing_mul_zpow`).
-/
import Mathlib.Data.Int.Log
import Mathlib.Tactic.NormNum
import Mathlib.Tactic.Ring
import Hedra.Lib.HalfEven

namespace Lib.Binary64

open HalfEven

/-- What the last of the 53 bits is worth. -/
def spacing (q : ℚ) : ℚ := 2 ^ (Int.log 2 |q| - 52)

def rounded (q : ℚ) : ℚ := halfEven (q / spacing q) * spacing q

def double (q : ℚ) : Option ℚ := if |rounded q| < 2 ^ 1024 then some (rounded q) else none

theorem two_zpow_pos (k : ℤ) : (0 : ℚ) < 2 ^ k := zpow_pos (by norm_num) k

theorem two_zpow_ne_zero (k : ℤ) : (2 : ℚ) ^ k ≠ 0 := (two_zpow_pos k).ne'

theorem spacing_pos (q : ℚ) : 0 < spacing q := two_zpow_pos _

@[simp] theorem rounded_zero : rounded 0 = 0 := by
  have hzero : halfEven 0 = 0 := halfEven_intCast 0
  rw [rounded, zero_div, hzero, Int.cast_zero, zero_mul]

/-- The number has 53 significant bits. -/
theorem div_spacing_bounds {q : ℚ} (h : q ≠ 0) :
    2 ^ (52 : ℤ) ≤ |q| / spacing q ∧ |q| / spacing q < 2 ^ (53 : ℤ) := by
  have hpos : 0 < |q| := abs_pos.mpr h
  have hlow : (2 : ℚ) ^ Int.log 2 |q| ≤ |q| := Int.zpow_log_le_self (by norm_num) hpos
  have hhigh : |q| < (2 : ℚ) ^ (Int.log 2 |q| + 1) := Int.lt_zpow_succ_log_self (by norm_num) _
  rw [le_div_iff₀ (spacing_pos q), div_lt_iff₀ (spacing_pos q), spacing,
    ← zpow_add₀ (by norm_num), ← zpow_add₀ (by norm_num)]
  refine ⟨?_, ?_⟩
  · rwa [show (52 : ℤ) + (Int.log 2 |q| - 52) = Int.log 2 |q| by ring]
  · rwa [show (53 : ℤ) + (Int.log 2 |q| - 52) = Int.log 2 |q| + 1 by ring]

/-- The spacing is the only power of two that leaves the number 53 bits. -/
theorem spacing_eq {q : ℚ} {e : ℤ} (hlow : 2 ^ (52 + e) ≤ |q|) (hhigh : |q| < 2 ^ (53 + e)) :
    spacing q = 2 ^ e := by
  have hpos : 0 < |q| := lt_of_lt_of_le (two_zpow_pos _) hlow
  have hlog_le : 52 + e ≤ Int.log 2 |q| :=
    (Int.zpow_le_iff_le_log (by norm_num) hpos).mp (by exact_mod_cast hlow)
  have hlog_lt : Int.log 2 |q| < 53 + e :=
    (Int.lt_zpow_iff_log_lt (by norm_num) hpos).mp (by exact_mod_cast hhigh)
  rw [spacing, show Int.log 2 |q| - 52 = e by omega]

theorem rounded_of_int {q : ℚ} {z : ℤ} (h : q / spacing q = z) : rounded q = q := by
  rw [rounded, h, halfEven_intCast, ← h, div_mul_cancel₀ _ (spacing_pos q).ne']

/-- **A number of 53 bits, times a power of two, is kept.** -/
theorem rounded_mantissa {m : ℤ} (h : |m| ≤ 2 ^ 53) (k : ℤ) : rounded (m * 2 ^ k) = m * 2 ^ k := by
  obtain rfl | hm := eq_or_ne m 0
  · simp
  have hmpos : (0 : ℚ) < |(m : ℚ)| := abs_pos.mpr (by exact_mod_cast hm)
  have hq : (m : ℚ) * 2 ^ k ≠ 0 := mul_ne_zero (by exact_mod_cast hm) (two_zpow_ne_zero k)
  have habs : |(m : ℚ) * 2 ^ k| = |(m : ℚ)| * 2 ^ k := by
    rw [abs_mul, abs_of_pos (two_zpow_pos k)]
  have hle : |(m : ℚ)| ≤ 2 ^ (53 : ℤ) := by exact_mod_cast h
  have hlow : (2 : ℚ) ^ Int.log 2 |(m : ℚ) * 2 ^ k| ≤ 2 ^ (53 + k) := by
    have hself := Int.zpow_log_le_self (R := ℚ) (b := 2) (by norm_num) (abs_pos.mpr hq)
    refine hself.trans ?_
    rw [habs, zpow_add₀ (by norm_num)]
    exact mul_le_mul_of_nonneg_right hle (two_zpow_pos k).le
  have hlog : Int.log 2 |(m : ℚ) * 2 ^ k| ≤ 53 + k := (zpow_le_zpow_iff_right₀ (by norm_num)).mp hlow
  obtain hless | heq := lt_or_eq_of_le hlog
  · -- the spacing divides the power of two
    obtain ⟨j, hj⟩ := Int.eq_ofNat_of_zero_le (a := k - (Int.log 2 |(m : ℚ) * 2 ^ k| - 52)) (by omega)
    refine rounded_of_int (z := m * 2 ^ j) ?_
    rw [spacing, mul_div_assoc, ← zpow_sub₀ (by norm_num), hj]
    push_cast
    rfl
  · -- all 53 bits carry into the next power of two
    have hself := Int.zpow_log_le_self (R := ℚ) (b := 2) (by norm_num) (abs_pos.mpr hq)
    rw [heq, habs, Nat.cast_ofNat, zpow_add₀ (by norm_num)] at hself
    have hge : (2 : ℚ) ^ (53 : ℤ) ≤ |(m : ℚ)| := le_of_mul_le_mul_right hself (two_zpow_pos k)
    have hfull : |m| = 2 ^ 53 := by exact_mod_cast le_antisymm hle hge
    have heven : m = m / 2 * 2 := by
      have hdvd : (2 : ℤ) ∣ m := (dvd_abs 2 m).mp (hfull ▸ ⟨2 ^ 52, by norm_num⟩)
      exact (Int.ediv_mul_cancel hdvd).symm
    refine rounded_of_int (z := m / 2) ?_
    rw [spacing, heq, show (53 : ℤ) + k - 52 = 1 + k by ring, zpow_add₀ (by norm_num), zpow_one,
      mul_div_mul_right _ _ (two_zpow_ne_zero k)]
    rw [div_eq_iff (by norm_num)]
    exact_mod_cast heven

/-- No more than 53 bits remain. -/
theorem abs_halfEven_le {q : ℚ} (h : q ≠ 0) : |halfEven (q / spacing q)| ≤ 2 ^ 53 := by
  obtain ⟨hnear, -⟩ := halfEven_eq_iff.mp (Eq.refl (halfEven (q / spacing q)))
  have hlt : |q / spacing q| < 2 ^ (53 : ℤ) := by
    rw [abs_div, abs_of_pos (spacing_pos q)]
    exact (div_spacing_bounds h).2
  obtain ⟨h1, h2⟩ := abs_le.mp hnear
  obtain ⟨h3, h4⟩ := abs_lt.mp hlt
  have hlow : -(2 ^ 53 + 1 : ℚ) < halfEven (q / spacing q) := by norm_num at h3 ⊢; linarith
  have hhigh : (halfEven (q / spacing q) : ℚ) < 2 ^ 53 + 1 := by norm_num at h4 ⊢; linarith
  have hlow' : -(2 ^ 53 + 1 : ℤ) < halfEven (q / spacing q) := by exact_mod_cast hlow
  have hhigh' : halfEven (q / spacing q) < (2 ^ 53 + 1 : ℤ) := by exact_mod_cast hhigh
  exact abs_le.mpr ⟨by omega, by omega⟩

theorem exists_mantissa (q : ℚ) : ∃ m k : ℤ, |m| ≤ 2 ^ 53 ∧ rounded q = m * 2 ^ k := by
  obtain rfl | hq := eq_or_ne q 0
  · exact ⟨0, 0, by norm_num, by simp⟩
  exact ⟨_, _, abs_halfEven_le hq, rfl⟩

@[simp] theorem rounded_rounded (q : ℚ) : rounded (rounded q) = rounded q := by
  obtain ⟨m, k, hm, heq⟩ := exists_mantissa q
  rw [heq, rounded_mantissa hm]

theorem rounded_intCast {z : ℤ} (h : |z| ≤ 2 ^ 53) : rounded z = z := by
  have hkept := rounded_mantissa h 0
  rwa [zpow_zero, mul_one] at hkept

theorem spacing_mul_zpow {q : ℚ} (h : q ≠ 0) (k : ℤ) : spacing (q * 2 ^ k) = spacing q * 2 ^ k := by
  obtain ⟨hlow, hhigh⟩ := div_spacing_bounds h
  have hpow := two_zpow_pos k
  rw [le_div_iff₀ (spacing_pos q)] at hlow
  rw [div_lt_iff₀ (spacing_pos q)] at hhigh
  have hsplit : spacing q * 2 ^ k = 2 ^ (Int.log 2 |q| - 52 + k) := by
    rw [spacing, zpow_add₀ (by norm_num)]
  rw [hsplit]
  refine spacing_eq ?_ ?_ <;>
    rw [zpow_add₀ (by norm_num), ← hsplit, abs_mul, abs_of_pos hpow, ← mul_assoc]
  · exact mul_le_mul_of_nonneg_right hlow hpow.le
  · exact mul_lt_mul_of_pos_right hhigh hpow

/-- **Powers of two go through the rounding.** -/
theorem rounded_mul_zpow (q : ℚ) (k : ℤ) : rounded (q * 2 ^ k) = rounded q * 2 ^ k := by
  obtain rfl | hq := eq_or_ne q 0
  · simp
  rw [rounded, rounded, spacing_mul_zpow hq, mul_div_mul_right _ _ (two_zpow_ne_zero k), mul_assoc]

theorem rounded_nonneg {q : ℚ} (h : 0 ≤ q) : 0 ≤ rounded q := by
  have hdiv : ((0 : ℤ) : ℚ) ≤ q / spacing q := by
    rw [Int.cast_zero]
    exact div_nonneg h (spacing_pos q).le
  exact mul_nonneg (by exact_mod_cast le_halfEven hdiv) (spacing_pos q).le

/-- The rounding at most doubles a number. -/
theorem abs_rounded_le (q : ℚ) : |rounded q| ≤ 2 * |q| := by
  obtain rfl | hq := eq_or_ne q 0
  · simp
  have hbits : |(halfEven (q / spacing q) : ℚ)| ≤ 2 ^ (53 : ℤ) := by exact_mod_cast abs_halfEven_le hq
  have hlow := (le_div_iff₀ (spacing_pos q)).mp (div_spacing_bounds hq).1
  rw [rounded, abs_mul, abs_of_pos (spacing_pos q)]
  calc |(halfEven (q / spacing q) : ℚ)| * spacing q
      ≤ 2 ^ (53 : ℤ) * spacing q := mul_le_mul_of_nonneg_right hbits (spacing_pos q).le
    _ = 2 * (2 ^ (52 : ℤ) * spacing q) := by norm_num; ring
    _ ≤ 2 * |q| := mul_le_mul_of_nonneg_left hlow (by norm_num)

theorem double_eq_some_iff {q s : ℚ} : double q = some s ↔ rounded q = s ∧ |s| < 2 ^ 1024 := by
  unfold double
  constructor
  · intro h
    split at h
    · next hlt => exact ⟨Option.some.inj h, Option.some.inj h ▸ hlt⟩
    · cases h
  · rintro ⟨rfl, hlt⟩
    exact if_pos hlt

theorem abs_rounded_lt {q : ℚ} (h : |q| < 2 ^ 1023) : |rounded q| < 2 ^ 1024 := by
  have hdouble : 2 * |q| < 2 * 2 ^ 1023 := mul_lt_mul_of_pos_left h two_pos
  exact (abs_rounded_le q).trans_lt (hdouble.trans_eq (pow_succ' 2 1023).symm)

example : double 5 = some 5 ∧ double (1 / 10) = some (3602879701896397 / 2 ^ 55) := by decide +kernel

end Lib.Binary64
