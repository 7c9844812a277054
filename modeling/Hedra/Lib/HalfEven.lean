/-
# Rounding to the nearest, ties to even

The nearest integer to a rational number, and of two that are as near the even one.  A number is
kept by rounding to so many decimals exactly if it has no more of them.

* `halfEven_eq_iff`: what the nearest integer is known by;
* `roundTo_eq_iff`: which numbers are kept;
* `le_roundTo`: rounding does not cross a number that is kept.
-/
import Mathlib.Algebra.Order.Field.Rat
import Mathlib.Algebra.Order.Ring.Rat
import Mathlib.Algebra.Order.Floor.Ring
import Mathlib.Data.Rat.Floor
import Mathlib.Tactic.FieldSimp
import Mathlib.Tactic.Linarith

namespace Lib.HalfEven

def halfEven (q : ℚ) : ℤ :=
  let z := ⌊q⌋
  if q - z < 1 / 2 then z
  else if 1 / 2 < q - z then z + 1
  else if z % 2 = 0 then z else z + 1

/-- `round(q, accuracy)` -/
def roundTo (q : ℚ) (accuracy : ℤ) : ℚ := halfEven (q * 10 ^ accuracy) / 10 ^ accuracy

/-- It is the nearest one, and even if it is not alone. -/
theorem halfEven_eq_iff {q : ℚ} {z : ℤ} :
    halfEven q = z ↔ |q - z| ≤ 1 / 2 ∧ (|q - z| = 1 / 2 → z % 2 = 0) := by
  have hle := Int.floor_le q
  have hlt := Int.lt_floor_add_one q
  constructor
  · rintro rfl
    unfold halfEven
    dsimp only
    split_ifs with h1 h2 h3
    · rw [abs_of_nonneg (by linarith)]
      exact ⟨h1.le, fun heq => absurd heq h1.ne⟩
    · push_cast
      rw [abs_of_nonpos (by linarith)]
      exact ⟨by linarith, fun heq => by linarith⟩
    · rw [abs_of_nonneg (by linarith)]
      exact ⟨by linarith, fun _ => h3⟩
    · push_cast
      rw [abs_of_nonpos (by linarith)]
      exact ⟨by linarith, fun _ => by omega⟩
  · rintro ⟨hnear, htie⟩
    obtain ⟨hlow, hhigh⟩ := abs_le.mp hnear
    have hz : z = ⌊q⌋ ∨ z = ⌊q⌋ + 1 := by
      have h1 : (⌊q⌋ : ℚ) - 1 < z := by linarith
      have h2 : (z : ℚ) < ⌊q⌋ + 2 := by linarith
      have h1' : ⌊q⌋ - 1 < z := by exact_mod_cast h1
      have h2' : z < ⌊q⌋ + 2 := by exact_mod_cast h2
      omega
    unfold halfEven
    dsimp only
    obtain rfl | rfl := hz
    · rw [abs_of_nonneg (by linarith)] at htie
      split_ifs with h1 h2 h3
      · rfl
      · linarith
      · rfl
      · exact absurd (htie (by linarith)) h3
    · push_cast at hlow htie
      rw [abs_of_nonpos (by linarith)] at htie
      split_ifs with h1 h2 h3
      · linarith
      · rfl
      · have := htie (by linarith)
        omega
      · rfl

@[simp] theorem halfEven_intCast (z : ℤ) : halfEven z = z :=
  halfEven_eq_iff.mpr ⟨by simp, fun h => absurd h (by simp)⟩

/-- So many decimals are enough for the number. -/
def Decimals (q : ℚ) (accuracy : ℤ) : Prop := ∃ z : ℤ, q * 10 ^ accuracy = z

theorem roundTo_eq_iff {q : ℚ} {accuracy : ℤ} : roundTo q accuracy = q ↔ Decimals q accuracy := by
  have hne : (10 : ℚ) ^ accuracy ≠ 0 := zpow_ne_zero _ (by norm_num)
  rw [roundTo, div_eq_iff hne]
  constructor
  · intro h
    exact ⟨_, h.symm⟩
  · rintro ⟨z, hz⟩
    rw [hz, halfEven_intCast]

theorem Decimals.add {q q' : ℚ} {accuracy : ℤ} (h : Decimals q accuracy) (h' : Decimals q' accuracy) :
    Decimals (q + q') accuracy := by
  obtain ⟨z, hz⟩ := h
  obtain ⟨z', hz'⟩ := h'
  exact ⟨z + z', by rw [add_mul, hz, hz', Int.cast_add]⟩

theorem Decimals.sub {q q' : ℚ} {accuracy : ℤ} (h : Decimals q accuracy) (h' : Decimals q' accuracy) :
    Decimals (q - q') accuracy := by
  obtain ⟨z, hz⟩ := h
  obtain ⟨z', hz'⟩ := h'
  exact ⟨z - z', by rw [sub_mul, hz, hz', Int.cast_sub]⟩

theorem decimals_roundTo (q : ℚ) (accuracy : ℤ) : Decimals (roundTo q accuracy) accuracy := by
  have hne : (10 : ℚ) ^ accuracy ≠ 0 := zpow_ne_zero _ (by norm_num)
  exact ⟨halfEven (q * 10 ^ accuracy), by rw [roundTo, div_mul_cancel₀ _ hne]⟩

/-! ## Bounds -/

theorem le_halfEven {q : ℚ} {z : ℤ} (h : (z : ℚ) ≤ q) : z ≤ halfEven q := by
  have hfloor : z ≤ ⌊q⌋ := Int.le_floor.mpr h
  unfold halfEven
  dsimp only
  split_ifs <;> omega

/-- **Rounding does not cross a number that is kept.** -/
theorem le_roundTo {q a : ℚ} {accuracy : ℤ} (ha : Decimals a accuracy) (h : a ≤ q) :
    a ≤ roundTo q accuracy := by
  have hpos : (0 : ℚ) < 10 ^ accuracy := zpow_pos (by norm_num) _
  obtain ⟨z, hz⟩ := ha
  have hle : (z : ℚ) ≤ q * 10 ^ accuracy := hz ▸ mul_le_mul_of_nonneg_right h hpos.le
  rw [roundTo, le_div_iff₀ hpos, hz]
  exact_mod_cast le_halfEven hle

end Lib.HalfEven
