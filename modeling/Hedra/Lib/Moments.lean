/-
# Mean and variance, one value at a time

Over any field of characteristic zero.  A value that is added moves the mean by its distance over the
new count, and the sum of the squared deviations by the two distances multiplied; both are rules for
a running statistic.

* `mean_concat`: a value moves the mean;
* `deviation_concat`: and adds to the deviation.
-/
import Mathlib.Algebra.BigOperators.Ring.List
import Mathlib.Algebra.CharZero.Defs
import Mathlib.Tactic.FieldSimp
import Mathlib.Tactic.Ring

namespace Lib.Moments

variable {K : Type} [Field K]

def mean (xs : List K) : K := xs.sum / xs.length

/-- The sum of the squared deviations from the mean. -/
def deviation (xs : List K) : K := (xs.map fun x => (x - mean xs) ^ 2).sum

/-- Of one value it is zero over zero. -/
def sampleVariance (xs : List K) : K := deviation xs / (xs.length - 1)

@[simp] theorem mean_nil : mean ([] : List K) = 0 := by simp [mean]

@[simp] theorem deviation_nil : deviation ([] : List K) = 0 := by simp [deviation]

/-- The squared deviations from any number. -/
theorem sum_sq_sub (m : K) (xs : List K) :
    (xs.map fun x => (x - m) ^ 2).sum =
      (xs.map (· ^ 2)).sum - 2 * m * xs.sum + xs.length * m ^ 2 := by
  induction xs with
  | nil => simp
  | cons x xs ih =>
    simp only [List.map_cons, List.sum_cons, List.length_cons, ih, Nat.cast_add, Nat.cast_one]
    ring

variable [CharZero K]

theorem length_mul_mean (xs : List K) : xs.length * mean xs = xs.sum := by
  cases xs with
  | nil => simp
  | cons x xs =>
    have h : ((x :: xs).length : K) ≠ 0 := by
      rw [List.length_cons, Nat.cast_add, Nat.cast_one]
      exact Nat.cast_add_one_ne_zero xs.length
    rw [mean, mul_div_cancel₀ _ h]

theorem deviation_eq (xs : List K) :
    deviation xs = (xs.map (· ^ 2)).sum - xs.length * mean xs ^ 2 := by
  rw [deviation, sum_sq_sub, ← length_mul_mean xs]
  ring

/-- **A value moves the mean.** -/
theorem mean_concat (xs : List K) (x : K) :
    mean (xs ++ [x]) = mean xs + (x - mean xs) / (xs.length + 1) := by
  have h : (xs.length : K) + 1 ≠ 0 := Nat.cast_add_one_ne_zero xs.length
  have hsum : (xs ++ [x]).sum = xs.length * mean xs + x := by
    rw [List.sum_append, List.sum_singleton, length_mul_mean]
  rw [mean, hsum, List.length_append, List.length_singleton, Nat.cast_add, Nat.cast_one]
  field_simp
  ring

/-- **A value adds to the deviation.** -/
theorem deviation_concat (xs : List K) (x : K) :
    deviation (xs ++ [x]) =
      deviation xs + (x - mean xs) * ((x - mean xs) / (xs.length + 1)) * xs.length := by
  have h : (xs.length : K) + 1 ≠ 0 := Nat.cast_add_one_ne_zero xs.length
  rw [deviation_eq, deviation_eq, mean_concat, List.map_append, List.sum_append, List.map_singleton,
    List.sum_singleton, List.length_append, List.length_singleton, Nat.cast_add, Nat.cast_one]
  field_simp
  ring

end Lib.Moments
