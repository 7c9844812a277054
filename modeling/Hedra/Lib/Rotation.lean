/-
# Turns in rotation

Each of `n` has `size` turns in a row, and then the next one has.  After any number of turns, those who
have had their turns in this round are ahead of the others by `size` at most.

* `count_turns`: the turns that each has had;
* `count_turns_le`: nobody is ahead by more than `size` of them.
-/
import Mathlib.Data.List.Range
import Mathlib.Tactic.Ring

namespace Lib
namespace Rotation

/-- Whose turn it is, after `k` turns. -/
def turn (size n k : ℕ) : ℕ := k / size % n

/-- Whose turns the first `m` are. -/
def turns (size n m : ℕ) : List ℕ := (List.range m).map (turn size n)

variable {size n k : ℕ}

@[simp] theorem turns_zero : turns size n 0 = [] := rfl

theorem turns_succ (size n m : ℕ) : turns size n (m + 1) = turns size n m ++ [turn size n m] := by
  simp [turns, List.range_succ]

@[simp] theorem length_turns (size n m : ℕ) : (turns size n m).length = m := by simp [turns]

@[simp] theorem turn_one (n k : ℕ) : turn 1 n k = k % n := by rw [turn, Nat.div_one]

theorem succ_mod_of_ne (h : (k + 1) % size ≠ 0) : (k + 1) % size = k % size + 1 := by
  have hk := Nat.div_add_mod k size
  have hsucc := Nat.div_add_mod (k + 1) size
  rw [Nat.succ_div_of_mod_ne_zero h] at hsucc
  omega

theorem mod_of_succ_eq (h : (k + 1) % size = 0) : k % size + 1 = size := by
  have hk := Nat.div_add_mod k size
  have hsucc := Nat.div_add_mod (k + 1) size
  rw [Nat.succ_div_of_mod_eq_zero h, Nat.mul_succ, h] at hsucc
  omega

/-- Within a row the turn stays, -/
theorem turn_succ_of_ne (h : (k + 1) % size ≠ 0) : turn size n (k + 1) = turn size n k := by
  rw [turn, Nat.succ_div_of_mod_ne_zero h, turn]

/-- and behind it, it moves on. -/
theorem turn_succ_of_eq (h : (k + 1) % size = 0) : turn size n (k + 1) = (turn size n k + 1) % n := by
  rw [turn, Nat.succ_div_of_mod_eq_zero h, turn, Nat.mod_add_mod]

/-- **The turns that each has had**: `size` in every full round, and in this round all of them, some of
them, or none. -/
theorem count_turns {i : ℕ} (hi : i < n) (m : ℕ) :
    (turns size n m).count i = m / size / n * size +
      if i < turn size n m then size else if i = turn size n m then m % size else 0 := by
  induction m with
  | zero => simp [turn]
  | succ m ih =>
    rw [turns_succ, List.count_append, ih, List.count_singleton]
    by_cases hrow : (m + 1) % size = 0
    · have hlast := mod_of_succ_eq hrow
      rw [turn_succ_of_eq hrow, Nat.succ_div_of_mod_eq_zero hrow, hrow]
      by_cases hround : (m / size + 1) % n = 0
      · have hend : turn size n m + 1 = n := mod_of_succ_eq hround
        rw [Nat.succ_div_of_mod_eq_zero hround, Nat.succ_mul, hend, Nat.mod_self]
        grind
      · have hnext : (turn size n m + 1) % n = turn size n m + 1 := by
          rw [turn, Nat.mod_add_mod, succ_mod_of_ne hround]
        rw [Nat.succ_div_of_mod_ne_zero hround, hnext]
        grind
    · rw [turn_succ_of_ne hrow, Nat.succ_div_of_mod_ne_zero hrow, succ_mod_of_ne hrow]
      grind

/-- **Nobody is ahead by more than `size` turns.** -/
theorem count_turns_le (hsize : 0 < size) {i j : ℕ} (hi : i < n) (hj : j < n) (m : ℕ) :
    (turns size n m).count i ≤ (turns size n m).count j + size := by
  have hmod : m % size < size := Nat.mod_lt _ hsize
  rw [count_turns hi, count_turns hj]
  split <;> split <;> (try split) <;> (try split) <;> omega

end Rotation
end Lib
