/-
# Shares

A total is divided over a number of workers: each gets the same, and the last one what is left over
besides.  A list is divided in the same way, by its places.

* `sum_shares`: what all of them get is the total;
* `flatten_pieces`: the pieces side by side are the front of the list.
-/
import Mathlib.Algebra.BigOperators.Group.List.Basic
import Mathlib.Algebra.GroupWithZero.Nat
import Mathlib.Data.List.Basic

namespace Lib
namespace Shares

variable {α : Type*}

/-! ## 1. Numbers -/

/-- What the worker with the number `idx` gets. -/
def share (workers each rest idx : ℕ) : ℕ := if idx + 1 = workers then each + rest else each

/-- What the workers get, one after the other. -/
def shares (workers each rest : ℕ) : List ℕ := (List.range workers).map (share workers each rest)

theorem share_last (workers each rest : ℕ) : share (workers + 1) each rest workers = each + rest :=
  if_pos rfl

theorem share_of_lt {workers idx : ℕ} (h : idx < workers) (each rest : ℕ) :
    share (workers + 1) each rest idx = each :=
  if_neg (by omega)

theorem le_share (workers each rest idx : ℕ) : each ≤ share workers each rest idx := by
  rw [share]
  split
  · exact Nat.le_add_right each rest
  · exact Nat.le_refl each

theorem shares_succ (workers each rest : ℕ) :
    shares (workers + 1) each rest = List.replicate workers each ++ [each + rest] := by
  have hinit : (List.range workers).map (share (workers + 1) each rest) =
      List.replicate workers each := by
    rw [List.eq_replicate_iff]
    refine ⟨by rw [List.length_map, List.length_range], fun x hx => ?_⟩
    obtain ⟨idx, hidx, rfl⟩ := List.mem_map.mp hx
    exact share_of_lt (List.mem_range.mp hidx) each rest
  rw [shares, List.range_succ, List.map_append, hinit, List.map_singleton, share_last]

/-- **What all of them get.** -/
theorem sum_shares {workers : ℕ} (h : 0 < workers) (each rest : ℕ) :
    (shares workers each rest).sum = workers * each + rest := by
  obtain ⟨n, rfl⟩ := Nat.exists_eq_succ_of_ne_zero (Nat.pos_iff_ne_zero.mp h)
  rw [shares_succ, List.sum_append, List.sum_replicate_nat, List.sum_singleton, Nat.succ_mul,
    Nat.add_assoc]

/-- With the quotient and the remainder nothing is lost. -/
theorem sum_shares_div_mod {workers : ℕ} (h : 0 < workers) (total : ℕ) :
    (shares workers (total / workers) (total % workers)).sum = total := by
  rw [sum_shares h, Nat.div_add_mod]

/-! ## 2. Lists -/

/-- Pieces of one size, from the front. -/
def pieces (size : ℕ) (xs : List α) (workers : ℕ) : List (List α) :=
  (List.range workers).map fun idx => (xs.drop (idx * size)).take size

theorem pieces_succ (size : ℕ) (xs : List α) (workers : ℕ) :
    pieces size xs (workers + 1) = pieces size xs workers ++ [(xs.drop (workers * size)).take size] := by
  rw [pieces, List.range_succ, List.map_append, ← pieces, List.map_singleton]

/-- **Side by side they are the front of the list.** -/
theorem flatten_pieces (size : ℕ) (xs : List α) (workers : ℕ) :
    (pieces size xs workers).flatten = xs.take (workers * size) := by
  induction workers with
  | zero => rw [Nat.zero_mul]; rfl
  | succ workers ih =>
    rw [pieces_succ, List.flatten_append, ih, List.flatten_singleton, Nat.succ_mul, List.take_add]

end Shares
end Lib
