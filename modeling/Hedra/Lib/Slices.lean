/-
# Lists by signed indices

A negative index counts from the end of the list.  The bounds of a slice are cut down to the list;
an index that stands for an item has to be in it.

* `length_deleteSlice`: what is deleted is the slice;
* `deleteSlice_eq_self_iff`: nothing is deleted exactly if the slice is empty;
* `delete_ne_self`: an item that is deleted is gone.
-/
import Mathlib.Data.List.Basic
import Mathlib.Data.Int.Init

namespace Lib.Slices

variable {α : Type*}

/-- A bound of a slice of a list of that length. -/
def bound (length : ℕ) (i : ℤ) : ℕ := min (if 0 ≤ i then i else length + i).toNat length

/-- The place of an item. -/
def place (length : ℕ) (i : ℤ) : Option ℕ :=
  let i := if 0 ≤ i then i else length + i
  if 0 ≤ i ∧ i < length then some i.toNat else none

/-- `xs[i]` -/
def item (xs : List α) (i : ℤ) : Option α := (place xs.length i).bind fun n => xs[n]?

/-- `xs.insert(i, x)` -/
def insert (xs : List α) (i : ℤ) (x : α) : List α :=
  xs.take (bound xs.length i) ++ x :: xs.drop (bound xs.length i)

/-- `del xs[i]` -/
def delete (xs : List α) (i : ℤ) : Option (List α) := (place xs.length i).map xs.eraseIdx

/-- The bounds of `xs[start:stop]`. -/
def bounds (length : ℕ) (start stop : Option ℤ) : ℕ × ℕ :=
  ((start.map (bound length)).getD 0, (stop.map (bound length)).getD length)

/-- `xs[start:stop]` -/
def slice (xs : List α) (start stop : Option ℤ) : List α :=
  let (i, j) := bounds xs.length start stop
  (xs.drop i).take (j - i)

/-- `del xs[start:stop]` -/
def deleteSlice (xs : List α) (start stop : Option ℤ) : List α :=
  let (i, j) := bounds xs.length start stop
  xs.take i ++ xs.drop (max i j)

/-- A list with one item more. -/
theorem getElem?_concat_eq (xs : List α) (x : α) (n : ℕ) :
    (xs ++ [x])[n]? = if n = xs.length then some x else xs[n]? := by
  rcases Nat.lt_trichotomy n xs.length with h | rfl | h
  · rw [if_neg (by omega), List.getElem?_append_left h]
  · rw [if_pos rfl, List.getElem?_concat_length]
  · rw [if_neg (by omega), List.getElem?_eq_none (by simp; omega), List.getElem?_eq_none (by omega)]

theorem bound_le (length : ℕ) (i : ℤ) : bound length i ≤ length := Nat.min_le_right _ _

theorem bounds_le (length : ℕ) (start stop : Option ℤ) :
    (bounds length start stop).1 ≤ length ∧ (bounds length start stop).2 ≤ length := by
  constructor
  · cases start with
    | none => exact Nat.zero_le length
    | some i => exact bound_le length i
  · cases stop with
    | none => exact Nat.le_refl length
    | some j => exact bound_le length j

/-- **What is deleted is the slice.** -/
theorem length_deleteSlice (xs : List α) (start stop : Option ℤ) :
    (deleteSlice xs start stop).length + (slice xs start stop).length = xs.length := by
  have hle := bounds_le xs.length start stop
  simp only [deleteSlice, slice, List.length_append, List.length_take, List.length_drop]
  omega

theorem deleteSlice_eq_self_iff {xs : List α} {start stop : Option ℤ} :
    deleteSlice xs start stop = xs ↔ slice xs start stop = [] := by
  have hlen := length_deleteSlice xs start stop
  constructor
  · intro h
    rw [h] at hlen
    exact List.length_eq_zero_iff.mp (by omega)
  · intro h
    have hle := bounds_le xs.length start stop
    have hempty : (slice xs start stop).length = 0 := by rw [h, List.length_nil]
    simp only [slice, List.length_take, List.length_drop] at hempty
    simp only [deleteSlice]
    rw [Nat.max_eq_left (by omega), List.take_append_drop]

theorem place_lt {length n : ℕ} {i : ℤ} (h : place length i = some n) : n < length := by
  unfold place at h
  dsimp only at h
  rw [Option.ite_none_right_eq_some, Option.some.injEq] at h
  omega

theorem delete_ne_self {xs xs' : List α} {i : ℤ} (h : delete xs i = some xs') : xs' ≠ xs := by
  obtain ⟨n, hn, rfl⟩ := Option.map_eq_some_iff.mp h
  have hlt := place_lt hn
  intro heq
  have hlen := congrArg List.length heq
  rw [List.length_eraseIdx_of_lt hlt] at hlen
  omega

end Lib.Slices
