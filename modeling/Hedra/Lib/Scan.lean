/-
# All matches of a pattern in a text

A pattern takes a match off the front of a text.  The matches of a text are found from the left to
the right, each where the one before it ended, and what no match begins at is passed over.

* `findAll_of_match`: a match at the front is the first of the matches;
* `findAll_skip`: and what no match begins at may be left out.
-/
import Mathlib.Data.List.Basic

namespace Lib.Scan

variable {α β : Type*} (pattern : List α → Option (β × List α))

/-- The matches in a text of at most `n`. -/
def findFrom : ℕ → List α → List β
  | 0, _ => []
  | _ + 1, [] => []
  | n + 1, x :: xs =>
    match pattern (x :: xs) with
    | some (b, rest) => b :: findFrom n rest
    | none => findFrom n xs

def findAll (text : List α) : List β := findFrom pattern text.length text

/-- A match takes something. -/
def Consumes : Prop := ∀ text b rest, pattern text = some (b, rest) → rest.length < text.length

variable {pattern}

theorem findFrom_eq (h : Consumes pattern) {n : ℕ} {text : List α} (hn : text.length ≤ n) :
    findFrom pattern n text = findAll pattern text := by
  have hgen : ∀ n m (text : List α), text.length ≤ n → text.length ≤ m →
      findFrom pattern n text = findFrom pattern m text := by
    intro n
    induction n with
    | zero =>
      intro m text hn _
      rw [List.length_eq_zero_iff.mp (Nat.le_zero.mp hn)]
      cases m <;> rfl
    | succ n ih =>
      intro m text hn hm
      cases text with
      | nil => cases m <;> rfl
      | cons x xs =>
        obtain ⟨m, rfl⟩ := Nat.exists_eq_add_of_lt (Nat.lt_of_lt_of_le (Nat.succ_pos xs.length) hm)
        rw [Nat.zero_add] at hm ⊢
        rw [findFrom, findFrom]
        rw [List.length_cons] at hn hm
        cases hp : pattern (x :: xs) with
        | none => exact ih m xs (by omega) (by omega)
        | some p =>
          have hlt := h _ _ _ hp
          rw [List.length_cons] at hlt
          exact congrArg _ (ih m p.2 (by omega) (by omega))
  exact hgen n _ text hn (Nat.le_refl _)

@[simp] theorem findAll_nil : findAll pattern [] = [] := rfl

theorem findAll_of_match (h : Consumes pattern) {text rest : List α} {b : β}
    (hp : pattern text = some (b, rest)) (hne : text ≠ []) :
    findAll pattern text = b :: findAll pattern rest := by
  obtain ⟨x, xs, rfl⟩ := List.exists_cons_of_ne_nil hne
  have hlt := h _ _ _ hp
  rw [List.length_cons] at hlt
  rw [findAll, List.length_cons, findFrom, hp]
  exact congrArg _ (findFrom_eq h (by omega))

/-- What no match begins at is passed over. -/
theorem findAll_skip {passed : List α} (h : ∀ x ∈ passed, ∀ xs, pattern (x :: xs) = none)
    (rest : List α) : findAll pattern (passed ++ rest) = findAll pattern rest := by
  induction passed with
  | nil => rfl
  | cons x xs ih =>
    rw [List.cons_append, findAll, List.length_cons, findFrom, h x List.mem_cons_self]
    exact ih fun y hy => h y (List.mem_cons_of_mem _ hy)

end Lib.Scan
