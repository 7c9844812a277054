/-
# Reading a stream in pieces

A reader takes items off the front of what it has received.  A pass takes off the next one, or
waits when it is not there as a whole.  What a pass does to the front of the input does not depend
on what comes behind it; so it does not matter into which pieces the input is cut.

* `drain_extend`: more input after draining is more input before it;
* `feed_eq_drain`: so the pieces do not matter;
* `flatten_groups`: each item gets whole with one of the pieces.
-/
import Mathlib.Algebra.GroupWithZero.Nat
import Mathlib.Data.List.Basic

namespace Lib

/-- A reader of a stream of `α`, with the states `σ`.  It delivers items `β`, or fails with `ε`. -/
structure Reader (σ α β ε : Type*) where
  /-- `none` when the reader has to wait.  A pass may deliver nothing. -/
  pass : σ → Option (Except ε (σ × Option β))
  /-- More input. -/
  extend : σ → List α → σ
  /-- How much the reader has not taken off yet. -/
  size : σ → Nat
  extend_nil : ∀ s, extend s [] = s
  extend_append : ∀ s c d, extend (extend s c) d = extend s (c ++ d)
  pass_extend : ∀ s c r, pass s = some r →
    pass (extend s c) = some (r.map fun p => (extend p.1 c, p.2))
  size_lt : ∀ s s' b, pass s = some (.ok (s', b)) → size s' < size s

namespace Reader

variable {σ α β ε : Type*} (R : Reader σ α β ε)

/-- Go on from where a reader has stopped, if it has not failed. -/
def andThen : List β × Except ε σ → (σ → List β × Except ε σ) → List β × Except ε σ
  | (bs, .error e), _ => (bs, .error e)
  | (bs, .ok s), f => (bs ++ (f s).1, (f s).2)

/-- At most so many passes. -/
def iterate : Nat → σ → List β × Except ε σ
  | 0, s => ([], .ok s)
  | n + 1, s =>
    match R.pass s with
    | none => ([], .ok s)
    | some (.error e) => ([], .error e)
    | some (.ok (s', b)) => (b.toList ++ (iterate n s').1, (iterate n s').2)

/-- Passes until the reader waits or fails. -/
def drain (s : σ) : List β × Except ε σ := R.iterate (R.size s + 1) s

/-- The input in pieces. -/
def feed : σ → List (List α) → List β × Except ε σ
  | s, [] => ([], .ok s)
  | s, c :: cs => andThen (R.drain (R.extend s c)) fun s' => feed s' cs

variable {R} {s s' : σ} {b : Option β} {e : ε}

/-! ## 1. Draining -/

theorem iterate_congr : ∀ {n m : Nat} {s : σ}, R.size s < n → R.size s < m →
    R.iterate n s = R.iterate m s
  | 0, _, _, hn, _ => absurd hn (Nat.not_lt_zero _)
  | _, 0, _, _, hm => absurd hm (Nat.not_lt_zero _)
  | n + 1, m + 1, s, hn, hm => by
    unfold iterate
    split
    · rfl
    · rfl
    · next s' b hp =>
      have hlt := R.size_lt s s' b hp
      rw [iterate_congr (n := n) (m := m) (by omega) (by omega)]

theorem drain_of_wait (h : R.pass s = none) : R.drain s = ([], .ok s) := by
  unfold drain iterate
  rw [h]

theorem drain_of_error (h : R.pass s = some (.error e)) : R.drain s = ([], .error e) := by
  unfold drain iterate
  rw [h]

theorem drain_of_pass (h : R.pass s = some (.ok (s', b))) :
    R.drain s = (b.toList ++ (R.drain s').1, (R.drain s').2) := by
  have hlt := R.size_lt s s' b h
  unfold drain
  conv_lhs => unfold iterate
  rw [h]
  simp only [iterate_congr (n := R.size s) (m := R.size s' + 1) hlt (Nat.lt_succ_self _)]

/-- The induction over the passes. -/
theorem drain_induction {P : σ → Prop} (wait : ∀ s, R.pass s = none → P s)
    (error : ∀ s e, R.pass s = some (.error e) → P s)
    (pass : ∀ s s' b, R.pass s = some (.ok (s', b)) → P s' → P s) (s : σ) : P s := by
  induction hn : R.size s using Nat.strongRecOn generalizing s with
  | _ n ih =>
    rcases hp : R.pass s with _ | e | ⟨s', b⟩
    · exact wait s hp
    · exact error s e hp
    · exact pass s s' b hp (ih (R.size s') (hn ▸ R.size_lt s s' b hp) s' rfl)

/-- A reader that has drained its input waits. -/
theorem pass_of_drain {bs : List β} (h : R.drain s = (bs, .ok s')) : R.pass s' = none := by
  induction s using R.drain_induction generalizing bs with
  | wait s hp =>
    rw [drain_of_wait hp, Prod.mk.injEq, Except.ok.injEq] at h
    exact h.2 ▸ hp
  | error s e hp =>
    rw [drain_of_error hp] at h
    cases h
  | pass s t b hp ih =>
    rw [drain_of_pass hp, Prod.mk.injEq] at h
    exact ih (Prod.ext rfl h.2)

/-- **More input after draining, or before it.** -/
theorem drain_extend (s : σ) (c : List α) :
    R.drain (R.extend s c) = andThen (R.drain s) fun s' => R.drain (R.extend s' c) := by
  induction s using R.drain_induction with
  | wait s hp =>
    rw [drain_of_wait hp]
    rfl
  | error s e hp =>
    rw [drain_of_error hp, drain_of_error (R.pass_extend s c _ hp)]
    rfl
  | pass s t b hp ih =>
    rw [drain_of_pass hp, drain_of_pass (R.pass_extend s c _ hp), ih]
    rcases R.drain t with ⟨bs, e | t'⟩
    · rfl
    · simp only [andThen, List.append_assoc]

/-! ## 2. Pieces -/

/-- **The pieces do not matter.** -/
theorem feed_eq_drain (h : R.pass s = none) (cs : List (List α)) :
    R.feed s cs = R.drain (R.extend s cs.flatten) := by
  induction cs generalizing s with
  | nil => rw [List.flatten_nil, R.extend_nil, drain_of_wait h, feed]
  | cons c cs ih =>
    rw [feed, List.flatten_cons, ← R.extend_append, drain_extend (R.extend s c)]
    rcases hd : R.drain (R.extend s c) with ⟨bs, e | t⟩
    · rfl
    · simp only [andThen, ih (pass_of_drain hd)]

end Reader

/-! ## 3. Items that get whole -/

section Whole

variable {ι : Type*} (len : ι → Nat)

/-- The items that are there as a whole, when there is so much of their stream, and the others. -/
def whole : Nat → List ι → List ι × List ι
  | _, [] => ([], [])
  | n, i :: is =>
    if len i ≤ n then (i :: (whole (n - len i) is).1, (whole (n - len i) is).2) else ([], i :: is)

/-- The items that get whole with each piece of the stream.  There is `n` of it already, and the
pieces have these lengths. -/
def groups : Nat → List ι → List Nat → List (List ι)
  | _, _, [] => []
  | n, is, k :: ks =>
    let (now, later) := whole len (n + k) is
    now :: groups (n + k - (now.map len).sum) later ks

variable {len}

theorem whole_append : ∀ (n : Nat) (is : List ι), (whole len n is).1 ++ (whole len n is).2 = is
  | _, [] => rfl
  | n, i :: is => by
    unfold whole
    split
    · rw [List.cons_append, whole_append]
    · rfl

theorem sum_whole_le : ∀ (n : Nat) (is : List ι), ((whole len n is).1.map len).sum ≤ n
  | _, [] => Nat.zero_le _
  | n, i :: is => by
    unfold whole
    split
    · next h =>
      have ih := sum_whole_le (n - len i) is
      rw [List.map_cons, List.sum_cons]
      omega
    · exact Nat.zero_le _

/-- What is left over is no whole item. -/
theorem whole_rest : ∀ (n : Nat) (is : List ι),
    (whole len (n - ((whole len n is).1.map len).sum) (whole len n is).2).1 = []
  | _, [] => rfl
  | n, i :: is => by
    by_cases h : len i ≤ n
    · have hnow : whole len n (i :: is) =
          (i :: (whole len (n - len i) is).1, (whole len (n - len i) is).2) := if_pos h
      have ih := whole_rest (n - len i) is
      rw [Nat.sub_sub] at ih
      rw [hnow, List.map_cons, List.sum_cons]
      exact ih
    · have hnow : whole len n (i :: is) = ([], i :: is) := if_neg h
      rw [hnow, List.map_nil, List.sum_nil, Nat.sub_zero, hnow]

theorem groups_nil {n : Nat} {ks : List Nat} {g : List ι} (h : g ∈ groups len n [] ks) : g = [] := by
  induction ks generalizing n with
  | nil => cases h
  | cons k ks ih =>
    rcases List.mem_cons.mp h with rfl | h
    · rfl
    · exact ih h

/-- Items of which nothing is missing are whole. -/
theorem whole_of_le : ∀ {n : Nat} {is : List ι}, (is.map len).sum ≤ n → whole len n is = (is, [])
  | _, [], _ => rfl
  | n, i :: is, h => by
    rw [List.map_cons, List.sum_cons] at h
    unfold whole
    rw [if_pos (by omega), whole_of_le (n := n - len i) (by omega)]

/-- **Each item gets whole with one of the pieces.** -/
theorem flatten_groups {ks : List Nat} : ∀ {n : Nat} {is : List ι},
    (whole len n is).1 = [] → n + ks.sum = (is.map len).sum → (groups len n is ks).flatten = is := by
  induction ks with
  | nil =>
    intro n is hwait hsum
    rw [List.sum_nil, Nat.add_zero] at hsum
    rw [whole_of_le (Nat.le_of_eq hsum.symm)] at hwait
    exact hwait.symm
  | cons k ks ih =>
    intro n is _ hsum
    have happ : (whole len (n + k) is).1 ++ (whole len (n + k) is).2 = is := whole_append (n + k) is
    have hlen := congrArg (fun l => (l.map len).sum) happ
    simp only [List.map_append, List.sum_append] at hlen
    have hle : ((whole len (n + k) is).1.map len).sum ≤ n + k := sum_whole_le (n + k) is
    rw [List.sum_cons] at hsum
    simp only [groups, List.flatten_cons]
    rw [ih (whole_rest _ _) (by omega), happ]

end Whole

end Lib
