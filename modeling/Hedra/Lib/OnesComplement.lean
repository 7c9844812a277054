/-
# One's complement sums

Numbers up to `m` are added with the carry put back in at the low end.  Such a sum is the plain sum,
cut down to a residue of `m` that is zero only for zero (`sum_eq_reduce`).  So the carries may
be put back in at any time, and a factor may be taken out of the sum.

A checksum is what is missing to `m`.  Put in the place of a zero, it makes the sum come out at `m`
(`sum_complement`).

* `reduce_eq_iff`: when two numbers have one residue;
* `sum_eq_reduce`: the carries may wait;
* `reduce_complement`: the checksum in the place of a zero.
-/
import Mathlib.Algebra.BigOperators.Group.List.Basic
import Mathlib.Algebra.Order.Ring.Nat
import Mathlib.Data.Nat.ModEq

namespace Lib.OnesComplement

/-- Addition with end-around carry. -/
def add (m a b : ℕ) : ℕ := if a + b ≤ m then a + b else a + b - m

def sum (m : ℕ) (ws : List ℕ) : ℕ := ws.foldl (add m) 0

/-- The residue of `m` that is `m` itself for its multiples, but for zero. -/
def reduce (m n : ℕ) : ℕ := if n = 0 then 0 else (n - 1) % m + 1

@[simp] theorem reduce_zero (m : ℕ) : reduce m 0 = 0 := rfl

theorem reduce_eq_zero_iff {m n : ℕ} : reduce m n = 0 ↔ n = 0 := by
  unfold reduce
  split <;> simp_all

theorem reduce_le {m : ℕ} (hm : 0 < m) (n : ℕ) : reduce m n ≤ m := by
  unfold reduce
  split
  · omega
  · exact Nat.mod_lt _ hm

theorem reduce_modEq (m n : ℕ) : reduce m n ≡ n [MOD m] := by
  unfold reduce
  split
  next h => rw [h]
  next h =>
    have hn : n - 1 + 1 = n := by omega
    calc (n - 1) % m + 1 ≡ n - 1 + 1 [MOD m] := (Nat.mod_modEq _ _).add_right 1
      _ = n := hn

/-- Two residues in range are the same when they are congruent, and zero together. -/
theorem eq_of_modEq {m a b : ℕ} (ha : a ≤ m) (hb : b ≤ m) (h : a ≡ b [MOD m])
    (h0 : a = 0 ↔ b = 0) : a = b := by
  rcases Nat.lt_or_eq_of_le ha with ha' | rfl
  · rcases Nat.lt_or_eq_of_le hb with hb' | rfl
    · exact Nat.ModEq.eq_of_lt_of_lt h ha' hb'
    · have : a = 0 := Nat.ModEq.eq_of_lt_of_lt (h.trans (Nat.modEq_zero_iff_dvd.mpr dvd_rfl)) ha'
        (by omega)
      omega
  · rcases Nat.lt_or_eq_of_le hb with hb' | hb'
    · have : b = 0 := Nat.ModEq.eq_of_lt_of_lt
        (h.symm.trans (Nat.modEq_zero_iff_dvd.mpr dvd_rfl)) hb' (by omega)
      omega
    · exact hb'.symm

/-- **What a residue is known by.** -/
theorem reduce_eq {m n x : ℕ} (hm : 0 < m) (hx : x ≤ m) (h : x ≡ n [MOD m]) (h0 : x = 0 ↔ n = 0) :
    reduce m n = x :=
  eq_of_modEq (reduce_le hm n) hx ((reduce_modEq m n).trans h.symm)
    (reduce_eq_zero_iff.trans h0.symm)

theorem reduce_eq_iff {m a b : ℕ} (hm : 0 < m) :
    reduce m a = reduce m b ↔ a ≡ b [MOD m] ∧ (a = 0 ↔ b = 0) := by
  constructor
  · intro h
    refine ⟨(reduce_modEq m a).symm.trans (h ▸ reduce_modEq m b), ?_⟩
    rw [← reduce_eq_zero_iff (m := m), h, reduce_eq_zero_iff]
  · rintro ⟨h, h0⟩
    exact reduce_eq hm (reduce_le hm b) ((reduce_modEq m b).trans h.symm)
      (reduce_eq_zero_iff.trans h0.symm)

theorem reduce_of_le {m n : ℕ} (hm : 0 < m) (h : n ≤ m) : reduce m n = n :=
  reduce_eq hm h rfl Iff.rfl

/-- A carry put back in. -/
theorem add_eq_reduce {m a b : ℕ} (hm : 0 < m) (ha : a ≤ m) (hb : b ≤ m) :
    add m a b = reduce m (a + b) := by
  unfold add
  split
  next h => exact (reduce_of_le hm h).symm
  next h =>
    have hmod : a + b - m ≡ a + b [MOD m] :=
      (Nat.modEq_iff_dvd' (Nat.sub_le _ _)).mpr ⟨1, by omega⟩
    exact (reduce_eq hm (by omega) hmod (by omega)).symm

theorem reduce_reduce_add {m : ℕ} (hm : 0 < m) (a b : ℕ) :
    reduce m (reduce m a + b) = reduce m (a + b) := by
  refine (reduce_eq_iff hm).mpr ⟨(reduce_modEq m a).add_right b, ?_⟩
  simp only [Nat.add_eq_zero_iff, reduce_eq_zero_iff]

theorem reduce_mul_reduce {m : ℕ} (hm : 0 < m) (k n : ℕ) :
    reduce m (k * reduce m n) = reduce m (k * n) := by
  refine (reduce_eq_iff hm).mpr ⟨(reduce_modEq m n).mul_left k, ?_⟩
  simp only [Nat.mul_eq_zero, reduce_eq_zero_iff]

theorem foldl_add_eq_reduce {m : ℕ} (hm : 0 < m) {ws : List ℕ} (h : ∀ w ∈ ws, w ≤ m) {a : ℕ}
    (ha : a ≤ m) : ws.foldl (add m) a = reduce m (a + ws.sum) := by
  induction ws generalizing a with
  | nil => simpa using (reduce_of_le hm ha).symm
  | cons w ws ih =>
    have hw : w ≤ m := h w List.mem_cons_self
    have hstep : add m a w = reduce m (a + w) := add_eq_reduce hm ha hw
    rw [List.foldl_cons, hstep, ih (fun v hv => h v (List.mem_cons_of_mem w hv)) (reduce_le hm _),
      reduce_reduce_add hm, List.sum_cons, Nat.add_assoc]

/-- **The carries may wait.** -/
theorem sum_eq_reduce {m : ℕ} (hm : 0 < m) {ws : List ℕ} (h : ∀ w ∈ ws, w ≤ m) :
    sum m ws = reduce m ws.sum := by
  rw [sum, foldl_add_eq_reduce hm h (Nat.zero_le m), Nat.zero_add]

/-- **The checksum in the place of a zero.** -/
theorem reduce_complement {m : ℕ} (hm : 0 < m) (n : ℕ) :
    reduce m (n + (m - reduce m n)) = m := by
  have hle : reduce m n ≤ m := reduce_le hm n
  refine reduce_eq hm (Nat.le_refl m) ?_ ?_
  · calc m = reduce m n + (m - reduce m n) := by omega
      _ ≡ n + (m - reduce m n) [MOD m] := (reduce_modEq m n).add_right _
  · have h0 : reduce m n = 0 ↔ n = 0 := reduce_eq_zero_iff
    omega

end Lib.OnesComplement
