/-
# Streaming statistics

`Mean` and `Variance` (`reporting/stats/mean.py`, `variance.py`) keep a count, the mean and the sum
of the squared deviations, and bring them up to date with every value (`Mean.spec`,
`Variance.spec`).  `Median` (`median.py`) keeps the lower half of the values, negated, and the upper
half in a heap each; an update puts the value on its side and moves the value in between over when
one side has become too long (`Median.update_spec`).

Numbers are exact rationals, where the source has floats.

`statistics_eq` puts the three together, for every sequence of values and every priority queue.
-/
import Hedra.Lib.Medians
import Hedra.Lib.Moments
import Mathlib.Algebra.Order.Field.Rat
import Mathlib.Data.List.Induction
import Mathlib.Tactic.Linarith

namespace Hedra
namespace Reporting
namespace Stats

open Lib Medians

/-! ## 1. Mean and variance -/

/-- `Mean` -/
structure Mean where
  size : ℕ := 0
  previousSize : ℕ := 0
  mean : ℚ := 0
  delta : ℚ := 0
  deltaN : ℚ := 0

namespace Mean

def update (m : Mean) (newValue : ℚ) : Mean :=
  let delta := newValue - m.mean
  let deltaN := delta / (m.size + 1 : ℕ)
  { size := m.size + 1
    previousSize := m.size
    mean := m.mean + deltaN
    delta := delta
    deltaN := deltaN }

def get (m : Mean) : ℚ := m.mean

/-- The updates with the values, one after the other. -/
def ofValues (xs : List ℚ) : Mean := xs.foldl update {}

theorem ofValues_concat (xs : List ℚ) (x : ℚ) :
    ofValues (xs ++ [x]) = (ofValues xs).update x := List.foldl_concat ..

@[simp] theorem ofValues_size (xs : List ℚ) : (ofValues xs).size = xs.length := by
  induction xs using List.reverseRecOn with
  | nil => rfl
  | append_singleton xs x ih => rw [ofValues_concat, update, ih, List.length_append]; rfl

/-- **The running mean is the mean.** -/
theorem spec (xs : List ℚ) : (ofValues xs).get = Moments.mean xs := by
  induction xs using List.reverseRecOn with
  | nil => simp [ofValues, get]
  | append_singleton xs x ih =>
    rw [get] at ih
    rw [ofValues_concat, Moments.mean_concat, get, update, ih, ofValues_size, Nat.cast_add,
      Nat.cast_one]

end Mean

/-- `Variance` -/
structure Variance where
  mean : Mean := {}
  t1 : ℚ := 0
  t1Sum : ℚ := 0

namespace Variance

def update (v : Variance) (newValue : ℚ) : Variance :=
  let mean := v.mean.update newValue
  let t1 := mean.delta * mean.deltaN * mean.previousSize
  { mean := mean, t1 := t1, t1Sum := v.t1Sum + t1 }

def get (v : Variance) : ℚ :=
  let divisor : ℚ := v.mean.size - 1
  let divisor := if divisor = 0 then 1 else divisor
  v.t1Sum / divisor

/-- The updates with the values, one after the other. -/
def ofValues (xs : List ℚ) : Variance := xs.foldl update {}

theorem ofValues_concat (xs : List ℚ) (x : ℚ) :
    ofValues (xs ++ [x]) = (ofValues xs).update x := List.foldl_concat ..

theorem ofValues_mean (xs : List ℚ) : (ofValues xs).mean = Mean.ofValues xs := by
  induction xs using List.reverseRecOn with
  | nil => rfl
  | append_singleton xs x ih => rw [ofValues_concat, Mean.ofValues_concat, update, ih]

/-- The sum that is kept. -/
theorem ofValues_t1Sum (xs : List ℚ) : (ofValues xs).t1Sum = Moments.deviation xs := by
  induction xs using List.reverseRecOn with
  | nil => simp [ofValues]
  | append_singleton xs x ih =>
    have hmean : (Mean.ofValues xs).mean = Moments.mean xs := Mean.spec xs
    rw [ofValues_concat, Moments.deviation_concat, update, ih, ofValues_mean, Mean.update, hmean,
      Mean.ofValues_size, Nat.cast_add, Nat.cast_one]

/-- **The running variance is the sample variance.**  Of one value both are zero. -/
theorem spec (xs : List ℚ) : (ofValues xs).get = Moments.sampleVariance xs := by
  rw [get, Moments.sampleVariance, ofValues_t1Sum, ofValues_mean, Mean.ofValues_size]
  split
  next h =>
    have hlen : xs.length = 1 := by
      have : (xs.length : ℚ) = (1 : ℕ) := by rw [Nat.cast_one]; linarith
      exact_mod_cast this
    obtain ⟨x, rfl⟩ := List.length_eq_one_iff.mp hlen
    simp [Moments.deviation, Moments.mean]
  next => rfl

end Variance

/-! ## 2. The median -/

/-- `Median` -/
structure Median where
  minHeap : List ℚ := []
  maxHeap : List ℚ := []

namespace Median

variable (heapq : PriorityQueue ℚ)

/-- The value goes onto a heap. -/
def insert (m : Median) (newValue : ℚ) : Median :=
  match m.minHeap with
  | [] => { m with minHeap := heapq.push m.minHeap newValue }
  | top :: _ =>
    if newValue ≥ top then { m with minHeap := heapq.push m.minHeap newValue }
    else { m with maxHeap := heapq.push m.maxHeap (-1 * newValue) }

/-- The heaps are made even; `heappop` raises on an empty one. -/
def balance (m : Median) : Option Median :=
  if m.minHeap.length > m.maxHeap.length + 1 then
    (heapq.pop m.minHeap).map fun (x, minHeap) =>
      { minHeap := minHeap, maxHeap := heapq.push m.maxHeap (-1 * x) }
  else if m.maxHeap.length > m.minHeap.length then
    (heapq.pop m.maxHeap).map fun (x, maxHeap) =>
      { minHeap := heapq.push m.minHeap (-1 * x), maxHeap := maxHeap }
  else some m

def update (m : Median) (newValue : ℚ) : Option Median := balance heapq (m.insert heapq newValue)

/-- The `IndexError` of a heap that is empty is caught. -/
def get (m : Median) : ℚ :=
  if m.minHeap.length = m.maxHeap.length then
    match m.maxHeap, m.minHeap with
    | a :: _, b :: _ => 1 / 2 * (-1 * a + b)
    | _, _ => 0
  else
    match m.minHeap with
    | b :: _ => b
    | [] => 0

/-- The updates with the values, one after the other. -/
def ofValues (xs : List ℚ) : Option Median := xs.foldlM (update heapq) {}

/-- The lower half. -/
def lower (m : Median) : List ℚ := m.maxHeap.map (-1 * ·)

/-- The heaps hold the values, the greater ones in `minHeap`. -/
structure Split (xs : List ℚ) (m : Median) : Prop where
  min : heapq.Heap m.minHeap
  max : heapq.Heap m.maxHeap
  perm : xs.Perm (m.lower ++ m.minHeap)
  le : ∀ a ∈ m.lower, ∀ b ∈ m.minHeap, a ≤ b

/-- Neither half is too long. -/
structure Halves (xs : List ℚ) (m : Median) : Prop extends Split heapq xs m where
  even : m.minHeap.length = m.maxHeap.length ∨ m.minHeap.length = m.maxHeap.length + 1

variable {heapq} {xs : List ℚ} {m : Median}

/-- A value that belongs into the upper half. -/
theorem Split.push_min (h : Split heapq xs m) {x : ℚ} (hx : ∀ a ∈ m.lower, a ≤ x) :
    Split heapq (xs ++ [x]) { m with minHeap := heapq.push m.minHeap x } where
  min := heapq.heap_push _ x h.min
  max := h.max
  perm := by
    have hpush := (heapq.push_perm m.minHeap x h.min).symm.append_left m.lower
    have hcons : (xs ++ [x]).Perm (x :: (m.lower ++ m.minHeap)) :=
      (List.perm_append_singleton x xs).trans (h.perm.cons x)
    exact (hcons.trans List.perm_middle.symm).trans hpush
  le a ha b hb := by
    rcases List.mem_cons.mp ((heapq.push_perm m.minHeap x h.min).mem_iff.mp hb) with rfl | hb
    · exact hx a ha
    · exact h.le a ha b hb

/-- A value that is pushed onto the other heap negated. -/
theorem lower_push {heap : List ℚ} (h : heapq.Heap heap) (x : ℚ) :
    ((heapq.push heap (-1 * x)).map (-1 * ·)).Perm (x :: heap.map (-1 * ·)) := by
  have hx : -1 * (-1 * x) = x := by ring
  have hpush := (heapq.push_perm heap (-1 * x) h).map (-1 * ·)
  rwa [List.map_cons, hx] at hpush

/-- A value that belongs into the lower half. -/
theorem Split.push_max (h : Split heapq xs m) {x : ℚ} (hx : ∀ b ∈ m.minHeap, x ≤ b) :
    Split heapq (xs ++ [x]) { m with maxHeap := heapq.push m.maxHeap (-1 * x) } where
  min := h.min
  max := heapq.heap_push _ _ h.max
  perm := by
    have hpush := (lower_push h.max x).symm.append_right m.minHeap
    have hcons : (xs ++ [x]).Perm (x :: (m.lower ++ m.minHeap)) :=
      (List.perm_append_singleton x xs).trans (h.perm.cons x)
    exact hcons.trans hpush
  le a ha b hb := by
    rcases List.mem_cons.mp ((lower_push h.max x).mem_iff.mp ha) with rfl | ha
    · exact hx b hb
    · exact h.le a ha b hb

/-- The least of the upper half moves over. -/
theorem Split.pop_min (h : Split heapq xs m) {x : ℚ} {q : List ℚ} (hm : m.minHeap = x :: q) :
    ∃ q', heapq.pop m.minHeap = some (x, q') ∧ q'.length = q.length ∧
      Split heapq xs ⟨q', heapq.push m.maxHeap (-1 * x)⟩ := by
  have hheap : heapq.Heap (x :: q) := hm ▸ h.min
  have hle := h.le
  have hperm := h.perm
  rw [hm] at hle hperm
  obtain ⟨q', hpop, hheap', hq⟩ := heapq.pop_cons q x hheap
  have hpush := lower_push h.max x
  refine ⟨q', hm ▸ hpop, hq.length_eq, hheap', heapq.heap_push _ _ h.max, ?_, fun a ha b hb => ?_⟩
  · exact (hperm.trans List.perm_middle).trans ((hpush.append hq).symm)
  · have hrest : b ∈ q := hq.mem_iff.mp hb
    rcases List.mem_cons.mp (hpush.mem_iff.mp ha) with rfl | ha
    · exact heapq.front_le q a hheap b hrest
    · exact hle a ha b (List.mem_cons_of_mem x hrest)

/-- The greatest of the lower half moves over. -/
theorem Split.pop_max (h : Split heapq xs m) {x : ℚ} {q : List ℚ} (hm : m.maxHeap = x :: q) :
    ∃ q', heapq.pop m.maxHeap = some (x, q') ∧ q'.length = q.length ∧
      Split heapq xs ⟨heapq.push m.minHeap (-1 * x), q'⟩ := by
  have hheap : heapq.Heap (x :: q) := hm ▸ h.max
  have hlow : m.lower = -1 * x :: q.map (-1 * ·) := by rw [lower, hm, List.map_cons]
  have hle := h.le
  have hperm := h.perm
  rw [hlow] at hle hperm
  obtain ⟨q', hpop, hheap', hq⟩ := heapq.pop_cons q x hheap
  have hpush := heapq.push_perm m.minHeap (-1 * x) h.min
  have hmap : (q'.map (-1 * ·)).Perm (q.map (-1 * ·)) := hq.map _
  refine ⟨q', hm ▸ hpop, hq.length_eq, heapq.heap_push _ _ h.min, hheap', ?_, fun a ha b hb => ?_⟩
  · exact (hperm.trans List.perm_middle.symm).trans ((hmap.append hpush).symm)
  · have hrest : a ∈ q.map (-1 * ·) := hmap.mem_iff.mp ha
    rcases List.mem_cons.mp (hpush.mem_iff.mp hb) with rfl | hb
    · obtain ⟨z, hz, rfl⟩ := List.mem_map.mp hrest
      have := heapq.front_le q x hheap z hz
      linarith
    · exact hle a (List.mem_cons_of_mem _ hrest) b hb

theorem Halves.of_nil : Halves heapq [] {} where
  min := heapq.heap_nil
  max := heapq.heap_nil
  perm := .refl []
  le := by simp [lower]
  even := .inl rfl

/-- A value goes onto its side. -/
theorem Halves.insert (h : Halves heapq xs m) (x : ℚ) :
    Split heapq (xs ++ [x]) (m.insert heapq x) ∧
      ((m.insert heapq x).minHeap.length = m.minHeap.length + 1 ∧
          (m.insert heapq x).maxHeap.length = m.maxHeap.length ∨
        (m.insert heapq x).minHeap.length = m.minHeap.length ∧
          (m.insert heapq x).maxHeap.length = m.maxHeap.length + 1) := by
  have hmin := (heapq.push_perm m.minHeap x h.min).length_eq
  have hmax := (heapq.push_perm m.maxHeap (-1 * x) h.max).length_eq
  unfold Median.insert
  split
  next hnil =>
    have hlow : m.lower = [] := by
      have heven := h.even
      rw [hnil, List.length_nil] at heven
      have : m.maxHeap = [] := List.length_eq_zero_iff.mp (by omega)
      rw [lower, this, List.map_nil]
    exact ⟨h.push_min (by simp [hlow]), .inl ⟨hmin, rfl⟩⟩
  next top rest htop =>
    have hmem : top ∈ m.minHeap := by rw [htop]; exact List.mem_cons_self
    split
    next hge => exact ⟨h.push_min fun a ha => (h.le a ha top hmem).trans hge, .inl ⟨hmin, rfl⟩⟩
    next hlt =>
      have hleast : ∀ b ∈ m.minHeap, top ≤ b := by
        have hheap : heapq.Heap (top :: rest) := htop ▸ h.min
        rw [htop]
        exact List.forall_mem_cons.mpr ⟨le_rfl, heapq.front_le rest top hheap⟩
      exact ⟨h.push_max fun b hb => (not_le.mp hlt).le.trans (hleast b hb), .inr ⟨rfl, hmax⟩⟩

/-- The heaps are made even. -/
theorem Split.balance (h : Split heapq xs m) (hmin : m.minHeap.length ≤ m.maxHeap.length + 2)
    (hmax : m.maxHeap.length ≤ m.minHeap.length + 1) :
    ∃ m', m.balance heapq = some m' ∧ Halves heapq xs m' := by
  unfold Median.balance
  split
  next hlong =>
    obtain ⟨x, q, hq⟩ := List.exists_cons_of_length_pos (l := m.minHeap) (by omega)
    obtain ⟨q', hpop, hlen, hsplit⟩ := h.pop_min hq
    have hpush := (heapq.push_perm m.maxHeap (-1 * x) h.max).length_eq
    have hold : m.minHeap.length = q.length + 1 := by rw [hq, List.length_cons]
    rw [List.length_cons] at hpush
    exact ⟨_, by rw [hpop]; rfl, hsplit, by dsimp only; omega⟩
  next hshort =>
    split
    next hlong =>
      obtain ⟨x, q, hq⟩ := List.exists_cons_of_length_pos (l := m.maxHeap) (by omega)
      obtain ⟨q', hpop, hlen, hsplit⟩ := h.pop_max hq
      have hpush := (heapq.push_perm m.minHeap (-1 * x) h.min).length_eq
      have hold : m.maxHeap.length = q.length + 1 := by rw [hq, List.length_cons]
      rw [List.length_cons] at hpush
      exact ⟨_, by rw [hpop]; rfl, hsplit, by dsimp only; omega⟩
    next => exact ⟨m, rfl, h, by omega⟩

/-- **What an update does.** -/
theorem update_spec (h : Halves heapq xs m) (x : ℚ) :
    ∃ m', m.update heapq x = some m' ∧ Halves heapq (xs ++ [x]) m' := by
  obtain ⟨hsplit, hlen⟩ := h.insert x
  have heven := h.even
  exact hsplit.balance (by omega) (by omega)

theorem ofValues_spec (heapq : PriorityQueue ℚ) (xs : List ℚ) :
    ∃ m, ofValues heapq xs = some m ∧ Halves heapq xs m := by
  induction xs using List.reverseRecOn with
  | nil => exact ⟨{}, rfl, Halves.of_nil⟩
  | append_singleton xs x ih =>
    obtain ⟨m, hm, h⟩ := ih
    obtain ⟨m', hm', h'⟩ := update_spec h x
    refine ⟨m', ?_, h'⟩
    rw [ofValues, List.foldlM_append, ← ofValues, hm]
    simpa using hm'

/-- The value in front of the lower half. -/
theorem Split.front_max (h : Split heapq xs m) {a : ℚ} {q : List ℚ} (hm : m.maxHeap = a :: q) :
    -1 * a ∈ m.lower ∧ ∀ x ∈ m.lower, x ≤ -1 * a := by
  have hheap : heapq.Heap (a :: q) := hm ▸ h.max
  rw [lower, hm, List.map_cons]
  refine ⟨List.mem_cons_self, List.forall_mem_cons.mpr ⟨le_rfl, fun x hx => ?_⟩⟩
  obtain ⟨z, hz, rfl⟩ := List.mem_map.mp hx
  have := heapq.front_le q a hheap z hz
  linarith

/-- The value in front of the upper half. -/
theorem Split.front_min (h : Split heapq xs m) {b : ℚ} {q : List ℚ} (hm : m.minHeap = b :: q) :
    b ∈ m.minHeap ∧ ∀ x ∈ m.minHeap, b ≤ x := by
  have hheap : heapq.Heap (b :: q) := hm ▸ h.min
  rw [hm]
  exact ⟨List.mem_cons_self, List.forall_mem_cons.mpr ⟨le_rfl, heapq.front_le q b hheap⟩⟩

/-- **What is read off the halves is the median.** -/
theorem Halves.get_eq (h : Halves heapq xs m) (hne : xs ≠ []) : m.get = median xs := by
  have heven := h.even
  have hlow : m.lower.length = m.maxHeap.length := List.length_map ..
  have hpos : 0 < m.maxHeap.length + m.minHeap.length := by
    have := h.perm.length_eq
    rw [List.length_append, hlow] at this
    rw [← this]
    exact List.length_pos_iff.mpr hne
  obtain ⟨b, u, hmin⟩ := List.exists_cons_of_length_pos (l := m.minHeap) (by omega)
  obtain ⟨hb, hleast⟩ := h.front_min hmin
  unfold get
  split
  next heq =>
    obtain ⟨a, l, hmax⟩ := List.exists_cons_of_length_pos (l := m.maxHeap) (by omega)
    obtain ⟨ha, hgreatest⟩ := h.front_max hmax
    have hmed := median_of_eq h.perm h.le (by omega) ha hgreatest hb hleast
    rw [hmed, hmax, hmin]
    ring
  next hne =>
    rw [hmin]
    exact (median_of_succ h.perm h.le (by omega) hb hleast).symm


end Median

/-! ## 3. The streaming statistics -/

/-- **Mean, variance and median of all values so far.** -/
theorem statistics_eq (heapq : PriorityQueue ℚ) (x : ℚ) (xs : List ℚ) :
    (Mean.ofValues (x :: xs)).get = Moments.mean (x :: xs) ∧
      (Variance.ofValues (x :: xs)).get = Moments.sampleVariance (x :: xs) ∧
      ∃ m, Median.ofValues heapq (x :: xs) = some m ∧ m.get = median (x :: xs) := by
  obtain ⟨m, hm, h⟩ := Median.ofValues_spec heapq (x :: xs)
  exact ⟨Mean.spec _, Variance.spec _, m, hm, h.get_eq (List.cons_ne_nil x xs)⟩

example : (Median.ofValues (PriorityQueue.ofSorted ℚ) [5, 1, 4, 2]).map Median.get = some 3 := by
  decide +kernel

end Stats
end Reporting
end Hedra
