/-
# The corrected counts of a stage's streams

The streams of a stage count (`reporting/metric/stage_metrics_summary.py`) completed, succeeded and
failed actions in bins.  When they count more than the stage has recorded, each bin is to give an
equal share of the surplus, a bin that is too small passes its share on, and the last bin gives what
the division leaves over.

A bin that passes its share on does not give anything, and what it passes on is counted twice
(`carried += error`, where `error` has `carried` in it): behind `k` such bins a bin gives `2 ^ k`
shares, not `k + 1`.  What is carried behind the last bin is dropped, and the last bin gives the
remainder whether or not it has so much.  `Spread` says when the outcome is right all the same.

Quotients are exact here; the source cuts a quotient of floats, which is the same below `2 ^ 53`.

* `correct_cons`: what the loop does to one bin;
* `sum_correct`: what it takes in all;
* `streamed_counts_iff`: when the counts of a stage come out.
-/
import Mathlib.Algebra.BigOperators.Ring.Finset
import Mathlib.Algebra.Order.BigOperators.Group.List
import Mathlib.Algebra.Order.Ring.Int
import Mathlib.Algebra.Order.Ring.Nat
import Mathlib.Tactic.Linarith
import Mathlib.Tactic.Ring

namespace Hedra
namespace Reporting
namespace StreamedCounts

/-! ## 1. The code -/

/-- The counts of a `StreamAnalytics`, bin by bin. -/
structure StreamAnalytics where
  intervalCompletedCounts : List ℕ
  intervalSucceededCounts : List ℕ
  intervalFailedCounts : List ℕ

/-- `streamed[idx] += count`, for the counts of a stream. -/
def addCounts : List ℕ → List ℕ → List ℕ
  | bins, [] => bins
  -- there are bins for the longest stream
  | [], _ :: _ => []
  | b :: bins, c :: counts => (b + c) :: addCounts bins counts

/-- `max(len(counts) for counts in streams)` -/
def binsCount (streams : List (List ℕ)) : ℕ := (streams.map List.length).foldl max 0

/-- The sums of the streams' counts. -/
def binned (streams : List (List ℕ)) : List ℕ :=
  streams.foldl addCounts (List.replicate (binsCount streams) 0)

/-- The loop over the bins. -/
def correct (binnedError : ℕ) : ℕ → List ℕ → List ℤ
  | _, [] => []
  | carried, b :: bins =>
    let error := binnedError + carried
    let correctedAmount : ℤ := b - error
    if correctedAmount > 0 then correctedAmount :: correct binnedError 0 bins
    else b :: correct binnedError (carried + error) bins

/-- `streamed[-1] -= remainder_error` -/
def subtractLast (remainderError : ℕ) : List ℤ → List ℤ
  | [] => []
  | [b] => [b - remainderError]
  | b :: b' :: bins => b :: subtractLast remainderError (b' :: bins)

/-- The body of the three functions below, unless it raises. -/
def calculateRateStream (streams : List (List ℕ)) (recorded : ℕ) : Option (List ℤ) :=
  let streamed := binned streams
  if streamed.sum > recorded then
    let streamError := streamed.sum - recorded
    if binsCount streams = 0 then none
    else
      let binnedError := streamError / binsCount streams
      let remainderError := streamError % binsCount streams
      some (subtractLast remainderError (correct binnedError 0 streamed))
  else some (streamed.map Nat.cast)

/-- `_calculate_completed_rate_stream` -/
def calculateCompletedRateStream (streams : List StreamAnalytics) (total : ℕ) : Option (List ℤ) :=
  calculateRateStream (streams.map (·.intervalCompletedCounts)) total

/-- `_calculate_succeeded_rate_stream` -/
def calculateSucceededRateStream (streams : List StreamAnalytics) (succeeded : ℕ) :
    Option (List ℤ) :=
  calculateRateStream (streams.map (·.intervalSucceededCounts)) succeeded

/-- `_calculate_failed_rate_stream` -/
def calculateFailedRateStream (streams : List StreamAnalytics) (failed : ℕ) : Option (List ℤ) :=
  calculateRateStream (streams.map (·.intervalFailedCounts)) failed

/-! ## 2. The bins -/

theorem sum_addCounts {bins counts : List ℕ} (h : counts.length ≤ bins.length) :
    (addCounts bins counts).sum = bins.sum + counts.sum := by
  induction bins, counts using addCounts.induct with
  | case1 bins => simp [addCounts]
  | case2 c counts => simp at h
  | case3 b bins c counts ih =>
    have hlen : counts.length ≤ bins.length := by simpa using h
    rw [addCounts, List.sum_cons, List.sum_cons, List.sum_cons, ih hlen]
    omega

theorem length_addCounts {bins counts : List ℕ} (h : counts.length ≤ bins.length) :
    (addCounts bins counts).length = bins.length := by
  induction bins, counts using addCounts.induct with
  | case1 bins => simp [addCounts]
  | case2 c counts => simp at h
  | case3 b bins c counts ih =>
    rw [addCounts, List.length_cons, List.length_cons, ih (by simpa using h)]

theorem foldl_addCounts {streams : List (List ℕ)} {bins : List ℕ}
    (h : ∀ counts ∈ streams, counts.length ≤ bins.length) :
    (streams.foldl addCounts bins).length = bins.length ∧
      (streams.foldl addCounts bins).sum = bins.sum + (streams.map List.sum).sum := by
  induction streams generalizing bins with
  | nil => simp
  | cons counts streams ih =>
    have hlen := length_addCounts (h counts List.mem_cons_self)
    have hsum := sum_addCounts (h counts List.mem_cons_self)
    have hrest : ∀ c ∈ streams, c.length ≤ (addCounts bins counts).length := fun c hc => by
      rw [hlen]
      exact h c (List.mem_cons_of_mem counts hc)
    obtain ⟨ihlen, ihsum⟩ := ih hrest
    rw [List.foldl_cons, List.map_cons, List.sum_cons, ihlen, ihsum, hlen, hsum]
    exact ⟨rfl, by omega⟩

theorem le_foldl_max (ns : List ℕ) (a : ℕ) : a ≤ ns.foldl max a ∧ ∀ n ∈ ns, n ≤ ns.foldl max a := by
  induction ns generalizing a with
  | nil => simp
  | cons n ns ih =>
    obtain ⟨ha, hall⟩ := ih (max a n)
    rw [List.foldl_cons]
    exact ⟨(le_max_left a n).trans ha,
      List.forall_mem_cons.mpr ⟨(le_max_right a n).trans ha, hall⟩⟩

theorem length_le_binsCount {streams : List (List ℕ)} {counts : List ℕ} (h : counts ∈ streams) :
    counts.length ≤ binsCount streams :=
  (le_foldl_max _ 0).2 _ (List.mem_map_of_mem h)

/-- **No count is lost in the bins.** -/
theorem binned_spec (streams : List (List ℕ)) :
    (binned streams).length = binsCount streams ∧
      (binned streams).sum = (streams.map List.sum).sum := by
  have hlen : ∀ counts ∈ streams,
      counts.length ≤ (List.replicate (binsCount streams) 0).length := fun counts hc => by
    rw [List.length_replicate]
    exact length_le_binsCount hc
  simpa [binned] using foldl_addCounts hlen

/-! ## 3. What the loop takes -/

/-- How many shares fewer than one a bin are given, behind `k` bins that have passed theirs on. -/
def owed (share : ℕ) : ℕ → List ℕ → ℤ
  | k, [] => k
  | k, b :: bins =>
    if 2 ^ k * share < b then (k + 1 - 2 ^ k) + owed share 0 bins else owed share (k + 1) bins

/-- What the loop leaves in the last bin. -/
def leftLast (share : ℕ) : ℕ → List ℕ → ℕ
  | _, [] => 0
  | k, [b] => if 2 ^ k * share < b then b - 2 ^ k * share else b
  | k, b :: b' :: bins =>
    if 2 ^ k * share < b then leftLast share 0 (b' :: bins) else leftLast share (k + 1) (b' :: bins)

/-- What is carried behind `k` bins. -/
def carriedBy (share k : ℕ) : ℕ := (2 ^ k - 1) * share

theorem add_carriedBy (share k : ℕ) : share + carriedBy share k = 2 ^ k * share := by
  have h : 2 ^ k = 2 ^ k - 1 + 1 := (Nat.sub_add_cancel Nat.one_le_two_pow).symm
  calc share + (2 ^ k - 1) * share = (2 ^ k - 1 + 1) * share := by ring
    _ = 2 ^ k * share := by rw [← h]

theorem carriedBy_succ (share k : ℕ) :
    carriedBy share k + (share + carriedBy share k) = carriedBy share (k + 1) := by
  have h := add_carriedBy share k
  have h' := add_carriedBy share (k + 1)
  rw [pow_succ] at h'
  linarith

/-- **One bin.** -/
theorem correct_cons (share k b : ℕ) (bins : List ℕ) :
    correct share (carriedBy share k) (b :: bins) =
      if 2 ^ k * share < b then
        ((b - 2 ^ k * share : ℕ) : ℤ) :: correct share (carriedBy share 0) bins
      else (b : ℤ) :: correct share (carriedBy share (k + 1)) bins := by
  have hzero : carriedBy share 0 = 0 := by simp [carriedBy]
  rw [correct, add_carriedBy, ← carriedBy_succ, add_carriedBy, hzero]
  split
  next h =>
    have hlt : 2 ^ k * share < b := by omega
    rw [if_pos hlt, Nat.cast_sub hlt.le]
  next h => rw [if_neg (by omega)]

/-- **What the loop takes in all.** -/
theorem sum_correct (share k : ℕ) (bins : List ℕ) :
    (correct share (carriedBy share k) bins).sum =
      bins.sum - share * (bins.length + k - owed share k bins) := by
  induction bins generalizing k with
  | nil => simp [correct, owed]
  | cons b bins ih =>
    rw [correct_cons, owed]
    split
    next h =>
      rw [List.sum_cons, ih 0, Nat.cast_sub h.le]
      push_cast [List.sum_cons, List.length_cons]
      ring
    next h =>
      rw [List.sum_cons, ih (k + 1)]
      push_cast [List.sum_cons, List.length_cons]
      ring

/-- Every bin but the last is left with something that is not negative, and the last one with
`leftLast`. -/
theorem forall_subtractLast_iff (share rest k : ℕ) (bins : List ℕ) :
    (∀ b ∈ subtractLast rest (correct share (carriedBy share k) bins), 0 ≤ b) ↔
      bins = [] ∨ rest ≤ leftLast share k bins := by
  induction bins generalizing k with
  | nil => simp [correct, subtractLast]
  | cons b bins ih =>
    rw [correct_cons]
    cases bins with
    | nil =>
      have hsub : ∀ x : ℕ, (∀ b ∈ subtractLast rest [(x : ℤ)], 0 ≤ b) ↔ rest ≤ x := fun x => by
        simp [subtractLast]
      simp only [correct, leftLast]
      split
      next => simpa using hsub _
      next => simpa using hsub b
    | cons b' bins =>
      have hsub : ∀ (x : ℕ) (j : ℕ),
          (∀ c ∈ subtractLast rest ((x : ℤ) :: correct share (carriedBy share j) (b' :: bins)),
            0 ≤ c) ↔ rest ≤ leftLast share j (b' :: bins) := fun x j => by
        have hcons : ∃ y ys, correct share (carriedBy share j) (b' :: bins) = y :: ys := by
          rw [correct_cons]
          split <;> exact ⟨_, _, rfl⟩
        obtain ⟨y, ys, hy⟩ := hcons
        have hrec := ih j
        rw [hy] at hrec ⊢
        rw [subtractLast, List.forall_mem_cons, hrec]
        simp
      simp only [leftLast]
      split
      next => simpa using hsub _ 0
      next => simpa using hsub b (k + 1)

theorem sum_subtractLast {rest : ℕ} {bins : List ℤ} (h : bins ≠ []) :
    (subtractLast rest bins).sum = bins.sum - rest := by
  induction bins using subtractLast.induct with
  | case1 => exact absurd rfl h
  | case2 b => simp [subtractLast]
  | case3 b b' bins ih =>
    rw [subtractLast, List.sum_cons, List.sum_cons, ih (List.cons_ne_nil b' bins)]
    ring

/-! ## 4. When the counts come out right -/

/-- The surplus can be spread: it is smaller than the number of bins, or the bins that give too much
make up for the ones at the end that give nothing; and the last bin has the remainder. -/
def Spread (bins : List ℕ) (recorded : ℕ) : Prop :=
  let surplus := bins.sum - recorded
  let share := surplus / bins.length
  (share = 0 ∨ owed share 0 bins = 0) ∧ surplus % bins.length ≤ leftLast share 0 bins

instance (bins : List ℕ) (recorded : ℕ) : Decidable (Spread bins recorded) :=
  inferInstanceAs (Decidable ((_ ∨ _) ∧ _ ≤ _))

/-- No count is negative, and together they are what the stage has recorded. -/
def Corrected (counts : Option (List ℤ)) (recorded : ℕ) : Prop :=
  ∃ bins, counts = some bins ∧ (∀ b ∈ bins, 0 ≤ b) ∧ bins.sum = recorded

theorem spread_of_sum_eq {bins : List ℕ} {recorded : ℕ} (h : bins.sum = recorded) :
    Spread bins recorded := by
  have hzero : bins.sum - recorded = 0 := by omega
  simp [Spread, hzero]

/-- The correction of a surplus. -/
theorem corrected_of_lt {bins : List ℕ} {recorded : ℕ} (h : recorded < bins.sum) :
    Corrected (some (subtractLast ((bins.sum - recorded) % bins.length)
      (correct ((bins.sum - recorded) / bins.length) 0 bins))) recorded ↔ Spread bins recorded := by
  have hne : bins ≠ [] := by rintro rfl; simp at h
  have hzero : carriedBy ((bins.sum - recorded) / bins.length) 0 = 0 := by simp [carriedBy]
  have hdiv := Nat.div_add_mod (bins.sum - recorded) bins.length
  unfold Spread Corrected
  dsimp only
  generalize (bins.sum - recorded) / bins.length = share at *
  generalize (bins.sum - recorded) % bins.length = rest at *
  have hnonneg := forall_subtractLast_iff share rest 0 bins
  have hsum := sum_correct share 0 bins
  rw [hzero] at hnonneg hsum
  have hcorrect : correct share 0 bins ≠ [] := by
    obtain ⟨b, bs, rfl⟩ := List.exists_cons_of_ne_nil hne
    rw [← hzero, correct_cons]
    split <;> exact List.cons_ne_nil _ _
  -- what is taken is the surplus but for the shares that are owed
  have htaken : (subtractLast rest (correct share 0 bins)).sum =
      recorded + share * owed share 0 bins := by
    have hint : (bins.length : ℤ) * share + rest = bins.sum - recorded := by
      rw [← Nat.cast_sub h.le, ← hdiv]
      push_cast
      ring
    rw [sum_subtractLast hcorrect, hsum, Nat.cast_zero]
    linarith
  simp only [Option.some.injEq, exists_eq_left', hnonneg, hne, false_or, htaken]
  rw [add_eq_left, mul_eq_zero, Nat.cast_eq_zero]
  exact and_comm

/-- **The three functions.** -/
theorem corrected_iff {streams : List (List ℕ)} {recorded : ℕ}
    (h : recorded ≤ (streams.map List.sum).sum) :
    Corrected (calculateRateStream streams recorded) recorded ↔ Spread (binned streams) recorded := by
  obtain ⟨hlen, hsum⟩ := binned_spec streams
  unfold calculateRateStream
  dsimp only
  split
  next hgt =>
    have hcount : binsCount streams ≠ 0 := by
      intro hzero
      have : binned streams = [] := List.length_eq_zero_iff.mp (hlen.trans hzero)
      simp [this] at hgt
    rw [if_neg hcount, ← hlen]
    exact corrected_of_lt hgt
  next hle =>
    have heq : (binned streams).sum = recorded := by omega
    refine iff_of_true ⟨_, rfl, ?_, ?_⟩ (spread_of_sum_eq heq)
    · intro b hb
      obtain ⟨n, _, rfl⟩ := List.mem_map.mp hb
      exact Int.natCast_nonneg n
    · rw [← heq, Nat.cast_list_sum]

/-- **The counts of a stage.** -/
theorem streamed_counts_iff (stream : StreamAnalytics) (streams : List StreamAnalytics)
    {total succeeded failed : ℕ}
    (htotal : total ≤ ((stream :: streams).map (·.intervalCompletedCounts.sum)).sum)
    (hsucceeded : succeeded ≤ ((stream :: streams).map (·.intervalSucceededCounts.sum)).sum)
    (hfailed : failed ≤ ((stream :: streams).map (·.intervalFailedCounts.sum)).sum) :
    (Corrected (calculateCompletedRateStream (stream :: streams) total) total ↔
        Spread (binned ((stream :: streams).map (·.intervalCompletedCounts))) total) ∧
      (Corrected (calculateSucceededRateStream (stream :: streams) succeeded) succeeded ↔
        Spread (binned ((stream :: streams).map (·.intervalSucceededCounts))) succeeded) ∧
      (Corrected (calculateFailedRateStream (stream :: streams) failed) failed ↔
        Spread (binned ((stream :: streams).map (·.intervalFailedCounts))) failed) :=
  ⟨corrected_iff (by simpa [Function.comp_def] using htotal),
    corrected_iff (by simpa [Function.comp_def] using hsucceeded),
    corrected_iff (by simpa [Function.comp_def] using hfailed)⟩

theorem streamed_counts_iff_one :
    (1 ≤ 7 ∧ 7 ≤ 7 ∧ 0 ≤ 0) ∧
      (Corrected (calculateCompletedRateStream [⟨[5, 2], [5, 2], [0, 0]⟩] 1) 1 ↔
          Spread (binned [[5, 2]]) 1) ∧
        (Corrected (calculateSucceededRateStream [⟨[5, 2], [5, 2], [0, 0]⟩] 7) 7 ↔
          Spread (binned [[5, 2]]) 7) ∧
        (Corrected (calculateFailedRateStream [⟨[5, 2], [5, 2], [0, 0]⟩] 0) 0 ↔
          Spread (binned [[0, 0]]) 0) :=
  ⟨by decide, streamed_counts_iff ⟨[5, 2], [5, 2], [0, 0]⟩ [] (by decide) (by decide) (by decide)⟩

/-- One action more in the streams than on record, and none in the last bin. -/
theorem streamed_last_bin :
    calculateCompletedRateStream [⟨[5, 0], [5, 0], [0, 0]⟩] 4 = some [5, -1] ∧
      ¬ Corrected (calculateCompletedRateStream [⟨[5, 0], [5, 0], [0, 0]⟩] 4) 4 := by
  have h : calculateCompletedRateStream [⟨[5, 0], [5, 0], [0, 0]⟩] 4 = some [5, -1] := by decide
  refine ⟨h, ?_⟩
  rintro ⟨bins, hbins, hnonneg, -⟩
  obtain rfl : bins = [5, -1] := Option.some.inj (hbins.symm.trans h)
  exact absurd (hnonneg (-1) (by decide)) (by decide)

end StreamedCounts
end Reporting
end Hedra
