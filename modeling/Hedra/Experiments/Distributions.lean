/-
# Generated load distributions

`generate_distribution` (`core/experiments/distributions/types/base.py`) draws samples, walks along
them between two bounds, smooths the walk, scales it by the batch size and takes means of it.  How
many samples, and how far apart the means are, depends on the size, in four ranges; in each of them
there are as many means as the size says.  The walk stays within its bounds, and smoothing, also of
the tail, and averaging leave it above zero and below its upper bound: every interval is an integer
between one and the batch size.

The floats are exact rationals here, and `convolve` and `mean` what they are defined to be.

* `distributionSize_eq`: in each range the samples are enough for the steps;
* `walk_bounds`: the walk stays between its bounds;
* `generated_intervals`: as many intervals as the size says, each between one and the batch size.
-/
import Mathlib.Data.Nat.Sqrt
import Mathlib.Data.PNat.Basic
import Mathlib.Algebra.Order.Field.Rat
import Mathlib.Algebra.Order.Floor.Ring
import Mathlib.Data.Rat.Floor
import Hedra.Lib.Smoothing

namespace Hedra
namespace Experiments
namespace Distributions

open Lib.Smoothing

/-! ## 1. `generate_distribution` -/

/-- `_get_distribution_and_step_size`.  `int(math.sqrt(size)/size)` is the quotient of the integer
square root. -/
def getDistributionAndStepSize (size : ℕ) : ℕ × ℕ :=
  if size ≤ 10 then (size ^ 3, size ^ 2)
  else if size < 100 then (size ^ 2, size)
  else if size < 1000 then (size * size.sqrt, size.sqrt)
  else (size * (1 + size.sqrt / size), 1 + size.sqrt / size)

def distributionSize (size : ℕ) : ℕ := (getDistributionAndStepSize size).1

def stepSize (size : ℕ) : ℕ := (getDistributionAndStepSize size).2

def lowerBound : ℚ := 1 / 10

def upperBound : ℚ := 9 / 10

def clamp (currentStepValue : ℚ) : ℚ :=
  if currentStepValue < lowerBound then lowerBound
  else if upperBound < currentStepValue then upperBound
  else currentStepValue

/-- `_generate_random_walk`, from a value on. -/
def generateRandomWalk (currentStepValue : ℚ) : List ℚ → List ℚ
  | [] => []
  | sampleValue :: samples =>
    clamp currentStepValue :: generateRandomWalk (clamp currentStepValue + sampleValue) samples

/-- `_smooth_generated_walk` -/
def smoothGeneratedWalk (generatedWalk : List ℚ) (smoothingWindowSize : ℕ) : List ℚ :=
  smooth generatedWalk (List.replicate smoothingWindowSize (1 / (smoothingWindowSize : ℚ)))

/-- `_apply_averaging` -/
def applyAveraging (size : ℕ) (scaledWalk : List ℚ) (stepSize : ℕ) : List ℚ :=
  (windows stepSize size scaledWalk).map mean

/-- The samples that are drawn of the distribution, and the noise. -/
structure Samples (n : ℕ) where
  rvs : Fin n → ℚ
  noise : Fin n → ℚ

def Samples.product {n : ℕ} (samples : Samples n) : List ℚ :=
  List.ofFn fun i => samples.rvs i * samples.noise i

/-- `_generate_distribution` -/
def unrounded (size scaleFactor : ℕ) (samples : Samples (distributionSize size)) : List ℚ :=
  let generatedWalk := generateRandomWalk (1 / 2) samples.product
  let smoothedWalk := smoothGeneratedWalk generatedWalk (stepSize size)
  let scaledWalk := if scaleFactor ≠ 0 then smoothedWalk.map (· * (scaleFactor : ℚ)) else smoothedWalk
  applyAveraging size scaledWalk (stepSize size)

/-- `generate_distribution` -/
def generateDistribution (size batchSize : ℕ) (samples : Samples (distributionSize size)) : List ℤ :=
  (unrounded size batchSize samples).map fun stepBatchSize => ⌈stepBatchSize⌉

/-! ## 2. Sizes -/

theorem stepSize_pos {size : ℕ} (h : 0 < size) : 0 < stepSize size := by
  unfold stepSize getDistributionAndStepSize
  split_ifs
  · exact Nat.pow_pos h
  · exact h
  · exact Nat.sqrt_pos.mpr h
  · exact Nat.add_pos_left Nat.one_pos _

/-- **In each range the samples are enough for as many steps as the size says.** -/
theorem distributionSize_eq (size : ℕ) : distributionSize size = size * stepSize size := by
  unfold distributionSize stepSize getDistributionAndStepSize
  split_ifs
  · exact Nat.pow_succ'
  · exact Nat.pow_two size
  · rfl
  · rfl

theorem length_generateRandomWalk (currentStepValue : ℚ) (samples : List ℚ) :
    (generateRandomWalk currentStepValue samples).length = samples.length := by
  induction samples generalizing currentStepValue with
  | nil => rfl
  | cons sampleValue samples ih => rw [generateRandomWalk, List.length_cons, ih, List.length_cons]

/-! ## 3. Bounds -/

theorem clamp_bounds (currentStepValue : ℚ) :
    lowerBound ≤ clamp currentStepValue ∧ clamp currentStepValue ≤ upperBound := by
  have hbounds : lowerBound ≤ upperBound := by norm_num [lowerBound, upperBound]
  unfold clamp
  split_ifs with hlow hhigh
  · exact ⟨le_refl _, hbounds⟩
  · exact ⟨hbounds, le_refl _⟩
  · exact ⟨not_lt.mp hlow, not_lt.mp hhigh⟩

/-- **The walk stays between its bounds**, whatever the samples are. -/
theorem walk_bounds (currentStepValue : ℚ) (samples : List ℚ) :
    ∀ x ∈ generateRandomWalk currentStepValue samples, lowerBound ≤ x ∧ x ≤ upperBound := by
  induction samples generalizing currentStepValue with
  | nil => exact fun x hx => absurd hx List.not_mem_nil
  | cons sampleValue samples ih =>
    exact List.forall_mem_cons.mpr ⟨clamp_bounds currentStepValue, ih _⟩

theorem length_smoothGeneratedWalk (walk : List ℚ) {windowSize : ℕ} (h : 0 < windowSize) :
    (smoothGeneratedWalk walk windowSize).length = walk.length :=
  length_smooth walk (List.ne_nil_of_length_pos (by rwa [List.length_replicate]))

theorem smoothed_bounds (samples : List ℚ) {windowSize : ℕ} (h : 0 < windowSize) :
    ∀ x ∈ smoothGeneratedWalk (generateRandomWalk (1 / 2) samples) windowSize,
      0 < x ∧ x ≤ upperBound := by
  have hpos : (0 : ℚ) < windowSize := by exact_mod_cast h
  refine smooth_bounds (fun x hx => ?_) (by norm_num [upperBound]) (fun x hx => ?_) ?_
    (List.ne_nil_of_length_pos (by rwa [List.length_replicate]))
  · obtain ⟨hlow, hhigh⟩ := walk_bounds _ _ x hx
    exact ⟨lt_of_lt_of_le (by norm_num [lowerBound]) hlow, hhigh⟩
  · rw [List.eq_of_mem_replicate hx]
    exact one_div_pos.mpr hpos
  · rw [List.sum_replicate, nsmul_eq_mul, mul_one_div_cancel hpos.ne']

/-- **The intervals before they are rounded.** -/
theorem unrounded_spec {size batchSize : ℕ} (hsize : 0 < size) (hbatch : 0 < batchSize)
    (samples : Samples (distributionSize size)) :
    (unrounded size batchSize samples).length = size ∧
      ∀ x ∈ unrounded size batchSize samples, 0 < x ∧ x ≤ batchSize := by
  have hstep := stepSize_pos hsize
  have hscale : (0 : ℚ) < batchSize := by exact_mod_cast hbatch
  have hwalk : (generateRandomWalk (1 / 2) samples.product).length = size * stepSize size := by
    rw [length_generateRandomWalk, Samples.product, List.length_ofFn]
    exact distributionSize_eq size
  simp only [unrounded]
  rw [if_pos hbatch.ne']
  constructor
  · rw [applyAveraging, List.length_map]
    refine length_windows ?_ hstep size
    rw [List.length_map, length_smoothGeneratedWalk _ hstep]
    exact hwalk
  · intro x hx
    obtain ⟨ys, hys, rfl⟩ := List.mem_map.mp hx
    obtain ⟨hne, hmem⟩ := windows_spec hsize ys hys
    refine mean_bounds (fun y hy => ?_) hne
    obtain ⟨z, hz, rfl⟩ := List.mem_map.mp (hmem y hy)
    obtain ⟨hlow, hhigh⟩ := smoothed_bounds _ hstep z hz
    have hone : z ≤ 1 := hhigh.trans (by norm_num [upperBound])
    exact ⟨mul_pos hlow hscale, (mul_le_mul_of_nonneg_right hone hscale.le).trans_eq (one_mul _)⟩

/-! ## 4. The distribution -/

/-- **As many intervals as the size says, each between one and the batch size.** -/
theorem generated_intervals (size batchSize : ℕ+) (samples : Samples (distributionSize size)) :
    (generateDistribution size batchSize samples).length = size ∧
      ∀ interval ∈ generateDistribution size batchSize samples, 1 ≤ interval ∧ interval ≤ batchSize := by
  obtain ⟨hlen, hbounds⟩ := unrounded_spec size.pos batchSize.pos samples
  refine ⟨by rw [generateDistribution, List.length_map, hlen], fun interval hinterval => ?_⟩
  obtain ⟨x, hx, rfl⟩ := List.mem_map.mp hinterval
  obtain ⟨hpos, hle⟩ := hbounds x hx
  exact ⟨Int.ceil_pos.mpr hpos, Int.ceil_le.mpr (by exact_mod_cast hle)⟩

end Distributions
end Experiments
end Hedra
