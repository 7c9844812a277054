/-
# Amounts that arrive over time

Amounts arrive at times, and `total` adds up those that arrive at times with a property.  A burst and
a rate bound what arrives in any interval (`Conforms`).

A bucket proves such a bound (`Bucket`): each amount raises its level, and no faster than the rate
does it sink.  Then at any time the level, with what has leaked since a moment, covers all that has
arrived since that moment.

* `Bucket.leak`: time passes, and no more leaks than the rate allows;
* `Bucket.add`: an amount arrives;
* `Conforms.add`: a bucket that does not overflow bounds what arrives.
-/
import Mathlib.Algebra.BigOperators.Group.List.Basic
import Mathlib.Algebra.GroupWithZero.Nat
import Mathlib.Algebra.Order.BigOperators.Group.List
import Mathlib.Algebra.Order.Field.Basic
import Mathlib.Tactic.Linarith
import Mathlib.Tactic.Ring

namespace Lib

/-- Times with the amounts that arrive at them, in order. -/
abbrev Arrivals (K : Type*) := List (K × K)

namespace Arrivals

/-! ## 1. What arrives in a time -/

section Total

variable {K : Type*} [AddMonoid K] {p q : K → Prop} [DecidablePred p] [DecidablePred q]
  {l : Arrivals K}

/-- What arrives at the times with this property. -/
def total (p : K → Prop) [DecidablePred p] (l : Arrivals K) : K :=
  ((l.filter fun x => p x.1).map Prod.snd).sum

@[simp] theorem total_nil : total p ([] : Arrivals K) = 0 := rfl

theorem total_concat (l : Arrivals K) (time amount : K) :
    total p (l ++ [(time, amount)]) = total p l + if p time then amount else 0 := by
  unfold total
  rw [List.filter_append, List.map_append, List.sum_append]
  by_cases h : p time
  · simp [h]
  · simp [h]

theorem total_congr (h : ∀ x ∈ l, (p x.1 ↔ q x.1)) : total p l = total q l := by
  unfold total
  congr 2
  exact List.filter_congr fun x hx => decide_eq_decide.mpr (h x hx)

theorem total_eq_zero (h : ∀ x ∈ l, ¬ p x.1) : total p l = 0 := by
  unfold total
  rw [List.filter_eq_nil_iff.mpr fun x hx => by simpa using h x hx]
  rfl

end Total

variable {K : Type*} [Field K] [LinearOrder K] [IsStrictOrderedRing K]

theorem total_nonneg {p : K → Prop} [DecidablePred p] {l : Arrivals K} (h : ∀ x ∈ l, 0 ≤ x.2) :
    0 ≤ total p l := by
  unfold total
  refine List.sum_nonneg fun a ha => ?_
  obtain ⟨x, hx, rfl⟩ := List.mem_map.mp ha
  exact h x (List.mem_of_mem_filter hx)

/-! ## 2. A burst and a rate -/

/-- In an interval of length `d` at most the burst arrives, and the rate times `d`. -/
def Conforms (burst rate : K) (l : Arrivals K) : Prop :=
  ∀ start d, 0 ≤ d → total (fun t => start ≤ t ∧ t ≤ start + d) l ≤ burst + rate * d

/-- The level of a bucket at this time covers what has arrived since any moment before, as far as it
has not leaked since. -/
structure Bucket (rate level time : K) (l : Arrivals K) : Prop where
  before : ∀ x ∈ l, x.1 ≤ time
  covers : ∀ start ≤ time, total (start ≤ ·) l ≤ level + rate * (time - start)

variable {burst rate level level' time time' amount : K} {l : Arrivals K}

theorem Bucket.empty (hrate : 0 ≤ rate) (hlevel : 0 ≤ level) : Bucket rate level time [] where
  before _ hx := absurd hx List.not_mem_nil
  covers _ hstart := add_nonneg hlevel (mul_nonneg hrate (sub_nonneg.mpr hstart))

/-- **Time passes**, and no more leaks than the rate allows. -/
theorem Bucket.leak (h : Bucket rate level time l) (hrate : 0 ≤ rate) (htime : time ≤ time')
    (hnonneg : 0 ≤ level') (hlevel : level ≤ level' + rate * (time' - time)) :
    Bucket rate level' time' l where
  before x hx := (h.before x hx).trans htime
  covers start hstart := by
    by_cases hold : start ≤ time
    · have hcovers := h.covers start hold
      have hsplit : rate * (time' - start) = rate * (time' - time) + rate * (time - start) := by ring
      linarith
    · have hnone : total (start ≤ ·) l = 0 :=
        total_eq_zero fun x hx hlt => hold (hlt.trans (h.before x hx))
      rw [hnone]
      exact add_nonneg hnonneg (mul_nonneg hrate (sub_nonneg.mpr hstart))

theorem Bucket.raise (h : Bucket rate level time l) (hlevel : level ≤ level') :
    Bucket rate level' time l where
  before := h.before
  covers start hstart := (h.covers start hstart).trans (add_le_add_left hlevel _)

/-- **An amount arrives.** -/
theorem Bucket.add (h : Bucket rate level time l) (amount : K) :
    Bucket rate (level + amount) time (l ++ [(time, amount)]) where
  before x hx := by
    rcases List.mem_append.mp hx with hx | hx
    · exact h.before x hx
    · rw [List.mem_singleton.mp hx]
  covers start hstart := by
    have hcovers := h.covers start hstart
    rw [total_concat, if_pos hstart]
    linarith

theorem Conforms.nil (hburst : 0 ≤ burst) (hrate : 0 ≤ rate) : Conforms burst rate [] :=
  fun _ _ hd => add_nonneg hburst (mul_nonneg hrate hd)

/-- **A bucket that does not overflow bounds what arrives.** -/
theorem Conforms.add (h : Conforms burst rate l) (hbucket : Bucket rate level time l)
    (hrate : 0 ≤ rate) (hfits : level + amount ≤ burst) :
    Conforms burst rate (l ++ [(time, amount)]) := by
  intro start d hd
  by_cases hin : start ≤ time ∧ time ≤ start + d
  · have hsame : total (fun t => start ≤ t ∧ t ≤ start + d) (l ++ [(time, amount)]) =
        total (start ≤ ·) (l ++ [(time, amount)]) := by
      refine total_congr fun x hx => and_iff_left ?_
      exact ((hbucket.add amount).before x hx).trans hin.2
    have hcovers := (hbucket.add amount).covers start hin.1
    have hpassed : rate * (time - start) ≤ rate * d :=
      mul_le_mul_of_nonneg_left (by linarith [hin.2]) hrate
    rw [hsame]
    linarith
  · rw [total_concat, if_neg hin, add_zero]
    exact h start d hd

end Arrivals

end Lib
