/-
# The leaky bucket limiter

`LeakyBucketLimiter` (`distributed/rate_limiting/limiters/leaky_bucket_limiter.py`) lets its level
leak since the last check and admits what still fits below `max_rate`.  The time of the last check
is read from the clock after the elapsed time, so a little less leaks than could; never more.  The
level covers what has been admitted (`Lib.Arrivals.Bucket`), and so the rate holds in any interval.

Amounts and times are exact rationals.

* `Covers.leak`: a leak keeps the cover, and `Covers.take` an admission;
* `always_bounded`: the level stays within `max_rate`, and the rate holds in every interval.
-/
import Hedra.RateLimiting.BaseLimiter

namespace Hedra
namespace RateLimiting

open Lib Machine

/-- The fields of `LeakyBucketLimiter`. -/
structure LeakyBucket where
  lastCheck : ℚ

namespace LeakyBucket

/-- `_leak` -/
def leak (limit : Limit) (clock : Clock) (m : Meter LeakyBucket) : Meter LeakyBucket :=
  let m :=
    if m.level ≠ 0 then
      let (time, m) := m.time clock
      let elapsed := time - m.own.lastCheck
      let decrement := elapsed * limit.ratePerSec
      { m with level := max (m.level - decrement) 0 }
    else m
  let (time, m) := m.time clock
  { m with own := ⟨time⟩ }

def hasCapacity (limit : Limit) (clock : Clock) (amount : ℚ) (m : Meter LeakyBucket) :
    Checked LeakyBucket :=
  let m := leak limit clock m
  let requested := m.level + amount
  ⟨m, requested < limit.maxRequests, requested ≤ limit.maxRequests⟩

/-- `LeakyBucketLimiter` -/
def limiterClass : LimiterClass LeakyBucket where
  hasCapacity := hasCapacity
  take := (· + ·)
  reads_le limit clock amount m := by
    unfold hasCapacity leak
    split
    · exact Nat.le_add_right _ 2
    · exact Nat.le_add_right _ 1

def init : Limiter LeakyBucket := .init 0 ⟨0⟩

/-! ## 1. The level covers what is admitted -/

variable {limit : Limit} {clock : Clock} {m : Meter LeakyBucket}

/-- The level fits and covers what has been admitted.  Before the first check nothing has been. -/
structure Covers (limit : Limit) (clock : Clock) (m : Meter LeakyBucket) : Prop where
  fits : m.level ≤ limit.maxRequests
  conforms : m.admitted.Conforms (limit.maxRequests : ℚ) limit.ratePerSec
  bucket : m.admitted.Bucket limit.ratePerSec m.level m.own.lastCheck
  past : m.own.lastCheck ≤ clock.reading m.reads ∨ m.level = 0 ∧ m.admitted = []

theorem Covers.stamp (h : Covers limit clock m) : Covers limit clock m.stamp :=
  { h with past := h.past.imp_left (le_trans · (clock.mono (Nat.le_succ _))) }

/-- **A leak.** -/
theorem Covers.leak (h : Covers limit clock m) :
    Covers limit clock (leak limit clock m) ∧
      (leak limit clock m).own.lastCheck = (leak limit clock m).now clock := by
  have hrate := limit.ratePerSec_nonneg
  unfold LeakyBucket.leak
  by_cases hlevel : m.level = 0
  · rw [if_neg (not_not.mpr hlevel)]
    refine ⟨⟨h.fits, h.conforms, ?_, .inl (clock.mono (Nat.le_succ _))⟩, rfl⟩
    rcases h.past with hpast | ⟨-, hnone⟩
    · refine h.bucket.leak hrate hpast hlevel.ge ?_
      exact le_add_of_nonneg_right (mul_nonneg hrate (sub_nonneg.mpr hpast))
    · change Arrivals.Bucket _ _ _ m.admitted
      rw [hnone]
      exact .empty hrate hlevel.ge
  · rw [if_pos hlevel]
    have hpast : m.own.lastCheck ≤ clock.reading m.reads :=
      h.past.resolve_right fun hnone => hlevel hnone.1
    have hlater : clock.reading m.reads ≤ clock.reading (m.reads + 1) := clock.mono (Nat.le_succ _)
    refine ⟨⟨?_, h.conforms, ?_, .inl (clock.mono (Nat.le_succ _))⟩, rfl⟩
    · refine max_le ((sub_le_self _ ?_).trans h.fits) (Nat.cast_nonneg _)
      exact mul_nonneg (sub_nonneg.mpr hpast) hrate
    · refine h.bucket.leak hrate (hpast.trans hlater) (le_max_right _ _) ?_
      -- Less has leaked than the time between the checks allows.
      have hleaked : (clock.reading m.reads - m.own.lastCheck) * limit.ratePerSec ≤
          limit.ratePerSec * (clock.reading (m.reads + 1) - m.own.lastCheck) := by
        rw [mul_comm]
        exact mul_le_mul_of_nonneg_left (sub_le_sub_right hlater _) hrate
      have hmax := le_max_left
        (m.level - (clock.reading m.reads - m.own.lastCheck) * limit.ratePerSec) 0
      exact sub_le_iff_le_add.mp ((sub_le_sub_left hleaked _).trans hmax)

/-- **A call is admitted**, or takes its amount although it is rejected. -/
theorem Covers.take (h : Covers limit clock m) (hnow : m.own.lastCheck = m.now clock)
    {amount : ℚ} (hamount : 0 ≤ amount) (hfits : m.level + amount ≤ limit.maxRequests)
    (rejected : Bool) : Covers limit clock (m.take limiterClass clock amount rejected) := by
  have hpast : m.own.lastCheck ≤ clock.reading m.reads := by
    rw [hnow]
    exact clock.mono (Nat.sub_le _ _)
  cases rejected with
  | true =>
    exact ⟨hfits, h.conforms, h.bucket.raise (le_add_of_nonneg_right hamount), .inl hpast⟩
  | false =>
    have hbucket := h.bucket
    rw [hnow] at hbucket
    refine ⟨hfits, h.conforms.add hbucket limit.ratePerSec_nonneg hfits, ?_, .inl hpast⟩
    change Arrivals.Bucket _ _ m.own.lastCheck _
    rw [hnow]
    exact hbucket.add amount

/-! ## 2. Runs -/

theorem covers_init (limit : Limit) (clock : Clock) : Covers limit clock init.meter :=
  ⟨Nat.cast_nonneg _, .nil (Nat.cast_nonneg _) limit.ratePerSec_nonneg,
    .empty limit.ratePerSec_nonneg le_rfl, .inr ⟨rfl, rfl⟩⟩

theorem covers_step {s s' : Limiter LeakyBucket} {ev : Limiter.Event}
    (h : Covers limit clock s.meter)
    (hs : Limiter.step limiterClass limit clock s ev = some s') : Covers limit clock s'.meter := by
  refine Limiter.invariant_step (J := fun _ => Covers limit clock) hs h h.stamp (fun _ _ => h.stamp)
    (fun _ _ hm _ => hm.leak.1) ?_ fun _ _ => id
  intro m amount rejected hm _ hcapacity _
  exact hm.leak.1.take hm.leak.2 amount.2 (of_decide_eq_true hcapacity) rejected

/-- **The level never exceeds `max_rate`, and in any interval no more is admitted than `max_rate` and
the rate allow.** -/
theorem always_bounded (limit : Limit) (clock : Clock) (evs : List Limiter.Event) :
    Always (Limiter.step limiterClass limit clock)
      (fun s => s.meter.level ≤ limit.maxRequests ∧
        s.meter.admitted.Conforms (limit.maxRequests : ℚ) limit.ratePerSec) init evs := by
  refine Always.mono (I := fun s => Covers limit clock s.meter) (fun s h => ⟨h.fits, h.conforms⟩) ?_
  exact always_of_step (fun s ev s' h hs => covers_step h hs) (covers_init limit clock)

end LeakyBucket

end RateLimiting
end Hedra
