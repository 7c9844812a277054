/-
# The token bucket limiter

`TokenBucketLimiter` (`distributed/rate_limiting/limiters/token_bucket_limiter.py`) starts with a
full bucket and refills it at each check, for the time since the last one.  But a bucket that is
full is not refilled, and then the time of the last check stays what it was.  So the next check
after a call that was admitted off a full bucket refills it for a time in which it was full: what
has been admitted is given twice.

Where that does not happen (`FreshWhenFull`) the tokens that are missing are the level of a leaky
bucket (`Lib.Arrivals.Bucket`), and the rate holds in any interval.

* `Covers.take`: the cover is kept when a call is admitted, or takes its amount although it is
  rejected;
* `always_within`: the bounds hold along every run whose calls find no full bucket but a fresh one.
-/
import Hedra.RateLimiting.BaseLimiter

namespace Hedra
namespace RateLimiting

open Lib Machine

/-- The fields of `TokenBucketLimiter`. -/
structure TokenBucket where
  lastCheck : ℚ

namespace TokenBucket

def hasCapacity (limit : Limit) (clock : Clock) (amount : ℚ) (m : Meter TokenBucket) :
    Checked TokenBucket :=
  let m :=
    if m.level < limit.maxRequests then
      let (currentTime, m) := m.time clock
      let delta := limit.ratePerSec * (currentTime - m.own.lastCheck)
      { m with level := min (limit.maxRequests : ℚ) (m.level + delta), own := ⟨currentTime⟩ }
    else m
  let requestedAmount := m.level - amount
  ⟨m, 0 < requestedAmount ∨ limit.maxRequests ≤ m.level, amount < m.level⟩

/-- `TokenBucketLimiter`.  Its `acquire` is that of the base class, but for the last step. -/
def limiterClass : LimiterClass TokenBucket where
  hasCapacity := hasCapacity
  take := (· - ·)
  reads_le limit clock amount m := by
    unfold hasCapacity
    split
    · exact Nat.le_succ _
    · exact le_rfl

def init (limit : Limit) (clock : Clock) : Limiter TokenBucket :=
  let s := Limiter.init (limit.maxRequests : ℚ) ⟨clock.reading 0⟩
  { s with meter := s.meter.stamp }

/-! ## 1. The missing tokens cover what is admitted -/

variable {limit : Limit} {clock : Clock} {m : Meter TokenBucket}

structure Covers (limit : Limit) (clock : Clock) (m : Meter TokenBucket) : Prop where
  nonneg : 0 ≤ m.level
  fits : m.level ≤ limit.maxRequests
  conforms : m.admitted.Conforms (limit.maxRequests : ℚ) limit.ratePerSec
  bucket : m.admitted.Bucket limit.ratePerSec (limit.maxRequests - m.level) m.own.lastCheck
  past : m.own.lastCheck ≤ clock.reading m.reads

/-- Within an event: a full bucket has been checked now, or it has too little anyway. -/
structure Fresh (limit : Limit) (clock : Clock) (amount : ℚ≥0) (m : Meter TokenBucket) : Prop
    extends Covers limit clock m where
  fresh : m.level < limit.maxRequests ∨ (limit.maxRequests : ℚ) ≤ amount ∨
    m.own.lastCheck = m.now clock

/-- **A check.**  Unless it has too little, it has the time of now. -/
theorem Fresh.check {amount : ℚ≥0} (h : Fresh limit clock amount m) :
    Fresh limit clock amount (hasCapacity limit clock amount m).meter ∧
      ((limit.maxRequests : ℚ) ≤ amount ∨ (hasCapacity limit clock amount m).meter.own.lastCheck =
        (hasCapacity limit clock amount m).meter.now clock) := by
  have hrate := limit.ratePerSec_nonneg
  have hpassed := sub_nonneg.mpr h.past
  unfold hasCapacity
  by_cases hfull : m.level < limit.maxRequests
  · rw [if_pos hfull]
    have hdelta : 0 ≤ limit.ratePerSec * (clock.reading m.reads - m.own.lastCheck) :=
      mul_nonneg hrate hpassed
    refine ⟨⟨⟨?_, min_le_left _ _, h.conforms, ?_, clock.mono (Nat.le_succ _)⟩, .inr (.inr rfl)⟩,
      .inr rfl⟩
    · exact le_min (Nat.cast_nonneg _) (add_nonneg h.nonneg hdelta)
    · refine h.bucket.leak hrate h.past (sub_nonneg.mpr (min_le_left _ _)) ?_
      have hmin := min_le_right (limit.maxRequests : ℚ)
        (m.level + limit.ratePerSec * (clock.reading m.reads - m.own.lastCheck))
      have hmissing : (limit.maxRequests : ℚ) - m.level ≤ limit.maxRequests -
          min (limit.maxRequests : ℚ)
            (m.level + limit.ratePerSec * (clock.reading m.reads - m.own.lastCheck)) +
          limit.ratePerSec * (clock.reading m.reads - m.own.lastCheck) := by linarith
      exact hmissing
  · rw [if_neg hfull]
    exact ⟨h, h.fresh.resolve_left hfull⟩

/-- **A call is admitted**, or takes its amount although it is rejected. -/
theorem Covers.take (h : Covers limit clock m) (hnow : m.own.lastCheck = m.now clock)
    {amount : ℚ≥0} (hfits : amount < m.level) (rejected : Bool) :
    Covers limit clock (m.take limiterClass clock amount rejected) := by
  have hlevel : m.level - amount ≤ limit.maxRequests := (sub_le_self _ amount.2).trans h.fits
  have hmissing : (limit.maxRequests : ℚ) - m.level + amount = limit.maxRequests - (m.level - amount) := by
    ring
  cases rejected with
  | true =>
    refine ⟨sub_nonneg.mpr hfits.le, hlevel, h.conforms, ?_, h.past⟩
    exact h.bucket.raise (sub_le_sub_left (sub_le_self _ amount.2) _)
  | false =>
    have hbucket := h.bucket
    rw [hnow] at hbucket
    refine ⟨sub_nonneg.mpr hfits.le, hlevel, ?_, ?_, h.past⟩
    · refine h.conforms.add hbucket limit.ratePerSec_nonneg ?_
      rw [hmissing]
      exact sub_le_self _ (sub_nonneg.mpr hfits.le)
    · change Arrivals.Bucket _ (limit.maxRequests - (m.level - amount)) m.own.lastCheck _
      rw [hnow, ← hmissing]
      exact hbucket.add amount

/-! ## 2. Runs -/

/-- A call that finds the bucket full, and can be admitted, comes at the time of the last check. -/
def FreshWhenFull (limit : Limit) (clock : Clock) (s : Limiter TokenBucket) (ev : Limiter.Event)
    (_ : Limiter TokenBucket) : Prop :=
  ∀ amount ∈ s.asked limit ev, s.meter.level < limit.maxRequests ∨ (limit.maxRequests : ℚ) ≤ amount ∨
    s.meter.own.lastCheck = clock.reading s.meter.reads

instance (s : Limiter TokenBucket) (ev : Limiter.Event) (s' : Limiter TokenBucket) :
    Decidable (FreshWhenFull limit clock s ev s') :=
  inferInstanceAs (Decidable (∀ amount ∈ s.asked limit ev, s.meter.level < limit.maxRequests ∨
    (limit.maxRequests : ℚ) ≤ amount ∨ s.meter.own.lastCheck = clock.reading s.meter.reads))

theorem covers_init (limit : Limit) (clock : Clock) :
    Covers limit clock (init limit clock).meter where
  nonneg := Nat.cast_nonneg _
  fits := le_rfl
  conforms := .nil (Nat.cast_nonneg _) limit.ratePerSec_nonneg
  bucket := .empty limit.ratePerSec_nonneg (sub_self _).ge
  past := clock.mono (Nat.zero_le _)

theorem covers_step {s s' : Limiter TokenBucket} {ev : Limiter.Event}
    (h : Covers limit clock s.meter)
    (hs : Limiter.step limiterClass limit clock s ev = some s')
    (hfresh : FreshWhenFull limit clock s ev s') : Covers limit clock s'.meter := by
  have hstamp : Covers limit clock s.meter.stamp :=
    { h with past := h.past.trans (clock.mono (Nat.le_succ _)) }
  refine Limiter.invariant_step (J := Fresh limit clock) hs h hstamp (fun amount hamount => ?_)
    (fun _ _ hm _ => hm.check.1) (fun m amount rejected hm _ hcapacity _ => ?_)
    fun _ _ hm => hm.toCovers
  · exact ⟨hstamp, hfresh amount hamount⟩
  · obtain ⟨hchecked, hnow⟩ := hm.check
    have hfits := of_decide_eq_true hcapacity
    refine hchecked.toCovers.take (hnow.resolve_left fun hle => ?_) hfits rejected
    exact absurd (hchecked.fits.trans hle) (not_le.mpr hfits)

/-- The level stays in its bounds, and in any interval no more is admitted than `max_rate` and the
rate allow. -/
def Bounded (limit : Limit) (s : Limiter TokenBucket) : Prop :=
  0 ≤ s.meter.level ∧ s.meter.level ≤ limit.maxRequests ∧
    s.meter.admitted.Conforms (limit.maxRequests : ℚ) limit.ratePerSec

/-- **The bounds hold in all states of a run whose calls find no full bucket but a fresh one.** -/
theorem always_within {evs : List Limiter.Event}
    (h : Along (Limiter.step limiterClass limit clock) (FreshWhenFull limit clock)
      (init limit clock) evs) :
    Always (Limiter.step limiterClass limit clock) (Bounded limit) (init limit clock) evs := by
  refine Always.mono (I := fun s => Covers limit clock s.meter)
    (fun s h => ⟨h.nonneg, h.fits, h.conforms⟩) ?_
  exact (Along.always (fun s ev s' h hs hfresh => covers_step h hs hfresh)
    (covers_init limit clock)) h

/-- Two calls in two seconds. -/
def twoInTwo : Limit := ⟨2, 2, true, by decide⟩

/-- The clock stands still. -/
def still : Clock := ⟨fun _ => 0, fun _ _ _ => le_rfl⟩

/-- Ten seconds after the start two calls come, and one half a second later. -/
def afterTen : Clock where
  reading
    | 0 => 0
    | 1 | 2 | 3 => 10
    | _ => 21 / 2
  mono := by
    refine monotone_nat_of_le_succ fun n => ?_
    rcases n with _ | _ | _ | _ | n
    · decide +kernel
    · decide +kernel
    · decide +kernel
    · decide +kernel
    · exact le_rfl

/-- Two calls at the start, and a third one that is rejected. -/
theorem always_within_still : Always (Limiter.step limiterClass twoInTwo still)
    (Bounded twoInTwo) (init twoInTwo still) [.acquire 1, .acquire (1 / 2), .acquire 1] :=
  always_within (by decide +kernel)

/-- **An idle second is given twice**: three calls in half a second. -/
theorem not_bounded : ¬ Always (Limiter.step limiterClass twoInTwo afterTen)
    (Bounded twoInTwo) (init twoInTwo afterTen) [.acquire 1, .acquire 1, .acquire 1] := by
  intro h
  have hthree := (h.last rfl).2.2 10 (1 / 2) (by decide +kernel)
  revert hthree
  decide +kernel

end TokenBucket

end RateLimiting
end Hedra
