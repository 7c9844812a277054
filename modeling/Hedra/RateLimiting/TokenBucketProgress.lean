/-
# Progress of the token bucket

A call (`distributed/rate_limiting/limiters/token_bucket_limiter.py`) is admitted where its amount
is less than the level, and so never where it is all that the bucket holds.  Any smaller amount is
admitted off a full bucket, and where a call waits at the first check behind the time in which its
amount comes in, counted from the last call that has been admitted.  Calls that are admitted in
between put it off, as often as they come.

What carries this is that the level is more than what has come in since the last call was admitted,
unless the bucket is full (`Refilled`).

* `Refilled.lt_level`: there is enough, where so much has come in since a call was admitted;
* `progresses_of_lt`: so less than the bucket holds is admitted;
* `progresses_iff`: and nothing else is.
-/
import Hedra.RateLimiting.TokenBucket

namespace Hedra
namespace RateLimiting

open Lib Machine

namespace Limiter

variable {φ : Type} {cls : LimiterClass φ} {limit : Limit} {clock : Clock}

/-- What becomes of a call when it comes. -/
theorem calls_acquire {amount : ℚ≥0} (hamount : ¬ (limit.maxRequests : ℚ) < amount) (s : Limiter φ) :
    (s.acquire cls limit clock amount).calls = s.calls ++
      [let first := cls.hasCapacity limit clock amount s.meter
        if !first.capacity && limit.rejectRequests then .returned true
        else if (cls.hasCapacity limit clock amount first.meter).capacity then .returned false
        else .waiting amount] := by
  unfold acquire
  rw [if_neg hamount]
  dsimp only [check]
  split
  · exact set_concat _ _ _
  · rw [calls_pass]
    exact set_concat _ _ _

/-- What becomes of a call that is woken. -/
theorem calls_resume (task : Nat) (amount : ℚ≥0) (s : Limiter φ) :
    (s.resume cls limit clock task amount).calls = s.calls.set task
      (if (cls.hasCapacity limit clock amount s.meter).capacity then .returned limit.rejectRequests
        else .waiting amount) :=
  calls_pass _ _ _ _

end Limiter

namespace TokenBucket

variable {limit : Limit} {clock : Clock} {m : Meter TokenBucket}

/-! ## 1. Progress -/

/-- When a call was admitted last, or else when the limiter was made. -/
def lastTaken (clock : Clock) (m : Meter TokenBucket) : ℚ :=
  (m.admitted.getLast?.map Prod.fst).getD (clock.reading 0)

/-- The bucket is full, with what has come in since the last check. -/
def IsFull (limit : Limit) (clock : Clock) (m : Meter TokenBucket) : Prop :=
  limit.maxRequests ≤ m.level + limit.ratePerSec * (clock.reading m.reads - m.own.lastCheck)

/-- **Calls for the amount get it.**  Off a full bucket where no call waits they get it at once, and
where they wait, the first time they are woken after the amount has come in since a call was admitted. -/
structure Progresses (limit : Limit) (amount : ℚ≥0) : Prop where
  full : ∀ clock evs s, run (Limiter.step limiterClass limit clock) (init limit clock) evs = some s →
    IsFull limit clock s.meter → (∀ other, ¬ s.Waits other) →
    ∃ s', Limiter.step limiterClass limit clock s (.acquire amount) = some s' ∧
      s'.calls[s.calls.length]? = some (.returned false)
  waiting : ∀ clock evs s task,
    run (Limiter.step limiterClass limit clock) (init limit clock) evs = some s →
    s.calls[task]? = some (.waiting amount) →
    (amount : ℚ) ≤ limit.ratePerSec * (clock.reading s.meter.reads - lastTaken clock s.meter) →
    ∃ s', Limiter.step limiterClass limit clock s (.wake task) = some s' ∧
      s'.calls[task]? = some (.returned false)

/-! ## 2. What has come in -/

/-- The bucket is full, or has what has come in since a call was admitted, and more. -/
structure Refilled (limit : Limit) (clock : Clock) (m : Meter TokenBucket) : Prop where
  positive : 0 < m.level
  fits : m.level ≤ limit.maxRequests
  past : m.own.lastCheck ≤ m.now clock
  refilled : m.level = limit.maxRequests ∨
    limit.ratePerSec * (m.own.lastCheck - lastTaken clock m) < m.level

theorem now_le_reading (clock : Clock) (m : Meter TokenBucket) : m.now clock ≤ clock.reading m.reads :=
  clock.mono (Nat.sub_le _ _)

theorem Refilled.stamp (h : Refilled limit clock m) : Refilled limit clock m.stamp :=
  { h with past := h.past.trans (now_le_reading clock m) }

/-- What comes in until a check. -/
theorem Refilled.refill_nonneg (h : Refilled limit clock m) :
    0 ≤ limit.ratePerSec * (clock.reading m.reads - m.own.lastCheck) :=
  mul_nonneg limit.ratePerSec_nonneg (sub_nonneg.mpr (h.past.trans (now_le_reading clock m)))

/-- What has come in since a call was admitted is less than a level that had all of it before the last
check, and what comes in until this one. -/
theorem refill_lt (hbefore : limit.ratePerSec * (m.own.lastCheck - lastTaken clock m) < m.level) :
    limit.ratePerSec * (clock.reading m.reads - lastTaken clock m) <
      m.level + limit.ratePerSec * (clock.reading m.reads - m.own.lastCheck) := by
  have hsplit : limit.ratePerSec * (clock.reading m.reads - lastTaken clock m) =
      limit.ratePerSec * (m.own.lastCheck - lastTaken clock m) +
        limit.ratePerSec * (clock.reading m.reads - m.own.lastCheck) := by ring
  rw [hsplit]
  exact add_lt_add_of_lt_of_le hbefore le_rfl

/-- The level after a check. -/
theorem level_check (h : Refilled limit clock m) (amount : ℚ) :
    (hasCapacity limit clock amount m).meter.level =
      min (limit.maxRequests : ℚ)
        (m.level + limit.ratePerSec * (clock.reading m.reads - m.own.lastCheck)) := by
  unfold hasCapacity
  by_cases hfull : m.level < limit.maxRequests
  · rw [if_pos hfull]
    rfl
  · rw [if_neg hfull]
    have hlevel : m.level = limit.maxRequests := le_antisymm h.fits (not_lt.mp hfull)
    rw [← hlevel, min_eq_left (le_add_of_nonneg_right h.refill_nonneg)]

theorem capacity_check (amount : ℚ) (m : Meter TokenBucket) :
    (hasCapacity limit clock amount m).capacity =
      decide (amount < (hasCapacity limit clock amount m).meter.level) := rfl

theorem Refilled.level_le_check (h : Refilled limit clock m) (amount : ℚ) :
    m.level ≤ (hasCapacity limit clock amount m).meter.level := by
  rw [level_check h]
  exact le_min h.fits (le_add_of_nonneg_right h.refill_nonneg)

theorem Refilled.check (h : Refilled limit clock m) (amount : ℚ) :
    Refilled limit clock (hasCapacity limit clock amount m).meter := by
  have hlevel := h.level_le_check amount
  refine ⟨h.positive.trans_le hlevel, ?_, ?_, ?_⟩
  · rw [level_check h]
    exact min_le_left _ _
  · unfold hasCapacity
    split
    · exact le_rfl
    · exact h.past
  · rw [level_check h]
    by_cases hfull : m.level < limit.maxRequests
    · have hcheck : (hasCapacity limit clock amount m).meter.own.lastCheck = clock.reading m.reads := by
        unfold hasCapacity
        rw [if_pos hfull]
        rfl
      have htaken : lastTaken clock (hasCapacity limit clock amount m).meter = lastTaken clock m := by
        unfold hasCapacity
        rw [if_pos hfull]
        rfl
      have hbefore := h.refilled.resolve_left hfull.ne
      rw [hcheck, htaken]
      rcases min_choice (limit.maxRequests : ℚ)
        (m.level + limit.ratePerSec * (clock.reading m.reads - m.own.lastCheck)) with hmin | hmin
      · exact .inl hmin
      · right
        rw [hmin]
        exact refill_lt hbefore
    · have hle : (limit.maxRequests : ℚ) ≤
          m.level + limit.ratePerSec * (clock.reading m.reads - m.own.lastCheck) :=
        (not_lt.mp hfull).trans (le_add_of_nonneg_right h.refill_nonneg)
      exact .inl (min_eq_left hle)

/-- **There is enough**, where so much has come in since a call was admitted. -/
theorem Refilled.lt_level (h : Refilled limit clock m) {amount : ℚ} (hless : amount < limit.maxRequests)
    (hcome : amount ≤ limit.ratePerSec * (clock.reading m.reads - lastTaken clock m)) :
    amount < (hasCapacity limit clock amount m).meter.level := by
  rcases h.refilled with hfull | hmore
  · exact (hless.trans_eq hfull.symm).trans_le (h.level_le_check amount)
  · rw [level_check h]
    exact lt_min hless (hcome.trans_lt (refill_lt hmore))

theorem Refilled.take (h : Refilled limit clock m) {amount : ℚ≥0} (hfits : amount < m.level) :
    Refilled limit clock (m.take limiterClass clock amount false) := by
  have htaken : lastTaken clock (m.take limiterClass clock amount false) = m.now clock := by
    simp [lastTaken, Meter.take]
  refine ⟨sub_pos.mpr hfits, (sub_le_self _ amount.2).trans h.fits, h.past, .inr ?_⟩
  rw [htaken]
  exact (mul_nonpos_of_nonneg_of_nonpos limit.ratePerSec_nonneg (sub_nonpos.mpr h.past)).trans_lt
    (sub_pos.mpr hfits)

/-! ## 3. Runs -/

/-- The bucket is refilled, and where calls are rejected none waits. -/
structure Steady (limit : Limit) (clock : Clock) (s : Limiter TokenBucket) : Prop where
  refilled : Refilled limit clock s.meter
  rejects : limit.rejectRequests = true → ∀ amount, ¬ s.Waits amount

theorem steady_init (hmax : 1 ≤ limit.maxRequests) (clock : Clock) :
    Steady limit clock (init limit clock) where
  refilled :=
    { positive := Nat.cast_pos.mpr hmax
      fits := le_rfl
      past := le_rfl
      refilled := .inl rfl }
  rejects _ _ := fun ⟨_, h⟩ => nomatch h

/-- A second check finds no less. -/
theorem Refilled.capacity_again (h : Refilled limit clock m) {amount : ℚ}
    (hfirst : (hasCapacity limit clock amount m).capacity = true) :
    (hasCapacity limit clock amount (hasCapacity limit clock amount m).meter).capacity = true := by
  rw [capacity_check] at hfirst ⊢
  exact decide_eq_true ((of_decide_eq_true hfirst).trans_le ((h.check amount).level_le_check amount))

theorem steady_step {s s' : Limiter TokenBucket} {ev : Limiter.Event} (h : Steady limit clock s)
    (hs : Limiter.step limiterClass limit clock s ev = some s') : Steady limit clock s' := by
  refine ⟨?_, fun hrejects amount hwaits => ?_⟩
  · refine Limiter.invariant_step (J := fun _ => Refilled limit clock) hs h.refilled h.refilled.stamp
      (fun _ _ => h.refilled.stamp) (fun m amount hm _ => hm.check amount)
      (fun m amount rejected hm _ hcapacity hrejected => ?_) fun _ _ hm => hm
    cases rejected with
    | true =>
      obtain ⟨hrejects, hwaits⟩ := hrejected rfl
      exact absurd hwaits (h.rejects hrejects amount)
    | false => exact (hm.check amount).take (of_decide_eq_true hcapacity)
  · rcases Limiter.waits_of_step hs hwaits with hold | ⟨-, hfirst, hsecond, -⟩
    · exact h.rejects hrejects amount hold
    · have hagain := h.refilled.stamp.capacity_again (hfirst hrejects)
      exact Bool.false_ne_true (hsecond.symm.trans hagain)

theorem steady_run (hmax : 1 ≤ limit.maxRequests) {evs : List Limiter.Event} {s : Limiter TokenBucket}
    (h : run (Limiter.step limiterClass limit clock) (init limit clock) evs = some s) :
    Steady limit clock s :=
  invariant_of_run (fun _ _ _ hI hs => steady_step hI hs) (steady_init hmax clock) h

/-! ## 4. What is admitted -/

/-- **Less than the bucket holds is admitted.** -/
theorem progresses_of_lt (hmax : 1 ≤ limit.maxRequests) {amount : ℚ≥0}
    (hless : (amount : ℚ) < limit.maxRequests) : Progresses limit amount where
  full clock evs s hrun hfull _ := by
    have hsteady := (steady_run hmax hrun).refilled.stamp
    refine ⟨_, rfl, ?_⟩
    have hlevel : (amount : ℚ) < (hasCapacity limit clock amount s.meter.stamp).meter.level := by
      rw [level_check hsteady]
      refine lt_min hless (hless.trans_le (hfull.trans ?_))
      have hlater : clock.reading s.meter.reads ≤ clock.reading s.meter.stamp.reads :=
        clock.mono (Nat.le_succ _)
      have hmore := mul_le_mul_of_nonneg_left (sub_le_sub_right hlater s.meter.own.lastCheck)
        limit.ratePerSec_nonneg
      exact add_le_add le_rfl hmore
    have hfirst : (limiterClass.hasCapacity limit clock amount s.meter.stamp).capacity = true :=
      decide_eq_true hlevel
    have hsecond : (limiterClass.hasCapacity limit clock amount
        (limiterClass.hasCapacity limit clock amount s.meter.stamp).meter).capacity = true :=
      hsteady.capacity_again hfirst
    rw [Limiter.calls_acquire (not_lt.mpr hless.le), List.getElem?_concat_length]
    dsimp only
    rw [hfirst, hsecond]
    rfl
  waiting clock evs s task hrun hcall hcome := by
    have hsteady := steady_run hmax hrun
    have hrejects : limit.rejectRequests = false := by
      cases hrejects : limit.rejectRequests with
      | false => rfl
      | true => exact absurd ⟨task, hcall⟩ (hsteady.rejects hrejects amount)
    have hlater : clock.reading s.meter.reads ≤ clock.reading s.meter.stamp.reads :=
      clock.mono (Nat.le_succ _)
    have hstamp : (amount : ℚ) ≤
        limit.ratePerSec * (clock.reading s.meter.stamp.reads - lastTaken clock s.meter.stamp) :=
      hcome.trans (mul_le_mul_of_nonneg_left (sub_le_sub_right hlater _) limit.ratePerSec_nonneg)
    have hcapacity : (limiterClass.hasCapacity limit clock amount s.meter.stamp).capacity = true :=
      decide_eq_true (hsteady.refilled.stamp.lt_level hless hstamp)
    refine ⟨Limiter.resume limiterClass limit clock task amount { s with meter := s.meter.stamp },
      by simp only [Limiter.step, hcall], ?_⟩
    rw [Limiter.calls_resume]
    dsimp only
    rw [hcapacity, hrejects, List.getElem?_set_self (List.getElem?_eq_some_iff.mp hcall).1]
    rfl

theorem isFull_init (limit : Limit) : IsFull limit still (init limit still).meter := by
  simp [IsFull, init, Limiter.init, Meter.stamp, still]

/-- **Which calls get their amount**: all that want less than the bucket holds. -/
theorem progresses_iff (limit : Limit) (hmax : 1 ≤ limit.maxRequests) (amount : ℚ≥0)
    (hamount : (amount : ℚ) ≤ limit.maxRequests) :
    Progresses limit amount ↔ (amount : ℚ) < limit.maxRequests := by
  refine ⟨fun h => ?_, progresses_of_lt hmax⟩
  by_contra hless
  obtain ⟨s', hs', hcall⟩ := h.full still [] _ rfl (isFull_init limit)
    fun _ ⟨_, hwaits⟩ => nomatch hwaits
  have hsteady := (steady_init hmax still).refilled.stamp
  have hnone : ∀ m : Meter TokenBucket, Refilled limit still m →
      (limiterClass.hasCapacity limit still amount m).capacity = false := fun m hm =>
    decide_eq_false fun hlt => hless (hlt.trans_le (hm.check amount).fits)
  obtain rfl := Option.some.inj hs'
  rw [Limiter.calls_acquire (not_lt.mpr hamount), List.getElem?_concat_length] at hcall
  dsimp only at hcall
  have hfirst := hnone _ hsteady
  have hsecond := hnone (limiterClass.hasCapacity limit still amount (init limit still).meter.stamp).meter
    (hsteady.check _)
  rw [hfirst, hsecond] at hcall
  cases hrejects : limit.rejectRequests with
  | false =>
    rw [hrejects] at hcall
    cases hcall
  | true =>
    rw [hrejects] at hcall
    cases hcall

theorem progresses_one : Progresses { twoInTwo with rejectRequests := false } 1 :=
  (progresses_iff _ (by decide) 1 (by decide +kernel)).mpr (by decide +kernel)

/-- All that a bucket holds is never admitted. -/
theorem not_progresses : ¬ ∀ (limit : Limit) (amount : ℚ≥0), 1 ≤ limit.maxRequests →
    (amount : ℚ) ≤ limit.maxRequests → Progresses limit amount := by
  intro h
  have htwo := h twoInTwo 2 (by decide) (by decide +kernel)
  obtain ⟨s', hs', hcall⟩ := htwo.full still [] _ rfl (isFull_init twoInTwo)
    fun _ ⟨_, hwaits⟩ => nomatch hwaits
  obtain rfl := Option.some.inj hs'
  revert hcall
  decide +kernel

end TokenBucket

end RateLimiting
end Hedra
