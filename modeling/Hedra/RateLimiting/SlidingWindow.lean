/-
# The sliding window limiter

`SlidingWindowLimiter` (`distributed/rate_limiting/limiters/sliding_window_limiter.py`) counts what
it admits in a window, and weighs in the count of the window before for as much of it as still lies
within a period.  The windows should be aligned: whole periods since the clock began.  But the first
one begins when the limiter is made, with a previous count that nobody has been admitted for; and a
window is over only for a check that comes later than a period after it began, however much later:
then its count is taken for that of the window before.

`InStep` says when a check is right about the window it is in.  A run of such checks keeps the counts
(`Tracks`).

* `Within.rollOver`: a new window begins, or the old one goes on;
* `Tracks.take`: a call is admitted;
* `always_counts`: so the counts are right along every run whose checks are `InStep`.
-/
import Mathlib.Algebra.Order.Floor.Ring
import Mathlib.Data.Rat.Floor
import Hedra.RateLimiting.BaseLimiter

namespace Hedra
namespace RateLimiting

open Lib Machine

/-- The fields of `SlidingWindowLimiter`, and the previous counts that it has weighed in so far, with
the times. -/
structure SlidingWindow where
  currentTime : ℚ
  previousCount : ℚ
  weighed : List (ℚ × ℚ)

namespace SlidingWindow

/-- The first half of `has_capacity`: a new window begins. -/
def rollOver (limit : Limit) (clock : Clock) (m : Meter SlidingWindow) : Meter SlidingWindow :=
  let (time, m) := m.time clock
  if limit.period < time - m.own.currentTime then
    let (time, m) := m.time clock
    { m with
      own := { m.own with
        currentTime := ⌊time / limit.period⌋ * limit.period
        previousCount := m.level }
      level := 0 }
  else m

def hasCapacity (limit : Limit) (clock : Clock) (amount : ℚ) (m : Meter SlidingWindow) :
    Checked SlidingWindow :=
  let m := rollOver limit clock m
  let (time, m) := m.time clock
  let ratePerSec := m.own.previousCount * (limit.period - (time - m.own.currentTime)) / limit.period +
    (m.level + amount)
  let m := { m with own := { m.own with weighed := m.own.weighed ++ [(time, m.own.previousCount)] } }
  ⟨m, ratePerSec < limit.maxRequests, ratePerSec ≤ limit.maxRequests⟩

/-- `SlidingWindowLimiter` -/
def limiterClass : LimiterClass SlidingWindow where
  hasCapacity := hasCapacity
  take := (· + ·)
  reads_le limit clock amount m := by
    unfold hasCapacity rollOver Meter.time
    dsimp only
    split
    · exact Nat.le_add_right _ 3
    · exact Nat.le_add_right _ 2

def init (limit : Limit) (clock : Clock) : Limiter SlidingWindow :=
  let s := Limiter.init 0 ⟨clock.reading 0, limit.maxRequests, []⟩
  { s with meter := s.meter.stamp }

/-! ## 1. Aligned windows -/

/-- The number of the aligned window. -/
def window (limit : Limit) (time : ℚ) : ℤ := ⌊time / limit.period⌋

/-- What is admitted in an aligned window. -/
def inWindow (limit : Limit) (k : ℤ) (l : Arrivals ℚ) : ℚ := l.total fun t => window limit t = k

/-- No window has more than `max_rate`, and what has been weighed in is what was admitted in the window
before. -/
def Counts (limit : Limit) (s : Limiter SlidingWindow) : Prop :=
  (∀ k, inWindow limit k s.meter.admitted ≤ limit.maxRequests) ∧
    ∀ x ∈ s.meter.own.weighed, x.2 = inWindow limit (window limit x.1 - 1) s.meter.admitted

variable {limit : Limit} {clock : Clock} {m : Meter SlidingWindow}

theorem window_mono (limit : Limit) {time time' : ℚ} (h : time ≤ time') :
    window limit time ≤ window limit time' :=
  Int.floor_le_floor (div_le_div_of_nonneg_right h limit.period_pos.le)

theorem window_eq_iff {time : ℚ} {k : ℤ} :
    window limit time = k ↔ k * limit.period ≤ time ∧ time < (k + 1) * limit.period := by
  rw [window, Int.floor_eq_iff, le_div_iff₀ limit.period_pos, div_lt_iff₀ limit.period_pos]

theorem lt_window_of_period_lt {time : ℚ} {k : ℤ} (h : limit.period < time - k * limit.period) :
    k < window limit time := by
  rw [window, Int.lt_iff_add_one_le, Int.le_floor, le_div_iff₀ limit.period_pos]
  push_cast
  linarith

/-! ## 2. Checks that are right about their window -/

/-- The window that is counted. -/
structure Current (limit : Limit) (k : ℤ) (m : Meter SlidingWindow) : Prop where
  start : m.own.currentTime = k * limit.period
  windows : ∀ x ∈ m.admitted, window limit x.1 ≤ k
  level : m.level = inWindow limit k m.admitted
  previous : m.own.previousCount = inWindow limit (k - 1) m.admitted

/-- The counts are those of the window of the last check.  Nothing has been admitted before the first
one. -/
structure Tracks (limit : Limit) (clock : Clock) (m : Meter SlidingWindow) : Prop where
  nonneg : ∀ x ∈ m.admitted, 0 ≤ x.2
  bounded : ∀ k, inWindow limit k m.admitted ≤ limit.maxRequests
  right : ∀ x ∈ m.own.weighed, x.2 = inWindow limit (window limit x.1 - 1) m.admitted
  past : ∀ x ∈ m.own.weighed, x.1 ≤ m.now clock
  unused : m.own.weighed = [] → m.admitted = [] ∧ m.level = 0
  current : m.own.weighed ≠ [] → ∃ k, Current limit k m

/-- A check now is right about its window: this is the one that is counted; or it is a later one, and
the count that is over is that of the window before, or nothing. -/
def Right (limit : Limit) (m : Meter SlidingWindow) (k : ℤ) (time : ℚ) : Prop :=
  (m.own.weighed ≠ [] ∧ m.own.currentTime = k * limit.period) ∨
    limit.period < time - m.own.currentTime ∧
      (m.own.currentTime = (k - 1 : ℤ) * limit.period ∨ m.level = 0)

instance (m : Meter SlidingWindow) (k : ℤ) (time : ℚ) : Decidable (Right limit m k time) :=
  inferInstanceAs (Decidable (_ ∨ _))

/-- Within an event in the window `k`. -/
structure Within (limit : Limit) (clock : Clock) (k : ℤ) (m : Meter SlidingWindow) : Prop
    extends Tracks limit clock m where
  isRight : Right limit m k (clock.reading m.reads)

theorem inWindow_eq_zero {k : ℤ} {l : Arrivals ℚ} (h : ∀ x ∈ l, window limit x.1 < k) :
    inWindow limit k l = 0 :=
  Arrivals.total_eq_zero fun x hx heq => (h x hx).ne heq

theorem mul_period_inj {k k' : ℤ} (h : (k : ℚ) * limit.period = k' * limit.period) : k = k' :=
  Int.cast_injective (mul_right_cancel₀ limit.period_pos.ne' h)

/-- **A new window begins**, or goes on. -/
theorem Within.rollOver {k : ℤ} (h : Within limit clock k m)
    (hread : ∀ n < (rollOver limit clock m).reads, m.reads ≤ n → window limit (clock.reading n) = k) :
    Current limit k (rollOver limit clock m) ∧
      (rollOver limit clock m).admitted = m.admitted ∧
      (rollOver limit clock m).own.weighed = m.own.weighed ∧
      m.reads ≤ (rollOver limit clock m).reads := by
  unfold SlidingWindow.rollOver Meter.time at *
  dsimp only at *
  rcases h.isRight with ⟨hchecked, hstart⟩ | ⟨hlate, hover⟩
  · obtain ⟨k', hcurrent⟩ := h.current hchecked
    obtain rfl : k' = k := mul_period_inj (hcurrent.start.symm.trans hstart)
    have hstay : ¬ limit.period < clock.reading m.reads - m.own.currentTime := by
      intro hlate
      rw [if_pos hlate] at hread
      have hwindow := hread m.reads (by dsimp only; omega) le_rfl
      rw [hstart] at hlate
      exact absurd hwindow (lt_window_of_period_lt hlate).ne'
    rw [if_neg hstay]
    exact ⟨⟨hcurrent.start, hcurrent.windows, hcurrent.level, hcurrent.previous⟩, rfl, rfl,
      Nat.le_succ _⟩
  · rw [if_pos hlate] at hread ⊢
    have hwindow := hread m.reads (by dsimp only; omega) le_rfl
    have hbegin := hread (m.reads + 1) (Nat.lt_succ_self _) (Nat.le_succ _)
    refine ⟨?_, rfl, rfl, by dsimp only; omega⟩
    -- All that has been admitted was so in earlier windows.
    obtain ⟨hbefore, hlevel⟩ : (∀ x ∈ m.admitted, window limit x.1 < k) ∧
        m.level = inWindow limit (k - 1) m.admitted := by
      by_cases hunused : m.own.weighed = []
      · obtain ⟨hnone, hlevel⟩ := h.unused hunused
        rw [hnone, hlevel]
        exact ⟨fun x hx => absurd hx List.not_mem_nil, rfl⟩
      · obtain ⟨k', hcurrent⟩ := h.current hunused
        rw [hcurrent.start] at hlate
        have hlt := lt_window_of_period_lt hlate
        rw [hwindow] at hlt
        refine ⟨fun x hx => (hcurrent.windows x hx).trans_lt hlt, ?_⟩
        rcases hover with hover | hzero
        · obtain rfl : k' = k - 1 := mul_period_inj (hcurrent.start.symm.trans hover)
          exact hcurrent.level
        · by_cases hk : k' = k - 1
          · rw [← hk]
            exact hcurrent.level
          · rw [hzero]
            refine (inWindow_eq_zero fun x hx => ?_).symm
            have hle := hcurrent.windows x hx
            omega
    exact ⟨by rw [← hbegin]; rfl, fun x hx => (hbefore x hx).le, (inWindow_eq_zero hbefore).symm,
      hlevel⟩

/-- What the check compares with `max_rate`. -/
def estimate (limit : Limit) (k : ℤ) (time amount : ℚ) (l : Arrivals ℚ) : ℚ :=
  inWindow limit (k - 1) l * (limit.period - (time - k * limit.period)) / limit.period +
    (inWindow limit k l + amount)

/-- **A check.** -/
theorem Within.check {k : ℤ} (h : Within limit clock k m) (amount : ℚ)
    (hread : ∀ n < (hasCapacity limit clock amount m).meter.reads, m.reads ≤ n →
      window limit (clock.reading n) = k) :
    let checked := hasCapacity limit clock amount m
    Within limit clock k checked.meter ∧ Current limit k checked.meter ∧
      checked.meter.admitted = m.admitted ∧ window limit (checked.meter.now clock) = k ∧
      m.now clock ≤ checked.meter.now clock ∧
      checked.capacity = decide
        (estimate limit k (checked.meter.now clock) amount m.admitted ≤ limit.maxRequests) := by
  have hroll := h.rollOver fun n hn => hread n (hn.trans (Nat.lt_succ_self _))
  unfold hasCapacity Meter.time at *
  dsimp only at *
  obtain ⟨hcurrent, hadmitted, hweighed, hreads⟩ := hroll
  generalize SlidingWindow.rollOver limit clock m = r at *
  have hhere := hread r.reads (Nat.lt_succ_self _) hreads
  have hlater : m.now clock ≤ clock.reading r.reads :=
    clock.mono ((Nat.sub_le _ _).trans hreads)
  have hcurrent' : Current limit k
      { r with
        reads := r.reads + 1
        own := { r.own with weighed := r.own.weighed ++ [(clock.reading r.reads, r.own.previousCount)] } } :=
    ⟨hcurrent.start, hcurrent.windows, hcurrent.level, hcurrent.previous⟩
  refine ⟨⟨⟨?_, ?_, ?_, ?_, ?_, ?_⟩, .inl ⟨?_, hcurrent.start⟩⟩, hcurrent', hadmitted, hhere,
    hlater, ?_⟩
  · rw [hadmitted]
    exact h.nonneg
  · rw [hadmitted]
    exact h.bounded
  · intro x hx
    rcases List.mem_append.mp hx with hx | hx
    · rw [hadmitted]
      exact h.right x (hweighed ▸ hx)
    · rw [List.mem_singleton.mp hx, hhere]
      exact hcurrent.previous
  · intro x hx
    rcases List.mem_append.mp hx with hx | hx
    · exact (h.past x (hweighed ▸ hx)).trans hlater
    · rw [List.mem_singleton.mp hx]
      exact le_rfl
  · exact fun hnil => absurd hnil (by simp)
  · exact fun _ => ⟨k, hcurrent'⟩
  · simp
  · rw [hcurrent.start, hcurrent.previous, hcurrent.level, hadmitted]
    rfl

theorem estimate_anti {k : ℤ} {time time' amount : ℚ} {l : Arrivals ℚ} (hl : ∀ x ∈ l, 0 ≤ x.2)
    (h : time ≤ time') : estimate limit k time' amount l ≤ estimate limit k time amount l := by
  unfold estimate
  refine add_le_add_left (div_le_div_of_nonneg_right ?_ limit.period_pos.le) _
  refine mul_le_mul_of_nonneg_left ?_ (Arrivals.total_nonneg hl)
  linarith

/-- In its window the previous count only adds to the estimate. -/
theorem le_estimate {k : ℤ} {time amount : ℚ} {l : Arrivals ℚ} (hl : ∀ x ∈ l, 0 ≤ x.2)
    (h : window limit time = k) : inWindow limit k l + amount ≤ estimate limit k time amount l := by
  have hend := (window_eq_iff.mp h).2
  refine le_add_of_nonneg_left (div_nonneg (mul_nonneg (Arrivals.total_nonneg hl) ?_)
    limit.period_pos.le)
  linarith

/-- **A call is admitted.** -/
theorem Tracks.take {k : ℤ} (h : Tracks limit clock m) (hcurrent : Current limit k m)
    (hchecked : m.own.weighed ≠ []) (hhere : window limit (m.now clock) = k) {amount : ℚ}
    (hamount : 0 ≤ amount)
    (hfits : inWindow limit k m.admitted + amount ≤ limit.maxRequests) :
    Tracks limit clock (m.take limiterClass clock amount false) := by
  have hother {k' : ℤ} (hne : k' ≠ k) : inWindow limit k' (m.admitted ++ [(m.now clock, amount)]) =
      inWindow limit k' m.admitted := by
    rw [inWindow, Arrivals.total_concat, if_neg (hhere.trans_ne hne.symm), add_zero]
    rfl
  have hself : inWindow limit k (m.admitted ++ [(m.now clock, amount)]) =
      inWindow limit k m.admitted + amount := by
    rw [inWindow, Arrivals.total_concat, if_pos hhere]
    rfl
  refine ⟨?_, fun k' => ?_, fun x hx => ?_, h.past, fun hnil => absurd hnil hchecked,
    fun _ => ⟨k, hcurrent.start, ?_, ?_, ?_⟩⟩
  · intro x hx
    rcases List.mem_append.mp hx with hx | hx
    · exact h.nonneg x hx
    · rw [List.mem_singleton.mp hx]
      exact hamount
  · by_cases hk : k' = k
    · rw [hk]
      exact hself.trans_le hfits
    · exact (hother hk).trans_le (h.bounded k')
  · have hle : window limit x.1 ≤ k := hhere ▸ window_mono limit (h.past x hx)
    exact (h.right x hx).trans (hother (by omega)).symm
  · intro x hx
    rcases List.mem_append.mp hx with hx | hx
    · exact hcurrent.windows x hx
    · rw [List.mem_singleton.mp hx]
      exact hhere.le
  · exact (congrArg (· + amount) hcurrent.level).trans hself.symm
  · exact hcurrent.previous.trans (hother (by omega)).symm

/-! ## 3. Runs -/

/-- All readings of the event lie in one window, and its check is right about it. -/
def InStep (limit : Limit) (clock : Clock) (s : Limiter SlidingWindow) (ev : Limiter.Event)
    (s' : Limiter SlidingWindow) : Prop :=
  (s.asked limit ev).isSome →
    let k := window limit (clock.reading s.meter.reads)
    (∀ n < s'.meter.reads, s.meter.reads ≤ n → window limit (clock.reading n) = k) ∧
      Right limit s.meter k (clock.reading (s.meter.reads + 1))

instance (s : Limiter SlidingWindow) (ev : Limiter.Event) (s' : Limiter SlidingWindow) :
    Decidable (InStep limit clock s ev s') :=
  inferInstanceAs (Decidable (_ → _ ∧ _))

/-- The counts are right, and where calls are rejected none waits. -/
structure Steady (limit : Limit) (clock : Clock) (s : Limiter SlidingWindow) : Prop where
  tracks : Tracks limit clock s.meter
  rejects : limit.rejectRequests = true → ∀ amount, ¬ s.Waits amount

theorem steady_init (limit : Limit) (clock : Clock) : Steady limit clock (init limit clock) where
  tracks :=
    { nonneg := fun _ hx => absurd hx List.not_mem_nil
      bounded := fun _ => Nat.cast_nonneg _
      right := fun _ hx => absurd hx List.not_mem_nil
      past := fun _ hx => absurd hx List.not_mem_nil
      unused := fun _ => ⟨rfl, rfl⟩
      current := fun hne => absurd rfl hne }
  rejects _ _ := fun ⟨_, h⟩ => nomatch h

theorem Tracks.stamp (h : Tracks limit clock m) : Tracks limit clock m.stamp :=
  { h with
    past := fun x hx => (h.past x hx).trans (clock.mono (Nat.sub_le_sub_right (Nat.le_succ _) 1))
    current := fun hne => (h.current hne).imp fun _ hk => ⟨hk.start, hk.windows, hk.level, hk.previous⟩ }

theorem steady_step {s s' : Limiter SlidingWindow} {ev : Limiter.Event}
    (h : Steady limit clock s) (hs : Limiter.step limiterClass limit clock s ev = some s')
    (hin : InStep limit clock s ev s') : Steady limit clock s' := by
  have hstamp := h.tracks.stamp
  have hwithin : (s.asked limit ev).isSome →
      Within limit clock (window limit (clock.reading s.meter.reads)) s.meter.stamp :=
    fun hasked => ⟨hstamp, (hin hasked).2⟩
  refine ⟨?_, fun hrejects amount hwaits => ?_⟩
  · refine Limiter.invariant_step (I := Tracks limit clock)
      (J := fun _ m => Within limit clock (window limit (clock.reading s.meter.reads)) m ∧
        s.meter.reads ≤ m.reads ∧ (s.asked limit ev).isSome)
      hs h.tracks hstamp (fun amount hamount => ?_) (fun m amount hm hreads => ?_)
      (fun m amount rejected hm hreads hcapacity hrejected => ?_) fun _ _ hm => hm.1.toTracks
    · have hasked : (s.asked limit ev).isSome := Option.isSome_of_mem hamount
      exact ⟨hwithin hasked, Nat.le_succ _, hasked⟩
    · obtain ⟨hm, hle, hasked⟩ := hm
      refine ⟨(hm.check amount fun n hn hmn => ?_).1, hle.trans (limiterClass.reads_le _ _ _ _), hasked⟩
      exact (hin hasked).1 n (hn.trans_le hreads) (hle.trans hmn)
    · cases rejected with
      | true =>
        obtain ⟨hrejects, hwaits⟩ := hrejected rfl
        exact absurd hwaits (h.rejects hrejects amount)
      | false =>
        obtain ⟨hm, hle, hasked⟩ := hm
        obtain ⟨hchecked, hcurrent, hadmitted, hhere, -, hdecide⟩ := hm.check amount fun n hn hmn =>
          (hin hasked).1 n (hn.trans_le hreads) (hle.trans hmn)
        have hfits := of_decide_eq_true (hdecide.symm.trans hcapacity)
        refine hchecked.toTracks.take hcurrent ?_ hhere amount.2 ?_
        · simp [hasCapacity]
        · rw [hadmitted]
          exact (le_estimate hm.nonneg hhere).trans hfits
  · rcases Limiter.waits_of_step hs hwaits with hold | ⟨hasked, hfirst, hsecond, hmeter⟩
    · exact h.rejects hrejects amount hold
    have hread := (hin (Option.isSome_of_mem hasked)).1
    rw [hmeter] at hread
    obtain ⟨hm, -, hadmitted, -, -, hcapacity⟩ := (hwithin (Option.isSome_of_mem hasked)).check amount
      fun n hn hmn => hread n (hn.trans_le (limiterClass.reads_le _ _ _ _)) ((Nat.le_succ _).trans hmn)
    obtain ⟨-, -, -, -, hlater, hcapacity'⟩ := hm.check amount fun n hn hmn =>
      hread n hn ((Nat.le_succ _).trans ((limiterClass.reads_le _ _ _ _).trans hmn))
    -- The second check comes later in the same window, and so it does not estimate more.
    have hfits := of_decide_eq_true (hcapacity.symm.trans (hfirst hrejects))
    have hover := of_decide_eq_false (hcapacity'.symm.trans hsecond)
    rw [hadmitted] at hover
    exact hover ((estimate_anti hstamp.nonneg hlater).trans hfits)

/-- **The counts are right in all states of a run whose checks are right about their windows.** -/
theorem always_counts {evs : List Limiter.Event}
    (h : Along (Limiter.step limiterClass limit clock) (InStep limit clock) (init limit clock) evs) :
    Always (Limiter.step limiterClass limit clock) (Counts limit) (init limit clock) evs := by
  refine Always.mono (I := Steady limit clock)
    (fun s h => ⟨h.tracks.bounded, h.tracks.right⟩) ?_
  exact Along.always (fun s ev s' h hs hin => steady_step h hs hin) (steady_init limit clock) h

/-- Two calls a second. -/
def twoPerSecond : Limit := ⟨2, 1, true, by decide⟩

/-- The first calls come two seconds after the start. -/
def afterTwo : Clock where
  reading n := if n = 0 then 0 else 2
  mono m n h := by
    dsimp only
    split_ifs <;> first | omega | norm_num

/-- The limiter is made in the middle of a second; calls come a second later, and a quarter after
that. -/
def midSecond : Clock where
  reading n := if n = 0 then 1 / 2 else if n ≤ 10 then 3 / 2 else 7 / 4
  mono m n h := by
    dsimp only
    split_ifs <;> first | omega | norm_num

/-- Two calls are admitted, and the third is rejected. -/
theorem always_counts_afterTwo : Always (Limiter.step limiterClass twoPerSecond afterTwo)
    (Counts twoPerSecond) (init twoPerSecond afterTwo) [.acquire 1, .acquire 1, .acquire 1] :=
  always_counts (by decide +kernel)

/-- **Three calls are admitted in one window**: two before the first window is over, which is not
aligned. -/
theorem not_counts : ¬ Always (Limiter.step limiterClass twoPerSecond midSecond)
    (Counts twoPerSecond) (init twoPerSecond midSecond) [.acquire 1, .acquire 1, .acquire 1] := by
  intro h
  have hthree := (h.last rfl).1 1
  revert hthree
  decide +kernel

end SlidingWindow

end RateLimiting
end Hedra
