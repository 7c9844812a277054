/-
# The base class of the rate limiters

`BaseLimiter.acquire` (`distributed/rate_limiting/limiters/base_limiter.py`) asks `has_capacity`,
and where there is none it rejects the call or lets it wait: until its future is set, or for a
while, and then it asks again.  Each subclass has a `has_capacity` of its own, which reads the clock
of the event loop as often as it likes.

A limiter is a state machine over the calls of `acquire`, in any order.  Between two awaits a call
has the limiter for itself; this is one event.  How long a call waits is left out: it may go on at
any time.

`invariant_step` is the rule that the limiters use for their invariants: one condition on checks,
one on admissions.
-/
import Mathlib.Algebra.Order.Field.Rat
import Mathlib.Algebra.Order.Ring.Rat
import Hedra.Lib.Arrivals
import Hedra.Lib.Dict
import Hedra.Lib.Future
import Hedra.Lib.Machine

namespace Hedra
namespace RateLimiting

open Lib Machine

/-! ## 1. The clock, the limit and the meter -/

/-- What the clock of the event loop says, each time it is asked. -/
structure Clock where
  reading : Nat → ℚ
  mono : Monotone reading

/-- A `Limit`, as far as the limiters read it.  The rate of a limit without a period cannot be
computed, and so there is no limiter for it. -/
structure Limit where
  maxRequests : Nat
  period : ℚ
  rejectRequests : Bool
  period_pos : 0 < period

/-- `_rate_per_sec`, as `BaseLimiter.__init__` sets it. -/
def Limit.ratePerSec (limit : Limit) : ℚ := limit.maxRequests / limit.period

theorem Limit.ratePerSec_nonneg (limit : Limit) : 0 ≤ limit.ratePerSec :=
  div_nonneg (Nat.cast_nonneg _) limit.period_pos.le

/-- The fields of a limiter that `has_capacity` reads and writes, those of the subclass in `own`;
how often the clock has been read; and what has been admitted, with the times. -/
structure Meter (φ : Type) where
  level : ℚ
  own : φ
  reads : Nat
  admitted : Arrivals ℚ

variable {φ : Type}

namespace Meter

/-- `self._loop.time()` -/
def time (clock : Clock) (m : Meter φ) : ℚ × Meter φ :=
  (clock.reading m.reads, { m with reads := m.reads + 1 })

/-- What the clock said last. -/
def now (clock : Clock) (m : Meter φ) : ℚ := clock.reading (m.reads - 1)

/-- An event takes place at a time, whether the code reads it or not. -/
def stamp (m : Meter φ) : Meter φ := { m with reads := m.reads + 1 }

end Meter

/-- What `has_capacity` does and returns. -/
structure Checked (φ : Type) where
  meter : Meter φ
  /-- The loop over the waiters is entered. -/
  wakes : Bool
  capacity : Bool

/-- What a subclass has of its own: `has_capacity`, and what `acquire` does to the level in the end. -/
structure LimiterClass (φ : Type) where
  hasCapacity : Limit → Clock → ℚ → Meter φ → Checked φ
  take : ℚ → ℚ → ℚ
  reads_le : ∀ limit clock amount m, m.reads ≤ (hasCapacity limit clock amount m).meter.reads

variable (cls : LimiterClass φ) (limit : Limit) (clock : Clock)

namespace Meter

/-- The end of `acquire`.  A call that returns `True` is rejected after all. -/
def take (amount : ℚ) (rejected : Bool) (m : Meter φ) : Meter φ :=
  { m with
    level := cls.take m.level amount
    admitted := if rejected then m.admitted else m.admitted ++ [(m.now clock, amount)] }

/-- The loop of `acquire`, up to the next await. -/
def pass (amount : ℚ) (rejected : Bool) (m : Meter φ) : Meter φ :=
  let checked := cls.hasCapacity limit clock amount m
  if checked.capacity then checked.meter.take cls clock amount rejected else checked.meter

/-- `acquire`, up to the first await. -/
def acquire (amount : ℚ) (m : Meter φ) : Meter φ :=
  if limit.maxRequests < amount then m
  else
    let checked := cls.hasCapacity limit clock amount m
    if !checked.capacity && limit.rejectRequests then checked.meter
    else checked.meter.pass cls limit clock amount false

theorem reads_pass (amount : ℚ) (rejected : Bool) (m : Meter φ) :
    (m.pass cls limit clock amount rejected).reads =
      (cls.hasCapacity limit clock amount m).meter.reads := by
  unfold pass
  dsimp only
  split <;> rfl

end Meter

/-! ## 2. The calls of `acquire` -/

/-- A call of `acquire`. -/
inductive Call
  | waiting
      (amount : ℚ≥0)
  | returned
      (rejected : Bool)
  | raised
deriving DecidableEq

/-- A limiter and the calls of `acquire`.  The number of a call stands for its task. -/
structure Limiter (φ : Type) where
  meter : Meter φ
  waiters : Dict Nat (Future Bool)
  calls : List Call

namespace Limiter

def init (level : ℚ) (own : φ) : Limiter φ := ⟨⟨level, own, 0, []⟩, .empty, []⟩

/-- The first waiter that is not done gets its result. -/
def wakeWaiter (waiters : Dict Nat (Future Bool)) : Dict Nat (Future Bool) :=
  match waiters.items.find? fun waiter => !waiter.2.done with
  | some (task, fut) => waiters.set task (fut.setResult true)
  | none => waiters

/-- `self.has_capacity(amount)` -/
def check (amount : ℚ) (s : Limiter φ) : Limiter φ × Bool :=
  let checked := cls.hasCapacity limit clock amount s.meter
  ({ s with
    meter := checked.meter
    waiters := if checked.wakes then wakeWaiter s.waiters else s.waiters }, checked.capacity)

/-- The loop of `acquire`, up to the next await. -/
def pass (task : Nat) (amount : ℚ≥0) (rejected : Bool) (s : Limiter φ) : Limiter φ :=
  let (s, capacity) := s.check cls limit clock amount
  if capacity then
    { s with
      meter := s.meter.take cls clock amount rejected
      waiters := s.waiters.erase task
      calls := s.calls.set task (.returned rejected) }
  else
    { s with
      waiters := s.waiters.set task .pending
      calls := s.calls.set task (.waiting amount) }

/-- `acquire`, up to the first await. -/
def acquire (amount : ℚ≥0) (s : Limiter φ) : Limiter φ :=
  let task := s.calls.length
  if (limit.maxRequests : ℚ) < amount then { s with calls := s.calls ++ [.raised] }
  else
    let called : Limiter φ := { s with calls := s.calls ++ [.waiting amount] }
    let (s, capacity) := called.check cls limit clock amount
    if !capacity && limit.rejectRequests then
      { s with calls := s.calls.set task (.returned true) }
    else s.pass cls limit clock task amount false

/-- A call goes on after it has waited. -/
def resume (task : Nat) (amount : ℚ≥0) (s : Limiter φ) : Limiter φ :=
  let waiters := match s.waiters.get? task with
    | some fut => s.waiters.set task fut.cancel
    | none => s.waiters
  { s with waiters := waiters }.pass cls limit clock task amount limit.rejectRequests

inductive Event
  | acquire
      (amount : ℚ≥0)
  /-- The future of the call is set, or it has waited long enough. -/
  | wake
      (task : Nat)
  /-- The task is cancelled while the call waits. -/
  | cancel
      (task : Nat)
deriving DecidableEq

/-- A call with this amount waits. -/
def Waits (s : Limiter φ) (amount : ℚ≥0) : Prop :=
  ∃ task : Nat, s.calls[task]? = some (.waiting amount)

/-- What the event asks for, unless that is more than there is. -/
def asked (limit : Limit) (s : Limiter φ) : Event → Option ℚ≥0
  | .acquire amount => if (limit.maxRequests : ℚ) < amount then none else some amount
  | .wake task =>
    match s.calls[task]? with
    | some (.waiting amount) => some amount
    | _ => none
  | .cancel _ => none

def step (s : Limiter φ) : Event → Option (Limiter φ)
  | .acquire amount => some ({ s with meter := s.meter.stamp }.acquire cls limit clock amount)
  | .wake task =>
    match s.calls[task]? with
    | some (.waiting amount) =>
      some ({ s with meter := s.meter.stamp }.resume cls limit clock task amount)
    | _ => none
  | .cancel task =>
    match s.calls[task]? with
    | some (.waiting _) => some { s with calls := s.calls.set task .raised }
    | _ => none

/-! ## 3. What an event does to the meter -/

variable {cls limit clock} {s s' : Limiter φ} {ev : Event}

theorem meter_pass (task : Nat) (amount : ℚ≥0) (rejected : Bool) (s : Limiter φ) :
    (s.pass cls limit clock task amount rejected).meter =
      s.meter.pass cls limit clock amount rejected := by
  unfold pass Meter.pass check
  dsimp only
  split <;> rfl

theorem meter_acquire (amount : ℚ≥0) (s : Limiter φ) :
    (s.acquire cls limit clock amount).meter = s.meter.acquire cls limit clock amount := by
  unfold acquire Meter.acquire
  split
  · rfl
  · dsimp only [check]
    split
    · rfl
    · exact meter_pass _ _ _ _

theorem calls_pass (task : Nat) (amount : ℚ≥0) (rejected : Bool) (s : Limiter φ) :
    (s.pass cls limit clock task amount rejected).calls = s.calls.set task
      (if (cls.hasCapacity limit clock amount s.meter).capacity then .returned rejected
        else .waiting amount) := by
  unfold pass check
  dsimp only
  split <;> rfl

theorem set_concat {α : Type} (l : List α) (x y : α) : (l ++ [x]).set l.length y = l ++ [y] := by
  rw [List.set_append_right _ _ le_rfl, Nat.sub_self, List.set_cons_zero]

/-- **What an event does.** -/
theorem step_cases (h : step cls limit clock s ev = some s') :
    (∃ amount, ev = .acquire amount ∧
      s'.meter = s.meter.stamp.acquire cls limit clock amount) ∨
    (∃ task amount, ev = .wake task ∧ s.calls[task]? = some (Call.waiting amount) ∧
      s'.meter = s.meter.stamp.pass cls limit clock amount limit.rejectRequests) ∨
    (∃ task, ev = .cancel task ∧ s'.meter = s.meter) := by
  cases ev with
  | acquire amount =>
    rw [← Option.some.inj h]
    exact .inl ⟨amount, rfl, meter_acquire _ _⟩
  | wake task =>
    simp only [step] at h
    split at h
    · next amount hcall =>
      rw [← Option.some.inj h]
      exact .inr (.inl ⟨task, amount, rfl, hcall, meter_pass _ _ _ _⟩)
    · cases h
  | cancel task =>
    simp only [step] at h
    split at h
    · rw [← Option.some.inj h]
      exact .inr (.inr ⟨task, rfl, rfl⟩)
    · cases h

/-- **A rule for invariants of the meter**: `I` holds between events; `J` within an event, where
checks keep it. -/
theorem invariant_step {I : Meter φ → Prop} {J : ℚ≥0 → Meter φ → Prop}
    (h : step cls limit clock s ev = some s') (hI : I s.meter)
    (hraise : I s.meter.stamp) (hstamp : ∀ amount ∈ s.asked limit ev, J amount s.meter.stamp)
    (hcheck : ∀ m amount, J amount m →
      (cls.hasCapacity limit clock amount m).meter.reads ≤ s'.meter.reads →
      J amount (cls.hasCapacity limit clock amount m).meter)
    (htake : ∀ m amount rejected, J amount m →
      (cls.hasCapacity limit clock amount m).meter.reads ≤ s'.meter.reads →
      (cls.hasCapacity limit clock amount m).capacity = true →
      (rejected = true → limit.rejectRequests = true ∧ s.Waits amount) →
      I ((cls.hasCapacity limit clock amount m).meter.take cls clock amount rejected))
    (hend : ∀ m amount, J amount m → I m) : I s'.meter := by
  have hpass : ∀ m amount rejected, J amount m →
      (m.pass cls limit clock amount rejected).reads = s'.meter.reads →
      (rejected = true → limit.rejectRequests = true ∧ s.Waits amount) →
      I (m.pass cls limit clock amount rejected) := by
    intro m amount rejected hm hreads hrejected
    rw [Meter.reads_pass] at hreads
    unfold Meter.pass
    dsimp only
    split
    · next hcapacity => exact htake m amount rejected hm hreads.le hcapacity hrejected
    · exact hend _ amount (hcheck m amount hm hreads.le)
  rcases step_cases h with ⟨amount, rfl, hmeter⟩ | ⟨task, amount, rfl, hcall, hmeter⟩ | ⟨-, -, hmeter⟩
  · have hreads := congrArg Meter.reads hmeter.symm
    rw [hmeter]
    unfold Meter.acquire at hreads ⊢
    split
    · exact hraise
    · next hamount =>
      have hm := hstamp amount (if_neg hamount)
      simp only [if_neg hamount] at hreads
      dsimp only
      split
      · next hreject =>
        rw [if_pos hreject] at hreads
        exact hend _ amount (hcheck _ amount hm hreads.le)
      · next hreject =>
        rw [if_neg hreject] at hreads
        refine hpass _ amount _ (hcheck _ amount hm ?_) hreads nofun
        rw [← hreads, Meter.reads_pass]
        exact cls.reads_le _ _ _ _
  · have hm := hstamp amount (by simp only [asked, hcall, Option.mem_some_iff])
    rw [hmeter]
    exact hpass _ amount _ hm (congrArg Meter.reads hmeter.symm) fun hreject => ⟨hreject, ⟨task, hcall⟩⟩
  · rwa [hmeter]

/-- A call waits that has waited before, or because there was no capacity the second time. -/
theorem waits_of_step {amount : ℚ≥0} (h : step cls limit clock s ev = some s')
    (hwaits : s'.Waits amount) : s.Waits amount ∨ s.asked limit ev = some amount ∧
      let first := cls.hasCapacity limit clock amount s.meter.stamp
      (limit.rejectRequests = true → first.capacity = true) ∧
        (cls.hasCapacity limit clock amount first.meter).capacity = false ∧
        s'.meter = (cls.hasCapacity limit clock amount first.meter).meter := by
  obtain ⟨i, hcall⟩ := hwaits
  have hset {task : Nat} {call : Call} (h : (s.calls.set task call)[i]? = some (Call.waiting amount))
      (hold : ∀ amount', call = .waiting amount' → s.Waits amount') : s.Waits amount := by
    rw [List.getElem?_set] at h
    split at h
    · split at h
      · exact hold amount (Option.some.inj h)
      · cases h
    · exact ⟨i, h⟩
  have hconcat {call : Call} (h : (s.calls ++ [call])[i]? = some (Call.waiting amount)) :
      s.Waits amount ∨ call = .waiting amount := by
    rw [List.getElem?_append] at h
    split at h
    · exact .inl ⟨i, h⟩
    · exact .inr (List.mem_singleton.mp (List.mem_of_getElem? h)).symm
  cases ev with
  | acquire a =>
    rw [← Option.some.inj h] at hcall ⊢
    unfold acquire at hcall ⊢
    split at hcall
    · exact .inl ((hconcat hcall).resolve_right nofun)
    · next hamount =>
      rw [if_neg hamount]
      dsimp only [check] at hcall ⊢
      split at hcall
      · rw [set_concat] at hcall
        exact .inl ((hconcat hcall).resolve_right nofun)
      · next hreject =>
        rw [if_neg hreject]
        rw [calls_pass] at hcall
        dsimp only at hcall
        rw [set_concat] at hcall
        rcases hconcat hcall with hold | hnew
        · exact .inl hold
        · split at hnew
          · cases hnew
          · next hcapacity =>
            obtain rfl := Call.waiting.inj hnew
            refine .inr ⟨if_neg hamount, fun hrejects => ?_, Bool.eq_false_iff.mpr hcapacity, ?_⟩
            · rw [hrejects, Bool.and_true, Bool.not_eq_true, Bool.not_eq_false'] at hreject
              exact hreject
            · rw [meter_pass]
              exact if_neg hcapacity
  | wake task =>
    simp only [step] at h
    split at h
    · next a ha =>
      rw [← Option.some.inj h, resume, calls_pass] at hcall
      dsimp only at hcall
      refine .inl (hset hcall fun amount' hamount => ?_)
      split at hamount
      · cases hamount
      · exact ⟨task, ha.trans (congrArg some hamount)⟩
    · cases h
  | cancel task =>
    simp only [step] at h
    split at h
    · rw [← Option.some.inj h] at hcall
      exact .inl (hset hcall nofun)
    · cases h

end Limiter

end RateLimiting
end Hedra
