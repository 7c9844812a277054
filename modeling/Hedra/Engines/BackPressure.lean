/-
# Back-pressure on an HTTP client

A request counts as `active` from its start to its end, most of which it may spend in front of the
semaphore.  A persona that finds too many of them active waits for a future, the `waiter` of the
client; the request that brings the count down to the size of the pool sets its result.

The count is right, the wait returns in time and for a reason (`safe_of_careful`), in runs where
* no request ends in front of the `try` or by a `CancelledError`, which nothing takes off the count;
* the persona does not wait again over a `waiter` that its last wait, which timed out, has left: the
  call returns at once;
* no request starts that takes the count over the size again before the persona has gone on.

The client is `core/engines/types/http/client.py` (`execute_prepared_request`,
`wait_for_active_threshold`); the others have the same lines.  `Careful` is the condition on a step,
`Good` the invariant, and `linked_step`, `counted_step` and `woken_step` are its parts.
-/
import Hedra.Lib.Future
import Hedra.Lib.Machine
import Hedra.Lib.Tasks
import Mathlib.Algebra.Order.Ring.Int

namespace Hedra
namespace Engines
namespace BackPressure

open Lib Machine Tasks

/-! ## 1. The client and the persona -/

/-- Where `execute_prepared_request` is. -/
inductive Stage
  /-- Behind `self.active += 1`, in front of the semaphore. -/
  | queued
  /-- In the semaphore. -/
  | running
  | ended
deriving DecidableEq

/-- Where the `generator` of the persona is. -/
inductive Persona
  | generating
  /-- `wait_for` has made a task of the call, which has not begun. -/
  | calling
  | waiting (future : ℕ)
deriving DecidableEq

/-- A client with its requests, and the persona that waits for it.  Futures are numbered. -/
structure Client where
  poolSize : ℕ
  maxPoolSize : ℕ
  sem : ℕ
  active : ℤ
  requests : List Stage
  futures : List (Future Unit)
  waiter : Option ℕ
  persona : Persona
deriving DecidableEq

namespace Client

def init (poolSize maxPoolSize : ℕ) : Client where
  poolSize := poolSize
  maxPoolSize := maxPoolSize
  sem := poolSize
  active := 0
  requests := []
  futures := []
  waiter := none
  persona := .generating

/-- How a request comes to its end in the semaphore: what it raises in the `try`, and a
`TimeoutError` is that too, is caught. -/
inductive Outcome
  | completed
  | failed
  | timedOut
deriving DecidableEq

inductive Event
  | start
  | enter (request : ℕ)
  | finish (request : ℕ) (outcome : Outcome)
  /-- A `CancelledError`, or what the callback of a trace raises outside the `try`. -/
  | abort (request : ℕ)
  /-- `if session.active > max_pool_size: await asyncio.wait_for(…)` -/
  | call
  /-- `wait_for_active_threshold` begins. -/
  | begin
  /-- It goes on behind `await self.waiter`. -/
  | resume
  /-- The `TimeoutError` of `wait_for`. -/
  | expire
deriving DecidableEq

/-- `if self.waiter and self.active <= self.pool.size`.  The future may be done, and the
`InvalidStateError` is caught. -/
def notify (c : Client) : Client :=
  match c.waiter with
  | none => c
  | some n =>
    if c.active ≤ c.poolSize then
      { c with futures := c.futures.modify n (Future.setResult ()), waiter := none }
    else c

def setStage (c : Client) (i : ℕ) (stage : Stage) : Client :=
  { c with requests := c.requests.set i stage }

def stepEnter (c : Client) (i : ℕ) : Option Client :=
  match c.requests[i]?, c.sem with
  | some .queued, sem + 1 => some { c.setStage i .running with sem := sem }
  | _, _ => none

/-- The end of the body of the semaphore. -/
def stepFinish (c : Client) (i : ℕ) : Option Client :=
  match c.requests[i]? with
  | some .running => some <| notify
      { c.setStage i .ended with active := c.active - 1, sem := c.sem + 1 }
  | _ => none

/-- `self.active -= 1` is not reached. -/
def stepAbort (c : Client) (i : ℕ) : Option Client :=
  match c.requests[i]? with
  | some .queued => some (c.setStage i .ended)
  | some .running => some { c.setStage i .ended with sem := c.sem + 1 }
  | _ => none

/-- `wait_for_active_threshold`, up to its `await`. -/
def stepBegin (c : Client) : Option Client :=
  match c.persona with
  | .calling =>
    match c.waiter with
    | none => some { c with
        futures := c.futures ++ [.pending]
        waiter := some c.futures.length
        persona := .waiting c.futures.length }
    -- there is nothing to wait for
    | some _ => some { c with persona := .generating }
  | _ => none

def stepResume (c : Client) : Option Client :=
  match c.persona with
  | .waiting n =>
    match c.futures[n]? with
    | some (.result _) => some { c with persona := .generating }
    | _ => none
  | _ => none

/-- The task is cancelled, and the future with it; `waiter` stays. -/
def stepExpire (c : Client) : Option Client :=
  match c.persona with
  | .generating => none
  | .calling => some { c with persona := .generating }
  | .waiting n => some { c with
      futures := c.futures.modify n Future.cancel
      persona := .generating }

def step (c : Client) : Event → Option Client
  | .start => some { c with active := c.active + 1, requests := c.requests ++ [.queued] }
  | .enter i => c.stepEnter i
  | .finish i _ => c.stepFinish i
  | .abort i => c.stepAbort i
  | .call =>
    if c.persona = .generating ∧ c.active > c.maxPoolSize then some { c with persona := .calling }
    else none
  | .begin => c.stepBegin
  | .resume => c.stepResume
  | .expire => c.stepExpire

/-! ## 2. What should hold -/

/-- The number of requests in flight. -/
def inFlight (c : Client) : ℕ := c.requests.countP (· ≠ .ended)

/-- **The counter** is the number of requests in flight. -/
def Counted (c : Client) : Prop := c.active = c.inFlight

/-- **The return**: when the wait returns, other than by its timeout, the count does not exceed the
size of the pool. -/
def Returns (c : Client) : Event → Client → Prop
  | .begin, c' => c'.persona = .generating → c.active ≤ c.poolSize
  | .resume, _ => c.active ≤ c.poolSize
  | _, _ => True

/-- The future `n` is waited for, and pending. -/
def Waits (c : Client) (n : ℕ) : Prop := c.persona = .waiting n ∧ c.futures[n]? = some .pending

/-- The future `n` is waited for, and has its result: the persona goes on in its next turn. -/
def Woken (c : Client) (n : ℕ) : Prop :=
  c.persona = .waiting n ∧ c.futures[n]? = some (.result ())

/-- **The wake-up**: a wait ends, other than by its timeout, with a request that finishes and brings
the count down to the size of the pool, and with the first one that does. -/
def WokenBy (c : Client) (e : Event) (c' : Client) : Prop :=
  ∀ n, c.Waits n → (c'.Woken n ↔ (∃ i how, e = .finish i how) ∧ c'.active ≤ c'.poolSize)

/-- The steps of runs where nothing goes wrong. -/
def Careful (c : Client) : Event → Prop
  | .abort _ => False
  -- no `waiter` is left of a wait that has timed out
  | .begin => c.waiter = none ∨ c.active ≤ c.poolSize
  | .start => ∀ n, c.Woken n → c.active < c.poolSize
  | _ => True

end Client

/-! ## 3. What one step does -/

namespace Client

variable {c c' : Client} {e : Event} {i n : ℕ}

/-- `notify` is about the future and the `waiter`. -/
theorem notify_eq (c : Client) :
    c.notify = { c with futures := c.notify.futures, waiter := c.notify.waiter } := by
  unfold notify
  split
  · rfl
  · split <;> rfl

@[simp] theorem notify_active (c : Client) : c.notify.active = c.active := by
  rw [notify_eq]

@[simp] theorem notify_poolSize (c : Client) : c.notify.poolSize = c.poolSize := by
  rw [notify_eq]

@[simp] theorem notify_requests (c : Client) : c.notify.requests = c.requests := by
  rw [notify_eq]

@[simp] theorem notify_persona (c : Client) : c.notify.persona = c.persona := by
  rw [notify_eq]

/-- **What a step of a request is**: an entry, an end that is counted, or one that is not. -/
theorem stepEnter_eq (h : c.stepEnter i = some c') :
    ∃ sem, c.requests[i]? = some .queued ∧ c' = { c.setStage i .running with sem := sem } := by
  unfold stepEnter at h
  split at h
  next sem hi _ => exact ⟨sem, hi, (Option.some.inj h).symm⟩
  next => cases h

theorem stepFinish_eq (h : c.stepFinish i = some c') :
    c.requests[i]? = some .running ∧
      c' = notify { c.setStage i .ended with active := c.active - 1, sem := c.sem + 1 } := by
  unfold stepFinish at h
  split at h
  next hi => exact ⟨hi, (Option.some.inj h).symm⟩
  next => cases h

theorem stepAbort_eq (h : c.stepAbort i = some c') :
    ∃ sem, c' = { c.setStage i .ended with sem := sem } := by
  unfold stepAbort at h
  split at h
  next => exact ⟨c.sem, (Option.some.inj h).symm⟩
  next => exact ⟨c.sem + 1, (Option.some.inj h).symm⟩
  next => cases h

theorem stepBegin_eq (h : c.stepBegin = some c') :
    c.persona = .calling ∧
      (c.waiter = none ∧ c' = { c with
          futures := c.futures ++ [.pending]
          waiter := some c.futures.length
          persona := .waiting c.futures.length } ∨
        c.waiter ≠ none ∧ c' = { c with persona := .generating }) := by
  unfold stepBegin at h
  split at h
  next hp =>
    refine ⟨hp, ?_⟩
    split at h
    next hw => exact .inl ⟨hw, (Option.some.inj h).symm⟩
    next hw => exact .inr ⟨hw ▸ Option.some_ne_none _, (Option.some.inj h).symm⟩
  next => cases h

theorem stepResume_eq (h : c.stepResume = some c') :
    ∃ n, c.Woken n ∧ c' = { c with persona := .generating } := by
  unfold stepResume at h
  split at h
  next n hp =>
    split at h
    next hn => exact ⟨n, ⟨hp, hn⟩, (Option.some.inj h).symm⟩
    next => cases h
  next => cases h

theorem stepExpire_eq (h : c.stepExpire = some c') : c'.persona = .generating ∧
    c'.active = c.active ∧ c'.poolSize = c.poolSize ∧ c'.requests = c.requests := by
  unfold stepExpire at h
  split at h
  next => cases h
  next => obtain rfl := Option.some.inj h; exact ⟨rfl, rfl, rfl, rfl⟩
  next => obtain rfl := Option.some.inj h; exact ⟨rfl, rfl, rfl, rfl⟩

theorem stepCall_eq (h : c.step .call = some c') :
    c.persona = .generating ∧ c' = { c with persona := .calling } := by
  simp only [step] at h
  split at h
  next hp => exact ⟨hp.1, (Option.some.inj h).symm⟩
  next => cases h

/-! ## 4. The future of the wait -/

/-- The future that is waited for is the `waiter`, until it has its result. -/
def Linked (c : Client) : Prop :=
  ∀ n, c.persona = .waiting n →
    c.futures[n]? = some .pending ∧ c.waiter = some n ∨ c.futures[n]? = some (.result ())

/-- The future is told, or not. -/
theorem notify_futures (hw : c.waiter = some n) (hn : c.futures[n]? = some .pending) :
    (c.active ≤ c.poolSize → c.notify.futures[n]? = some (.result ())) ∧
      (¬ c.active ≤ c.poolSize → c.notify.futures = c.futures ∧ c.notify.waiter = c.waiter) := by
  unfold notify
  rw [hw]
  dsimp only
  constructor
  · intro hle
    rw [if_pos hle]
    simp [hn, Future.setResult]
  · intro hgt
    rw [if_neg hgt]
    exact ⟨rfl, hw⟩

/-- A result stays. -/
theorem notify_result (hn : c.futures[n]? = some (.result ())) :
    c.notify.futures[n]? = some (.result ()) := by
  unfold notify
  split
  · exact hn
  · split
    · exact Future.getElem?_modify_of_ne (fun f hf => Future.setResult_of_ne hf ()) hn
        (fun h => by cases h) _
    · exact hn

theorem Linked.of_generating (hp : c.persona = .generating) : c.Linked := by
  intro n hn
  rw [hp] at hn
  cases hn

theorem Linked.notify (h : c.Linked) : c.notify.Linked := by
  intro n hn
  rw [notify_persona] at hn
  rcases h n hn with ⟨hpending, hw⟩ | hresult
  · by_cases hle : c.active ≤ c.poolSize
    · exact .inr ((notify_futures hw hpending).1 hle)
    · obtain ⟨hfutures, hwaiter⟩ := (notify_futures hw hpending).2 hle
      exact .inl ⟨by rw [hfutures, hpending], by rw [hwaiter, hw]⟩
  · exact .inr (notify_result hresult)

theorem linked_step (h : c.Linked) (hs : c.step e = some c') : c'.Linked := by
  cases e with
  | start => obtain rfl := Option.some.inj hs; exact h
  | enter i => obtain ⟨sem, -, rfl⟩ := stepEnter_eq hs; exact h
  | finish i how =>
    obtain ⟨-, rfl⟩ := stepFinish_eq hs
    exact Linked.notify (c := { c.setStage i .ended with active := c.active - 1, sem := c.sem + 1 }) h
  | abort i => obtain ⟨sem, rfl⟩ := stepAbort_eq hs; exact h
  | call =>
    obtain ⟨-, rfl⟩ := stepCall_eq hs
    intro n hn
    cases hn
  | begin =>
    obtain ⟨-, ⟨-, rfl⟩ | ⟨-, rfl⟩⟩ := stepBegin_eq hs
    · intro n hn
      obtain rfl : c.futures.length = n := Persona.waiting.inj hn
      exact .inl ⟨List.getElem?_concat_length, rfl⟩
    · exact Linked.of_generating rfl
  | resume =>
    obtain ⟨n, -, rfl⟩ := stepResume_eq hs
    exact Linked.of_generating rfl
  | expire => exact Linked.of_generating (stepExpire_eq hs).1

/-- **The first request that brings the count down, and nothing else, wakes the persona up.** -/
theorem wokenBy_step (h : c.Linked) (hs : c.step e = some c') : c.WokenBy e c' := by
  intro n hn
  have hpending : c.futures[n]? ≠ some (.result ()) := by rw [hn.2]; nofun
  have hstay : ∀ {d : Client}, d.futures = c.futures → ¬ d.Woken n := fun hd hw =>
    hpending (hd ▸ hw.2)
  have hother : (∀ i how, e ≠ .finish i how) → ¬ c'.Woken n →
      (c'.Woken n ↔ (∃ i how, e = .finish i how) ∧ c'.active ≤ c'.poolSize) := fun hne hw =>
    iff_of_false hw fun ⟨⟨i, how, he⟩, _⟩ => hne i how he
  cases e with
  | start => obtain rfl := Option.some.inj hs; exact hother (by nofun) (hstay rfl)
  | enter i => obtain ⟨sem, -, rfl⟩ := stepEnter_eq hs; exact hother (by nofun) (hstay rfl)
  | finish i how =>
    obtain ⟨-, rfl⟩ := stepFinish_eq hs
    obtain ⟨-, hw⟩ := (h n hn.1).resolve_right hpending
    set d : Client := { c.setStage i .ended with active := c.active - 1, sem := c.sem + 1 } with hd
    have htold := notify_futures (c := d) hw hn.2
    rw [notify_active, notify_poolSize, Woken, notify_persona]
    constructor
    · intro hwoken
      refine ⟨⟨i, how, rfl⟩, ?_⟩
      by_contra hgt
      rw [(htold.2 hgt).1] at hwoken
      exact hpending hwoken.2
    · exact fun hle => ⟨hn.1, htold.1 hle.2⟩
  | abort i => obtain ⟨sem, rfl⟩ := stepAbort_eq hs; exact hother (by nofun) (hstay rfl)
  | call => obtain ⟨hp, -⟩ := stepCall_eq hs; exact absurd (hn.1.symm.trans hp) (by nofun)
  | begin => obtain ⟨hp, -⟩ := stepBegin_eq hs; exact absurd (hn.1.symm.trans hp) (by nofun)
  | resume =>
    obtain ⟨m, hm, rfl⟩ := stepResume_eq hs
    exact hother (by nofun) (hstay rfl)
  | expire =>
    refine hother (by nofun) fun hw => ?_
    exact absurd (hw.1.symm.trans (stepExpire_eq hs).1) (by nofun)

end Client

/-! ## 5. The count -/

namespace Client

variable {c c' : Client} {e : Event} {i n : ℕ}

theorem inFlight_setStage {stage : Stage} (hi : c.requests[i]? = some stage) (stage' : Stage) :
    (c.setStage i stage').inFlight + (if stage ≠ .ended then 1 else 0) =
      c.inFlight + (if stage' ≠ .ended then 1 else 0) := by
  simpa [inFlight, setStage] using countP_set (fun s : Stage => decide (s ≠ .ended)) hi stage'

/-- **Every step but an abort keeps the counter right.** -/
theorem counted_step (h : c.Counted) (hs : c.step e = some c') (hc : c.Careful e) :
    c'.Counted := by
  unfold Counted at h ⊢
  cases e with
  | start =>
    obtain rfl := Option.some.inj hs
    simp [inFlight, h]
  | enter i =>
    obtain ⟨sem, hi, rfl⟩ := stepEnter_eq hs
    have hcount := inFlight_setStage hi .running
    exact h.trans (by exact_mod_cast (Nat.add_right_cancel hcount).symm)
  | finish i how =>
    obtain ⟨hi, rfl⟩ := stepFinish_eq hs
    have hcount := inFlight_setStage hi .ended
    rw [notify_active, inFlight, notify_requests]
    change c.active - 1 = ((c.setStage i .ended).inFlight : ℤ)
    simp at hcount
    omega
  | abort i => exact hc.elim
  | call => obtain ⟨-, rfl⟩ := stepCall_eq hs; exact h
  | begin =>
    obtain ⟨-, ⟨-, rfl⟩ | ⟨-, rfl⟩⟩ := stepBegin_eq hs
    · exact h
    · exact h
  | resume => obtain ⟨n, -, rfl⟩ := stepResume_eq hs; exact h
  | expire =>
    obtain ⟨-, hactive, -, hrequests⟩ := stepExpire_eq hs
    rw [hactive, inFlight, hrequests]
    exact h

/-! ## 6. Runs -/

/-- What holds as long as the steps are careful. -/
structure Good (c : Client) : Prop where
  linked : c.Linked
  counted : c.Counted
  woken : ∀ n, c.Woken n → c.active ≤ c.poolSize

theorem good_init (poolSize maxPoolSize : ℕ) : (init poolSize maxPoolSize).Good where
  linked := Linked.of_generating rfl
  counted := rfl
  woken n hn := absurd hn.1 (by nofun)

theorem not_woken_of_generating (hp : c.persona = .generating) : ¬ c.Woken n := fun hn =>
  absurd (hn.1.symm.trans hp) (by nofun)

/-- **A persona that has been woken up finds the count down.** -/
theorem woken_step (h : c.Good) (hs : c.step e = some c') (hc : c.Careful e) (hn : c'.Woken n) :
    c'.active ≤ c'.poolSize := by
  cases e with
  | start =>
    obtain rfl := Option.some.inj hs
    have hlt : c.active < c.poolSize := hc n hn
    dsimp only
    omega
  | enter i => obtain ⟨sem, -, rfl⟩ := stepEnter_eq hs; exact h.woken n hn
  | finish i how =>
    have hwoken := wokenBy_step h.linked hs n
    obtain ⟨-, rfl⟩ := stepFinish_eq hs
    have hp := hn.1
    rw [notify_persona] at hp
    change c.persona = .waiting n at hp
    rcases h.linked n hp with ⟨hpending, -⟩ | hresult
    · exact ((hwoken ⟨hp, hpending⟩).mp hn).2
    · have hle := h.woken n ⟨hp, hresult⟩
      rw [notify_active, notify_poolSize]
      change c.active - 1 ≤ c.poolSize
      omega
  | abort i => exact hc.elim
  | call => obtain ⟨-, rfl⟩ := stepCall_eq hs; exact absurd hn.1 (by nofun)
  | begin =>
    obtain ⟨-, ⟨-, rfl⟩ | ⟨-, rfl⟩⟩ := stepBegin_eq hs
    · obtain rfl : c.futures.length = n := Persona.waiting.inj hn.1
      exact absurd (hn.2.symm.trans List.getElem?_concat_length) (by nofun)
    · exact absurd hn (not_woken_of_generating rfl)
  | resume =>
    obtain ⟨m, -, rfl⟩ := stepResume_eq hs
    exact absurd hn (not_woken_of_generating rfl)
  | expire => exact absurd hn (not_woken_of_generating (stepExpire_eq hs).1)

theorem good_step (h : c.Good) (hs : c.step e = some c') (hc : c.Careful e) : c'.Good :=
  ⟨linked_step h.linked hs, counted_step h.counted hs hc, fun _ hn => woken_step h hs hc hn⟩

/-- **The wait returns in time.** -/
theorem returns_step (h : c.Good) (hs : c.step e = some c') (hc : c.Careful e) :
    c.Returns e c' := by
  cases e with
  | begin =>
    intro hp
    obtain ⟨-, ⟨-, rfl⟩ | ⟨hw, -⟩⟩ := stepBegin_eq hs
    · cases hp
    · exact hc.resolve_left hw
  | resume =>
    obtain ⟨n, hn, -⟩ := stepResume_eq hs
    exact h.woken n hn
  | _ => trivial

/-- **Back-pressure**: in a run whose steps are careful the counter is the number of requests in
flight, the wait does not return before the count is down, and the first request that brings it down
wakes the persona up. -/
theorem safe_of_careful (poolSize maxPoolSize : ℕ) {es : List Event}
    (h : Along step (fun c e _ => c.Careful e) (init poolSize maxPoolSize) es) :
    Always step Counted (init poolSize maxPoolSize) es ∧
      Along step (fun c e c' => c.Returns e c' ∧ c.WokenBy e c') (init poolSize maxPoolSize) es :=
  ⟨(Along.always (fun _ _ _ hc hs hcareful => good_step hc hs hcareful)
      (good_init poolSize maxPoolSize) h).mono fun _ => Good.counted,
    h.of_invariant (J := Good) (fun _ _ _ hc hs hcareful =>
      ⟨good_step hc hs hcareful, returns_step hc hs hcareful, wokenBy_step hc.linked hs⟩)
      (good_init poolSize maxPoolSize)⟩

/-- Two requests: the persona waits for one of them, and goes on when it has completed. -/
def twoRequests : List Event :=
  [.start, .start, .call, .begin, .enter 0, .finish 0 .completed, .resume]

example : (run step (init 1 1) twoRequests).map (fun c => (c.active, c.persona)) =
    some (1, .generating) := by decide

theorem safe_of_careful_two :
    Along step (fun c e _ => c.Careful e) (init 1 1) twoRequests ∧
      Always step Counted (init 1 1) twoRequests ∧
      Along step (fun c e c' => c.Returns e c' ∧ c.WokenBy e c') (init 1 1) twoRequests := by
  have h : Along step (fun c e _ => c.Careful e) (init 1 1) twoRequests := by
    rintro _ ⟨⟩
    refine ⟨fun n hn => absurd hn (not_woken_of_generating rfl), ?_⟩
    rintro _ ⟨⟩
    refine ⟨fun n hn => absurd hn (not_woken_of_generating rfl), ?_⟩
    rintro _ ⟨⟩
    refine ⟨trivial, ?_⟩
    rintro _ ⟨⟩
    refine ⟨.inl rfl, ?_⟩
    -- the wake-up
    rintro _ ⟨⟩
    refine ⟨trivial, ?_⟩
    rintro _ ⟨⟩
    refine ⟨trivial, ?_⟩
    rintro _ ⟨⟩
    exact ⟨trivial, trivial⟩
  exact ⟨h, safe_of_careful 1 1 h⟩

/-- The persona that waits again, after its wait has timed out, does not wait: two requests are active,
where the pool has one connection. -/
theorem stale_waiter :
    ¬ Along step (fun c e c' => c.Returns e c' ∧ c.WokenBy e c') (init 1 1)
      [.start, .start, .call, .begin, .expire, .call, .begin] := by
  intro h
  have hlast := ((((((h _ rfl).2 _ rfl).2 _ rfl).2 _ rfl).2 _ rfl).2 _ rfl).2 _ rfl
  exact absurd (hlast.1.1 rfl) (by decide)

end Client

end BackPressure
end Engines
end Hedra
