/-
# The workers of a batch executor

The stages of a batch share the workers of a `BatchExecutor`: `_execute_stage` acquires as many as
the stage has been assigned, executes, and gives them back.  `BatchedSemaphore`
(`core/graphs/stages/base/parallel/synchronization/batched_semaphore.py`) is asyncio's semaphore
with a number of units for each call.  It still waits only while no unit at all is free, so that a
stage may take more than there are; what a stage holds that fails, or is cancelled, is not given
back; and when a stage is cancelled that was woken last, nothing clears `_wakeup_scheduled`.

These are the steps that go wrong, and all others keep the books.

* `wakeUpNext_spec`: what a wake-up does;
* `safe_step_iff`: one step keeps the books;
* `always_accounted_iff`: they are right in all states of a run if and only if each step keeps them.
-/
import Mathlib.Data.PNat.Notation
import Mathlib.Data.PNat.Defs
import Hedra.Engines.BalancingSemaphore

namespace Hedra
namespace Graphs

open Lib Machine
open Engines (Wait)

namespace Workers

/-! ## 1. The semaphore and its stages -/

/-- A call of `_execute_stage`.  The partition of the stages gives each of them a worker at least. -/
inductive Task
  | waiting
      (workers : ℕ+) (wait : Wait)
  | holding
      (workers : ℕ+)
  | ended
deriving DecidableEq

/-- A `BatchedSemaphore` with the tasks that have called it.  A task waits for one future at a time,
and so its number stands for the future in the line. -/
structure BatchedSemaphore where
  value : ℤ
  waiters : List ℕ
  wakeupScheduled : Bool
  tasks : List Task

namespace BatchedSemaphore

/-- `BatchedSemaphore(max_workers)` -/
def init (maxWorkers : ℕ) : BatchedSemaphore where
  value := maxWorkers
  waiters := []
  wakeupScheduled := false
  tasks := []

/-- What a task waits for whose future is not done. -/
def wanted : Task → Option ℕ+
  | .waiting workers .pending => some workers
  | _ => none

/-- `waiter.set_result(None)` -/
def setResult : Task → Task
  | .waiting workers .pending => .waiting workers .woken
  | task => task

/-- The loop of `_wake_up_next`: the line after it, and the waiter that is woken. -/
def wakeUp (tasks : List Task) : List ℕ → List ℕ × Option ℕ
  | [] => ([], none)
  | waiter :: waiters =>
    if (tasks[waiter]?.bind wanted).isSome then (waiters, some waiter) else wakeUp tasks waiters

/-- `_wake_up_next` -/
def wakeUpNext (s : BatchedSemaphore) : BatchedSemaphore :=
  match wakeUp s.tasks s.waiters with
  | (line, none) => { s with waiters := line }
  | (line, some waiter) => { s with
      waiters := line
      tasks := s.tasks.modify waiter setResult
      wakeupScheduled := true }

/-- Task `i` at the head of the loop of `acquire`: it waits, or it takes its workers. -/
def enterLoop (s : BatchedSemaphore) (i : ℕ) (workersCount : ℕ+) : BatchedSemaphore :=
  if s.wakeupScheduled ∨ s.value ≤ 0 then
    { s with
      waiters := s.waiters ++ [i]
      tasks := s.tasks.set i (.waiting workersCount .pending) }
  else
    { s with
      value := s.value - workersCount
      tasks := s.tasks.set i (.holding workersCount) }

/-- `acquire`, by a new task. -/
def acquire (s : BatchedSemaphore) (workersCount : ℕ+) : BatchedSemaphore :=
  enterLoop { s with tasks := s.tasks ++ [.ended] } s.tasks.length workersCount

/-- `release`, by a task that holds the workers. -/
def release (s : BatchedSemaphore) (i : ℕ) (workersCount : ℕ+) : BatchedSemaphore :=
  wakeUpNext { s with
    value := s.value + workersCount
    tasks := s.tasks.set i .ended }

/-- A task goes on whose future is done. -/
def resume (s : BatchedSemaphore) (i : ℕ) : Task → Option BatchedSemaphore
  | .waiting workers .woken => some (enterLoop { s with wakeupScheduled := false } i workers)
  | .waiting _ .cancelled | .waiting _ .wokenCancelled =>
    some (wakeUpNext { s with tasks := s.tasks.set i .ended })
  | _ => none

/-- `task.cancel()` of a task that waits: its future is cancelled, or the task is when it goes on. -/
def cancelled : Task → Option Task
  | .waiting workers .pending => some (.waiting workers .cancelled)
  | .waiting workers .woken => some (.waiting workers .wokenCancelled)
  | _ => none

inductive Event
  /-- `_execute_stage` is called. -/
  | execute
      (assignedWorkersCount : ℕ+)
  /-- `execute_stage_batch` returns. -/
  | finish
      (task : ℕ)
  /-- It raises, or is cancelled; `release` is behind it. -/
  | fail
      (task : ℕ)
  /-- A task goes on behind `await fut`. -/
  | resume
      (task : ℕ)
  /-- A task is cancelled that waits. -/
  | cancel
      (task : ℕ)
deriving DecidableEq

def step (s : BatchedSemaphore) : Event → Option BatchedSemaphore
  | .execute workersCount => some (s.acquire workersCount)
  | .finish i =>
    match s.tasks[i]? with
    | some (.holding workersCount) => some (s.release i workersCount)
    | _ => none
  | .fail i =>
    match s.tasks[i]? with
    | some (.holding _) => some { s with tasks := s.tasks.set i .ended }
    | _ => none
  | .resume i => s.tasks[i]?.bind (s.resume i)
  | .cancel i => (s.tasks[i]?.bind cancelled).map fun task =>
      { s with tasks := s.tasks.set i task }

/-! ## 2. What should hold -/

def workersOf : Task → ℕ
  | .holding workers => workers
  | _ => 0

/-- The workers that are held. -/
def held (tasks : List Task) : ℕ := (tasks.map workersOf).sum

/-- What the first of the waiting stages needs. -/
def first (tasks : List Task) (waiters : List ℕ) : Option ℕ+ :=
  waiters.findSome? fun i => tasks[i]?.bind wanted

/-- Who is counted on to wake a stage that waits: only the tasks that are about to go on, or also
those that will give their workers back. -/
inductive Wakers
  | underWay
  | orRunning
deriving DecidableEq

def wakes (wakers : Wakers) : Task → Bool
  | .waiting _ .pending => false
  | .waiting _ _ => true
  | .holding _ => wakers = .orRunning
  | .ended => false

/-- Somebody will wake the first of the waiting stages. -/
def Attended (wakers : Wakers) (tasks : List Task) : Prop := ∃ t ∈ tasks, wakes wakers t = true

/-- **The books are right**: no more workers are held than there are, the counter has those that are
not held, and there are never enough of them for a stage that nobody will wake. -/
structure Safe (maxWorkers : ℕ) (wakers : Wakers) (s : BatchedSemaphore) : Prop where
  held_le : held s.tasks ≤ maxWorkers
  nonneg : 0 ≤ s.value
  given_back : s.value + held s.tasks = maxWorkers
  woken : ∀ n, first s.tasks s.waiters = some n → n ≤ s.value → Attended wakers s.tasks

/-- The steps that do not go wrong: a stage that does not wait finds as many workers as it takes; one
that waits does so for workers that are not there, or is not the first, or is attended to; one that
was woken leaves too few for the next, or somebody attends to it; and none fails that holds workers. -/
def Orderly (wakers : Wakers) (s : BatchedSemaphore) : Event → BatchedSemaphore → Prop
  | .execute n, _ =>
    if s.wakeupScheduled ∨ s.value ≤ 0 then
      first s.tasks s.waiters = none → s.value < n ∨ Attended wakers s.tasks
    else n ≤ s.value
  | .resume i, _ =>
    match s.tasks[i]? with
    | some (.waiting n .woken) =>
      0 < s.value → n ≤ s.value ∧ ∀ m, first s.tasks s.waiters = some m →
        s.value < n + m ∨ Attended wakers (s.tasks.set i (.holding n))
    | _ => True
  | .fail _, _ => False
  | .finish _, _ | .cancel _, _ => True

/-! ## 3. One task goes on -/

variable {s s' : BatchedSemaphore} {wakers : Wakers} {maxWorkers i : ℕ} {t t' : Task} {n : ℕ+}
  {tasks : List Task} {waiters : List ℕ}

theorem held_set (h : tasks[i]? = some t) (t' : Task) :
    held (tasks.set i t') + workersOf t = held tasks + workersOf t' := by
  have hi : (tasks.map workersOf)[i]? = some (workersOf t) := by rw [List.getElem?_map, h]; rfl
  rw [held, List.map_set]
  exact Tasks.sum_set hi _

theorem mem_set (h : tasks[i]? = some t) (t' : Task) : t' ∈ tasks.set i t' :=
  List.mem_set (List.getElem?_eq_some_iff.mp h).1 t'

theorem getElem?_set_self (h : tasks[i]? = some t) (t' : Task) : (tasks.set i t')[i]? = some t' :=
  List.getElem?_set_self (List.getElem?_eq_some_iff.mp h).1

/-- A task that waits neither before nor after does not change who is the first. -/
theorem first_set (h : tasks[i]? = some t) (ht : wanted t = none) (ht' : wanted t' = none) :
    first (tasks.set i t') waiters = first tasks waiters := by
  have hsame : ∀ j : ℕ, (tasks.set i t')[j]?.bind wanted = tasks[j]?.bind wanted := by
    intro j
    by_cases hj : i = j
    · rw [← hj, h, getElem?_set_self h, Option.bind_some, Option.bind_some, ht, ht']
    · rw [List.getElem?_set_ne hj]
  simp only [first, hsame]

/-- The line has tasks only. -/
def Wf (s : BatchedSemaphore) : Prop := ∀ i ∈ s.waiters, i < s.tasks.length

theorem attended_of_mem (h : t ∈ tasks) (ht : wakes wakers t = true) : Attended wakers tasks :=
  ⟨t, h, ht⟩

/-! ## 4. Wake-ups -/

theorem wakeUp_spec (tasks : List Task) (waiters : List ℕ) :
    (∀ i ∈ (wakeUp tasks waiters).1, i ∈ waiters) ∧
      match (wakeUp tasks waiters).2 with
      | none => first tasks (wakeUp tasks waiters).1 = none
      | some waiter => ∃ n, tasks[waiter]? = some (.waiting n .pending) := by
  induction waiters with
  | nil => exact ⟨fun i hi => hi, rfl⟩
  | cons waiter waiters ih =>
    rw [wakeUp]
    split
    · next hwaits =>
      refine ⟨fun i hi => List.mem_cons_of_mem _ hi, ?_⟩
      obtain ⟨n, hn⟩ := Option.isSome_iff_exists.mp hwaits
      obtain ⟨t, ht, hwanted⟩ := Option.bind_eq_some_iff.mp hn
      unfold wanted at hwanted
      split at hwanted
      · exact ⟨_, ht⟩
      · cases hwanted
    · exact ⟨fun i hi => List.mem_cons_of_mem _ (ih.1 i hi), ih.2⟩

/-- A line of tasks that there are stays one, whatever becomes of one of them. -/
theorem wf_set {value : ℤ} {line : List ℕ} {b : Bool} (h : ∀ j ∈ line, j < tasks.length) (i : ℕ)
    (t : Task) : Wf ⟨value, line, b, tasks.set i t⟩ := by
  intro j hj
  rw [List.length_set]
  exact h j hj

/-- **A wake-up** takes and gives no workers; either nobody waits behind it, or somebody is woken. -/
theorem wakeUpNext_spec (hwf : s.Wf) :
    s.wakeUpNext.Wf ∧ s.wakeUpNext.value = s.value ∧ held s.wakeUpNext.tasks = held s.tasks ∧
      ∀ wakers, first s.wakeUpNext.tasks s.wakeUpNext.waiters = none ∨
        Attended wakers s.wakeUpNext.tasks := by
  have hspec := wakeUp_spec s.tasks s.waiters
  unfold wakeUpNext
  generalize wakeUp s.tasks s.waiters = p at hspec ⊢
  obtain ⟨line, woken⟩ := p
  obtain ⟨hline, hspec⟩ := hspec
  cases woken with
  | none => exact ⟨fun i hi => hwf i (hline i hi), rfl, rfl, fun _ => .inl hspec⟩
  | some waiter =>
    obtain ⟨n, hn⟩ := hspec
    have hmodify : s.tasks.modify waiter setResult = s.tasks.set waiter (.waiting n .woken) := by
      rw [Tasks.modify_eq_set hn]
      rfl
    dsimp only
    rw [hmodify]
    refine ⟨wf_set (fun i hi => hwf i (hline i hi)) waiter (.waiting n .woken), rfl,
      held_set hn (.waiting n .woken), fun _ => .inr ?_⟩
    exact attended_of_mem (mem_set hn _) rfl

/-- So the books are right behind it, if nothing was held or given back wrongly. -/
theorem safe_wakeUpNext (hwf : s.Wf) (hnonneg : 0 ≤ s.value)
    (hback : s.value + held s.tasks = maxWorkers) : s.wakeUpNext.Safe maxWorkers wakers := by
  obtain ⟨-, hvalue, hheld, hwoken⟩ := wakeUpNext_spec hwf
  refine ⟨by omega, by omega, by omega, fun n hn _ => ?_⟩
  refine (hwoken wakers).resolve_left fun hnone => ?_
  rw [hnone] at hn
  cases hn

/-! ## 5. The loop of `acquire` -/

/-- A task takes its workers, if there are as many. -/
theorem safe_take_iff (hs : s.Safe maxWorkers wakers) (hi : tasks[i]? = some t)
    (hheld : held tasks = held s.tasks) (ht : workersOf t = 0) (b : Bool) :
    Safe maxWorkers wakers ⟨s.value - n, waiters, b, tasks.set i (.holding n)⟩ ↔
      n ≤ s.value ∧ ∀ m, first (tasks.set i (.holding n)) waiters = some m →
        s.value < n + m ∨ Attended wakers (tasks.set i (.holding n)) := by
  have hset := held_set hi (.holding n)
  have hn : workersOf (.holding n) = n := rfl
  have hback := hs.given_back
  constructor
  · intro h
    have hnonneg := h.nonneg
    dsimp only at hnonneg
    refine ⟨by omega, fun m hm => ?_⟩
    by_cases hle : (m : ℤ) ≤ s.value - n
    · exact .inr (h.woken m hm hle)
    · exact .inl (by omega)
  · rintro ⟨hle, hwoken⟩
    refine ⟨?_, ?_, ?_, fun m hm hm' => (hwoken m hm).resolve_left ?_⟩ <;> dsimp only at * <;> omega

/-- A task that waits while there is nothing to take waits rightly. -/
theorem safe_wait (hs : s.Safe maxWorkers wakers) (hvalue : s.value ≤ 0)
    (hheld : held tasks = held s.tasks) (b : Bool) :
    Safe maxWorkers wakers ⟨s.value, waiters, b, tasks⟩ := by
  have hnonneg := hs.nonneg
  refine ⟨hheld ▸ hs.held_le, hnonneg, hheld ▸ hs.given_back, fun m _ hm => ?_⟩
  have hpos := m.pos
  dsimp only at hm
  omega

theorem wf_enterLoop (hwf : s.Wf) (hi : i < s.tasks.length) (n : ℕ+) : (s.enterLoop i n).Wf := by
  unfold enterLoop
  split
  · refine wf_set (fun j hj => ?_) i (.waiting n .pending)
    rcases List.mem_append.mp hj with hj | hj
    · exact hwf j hj
    · exact (List.mem_singleton.mp hj) ▸ hi
  · exact wf_set hwf i (.holding n)

/-! ## 6. One step -/

/-- A task that comes changes nothing for those that are there. -/
theorem first_append_tasks (hwf : s.Wf) (t : Task) :
    first (s.tasks ++ [t]) s.waiters = first s.tasks s.waiters := by
  have hsame : ∀ line : List ℕ, (∀ i ∈ line, i < s.tasks.length) →
      first (s.tasks ++ [t]) line = first s.tasks line := by
    intro line hline
    induction line with
    | nil => rfl
    | cons i line ih =>
      obtain ⟨hi, hrest⟩ := List.forall_mem_cons.mp hline
      have hrest := ih hrest
      rw [first] at hrest ⊢
      rw [List.findSome?_cons, List.getElem?_append_left hi, hrest, first, first,
        List.findSome?_cons]
  exact hsame s.waiters hwf

theorem first_enroll (tasks : List Task) (waiters : List ℕ) (i : ℕ) :
    first tasks (waiters ++ [i]) = (first tasks waiters).or (tasks[i]?.bind wanted) := by
  rw [first, List.findSome?_append, List.findSome?_singleton, first]

theorem attended_append (tasks : List Task) (t : Task) :
    Attended wakers (tasks ++ [t]) ↔ Attended wakers tasks ∨ wakes wakers t = true := by
  simp only [Attended, List.mem_append, List.mem_singleton, or_and_right, exists_or, exists_eq_left]

theorem step_execute (hwf : s.Wf) (hs : s.Safe maxWorkers wakers) (n : ℕ+) :
    (s.acquire n).Safe maxWorkers wakers ↔ s.Orderly wakers (.execute n) (s.acquire n) := by
  have hlast : (s.tasks ++ [Task.ended])[s.tasks.length]? = some .ended := by simp
  have hset : ∀ t, (s.tasks ++ [Task.ended]).set s.tasks.length t = s.tasks ++ [t] := by simp
  have hheld : held (s.tasks ++ [Task.ended]) = held s.tasks := by simp [held, workersOf]
  have hback := hs.given_back
  simp only [Orderly, acquire, enterLoop]
  split
  · next hwaits =>
    -- the task waits: it is the first if there was none
    have hheld' : held (s.tasks ++ [.waiting n .pending]) = held s.tasks := by
      simp [held, workersOf]
    have hfirst : first (s.tasks ++ [.waiting n .pending]) (s.waiters ++ [s.tasks.length]) =
        (first s.tasks s.waiters).or (some n) := by
      rw [first_enroll, first_append_tasks hwf, List.getElem?_concat_length]
      rfl
    have hattended : Attended wakers (s.tasks ++ [.waiting n .pending]) ↔ Attended wakers s.tasks :=
      (attended_append s.tasks _).trans (or_iff_left (by simp [wakes]))
    rw [hset]
    constructor
    · intro h hnone
      by_cases hlt : s.value < n
      · exact .inl hlt
      · have hwoken := h.woken n (by rw [hfirst, hnone]; rfl) (not_lt.mp hlt)
        exact .inr (hattended.mp hwoken)
    · intro h
      refine ⟨hheld' ▸ hs.held_le, hs.nonneg, hheld' ▸ hback, fun m hm hle => hattended.mpr ?_⟩
      dsimp only at hm hle
      rw [hfirst] at hm
      cases hnone : first s.tasks s.waiters with
      | none =>
        rw [hnone] at hm
        obtain rfl := Option.some.inj hm
        exact (h hnone).resolve_left (not_lt.mpr hle)
      | some m' =>
        rw [hnone] at hm
        obtain rfl := Option.some.inj hm
        exact hs.woken m' hnone hle
  · refine (safe_take_iff hs hlast hheld rfl _).trans (and_iff_left_of_imp fun _ m hm => ?_)
    rw [first_set hlast rfl rfl, first_append_tasks hwf] at hm
    rw [hset, attended_append]
    by_cases hlt : s.value < n + m
    · exact .inl hlt
    · have hpos := n.pos
      exact .inr (.inl (hs.woken m hm (by omega)))

theorem step_woken (hs : s.Safe maxWorkers wakers) (hi : s.tasks[i]? = some (.waiting n .woken)) :
    (enterLoop { s with wakeupScheduled := false } i n).Safe maxWorkers wakers ↔
      (0 < s.value → n ≤ s.value ∧ ∀ m, first s.tasks s.waiters = some m →
        s.value < n + m ∨ Attended wakers (s.tasks.set i (.holding n))) := by
  simp only [enterLoop, Bool.false_eq_true, false_or]
  split
  · next hvalue =>
    have hheld := held_set hi (.waiting n .pending)
    exact iff_of_true (safe_wait hs hvalue hheld false) fun hpos => absurd hvalue (not_le.mpr hpos)
  · next hvalue =>
    rw [safe_take_iff hs hi rfl rfl false, first_set hi rfl rfl]
    exact ⟨fun h _ => h, fun h => h (not_le.mp hvalue)⟩

/-- A task that is cancelled and goes on hands the wake-up on. -/
theorem step_cancelled (hwf : s.Wf) (hs : s.Safe maxWorkers wakers) (hi : s.tasks[i]? = some t)
    (ht : workersOf t = 0) :
    (wakeUpNext { s with tasks := s.tasks.set i .ended }).Wf ∧
      (wakeUpNext { s with tasks := s.tasks.set i .ended }).Safe maxWorkers wakers := by
  have hheld := held_set hi .ended
  have hback := hs.given_back
  have hended : workersOf .ended = 0 := rfl
  have hwf' : Wf { s with tasks := s.tasks.set i .ended } := wf_set hwf i .ended
  refine ⟨(wakeUpNext_spec hwf').1, safe_wakeUpNext hwf' hs.nonneg ?_⟩
  dsimp only
  omega

/-- A batch gives its workers back. -/
theorem safe_finish (hwf : s.Wf) (hs : s.Safe maxWorkers wakers)
    (h : step s (.finish i) = some s') : s'.Wf ∧ s'.Safe maxWorkers wakers := by
  have hback := hs.given_back
  simp only [step] at h
  split at h
  · next n hi =>
    obtain rfl := Option.some.inj h
    have hheld := held_set hi .ended
    have hn : workersOf (.holding n) = n := rfl
    have hended : workersOf .ended = 0 := rfl
    have hnonneg := hs.nonneg
    have hwf' : Wf { s with value := s.value + n, tasks := s.tasks.set i .ended } :=
      wf_set hwf i .ended
    refine ⟨(wakeUpNext_spec hwf').1, safe_wakeUpNext hwf' ?_ ?_⟩
    all_goals
      dsimp only
      omega
  · cases h

/-- A batch raises: `release` is behind it, and its workers stay out. -/
theorem not_safe_fail (hwf : s.Wf) (hs : s.Safe maxWorkers wakers)
    (h : step s (.fail i) = some s') : s'.Wf ∧ ¬s'.Safe maxWorkers wakers := by
  have hback := hs.given_back
  simp only [step] at h
  split at h
  · next n hi =>
    obtain rfl := Option.some.inj h
    have hheld := held_set hi .ended
    have hn : workersOf (.holding n) = n := rfl
    have hended : workersOf .ended = 0 := rfl
    have hpos := n.pos
    refine ⟨wf_set hwf i .ended, fun hs' => ?_⟩
    have hback' := hs'.given_back
    dsimp only at hback'
    omega
  · cases h

/-- A task that waits is cancelled. -/
theorem safe_cancel (hwf : s.Wf) (hs : s.Safe maxWorkers wakers)
    (h : step s (.cancel i) = some s') : s'.Wf ∧ s'.Safe maxWorkers wakers := by
  obtain ⟨t', ht', rfl⟩ := Option.map_eq_some_iff.mp h
  obtain ⟨t, hi, ht'⟩ := Option.bind_eq_some_iff.mp ht'
  have hheld := held_set hi t'
  have hcases : workersOf t' = workersOf t ∧ wakes wakers t' = true := by
    unfold cancelled at ht'
    split at ht'
    · exact Option.some.inj ht' ▸ ⟨rfl, rfl⟩
    · exact Option.some.inj ht' ▸ ⟨rfl, rfl⟩
    · cases ht'
  have hsame : held (s.tasks.set i t') = held s.tasks := by omega
  refine ⟨wf_set hwf i t', ⟨?_, hs.nonneg, ?_, fun n _ _ => ?_⟩⟩
  · exact hsame ▸ hs.held_le
  · exact hsame ▸ hs.given_back
  · exact attended_of_mem (mem_set hi t') hcases.2

/-- **One step.** -/
theorem safe_step_iff {ev : Event} (hwf : s.Wf) (hs : s.Safe maxWorkers wakers)
    (h : step s ev = some s') :
    s'.Wf ∧ (s'.Safe maxWorkers wakers ↔ s.Orderly wakers ev s') := by
  cases ev with
  | execute n =>
    obtain rfl := Option.some.inj h
    refine ⟨wf_enterLoop (fun j hj => ?_) (by simp) n, step_execute hwf hs n⟩
    have hlt := hwf j hj
    simp only [List.length_append]
    omega
  | finish i => exact (safe_finish hwf hs h).imp_right fun hsafe => iff_of_true hsafe trivial
  | fail i => exact (not_safe_fail hwf hs h).imp_right fun hnot => iff_of_false hnot fun h => h
  | resume i =>
    obtain ⟨t, hi, h⟩ := Option.bind_eq_some_iff.mp h
    simp only [Orderly, hi]
    unfold resume at h
    split at h
    · next n =>
      obtain rfl := Option.some.inj h
      have hwf' : Wf { s with wakeupScheduled := false } := hwf
      exact ⟨wf_enterLoop hwf' (List.getElem?_eq_some_iff.mp hi).1 n, step_woken hs hi⟩
    · obtain rfl := Option.some.inj h
      have hnext := step_cancelled hwf hs hi rfl
      exact ⟨hnext.1, iff_of_true hnext.2 trivial⟩
    · obtain rfl := Option.some.inj h
      have hnext := step_cancelled hwf hs hi rfl
      exact ⟨hnext.1, iff_of_true hnext.2 trivial⟩
    · cases h
  | cancel i => exact (safe_cancel hwf hs h).imp_right fun hsafe => iff_of_true hsafe trivial

/-! ## 7. Whole runs -/

theorem safe_init (maxWorkers : ℕ) (wakers : Wakers) : (init maxWorkers).Safe maxWorkers wakers :=
  ⟨Nat.zero_le _, Int.natCast_nonneg _, Int.add_zero _, fun _ hn _ => by cases hn⟩

/-- **The books are right in all states of a run if and only if no step of it goes wrong.** -/
theorem always_accounted_iff (maxWorkers : ℕ) (wakers : Wakers) (evs : List Event) :
    Always step (Safe maxWorkers wakers) (init maxWorkers) evs ↔
      Along step (Orderly wakers) (init maxWorkers) evs := by
  have hwf : (init maxWorkers).Wf := fun _ hi => absurd hi List.not_mem_nil
  refine always_iff_along_of_invariant (fun s ev s' hwf hs h => ?_) hwf
    (safe_init maxWorkers wakers)
  exact safe_step_iff hwf hs h

/-- Two workers: a stage that needs both is woken when one of them is given back; a stage fails; and
one is cancelled that was woken last, so that the next one waits for nobody. -/
theorem not_always_accounted :
    ¬ Always step (Safe 2 .orRunning) (init 2)
        [.execute 1, .execute 1, .execute 2, .finish 0, .resume 2] ∧
      ¬ Always step (Safe 2 .orRunning) (init 2) [.execute 1, .fail 0] ∧
      ¬ Always step (Safe 2 .orRunning) (init 2)
        [.execute 2, .execute 1, .finish 0, .cancel 1, .resume 1, .execute 1] := by
  refine ⟨fun h => ?_, fun h => ?_, fun h => ?_⟩
  · exact absurd (h.last rfl).nonneg (by decide)
  · exact absurd (h.last rfl).given_back (by decide)
  · obtain ⟨t, ht, hwakes⟩ := (h.last rfl).woken 1 rfl (by decide)
    revert t
    decide

end BatchedSemaphore
end Workers
end Graphs
end Hedra
