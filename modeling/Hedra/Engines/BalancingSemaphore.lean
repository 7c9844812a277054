/-
# The balancing semaphore

`BalancingSemaphore` (`core/engines/types/common/concurrency/balancing_semaphore.py`) has a line of
waiters for each of its slots.  A task that wants a slot chooses the line of the slot that is busy
the least, once, and waits there while a wake-up is on its way or the slot is busy.  `release` frees
the slot that is busy the most and wakes the next one of its line.

No slot is ever taken twice, so there are never more holders than slots.  But wake-ups get lost: a
line may be empty while tasks wait in another one; a task that is woken may find its slot taken and
another one free; and when a task is cancelled that was woken last, nothing clears
`_wakeup_scheduled`, and whoever comes then waits for nobody.

* `holders_le`: there are never more holders than slots, in any run;
* `safe_step_iff`: one step loses no wake-up;
* `always_safe_iff`: the semaphore is safe in all states of a run if and only if no step of it loses
  one.
-/
import Hedra.Lib.Machine
import Hedra.Lib.Tasks

namespace Hedra
namespace Engines

open Lib Machine

/-! ## 1. The semaphore and its tasks -/

/-- The future a task waits for, with what `cancel` makes of the wait. -/
inductive Wait
  | pending
  /-- Its result is set. -/
  | woken
  /-- Cancelled before its result was set. -/
  | cancelled
  /-- The task is cancelled after its result was set. -/
  | wokenCancelled
deriving DecidableEq

/-- A task that calls `acquire`. -/
inductive Task
  | waiting
      (minIdx : Nat) (wait : Wait)
  | holding
  | ended
deriving DecidableEq

/-- A `BalancingSemaphore` with the tasks that have called it.  A task waits for one future at a
time, and so its number stands for the future in a line. -/
structure BalancingSemaphore where
  waiters : List (List Nat)
  busy : List Nat
  wakeupScheduled : Bool
  tasks : List Task

namespace BalancingSemaphore

/-- `BalancingSemaphore(value)` -/
def init (value : Nat) : BalancingSemaphore where
  waiters := List.replicate value []
  busy := List.replicate value 0
  wakeupScheduled := false
  tasks := []

/-- `waiter.done()` is false. -/
def isPending : Task → Bool
  | .waiting _ .pending => true
  | _ => false

/-- `waiter.set_result(None)` -/
def setResult : Task → Task
  | .waiting minIdx .pending => .waiting minIdx .woken
  | task => task

/-- The loop of `_wake_up_next`: the line after it, and the waiter that is woken. -/
def wakeUp (tasks : List Task) : List Nat → List Nat × Option Nat
  | [] => ([], none)
  | waiter :: waiters =>
    if (tasks[waiter]?).any isPending then (waiters, some waiter) else wakeUp tasks waiters

/-- `_wake_up_next` -/
def wakeUpNext (s : BalancingSemaphore) (minIdx : Nat) : BalancingSemaphore :=
  match wakeUp s.tasks (s.waiters.getD minIdx []) with
  | (line, none) => { s with waiters := s.waiters.set minIdx line }
  | (line, some waiter) => { s with
      waiters := s.waiters.set minIdx line
      tasks := s.tasks.modify waiter setResult
      wakeupScheduled := true }

/-- Task `i` at the head of the loop of `acquire`: it waits, or it takes the slot. -/
def enterLoop (s : BalancingSemaphore) (i minIdx : Nat) : BalancingSemaphore :=
  if s.wakeupScheduled ∨ 0 < s.busy.getD minIdx 0 then
    { s with
      waiters := s.waiters.modify minIdx (· ++ [i])
      tasks := s.tasks.set i (.waiting minIdx .pending) }
  else
    { s with
      busy := s.busy.modify minIdx (· + 1)
      tasks := s.tasks.set i .holding }

/-- A new task calls `acquire`.  The minimum of no slots raises. -/
def acquire (s : BalancingSemaphore) : BalancingSemaphore :=
  let s' := { s with tasks := s.tasks ++ [.ended] }
  match s.busy.min? with
  | none => s'
  | some minQueue => s'.enterLoop s.tasks.length (s.busy.idxOf minQueue)

/-- `max_idx` of `release`. -/
def maxIdx (s : BalancingSemaphore) : Nat := s.busy.idxOf (s.busy.max?.getD 0)

/-- `release`, by a task that holds a slot. -/
def release (s : BalancingSemaphore) (i : Nat) : BalancingSemaphore :=
  wakeUpNext { s with
    busy := s.busy.modify s.maxIdx (· - 1)
    tasks := s.tasks.set i .ended } s.maxIdx

/-- A task goes on whose future is done. -/
def resume (s : BalancingSemaphore) (i : Nat) : Task → Option BalancingSemaphore
  | .waiting minIdx .woken => some ({ s with wakeupScheduled := false }.enterLoop i minIdx)
  | .waiting minIdx .cancelled | .waiting minIdx .wokenCancelled =>
    some ({ s with tasks := s.tasks.set i .ended }.wakeUpNext minIdx)
  | _ => none

/-- `task.cancel()` of a task that waits: its future is cancelled, or the task is when it goes on. -/
def cancelled : Task → Option Task
  | .waiting minIdx .pending => some (.waiting minIdx .cancelled)
  | .waiting minIdx .woken => some (.waiting minIdx .wokenCancelled)
  | _ => none

inductive Event
  | acquire
  | release
      (task : Nat)
  | resume
      (task : Nat)
  | cancel
      (task : Nat)
deriving DecidableEq

def step (s : BalancingSemaphore) : Event → Option BalancingSemaphore
  | .acquire => some s.acquire
  | .release i => if s.tasks[i]? = some .holding then some (s.release i) else none
  | .resume i => s.tasks[i]?.bind (s.resume i)
  | .cancel i => (s.tasks[i]?.bind cancelled).map fun task =>
      { s with tasks := s.tasks.set i task }

/-! ## 2. What should hold -/

def isHolding : Task → Bool
  | .holding => true
  | _ => false

/-- A wake-up is on its way to the task. -/
def isWoken : Task → Bool
  | .waiting _ .woken | .waiting _ .wokenCancelled => true
  | _ => false

@[simp] theorem isHolding_waiting (minIdx : Nat) (wait : Wait) :
    isHolding (.waiting minIdx wait) = false := rfl

@[simp] theorem isHolding_holding : isHolding .holding = true := rfl

@[simp] theorem isHolding_ended : isHolding .ended = false := rfl

@[simp] theorem isPending_pending (minIdx : Nat) : isPending (.waiting minIdx .pending) = true := rfl

@[simp] theorem isPending_holding : isPending .holding = false := rfl

@[simp] theorem isPending_ended : isPending .ended = false := rfl

@[simp] theorem isWoken_pending (minIdx : Nat) : isWoken (.waiting minIdx .pending) = false := rfl

@[simp] theorem isWoken_holding : isWoken .holding = false := rfl

@[simp] theorem isWoken_ended : isWoken .ended = false := rfl

def holders (s : BalancingSemaphore) : Nat := s.tasks.countP isHolding

def pending (s : BalancingSemaphore) : Nat := s.tasks.countP isPending

def woken (s : BalancingSemaphore) : Nat := s.tasks.countP isWoken

/-- The free slots. -/
def free (s : BalancingSemaphore) : Nat := s.busy.countP (· == 0)

/-- **Safety**: no more holders than slots, a counter that agrees with them, and no free slot beyond
those for which a task has been woken while another one waits. -/
structure Safe (value : Nat) (s : BalancingSemaphore) : Prop where
  holders : s.holders ≤ value
  counter : s.busy.sum = s.holders
  wakeup : s.pending ≠ 0 → s.free ≤ s.woken

/-- A wake-up of this line is not lost: it has a waiter, or there is none at all, or the free slots
are spoken for without it. -/
def HandsOn (s : BalancingSemaphore) (minIdx : Nat) : Prop :=
  (∃ waiter ∈ s.waiters.getD minIdx [], (s.tasks[waiter]?).any isPending = true) ∨
    s.pending = 0 ∨ s.free < s.woken

/-- Where no wake-up is lost: `_wakeup_scheduled` stops a new task only if the free slots are spoken
for; a slot that is released, and the wake-up of a task that is cancelled, are handed on; and a task
that is woken finds its slot free. -/
def Balances (s : BalancingSemaphore) : Event → BalancingSemaphore → Prop
  | .acquire, _ => s.wakeupScheduled = true → s.free ≤ s.woken
  | .release _, _ => s.HandsOn s.maxIdx
  | .resume i, _ =>
    match s.tasks[i]? with
    | some (.waiting minIdx .woken) => s.busy.getD minIdx 0 = 0 ∨ s.free < s.woken
    | some (.waiting minIdx .wokenCancelled) => s.HandsOn minIdx
    | _ => True
  | .cancel _, _ => True

/-! ## 3. Counts -/

variable {s s' : BalancingSemaphore} {value i : Nat} {t : Task}

/-- What the numbers of tasks change by when one of them goes on. -/
theorem counts_set {tasks : List Task} (h : tasks[i]? = some t) (t' : Task) :
    (tasks.set i t').countP isHolding + (isHolding t).toNat =
        tasks.countP isHolding + (isHolding t').toNat ∧
      (tasks.set i t').countP isPending + (isPending t).toNat =
        tasks.countP isPending + (isPending t').toNat ∧
      (tasks.set i t').countP isWoken + (isWoken t).toNat =
        tasks.countP isWoken + (isWoken t').toNat := by
  have hcount : ∀ p : Task → Bool, (tasks.set i t').countP p + (p t).toNat =
      tasks.countP p + (p t').toNat := by
    intro p
    have hset := Tasks.countP_set p h t'
    cases hp : p t <;> cases hp' : p t' <;> simpa [hp, hp'] using hset
  exact ⟨hcount _, hcount _, hcount _⟩

/-- Slots that are busy once at the most are free or busy. -/
theorem sum_add_free {busy : List Nat} (h : ∀ b ∈ busy, b ≤ 1) :
    busy.sum + busy.countP (· == 0) = busy.length := by
  induction busy with
  | nil => rfl
  | cons b busy ih =>
    obtain ⟨hb, hrest⟩ := List.forall_mem_cons.mp h
    have hsum := ih hrest
    rw [List.sum_cons, List.countP_cons, List.length_cons]
    obtain rfl | rfl : b = 0 ∨ b = 1 := by omega
    · simp only [BEq.rfl, if_true]
      omega
    · have hne : ((1 : Nat) == 0) = false := rfl
      rw [hne]
      simp only [Bool.false_eq_true, if_false]
      omega

/-- What every state has. -/
structure Wf (value : Nat) (s : BalancingSemaphore) : Prop where
  length : s.busy.length = value
  busy : ∀ b ∈ s.busy, b ≤ 1
  counter : s.busy.sum = s.holders
  lines : ∀ t ∈ s.tasks, ∀ minIdx wait, t = .waiting minIdx wait → minIdx < value

/-- Free slots, and holders. -/
theorem Wf.free_add_holders (h : s.Wf value) : s.free + s.holders = value := by
  have hsum := sum_add_free h.busy
  rw [h.counter, h.length] at hsum
  rw [free]
  omega

theorem Wf.holders_le (h : s.Wf value) : s.holders ≤ value := by
  have hsum := h.free_add_holders
  omega

/-- So only wake-ups can be lost. -/
theorem Wf.safe_iff (h : s.Wf value) : s.Safe value ↔ (s.pending ≠ 0 → s.free ≤ s.woken) :=
  ⟨Safe.wakeup, fun hwakeup => ⟨h.holders_le, h.counter, hwakeup⟩⟩

/-! ## 4. Wake-ups -/

theorem any_isPending_iff {o : Option Task} :
    o.any isPending = true ↔ ∃ minIdx, o = some (.waiting minIdx .pending) := by
  constructor
  · intro h
    cases o with
    | none => cases h
    | some t =>
      cases t with
      | waiting minIdx wait =>
        cases wait with
        | pending => exact ⟨minIdx, rfl⟩
        | woken | cancelled | wokenCancelled => cases h
      | holding | ended => cases h
  · rintro ⟨minIdx, rfl⟩
    rfl

/-- The next waiter of a line is one of it that has not been woken, if there is one. -/
theorem wakeUp_spec (tasks : List Task) (line : List Nat) :
    match (wakeUp tasks line).2 with
    | none => ∀ waiter ∈ line, ¬ (tasks[waiter]?).any isPending = true
    | some waiter => waiter ∈ line ∧ (tasks[waiter]?).any isPending = true := by
  induction line with
  | nil => exact fun _ h => absurd h List.not_mem_nil
  | cons waiter line ih =>
    unfold wakeUp
    by_cases h : (tasks[waiter]?).any isPending = true
    · rw [if_pos h]
      exact ⟨List.mem_cons_self, h⟩
    · rw [if_neg h]
      generalize (wakeUp tasks line).2 = woken at ih
      cases woken with
      | none => exact List.forall_mem_cons.mpr ⟨h, ih⟩
      | some next => exact ⟨List.mem_cons_of_mem _ ih.1, ih.2⟩

/-- **A wake-up**: one task less waits and one more is woken, or nothing happens. -/
theorem wakeUpNext_spec (h : s.Wf value) (minIdx : Nat) :
    (s.wakeUpNext minIdx).Wf value ∧ (s.wakeUpNext minIdx).free = s.free ∧
      (((∃ waiter ∈ s.waiters.getD minIdx [], (s.tasks[waiter]?).any isPending = true) ∧
          (s.wakeUpNext minIdx).pending + 1 = s.pending ∧
          (s.wakeUpNext minIdx).woken = s.woken + 1) ∨
        ((¬ ∃ waiter ∈ s.waiters.getD minIdx [], (s.tasks[waiter]?).any isPending = true) ∧
          (s.wakeUpNext minIdx).pending = s.pending ∧ (s.wakeUpNext minIdx).woken = s.woken)) := by
  have hspec := wakeUp_spec s.tasks (s.waiters.getD minIdx [])
  unfold wakeUpNext
  generalize wakeUp s.tasks (s.waiters.getD minIdx []) = p at hspec ⊢
  obtain ⟨line, woken⟩ := p
  cases woken with
  | none =>
    exact ⟨⟨h.length, h.busy, h.counter, h.lines⟩, rfl,
      .inr ⟨fun ⟨waiter, hmem, hpending⟩ => hspec waiter hmem hpending, rfl, rfl⟩⟩
  | some waiter =>
    obtain ⟨hmem, hpending⟩ := hspec
    obtain ⟨idx, hwaiter⟩ := any_isPending_iff.mp hpending
    have hmodify : s.tasks.modify waiter setResult = s.tasks.set waiter (.waiting idx .woken) := by
      rw [Tasks.modify_eq_set hwaiter]
      rfl
    obtain ⟨hholding, hpend, hwoken⟩ := counts_set hwaiter (.waiting idx .woken)
    have hcounter := h.counter
    simp only [hmodify]
    refine ⟨⟨h.length, h.busy, ?_, fun t ht idx' wait ht' => ?_⟩, rfl,
      .inl ⟨⟨waiter, hmem, hpending⟩, ?_, ?_⟩⟩
    · rw [hcounter, holders, holders]
      exact hholding.symm
    · rcases List.mem_or_eq_of_mem_set ht with ht | rfl
      · exact h.lines t ht idx' wait ht'
      · obtain ⟨rfl, -⟩ := Task.waiting.inj ht'
        exact h.lines _ (List.mem_of_getElem? hwaiter) _ _ rfl
    · exact hpend
    · exact hwoken

/-- **The head of the loop**: the task waits, or it takes a free slot. -/
theorem enterLoop_spec (h : s.Wf value) (hi : s.tasks[i]? = some t) (ht : isHolding t = false)
    (ht' : isPending t = false) {minIdx : Nat} (hidx : minIdx < value) :
    (s.enterLoop i minIdx).Wf value ∧
      (s.enterLoop i minIdx).woken + (isWoken t).toNat = s.woken ∧
      (((s.wakeupScheduled = true ∨ 0 < s.busy.getD minIdx 0) ∧
          (s.enterLoop i minIdx).pending = s.pending + 1 ∧ (s.enterLoop i minIdx).free = s.free) ∨
        (¬ (s.wakeupScheduled = true ∨ 0 < s.busy.getD minIdx 0) ∧
          (s.enterLoop i minIdx).pending = s.pending ∧
          (s.enterLoop i minIdx).free + 1 = s.free)) := by
  unfold enterLoop
  by_cases hwait : s.wakeupScheduled = true ∨ 0 < s.busy.getD minIdx 0
  · rw [if_pos hwait]
    obtain ⟨hholding, hpending, hwoken⟩ := counts_set hi (.waiting minIdx .pending)
    have hcounter := h.counter
    simp only [ht, ht', isHolding_waiting, isPending_pending, isWoken_pending, Bool.toNat_false,
      Bool.toNat_true, Nat.add_zero] at hholding hpending hwoken
    refine ⟨⟨h.length, h.busy, ?_, fun t' hmem idx wait ht'' => ?_⟩, hwoken,
      .inl ⟨hwait, hpending, rfl⟩⟩
    · rw [hcounter, holders, holders]
      exact hholding.symm
    · rcases List.mem_or_eq_of_mem_set hmem with hmem | rfl
      · exact h.lines t' hmem idx wait ht''
      · obtain ⟨rfl, -⟩ := Task.waiting.inj ht''
        exact hidx
  · rw [if_neg hwait]
    have hzero : s.busy.getD minIdx 0 = 0 := by
      have hpos : ¬ 0 < s.busy.getD minIdx 0 := fun hpos => hwait (.inr hpos)
      omega
    have hslot : s.busy[minIdx]? = some 0 := by
      have hlt : minIdx < s.busy.length := h.length ▸ hidx
      rw [List.getD_eq_getElem?_getD, List.getElem?_eq_getElem hlt, Option.getD_some] at hzero
      rw [List.getElem?_eq_getElem hlt, hzero]
    obtain ⟨hholding, hpending, hwoken⟩ := counts_set hi .holding
    have hsum := Tasks.sum_set hslot 1
    have hfree := Tasks.countP_set (· == 0) hslot 1
    have hcounter := h.counter
    simp only [ht, ht', isHolding_holding, isPending_holding, isWoken_holding, Bool.toNat_false,
      Bool.toNat_true, Nat.add_zero] at hholding hpending hwoken
    have hmodify : s.busy.modify minIdx (· + 1) = s.busy.set minIdx 1 :=
      Tasks.modify_eq_set hslot _
    simp only [hmodify]
    refine ⟨⟨by rw [List.length_set, h.length], fun b hb => ?_, ?_, fun t' hmem idx wait ht'' => ?_⟩,
      hwoken, .inr ⟨hwait, hpending, ?_⟩⟩
    · rcases List.mem_or_eq_of_mem_set hb with hb | rfl
      · exact h.busy b hb
      · exact Nat.le_refl 1
    · simp only [holders] at hcounter ⊢
      omega
    · rcases List.mem_or_eq_of_mem_set hmem with hmem | rfl
      · exact h.lines t' hmem idx wait ht''
      · cases ht''
    · simpa [free] using hfree

/-- The slot that is released is busy. -/
theorem maxIdx_spec (h : s.Wf value) (hholders : s.holders ≠ 0) : s.busy[s.maxIdx]? = some 1 := by
  have hsum := h.counter
  have hne : s.busy ≠ [] := by
    intro hnil
    rw [hnil] at hsum
    exact hholders hsum.symm
  obtain ⟨m, hm⟩ := Option.isSome_iff_exists.mp (List.isSome_max?_iff.mpr hne)
  obtain ⟨hmem, hmax⟩ := List.max?_eq_some_iff.mp hm
  have hidx : s.busy.idxOf m < s.busy.length := List.idxOf_lt_length_of_mem hmem
  have hone : m = 1 := by
    have hle := h.busy m hmem
    by_contra hm1
    have hzero : ∀ b ∈ s.busy, b = 0 := fun b hb => by
      have hb := hmax b hb
      omega
    have hsum0 : s.busy.sum = 0 := List.sum_eq_zero hzero
    exact hholders (hsum.symm.trans hsum0)
  have hdef : s.maxIdx = s.busy.idxOf m := by rw [maxIdx, hm, Option.getD_some]
  rw [hdef, List.getElem?_eq_getElem hidx, List.getElem_idxOf, hone]

/-- A slot that is released is free. -/
theorem release_spec (h : s.Wf value) (hi : s.tasks[i]? = some .holding) :
    let freed : BalancingSemaphore := { s with
      busy := s.busy.modify s.maxIdx (· - 1)
      tasks := s.tasks.set i .ended }
    freed.Wf value ∧ freed.pending = s.pending ∧ freed.woken = s.woken ∧ freed.free = s.free + 1 := by
  obtain ⟨hholding, hpending, hwoken⟩ := counts_set hi .ended
  simp only [isHolding_holding, isHolding_ended, isPending_holding, isPending_ended,
    isWoken_holding, isWoken_ended, Bool.toNat_false, Bool.toNat_true, Nat.add_zero]
    at hholding hpending hwoken
  have hholders : s.holders ≠ 0 := by
    rw [holders]
    omega
  have hslot := maxIdx_spec h hholders
  have hsum := Tasks.sum_set hslot 0
  have hfree := Tasks.countP_set (· == 0) hslot 0
  have hcounter := h.counter
  have hmodify : s.busy.modify s.maxIdx (· - 1) = s.busy.set s.maxIdx 0 :=
    Tasks.modify_eq_set hslot _
  simp only [hmodify]
  refine ⟨⟨by rw [List.length_set, h.length], fun b hb => ?_, ?_, fun t' hmem idx wait ht'' => ?_⟩,
    hpending, hwoken, ?_⟩
  · rcases List.mem_or_eq_of_mem_set hb with hb | rfl
    · exact h.busy b hb
    · exact Nat.zero_le 1
  · simp only [holders] at hcounter ⊢
    omega
  · rcases List.mem_or_eq_of_mem_set hmem with hmem | rfl
    · exact h.lines t' hmem idx wait ht''
    · cases ht''
  · simpa [free] using hfree

/-! ## 5. Whole runs -/

/-- A task more, or one that goes on without the semaphore. -/
theorem wf_of_tasks (h : s.Wf value) {tasks : List Task} (hholders : tasks.countP isHolding = s.holders)
    (hlines : ∀ t ∈ tasks, ∀ minIdx wait, t = .waiting minIdx wait → minIdx < value)
    (scheduled : Bool) : Wf value { s with tasks := tasks, wakeupScheduled := scheduled } :=
  ⟨h.length, h.busy, h.counter.trans hholders.symm, hlines⟩

theorem wf_set (h : s.Wf value) (hi : s.tasks[i]? = some t) {t' : Task}
    (hholding : isHolding t' = isHolding t)
    (hline : ∀ minIdx wait, t' = .waiting minIdx wait → minIdx < value) (scheduled : Bool) :
    Wf value { s with tasks := s.tasks.set i t', wakeupScheduled := scheduled } := by
  obtain ⟨hcount, -⟩ := counts_set hi t'
  rw [hholding] at hcount
  refine wf_of_tasks h (Nat.add_right_cancel hcount) (fun u hu minIdx wait hwait => ?_) scheduled
  rcases List.mem_or_eq_of_mem_set hu with hu | rfl
  · exact h.lines u hu minIdx wait hwait
  · exact hline minIdx wait hwait

theorem safe_acquire_iff (hwf : s.Wf value) : s.acquire.Wf value ∧ (s.Safe value →
    (s.acquire.Safe value ↔ (s.wakeupScheduled = true → s.free ≤ s.woken))) := by
  have hnew : Wf value { s with tasks := s.tasks ++ [.ended] } := by
    refine wf_of_tasks hwf (by simp [holders]) (fun t ht minIdx wait hwait => ?_) s.wakeupScheduled
    rcases List.mem_append.mp ht with ht | ht
    · exact hwf.lines t ht minIdx wait hwait
    · rw [List.mem_singleton.mp ht] at hwait
      cases hwait
  have hpending : ({ s with tasks := s.tasks ++ [.ended] } : BalancingSemaphore).pending = s.pending := by
    simp [pending]
  have hwoken : ({ s with tasks := s.tasks ++ [.ended] } : BalancingSemaphore).woken = s.woken := by
    simp [woken]
  unfold acquire
  cases hmin : s.busy.min? with
  | none =>
    have hfree : s.free = 0 := by
      rw [free, List.min?_eq_none_iff.mp hmin]
      rfl
    refine ⟨hnew, fun _ => hnew.safe_iff.trans (iff_of_true (fun _ => ?_) (fun _ => ?_))⟩
    · exact hfree ▸ Nat.zero_le _
    · exact hfree ▸ Nat.zero_le _
  | some minQueue =>
    obtain ⟨hmem, hle⟩ := List.min?_eq_some_iff.mp hmin
    have hidx : s.busy.idxOf minQueue < s.busy.length := List.idxOf_lt_length_of_mem hmem
    have hslot : s.busy.getD (s.busy.idxOf minQueue) 0 = minQueue := by
      rw [List.getD_eq_getElem?_getD, List.getElem?_eq_getElem hidx, Option.getD_some,
        List.getElem_idxOf]
    have hlast : (s.tasks ++ [Task.ended])[s.tasks.length]? = some .ended := by simp
    obtain ⟨hwf', hwoken', hcase⟩ := enterLoop_spec hnew hlast rfl rfl (hwf.length ▸ hidx)
    rw [hwoken, isWoken_ended] at hwoken'
    rw [hpending] at hcase
    refine ⟨hwf', fun hs => hwf'.safe_iff.trans ?_⟩
    have hnewFree : ({ s with tasks := s.tasks ++ [.ended] } : BalancingSemaphore).free = s.free := rfl
    rw [hnewFree] at hcase
    rcases hcase with ⟨hwait, hp, hf⟩ | ⟨hgo, hp, hf⟩
    · rw [hp, hf]
      rcases hwait with hscheduled | hbusy
      · have hscheduled : s.wakeupScheduled = true := hscheduled
        simp only [Bool.toNat_false, Nat.add_zero] at hwoken'
        rw [hwoken']
        exact ⟨fun h _ => h (by omega), fun h _ => h hscheduled⟩
      · -- the smallest one is busy, and so are all
        have hfree : s.free = 0 := by
          rw [free, List.countP_eq_zero]
          intro b hb hb0
          have hle := hle b hb
          have hbusy : 0 < s.busy.getD (s.busy.idxOf minQueue) 0 := hbusy
          rw [hslot] at hbusy
          have hb0 : b = 0 := by simpa using hb0
          omega
        exact iff_of_true (fun _ => hfree ▸ Nat.zero_le _) (fun _ => hfree ▸ Nat.zero_le _)
    · rw [hp]
      simp only [Bool.toNat_false, Nat.add_zero] at hwoken'
      refine iff_of_true (fun hne => ?_) (fun hscheduled => absurd (.inl hscheduled) hgo)
      have hle := hs.wakeup hne
      omega

/-- **A wake-up that is handed on**: of a slot that gets free, or of a task that goes. -/
theorem safe_wakeUpNext_iff (hwf : s.Wf value) {minIdx free woken : Nat}
    (hgap : s.free + woken = s.woken + free + 1) :
    (s.wakeUpNext minIdx).Wf value ∧ ((s.pending ≠ 0 → free ≤ woken) →
      ((s.wakeUpNext minIdx).Safe value ↔
        (∃ waiter ∈ s.waiters.getD minIdx [], (s.tasks[waiter]?).any isPending = true) ∨
          s.pending = 0 ∨ free < woken)) := by
  obtain ⟨hwf', hfree, hcase⟩ := wakeUpNext_spec hwf minIdx
  refine ⟨hwf', fun hs => hwf'.safe_iff.trans ?_⟩
  rw [hfree]
  rcases hcase with ⟨hwaiter, hp, hw⟩ | ⟨hno, hp, hw⟩
  · refine iff_of_true (fun _ => ?_) (.inl hwaiter)
    have hle := hs (by omega)
    omega
  · rw [hp, hw, or_iff_right hno]
    constructor
    · intro h
      by_cases hzero : s.pending = 0
      · exact .inl hzero
      · have hle := h hzero
        exact .inr (by omega)
    · rintro (hzero | hlt) hne
      · exact absurd hzero hne
      · omega

/-- A task that goes on, and waits neither before nor after, is not in the way of a wake-up. -/
theorem any_isPending_set {tasks : List Task} (h : tasks[i]? = some t) (ht : isPending t = false)
    {t' : Task} (ht' : isPending t' = false) (waiter : Nat) :
    ((tasks.set i t')[waiter]?).any isPending = (tasks[waiter]?).any isPending := by
  obtain ⟨hi, -⟩ := List.getElem?_eq_some_iff.mp h
  rw [List.getElem?_set]
  split
  · next heq => rw [← heq, h, Option.any_some, Option.any_some, ht, ht']
  · rfl

/-- A task gives its slot back. -/
theorem safe_release_iff (hwf : s.Wf value) (hi : s.tasks[i]? = some .holding) :
    (s.release i).Wf value ∧
      (s.Safe value → ((s.release i).Safe value ↔ s.Balances (.release i) (s.release i))) := by
  obtain ⟨hwf', hpending, hwoken, hfree⟩ := release_spec hwf hi
  have hiff := @safe_wakeUpNext_iff _ _ hwf' s.maxIdx s.free s.woken (by omega)
  refine ⟨hiff.1, fun hs => (hiff.2 (hpending ▸ hs.wakeup)).trans ?_⟩
  simp only [any_isPending_set hi isPending_holding isPending_ended, hpending]
  rfl

/-- A task that neither holds a slot nor waits is gone. -/
theorem wf_gone (hwf : s.Wf value) (hi : s.tasks[i]? = some t) (hholding : isHolding t = false)
    (hpending : isPending t = false) (minIdx : Nat) :
    let gone : BalancingSemaphore := { s with tasks := s.tasks.set i .ended }
    gone.Wf value ∧ gone.pending = s.pending ∧ gone.free = s.free ∧
      gone.woken + (isWoken t).toNat = s.woken ∧
      ((∃ waiter ∈ gone.waiters.getD minIdx [], (gone.tasks[waiter]?).any isPending = true) ↔
        ∃ waiter ∈ s.waiters.getD minIdx [], (s.tasks[waiter]?).any isPending = true) := by
  obtain ⟨-, hp, hw⟩ := counts_set hi .ended
  simp only [hpending, isPending_ended, isWoken_ended, Bool.toNat_false, Nat.add_zero] at hp hw
  refine ⟨@wf_set _ _ _ _ hwf hi .ended hholding.symm (fun _ _ h => nomatch h) s.wakeupScheduled,
    hp, rfl, hw, ?_⟩
  simp only [any_isPending_set hi hpending isPending_ended]

/-- The task was woken: it looks at its slot again. -/
theorem safe_resume_woken_iff (hwf : s.Wf value) {minIdx : Nat}
    (hi : s.tasks[i]? = some (.waiting minIdx .woken)) :
    let s' := { s with wakeupScheduled := false }.enterLoop i minIdx
    s'.Wf value ∧ (s.Safe value → (s'.Safe value ↔ s.Balances (.resume i) s')) := by
  have hwf1 : Wf value { s with wakeupScheduled := false } :=
    ⟨hwf.length, hwf.busy, hwf.counter, hwf.lines⟩
  obtain ⟨hwf', hwoken, hcase⟩ := enterLoop_spec hwf1 hi rfl rfl
    (hwf.lines _ (List.mem_of_getElem? hi) _ _ rfl)
  refine ⟨hwf', fun hs => hwf'.safe_iff.trans ?_⟩
  have hwoken : ({ s with wakeupScheduled := false }.enterLoop i minIdx).woken + 1 = s.woken := hwoken
  simp only [Balances, hi]
  rcases hcase with ⟨hwait, hp, hf⟩ | ⟨hgo, hp, hf⟩
  · have hbusy : 0 < s.busy.getD minIdx 0 := hwait.resolve_left Bool.false_ne_true
    have hf : ({ s with wakeupScheduled := false }.enterLoop i minIdx).free = s.free := hf
    rw [hp, hf, or_iff_right (by omega)]
    exact ⟨fun h => by have hle := h (by omega); omega, fun h _ => by omega⟩
  · have hzero : s.busy.getD minIdx 0 = 0 := by
      have hpos : ¬ 0 < s.busy.getD minIdx 0 := fun hpos => hgo (.inr hpos)
      omega
    have hp : ({ s with wakeupScheduled := false }.enterLoop i minIdx).pending = s.pending := hp
    have hf : ({ s with wakeupScheduled := false }.enterLoop i minIdx).free + 1 = s.free := hf
    refine iff_of_true (fun hne => ?_) (.inl hzero)
    have hle := hs.wakeup (hp ▸ hne)
    omega

/-- A task goes on. -/
theorem safe_resume_iff (hwf : s.Wf value) (h : step s (.resume i) = some s') :
    s'.Wf value ∧ (s.Safe value → (s'.Safe value ↔ s.Balances (.resume i) s')) := by
  obtain ⟨t, hi, h⟩ := Option.bind_eq_some_iff.mp h
  unfold resume at h
  split at h
  · next minIdx =>
    obtain rfl := Option.some.inj h
    exact safe_resume_woken_iff hwf hi
  · next minIdx =>
    -- it was cancelled, and nothing has been handed to it
    obtain rfl := Option.some.inj h
    obtain ⟨hwf1, hp1, hf1, hw1, -⟩ := wf_gone hwf hi rfl rfl minIdx
    obtain ⟨hwf', hfree, hcase⟩ := wakeUpNext_spec hwf1 minIdx
    refine ⟨hwf', fun hs => hwf'.safe_iff.trans ?_⟩
    simp only [Balances, hi, iff_true]
    have hw1 : ({ s with tasks := s.tasks.set i .ended } : BalancingSemaphore).woken = s.woken := hw1
    rw [hfree, hf1]
    rcases hcase with ⟨-, hp, hw⟩ | ⟨-, hp, hw⟩
    · intro _
      have hle := hs.wakeup (by omega)
      omega
    · rw [hp, hw, hp1, hw1]
      exact hs.wakeup
  · next minIdx =>
    -- it was cancelled with a wake-up on its way
    obtain rfl := Option.some.inj h
    obtain ⟨hwf1, hp1, hf1, hw1, hline⟩ := wf_gone hwf hi rfl rfl minIdx
    have hw1 : ({ s with tasks := s.tasks.set i .ended } : BalancingSemaphore).woken + 1 = s.woken :=
      hw1
    have hiff := @safe_wakeUpNext_iff _ _ hwf1 minIdx s.free s.woken (by omega)
    refine ⟨hiff.1, fun hs => (hiff.2 (hp1 ▸ hs.wakeup)).trans ?_⟩
    rw [hline, hp1]
    simp only [Balances, hi]
    rfl
  · cases h

/-- A task that waits is cancelled. -/
theorem safe_cancel (hwf : s.Wf value) (h : step s (.cancel i) = some s') :
    s'.Wf value ∧ (s.Safe value → s'.Safe value) := by
  obtain ⟨t', ht', rfl⟩ := Option.map_eq_some_iff.mp h
  obtain ⟨t, hi, ht'⟩ := Option.bind_eq_some_iff.mp ht'
  obtain ⟨-, hp, hw⟩ := counts_set hi t'
  have hline := hwf.lines _ (List.mem_of_getElem? hi)
  unfold cancelled at ht'
  split at ht'
  · next minIdx =>
    obtain rfl := Option.some.inj ht'
    have hwf' := @wf_set _ _ _ _ hwf hi (.waiting minIdx .cancelled) rfl
      (fun _ _ h => (Task.waiting.inj h).1 ▸ hline _ _ rfl) s.wakeupScheduled
    refine ⟨hwf', fun hs => hwf'.safe_iff.mpr fun _ => ?_⟩
    have hp : (s.tasks.set i (.waiting minIdx .cancelled)).countP isPending + 1 = s.pending := hp
    exact (hs.wakeup (by omega)).trans_eq hw.symm
  · next minIdx =>
    obtain rfl := Option.some.inj ht'
    have hwf' := @wf_set _ _ _ _ hwf hi (.waiting minIdx .wokenCancelled) rfl
      (fun _ _ h => (Task.waiting.inj h).1 ▸ hline _ _ rfl) s.wakeupScheduled
    refine ⟨hwf', fun hs => hwf'.safe_iff.mpr fun hne => ?_⟩
    have hp : (s.tasks.set i (.waiting minIdx .wokenCancelled)).countP isPending = s.pending := hp
    have hw : (s.tasks.set i (.waiting minIdx .wokenCancelled)).countP isWoken = s.woken :=
      Nat.add_right_cancel hw
    exact (hs.wakeup (hp ▸ hne)).trans_eq hw.symm
  · cases ht'

/-- **One step.** -/
theorem safe_step_iff {ev : Event} (hwf : s.Wf value) (h : step s ev = some s') :
    s'.Wf value ∧ (s.Safe value → (s'.Safe value ↔ s.Balances ev s')) := by
  cases ev with
  | acquire =>
    obtain rfl := Option.some.inj h
    exact safe_acquire_iff hwf
  | release i =>
    obtain ⟨hi, h⟩ := Option.ite_none_right_eq_some.mp h
    obtain rfl := Option.some.inj h
    exact safe_release_iff hwf hi
  | resume i => exact safe_resume_iff hwf h
  | cancel i =>
    exact (safe_cancel hwf h).imp_right fun hsafe hs => iff_of_true (hsafe hs) trivial

theorem wf_init (value : Nat) : (init value).Wf value :=
  ⟨List.length_replicate, fun b hb => (List.eq_of_mem_replicate hb) ▸ Nat.zero_le 1,
    by simp [init, holders], fun t ht => absurd ht List.not_mem_nil⟩

theorem safe_init (value : Nat) : (init value).Safe value :=
  (wf_init value).safe_iff.mpr fun h => absurd rfl h

/-- **The semaphore is safe in all states of a run if and only if no step of it loses a
wake-up.** -/
theorem always_safe_iff (value : Nat) (evs : List Event) :
    Always step (Safe value) (init value) evs ↔ Along step Balances (init value) evs :=
  always_iff_along_of_invariant (J := Wf value)
    (fun _ _ _ hwf hs h => ⟨(safe_step_iff hwf h).1, (safe_step_iff hwf h).2 hs⟩)
    (wf_init value) (safe_init value)

/-- **Never more holders than slots**, and a counter that agrees with them, in any run. -/
theorem holders_le {evs : List Event} (h : run step (init value) evs = some s) :
    s.holders ≤ value ∧ s.busy.sum = s.holders := by
  have hwf : s.Wf value := invariant_of_run
    (fun _ _ _ hwf h => (safe_step_iff hwf h).1) (wf_init value) h
  exact ⟨hwf.holders_le, hwf.counter⟩

/-- One slot: the task that is woken last is cancelled, and the next one waits for nobody. -/
theorem not_safe_cancel : ¬ Always step (Safe 1) (init 1)
    [.acquire, .acquire, .release 0, .cancel 1, .resume 1, .acquire] := by
  intro h
  have hle : (1 : Nat) ≤ 0 := (h.last rfl).wakeup (by decide)
  exact absurd hle (by decide)

end BalancingSemaphore

end Engines
end Hedra
