/-
# Pending response tasks

A connection keeps the tasks that answer its peers' requests in a deque.  Every cleanup interval
`_cleanup` walks a copy of it and, for each task that is done, awaits the task and pops an element
of the deque.  The element it pops is the last one, whichever task it has just awaited: a pass drops
as many tasks from the right as it found done.  The pass is atomic, since awaiting a task that is
done does not suspend.

The deque is `_pending_responses` of `distributed/connection/tcp/mercury_sync_tcp_connection.py`,
and of the UDP connection beside it.

* `cleanup_fst`: what a pass leaves, as a prefix of the deque;
* `keepsLive_iff`: for which deques this is exactly the live tasks.
-/
import Mathlib.Data.List.TakeWhile
import Hedra.Lib.Filters

namespace Hedra

/-! ## 1. The deque and a pass over it -/

/-- How far an `asyncio.Task` has come. -/
inductive TaskStatus where
  | unfinished
  | finished
  | failed
  | cancelled
  deriving DecidableEq, Repr

namespace TaskStatus

/-- `Task.done()`: of a cancelled task as well. -/
def done : TaskStatus → Bool
  | unfinished => false
  | _ => true

@[simp] theorem done_eq_false_iff {s : TaskStatus} : s.done = false ↔ s = unfinished := by
  cases s <;> simp [done]

end TaskStatus

/-- What ends a pass. -/
inductive CleanupError where
  | cancelledError
  | indexError
  deriving DecidableEq, Repr

/-- The two connections that keep response tasks. -/
inductive ConnectionType where
  | tcp
  | udp
  deriving DecidableEq, Repr

/-- The tasks, by number, and `_pending_responses`, the oldest first. -/
structure ResponseTasks where
  status : Nat → TaskStatus
  pending : List Nat

namespace ResponseTasks

variable {r : ResponseTasks}

/-- `await pending` of a task that is done: `except (Exception, socket.error)` catches whatever
the task raised, but not a `CancelledError`, which is no `Exception`. -/
def awaitPending (r : ResponseTasks) (t : Nat) : Option CleanupError :=
  if r.status t = .cancelled then some .cancelledError else none

/-- `self._pending_responses.pop()`; over UDP only from a deque that is not empty. -/
def popPending (c : ConnectionType) (r : ResponseTasks) : Except CleanupError ResponseTasks :=
  match c, r.pending with
  | .udp, [] => .ok r
  | .tcp, [] => .error .indexError
  | _, _ :: _ => .ok { r with pending := r.pending.dropLast }

/-- The loop of `_cleanup` over the rest of the copied deque. -/
def sweep (c : ConnectionType) : List Nat → ResponseTasks → ResponseTasks × Option CleanupError
  | [], r => (r, none)
  | t :: ts, r =>
    if (r.status t).done then
      match r.awaitPending t with
      | some e => (r, some e)
      | none =>
        match popPending c r with
        | .error e => (r, some e)
        | .ok r' => sweep c ts r'
    else sweep c ts r

/-- One pass of `_cleanup`. -/
def cleanup (c : ConnectionType) (r : ResponseTasks) : ResponseTasks × Option CleanupError :=
  sweep c r.pending r

/-- The task `t` is not done. -/
def live (r : ResponseTasks) (t : Nat) : Bool := !(r.status t).done

/-- A pass leaves exactly the live tasks, in their order, and changes no task. -/
def KeepsLive (c : ConnectionType) (r : ResponseTasks) : Prop :=
  (cleanup c r).1.pending = r.pending.filter r.live ∧ ∀ t, (cleanup c r).1.status t = r.status t

/-- Nothing was cancelled, and no task that is done stands before a live one. -/
def DoneBehind (r : ResponseTasks) : Prop :=
  (∀ t ∈ r.pending, r.status t ≠ .cancelled) ∧
    r.pending.Pairwise fun t u => r.live u = true → r.live t = true

/-! ## 2. What a pass drops -/

theorem popPending_eq_ok (c : ConnectionType) (h : r.pending ≠ []) :
    popPending c r = .ok { r with pending := r.pending.dropLast } := by
  obtain ⟨t, ts, hp⟩ := List.exists_cons_of_ne_nil h
  unfold popPending
  rw [hp]
  cases c <;> rfl

/-- The tasks of `ts` that the loop awaits without an exception: those that are done and have no
cancelled one before them. -/
def awaited (r : ResponseTasks) (ts : List Nat) : Nat :=
  (ts.takeWhile fun t => r.status t ≠ .cancelled).countP fun t => (r.status t).done

theorem awaited_le_length (ts : List Nat) : r.awaited ts ≤ ts.length :=
  Nat.le_trans List.countP_le_length (List.takeWhile_prefix _).length_le

theorem awaited_cons_cancelled {t : Nat} (h : r.status t = .cancelled) (ts : List Nat) :
    r.awaited (t :: ts) = 0 := by
  simp [awaited, h]

theorem awaited_cons_live {t : Nat} (h : r.status t = .unfinished) (ts : List Nat) :
    r.awaited (t :: ts) = r.awaited ts := by
  simp [awaited, h, TaskStatus.done]

theorem awaited_cons_done {t : Nat} (hd : (r.status t).done = true) (hc : r.status t ≠ .cancelled)
    (ts : List Nat) : r.awaited (t :: ts) = r.awaited ts + 1 := by
  simp [awaited, hc, hd]

/-- The loop drops, from the right, as many tasks as it awaited. -/
theorem sweep_fst (c : ConnectionType) : ∀ (ts : List Nat) (r : ResponseTasks),
    r.awaited ts ≤ r.pending.length → (sweep c ts r).1 =
      { r with pending := r.pending.take (r.pending.length - r.awaited ts) } := by
  intro ts
  induction ts with
  | nil =>
    intro r _
    simp [sweep, awaited]
  | cons t ts ih =>
    intro r hlen
    rw [sweep]
    by_cases hd : (r.status t).done = true
    · rw [if_pos hd]
      by_cases hc : r.status t = .cancelled
      · rw [awaited_cons_cancelled hc, awaitPending, if_pos hc]
        simp
      · rw [awaited_cons_done hd hc] at hlen ⊢
        have hne : r.pending ≠ [] := List.ne_nil_of_length_pos (by omega)
        rw [awaitPending, if_neg hc, popPending_eq_ok c hne]
        have hsub : r.awaited ts ≤ r.pending.dropLast.length := by
          rw [List.length_dropLast]
          omega
        refine (ih { r with pending := r.pending.dropLast } hsub).trans ?_
        change ResponseTasks.mk _ (r.pending.dropLast.take (_ - r.awaited ts)) = _
        rw [List.length_dropLast, List.dropLast_eq_take, List.take_take]
        congr 2
        omega
    · rw [if_neg hd, ih r (by rwa [awaited_cons_live (by simpa using hd)] at hlen),
        awaited_cons_live (by simpa using hd)]

/-- **What a pass leaves**: the deque without as many of its newest tasks as it awaited. -/
theorem cleanup_fst (c : ConnectionType) (r : ResponseTasks) : (cleanup c r).1 =
    { r with pending := r.pending.take (r.pending.length - r.awaited r.pending) } :=
  sweep_fst c r.pending r (awaited_le_length _)

/-- A pass over a deque with no cancelled task raises nothing. -/
theorem awaited_eq_countP (h : ∀ t ∈ r.pending, r.status t ≠ .cancelled) :
    r.awaited r.pending = r.pending.countP fun t => (r.status t).done := by
  have hall : r.pending.takeWhile (fun t => r.status t ≠ .cancelled) = r.pending := by
    refine List.takeWhile_eq_self_iff.mpr ?_
    intro t ht
    simp [h t ht]
  rw [awaited, hall]

theorem length_eq_countP_live_add (r : ResponseTasks) (ts : List Nat) :
    ts.length = ts.countP r.live + ts.countP fun t => (r.status t).done := by
  have h := List.length_eq_countP_add_countP (l := ts) fun t => r.live t
  rw [h]
  congr 1
  apply List.countP_congr
  intro t _
  cases hd : (r.status t).done <;> simp [live, hd]

/-- A cancelled task is done, and neither it nor what stands behind it is awaited. -/
theorem awaited_lt_of_cancelled {t : Nat} {ts : List Nat} (ht : t ∈ ts)
    (hc : r.status t = .cancelled) :
    r.awaited ts < ts.countP fun t => (r.status t).done := by
  induction ts with
  | nil => cases ht
  | cons u ts ih =>
    by_cases hu : r.status u = .cancelled
    · rw [awaited_cons_cancelled hu, List.countP_cons_of_pos (by simp [hu, TaskStatus.done])]
      omega
    · have htail : t ∈ ts := by
        rcases List.mem_cons.mp ht with rfl | h
        · exact absurd hc hu
        · exact h
      have hlt := ih htail
      by_cases hd : (r.status u).done = true
      · rw [awaited_cons_done hd hu]
        simpa [hd] using hlt
      · rw [awaited_cons_live (by simpa using hd)]
        simpa [hd] using hlt

/-- **A pass keeps exactly the live tasks** when they stand before all the others and none was
cancelled, and only then. -/
theorem keepsLive_iff (c : ConnectionType) (r : ResponseTasks) : KeepsLive c r ↔ r.DoneBehind := by
  have hlen := length_eq_countP_live_add r r.pending
  unfold KeepsLive DoneBehind
  rw [cleanup_fst]
  simp only [implies_true, and_true]
  constructor
  · intro h
    have hn := Lib.eq_countP_of_take_eq_filter (Nat.sub_le _ _) h
    have hcancel : ∀ t ∈ r.pending, r.status t ≠ .cancelled := by
      intro t ht hc
      have hlt := awaited_lt_of_cancelled ht hc
      omega
    refine ⟨hcancel, Lib.take_countP_eq_filter_iff.mp ?_⟩
    rwa [← hn]
  · rintro ⟨hcancel, hpair⟩
    rw [awaited_eq_countP hcancel, ← Lib.take_countP_eq_filter_iff.mpr hpair]
    congr 1
    omega

/-- A finished task before an unfinished one: the finished one stays and the other is lost. -/
theorem not_keepsLive : ¬ ∀ (c : ConnectionType) (r : ResponseTasks),
    (∀ t ∈ r.pending, r.status t ≠ .cancelled) → KeepsLive c r := by
  intro h
  have hkeep := h .tcp ⟨fun t => if t = 0 then .finished else .unfinished, [0, 1]⟩ (by decide)
  exact absurd hkeep.1 (by decide)

end ResponseTasks

end Hedra
