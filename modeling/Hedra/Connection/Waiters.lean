/-
# Waiters

A call that expects a reply creates a future, its waiter, and appends it to those of its event
name.  Over TCP they stand in a deque, and a reply pops the newest; over UDP in a queue, and a
reply takes the oldest.  In both a waiter whose call has timed out stays where it is.

The deque is that of `distributed/connection/tcp/mercury_sync_tcp_connection.py`, the queue that of
`udp/mercury_sync_udp_connection.py`.  Both are lists of numbered futures here (`Lib.Future`), and
what a call and a reply do to them is stated once, for `Tcp.lean` and `Udp.lean`.
-/
import Hedra.Lib.Dict
import Hedra.Lib.Future

namespace Hedra

open Lib

/-- `_waiters`, the oldest waiter of each event name first.  Waiters are numbered in the order in
which they are created. -/
structure Waiters (ρ : Type) where
  deques : Dict String (List Nat)
  futures : List (Future ρ)

namespace Waiters

variable {ρ : Type}

/-- `defaultdict(deque)` -/
def empty : Waiters ρ := ⟨Dict.empty, []⟩

/-- `_waiters[event_name]` -/
def of (w : Waiters ρ) (e : String) : List Nat := (w.deques.get? e).getD []

/-- A waiter is created and appended. -/
def enroll (w : Waiters ρ) (e : String) : Waiters ρ where
  deques := w.deques.set e (w.of e ++ [w.futures.length])
  futures := w.futures ++ [.pending]

/-- `_waiters[event_name].pop().set_result(x)`, if there is a waiter. -/
def giveNewest (w : Waiters ρ) (e : String) (x : ρ) : Waiters ρ :=
  match (w.of e).getLast? with
  | none => w
  | some n => ⟨w.deques.set e (w.of e).dropLast, w.futures.modify n (Future.setResult x)⟩

/-- `(await _waiters[event_name].get()).set_result(x)`, once there is a waiter. -/
def giveOldest (w : Waiters ρ) (e : String) (x : ρ) : Waiters ρ :=
  match w.of e with
  | [] => w
  | n :: ns => ⟨w.deques.set e ns, w.futures.modify n (Future.setResult x)⟩

/-- A call times out: `wait_for` cancels its waiter. -/
def cancel (w : Waiters ρ) (n : Nat) : Waiters ρ :=
  { w with futures := w.futures.modify n Future.cancel }

/-- The waiter `n` is pending. -/
def IsPending (w : Waiters ρ) (n : Nat) : Prop := Future.IsPending w.futures n

instance (w : Waiters ρ) (n : Nat) : Decidable (w.IsPending n) :=
  inferInstanceAs (Decidable (Future.IsPending w.futures n))

/-- The call of the waiter `n` has timed out. -/
def TimedOut (w : Waiters ρ) (n : Nat) : Prop := Future.IsCancelled w.futures n

instance (w : Waiters ρ) (n : Nat) : Decidable (w.TimedOut n) :=
  inferInstanceAs (Decidable (Future.IsCancelled w.futures n))

/-! ## 1. Who stands where -/

@[simp] theorem of_empty (e : String) : (empty : Waiters ρ).of e = [] := rfl

theorem of_set (d : Dict String (List Nat)) (fs : List (Future ρ)) (e e' : String)
    (ns : List Nat) :
    (Waiters.mk (d.set e ns) fs).of e' = if e' = e then ns else (d.get? e').getD [] := by
  simp only [of, Dict.get?_set]
  split <;> rfl

theorem of_enroll (w : Waiters ρ) (e e' : String) :
    (w.enroll e).of e' = if e' = e then w.of e ++ [w.futures.length] else w.of e' :=
  of_set w.deques _ e e' _

theorem of_giveNewest (w : Waiters ρ) (e e' : String) (x : ρ) :
    (w.giveNewest e x).of e' = if e' = e then (w.of e).dropLast else w.of e' := by
  unfold giveNewest
  cases hl : (w.of e).getLast? with
  | none =>
    have hnil : w.of e = [] := List.getLast?_eq_none_iff.mp hl
    by_cases he : e' = e
    · simp [he, hnil]
    · simp [he]
  | some n => exact of_set w.deques _ e e' _

theorem of_giveOldest (w : Waiters ρ) (e e' : String) (x : ρ) :
    (w.giveOldest e x).of e' = if e' = e then (w.of e).tail else w.of e' := by
  unfold giveOldest
  split
  · next hnil =>
    by_cases he : e' = e
    · simp [he, hnil]
    · simp [he]
  · next n ns hw =>
    rw [hw]
    exact of_set w.deques _ e e' _

@[simp] theorem length_futures_giveOldest (w : Waiters ρ) (e : String) (x : ρ) :
    (w.giveOldest e x).futures.length = w.futures.length := by
  unfold giveOldest
  split <;> simp

/-! ## 2. Results that belong to their waiters -/

/-- Every waiter that has a result has one of its own. -/
def Own (tag : ρ → Nat → Prop) (w : Waiters ρ) : Prop := Future.Own tag w.futures

variable {tag : ρ → Nat → Prop} {w : Waiters ρ}

theorem own_empty : Own tag (empty : Waiters ρ) := Future.own_nil

theorem Own.mono {tag' : ρ → Nat → Prop} (h : Own tag w) (ht : ∀ r n, tag r n → tag' r n) :
    Own tag' w := fun n r hr => ht r n (h n r hr)

theorem Own.enroll (h : Own tag w) (e : String) : Own tag (w.enroll e) := h.concat_pending

theorem Own.cancel (h : Own tag w) (n : Nat) : Own tag (w.cancel n) := h.modify_cancel n

theorem Own.giveNewest_iff (h : Own tag w) (e : String) (x : ρ) :
    Own tag (w.giveNewest e x) ↔
      ∀ n, (w.of e).getLast? = some n → w.IsPending n → tag x n := by
  unfold giveNewest
  cases (w.of e).getLast? with
  | none => simpa using h
  | some n =>
    simp only [Option.some.injEq, forall_eq']
    exact h.modify_setResult_iff n x

theorem Own.giveOldest_iff (h : Own tag w) (e : String) (x : ρ) :
    Own tag (w.giveOldest e x) ↔
      ∀ n, (w.of e).head? = some n → w.IsPending n → tag x n := by
  unfold giveOldest
  cases w.of e with
  | nil => simpa using h
  | cons n ns =>
    simp only [List.head?_cons, Option.some.injEq, forall_eq']
    exact h.modify_setResult_iff n x

/-! ## 3. Waiters that are done -/

/-- The waiter `n` is done, as `f`. -/
structure Done (w : Waiters ρ) (n : Nat) (f : Future ρ) : Prop where
  get : w.futures[n]? = some f
  ne : f ≠ .pending

variable {n : Nat} {f : Future ρ}

theorem Done.enroll (h : w.Done n f) (e : String) : (w.enroll e).Done n f :=
  ⟨Future.getElem?_concat h.get _, h.ne⟩

theorem Done.cancel (h : w.Done n f) (i : Nat) : (w.cancel i).Done n f :=
  ⟨Future.getElem?_modify_of_ne (fun _ => Future.cancel_of_ne) h.get h.ne i, h.ne⟩

theorem Done.giveOldest (h : w.Done n f) (e : String) (x : ρ) : (w.giveOldest e x).Done n f := by
  unfold Waiters.giveOldest
  split
  · exact h
  · next i _ _ =>
    exact ⟨Future.getElem?_modify_of_ne (fun _ hf => Future.setResult_of_ne hf x) h.get h.ne i, h.ne⟩

end Waiters
end Hedra
