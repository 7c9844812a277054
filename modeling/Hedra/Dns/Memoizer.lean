/-
# Memoised queries

`memoize_async(key)` (`distributed/discovery/dns/resolver/memoizer.py`) lets the callers of a query
share a computation: the task of the first call is filed under a key, later calls await the task
that is filed, and a done callback takes it out again.  What a call is filed under is the function
`key` itself, which is not applied to the arguments.  So all calls of a memoised function have one
key, whatever they ask for.

Two more things keep callers from the computation of their own query.  A task that has finished
stays filed until its callback runs.  And a caller that is cancelled -- `query` waits for
`_request_timeout` -- passes the cancellation on to the task, and with it to the other callers.

The memoised functions are `_query`, `_query_tick` and `query_local` of the resolvers.  What they
compute is left open: a computation ends at any time and with any outcome.

* `apart_step_iff`: one event keeps the callers apart, or does not;
* `kept_apart_iff`: a run keeps them apart exactly if each of its events does.
-/
import Hedra.Dns.Record
import Hedra.Lib.Future
import Hedra.Lib.Machine

namespace Hedra
namespace Dns

open Lib Lib.Machine

/-! ## 1. Calls -/

/-- The arguments of a memoised function.  Only `_query_tick` has a `current_try_count`. -/
structure Args where
  resolver : Nat
  fqdn : String
  recordType : RecordType
  skipCache : Bool
  currentTryCount : Int
deriving DecidableEq

/-- What `memoize_async` makes of a function, with the `key` it was given.  Both are compared by
identity. -/
structure Memoized where
  func : Nat
  key : Option Nat
deriving DecidableEq

/-- A call of a memoised function. -/
structure Call where
  memoized : Memoized
  args : Args
deriving DecidableEq

/-- `cache_key`: the function `key`, or `()` without one. -/
def Call.cacheKey (c : Call) : Option Nat := c.memoized.key

/-- What is asked for. -/
def Call.query (c : Call) : Memoized × String × RecordType :=
  (c.memoized, c.args.fqdn, c.args.recordType)

/-- A task, with the call it was created by. -/
structure Task (ε α : Type) where
  call : Call
  state : Future (Except ε α)
  /-- A caller has passed its cancellation on to it. -/
  cancelling : Bool

/-- A caller of `wrapped`.  What it has received is pending while it awaits the task. -/
structure Caller (ε α : Type) where
  call : Call
  task : Nat
  cancelled : Bool
  received : Future (Except ε α)

/-- A `Memoizer`, with the tasks that it has created and their callers. -/
structure Memoizer (ε α : Type) where
  data : Dict (Option Nat) Nat
  tasks : List (Task ε α)
  /-- The tasks whose done callback is scheduled. -/
  scheduled : List Nat
  callers : List (Caller ε α)

variable {ε α : Type}

/-- `asyncio.create_task(func(*args, **kwargs))` -/
def Task.create (c : Call) : Task ε α where
  call := c
  state := .pending
  cancelling := false

/-- A caller at `await task`. -/
def Caller.await (c : Call) (task : Nat) : Caller ε α where
  call := c
  task := task
  cancelled := false
  received := .pending

namespace Memoizer

/-- `Memoizer()` -/
def init : Memoizer ε α where
  data := Dict.empty
  tasks := []
  scheduled := []
  callers := []

/-- `wrapped`, up to where it awaits the task. -/
def wrapped (m : Memoizer ε α) (c : Call) : Memoizer ε α :=
  match m.data.get? c.cacheKey with
  | some n => { m with callers := m.callers ++ [.await c n] }
  | none =>
    { m with
      tasks := m.tasks ++ [.create c]
      data := m.data.set c.cacheKey m.tasks.length
      callers := m.callers ++ [.await c m.tasks.length] }

/-- `clear` -/
def clear (m : Memoizer ε α) (key : Option Nat) : Memoizer ε α :=
  { m with data := m.data.erase key }

/-- A task ends, which schedules its done callback. -/
def finish (m : Memoizer ε α) (n : Nat) (t : Task ε α) (state : Future (Except ε α)) :
    Memoizer ε α :=
  { m with tasks := m.tasks.set n { t with state := state }, scheduled := m.scheduled ++ [n] }

/-- A caller goes on to its next state. -/
def setCaller (m : Memoizer ε α) (i : Nat) (c : Caller ε α) : Memoizer ε α :=
  { m with callers := m.callers.set i c }

/-- A caller is cancelled.  While the task runs, the cancellation is the task's. -/
def cancel (m : Memoizer ε α) (i : Nat) (c : Caller ε α) (t : Task ε α) : Memoizer ε α :=
  if t.state.done then m.setCaller i { c with cancelled := true, received := .cancelled }
  else
    { m.setCaller i { c with cancelled := true } with
      tasks := m.tasks.set c.task { t with cancelling := true } }

/-- The caller `i` awaits its task. -/
def waits (m : Memoizer ε α) (i : Nat) : Option (Caller ε α × Task ε α) :=
  match m.callers[i]? with
  | none => none
  | some c =>
    match m.tasks[c.task]? with
    | none => none
    | some t => if c.received.done then none else some (c, t)

/-- What can happen to memoised functions. -/
inductive Event (ε α : Type)
  | call
      (call : Call)
  /-- The coroutine of a task returns or raises. -/
  | finish
      (task : Nat)
      (outcome : Except ε α)
  /-- It ends with a `CancelledError`. -/
  | abort
      (task : Nat)
  /-- The done callback of a task. -/
  | clear
      (task : Nat)
  /-- The task that a caller awaits is done, and the caller goes on. -/
  | wake
      (caller : Nat)
  | cancel
      (caller : Nat)

/-- The machine of memoised functions. -/
def step (m : Memoizer ε α) : Event ε α → Option (Memoizer ε α)
  | .call c => some (m.wrapped c)
  | .finish n outcome =>
    match m.tasks[n]? with
    | none => none
    | some t => if t.state.done then none else some (m.finish n t (.result outcome))
  | .abort n =>
    match m.tasks[n]? with
    | none => none
    | some t => if t.state.done then none else some (m.finish n t .cancelled)
  | .clear n =>
    match m.tasks[n]? with
    | none => none
    | some t =>
      if n ∈ m.scheduled then
        some { m.clear t.call.cacheKey with scheduled := m.scheduled.erase n }
      else none
  | .wake i =>
    match m.waits i with
    | none => none
    | some (c, t) =>
      if t.state.done then some (m.setCaller i { c with received := t.state }) else none
  | .cancel i =>
    match m.waits i with
    | none => none
    | some (c, t) => some (m.cancel i c t)

/-! ## 2. Queries kept apart -/

/-- The task `n` is a computation of `q` that runs. -/
def Runs (m : Memoizer ε α) (q : Memoized × String × RecordType) (n : Nat) : Prop :=
  ∃ t, m.tasks[n]? = some t ∧ t.call.query = q ∧ t.state.done = false

/-- The caller awaits, or has received the outcome of, a computation of its own query, which no
caller's cancellation has reached. -/
def Served (m : Memoizer ε α) (c : Caller ε α) : Prop :=
  ∃ t, m.tasks[c.task]? = some t ∧ t.call.query = c.call.query ∧ t.cancelling = false ∧
    (c.received = .pending ∨ c.received = t.state)

/-- Every caller that is not cancelled itself gets what is computed for its own query, and no two
computations of one query run at a time. -/
structure Apart (m : Memoizer ε α) : Prop where
  served : ∀ c ∈ m.callers, c.cancelled = false → m.Served c
  one : ∀ q n n', m.Runs q n → m.Runs q n' → n = n'

/-- A call awaits the computation of its query that runs; if there is none, it starts one. -/
def Starts (m : Memoizer ε α) : Event ε α → Memoizer ε α → Prop
  | .call c, m' => ∃ n, m'.callers = m.callers ++ [.await c n] ∧
      (m.Runs c.query n ∧ m'.tasks = m.tasks ∨
        (∀ k, ¬ m.Runs c.query k) ∧ n = m.tasks.length ∧ m'.tasks = m.tasks ++ [.create c])
  | _, _ => True

/-- When a function is called, the computation that is filed under its key, if any, is one of the
same query, still runs and is not being cancelled.  When a caller is cancelled whose computation
runs, nobody else awaits this computation. -/
def KeepsApart (m : Memoizer ε α) : Event ε α → Prop
  | .call c => ∀ n, m.data.get? c.cacheKey = some n → ∃ t, m.tasks[n]? = some t ∧
      t.call.query = c.query ∧ t.state.done = false ∧ t.cancelling = false
  | .cancel i => ∀ c t, m.waits i = some (c, t) → t.state.done = false →
      ∀ j c', j ≠ i → m.callers[j]? = some c' → c'.task = c.task → c'.cancelled = true
  | _ => True

/-- A computation that runs, or whose callback is scheduled, is filed under the key of its call. -/
structure Inv (m : Memoizer ε α) : Prop where
  filed : ∀ k n, m.data.get? k = some n → n < m.tasks.length
  running : ∀ n t, m.tasks[n]? = some t → t.state.done = false ∨ n ∈ m.scheduled →
    m.data.get? t.call.cacheKey = some n
  scheduled : ∀ n ∈ m.scheduled, ∃ t, m.tasks[n]? = some t ∧ t.state.done = true
  nodup : m.scheduled.Nodup

variable {m m' : Memoizer ε α}

/-- Calls of one query have one key. -/
theorem cacheKey_of_query {c c' : Call} (h : c.query = c'.query) : c.cacheKey = c'.cacheKey :=
  congrArg (fun q => q.1.key) h

/-- A call that finds a task under its key awaits it. -/
theorem wrapped_of_filed {c : Call} {n : Nat} (h : m.data.get? c.cacheKey = some n) :
    m.wrapped c = { m with callers := m.callers ++ [.await c n] } := by
  unfold wrapped
  rw [h]

/-- A call that finds none files a new one. -/
theorem wrapped_of_none {c : Call} (h : m.data.get? c.cacheKey = none) :
    m.wrapped c = { m with
      tasks := m.tasks ++ [.create c]
      data := m.data.set c.cacheKey m.tasks.length
      callers := m.callers ++ [.await c m.tasks.length] } := by
  unfold wrapped
  rw [h]

theorem of_waits {i : Nat} {c : Caller ε α} {t : Task ε α} (h : m.waits i = some (c, t)) :
    m.callers[i]? = some c ∧ m.tasks[c.task]? = some t ∧ c.received = .pending := by
  unfold waits at h
  split at h
  · cases h
  · next c' hc =>
    split at h
    · cases h
    · next t' ht =>
      split at h
      · cases h
      · next hd =>
        obtain ⟨rfl, rfl⟩ := Prod.mk.inj (Option.some.inj h)
        exact ⟨hc, ht, Future.done_eq_false_iff.mp (by simpa using hd)⟩

/-- All that an event can do. -/
def Does (m : Memoizer ε α) : Event ε α → Memoizer ε α → Prop
  | .call c, m' => m' = m.wrapped c
  | .finish n outcome, m' => ∃ t, m.tasks[n]? = some t ∧ t.state.done = false ∧
      m' = m.finish n t (.result outcome)
  | .abort n, m' => ∃ t, m.tasks[n]? = some t ∧ t.state.done = false ∧
      m' = m.finish n t .cancelled
  | .clear n, m' => ∃ t, m.tasks[n]? = some t ∧ n ∈ m.scheduled ∧
      m' = { m.clear t.call.cacheKey with scheduled := m.scheduled.erase n }
  | .wake i, m' => ∃ c t, m.waits i = some (c, t) ∧ t.state.done = true ∧
      m' = m.setCaller i { c with received := t.state }
  | .cancel i, m' => ∃ c t, m.waits i = some (c, t) ∧ m' = m.cancel i c t

theorem does_of_step {a : Event ε α} (h : step m a = some m') : m.Does a m' := by
  unfold step at h
  cases a with
  | call c => exact (Option.some.inj h).symm
  | finish n outcome | abort n =>
    simp only at h
    split at h
    · cases h
    · next t ht =>
      split at h
      · cases h
      · next hd => exact ⟨t, ht, by simpa using hd, (Option.some.inj h).symm⟩
  | clear n =>
    simp only at h
    split at h
    · cases h
    · next t ht =>
      split at h
      · next hn => exact ⟨t, ht, hn, (Option.some.inj h).symm⟩
      · cases h
  | wake i =>
    simp only at h
    split at h
    · cases h
    · next c t hw =>
      split at h
      · next hd => exact ⟨c, t, hw, hd, (Option.some.inj h).symm⟩
      · cases h
  | cancel i =>
    simp only at h
    split at h
    · cases h
    · next c t hw => exact ⟨c, t, hw, (Option.some.inj h).symm⟩

/-! ## 3. What is filed -/

namespace Inv

theorem init : Inv (init : Memoizer ε α) where
  filed k n h := by cases h
  running n t h := by simp [Memoizer.init] at h
  scheduled n h := by simp [Memoizer.init] at h
  nodup := List.nodup_nil

theorem wrapped (h : Inv m) (c : Call) : Inv (m.wrapped c) := by
  cases hk : m.data.get? c.cacheKey with
  | some n =>
    rw [wrapped_of_filed hk]
    exact ⟨h.filed, h.running, h.scheduled, h.nodup⟩
  | none =>
    rw [wrapped_of_none hk]
    refine ⟨fun k n hn => ?_, fun n t ht hopen => ?_, fun n hn => ?_, h.nodup⟩
    · rw [Dict.get?_set] at hn
      rw [List.length_append, List.length_singleton]
      split at hn
      · rw [← Option.some.inj hn]
        exact Nat.lt_succ_self _
      · exact Nat.lt_succ_of_lt (h.filed k n hn)
    · rcases Nat.lt_or_ge n m.tasks.length with hlt | hge
      · rw [List.getElem?_append_left hlt] at ht
        have hfiled := h.running n t ht hopen
        have hne : t.call.cacheKey ≠ c.cacheKey := by
          intro heq
          rw [heq, hk] at hfiled
          cases hfiled
        rw [Dict.get?_set_ne _ _ hne, hfiled]
      · rw [List.getElem?_append_right hge, List.getElem?_singleton] at ht
        split at ht
        · next hzero =>
          rw [← Option.some.inj ht]
          have hn : n = m.tasks.length := Nat.le_antisymm (Nat.sub_eq_zero_iff_le.mp hzero) hge
          rw [hn]
          exact Dict.get?_set_self ..
        · cases ht
    · obtain ⟨t, ht, hd⟩ := h.scheduled n hn
      exact ⟨t, (List.getElem?_append_left (List.getElem?_eq_some_iff.mp ht).1).trans ht, hd⟩

theorem finish (h : Inv m) {n : Nat} {t : Task ε α} (ht : m.tasks[n]? = some t)
    (hd : t.state.done = false) {state : Future (Except ε α)} (hs : state.done = true) :
    Inv (m.finish n t state) := by
  have hlt : n < m.tasks.length := (List.getElem?_eq_some_iff.mp ht).1
  have hnot : n ∉ m.scheduled := by
    intro hn
    obtain ⟨t', ht', hd'⟩ := h.scheduled n hn
    rw [ht, Option.some.injEq] at ht'
    rw [← ht', hd] at hd'
    cases hd'
  refine ⟨fun k i hi => ?_, fun i t' ht' hopen => ?_, fun i hi => ?_, ?_⟩
  · simpa [Memoizer.finish] using h.filed k i hi
  · simp only [Memoizer.finish, List.getElem?_set] at ht' hopen
    by_cases hin : n = i
    · subst hin
      simp only [if_true, hlt, Option.some.injEq] at ht'
      rw [← ht']
      exact h.running n t ht (Or.inl hd)
    · rw [if_neg hin] at ht'
      refine h.running i t' ht' (hopen.imp id fun hi => ?_)
      rcases List.mem_append.mp hi with hi | hi
      · exact hi
      · exact absurd (List.mem_singleton.mp hi).symm hin
  · simp only [Memoizer.finish, List.getElem?_set]
    by_cases hin : n = i
    · exact ⟨{ t with state := state }, by simp [hin, hin ▸ hlt], hs⟩
    · rw [if_neg hin]
      rcases List.mem_append.mp hi with hi | hi
      · exact h.scheduled i hi
      · exact absurd (List.mem_singleton.mp hi).symm hin
  · exact List.nodup_append.mpr ⟨h.nodup, List.nodup_singleton n, by
      rintro x hx y hy rfl
      exact hnot (List.mem_singleton.mp hy ▸ hx)⟩

theorem clear (h : Inv m) {n : Nat} {t : Task ε α} (ht : m.tasks[n]? = some t)
    (hn : n ∈ m.scheduled) :
    Inv { m.clear t.call.cacheKey with scheduled := m.scheduled.erase n } := by
  have hfiled := h.running n t ht (Or.inr hn)
  refine ⟨fun k i hi => ?_, fun i t' ht' hopen => ?_,
    fun i hi => h.scheduled i (List.mem_of_mem_erase hi), h.nodup.erase n⟩
  · simp only [Memoizer.clear, Dict.get?_erase] at hi
    split at hi
    · cases hi
    · exact h.filed k i hi
  · have hne : i ≠ n := by
      rintro rfl
      rcases hopen with hd | hmem
      · obtain ⟨t₀, ht₀, hd₀⟩ := h.scheduled i hn
        rw [show m.tasks[i]? = some t' from ht', Option.some.injEq] at ht₀
        rw [← ht₀, hd] at hd₀
        cases hd₀
      · exact h.nodup.not_mem_erase hmem
    have hfiled' := h.running i t' ht' (hopen.imp id List.mem_of_mem_erase)
    have hkey : t'.call.cacheKey ≠ t.call.cacheKey := by
      intro heq
      rw [heq, hfiled, Option.some.injEq] at hfiled'
      exact hne hfiled'.symm
    simp only [Memoizer.clear, Dict.get?_erase, if_neg hkey, hfiled']

theorem cancel (h : Inv m) {c : Caller ε α} {t : Task ε α} (ht : m.tasks[c.task]? = some t)
    (i : Nat) : Inv (m.cancel i c t) := by
  unfold Memoizer.cancel
  split
  · exact ⟨h.filed, h.running, h.scheduled, h.nodup⟩
  · have hlt : c.task < m.tasks.length := (List.getElem?_eq_some_iff.mp ht).1
    refine ⟨fun k n hn => by simpa [setCaller] using h.filed k n hn,
      fun n t' ht' hopen => ?_, fun n hn => ?_, h.nodup⟩
    · simp only [List.getElem?_set] at ht'
      by_cases heq : c.task = n
      · subst heq
        simp only [hlt, if_true, Option.some.injEq] at ht'
        subst ht'
        exact h.running c.task t ht hopen
      · rw [if_neg heq] at ht'
        exact h.running n t' ht' hopen
    · obtain ⟨t', ht', hd⟩ := h.scheduled n hn
      simp only [List.getElem?_set]
      by_cases heq : c.task = n
      · subst heq
        rw [ht, Option.some.injEq] at ht'
        exact ⟨{ t with cancelling := true }, by simp [hlt], ht' ▸ hd⟩
      · exact ⟨t', by rw [if_neg heq, ht'], hd⟩

/-- **Every event keeps what runs filed.** -/
theorem step (h : Inv m) {a : Event ε α} (hs : step m a = some m') : Inv m' := by
  have hdoes := does_of_step hs
  cases a with
  | call c => exact hdoes ▸ h.wrapped c
  | finish n outcome | abort n =>
    obtain ⟨t, ht, hd, rfl⟩ := hdoes
    exact h.finish ht hd rfl
  | clear n =>
    obtain ⟨t, ht, hn, rfl⟩ := hdoes
    exact h.clear ht hn
  | wake i =>
    obtain ⟨c, t, -, -, rfl⟩ := hdoes
    exact ⟨h.filed, h.running, h.scheduled, h.nodup⟩
  | cancel i =>
    obtain ⟨c, t, hw, rfl⟩ := hdoes
    exact h.cancel (of_waits hw).2.1 i

/-- No two computations of one query run at a time. -/
theorem one (h : Inv m) {q : Memoized × String × RecordType} {n n' : Nat} (hn : m.Runs q n)
    (hn' : m.Runs q n') : n = n' := by
  obtain ⟨t, ht, hq, hd⟩ := hn
  obtain ⟨t', ht', hq', hd'⟩ := hn'
  have hfiled := h.running n t ht (Or.inl hd)
  have hfiled' := h.running n' t' ht' (Or.inl hd')
  rw [cacheKey_of_query (hq.trans hq'.symm), hfiled', Option.some.injEq] at hfiled
  exact hfiled.symm

end Inv

/-! ## 4. One event -/

/-- A computation that ends. -/
theorem served_finish {n : Nat} {t : Task ε α} (ht : m.tasks[n]? = some t)
    (hd : t.state.done = false) (state : Future (Except ε α)) {c : Caller ε α}
    (h : m.Served c) : (m.finish n t state).Served c := by
  obtain ⟨t', ht', hq, hcancel, hrec⟩ := h
  simp only [Served, finish, List.getElem?_set]
  by_cases hn : n = c.task
  · subst hn
    rw [ht, Option.some.injEq] at ht'
    subst ht'
    refine ⟨{ t with state := state }, ?_, hq, hcancel, Or.inl ?_⟩
    · simp [(List.getElem?_eq_some_iff.mp ht).1]
    · exact hrec.elim id fun heq => heq.trans (Future.done_eq_false_iff.mp hd)
  · exact ⟨t', by rw [if_neg hn, ht'], hq, hcancel, hrec⟩

/-- **A call keeps the callers apart, and starts what it has to, exactly if what is filed under its
key is a computation of its query that runs and is not being cancelled.** -/
theorem apart_wrapped_iff (hi : Inv m) (h : m.Apart) (c : Call) :
    ((m.wrapped c).Apart ∧ m.Starts (.call c) (m.wrapped c)) ↔ m.KeepsApart (.call c) := by
  have hone : ∀ q n n', (m.wrapped c).Runs q n → (m.wrapped c).Runs q n' → n = n' :=
    fun q n n' => (hi.wrapped c).one
  cases hk : m.data.get? c.cacheKey with
  | some n =>
    have hw := wrapped_of_filed hk
    constructor
    · rintro ⟨hapart, n', hcallers, hstarts⟩ k hk'
      rw [hk, Option.some.injEq] at hk'
      subst hk'
      rw [hw] at hapart hcallers hstarts
      have hn' : n' = n := by
        have heq := List.append_cancel_left hcallers
        exact (congrArg Caller.task (List.singleton_inj.mp heq)).symm
      subst hn'
      obtain ⟨t, ht, hq, hcancel, -⟩ :=
        hapart.served (.await c n') (List.mem_append_right _ (List.mem_singleton_self _)) rfl
      rcases hstarts with ⟨⟨t', ht', -, hd⟩, -⟩ | ⟨-, hlen, -⟩
      · have heq : t = t' := Option.some.inj (ht.symm.trans ht')
        exact ⟨t, ht, hq, heq ▸ hd, hcancel⟩
      · exact absurd (hi.filed _ _ hk) (by omega)
    · intro hkeeps
      obtain ⟨t, ht, hq, hd, hcancel⟩ := hkeeps n hk
      refine ⟨⟨?_, hone⟩, ?_⟩
      · rw [hw]
        intro c' hc' hnot
        rcases List.mem_append.mp hc' with hc' | hc'
        · exact h.served c' hc' hnot
        · rw [List.mem_singleton.mp hc']
          exact ⟨t, ht, hq, hcancel, Or.inl rfl⟩
      · rw [hw]
        exact ⟨n, rfl, Or.inl ⟨⟨t, ht, hq, hd⟩, rfl⟩⟩
  | none =>
    have hnot : ∀ k, ¬ m.Runs c.query k := by
      rintro k ⟨t, ht, hq, hd⟩
      have hfiled := hi.running k t ht (Or.inl hd)
      rw [cacheKey_of_query hq, hk] at hfiled
      cases hfiled
    have hw := wrapped_of_none hk
    refine iff_of_true ⟨⟨?_, hone⟩, ?_⟩ fun n hn => by rw [hk] at hn; cases hn
    · rw [hw]
      intro c' hc' hcancelled
      rcases List.mem_append.mp hc' with hc' | hc'
      · obtain ⟨t, ht, hrest⟩ := h.served c' hc' hcancelled
        have hlt : c'.task < m.tasks.length := (List.getElem?_eq_some_iff.mp ht).1
        exact ⟨t, (List.getElem?_append_left hlt).trans ht, hrest⟩
      · rw [List.mem_singleton.mp hc']
        exact ⟨.create c, by simp [Caller.await], rfl, rfl, Or.inl rfl⟩
    · rw [hw]
      exact ⟨m.tasks.length, rfl, Or.inr ⟨hnot, rfl, rfl⟩⟩

/-- After a cancellation the callers that are not cancelled are the others. -/
theorem of_mem_set_cancelled {i : Nat} {x c : Caller ε α} (hx : x.cancelled = true)
    (hc : c ∈ m.callers.set i x) (hnot : c.cancelled = false) :
    ∃ j, j ≠ i ∧ m.callers[j]? = some c := by
  obtain ⟨j, hj⟩ := List.mem_iff_getElem?.mp hc
  rw [List.getElem?_set] at hj
  split at hj
  · split at hj
    · rw [← Option.some.inj hj, hx] at hnot
      cases hnot
    · cases hj
  · next hne => exact ⟨j, Ne.symm hne, hj⟩

/-- **A cancellation keeps the callers apart exactly if it reaches no other caller's
computation.** -/
theorem apart_cancel_iff (hi : Inv m) (h : m.Apart) {i : Nat} {c : Caller ε α} {t : Task ε α}
    (hw : m.waits i = some (c, t)) :
    (m.cancel i c t).Apart ↔ m.KeepsApart (.cancel i) := by
  obtain ⟨hc, ht, -⟩ := of_waits hw
  have hlt : c.task < m.tasks.length := (List.getElem?_eq_some_iff.mp ht).1
  have hone : ∀ q n n', (m.cancel i c t).Runs q n → (m.cancel i c t).Runs q n' → n = n' :=
    fun q n n' => (hi.cancel ht i).one
  unfold cancel at hone ⊢
  cases hd : t.state.done with
  | true =>
    simp only [hd, if_true] at hone ⊢
    refine iff_of_true ⟨fun c' hc' hnot => ?_, hone⟩ fun c' t' hw' hd' => ?_
    · obtain ⟨j, -, hj⟩ := of_mem_set_cancelled rfl hc' hnot
      exact h.served c' (List.mem_of_getElem? hj) hnot
    · rw [hw, Option.some.injEq, Prod.mk.injEq] at hw'
      rw [← hw'.2, hd] at hd'
      cases hd'
  | false =>
    simp only [hd, Bool.false_eq_true, if_false] at hone ⊢
    constructor
    · intro hapart c₀ t₀ hw₀ _ j c' hj hc' htask
      rw [hw, Option.some.injEq, Prod.mk.injEq] at hw₀
      rw [← hw₀.1] at htask
      by_contra hnot
      have hmem : c' ∈ (m.setCaller i { c with cancelled := true }).callers := by
        refine List.mem_iff_getElem?.mpr ⟨j, ?_⟩
        simp only [setCaller, List.getElem?_set, if_neg (Ne.symm hj), hc']
      obtain ⟨t', ht', -, hcancel, -⟩ := hapart.served c' hmem (by simpa using hnot)
      simp only [htask, List.getElem?_set, hlt, if_true, Option.some.injEq] at ht'
      rw [← ht'] at hcancel
      cases hcancel
    · intro hkeeps
      refine ⟨fun c' hc' hnot => ?_, hone⟩
      obtain ⟨j, hj, hc'⟩ := of_mem_set_cancelled rfl hc' hnot
      obtain ⟨t', ht', hrest⟩ := h.served c' (List.mem_of_getElem? hc') hnot
      have htask : c.task ≠ c'.task := by
        intro heq
        rw [hkeeps c t hw hd j c' hj hc' heq.symm] at hnot
        cases hnot
      refine ⟨t', ?_, hrest⟩
      simp only [List.getElem?_set, if_neg htask, ht']

/-- **One event.** -/
theorem apart_step_iff {a : Event ε α} (hi : Inv m) (h : m.Apart) (hs : step m a = some m') :
    (m'.Apart ∧ m.Starts a m') ↔ m.KeepsApart a := by
  have hi' := hi.step hs
  have hdoes := does_of_step hs
  have hone : ∀ q n n', m'.Runs q n → m'.Runs q n' → n = n' := fun q n n' => hi'.one
  cases a with
  | call c => exact hdoes ▸ apart_wrapped_iff hi h c
  | finish n outcome | abort n =>
    obtain ⟨t, ht, hd, rfl⟩ := hdoes
    refine iff_of_true ⟨⟨fun c hc hnot => ?_, hone⟩, trivial⟩ trivial
    exact served_finish ht hd _ (h.served c hc hnot)
  | clear n =>
    obtain ⟨t, ht, hn, rfl⟩ := hdoes
    exact iff_of_true ⟨⟨h.served, hone⟩, trivial⟩ trivial
  | wake i =>
    obtain ⟨c, t, hw, hd, rfl⟩ := hdoes
    obtain ⟨hc, ht, -⟩ := of_waits hw
    refine iff_of_true ⟨⟨fun c' hc' hnot => ?_, hone⟩, trivial⟩ trivial
    rcases List.mem_or_eq_of_mem_set hc' with hc' | rfl
    · exact h.served c' hc' hnot
    · obtain ⟨t', ht', hq, hcancel, -⟩ := h.served c (List.mem_of_getElem? hc) hnot
      rw [ht, Option.some.injEq] at ht'
      subst ht'
      exact ⟨t, ht, hq, hcancel, Or.inr rfl⟩
  | cancel i =>
    obtain ⟨c, t, hw, rfl⟩ := hdoes
    exact (and_iff_left trivial).trans (apart_cancel_iff hi h hw)

/-! ## 5. All events -/

theorem apart_init : (init : Memoizer ε α).Apart where
  served c hc := by cases hc
  one q n n' hn := by
    obtain ⟨t, ht, -⟩ := hn
    simp [init] at ht

/-- **In a run, every caller gets what is computed for its own query, callers of one query share
what runs, and later ones start it anew, if and only if each call finds nothing filed but a
computation of its query that runs and is not being cancelled, and no cancellation reaches a
computation that others await.** -/
theorem kept_apart_iff (events : List (Event ε α)) :
    (Always step Apart init events ∧ Along step Starts init events) ↔
      Along step (fun m a _ => m.KeepsApart a) init events :=
  always_and_along_iff (J := Inv) (fun _ _ _ hi hs => hi.step hs)
    (fun _ _ _ hi h hs => apart_step_iff hi h hs) Inv.init apart_init

/-- A call of `_query`. -/
def queryCall (fqdn : String) : Call where
  memoized := ⟨0, some 0⟩
  args := ⟨0, fqdn, .a, false, 0⟩

/-- The caller that asks for `example.org` receives the address of `example.com`; nothing is
computed for `example.org`. -/
theorem answer_of_another_query :
    ∃ m : Memoizer String String,
      run step init [.call (queryCall "example.com"), .call (queryCall "example.org"),
        .finish 0 (.ok "192.0.2.1"), .clear 0, .wake 0, .wake 1] = some m ∧
      m.tasks.map Task.call = [queryCall "example.com"] ∧
      m.callers[1]? = some ⟨queryCall "example.org", 0, false, .result (.ok "192.0.2.1")⟩ ∧
      (queryCall "example.org").query ≠ (queryCall "example.com").query :=
  ⟨_, rfl, rfl, rfl, by decide⟩

end Memoizer
end Dns
end Hedra
