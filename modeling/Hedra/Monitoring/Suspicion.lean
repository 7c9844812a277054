/-
# Which node does a suspicion task investigate?

A node that does not answer becomes suspect: it is put on `_suspect_nodes`, and a task of
`_start_suspect_monitor` (`distributed/monitoring/monitor_service.py`) is created and filed under it
in `_suspect_tasks`.  The task is not told which node it is for.  When it first runs it takes the
**last** node of the list, so two nodes that become suspect before the first task runs get each
other's task.

`_cancel_suspicion_probe` works on a copy of `_suspect_tasks`, waits for the task it cancels,
and then puts the copy in place: what was filed meanwhile is lost.

Every task is filed under the node it investigates if and only if no step loses the connection:
a task starts with the node it is filed under on top, a node whose task still investigates it
does not become suspect again, and no copy that is put in place lacks a running task.

* `matched_step_iff`: one step keeps the tasks with their nodes, and `probes_matched_iff` a run;
* `matched_of_orderly`: it is enough that suspicions do not overlap.
-/
import Hedra.Lib.Machine
import Hedra.Monitoring.Monitor

namespace Hedra
namespace Monitor

open Lib Lib.Machine

/-! ## 1. Functions -/

/-- The end of `_run_healthcheck(host, port, target_host, target_port)` and
`_run_tcp_healthcheck` when no attempt was answered.  The task is filed under `a`, the node
that is put on the list is the target, where there is one. -/
def noteUnresponsive (m : Monitor) (a : Address) (target : Option Address) : Monitor :=
  let check := target.getD a
  if m.checkIsNotSelf check ∧ m.nodeStatuses.get? check = some .healthy then
    { m with
      nodeStatuses := m.nodeStatuses.set check .suspect
      suspectNodes := m.suspectNodes ++ [check]
      suspectTasks := m.suspectTasks.set a m.probes.length
      probes := m.probes ++ [.created] }
  else m

/-- A task goes on to its next state. -/
def setProbe (m : Monitor) (t : Nat) (p : Probe) : Monitor := { m with probes := m.probes.set t p }

/-- `_start_suspect_monitor`, up to the first await in its loop.  The test of
`_suspect_history` compares a pair with triples, so it always lets the node pass; a node whose
status has changed meanwhile is not investigated. -/
def startSuspectMonitor (m : Monitor) (t : Nat) : Monitor :=
  match m.suspectNodes.getLast? with
  | none => m.setProbe t .ended
  | some a =>
    let m := { m with suspectNodes := m.suspectNodes.dropLast }
    if m.checkIsNotSelf a ∧ m.nodeStatuses.get? a = some .suspect then
      m.setProbe t (.investigating a)
    else m.setProbe t .ended

/-- `_cancel_suspicion_probe`, up to where it waits for the task.  Awaiting a task that has
ended does not suspend; if that task `raised`, so does the call, and nothing is deleted. -/
def cancelSuspicionProbe (m : Monitor) (a : Address) (raised : Bool) : Monitor :=
  match m.suspectTasks.get? a with
  | none => m
  | some t =>
    if m.probes[t]? = some .ended then
      if raised then m else { m with suspectTasks := m.suspectTasks.erase a }
    else
      { m.setProbe t .stopping with cancelling := m.cancelling ++ [⟨a, t, m.suspectTasks⟩] }

/-- `_cancel_suspicion_probe`, when the task has ended. -/
def putBack (m : Monitor) (i : Nat) (c : Cancelling) : Monitor :=
  { m with
    suspectTasks := c.suspectTasks.erase c.suspect
    cancelling := m.cancelling.eraseIdx i }

/-! ## 2. The machine -/

/-- What can happen to the suspicions of a monitor. -/
inductive Event
  /-- A health check of `a`, or of `target` by way of `a`, stays without an answer. -/
  | unresponsive
      (a : Address)
      (target : Option Address)
  | start
      (task : Nat)
  /-- An investigation ends by itself. -/
  | finish
      (task : Nat)
  /-- A handler creates a call of `_cancel_suspicion_probe`. -/
  | createCancel
      (a : Address)
  | cancel
      (a : Address)
      (raised : Bool)
  /-- A task that was cancelled runs for the last time. -/
  | stop
      (task : Nat)
  | cancelled
      (index : Nat)
  /-- Other handlers change what is known of the nodes. -/
  | statuses
      (nodeStatuses : Dict Address HealthStatus)

/-- The machine of the suspicions. -/
def step (m : Monitor) : Event → Option Monitor
  | .unresponsive a target => some (m.noteUnresponsive a target)
  | .start t => if m.probes[t]? = some .created then some (m.startSuspectMonitor t) else none
  | .finish t =>
    match m.probes[t]? with
    | some (.investigating _) => some (m.setProbe t .ended)
    | _ => none
  | .createCancel a => some { m with cancelCreated := m.cancelCreated ++ [a] }
  | .cancel a raised =>
    if a ∈ m.cancelCreated then
      some ({ m with cancelCreated := m.cancelCreated.erase a }.cancelSuspicionProbe a raised)
    else none
  | .stop t => if m.probes[t]? = some .stopping then some (m.setProbe t .ended) else none
  | .cancelled i =>
    match m.cancelling[i]? with
    | some c => if m.probes[c.task]? = some .ended then some (m.putBack i c) else none
    | none => none
  | .statuses nodeStatuses => some { m with nodeStatuses := nodeStatuses }

/-- All that an event can do. -/
def Does (m : Monitor) : Event → Monitor → Prop
  | .unresponsive a target, m' => m' = m.noteUnresponsive a target
  | .start t, m' => m.probes[t]? = some .created ∧ m' = m.startSuspectMonitor t
  | .finish t, m' => (∃ a, m.probes[t]? = some (.investigating a)) ∧ m' = m.setProbe t .ended
  | .createCancel a, m' => m' = { m with cancelCreated := m.cancelCreated ++ [a] }
  | .cancel a raised, m' => a ∈ m.cancelCreated ∧
      m' = { m with cancelCreated := m.cancelCreated.erase a }.cancelSuspicionProbe a raised
  | .stop t, m' => m.probes[t]? = some .stopping ∧ m' = m.setProbe t .ended
  | .cancelled i, m' => ∃ c, m.cancelling[i]? = some c ∧ m.probes[c.task]? = some .ended ∧
      m' = m.putBack i c
  | .statuses nodeStatuses, m' => m' = { m with nodeStatuses := nodeStatuses }

theorem does_of_step {m m' : Monitor} {ev : Event} (h : m.step ev = some m') : m.Does ev m' := by
  unfold step at h
  cases ev with
  | unresponsive a target | createCancel a | statuses nodeStatuses =>
    exact (Option.some.inj h).symm
  | start t | cancel a raised | stop t =>
    simp only at h
    split at h
    · next hif => exact ⟨hif, (Option.some.inj h).symm⟩
    · cases h
  | finish t =>
    simp only at h
    split at h
    · next a ha => exact ⟨⟨a, ha⟩, (Option.some.inj h).symm⟩
    · cases h
  | cancelled i =>
    simp only at h
    split at h
    · next c hc =>
      split at h
      · next he => exact ⟨c, hc, he, (Option.some.inj h).symm⟩
      · cases h
    · cases h

/-! ## 3. Tasks and the nodes they are filed under -/

/-- The task `t` investigates `a`. -/
def Investigates (m : Monitor) (t : Nat) (a : Address) : Prop :=
  m.probes[t]? = some (.investigating a)

/-- Cancelling the suspicion of `a` stops the task `t`. -/
def Stops (m : Monitor) (a : Address) (t : Nat) : Prop :=
  (m.cancelSuspicionProbe a false).probes[t]? = some .stopping

/-- The task filed under a node is the one that investigates it, and cancelling the suspicion
of a node stops exactly the investigation of this node. -/
structure Matched (m : Monitor) : Prop where
  filed : ∀ a t b, m.suspectTasks.get? a = some t → m.Investigates t b → b = a
  stops : ∀ a t b, m.Investigates t b → (m.Stops a t ↔ a = b)

/-- `tasks` has the task `t` under `a` and nowhere else. -/
def Files (tasks : Dict Address Nat) (t : Nat) (a : Address) : Prop :=
  ∀ b, tasks.get? b = some t ↔ b = a

theorem investigates_setProbe {m : Monitor} {t u : Nat} {p : Probe} {a : Address} :
    (m.setProbe t p).Investigates u a ↔
      (u = t ∧ t < m.probes.length ∧ p = .investigating a) ∨ (u ≠ t ∧ m.Investigates u a) := by
  simp only [Investigates, setProbe, List.getElem?_set]
  by_cases h : t = u
  · subst h
    by_cases hl : t < m.probes.length <;> simp [hl]
  · simp [h, Ne.symm h]

/-- Cancelling the suspicion of `a` stops, of the investigations, the one filed under `a`. -/
theorem stops_iff {m : Monitor} {t : Nat} {b : Address} (h : m.Investigates t b) (a : Address) :
    m.Stops a t ↔ m.suspectTasks.get? a = some t := by
  have hget : m.probes[t]? = some (.investigating b) := h
  have hlt : t < m.probes.length := (List.getElem?_eq_some_iff.mp hget).1
  unfold Stops cancelSuspicionProbe
  cases m.suspectTasks.get? a with
  | none => simp [hget]
  | some u =>
    by_cases he : m.probes[u]? = some .ended
    · have hne : u ≠ t := by
        rintro rfl
        simp [hget] at he
      simp [he, hget, hne]
    · simp only [he, if_false, setProbe, List.getElem?_set]
      by_cases hu : u = t
      · simp [hu, hlt]
      · simp [hu, hget]

theorem matched_iff_files {m : Monitor} :
    m.Matched ↔ ∀ t a, m.Investigates t a → Files m.suspectTasks t a := by
  constructor
  · intro h t a ht b
    rw [← stops_iff ht]
    exact h.stops b t a ht
  · intro h
    refine ⟨fun a t b hf ht => ((h t b ht a).mp hf).symm, fun a t b ht => ?_⟩
    rw [stops_iff ht]
    exact h t b ht a

/-! ## 4. One step -/

/-- A health check without an answer makes the node suspect. -/
def BecomesSuspect (m : Monitor) (a : Address) (target : Option Address) : Prop :=
  m.checkIsNotSelf (target.getD a) = true ∧ m.nodeStatuses.get? (target.getD a) = some .healthy

/-- A task that starts now investigates `a`. -/
def NextSuspect (m : Monitor) (a : Address) : Prop :=
  m.suspectNodes.getLast? = some a ∧ m.checkIsNotSelf a = true ∧
    m.nodeStatuses.get? a = some .suspect

/-- The step keeps the tasks and their nodes together. -/
def KeepsMatched (m : Monitor) : Event → Prop
  | .unresponsive a target => m.BecomesSuspect a target → ∀ t, ¬ m.Investigates t a
  | .start t => ∀ a, m.NextSuspect a → Files m.suspectTasks t a
  | .cancelled i => ∀ c, m.cancelling[i]? = some c →
      ∀ t a, m.Investigates t a → Files (c.suspectTasks.erase c.suspect) t a
  | _ => True

theorem noteUnresponsive_of_not {m : Monitor} {a : Address} {target : Option Address}
    (h : ¬ m.BecomesSuspect a target) : m.noteUnresponsive a target = m := if_neg h

theorem noteUnresponsive_of_becomes {m : Monitor} {a : Address} {target : Option Address}
    (h : m.BecomesSuspect a target) :
    m.noteUnresponsive a target =
      { m with
        nodeStatuses := m.nodeStatuses.set (target.getD a) .suspect
        suspectNodes := m.suspectNodes ++ [target.getD a]
        suspectTasks := m.suspectTasks.set a m.probes.length
        probes := m.probes ++ [.created] } := if_pos h

/-- A task that has been created does not investigate yet. -/
theorem investigates_noteUnresponsive {m : Monitor} {a b : Address} {target : Option Address}
    {t : Nat} : (m.noteUnresponsive a target).Investigates t b ↔ m.Investigates t b := by
  by_cases h : m.BecomesSuspect a target
  · rw [noteUnresponsive_of_becomes h]
    simp only [Investigates, List.getElem?_append]
    split
    · rfl
    · next hlt =>
      rw [List.getElem?_eq_none (Nat.le_of_not_lt hlt)]
      cases t - m.probes.length <;> simp
  · rw [noteUnresponsive_of_not h]

/-- A new task under `a` leaves those filed elsewhere. -/
theorem files_set_iff {tasks : Dict Address Nat} {t n : Nat} {a b : Address}
    (h : Files tasks t b) (ht : t ≠ n) : Files (tasks.set a n) t b ↔ b ≠ a := by
  constructor
  · rintro h' rfl
    have hself := (h' b).mpr rfl
    rw [Dict.get?_set_self, Option.some.injEq] at hself
    exact ht hself.symm
  · intro hne c
    rw [Dict.get?_set]
    by_cases hc : c = a
    · subst hc
      simp [Ne.symm hne, Ne.symm ht]
    · simpa [hc] using h c

theorem suspectTasks_startSuspectMonitor (m : Monitor) (t : Nat) :
    (m.startSuspectMonitor t).suspectTasks = m.suspectTasks := by
  unfold startSuspectMonitor
  split
  · rfl
  · simp only
    split <;> rfl

/-- What a task does when it starts. -/
theorem investigates_startSuspectMonitor {m : Monitor} {t u : Nat} {a : Address}
    (ht : m.probes[t]? = some .created) :
    (m.startSuspectMonitor t).Investigates u a ↔
      (u = t ∧ m.NextSuspect a) ∨ (u ≠ t ∧ m.Investigates u a) := by
  have hlt : t < m.probes.length := (List.getElem?_eq_some_iff.mp ht).1
  unfold startSuspectMonitor NextSuspect
  cases hl : m.suspectNodes.getLast? with
  | none =>
    rw [investigates_setProbe]
    simp
  | some b =>
    have hpop (p : Probe) : ({ m with suspectNodes := m.suspectNodes.dropLast }.setProbe t p).Investigates
        u a ↔ (u = t ∧ p = .investigating a) ∨ (u ≠ t ∧ m.Investigates u a) := by
      rw [investigates_setProbe]
      simp only [hlt, true_and]
      rfl
    simp only
    split
    · next hb =>
      rw [hpop]
      simp only [Probe.investigating.injEq, Option.some.injEq]
      constructor
      · rintro (⟨hu, rfl⟩ | h)
        · exact Or.inl ⟨hu, rfl, hb⟩
        · exact Or.inr h
      · rintro (⟨hu, rfl, -⟩ | h)
        · exact Or.inl ⟨hu, rfl⟩
        · exact Or.inr h
    · next hb =>
      rw [hpop]
      simp only [Option.some.injEq]
      constructor
      · rintro (⟨hu, h⟩ | h)
        · cases h
        · exact Or.inr h
      · rintro (⟨hu, rfl, h⟩ | h)
        · exact absurd h hb
        · exact Or.inr h

/-- What deleting the entry of `a` leaves. -/
theorem files_erase {tasks : Dict Address Nat} {t : Nat} {a b : Address} (h : Files tasks t b)
    (hne : b ≠ a) : Files (tasks.erase a) t b := by
  intro c
  rw [Dict.get?_erase]
  by_cases hc : c = a
  · subst hc
    simp [Ne.symm hne]
  · simpa [hc] using h c

/-- `_cancel_suspicion_probe` starts no investigation, and leaves those it does not stop under
their nodes. -/
theorem files_cancelSuspicionProbe {m : Monitor} (a : Address) (raised : Bool)
    (h : ∀ t b, m.Investigates t b → Files m.suspectTasks t b) {t : Nat} {b : Address}
    (ht : (m.cancelSuspicionProbe a raised).Investigates t b) :
    Files (m.cancelSuspicionProbe a raised).suspectTasks t b := by
  unfold cancelSuspicionProbe at ht ⊢
  cases hg : m.suspectTasks.get? a with
  | none =>
    rw [hg] at ht
    exact h t b ht
  | some u =>
    simp only [hg] at ht ⊢
    by_cases he : m.probes[u]? = some .ended
    · simp only [he, if_true] at ht ⊢
      cases raised with
      | true => exact h t b ht
      | false =>
        -- the entry that is deleted is of a task that has ended
        refine files_erase (h t b ht) ?_
        rintro rfl
        have hu : u = t := by
          have := ((h t b ht) b).mpr rfl
          rw [hg, Option.some.injEq] at this
          exact this
        rw [hu, show m.probes[t]? = _ from ht] at he
        cases he
    · simp only [he, if_false] at ht ⊢
      rcases investigates_setProbe.mp ht with ⟨-, -, hp⟩ | ⟨-, ht⟩
      · cases hp
      · exact h t b ht

/-- A task that ends investigates nothing any more. -/
theorem files_setProbe_ended {m : Monitor} (t : Nat)
    (h : ∀ u b, m.Investigates u b → Files m.suspectTasks u b) {u : Nat} {b : Address}
    (hu : (m.setProbe t .ended).Investigates u b) :
    Files (m.setProbe t .ended).suspectTasks u b := by
  rcases investigates_setProbe.mp hu with ⟨-, -, hp⟩ | ⟨-, hu⟩
  · cases hp
  · exact h u b hu

/-- **One step keeps the tasks matched exactly if it keeps them with their nodes.** -/
theorem matched_step_iff {m m' : Monitor} {ev : Event} (h : m.Matched) (hs : m.step ev = some m') :
    m'.Matched ↔ m.KeepsMatched ev := by
  rw [matched_iff_files] at h ⊢
  have hdoes := does_of_step hs
  cases ev with
  | unresponsive a target =>
    obtain rfl := hdoes
    simp only [investigates_noteUnresponsive, KeepsMatched]
    by_cases hb : m.BecomesSuspect a target
    · have hiff : ∀ t b, m.Investigates t b →
          (Files (m.suspectTasks.set a m.probes.length) t b ↔ b ≠ a) := by
        intro t b ht
        have hlt : t < m.probes.length := (List.getElem?_eq_some_iff.mp ht).1
        exact files_set_iff (h t b ht) (Nat.ne_of_lt hlt)
      rw [noteUnresponsive_of_becomes hb]
      constructor
      · rintro h' - t ht
        exact (hiff t a ht).mp (h' t a ht) rfl
      · intro hno t b ht
        refine (hiff t b ht).mpr ?_
        rintro rfl
        exact hno hb t ht
    · rw [noteUnresponsive_of_not hb]
      exact iff_of_true h fun hb' => absurd hb' hb
  | start t =>
    obtain ⟨ht, rfl⟩ := hdoes
    simp only [investigates_startSuspectMonitor ht, suspectTasks_startSuspectMonitor, KeepsMatched]
    constructor
    · intro h' a ha
      exact h' t a (Or.inl ⟨rfl, ha⟩)
    · rintro hf u a (⟨rfl, ha⟩ | ⟨-, hu⟩)
      · exact hf a ha
      · exact h u a hu
  | finish t | stop t =>
    obtain ⟨-, rfl⟩ := hdoes
    exact iff_of_true (fun u a hu => files_setProbe_ended t h hu) trivial
  | createCancel a | statuses nodeStatuses =>
    obtain rfl := hdoes
    exact iff_of_true h trivial
  | cancel a raised =>
    obtain ⟨-, rfl⟩ := hdoes
    refine iff_of_true (fun t b ht => ?_) trivial
    exact files_cancelSuspicionProbe (m := { m with cancelCreated := m.cancelCreated.erase a })
      a raised h ht
  | cancelled i =>
    obtain ⟨c, hc, -, rfl⟩ := hdoes
    simp only [KeepsMatched, hc, Option.some.injEq, forall_eq']
    rfl

/-! ## 5. Runs -/

/-- **The tasks are matched all along a run exactly if every step keeps them with their
nodes.** -/
theorem probes_matched_iff (address : Address) (maxSuspectMultiplier : Int) (evs : List Event) :
    Always step Matched (init address maxSuspectMultiplier) evs ↔
      Along step (fun m ev _ => m.KeepsMatched ev) (init address maxSuspectMultiplier) evs := by
  have h₀ : (init address maxSuspectMultiplier).Matched := by
    refine matched_iff_files.mpr fun t a ht => ?_
    simp [Investigates, init] at ht
  refine always_iff_along ?_ h₀
  intro m ev m' h hs
  exact matched_step_iff h hs

/-- Two nodes become suspect before the first task runs: the task that is filed under the first
one investigates the second. -/
theorem investigates_the_other :
    ¬ ∀ (address : Address) (maxSuspectMultiplier : Int) (evs : List Event),
      Always step Matched (init address maxSuspectMultiplier) evs := by
  intro h
  have hm := always_iff_run.mp (h ⟨"10.0.0.3", 9003⟩ 7
    [.statuses ((Dict.empty.set ⟨"10.0.0.1", 9001⟩ .healthy).set ⟨"10.0.0.2", 9002⟩ .healthy),
      .unresponsive ⟨"10.0.0.1", 9001⟩ none, .unresponsive ⟨"10.0.0.2", 9002⟩ none, .start 0])
    _ [] _ (List.append_nil _).symm rfl
  have heq := hm.filed ⟨"10.0.0.1", 9001⟩ 0 ⟨"10.0.0.2", 9002⟩ (by decide) (by unfold Investigates; decide)
  exact absurd heq (by decide)

/-! ## 6. Runs without overlaps -/

/-- The task `t` has not started. -/
def Waits (m : Monitor) (t : Nat) : Prop := m.probes[t]? = some .created

/-- The task `t` investigates `a`, or it would if it started now. -/
def IsFor (m : Monitor) (t : Nat) (a : Address) : Prop :=
  m.Investigates t a ∨ (m.Waits t ∧ m.suspectNodes.getLast? = some a)

/-- A node becomes suspect only when no task waits to start, no cancellation waits for its
task, and no task investigates the node. -/
def Orderly (m : Monitor) : Event → Prop
  | .unresponsive a target =>
    target = none ∧ (∀ t, ¬ m.Waits t) ∧ m.cancelling = [] ∧ ∀ t, ¬ m.Investigates t a
  | _ => True

/-- What an orderly run keeps: every dictionary that is or may come into place has the tasks
under their nodes. -/
structure Tidy (m : Monitor) : Prop where
  files : ∀ t a, m.IsFor t a → Files m.suspectTasks t a
  copies : ∀ c ∈ m.cancelling, ∀ t a, m.IsFor t a → Files (c.suspectTasks.erase c.suspect) t a
  top : ∀ t, m.Waits t → ∃ a, m.suspectNodes.getLast? = some a
  one : ∀ t u, m.Waits t → m.Waits u → t = u
  bound : ∀ a t, m.suspectTasks.get? a = some t → t < m.probes.length
  copyBound : ∀ c ∈ m.cancelling, ∀ a t, c.suspectTasks.get? a = some t → t < m.probes.length

theorem Tidy.matched {m : Monitor} (h : m.Tidy) : m.Matched :=
  matched_iff_files.mpr fun t a ht => h.files t a (Or.inl ht)

/-- Nothing new is filed, and no task is for a node that it was not for before. -/
theorem Tidy.of_isFor {m m' : Monitor} (h : m.Tidy) (htasks : m'.suspectTasks = m.suspectTasks)
    (hcopies : m'.cancelling = m.cancelling) (hlen : m'.probes.length = m.probes.length)
    (hwaits : ∀ t, m'.Waits t → m.Waits t ∧ m'.suspectNodes = m.suspectNodes)
    (hfor : ∀ t a, m'.Investigates t a → m.IsFor t a) : m'.Tidy := by
  have hfor' : ∀ t a, m'.IsFor t a → m.IsFor t a := by
    rintro t a (ht | ⟨ht, ha⟩)
    · exact hfor t a ht
    · obtain ⟨hw, hn⟩ := hwaits t ht
      exact Or.inr ⟨hw, hn ▸ ha⟩
  constructor
  · intro t a ht
    exact htasks ▸ h.files t a (hfor' t a ht)
  · intro c hc t a ht
    exact h.copies c (hcopies ▸ hc) t a (hfor' t a ht)
  · intro t ht
    obtain ⟨hw, hn⟩ := hwaits t ht
    exact hn ▸ h.top t hw
  · intro t u ht hu
    exact h.one t u (hwaits t ht).1 (hwaits u hu).1
  · intro a t ha
    exact hlen ▸ h.bound a t (htasks ▸ ha)
  · intro c hc a t ha
    exact hlen ▸ h.copyBound c (hcopies ▸ hc) a t ha

theorem waits_setProbe {m : Monitor} {t u : Nat} {p : Probe} (hp : p ≠ .created) :
    (m.setProbe t p).Waits u ↔ u ≠ t ∧ m.Waits u := by
  simp only [Waits, setProbe, List.getElem?_set]
  by_cases h : t = u
  · subst h
    by_cases hl : t < m.probes.length <;> simp [hl, hp]
  · simp [h, Ne.symm h]

/-- A task stops, or ends. -/
theorem Tidy.setProbe {m : Monitor} (h : m.Tidy) (t : Nat) {p : Probe} (hp : p ≠ .created)
    (hp' : ∀ a, p ≠ .investigating a) : (m.setProbe t p).Tidy := by
  refine h.of_isFor rfl rfl (List.length_set ..) ?_ ?_
  · intro u hu
    exact ⟨((waits_setProbe hp).mp hu).2, rfl⟩
  · intro u a hu
    rcases investigates_setProbe.mp hu with ⟨-, -, ha⟩ | ⟨-, hu⟩
    · exact absurd ha (hp' a)
    · exact Or.inl hu

/-- The task that waits takes the node it is for. -/
theorem Tidy.startSuspectMonitor {m : Monitor} (h : m.Tidy) {t : Nat} (ht : m.Waits t) :
    (m.startSuspectMonitor t).Tidy := by
  have hprobes : ∃ p, p ≠ Probe.created ∧
      (m.startSuspectMonitor t).probes = (m.setProbe t p).probes := by
    unfold Monitor.startSuspectMonitor
    split
    · exact ⟨.ended, by simp, rfl⟩
    · next a ha =>
      simp only
      split
      · exact ⟨.investigating a, by simp, rfl⟩
      · exact ⟨.ended, by simp, rfl⟩
  obtain ⟨p, hp, heq⟩ := hprobes
  refine h.of_isFor (suspectTasks_startSuspectMonitor m t) ?_ ?_ ?_ ?_
  · unfold Monitor.startSuspectMonitor
    split
    · rfl
    · simp only
      split <;> rfl
  · rw [heq]
    exact List.length_set ..
  · -- no other task waits
    intro u hu
    have hw : u ≠ t ∧ m.Waits u := (waits_setProbe hp).mp (by unfold Waits; rw [← heq]; exact hu)
    exact absurd (h.one u t hw.2 ht) hw.1
  · intro u a hu
    rcases (investigates_startSuspectMonitor ht).mp hu with ⟨rfl, ha⟩ | ⟨-, hu⟩
    · exact Or.inr ⟨ht, ha.1⟩
    · exact Or.inl hu

/-- A task that is for a node is not one that has ended. -/
theorem IsFor.ne_ended {m : Monitor} {t : Nat} {a : Address} (h : m.IsFor t a) :
    m.probes[t]? ≠ some .ended := by
  rintro he
  rcases h with h | ⟨h, -⟩
  · rw [Investigates, he] at h
    cases h
  · rw [Waits, he] at h
    cases h

theorem Tidy.cancelSuspicionProbe {m : Monitor} (h : m.Tidy) (a : Address) (raised : Bool) :
    (m.cancelSuspicionProbe a raised).Tidy := by
  unfold Monitor.cancelSuspicionProbe
  cases hg : m.suspectTasks.get? a with
  | none => exact h
  | some u =>
    -- a task that is for a node other than `u`'s is not filed under `a`
    have hne : ∀ t b, m.IsFor t b → t ≠ u → b ≠ a := by
      rintro t b ht hu rfl
      have hself := (h.files t b ht b).mpr rfl
      rw [hg, Option.some.injEq] at hself
      exact hu hself.symm
    by_cases he : m.probes[u]? = some .ended
    · simp only [he, if_true]
      cases raised with
      | true => exact h
      | false =>
        refine ⟨?_, h.copies, h.top, h.one, ?_, h.copyBound⟩
        · intro t b ht
          refine files_erase (h.files t b ht) (hne t b ht ?_)
          rintro rfl
          exact ht.ne_ended he
        · intro b t hb
          simp only [Bool.false_eq_true, if_false, Dict.get?_erase] at hb
          split at hb
          · cases hb
          · exact h.bound b t hb
    · simp only [he, if_false]
      have hs := h.setProbe u (p := .stopping) (by simp) (by simp)
      have hu : ∀ t b, (m.setProbe u .stopping).IsFor t b → t ≠ u ∧ m.IsFor t b := by
        rintro t b (ht | ⟨ht, hb⟩)
        · rcases investigates_setProbe.mp ht with ⟨-, -, hp⟩ | ⟨hne, ht⟩
          · cases hp
          · exact ⟨hne, Or.inl ht⟩
        · obtain ⟨hne, ht⟩ := (waits_setProbe (by simp)).mp ht
          exact ⟨hne, Or.inr ⟨ht, hb⟩⟩
      refine ⟨hs.files, ?_, hs.top, hs.one, hs.bound, ?_⟩
      · intro c hc t b ht
        rcases List.mem_append.mp hc with hc | hc
        · exact hs.copies c hc t b ht
        · obtain rfl := List.mem_singleton.mp hc
          obtain ⟨htu, hfor⟩ := hu t b ht
          exact files_erase (h.files t b hfor) (hne t b hfor htu)
      · intro c hc b t hb
        rcases List.mem_append.mp hc with hc | hc
        · exact hs.copyBound c hc b t hb
        · obtain rfl := List.mem_singleton.mp hc
          exact hs.bound b t hb

theorem Tidy.putBack {m : Monitor} (h : m.Tidy) {i : Nat} {c : Cancelling}
    (hc : m.cancelling[i]? = some c) : (m.putBack i c).Tidy := by
  have hmem : c ∈ m.cancelling := List.mem_of_getElem? hc
  have hsub : ∀ d ∈ m.cancelling.eraseIdx i, d ∈ m.cancelling :=
    fun d hd => List.mem_of_mem_eraseIdx hd
  refine ⟨h.copies c hmem, fun d hd => h.copies d (hsub d hd), h.top, h.one, ?_,
    fun d hd => h.copyBound d (hsub d hd)⟩
  intro a t ha
  simp only [Monitor.putBack, Dict.get?_erase] at ha
  split at ha
  · cases ha
  · exact h.copyBound c hmem a t ha

/-- The task of a node that becomes suspect is the only one that waits. -/
theorem waits_noteUnresponsive {m : Monitor} (hw : ∀ t, ¬ m.Waits t) {a : Address}
    (hb : m.BecomesSuspect a none) {t : Nat} (ht : (m.noteUnresponsive a none).Waits t) :
    t = m.probes.length := by
  rw [noteUnresponsive_of_becomes hb, Waits, List.getElem?_append] at ht
  split at ht
  · exact absurd ht (hw t)
  · next hlt =>
    by_contra hne
    rw [List.getElem?_eq_none (by simp; omega)] at ht
    cases ht

/-- It is for that node, and no other task is. -/
theorem isFor_noteUnresponsive {m : Monitor} (hw : ∀ t, ¬ m.Waits t) {a : Address}
    (hb : m.BecomesSuspect a none) (hi : ∀ t, ¬ m.Investigates t a) {t : Nat} {b : Address}
    (ht : (m.noteUnresponsive a none).IsFor t b) :
    (m.Investigates t b ∧ b ≠ a) ∨ (t = m.probes.length ∧ b = a) := by
  rcases ht with ht | ⟨ht, hb'⟩
  · have hinv : m.Investigates t b := investigates_noteUnresponsive.mp ht
    exact Or.inl ⟨hinv, fun hba => hi t (hba ▸ hinv)⟩
  · rw [noteUnresponsive_of_becomes hb] at hb'
    simp only [List.getLast?_append, List.getLast?_singleton, Option.some_or,
      Option.some.injEq, Option.getD_none] at hb'
    exact Or.inr ⟨waits_noteUnresponsive hw hb ht, hb'.symm⟩

theorem Tidy.noteUnresponsive {m : Monitor} (h : m.Tidy) {a : Address}
    (hw : ∀ t, ¬ m.Waits t) (hc : m.cancelling = []) (hi : ∀ t, ¬ m.Investigates t a) :
    (m.noteUnresponsive a none).Tidy := by
  by_cases hb : m.BecomesSuspect a none
  · have hlen : (m.noteUnresponsive a none).probes.length = m.probes.length + 1 := by
      rw [noteUnresponsive_of_becomes hb, List.length_append, List.length_singleton]
    have hnone : (m.noteUnresponsive a none).cancelling = [] := by
      rw [noteUnresponsive_of_becomes hb, hc]
    have htasks : (m.noteUnresponsive a none).suspectTasks =
        m.suspectTasks.set a m.probes.length := by
      rw [noteUnresponsive_of_becomes hb]
    refine ⟨?_, ?_, ?_, ?_, ?_, ?_⟩
    · intro t b ht
      rw [htasks]
      rcases isFor_noteUnresponsive hw hb hi ht with ⟨ht, hne⟩ | ⟨rfl, rfl⟩
      · have hlt : t < m.probes.length := (List.getElem?_eq_some_iff.mp ht).1
        exact (files_set_iff (h.files t b (Or.inl ht)) (Nat.ne_of_lt hlt)).mpr hne
      · intro c
        rw [Dict.get?_set]
        split
        · next hcb => simp [hcb]
        · next hcb =>
          refine iff_of_false (fun hc => ?_) hcb
          exact Nat.lt_irrefl _ (h.bound c _ hc)
    · simp [hnone]
    · intro t _
      refine ⟨a, ?_⟩
      rw [noteUnresponsive_of_becomes hb]
      simp
    · intro t u ht hu
      rw [waits_noteUnresponsive hw hb ht, waits_noteUnresponsive hw hb hu]
    · intro b t hbt
      rw [htasks, Dict.get?_set] at hbt
      split at hbt
      · rw [Option.some.injEq] at hbt
        omega
      · have := h.bound b t hbt
        omega
    · simp [hnone]
  · rw [noteUnresponsive_of_not hb]
    exact h

theorem Tidy.step {m m' : Monitor} {ev : Event} (h : m.Tidy) (hs : m.step ev = some m')
    (ho : m.Orderly ev) : m'.Tidy := by
  have hdoes := does_of_step hs
  cases ev with
  | unresponsive a target =>
    obtain rfl := hdoes
    obtain ⟨rfl, hw, hc, hi⟩ := ho
    exact h.noteUnresponsive hw hc hi
  | start t =>
    obtain ⟨ht, rfl⟩ := hdoes
    exact h.startSuspectMonitor ht
  | finish t | stop t =>
    obtain ⟨-, rfl⟩ := hdoes
    exact h.setProbe t (by simp) (by simp)
  | createCancel a | statuses nodeStatuses =>
    obtain rfl := hdoes
    exact ⟨h.files, h.copies, h.top, h.one, h.bound, h.copyBound⟩
  | cancel a raised =>
    obtain ⟨-, rfl⟩ := hdoes
    have h' : ({ m with cancelCreated := m.cancelCreated.erase a } : Monitor).Tidy :=
      ⟨h.files, h.copies, h.top, h.one, h.bound, h.copyBound⟩
    exact h'.cancelSuspicionProbe a raised
  | cancelled i =>
    obtain ⟨c, hc, -, rfl⟩ := hdoes
    exact h.putBack hc

/-- **Suspicions that do not overlap keep the tasks matched**: it is enough that each one is
raised when no task waits to start and no cancellation is under way. -/
theorem matched_of_orderly (address : Address) (maxSuspectMultiplier : Int) {evs : List Event}
    (h : Along step (fun m ev _ => m.Orderly ev) (init address maxSuspectMultiplier) evs) :
    Always step Matched (init address maxSuspectMultiplier) evs := by
  have h₀ : (init address maxSuspectMultiplier).Tidy := by
    constructor <;> simp [IsFor, Investigates, Waits, init]
  have htidy : Always step Tidy (init address maxSuspectMultiplier) evs := by
    refine Along.always ?_ h₀ h
    intro m ev m' hI hs ho
    exact hI.step hs ho
  exact htidy.mono fun m hm => hm.matched

end Monitor
end Hedra
