/-
# What an answered update is worth

A leader commits when every call of `_update_logs` has returned, and does not look at what they
returned.  So a commit says nothing about the members.  An answer does: a follower that
answers an update without an error has stored its entries, and what it has stored it keeps
until it prunes.

The handlers are `receive_log_update` and `_update_logs` of
`distributed/replication/replication_controller.py`, and `update`, `commit` and `prune` of
`log_queue.py`.

* `stored_of_confirms`: what a node answers as a success it has stored;
* `stores_step`: it keeps what it stores, until it prunes;
* `acknowledged_stored`: both over runs, and what a commit marks.
-/
import Hedra.Replication.Cluster

namespace Hedra

open Lib Lib.Machine

namespace LogQueue

/-! ## 1. A batch that was filed -/

/-- What a turn may overwrite has the timestamp of its entry. -/
theorem Turn.mem_of_mem {q q' : LogQueue} {e x : Entry} {r : Option PyError}
    (h : Turn q e q' r) (hq : Synced q) (hne : q.logs ≠ []) (hx : x ∈ q.logs)
    (hxe : x.stamp ≠ e.stamp) : x ∈ q'.logs := by
  cases h with
  | inserted i m hi hpos =>
    rw [← List.take_append_drop i q.logs] at hx
    change x ∈ q.logs.take i ++ e :: q.logs.drop i
    rcases List.mem_append.mp hx with hx | hx
    · exact List.mem_append_left _ hx
    · exact List.mem_append_right _ (List.mem_cons_of_mem _ hx)
  | replaced heq =>
    obtain ⟨y, hy, hys⟩ := hq.exists_getLast hne
    rw [hy] at hx
    change x ∈ q.logs.dropLast ++ [e]
    rcases List.mem_append.mp hx with hx | hx
    · exact List.mem_append_left _ hx
    · rw [List.mem_singleton.mp hx, hys] at hxe
      exact absurd heq.symm hxe
  | failed m err hm => exact hx

theorem Synced.mem_insertEntries_of_mem {x : Entry} {es : List Entry} {q : LogQueue}
    (hq : Synced q) (hne : q.logs ≠ []) (hx : x ∈ q.logs) (hxs : x.stamp ∉ es.map Entry.stamp) :
    x ∈ (q.insertEntries es).1.logs := by
  induction es generalizing q with
  | nil => exact hx
  | cons e es ih =>
    rw [List.map_cons, List.mem_cons, not_or] at hxs
    obtain ⟨hxe, hxs⟩ := hxs
    rcases hq.insertEntries_cons hne e es with ⟨q', -, ht, hq', hne', hu⟩ | ⟨q', err, -, ht, hu⟩
    · rw [hu]
      exact ih hq' hne' (ht.mem_of_mem hq hne hx hxe) hxs
    · rw [hu]
      exact ht.mem_of_mem hq hne hx hxe

/-- Entries of different milliseconds are all there after a loop that ended well. -/
theorem Synced.mem_insertEntries_of_done {es : List Entry} {q : LogQueue} (hq : Synced q)
    (hne : q.logs ≠ []) (hdone : (q.insertEntries es).2 = .done)
    (hn : (es.map Entry.stamp).Nodup) : ∀ e ∈ es, e ∈ (q.insertEntries es).1.logs := by
  induction es generalizing q with
  | nil => simp
  | cons e es ih =>
    intro x hx
    obtain ⟨hfresh, hn⟩ := List.nodup_cons.mp hn
    rcases hq.insertEntries_cons hne e es with ⟨q', -, ht, hq', hne', hu⟩ | ⟨q', err, -, -, hu⟩
    · rw [hu] at hdone ⊢
      rcases List.mem_cons.mp hx with rfl | hx
      · exact hq'.mem_insertEntries_of_mem hne' ht.mem_logs hfresh
      · exact ih hq' hne' hdone hn x hx
    · rw [hu] at hdone
      cases hdone

/-- **What `update` has stored when it returns normally.** -/
theorem Synced.update_done {q : LogQueue} (hq : Synced q) {es : List Entry}
    (hdone : (q.update es).2 = .done) :
    (∀ e ∈ es, e.stamp ∈ (q.update es).1.timestamps) ∧
      ((es.map Entry.stamp).Nodup → ∀ e ∈ es, e ∈ (q.update es).1.logs) := by
  rcases update_cases q es with ⟨-, hu⟩ | ⟨last, -, ⟨-, hu⟩ | ⟨-, hu⟩⟩
  · rw [hu] at hdone
    cases hdone
  · rw [hu] at hdone
    cases hdone
  · rw [hu] at hdone ⊢
    unfold LogQueue.file at hdone ⊢
    split at hdone
    · next hsize =>
      obtain ⟨hlogs, hstamps, -⟩ := appendAll_spec es { q with term := last.term } 0
      rw [if_pos hsize]
      constructor
      · intro e he
        rw [hstamps]
        exact List.mem_append_right _ (List.mem_map_of_mem he)
      · intro _ e he
        rw [hlogs]
        exact List.mem_append_right _ he
    · next hsize =>
      have hq' := hq.withTerm last.term
      have hne : q.logs ≠ [] := mt hq.logs_eq_nil_iff.mp hsize
      rw [if_neg hsize]
      exact ⟨hq'.mem_timestamps_of_done hne hdone, hq'.mem_insertEntries_of_done hne hdone⟩

end LogQueue

namespace Controller

/-! ## 2. A successful answer -/

/-- The segment filed the entries of `m`, all of them. -/
def Files (c c' : Controller) (m : RaftMessage) : Prop :=
  (c.logs.update (sortedEntries m)).2 = .done ∧ c'.logs = (c.logs.update (sortedEntries m)).1

theorem files_applyUpdate {c : Controller} {m m' r : RaftMessage}
    (h : .answer .logUpdate m r ∈ (c.applyUpdate m').2) (hok : r.error = none) :
    c.Files (c.applyUpdate m').1 m := by
  unfold applyUpdate at h ⊢
  rcases hu : c.logs.update (sortedEntries m') with ⟨q, result⟩
  rw [hu] at h
  obtain ⟨rfl, rfl⟩ : m = m' ∧ r = updateAnswer { c with logs := q } m' result := by
    simpa using h
  cases result with
  | done =>
    unfold Files
    rw [hu]
    exact ⟨rfl, rfl⟩
  | rejected err => cases hok
  | raised err => cases hok

theorem files_checkSource {c : Controller} {m m' r : RaftMessage}
    (h : .answer .logUpdate m r ∈ (c.checkSource m').2) (hok : r.error = none) :
    c.Files (c.checkSource m').1 m := by
  unfold checkSource at h ⊢
  split at h
  · exact absurd h List.not_mem_nil
  · next hs =>
    rw [if_neg hs]
    exact files_applyUpdate h hok

theorem files_checkFailedNode {c : Controller} {m m' r : RaftMessage}
    (h : .answer .logUpdate m r ∈ (c.checkFailedNode m').2) (hok : r.error = none) :
    c.Files (c.checkFailedNode m').1 m := by
  unfold checkFailedNode at h ⊢
  split at h
  · exact absurd h List.not_mem_nil
  · next hs =>
    rw [if_neg hs]
    exact files_checkSource h hok

theorem files_receiveLogUpdate {c : Controller} {m m' r : RaftMessage}
    (h : .answer .logUpdate m r ∈ (c.receiveLogUpdate m').2) (hok : r.error = none) :
    m.entries = some [] ∨ c.Files (c.receiveLogUpdate m').1 m := by
  unfold receiveLogUpdate at h ⊢
  split at h
  · exact absurd h List.not_mem_nil
  · next hentries =>
    obtain ⟨rfl, -⟩ : m = m' ∧ r = c.message m'.host m'.port := by simpa using h
    exact Or.inl hentries
  · split at h
    · exact absurd h List.not_mem_nil
    · next hterm =>
      simp only [hterm, if_false]
      exact Or.inr (files_checkFailedNode h hok)

/-- What a coroutine that is resumed answers as a success, it has filed: the branch for a
newer term answers with an error. -/
theorem files_runTask {c c' : Controller} {t : Task} {now : Nat} {out : List Packet}
    {m r : RaftMessage} (h : c.runTask now t = some (c', out))
    (hr : .answer .logUpdate m r ∈ out) (hok : r.error = none) : c.Files c' m := by
  cases t with
  | adopting m' leader =>
    cases h
    obtain ⟨-, rfl⟩ := Packet.answer.inj (List.mem_singleton.mp hr) |>.2
    cases hok
  | applying m' check =>
    cases check with
    | true =>
      obtain rfl := congrArg Prod.fst (Option.some.inj h)
      obtain rfl := congrArg Prod.snd (Option.some.inj h)
      exact files_checkSource hr hok
    | false =>
      obtain rfl := congrArg Prod.fst (Option.some.inj h)
      obtain rfl := congrArg Prod.snd (Option.some.inj h)
      exact files_applyUpdate hr hok
  | replicating updates =>
    cases updates with
    | nil =>
      cases h
      exact absurd hr List.not_mem_nil
    | cons u us => cases h
  | _ =>
    cases h
    exact absurd hr List.not_mem_nil

/-- A call of `_update_logs` sends calls only. -/
theorem not_answer_of_runUpdate {c c' : Controller} {t : Task} {j : Nat} {ev : UpdateEvent}
    {out : List Packet} {m r : RaftMessage} (h : c.runUpdate t j ev = some (c', out)) :
    .answer .logUpdate m r ∉ out := by
  have hcalls : ∀ {u u' : _} {c'' : Controller} {out' : List Packet},
      c.continueUpdate u ev = some (c'', u', out') → .answer .logUpdate m r ∉ out' := by
    intro u u' c'' out' h
    cases ev <;> rw [continueUpdate] at h <;> split at h <;> cases h <;> simp
  unfold runUpdate at h
  split at h
  · cases h
  · split at h
    · cases h
    · next heq =>
      cases h
      exact hcalls heq
    · next heq =>
      cases h
      exact hcalls heq

/-- **An update that a node answers as a success has no entries, or has been filed.** -/
theorem answer_cases {c c' : Controller} {ev : Event} {out : List Packet} {m r : RaftMessage}
    (h : c.react ev = some (c', out)) (hr : .answer .logUpdate m r ∈ out)
    (hok : r.error = none) : m.entries = some [] ∨ c.Files c' m := by
  cases ev with
  | logUpdate m' =>
    obtain rfl := congrArg Prod.fst (Option.some.inj h)
    obtain rfl := congrArg Prod.snd (Option.some.inj h)
    exact files_receiveLogUpdate hr hok
  | resume t now =>
    rw [react] at h
    split at h
    · have hfiles : (c.taking t).Files c' m := files_runTask h hr hok
      exact Or.inr hfiles
    · cases h
  | update t j ev =>
    rw [react] at h
    split at h
    · exact absurd hr (not_answer_of_runUpdate h)
    · cases h
  | boot =>
    rw [react] at h
    split at h <;> cases h
    exact absurd hr List.not_mem_nil
  | probed failedNode =>
    obtain rfl := congrArg Prod.snd (Option.some.inj h)
    unfold startSuspectMonitor at hr
    split at hr <;> simp at hr
  | failureNotification m' =>
    obtain rfl := congrArg Prod.snd (Option.some.inj h)
    unfold receiveFailureNotification at hr
    split at hr
    · simp at hr
    · split at hr <;> simp at hr
  | voteRequest m' =>
    rw [react] at h
    split at h <;> cases h <;> simp at hr
  | forwardedEntries m' now =>
    obtain rfl := congrArg Prod.snd (Option.some.inj h)
    unfold receiveForwardedEntries at hr
    simp only at hr
    split at hr
    · split at hr <;> simp at hr
    · simp at hr
  | pushEntries data now =>
    obtain rfl := congrArg Prod.snd (Option.some.inj h)
    unfold pushEntries at hr
    split at hr
    · simp at hr
    · split at hr
      · simp at hr
      · split at hr <;> simp at hr
  | requestVote a =>
    cases h
    simp at hr
  | raftMonitor now => cases h; simp at hr
  | prune now => cases h; simp at hr
  | drop t =>
    rw [react] at h
    split at h <;> cases h
    simp at hr
  | membership status ns ids st => cases h; simp at hr

/-- The event makes the node answer `m` as a success. -/
def Confirms (c : Controller) (m : RaftMessage) (ev : Event) : Prop :=
  ∃ c' out response, c.react ev = some (c', out) ∧ .answer .logUpdate m response ∈ out ∧
    response.error = none

/-- The node stores `e`, or another entry of its millisecond in its place. -/
def Stores (c : Controller) (e : Entry) : Prop := ∃ x ∈ c.logs.logs, x.stamp = e.stamp

theorem stores_iff {c : Controller} (hq : c.logs.Synced) {e : Entry} :
    c.Stores e ↔ e.stamp ∈ c.logs.timestamps := by
  rw [hq.timestamps_eq, List.mem_map]
  rfl

/-- **What a node answers as a success it has stored.** -/
theorem stored_of_confirms {c c' : Controller} {ev : Event} {m : RaftMessage}
    (hq : c.logs.Synced) (h : c.step ev = some c') (hc : c.Confirms m ev) :
    (∀ e ∈ m.entries.getD [], c'.Stores e) ∧
      (((m.entries.getD []).map Entry.stamp).Nodup →
        ∀ e ∈ m.entries.getD [], e ∈ c'.logs.logs) := by
  obtain ⟨c₁, out, response, hreact, hr, hok⟩ := hc
  obtain ⟨out', hreact'⟩ := step_eq_some.mp h
  obtain ⟨rfl, rfl⟩ := Prod.mk.inj (Option.some.inj (hreact.symm.trans hreact'))
  rcases answer_cases hreact hr hok with hnil | ⟨hdone, hlogs⟩
  · simp [hnil]
  · have hperm : (sortedEntries m).Perm (m.entries.getD []) := List.perm_insertionSort _ _
    have hq' := synced_step hq h
    obtain ⟨hstamps, hentries⟩ := hq.update_done hdone
    constructor
    · intro e he
      rw [stores_iff hq', hlogs]
      exact hstamps e (hperm.mem_iff.mpr he)
    · intro hn e he
      rw [hlogs]
      exact hentries ((hperm.map Entry.stamp).nodup_iff.mpr hn) e (hperm.mem_iff.mpr he)

/-- What is added to a queue leaves its timestamps there. -/
theorem Extends.sublist {q q' : LogQueue} (h : Extends q q') (hq : q.Synced) :
    q.timestamps.Sublist q'.timestamps := by
  induction h with
  | refl => exact List.Sublist.refl _
  | update h es ih => exact ih.trans ((h.synced hq).update_sublist es)
  | commit _ ih =>
    unfold LogQueue.commit
    split <;> exact ih

/-- **A node keeps what it stores, until it prunes.** -/
theorem stores_step {c c' : Controller} {ev : Event} {e : Entry} (hq : c.logs.Synced)
    (h : c.step ev = some c') (hprune : ∀ now, ev ≠ .prune now) (hs : c.Stores e) :
    c'.Stores e := by
  rcases logs_step h with ⟨now, rfl, -⟩ | hext
  · exact absurd rfl (hprune now)
  · rw [stores_iff hq] at hs
    exact (stores_iff (hext.synced hq)).mpr ((hext.sublist hq).subset hs)

end Controller

namespace Cluster

/-! ## 3. Runs of a cluster -/

/-- More than half of the members are among some that satisfy `p`. -/
def Majority (members : List Address) (p : Address → Prop) : Prop :=
  ∃ holders : List Address, holders.Sublist members ∧ members.length < 2 * holders.length ∧
    ∀ b ∈ holders, p b

theorem Majority.mono {members : List Address} {p q : Address → Prop} (hpq : ∀ b, p b → q b)
    (h : Majority members p) : Majority members q := by
  obtain ⟨holders, hsub, hlen, hp⟩ := h
  exact ⟨holders, hsub, hlen, fun b hb => hpq b (hp b hb)⟩

/-- In the run along `es`, `b` has answered an update with `e` as a success, and has not pruned
since. -/
def Acknowledged (s₀ : Cluster) (es : List ClusterEvent) (b : Address) (e : Entry) : Prop :=
  ∃ l ev r s m, es = l ++ (b, ev) :: r ∧ run step s₀ l = some s ∧ (s.nodes b).Confirms m ev ∧
    e ∈ m.entries.getD [] ∧ ∀ now, (b, .prune now) ∉ r

theorem stores_run {s s' : Cluster} {es : List ClusterEvent} {b : Address} {e : Entry}
    (hq : (s.nodes b).logs.Synced) (hs : (s.nodes b).Stores e)
    (hprune : ∀ now, (b, .prune now) ∉ es) (h : run step s es = some s') :
    (s'.nodes b).Stores e := by
  have hevents : ∀ ev, (b, ev) ∈ es → ∀ now, ev ≠ .prune now := by
    rintro ev hev now rfl
    exact hprune now hev
  refine (Net.node_of_run (I := fun c => c.logs.Synced ∧ c.Stores e)
    (Q := fun ev => ∀ now, ev ≠ .prune now) (fun c ev c' out hI hev hr => ?_)
    hevents ⟨hq, hs⟩ h).2
  have hstep := Controller.step_eq_some.mpr ⟨out, hr⟩
  exact ⟨Controller.synced_step hI.1 hstep, Controller.stores_step hI.1 hstep hev hI.2⟩

theorem stores_of_acknowledged {s₀ s : Cluster} {es : List ClusterEvent} {b : Address}
    {e : Entry} (hq : (s₀.nodes b).logs.Synced) (hrun : run step s₀ es = some s)
    (h : Acknowledged s₀ es b e) : (s.nodes b).Stores e := by
  obtain ⟨l, ev, r, s₁, m, rfl, hl, hconf, he, hprune⟩ := h
  rw [run_append, hl, Option.bind_some] at hrun
  obtain ⟨s₂, hstep, hr⟩ := run_cons_eq_some.mp hrun
  obtain ⟨out, hreact, -⟩ := step_node hstep
  have hnode := Controller.step_eq_some.mpr ⟨out, hreact⟩
  have hq₁ := synced_run hq hl
  exact stores_run (Controller.synced_step hq₁ hnode)
    ((Controller.stored_of_confirms hq₁ hnode hconf).1 e he) hprune hr

/-- The part of `_submit_logs_to_members` that commits waits for nothing but the calls, and
changes no queue but by a commit mark. -/
theorem commit_step {s s' : Cluster} {a : Address} {us : List Update} {now : Nat}
    (h : step s (a, .resume (.replicating us) now) = some s') :
    us = [] ∧ (s'.nodes a).logs = (s.nodes a).logs.commit ∧
      ∀ b, (s'.nodes b).logs.logs = (s.nodes b).logs.logs := by
  obtain ⟨⟨out, hreact, -⟩, hframe⟩ := Net.nodes_step h
  have hlogs : us = [] ∧ (s'.nodes a).logs = (s.nodes a).logs.commit := by
    simp only [Controller.react] at hreact
    split at hreact
    · cases us with
      | nil =>
        have hnode := congrArg (fun r => r.map fun p => p.1.logs) hreact
        exact ⟨rfl, (Option.some.inj hnode).symm⟩
      | cons u us => cases hreact
    · cases hreact
  refine ⟨hlogs.1, hlogs.2, fun b => ?_⟩
  by_cases hb : b = a
  · subst hb
    rw [hlogs.2]
    unfold LogQueue.commit
    split <;> rfl
  · rw [hframe b hb]

/-- **Durability of acknowledged entries.**  An update that is answered as a success has been
stored, and stays so until the node prunes.  A commit marks what the leader stores, and what
a majority has acknowledged by then a majority stores. -/
theorem acknowledged_stored (instanceId current : Address → Nat) (pollRetries : ℕ+) (maxAge : ℚ)
    (maxCount : Nat) (es : List ClusterEvent) (s : Cluster)
    (hrun : run step (init instanceId current pollRetries maxAge maxCount) es = some s) :
    (∀ b ev s' m, step s (b, ev) = some s' → (s.nodes b).Confirms m ev →
      ((m.entries.getD []).map Entry.stamp).Nodup →
        ∀ e ∈ m.entries.getD [], e ∈ (s'.nodes b).logs.logs) ∧
    (∀ b e, Acknowledged (init instanceId current pollRetries maxAge maxCount) es b e →
      (s.nodes b).Stores e) ∧
    ∀ a us now s', step s (a, .resume (.replicating us) now) = some s' →
      us = [] ∧
      (∀ t ∈ (s'.nodes a).logs.commits,
        t ∈ (s.nodes a).logs.commits ∨ t ∈ (s.nodes a).logs.timestamps) ∧
      ∀ members e,
        Majority members
          (fun b => Acknowledged (init instanceId current pollRetries maxAge maxCount) es b e) →
        Majority members (fun b => (s'.nodes b).Stores e) := by
  have hq₀ : ∀ b, ((init instanceId current pollRetries maxAge maxCount).nodes b).logs.Synced :=
    fun _ => LogQueue.synced_empty maxAge maxCount
  refine ⟨fun b ev s' m hstep hconf => ?_, fun b e => stores_of_acknowledged (hq₀ b) hrun,
    fun a us now s' hstep => ?_⟩
  · obtain ⟨out, hreact, -⟩ := step_node hstep
    exact (Controller.stored_of_confirms (synced_run (hq₀ b) hrun)
      (Controller.step_eq_some.mpr ⟨out, hreact⟩) hconf).2
  · obtain ⟨hus, hcommit, hlogs⟩ := commit_step hstep
    refine ⟨hus, fun t ht => ?_, fun members e => Majority.mono fun b hb => ?_⟩
    · rw [hcommit] at ht
      unfold LogQueue.commit at ht
      split at ht
      · next hlast =>
        rcases List.mem_append.mp ht with ht | ht
        · exact Or.inl ht
        · rw [List.mem_singleton.mp ht]
          exact Or.inr (List.mem_of_getLast? hlast)
      · exact Or.inl ht
    · have hstores := stores_of_acknowledged (hq₀ b) hrun hb
      unfold Controller.Stores at hstores ⊢
      rwa [hlogs b]

/-- The entry with which the node at port 9001 announces its election. -/
def announcement : Entry :=
  ⟨5 * 2 ^ 22, "election_update", "Election complete! Elected - 127.0.0.1:9001", 1, "127.0.0.1", 9001⟩

/-- Its first heartbeat. -/
def heartbeat : Entry :=
  ⟨6 * 2 ^ 22, "logs_update", "Node - 127.0.0.1:9001 - submitted log update", 1, "127.0.0.1", 9001⟩

/-- The update that carries both. -/
def heartbeatUpdate : RaftMessage where
  host := some "127.0.0.1"
  port := some 9002
  error := none
  sourceHost := "127.0.0.1"
  sourcePort := 9001
  electedLeader := none
  failedNode := none
  voteResult := none
  raftNodeStatus := .leader
  status := .healthy
  entries := some [announcement, heartbeat]
  termNumber := 1
  receivedTimestamp := none

/-- The answer of a node that was of term 0. -/
def refusal : RaftMessage where
  host := some "127.0.0.1"
  port := some 9001
  error := some Controller.staleTermError
  sourceHost := "127.0.0.1"
  sourcePort := 9002
  electedLeader := some (node 9001)
  failedNode := none
  voteResult := some .rejected
  raftNodeStatus := .follower
  status := .initializing
  entries := none
  termNumber := 1
  receivedTimestamp := none

/-- The call of `_update_logs` for the node at port 9002. -/
def heartbeatCall (retries : Nat) (waiting : Bool) : Update :=
  ⟨node 9002, [announcement, heartbeat], none, retries, waiting, false⟩

/-- The node at port 9001 becomes leader, and sends a heartbeat that the node at port 9002
answers with an error. -/
def refused : List ClusterEvent :=
  [introduce 9001 9002, (node 9001, .boot), (node 9001, .resume (.electing 1 none) 0),
    (node 9001, .resume (.elected 1 none) 5), (node 9001, .raftMonitor 6),
    (node 9001, .resume (.submitting [heartbeat]) 6),
    (node 9001, .update (.replicating [heartbeatCall 1 false]) 0 .send),
    (node 9002, .logUpdate heartbeatUpdate),
    (node 9002, .resume (.adopting heartbeatUpdate (some (node 9001))) 7),
    (node 9001, .update (.replicating [heartbeatCall 0 true]) 0 (.response refusal))]

/-- Delivered again, the update is filed and answered as a success. -/
theorem heartbeat_acknowledged :
    ∃ s s' s'' : Cluster,
      run step (init (fun _ => 0) (fun _ => 0) 1 0 0) refused = some s ∧
      step s (node 9002, .logUpdate heartbeatUpdate) = some s' ∧
      heartbeat ∈ (s'.nodes (node 9002)).logs.logs ∧
      step s' (node 9001, .resume (.replicating []) 8) = some s'' ∧
      Majority [node 9002] (fun b => (s''.nodes b).Stores heartbeat) := by
  have hconf : ∀ s, run step (init (fun _ => 0) (fun _ => 0) 1 0 0) refused = some s →
      (s.nodes (node 9002)).Confirms heartbeatUpdate (.logUpdate heartbeatUpdate) := by
    rintro s hs
    cases hs
    exact ⟨_, _, _, rfl, List.mem_cons_self, rfl⟩
  refine ⟨_, _, _, rfl, rfl, ?_, rfl, ?_⟩
  · exact (acknowledged_stored (fun _ => 0) (fun _ => 0) 1 0 0 refused _ rfl).1 (node 9002)
      (.logUpdate heartbeatUpdate) _ heartbeatUpdate rfl (hconf _ rfl) (by decide) heartbeat
      (by decide)
  · refine ((acknowledged_stored (fun _ => 0) (fun _ => 0) 1 0 0
      (refused ++ [(node 9002, .logUpdate heartbeatUpdate)]) _ rfl).2.2 (node 9001) [] 8 _
      rfl).2.2 [node 9002] heartbeat ⟨[node 9002], List.Sublist.refl _, by decide, ?_⟩
    rintro b hb
    obtain rfl := List.mem_singleton.mp hb
    exact ⟨refused, .logUpdate heartbeatUpdate, [], _, heartbeatUpdate, rfl, rfl, hconf _ rfl,
      by decide, fun _ => List.not_mem_nil⟩

/-- The leader commits what its only member has just turned down. -/
theorem heartbeat_committed_alone :
    ¬ ∀ (instanceId current : Address → Nat) (pollRetries : ℕ+) (maxAge : ℚ) (maxCount : Nat)
        (es : List ClusterEvent) (s s' : Cluster) (a : Address) (now : Nat) (e : Entry),
      run step (init instanceId current pollRetries maxAge maxCount) es = some s →
      step s (a, .resume (.replicating []) now) = some s' →
      e ∈ (s'.nodes a).logs.logs → (s'.nodes a).logs.commits.getLast? = some e.stamp →
      Majority (s'.nodes a).members (fun b => e ∈ (s'.nodes b).logs.logs) := by
  intro h
  obtain ⟨holders, hsub, hlen, hstored⟩ := h (fun _ => 0) (fun _ => 0) 1 0 0 refused _ _
    (node 9001) 8 heartbeat rfl rfl (by decide) (by decide)
  cases holders with
  | nil => exact absurd hlen (Nat.not_lt_zero _)
  | cons b bs =>
    have hb : b ∈ [node 9002] := hsub.subset List.mem_cons_self
    obtain rfl := List.mem_singleton.mp hb
    exact absurd (hstored _ List.mem_cons_self) (by decide)

end Cluster
end Hedra
