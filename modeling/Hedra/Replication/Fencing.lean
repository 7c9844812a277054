/-
# Updates of stale leaders

A follower (`receive_log_update` of `distributed/replication/replication_controller.py`) compares
the term of an update with its own only to find out that it is behind.  An update of an older term
goes to the `LogQueue`, which compares the term of the last entry with a term of its own, and that
one moves only when a batch is filed.  A follower that has adopted a newer term has filed nothing
yet, so the two drift apart.

An update of an older term leaves the queue as it is, and is not answered as a success, when
the queue turns it down or when it is not filed yet.

* `Synced.insertEntries_fails_iff`: when the loop of `update` fails before it has changed anything;
* `Synced.refuses_iff`: when the queue turns a batch down as a whole;
* `fenced_iff`: from both, which segments fence an update of an older term.
-/
import Hedra.Replication.ControllerStep

namespace Hedra

open Lib Lib.Machine

namespace LogQueue

/-! ## 1. Batches that leave no trace -/

/-- `q` turns the batch down: it is empty, it is stale, or an entry cannot be written and those
before it have at most overwritten the last entry by itself. -/
def Refuses (q : LogQueue) (entries : List Entry) : Prop :=
  entries = [] ∨ (∃ last, entries.getLast? = some last ∧ last.term < q.term) ∨
    (q.logs ≠ [] ∧ ∃ p e rest, entries = p ++ e :: rest ∧
      (∀ x ∈ p, x.stamp = q.lastTimestamp ∧ ¬ q.WriteFails x) ∧
      p.getLast?.or q.logs.getLast? = q.logs.getLast? ∧ q.WriteFails e)

/-- Overwriting the last entry does not change which writes fail. -/
theorem writeFails_replaced {q : LogQueue} (hne : q.logs ≠ []) (e x : Entry) :
    WriteFails { q with logs := q.logs.dropLast ++ [e] } x ↔ q.WriteFails x := by
  have hlen : (q.logs.dropLast ++ [e]).length = q.logs.length := by
    have := List.length_pos_iff.mpr hne
    rw [List.length_append, List.length_dropLast, List.length_singleton]
    omega
  unfold WriteFails
  change (_ ∨ _ ∧ ∀ i, _ → (q.logs.dropLast ++ [e]).length ≤ i) ↔ _
  rw [hlen]
  rfl

/-- An entry of the batch cannot be written, and those before it belong in the place of the last
entry, where the last of them is `x₀`. -/
def Stalls (q : LogQueue) (es : List Entry) (x₀ : Entry) : Prop :=
  ∃ p e rest, es = p ++ e :: rest ∧ (∀ x ∈ p, x.stamp = q.lastTimestamp ∧ ¬ q.WriteFails x) ∧
    p.getLast?.or q.logs.getLast? = some x₀ ∧ q.WriteFails e

theorem not_stalls_nil (q : LogQueue) (x₀ : Entry) : ¬ q.Stalls [] x₀ := by
  rintro ⟨p, e, rest, hsplit, -⟩
  cases p <;> cases hsplit

theorem stalls_cons_of_writeFails {q : LogQueue} {e x₀ : Entry} {es : List Entry}
    (hf : q.WriteFails e) : q.Stalls (e :: es) x₀ ↔ q.logs.getLast? = some x₀ := by
  constructor
  · rintro ⟨p, e', rest, hsplit, hp, hx, -⟩
    cases p with
    | nil => simpa using hx
    | cons y p =>
      obtain ⟨rfl, -⟩ := List.cons.inj hsplit
      exact absurd hf (hp e List.mem_cons_self).2
  · exact fun hx => ⟨[], e, es, rfl, by simp, by simpa using hx, hf⟩

theorem stalls_cons {q : LogQueue} (hne : q.logs ≠ []) {e x₀ : Entry} {es : List Entry}
    (hok : ¬ q.WriteFails e) :
    q.Stalls (e :: es) x₀ ↔
      e.stamp = q.lastTimestamp ∧ Stalls { q with logs := q.logs.dropLast ++ [e] } es x₀ := by
  have hlast : ∀ p : List Entry, p.getLast?.or (q.logs.dropLast ++ [e]).getLast? =
      (e :: p).getLast?.or q.logs.getLast? := by
    intro p
    cases p <;> simp [List.getLast?_cons]
  unfold Stalls
  simp only [writeFails_replaced hne]
  constructor
  · rintro ⟨p, e', rest, hsplit, hp, hx, hf⟩
    cases p with
    | nil =>
      obtain ⟨rfl, -⟩ := List.cons.inj hsplit
      exact absurd hf hok
    | cons y p =>
      obtain ⟨rfl, rfl⟩ := List.cons.inj hsplit
      exact ⟨(hp e List.mem_cons_self).1, p, e', rest, rfl,
        fun x hx => hp x (List.mem_cons_of_mem _ hx), (hlast p).trans hx, hf⟩
  · rintro ⟨heq, p, e', rest, rfl, hp, hx, hf⟩
    refine ⟨e :: p, e', rest, rfl, fun x hx => ?_, (hlast p).symm.trans hx, hf⟩
    rcases List.mem_cons.mp hx with rfl | hx
    · exact ⟨heq, hok⟩
    · exact hp x hx

theorem eq_dropLast_append_iff {l : List Entry} {x₀ : Entry} :
    l = l.dropLast ++ [x₀] ↔ l.getLast? = some x₀ := by
  constructor
  · intro heq
    rw [heq]
    simp
  · intro hlast
    obtain ⟨ys, rfl⟩ := List.getLast?_eq_some_iff.mp hlast
    simp

/-- **The loop fails and leaves the timestamps alone exactly if it stalls**; what stands in the
last place then is the last entry that went there. -/
theorem Synced.insertEntries_fails_iff (x₀ : Entry) (es : List Entry) {q : LogQueue}
    (hq : Synced q) (hne : q.logs ≠ []) :
    (q.insertEntries es).2 ≠ .done ∧ (q.insertEntries es).1.timestamps = q.timestamps ∧
      (q.insertEntries es).1.logs = q.logs.dropLast ++ [x₀] ↔ q.Stalls es x₀ := by
  induction es generalizing q with
  | nil => exact iff_of_false (fun h => h.1 rfl) (q.not_stalls_nil x₀)
  | cons e es ih =>
    have hok := (hq.insertEntry_turn hne e).2
    rcases hq.insertEntries_cons hne e es with ⟨q', hr, ht, hq', hne', hu⟩ | ⟨q', err, hr, ht, hu⟩
    · rw [hr] at hok
      rw [hu, stalls_cons hne (hok.mp rfl)]
      cases ht with
      | inserted i m hi hpos =>
        refine iff_of_false ?_ ?_
        · -- one timestamp more is never taken back
          rintro ⟨-, hts, -⟩
          have hlen := (hq'.insertEntries es hne').2.2.1.length_le
          rw [hts] at hlen
          simp only [List.length_append, List.length_cons, List.length_take, List.length_drop] at hlen
          omega
        · rintro ⟨heq, -⟩
          rcases hpos with ⟨hlt, -, -⟩ | ⟨hgt, -, -⟩ <;> omega
      | replaced heq =>
        have hrest := ih hq' hne'
        rw [show (q.logs.dropLast ++ [e]).dropLast = q.logs.dropLast by simp] at hrest
        rw [and_iff_right heq]
        exact hrest
    · have hf : q.WriteFails e := by
        by_contra hnot
        have hnone := hok.mpr hnot
        rw [hr] at hnone
        cases hnone
      rw [hu, stalls_cons_of_writeFails hf, ← eq_dropLast_append_iff]
      cases ht with
      | failed m err' hm => exact ⟨fun h => h.2.2, fun h => ⟨by simp, rfl, h⟩⟩

/-- **A batch leaves the queue as it is, and the call does not return normally, exactly if the
queue turns the batch down.** -/
theorem Synced.refuses_iff {q : LogQueue} (hq : Synced q) (es : List Entry) :
    ((q.update es).2 ≠ .done ∧ (q.update es).1.logs = q.logs ∧
        (q.update es).1.timestamps = q.timestamps ∧ (q.update es).1.commits = q.commits) ↔
      q.Refuses es := by
  unfold Refuses
  rcases update_cases q es with ⟨he, hu⟩ | ⟨last, hlast, ⟨hterm, hu⟩ | ⟨hterm, hu⟩⟩
  · rw [hu]
    exact iff_of_true ⟨by simp, rfl, rfl, rfl⟩ (Or.inl he)
  · rw [hu]
    exact iff_of_true ⟨by simp, rfl, rfl, rfl⟩ (Or.inr (Or.inl ⟨last, hlast, hterm⟩))
  · have hes := ne_nil_of_getLast? hlast
    have hstale : ¬ ∃ x, es.getLast? = some x ∧ x.term < q.term := by
      rintro ⟨x, hx, hlt⟩
      rw [hlast] at hx
      obtain rfl := Option.some.inj hx
      omega
    rw [hu, or_iff_right hes, or_iff_right hstale, LogQueue.file]
    by_cases hsize : q.size < 1
    · rw [if_pos hsize]
      exact iff_of_false (fun h => h.1 rfl) fun h => h.1 (hq.logs_eq_nil_iff.mpr hsize)
    · have hne : q.logs ≠ [] := fun he => hsize (hq.logs_eq_nil_iff.mp he)
      obtain ⟨x₀, hx₀, -⟩ := hq.exists_getLast hne
      have hgetLast : q.logs.getLast? = some x₀ := by
        rw [hx₀]
        simp
      have hq' := hq.withTerm last.term
      have hcommits := (hq'.insertEntries es hne).2.2.2.1
      have hfails := hq'.insertEntries_fails_iff x₀ es hne
      rw [← show q.logs = q.logs.dropLast ++ [x₀] from hx₀] at hfails
      rw [if_neg hsize, hgetLast]
      constructor
      · rintro ⟨hdone, hlogs, hts, -⟩
        obtain ⟨p, e, rest, hsplit, hp, hx, hf⟩ := hfails.mp ⟨hdone, hts, hlogs⟩
        exact ⟨hne, p, e, rest, hsplit, hp, hgetLast ▸ hx, hf⟩
      · rintro ⟨-, p, e, rest, hsplit, hp, hx, hf⟩
        obtain ⟨hdone, hts, hlogs⟩ := hfails.mpr ⟨p, e, rest, hsplit, hp, hgetLast.symm ▸ hx, hf⟩
        exact ⟨hdone, hlogs, hts, hcommits⟩

end LogQueue

namespace Controller

/-! ## 2. Handling an update -/

/-- The `LogQueue` is left as it is, and no packet answers `m` as a success. -/
def Fenced (c c' : Controller) (m : RaftMessage) (out : List Packet) : Prop :=
  c'.logs.logs = c.logs.logs ∧ c'.logs.timestamps = c.logs.timestamps ∧
    c'.logs.commits = c.logs.commits ∧
    ∀ response, .answer .logUpdate m response ∈ out → response.error ≠ none

/-- The segment that handles `m` can do no harm: there are no entries to read, it waits for a
suspicion to be cleared, or the queue turns the entries down. -/
def Blocks (c : Controller) (m : RaftMessage) : Event → Prop
  | .logUpdate _ =>
    match m.entries with
    | none => True
    | some [] => False
    | some (_ :: _) =>
      m.failedNode.any (· ∈ c.suspectTasks) ∨ m.source ∈ c.suspectTasks ∨
        c.logs.Refuses (sortedEntries m)
  | .resume (.applying _ true) _ => m.source ∈ c.suspectTasks ∨ c.logs.Refuses (sortedEntries m)
  | .resume (.applying _ false) _ => c.logs.Refuses (sortedEntries m)
  | _ => True

theorem fenced_spawn (c : Controller) (t : Task) (m : RaftMessage) :
    c.Fenced (c.spawn t) m [] := ⟨rfl, rfl, rfl, fun _ h => absurd h List.not_mem_nil⟩

theorem fenced_applyUpdate_iff {c : Controller} (hq : c.logs.Synced) (m : RaftMessage) :
    c.Fenced (c.applyUpdate m).1 m (c.applyUpdate m).2 ↔
      c.logs.Refuses (sortedEntries m) := by
  rw [← hq.refuses_iff]
  unfold Fenced applyUpdate
  rcases c.logs.update (sortedEntries m) with ⟨q, r⟩
  simp only [List.mem_singleton, Packet.answer.injEq, true_and, forall_eq]
  have herror : (updateAnswer { c with logs := q } m r).error ≠ none ↔
      r ≠ .done := by
    cases r <;> simp [updateAnswer, message]
  rw [herror]
  tauto

theorem fenced_checkSource_iff {c : Controller} (hq : c.logs.Synced) (m : RaftMessage) :
    c.Fenced (c.checkSource m).1 m (c.checkSource m).2 ↔
      m.source ∈ c.suspectTasks ∨ c.logs.Refuses (sortedEntries m) := by
  unfold checkSource
  by_cases hsuspect : m.source ∈ c.suspectTasks
  · rw [if_pos hsuspect]
    exact iff_of_true (fenced_spawn c _ m) (Or.inl hsuspect)
  · rw [if_neg hsuspect, or_iff_right hsuspect]
    exact fenced_applyUpdate_iff hq m

theorem fenced_checkFailedNode_iff {c : Controller} (hq : c.logs.Synced) (m : RaftMessage) :
    c.Fenced (c.checkFailedNode m).1 m (c.checkFailedNode m).2 ↔
      m.failedNode.any (· ∈ c.suspectTasks) ∨ m.source ∈ c.suspectTasks ∨
        c.logs.Refuses (sortedEntries m) := by
  unfold checkFailedNode
  by_cases hsuspect : m.failedNode.any (· ∈ c.suspectTasks)
  · rw [if_pos hsuspect]
    exact iff_of_true (fenced_spawn c _ m) (Or.inl hsuspect)
  · rw [if_neg hsuspect, or_iff_right hsuspect]
    exact fenced_checkSource_iff hq m

theorem fenced_receiveLogUpdate_iff {c : Controller} (hq : c.logs.Synced) {m : RaftMessage}
    (hstale : m.termNumber < c.termNumber) :
    c.Fenced (c.receiveLogUpdate m).1 m (c.receiveLogUpdate m).2 ↔
      c.Blocks m (.logUpdate m) := by
  rw [receiveLogUpdate, Blocks]
  rcases m.entries with _ | ⟨_ | ⟨_, _⟩⟩
  · exact iff_of_true ⟨rfl, rfl, rfl, fun _ h => absurd h List.not_mem_nil⟩ trivial
  · -- an empty update is answered as if it had been applied
    refine iff_of_false (fun h => ?_) id
    exact h.2.2.2 (c.message m.host m.port) List.mem_cons_self rfl
  · simp only
    rw [if_neg (by omega)]
    exact fenced_checkFailedNode_iff hq m

/-! ## 3. Runs -/

/-- At the end of the run along `evs`, the event handles the update `m`: it delivers it while
its term is older than the node's, or it resumes the handling of an update that was delivered
so. -/
def HandlesStale (c₀ : Controller) (evs : List Event) (c : Controller) (m : RaftMessage) :
    Event → Prop
  | .logUpdate m' => m' = m ∧ m.termNumber < c.termNumber
  | .resume (.applying m' _) _ =>
    m' = m ∧ ∃ c₁ c₂, Occurs step c₀ evs c₁ (.logUpdate m) c₂ ∧ m.termNumber < c₁.termNumber
  | _ => False

/-- **An update of an older term leaves the queue as it is, and is not answered as a success,
exactly in the segments that `Blocks` describes.** -/
theorem fenced_iff (address : Address) (instanceId current : Nat) (pollRetries : ℕ+) (maxAge : ℚ)
    (maxCount : Nat) (evs : List Event) (c c' : Controller) (ev : Event) (m : RaftMessage)
    (out : List Packet)
    (hrun : run step (init address instanceId current pollRetries maxAge maxCount) evs = some c)
    (hreact : c.react ev = some (c', out))
    (hstale : HandlesStale (init address instanceId current pollRetries maxAge maxCount) evs c m ev) :
    c.Fenced c' m out ↔ c.Blocks m ev := by
  have hq : c.logs.Synced := synced_run (LogQueue.synced_empty maxAge maxCount) hrun
  cases ev with
  | logUpdate m' =>
    obtain ⟨rfl, hlt⟩ := hstale
    obtain rfl := congrArg Prod.fst (Option.some.inj hreact)
    obtain rfl := congrArg Prod.snd (Option.some.inj hreact)
    exact fenced_receiveLogUpdate_iff hq hlt
  | resume t now =>
    rw [react] at hreact
    split at hreact
    · cases t with
      | applying m' check =>
        obtain ⟨rfl, -⟩ := hstale
        have hq' : (c.taking (.applying m' check)).logs.Synced := hq
        cases check with
        | true =>
          obtain rfl := congrArg Prod.fst (Option.some.inj hreact)
          obtain rfl := congrArg Prod.snd (Option.some.inj hreact)
          exact fenced_checkSource_iff hq' m'
        | false =>
          cases hreact
          exact fenced_applyUpdate_iff hq' m'
      | _ => exact absurd hstale id
    · cases hreact
  | _ => exact absurd hstale id

/-- A node that has filed an update of term 5 turns one of term 3 down. -/
theorem stale_update_rejected :
    ∃ c c' out, run step (init ⟨"127.0.0.1", 9002⟩ 7 0 1 0 0)
        [.logUpdate (leaderUpdate 5 1), .logUpdate (leaderUpdate 5 2)] = some c ∧
      c.react (.logUpdate (leaderUpdate 3 3)) = some (c', out) ∧
      c.Fenced c' (leaderUpdate 3 3) out := by
  refine ⟨_, _, _, rfl, rfl, ?_⟩
  refine (fenced_iff ⟨"127.0.0.1", 9002⟩ 7 0 1 0 0
    [.logUpdate (leaderUpdate 5 1), .logUpdate (leaderUpdate 5 2)] _ _
    (.logUpdate (leaderUpdate 3 3)) (leaderUpdate 3 3) _ rfl rfl ⟨rfl, by decide⟩).mpr ?_
  exact Or.inr (Or.inr (Or.inr (Or.inl ⟨_, rfl, by decide⟩)))

/-- A node that has just adopted term 5 files an update of term 3, and says so. -/
theorem stale_update_filed :
    ¬ ∀ (address : Address) (instanceId current : Nat) (pollRetries : ℕ+) (maxAge : ℚ)
        (maxCount : Nat) (evs : List Event) (c c' : Controller) (ev : Event) (m : RaftMessage)
        (out : List Packet),
      run step (init address instanceId current pollRetries maxAge maxCount) evs = some c →
      c.react ev = some (c', out) →
      HandlesStale (init address instanceId current pollRetries maxAge maxCount) evs c m ev →
      c.Fenced c' m out := by
  intro h
  have hfenced := h ⟨"127.0.0.1", 9002⟩ 7 0 1 0 0 [.logUpdate (leaderUpdate 5 1)] _ _
    (.logUpdate (leaderUpdate 3 2)) (leaderUpdate 3 2) _ rfl rfl ⟨rfl, by decide⟩
  exact absurd hfenced.2.1 (by decide)

end Controller
end Hedra
