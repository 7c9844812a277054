/-
# Which entries a `LogQueue` keeps

Entries have unique snowflake ids, but a `LogQueue` (`distributed/replication/log_queue.py`) files
them by the millisecond of the id alone.  Two entries of one millisecond share a record of the
index, and the second one overwrites the first when it arrives while their millisecond is the
newest; an entry that comes again after a newer one is stored twice.

So a sequence of batches leaves every entry it brought in the queue, once, and readable under
its id, exactly when no two of its entries share a millisecond and an entry comes again only
while it is the newest.

* `Indexed.updateAll`: a timely sequence of batches keeps the index exact; any other stores a
  millisecond twice;
* `retained_iff`: which sequences leave all of their entries.
-/
import Hedra.Replication.LogQueueRep

namespace Hedra
namespace LogQueue

open Lib

/-! ## 1. Sequences of batches -/

/-- Apply `update` to each batch in turn. -/
def updateAll (q : LogQueue) (batches : List (List Entry)) : LogQueue :=
  batches.foldl (fun q b => (q.update b).1) q

/-- No batch of the sequence is rejected. -/
def Accepted (q : LogQueue) : List (List Entry) → Prop
  | [] => True
  | b :: bs => (∀ err, (q.update b).2 ≠ .rejected err) ∧ Accepted (q.update b).1 bs

/-- `e` is in `logs` exactly once, by its id, and `get` returns it. -/
def Retained (q : LogQueue) (e : Entry) : Prop :=
  (q.logs.countP fun x => x.entryId = e.entryId) = 1 ∧
    ∃ x, q.get e.entryId = .ok (some x) ∧ x.entryId = e.entryId

/-- No two entries share a millisecond. -/
def OneIdPerStamp (es : List Entry) : Prop :=
  ∀ x ∈ es, ∀ y ∈ es, x.stamp = y.stamp → x.entryId = y.entryId

/-- The first batch repeats no millisecond, and from then on a stored millisecond comes
again only while it is the newest. -/
def TimelyAll : List (List Entry) → Prop
  | [] => True
  | [] :: bs => TimelyAll bs
  | (e :: es) :: bs =>
    ((e :: es).map Entry.stamp).Nodup ∧
      Timely ((e :: es).map Entry.stamp) ((es.getLast?.getD e).stamp) (bs.flatten.map Entry.stamp)

/-! ## 2. What a batch adds -/

/-- A turn stores nothing but its entry. -/
theorem Turn.mem_or_eq {q q' : LogQueue} {e x : Entry} {r : Option PyError} (h : Turn q e q' r)
    (hx : x ∈ q'.logs) : x ∈ q.logs ∨ x = e := by
  cases h with
  | inserted i m hi hpos =>
    rcases List.mem_append.mp hx with hx | hx
    · exact Or.inl (List.mem_of_mem_take hx)
    · exact (List.mem_cons.mp hx).symm.imp List.mem_of_mem_drop id
  | replaced heq =>
    rcases List.mem_append.mp hx with hx | hx
    · exact Or.inl (List.dropLast_subset _ hx)
    · exact Or.inr (List.mem_singleton.mp hx)
  | failed m err hm => exact Or.inl hx

/-- Nothing is stored that was not brought in. -/
theorem Synced.mem_insertEntries {x : Entry} {es : List Entry} {q : LogQueue} (h : Synced q)
    (hne : q.logs ≠ []) (hx : x ∈ (q.insertEntries es).1.logs) : x ∈ q.logs ∨ x ∈ es := by
  induction es generalizing q with
  | nil => exact Or.inl hx
  | cons e es ih =>
    have hhead : x = e → x ∈ e :: es := by
      rintro rfl
      exact List.mem_cons_self
    rcases h.insertEntries_cons hne e es with ⟨q', -, ht, h', hne', hu⟩ | ⟨q', err, -, ht, hu⟩
    · rw [hu] at hx
      rcases ih h' hne' hx with hx | hx
      · exact (ht.mem_or_eq hx).imp id hhead
      · exact Or.inr (List.mem_cons_of_mem _ hx)
    · rw [hu] at hx
      exact (ht.mem_or_eq hx).imp id hhead

/-- What is timely for the queue that a loop leaves is what was timely after the batch. -/
theorem Synced.timely_append_iff (ts : List Int) {es : List Entry} {q : LogQueue} (h : Synced q)
    (hne : q.logs ≠ []) (hdone : (q.insertEntries es).2 = .done) :
    Timely q.timestamps q.lastTimestamp (es.map Entry.stamp ++ ts) ↔
      Timely q.timestamps q.lastTimestamp (es.map Entry.stamp) ∧
        Timely (q.insertEntries es).1.timestamps (q.insertEntries es).1.lastTimestamp ts := by
  induction es generalizing q with
  | nil => simp [LogQueue.insertEntries, Timely]
  | cons e es ih =>
    rcases h.insertEntries_cons hne e es with ⟨q', -, ht, h', hne', hu⟩ | ⟨q', err, -, -, hu⟩
    · rw [hu] at hdone ⊢
      rw [List.map_cons, List.cons_append, Timely, Timely, ← ht.timely_iff h hne,
        ← ht.timely_iff h hne, ih h' hne' hdone, and_assoc]
    · rw [hu] at hdone
      cases hdone

/-! ## 3. Sequences of batches, into a queue that is not empty -/

theorem timely_of_append : ∀ {ts us stored : List Int} {newest : Int},
    Timely stored newest (ts ++ us) → Timely stored newest ts
  | [], _, _, _, _ => trivial
  | _ :: _, _, _, _, h => ⟨h.1, timely_of_append h.2⟩

theorem Synced.update_accepted {q : LogQueue} {b : List Entry}
    (hacc : ∀ err, (q.update b).2 ≠ .rejected err) (hb : b ≠ []) :
    ∃ term, q.update b = { q with term := term }.file b := by
  rcases update_cases q b with ⟨he, -⟩ | ⟨last, -, ⟨-, hu⟩ | ⟨-, hu⟩⟩
  · exact absurd he hb
  · exact absurd (congrArg Prod.snd hu) (hacc _)
  · exact ⟨last.term, hu⟩

theorem synced_updateAll :
    ∀ (bs : List (List Entry)) {q : LogQueue}, Synced q → Synced (q.updateAll bs)
  | [], _, h => h
  | b :: bs, _, h => synced_updateAll bs (h.update b)

theorem updateAll_sublist :
    ∀ (bs : List (List Entry)) {q : LogQueue}, Synced q →
      q.timestamps.Sublist (q.updateAll bs).timestamps
  | [], _, _ => List.Sublist.refl _
  | b :: bs, _, h => (h.update_sublist b).trans (updateAll_sublist bs (h.update b))

theorem mem_logs_updateAll {x : Entry} (bs : List (List Entry)) {q : LogQueue} (h : Synced q)
    (hx : x ∈ (q.updateAll bs).logs) : x ∈ q.logs ∨ x ∈ bs.flatten := by
  induction bs generalizing q with
  | nil => exact Or.inl hx
  | cons b bs ih =>
    rcases ih (h.update b) hx with hx | hx
    · have hone : x ∈ q.logs ∨ x ∈ b := by
        rcases update_cases q b with ⟨-, hu⟩ | ⟨last, -, ⟨-, hu⟩ | ⟨-, hu⟩⟩
        · exact Or.inl (by rwa [hu] at hx)
        · exact Or.inl (by rwa [hu] at hx)
        · rw [hu, file] at hx
          split at hx
          · rw [(appendAll_spec b _ 0).1] at hx
            exact List.mem_append.mp hx
          · next hsize =>
            have hlogs := mt (h.withTerm last.term).logs_eq_nil_iff.mp hsize
            exact (h.withTerm last.term).mem_insertEntries hlogs hx
      exact hone.imp id fun hb => List.mem_flatten_of_mem List.mem_cons_self hb
    · obtain ⟨b', hb', hx⟩ := List.mem_flatten.mp hx
      exact Or.inr (List.mem_flatten_of_mem (List.mem_cons_of_mem _ hb') hx)

/-- **A timely sequence of batches keeps the index exact and stores every millisecond; any
other leaves a millisecond stored twice.** -/
theorem Indexed.updateAll :
    ∀ (bs : List (List Entry)) {q : LogQueue}, Indexed q → q.logs ≠ [] → Accepted q bs →
      (Timely q.timestamps q.lastTimestamp (bs.flatten.map Entry.stamp) →
        Indexed (q.updateAll bs) ∧
          ∀ e ∈ bs.flatten, e.stamp ∈ (q.updateAll bs).timestamps) ∧
      (¬ Timely q.timestamps q.lastTimestamp (bs.flatten.map Entry.stamp) →
        ¬ (q.updateAll bs).timestamps.Nodup)
  | [], q, h, _, _ => ⟨fun _ => ⟨h, by simp⟩, fun hn => absurd trivial hn⟩
  | b :: bs, q, h, hne, hacc => by
    by_cases hb : b = []
    · subst hb
      exact Indexed.updateAll bs h hne hacc.2
    · obtain ⟨term, hu⟩ := Synced.update_accepted hacc.1 hb
      have ht : Indexed { q with term := term } := ⟨h.synced.withTerm term, h.index⟩
      have hsize : ¬ q.size < 1 := fun hs => hne (h.synced.logs_eq_nil_iff.mpr hs)
      have hfile : q.update b = { q with term := term }.insertEntries b := by
        rw [hu, LogQueue.file, if_neg hsize]
      have hkeep := ht.synced.insertEntries b hne
      have hrest := Indexed.updateAll bs (q := (q.update b).1)
      change _ ∧ (_ → ¬ ((q.update b).1.updateAll bs).timestamps.Nodup)
      rw [List.flatten_cons, List.map_append]
      by_cases htimely : Timely q.timestamps q.lastTimestamp (b.map Entry.stamp)
      · obtain ⟨hdone, h'⟩ := ht.insertEntries_of_timely hne htimely
        have hstored := ht.synced.mem_timestamps_of_done hne hdone
        have hsplit := ht.synced.timely_append_iff (bs.flatten.map Entry.stamp) hne hdone
        rw [hfile] at hrest ⊢
        obtain ⟨hgood, hbad⟩ := hrest h' hkeep.2.1 (hfile ▸ hacc.2)
        constructor
        · intro hall
          obtain ⟨hidx, hmem⟩ := hgood (hsplit.mp hall).2
          refine ⟨show Indexed ((q.update b).1.updateAll bs) from hfile ▸ hidx, fun e he => ?_⟩
          change e.stamp ∈ ((q.update b).1.updateAll bs).timestamps
          rw [hfile]
          rcases List.mem_append.mp he with he | he
          · exact (updateAll_sublist _ h'.synced).subset (hstored e he)
          · exact hmem e he
        · exact fun hnot => hbad fun hr => hnot (hsplit.mpr ⟨htimely, hr⟩)
      · -- the batch itself is late: its second copies stay to the end
        have hdup := ht.not_nodup_of_not_timely hne htimely
        rw [← hfile] at hdup hkeep
        have hnot : ¬ ((q.update b).1.updateAll bs).timestamps.Nodup := fun hn =>
          hdup (hn.sublist (updateAll_sublist _ hkeep.1))
        refine ⟨fun hall => absurd ?_ htimely, fun _ => hnot⟩
        exact timely_of_append hall

/-! ## 4. Sequences of batches, into an empty queue -/

/-- The first batch that is not empty is filed as it comes. -/
theorem Indexed.file_first {q : LogQueue} (h : Indexed q) (hnil : q.logs = []) {e : Entry}
    {es : List Entry} (hacc : ∀ err, (q.update (e :: es)).2 ≠ .rejected err) :
    Synced (q.update (e :: es)).1 ∧
      (q.update (e :: es)).1.timestamps = (e :: es).map Entry.stamp ∧
      (q.update (e :: es)).1.lastTimestamp = (es.getLast?.getD e).stamp ∧
      (((e :: es).map Entry.stamp).Nodup → Indexed (q.update (e :: es)).1) := by
  obtain ⟨term, hu⟩ := Synced.update_accepted hacc (List.cons_ne_nil e es)
  have ht : Indexed { q with term := term } := ⟨h.synced.withTerm term, h.index⟩
  have hsize : q.size < 1 := h.synced.logs_eq_nil_iff.mp hnil
  have hts : q.timestamps = [] := by rw [h.synced.timestamps_eq, hnil]; rfl
  have hnew : (q.update (e :: es)).1.timestamps = (e :: es).map Entry.stamp := by
    rw [hu, LogQueue.file, if_pos hsize, (appendAll_spec _ _ 0).2.1]
    change q.timestamps ++ _ = _
    rw [hts, List.nil_append]
  refine ⟨h.synced.update _, hnew, ?_, fun hn => ?_⟩
  · rw [lastTimestamp, hnew, List.getLast?_map, List.getLast?_cons]
    rfl
  · have hbatch : LogQueue.TimelyBatch { q with term := term } (e :: es) := by
      unfold TimelyBatch
      rwa [if_pos hsize]
    rw [hu]
    exact ((ht.file (List.cons_ne_nil e es)).1 hbatch).2

/-- **What a whole sequence leaves in an empty queue.** -/
theorem Indexed.updateAll_of_nil :
    ∀ (bs : List (List Entry)) {q : LogQueue}, Indexed q → q.logs = [] → Accepted q bs →
      (TimelyAll bs → Indexed (q.updateAll bs) ∧
        ∀ e ∈ bs.flatten, e.stamp ∈ (q.updateAll bs).timestamps) ∧
      (¬ TimelyAll bs → ¬ (q.updateAll bs).timestamps.Nodup)
  | [], _, h, _, _ => ⟨fun _ => ⟨h, by simp⟩, fun hn => absurd trivial hn⟩
  | [] :: bs, q, h, hnil, hacc => updateAll_of_nil bs h hnil hacc.2
  | (e :: es) :: bs, q, h, hnil, hacc => by
    obtain ⟨hsync, hts, hlast, hidx⟩ := h.file_first hnil hacc.1
    change (_ → Indexed ((q.update (e :: es)).1.updateAll bs) ∧
      ∀ x ∈ (e :: es) ++ bs.flatten, x.stamp ∈ ((q.update (e :: es)).1.updateAll bs).timestamps) ∧
      (_ → ¬ ((q.update (e :: es)).1.updateAll bs).timestamps.Nodup)
    have hacc' : Accepted (q.update (e :: es)).1 bs := hacc.2
    generalize (q.update (e :: es)).1 = q' at *
    have hsub := updateAll_sublist bs hsync
    have hne : q'.logs ≠ [] := by
      intro he
      rw [hsync.timestamps_eq, he] at hts
      exact absurd hts (by simp)
    rw [TimelyAll, ← hts, ← hlast]
    by_cases hn : q'.timestamps.Nodup
    · obtain ⟨hgood, hbad⟩ := (hidx (hts ▸ hn)).updateAll bs hne hacc'
      constructor
      · rintro ⟨-, htimely⟩
        obtain ⟨hfinal, hmem⟩ := hgood htimely
        refine ⟨hfinal, fun x hx => ?_⟩
        rcases List.mem_append.mp hx with hx | hx
        · exact hsub.subset (hts ▸ List.mem_map_of_mem hx)
        · exact hmem x hx
      · exact fun hnot => hbad fun htimely => hnot ⟨hn, htimely⟩
    · exact ⟨fun hall => absurd hall.1 hn, fun _ hfinal => hn (hfinal.sublist hsub)⟩

/-! ## 5. Retained entries -/

/-- `get` looks only at the millisecond of the id it is asked for. -/
theorem get_congr (q : LogQueue) {x y : Entry} (h : x.stamp = y.stamp) :
    q.get x.entryId = q.get y.entryId := by
  have hstamp : (Snowflake.parse x.entryId).timestamp = (Snowflake.parse y.entryId).timestamp := h
  simp only [get, hstamp]

/-- In an exact index, an entry whose millisecond is stored is retained if every stored
entry of that millisecond has its id. -/
theorem Indexed.retained {q : LogQueue} (h : Indexed q) {e : Entry} (hmem : e.stamp ∈ q.timestamps)
    (hid : ∀ x ∈ q.logs, x.stamp = e.stamp → x.entryId = e.entryId) : q.Retained e := by
  obtain ⟨i, hi⟩ := h.index.exists_get? hmem
  have hat := (h.index _ _).mp hi
  rw [h.synced.timestamps_eq, List.getElem?_map] at hat
  obtain ⟨x, hx, hstamp⟩ := Option.map_eq_some_iff.mp hat
  have hxmem := List.mem_of_getElem? hx
  constructor
  · -- counting ids is counting milliseconds, and those are stored once
    have hcount : (q.logs.countP fun x => x.entryId = e.entryId) =
        q.logs.countP fun x => x.stamp = e.stamp := by
      refine List.countP_congr fun y hy => ?_
      simp only [decide_eq_true_eq]
      refine ⟨fun heq => ?_, hid y hy⟩
      rw [Entry.stamp, heq]
      rfl
    have hone := List.count_eq_one_of_mem h.index.nodup hmem
    rw [h.synced.timestamps_eq, List.count, List.countP_map] at hone
    rw [hcount, ← hone]
    exact List.countP_congr fun y _ => by simp
  · have hne : q.logs ≠ [] := List.ne_nil_of_mem hxmem
    have hsize : ¬ q.size < 1 := fun hs => hne (h.synced.logs_eq_nil_iff.mpr hs)
    refine ⟨x, ?_, hid x hxmem hstamp⟩
    have hi' : q.timestampIndexMap.get? (Snowflake.parse e.entryId).timestamp = some i := hi
    simp only [get, hi', if_neg hsize, hx]

/-- Retained entries of one millisecond have one id. -/
theorem Retained.entryId_eq {q : LogQueue} {x y : Entry} (hx : q.Retained x) (hy : q.Retained y)
    (h : x.stamp = y.stamp) : x.entryId = y.entryId := by
  obtain ⟨-, a, ha, hax⟩ := hx
  obtain ⟨-, b, hb, hby⟩ := hy
  rw [q.get_congr h, hb] at ha
  rw [← hax, ← hby, Option.some.inj (Except.ok.inj ha)]

/-- If every stored entry is retained, no millisecond is stored twice. -/
theorem nodup_of_retained {q : LogQueue} (h : Synced q) (hret : ∀ e ∈ q.logs, q.Retained e) :
    q.timestamps.Nodup := by
  rw [List.nodup_iff_count_le_one]
  intro t
  by_cases ht : t ∈ q.timestamps
  · rw [h.timestamps_eq] at ht ⊢
    obtain ⟨e, he, rfl⟩ := List.mem_map.mp ht
    rw [List.count, List.countP_map]
    refine le_of_eq_of_le ?_ (le_of_eq (hret e he).1)
    refine List.countP_congr fun x hx => ?_
    simp only [Function.comp_apply, beq_iff_eq, decide_eq_true_eq]
    refine ⟨fun hs => (hret x hx).entryId_eq (hret e he) hs, fun hs => ?_⟩
    rw [Entry.stamp, hs]
    rfl
  · rw [List.count_eq_zero.mpr ht]
    exact Nat.zero_le 1

/-- **A sequence of accepted batches leaves each of its entries in the queue once and under
its id exactly if no two of its ids share a millisecond and an entry comes again only while
it is the newest.** -/
theorem retained_iff (maxAge : ℚ) (maxCount : Nat) (batches : List (List Entry))
    (h : Accepted (empty maxAge maxCount) batches) :
    (∀ b ∈ batches, ∀ e ∈ b, ((empty maxAge maxCount).updateAll batches).Retained e) ↔
      OneIdPerStamp batches.flatten ∧ TimelyAll batches := by
  have hidx := indexed_empty maxAge maxCount
  obtain ⟨hgood, hbad⟩ := hidx.updateAll_of_nil _ rfl h
  have hback : ∀ x ∈ ((empty maxAge maxCount).updateAll batches).logs, x ∈ batches.flatten :=
    fun x hx => (mem_logs_updateAll _ hidx.synced hx).resolve_left List.not_mem_nil
  constructor
  · intro hret
    have hall : ∀ e ∈ batches.flatten, ((empty maxAge maxCount).updateAll batches).Retained e := by
      intro e he
      obtain ⟨b, hb, heb⟩ := List.mem_flatten.mp he
      exact hret b hb e heb
    refine ⟨fun x hx y hy hs => (hall x hx).entryId_eq (hall y hy) hs, ?_⟩
    by_contra hlate
    refine hbad hlate (nodup_of_retained ?_ fun e he => hall e (hback e he))
    exact synced_updateAll _ hidx.synced
  · rintro ⟨hone, htimely⟩ b hb e he
    obtain ⟨hfinal, hmem⟩ := hgood htimely
    have hdel : e ∈ batches.flatten := List.mem_flatten_of_mem hb he
    exact hfinal.retained (hmem e hdel) fun x hx hs => hone x (hback x hx) e hdel hs

/-- Entries of three milliseconds, the last of which comes twice and the second late. -/
def inOrder : List (List Entry) := [[entryAt 1 0, entryAt 3 0], [entryAt 2 7], [entryAt 3 0]]

theorem retained_in_order :
    Accepted (empty 0 0) inOrder ∧
      ∀ b ∈ inOrder, ∀ e ∈ b, ((empty 0 0).updateAll inOrder).Retained e := by
  have hacc : Accepted (empty 0 0) inOrder :=
    ⟨fun _ h => UpdateResult.noConfusion (show UpdateResult.done = _ from h),
      fun _ h => UpdateResult.noConfusion (show UpdateResult.done = _ from h),
      fun _ h => UpdateResult.noConfusion (show UpdateResult.done = _ from h), trivial⟩
  refine ⟨hacc, (retained_iff 0 0 inOrder hacc).mpr ⟨?_, ?_⟩⟩
  · unfold OneIdPerStamp
    decide
  · refine ⟨by decide, ?_, ?_, trivial⟩ <;> decide

/-- The second entry of a millisecond takes the place of the first. -/
theorem entry_lost :
    ¬ ∀ (maxAge : ℚ) (maxCount : Nat) (batches : List (List Entry)),
      Accepted (empty maxAge maxCount) batches →
      ∀ b ∈ batches, ∀ e ∈ b, ((empty maxAge maxCount).updateAll batches).Retained e := by
  intro h
  have hacc : Accepted (empty 0 0) [[entryAt 1 0], [entryAt 2 0, entryAt 2 1]] :=
    ⟨fun _ h => UpdateResult.noConfusion (show UpdateResult.done = _ from h),
      fun _ h => UpdateResult.noConfusion (show UpdateResult.done = _ from h), trivial⟩
  have hlost := (h 0 0 _ hacc [entryAt 2 0, entryAt 2 1] (by decide) (entryAt 2 0) (by decide)).1
  exact absurd hlost (by decide)

end LogQueue
end Hedra
