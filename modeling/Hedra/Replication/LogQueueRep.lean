/-
# The representation invariant of `LogQueue`, and the calls that keep it

`Rep` is what the five parallel structures of a `LogQueue` (`distributed/replication/log_queue.py`)
are meant to satisfy together: equal lengths, strictly increasing timestamps, and an index that maps
exactly the stored timestamps to their positions.  Three kinds of call break it:

* a batch into an empty queue is filed as it comes, also when it is out of order or
  repeats a timestamp;
* the insertion branch does not look whether the timestamp is there already, so an entry
  that comes again after a newer one is stored twice;
* a `prune` that cuts some entries but not all leaves the records of the others at their
  old positions.

These are all: a run of calls keeps the invariant in every state if and only if it makes none
of them.

`Rep.file_iff` and `Rep.prune_iff` are the two kinds of calls, and `always_rep_iff` the runs.
-/
import Hedra.Lib.Machine
import Hedra.Replication.LogQueueSync

namespace Hedra
namespace LogQueue

open Lib Lib.Machine

/-! ## 1. The invariant -/

/-- The index is exact; the order of the timestamps is left open. -/
structure Indexed (q : LogQueue) : Prop where
  synced : Synced q
  index : Indexes q.timestampIndexMap q.timestamps

/-- **The representation invariant.** -/
structure Rep (q : LogQueue) : Prop where
  length_logs : q.logs.length = q.size
  length_timestamps : q.timestamps.length = q.size
  increasing : q.timestamps.Pairwise (· < ·)
  timestamp_at : ∀ i : Nat, q.timestamps[i]? = (q.logs[i]?).map Entry.stamp
  index : ∀ t i, q.timestampIndexMap.get? t = some i ↔ q.timestamps[i]? = some t

theorem Rep.indexed {q : LogQueue} (h : Rep q) : Indexed q := by
  have hts : q.timestamps = q.logs.map Entry.stamp :=
    List.ext_getElem? fun i => by rw [h.timestamp_at i, List.getElem?_map]
  refine ⟨⟨h.length_logs.symm, hts, fun i hne hi => ?_⟩, h.index⟩
  -- the newest timestamp stands at the end, and only there
  have hlast : q.timestamps[q.size - 1]? = some q.lastTimestamp := by
    have hne' : q.timestamps ≠ [] := by
      rw [hts]
      simpa using hne
    rw [lastTimestamp, ← h.length_timestamps, ← List.getLast?_eq_getElem?,
      List.getLast?_eq_some_getLast hne', Option.getD_some]
  have := Option.some.inj (hi.symm.trans ((h.index _ _).mpr hlast))
  omega

theorem rep_iff {q : LogQueue} : Rep q ↔ Indexed q ∧ q.timestamps.Pairwise (· < ·) := by
  refine ⟨fun h => ⟨h.indexed, h.increasing⟩, fun ⟨h, hinc⟩ => ⟨h.synced.size_eq.symm, ?_, hinc, ?_, h.index⟩⟩
  · rw [h.synced.length_timestamps, h.synced.size_eq]
  · intro i
    rw [h.synced.timestamps_eq, List.getElem?_map]

theorem indexed_empty (maxAge : ℚ) (maxCount : Nat) : Indexed (empty maxAge maxCount) :=
  ⟨synced_empty maxAge maxCount, indexes_empty⟩

theorem rep_empty (maxAge : ℚ) (maxCount : Nat) : Rep (empty maxAge maxCount) :=
  rep_iff.mpr ⟨indexed_empty maxAge maxCount, List.Pairwise.nil⟩

/-! ## 2. Timestamps that come at the right time -/

/-- A timestamp that is stored already comes only while it is the newest one. -/
def Timely (stored : List Int) (newest : Int) : List Int → Prop
  | [] => True
  | t :: ts => (t ∈ stored → t = newest) ∧ Timely (stored ++ [t]) (max newest t) ts

theorem timely_congr {newest : Int} {ts stored stored' : List Int}
    (h : ∀ x, x ∈ stored ↔ x ∈ stored') : Timely stored newest ts ↔ Timely stored' newest ts := by
  induction ts generalizing stored stored' newest with
  | nil => exact Iff.rfl
  | cons t ts ih =>
    have h' : ∀ x, x ∈ stored ++ [t] ↔ x ∈ stored' ++ [t] := by
      intro x
      rw [List.mem_append, List.mem_append, h x]
    rw [Timely, Timely, h t, ih h']

/-- After a turn that went through, the rest has to be timely for the queue it leaves. -/
theorem Turn.timely_iff {q q' : LogQueue} {e : Entry} (ht : Turn q e q' none) (hq : Synced q)
    (hne : q.logs ≠ []) (ts : List Int) :
    Timely q'.timestamps q'.lastTimestamp ts ↔
      Timely (q.timestamps ++ [e.stamp]) (max q.lastTimestamp e.stamp) ts := by
  rw [ht.lastTimestamp hq hne]
  refine timely_congr fun x => ?_
  rw [ht.mem_timestamps hq hne, List.mem_append, List.mem_singleton]

/-! ## 3. One turn of the loop on an exact index -/

theorem count_drop_of_nodup {l : List Int} (h : l.Nodup) {t : Int} {j : Nat}
    (hj : l[j]? = some t) (i : Nat) : (l.drop i).count t = if i ≤ j then 1 else 0 := by
  split
  · next hij =>
    refine List.count_eq_one_of_mem (h.sublist (List.drop_sublist i l)) ?_
    refine List.mem_of_getElem? (i := j - i) ?_
    rw [List.getElem?_drop, show i + (j - i) = j by omega, hj]
  · next hij =>
    refine List.count_eq_zero.mpr fun hmem => ?_
    obtain ⟨k, hk⟩ := List.mem_iff_getElem?.mp hmem
    rw [List.getElem?_drop] at hk
    have hlt := (List.getElem?_eq_some_iff.mp hj).1
    have hlt' := (List.getElem?_eq_some_iff.mp hk).1
    have := (List.getElem?_inj hlt h).mp (hj.trans hk.symm)
    omega

theorem not_nodup_insert {l : List Int} {x : Int} (h : x ∈ l) (i : Nat) :
    ¬ (l.take i ++ x :: l.drop i).Nodup := by
  intro hn
  have hperm : (l.take i ++ x :: l.drop i).Perm (x :: l) := by
    conv_rhs => rw [← List.take_append_drop i l]
    exact List.perm_middle
  exact (List.nodup_cons.mp (hperm.nodup_iff.mp hn)).1 h

namespace Indexed

variable {q : LogQueue}

/-- With an exact index no write fails. -/
theorem not_writeFails (h : Indexed q) (hne : q.logs ≠ []) (e : Entry) : ¬ q.WriteFails e := by
  rintro (⟨-, t, ht, -, hnone⟩ | ⟨heq, hall⟩)
  · exact (h.index.get?_eq_none_iff t).mp hnone (List.mem_of_mem_drop ht)
  · obtain ⟨i, hi⟩ := h.index.exists_get? (heq ▸ h.synced.lastTimestamp_mem hne)
    have hlt := (List.getElem?_eq_some_iff.mp ((h.index _ _).mp hi)).1
    rw [h.synced.length_timestamps] at hlt
    exact absurd (hall i hi) (by omega)

/-- **A timely entry keeps the index exact.** -/
theorem of_turn {q' : LogQueue} {e : Entry} (h : Indexed q) (hne : q.logs ≠ [])
    (ht : Turn q e q' none) (htimely : e.stamp ∈ q.timestamps → e.stamp = q.lastTimestamp) :
    Indexed q' := by
  refine ⟨ht.synced h.synced hne, ?_⟩
  have hlen := h.synced.length_timestamps
  cases ht with
  | inserted i m hi hpos =>
    rcases hpos with ⟨hlt, -, hs⟩ | ⟨hgt, rfl, rfl⟩
    · have hfresh : e.stamp ∉ q.timestamps := mt htimely (ne_of_lt hlt)
      have hget := (shift_done hs).2
      refine h.index.insert hfresh (hlen ▸ hi) ?_ fun t hte => ?_
      · rw [hget, Dict.get?_set_self, List.count_eq_zero.mpr fun hm => hfresh (List.mem_of_mem_drop hm)]
        rfl
      · rw [hget, Dict.get?_set_ne _ _ hte]
        cases hj : q.timestampIndexMap.get? t with
        | none => rfl
        | some j =>
          rw [Option.map_some, Option.map_some, count_drop_of_nodup h.index.nodup ((h.index t j).mp hj)]
          split <;> rfl
    · have hfresh : e.stamp ∉ q.timestamps := mt htimely (ne_of_gt hgt)
      have happ := h.index.append hfresh
      change Indexes (q.timestampIndexMap.set e.stamp q.logs.length)
        (q.timestamps.take q.logs.length ++ e.stamp :: q.timestamps.drop q.logs.length)
      rw [← hlen, List.take_length, List.drop_length]
      exact happ
  | replaced heq => exact h.index

/-- **An untimely entry is stored a second time.** -/
theorem not_nodup_of_turn {q' : LogQueue} {e : Entry} (ht : Turn q e q' none)
    (hmem : e.stamp ∈ q.timestamps) (hlast : e.stamp ≠ q.lastTimestamp) :
    ¬ q'.timestamps.Nodup := by
  cases ht with
  | inserted i m hi hpos => exact not_nodup_insert hmem i
  | replaced heq => exact absurd heq hlast

end Indexed

/-! ## 4. Whole batches on an exact index -/

/-- With an exact index the loop always goes on. -/
theorem Indexed.insertEntries_cons {q : LogQueue} (h : Indexed q) (hne : q.logs ≠ []) (e : Entry)
    (es : List Entry) :
    ∃ q', Turn q e q' none ∧ Synced q' ∧ q'.logs ≠ [] ∧
      q.insertEntries (e :: es) = q'.insertEntries es := by
  rcases h.synced.insertEntries_cons hne e es with ⟨q', -, hrest⟩ | ⟨q', err, hr, -, -⟩
  · exact ⟨q', hrest⟩
  · have hnone := (h.synced.insertEntry_turn hne e).2.mpr (h.not_writeFails hne e)
    rw [hr] at hnone
    cases hnone

theorem Indexed.insertEntries_of_timely {es : List Entry} {q : LogQueue} (h : Indexed q)
    (hne : q.logs ≠ []) (htimely : Timely q.timestamps q.lastTimestamp (es.map Entry.stamp)) :
    (q.insertEntries es).2 = .done ∧ Indexed (q.insertEntries es).1 := by
  induction es generalizing q with
  | nil => exact ⟨rfl, h⟩
  | cons e es ih =>
    obtain ⟨q', hturn, -, hne', hu⟩ := h.insertEntries_cons hne e es
    rw [hu]
    exact ih (h.of_turn hne hturn htimely.1) hne'
      ((hturn.timely_iff h.synced hne _).mpr htimely.2)

theorem Indexed.not_nodup_of_not_timely {es : List Entry} {q : LogQueue} (h : Indexed q)
    (hne : q.logs ≠ []) (htimely : ¬ Timely q.timestamps q.lastTimestamp (es.map Entry.stamp)) :
    ¬ (q.insertEntries es).1.timestamps.Nodup := by
  induction es generalizing q with
  | nil => exact absurd trivial htimely
  | cons e es ih =>
    obtain ⟨q', hturn, hq', hne', hu⟩ := h.insertEntries_cons hne e es
    rw [hu]
    by_cases hnow : e.stamp ∈ q.timestamps → e.stamp = q.lastTimestamp
    · refine ih (h.of_turn hne hturn hnow) hne' fun hrest => htimely ?_
      exact ⟨hnow, (hturn.timely_iff h.synced hne _).mp hrest⟩
    · obtain ⟨hmem, hlast⟩ := Classical.not_imp.mp hnow
      -- the second copy stays, whatever the rest of the batch does
      intro hnodup
      have hsub := (hq'.insertEntries es hne').2.2.1
      exact not_nodup_of_turn hturn hmem hlast (hnodup.sublist hsub)

theorem indexes_appendAll (es : List Entry) {q : LogQueue}
    (h : Indexes q.timestampIndexMap q.timestamps)
    (hn : (q.timestamps ++ es.map Entry.stamp).Nodup) :
    Indexes (q.appendAll q.timestamps.length es).timestampIndexMap
      (q.appendAll q.timestamps.length es).timestamps := by
  induction es generalizing q with
  | nil => exact h
  | cons e es ih =>
    have hfresh : e.stamp ∉ q.timestamps := fun hm =>
      List.disjoint_of_nodup_append hn hm List.mem_cons_self
    have h' : Indexes (q.appendAt q.timestamps.length e).timestampIndexMap
        (q.appendAt q.timestamps.length e).timestamps := h.append hfresh
    have hlen : (q.appendAt q.timestamps.length e).timestamps.length = q.timestamps.length + 1 := by
      simp [appendAt]
    have hn' : ((q.appendAt q.timestamps.length e).timestamps ++ es.map Entry.stamp).Nodup := by
      simpa [appendAt, List.append_assoc] using hn
    have hrec := ih h' hn'
    rw [hlen] at hrec
    exact hrec

/-- What keeps the index exact when the batch is filed. -/
def TimelyBatch (q : LogQueue) (es : List Entry) : Prop :=
  if q.size < 1 then (es.map Entry.stamp).Nodup
  else Timely q.timestamps q.lastTimestamp (es.map Entry.stamp)

/-- **Filing a batch keeps the index exact if it is timely, and otherwise leaves a
timestamp stored twice.** -/
theorem Indexed.file {q : LogQueue} (h : Indexed q) {es : List Entry} (hne : es ≠ []) :
    (q.TimelyBatch es → (q.file es).2 = .done ∧ Indexed (q.file es).1) ∧
      (¬ q.TimelyBatch es → ¬ (q.file es).1.timestamps.Nodup) := by
  unfold LogQueue.file TimelyBatch
  by_cases hsize : q.size < 1
  · have he := h.synced.logs_eq_nil_iff.mpr hsize
    have hts : q.timestamps = [] := by rw [h.synced.timestamps_eq, he]; rfl
    have hnew := (appendAll_spec es q 0).2.1
    rw [hts, List.nil_append] at hnew
    rw [if_pos hsize, if_pos hsize]
    constructor
    · intro hn
      have hidx := indexes_appendAll es h.index (by rw [hts]; exact hn)
      rw [hts] at hidx
      exact ⟨rfl, h.synced.appendAll he hne, hidx⟩
    · intro hn
      rwa [hnew]
  · have hlogs : q.logs ≠ [] := fun he => hsize (h.synced.logs_eq_nil_iff.mp he)
    rw [if_neg hsize, if_neg hsize]
    exact ⟨h.insertEntries_of_timely hlogs, h.not_nodup_of_not_timely hlogs⟩

/-! ## 5. The order of the timestamps -/

/-- In increasing timestamps the newest one is the largest. -/
theorem Synced.le_lastTimestamp {q : LogQueue} (h : Synced q)
    (hinc : q.timestamps.Pairwise (· < ·)) {t : Int} (ht : t ∈ q.timestamps) :
    t ≤ q.lastTimestamp := by
  have hne : q.logs ≠ [] := by
    intro he
    rw [h.timestamps_eq, he] at ht
    exact absurd ht List.not_mem_nil
  obtain ⟨ys, hys⟩ := List.getLast?_eq_some_iff.mp (h.getLast?_timestamps hne)
  rw [hys] at ht hinc
  rcases List.mem_append.mp ht with ht | ht
  · exact le_of_lt ((List.pairwise_append.mp hinc).2.2 t ht _ List.mem_cons_self)
  · exact le_of_eq (List.mem_singleton.mp ht)

/-- Timely entries keep increasing timestamps increasing. -/
theorem Turn.increasing {q q' : LogQueue} {e : Entry} (ht : Turn q e q' none) (hq : Synced q)
    (hinc : q.timestamps.Pairwise (· < ·))
    (htimely : e.stamp ∈ q.timestamps → e.stamp = q.lastTimestamp) :
    q'.timestamps.Pairwise (· < ·) := by
  have hlen := hq.length_timestamps
  cases ht with
  | inserted i m hi hpos =>
    change (q.timestamps.take i ++ e.stamp :: q.timestamps.drop i).Pairwise (· < ·)
    rw [← List.take_append_drop i q.timestamps] at hinc
    obtain ⟨htake, hdrop, hcross⟩ := List.pairwise_append.mp hinc
    rw [List.take_append_drop] at hinc
    have hbefore : ∀ x ∈ q.timestamps.take i, x < e.stamp := by
      intro x hx
      rcases hpos with ⟨-, rfl, -⟩ | ⟨hgt, -, -⟩
      · exact lt_of_mem_take_insertIndex hinc hx
      · exact lt_of_le_of_lt (hq.le_lastTimestamp hinc (List.mem_of_mem_take hx)) hgt
    have hafter : ∀ x ∈ q.timestamps.drop i, e.stamp < x := by
      intro x hx
      rcases hpos with ⟨hlt, rfl, -⟩ | ⟨-, rfl, -⟩
      · have hle := le_of_mem_drop_insertIndex hx
        have hne : e.stamp ≠ x := fun heq =>
          absurd (htimely (heq ▸ List.mem_of_mem_drop hx)) (ne_of_lt hlt)
        exact lt_of_le_of_ne hle hne
      · rw [← hlen, List.drop_length] at hx
        exact absurd hx List.not_mem_nil
    refine List.pairwise_append.mpr ⟨htake, List.pairwise_cons.mpr ⟨hafter, hdrop⟩, ?_⟩
    intro x hx y hy
    rcases List.mem_cons.mp hy with rfl | hy
    · exact hbefore x hx
    · exact hcross x hx y hy
  | replaced heq => exact hinc

theorem Rep.insertEntries_of_timely {es : List Entry} {q : LogQueue} (h : Rep q)
    (hne : q.logs ≠ []) (htimely : Timely q.timestamps q.lastTimestamp (es.map Entry.stamp)) :
    Rep (q.insertEntries es).1 := by
  induction es generalizing q with
  | nil => exact h
  | cons e es ih =>
    have hsync := h.indexed.synced
    obtain ⟨q', hturn, -, hne', hu⟩ := h.indexed.insertEntries_cons hne e es
    rw [hu]
    have h' : Rep q' := rep_iff.mpr ⟨h.indexed.of_turn hne hturn htimely.1,
      hturn.increasing hsync h.increasing htimely.1⟩
    exact ih h' hne' ((hturn.timely_iff hsync hne _).mpr htimely.2)

/-- What keeps the whole invariant when the batch is filed. -/
def OrderedBatch (q : LogQueue) (es : List Entry) : Prop :=
  if q.size < 1 then (es.map Entry.stamp).Pairwise (· < ·)
  else Timely q.timestamps q.lastTimestamp (es.map Entry.stamp)

theorem nodup_of_increasing {l : List Int} (h : l.Pairwise (· < ·)) : l.Nodup :=
  h.imp fun hlt => ne_of_lt hlt

/-- **Filing a batch keeps the invariant exactly if the batch is in order.** -/
theorem Rep.file_iff {q : LogQueue} (h : Rep q) {es : List Entry} (hne : es ≠ []) :
    Rep (q.file es).1 ↔ q.OrderedBatch es := by
  have hfile := h.indexed.file hne
  unfold OrderedBatch
  unfold TimelyBatch at hfile
  by_cases hsize : q.size < 1
  · have he := h.indexed.synced.logs_eq_nil_iff.mpr hsize
    have hts : q.timestamps = [] := by rw [h.indexed.synced.timestamps_eq, he]; rfl
    have hnew : (q.file es).1.timestamps = es.map Entry.stamp := by
      rw [LogQueue.file, if_pos hsize, (appendAll_spec es q 0).2.1, hts, List.nil_append]
    rw [if_pos hsize] at hfile ⊢
    rw [rep_iff, hnew]
    exact ⟨fun hr => hr.2, fun hinc => ⟨(hfile.1 (nodup_of_increasing hinc)).2, hinc⟩⟩
  · have hlogs : q.logs ≠ [] := fun he => hsize (h.indexed.synced.logs_eq_nil_iff.mp he)
    rw [if_neg hsize] at hfile ⊢
    constructor
    · intro hr
      by_contra hnot
      exact hfile.2 hnot (nodup_of_increasing hr.increasing)
    · intro htimely
      rw [LogQueue.file, if_neg hsize]
      exact h.insertEntries_of_timely hlogs htimely

/-! ## 6. `commit` and `prune` -/

theorem rep_withTerm_iff {q : LogQueue} {term : Int} : Rep { q with term := term } ↔ Rep q :=
  ⟨fun h => ⟨h.1, h.2, h.3, h.4, h.5⟩, fun h => ⟨h.1, h.2, h.3, h.4, h.5⟩⟩

theorem Rep.commit {q : LogQueue} (h : Rep q) : Rep q.commit := by
  unfold LogQueue.commit
  split
  · exact ⟨h.1, h.2, h.3, h.4, h.5⟩
  · exact h

/-- The records of timestamps that are not cut stay as they are. -/
theorem get?_foldl_forget_of_not_mem {t : Int} {ts : List Int} {m : Dict Int Nat} (h : t ∉ ts) :
    (ts.foldl forget m).get? t = m.get? t := by
  induction ts generalizing m with
  | nil => rfl
  | cons u ts ih =>
    rw [List.foldl_cons, ih fun hm => h (List.mem_cons_of_mem _ hm)]
    unfold forget
    split
    · rw [Dict.get?_erase, if_neg (fun he : t = u => h (List.mem_cons.mpr (Or.inl he)))]
    · rfl

/-- **`prune` keeps the invariant exactly if it cuts nothing or everything.** -/
theorem Rep.prune_iff {q : LogQueue} (h : Rep q) (now : Nat) :
    Rep (q.prune now) ↔ q.pruneCount now = 0 ∨ q.size ≤ q.pruneCount now := by
  unfold LogQueue.prune
  simp only
  by_cases hall : q.pruneCount now ≥ q.size
  · rw [if_pos hall]
    exact ⟨fun _ => Or.inr hall, fun _ => ⟨rfl, rfl, List.Pairwise.nil, fun _ => rfl, indexes_empty⟩⟩
  · rw [if_neg hall]
    have hlt : q.pruneCount now < q.timestamps.length := by
      rw [h.length_timestamps]
      omega
    constructor
    · intro hr
      -- the first timestamp left over is still recorded at its old position
      obtain ⟨t, ht⟩ : ∃ t, q.timestamps[q.pruneCount now]? = some t :=
        ⟨_, List.getElem?_eq_getElem hlt⟩
      have hfirst : (q.timestamps.drop (q.pruneCount now))[0]? = some t := by
        rw [List.getElem?_drop, Nat.add_zero, ht]
      have hnot : t ∉ q.timestamps.take (q.pruneCount now) := by
        intro hm
        have hdrop : t ∈ q.timestamps.drop (q.pruneCount now) := List.mem_of_getElem? hfirst
        have hn := nodup_of_increasing h.increasing
        rw [← List.take_append_drop (q.pruneCount now) q.timestamps] at hn
        exact List.disjoint_of_nodup_append hn hm hdrop
      have hnew := (hr.index t 0).mpr hfirst
      have hold : ((q.timestamps.take (q.pruneCount now)).foldl forget
          q.timestampIndexMap).get? t = some (q.pruneCount now) := by
        rw [get?_foldl_forget_of_not_mem hnot]
        exact (h.index t _).mpr ht
      exact Or.inl (Option.some.inj (hold.symm.trans hnew))
    · rintro (hzero | hle)
      · rw [hzero]
        exact ⟨h.1, h.2, h.3, h.4, h.5⟩
      · omega

/-! ## 7. Runs of calls -/

/-- The calls that keep the invariant: a batch that is empty (the call raises), stale (it is
rejected) or in order, any `commit`, and a `prune` that cuts nothing or everything. -/
def Clean (q : LogQueue) : Op → Prop
  | .update entries =>
    ∀ last, entries.getLast? = some last → last.term < q.term ∨ q.OrderedBatch entries
  | .commit => True
  | .prune now => q.pruneCount now = 0 ∨ q.size ≤ q.pruneCount now

/-- **One call keeps the invariant exactly if it is clean.** -/
theorem Rep.apply_iff {q : LogQueue} (h : Rep q) (op : Op) : Rep (q.apply op) ↔ q.Clean op := by
  cases op with
  | update es =>
    change Rep (q.update es).1 ↔ _
    unfold Clean
    rcases update_cases q es with ⟨rfl, hu⟩ | ⟨last, hlast, ⟨hterm, hu⟩ | ⟨hterm, hu⟩⟩
    · rw [hu]
      exact ⟨fun _ l hl => absurd hl (by simp), fun _ => h⟩
    · rw [hu]
      refine ⟨fun _ l hl => Or.inl ?_, fun _ => h⟩
      rw [hlast] at hl
      exact Option.some.inj hl ▸ hterm
    · rw [hu, (rep_withTerm_iff.mpr h).file_iff (ne_nil_of_getLast? hlast)]
      constructor
      · exact fun ho l _ => Or.inr ho
      · intro hc
        rcases hc last hlast with hlt | ho
        · omega
        · exact ho
  | commit => exact ⟨fun _ => trivial, fun _ => h.commit⟩
  | prune now => exact h.prune_iff now

/-- **The invariant holds throughout a run of calls exactly if every call is clean.** -/
theorem always_rep_iff (maxAge : ℚ) (maxCount : Nat) (ops : List Op) :
    Always step Rep (empty maxAge maxCount) ops ↔
      Along step (fun q op _ => q.Clean op) (empty maxAge maxCount) ops := by
  refine always_iff_along (fun q op q' h hs => ?_) (rep_empty maxAge maxCount)
  rw [step, Option.some.injEq] at hs
  exact hs ▸ h.apply_iff op

/-- The entry with sequence number `seq` of millisecond `ms`, of the leader of term `1`. -/
def entryAt (ms seq : Int) : Entry := ⟨ms * 2 ^ 22 + seq, "key", "value", 1, "127.0.0.1", 9001⟩

/-- An entry that is delivered again after a newer one is stored twice. -/
theorem rep_broken :
    ¬ ∀ (maxAge : ℚ) (maxCount : Nat) (ops : List Op),
      Always step Rep (empty maxAge maxCount) ops := by
  intro h
  have hlast := (h 0 0 [.update [entryAt 1 0, entryAt 2 0, entryAt 3 0], .update [entryAt 2 0]]).last rfl
  have hinc : [1, 2, 2, 3].Pairwise (fun a b : Int => a < b) := hlast.increasing
  exact absurd hinc (by decide)

end LogQueue
end Hedra
