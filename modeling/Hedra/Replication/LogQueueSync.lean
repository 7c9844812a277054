/-
# What every `LogQueue` operation keeps

`update`, `commit` and `prune` each adjust some of the five parallel structures of a `LogQueue`
(`distributed/replication/log_queue.py`).  This file says once what one turn of `update`'s loop can
do (`Synced.insertEntry_cases`), on every queue that can arise: `Synced`, the part of the
representation that no sequence of calls breaks.

* `size` counts `logs`, and `_timestamps` lists the timestamps of `logs`;
* the newest timestamp is never indexed below its own position.  That is why the branch for
  an entry to replace overwrites the last entry or fails, and never another entry.

The full representation invariant -- which calls do break -- is the subject of
`LogQueueRep.lean`.
-/
import Mathlib.Data.List.Induction
import Hedra.Lib.ListIndex
import Hedra.Replication.LogQueue

namespace Hedra
namespace LogQueue

open Lib

/-! ## 1. The insertion position -/

theorem previousTimestamps_concat (ts : List Int) (x t : Int) :
    previousTimestamps (ts ++ [x]) t =
      previousTimestamps ts t ++ (if x < t then [ts.length] else []) := by
  unfold previousTimestamps
  rw [List.zipIdx_append, List.filter_append, List.map_append]
  by_cases h : x < t <;> simp [h]

/-- The position is one past the last smaller timestamp. -/
theorem insertIndex_concat (ts : List Int) (x t : Int) :
    insertIndex (ts ++ [x]) t = if x < t then ts.length + 1 else insertIndex ts t := by
  unfold insertIndex
  rw [previousTimestamps_concat]
  by_cases h : x < t <;> simp [h]

@[simp] theorem insertIndex_nil (t : Int) : insertIndex [] t = 0 := rfl

theorem insertIndex_le (ts : List Int) (t : Int) : insertIndex ts t ≤ ts.length := by
  induction ts using List.reverseRecOn with
  | nil => simp
  | append_singleton ts x ih =>
    rw [insertIndex_concat, List.length_append, List.length_singleton]
    split
    · exact Nat.le_refl _
    · exact Nat.le_succ_of_le ih

/-- Before a last timestamp that is not smaller, the position is inside the list. -/
theorem insertIndex_lt {ts : List Int} {t x : Int} (hx : ts.getLast? = some x) (h : t ≤ x) :
    insertIndex ts t < ts.length := by
  obtain ⟨ys, rfl⟩ := List.getLast?_eq_some_iff.mp hx
  rw [insertIndex_concat, if_neg (by omega), List.length_append, List.length_singleton]
  exact Nat.lt_succ_of_le (insertIndex_le ys t)

/-- Nothing from the position on is smaller. -/
theorem le_of_mem_drop_insertIndex {ts : List Int} {t x : Int}
    (h : x ∈ ts.drop (insertIndex ts t)) : t ≤ x := by
  induction ts using List.reverseRecOn with
  | nil => simp at h
  | append_singleton ts y ih =>
    rw [insertIndex_concat] at h
    split at h
    · rw [List.drop_eq_nil_of_le (by simp)] at h
      exact absurd h List.not_mem_nil
    · next hy =>
      rw [List.drop_append_of_le_length (insertIndex_le ts t)] at h
      rcases List.mem_append.mp h with h | h
      · exact ih h
      · rw [List.mem_singleton.mp h]
        exact Int.not_lt.mp hy

/-- In an increasing list everything before the position is smaller. -/
theorem lt_of_mem_take_insertIndex {ts : List Int} {t x : Int} (hs : ts.Pairwise (· < ·))
    (h : x ∈ ts.take (insertIndex ts t)) : x < t := by
  induction ts using List.reverseRecOn with
  | nil => simp at h
  | append_singleton ts y ih =>
    obtain ⟨hs, -, hlt⟩ := List.pairwise_append.mp hs
    rw [insertIndex_concat] at h
    split at h
    · next hy =>
      rcases List.mem_append.mp (List.mem_of_mem_take h) with h | h
      · exact (hlt x h y List.mem_cons_self).trans hy
      · exact List.mem_singleton.mp h ▸ hy
    · rw [List.take_append_of_le_length (insertIndex_le ts t)] at h
      exact ih hs h

/-- So in an increasing list everything not smaller stands behind the position. -/
theorem mem_drop_insertIndex {ts : List Int} {t x : Int} (hs : ts.Pairwise (· < ·))
    (hx : x ∈ ts) (h : t ≤ x) : x ∈ ts.drop (insertIndex ts t) := by
  rw [← List.take_append_drop (insertIndex ts t) ts] at hx
  rcases List.mem_append.mp hx with hx | hx
  · exact absurd (lt_of_mem_take_insertIndex hs hx) (not_lt.mpr h)
  · exact hx

/-! ## 2. Moving records up -/

/-- The loop over the later timestamps ends well exactly when each has a record, and then
each record has moved up once per occurrence. -/
theorem shift_done {m m' : Dict Int Nat} {ts : List Int} (h : shift m ts = (m', none)) :
    (∀ t ∈ ts, m.get? t ≠ none) ∧ ∀ t, m'.get? t = (m.get? t).map (· + ts.count t) := by
  induction ts generalizing m with
  | nil =>
    obtain ⟨rfl, -⟩ := Prod.mk.inj h
    simp
  | cons u ts ih =>
    unfold shift at h
    split at h
    · next i hi =>
      obtain ⟨hkeys, hget⟩ := ih h
      constructor
      · intro t ht
        rcases List.mem_cons.mp ht with rfl | ht
        · simp [hi]
        · have hne := hkeys t ht
          rw [Dict.get?_set] at hne
          split at hne
          · next heq => simp [heq, hi]
          · exact hne
      · intro t
        rw [hget t, Dict.get?_set]
        by_cases ht : t = u
        · subst ht
          simp [hi]
          omega
        · rw [if_neg ht, List.count_cons_of_ne (Ne.symm ht)]
    · exact absurd (Prod.mk.inj h).2 (by simp)

theorem shift_fails {m m' : Dict Int Nat} {err : PyError} {ts : List Int}
    (h : shift m ts = (m', some err)) : ∃ t ∈ ts, m.get? t = none := by
  induction ts generalizing m with
  | nil => exact absurd (Prod.mk.inj h).2 (by simp)
  | cons u ts ih =>
    unfold shift at h
    split at h
    · next i hi =>
      obtain ⟨t, ht, hnone⟩ := ih h
      rw [Dict.get?_set] at hnone
      split at hnone
      · cases hnone
      · exact ⟨t, List.mem_cons_of_mem _ ht, hnone⟩
    · next hu => exact ⟨u, List.mem_cons_self, hu⟩

/-- Records only move up, also when the loop ends early. -/
theorem le_of_shift {t : Int} {i : Nat} {ts : List Int} {m : Dict Int Nat}
    (h : (shift m ts).1.get? t = some i) : ∃ j ≤ i, m.get? t = some j := by
  induction ts generalizing m with
  | nil => exact ⟨i, Nat.le_refl i, h⟩
  | cons u ts ih =>
    unfold shift at h
    split at h
    · next k hk =>
      obtain ⟨j, hj, hget⟩ := ih h
      rw [Dict.get?_set] at hget
      split at hget
      · next heq =>
        have := Option.some.inj hget
        exact ⟨k, by omega, heq ▸ hk⟩
      · exact ⟨j, hj, hget⟩
    · exact ⟨i, Nat.le_refl i, h⟩

/-! ## 3. The part of the representation that always holds -/

/-- What every `LogQueue` that can arise satisfies. -/
structure Synced (q : LogQueue) : Prop where
  size_eq : q.size = q.logs.length
  timestamps_eq : q.timestamps = q.logs.map Entry.stamp
  last_index : ∀ i, q.logs ≠ [] → q.timestampIndexMap.get? q.lastTimestamp = some i → q.size ≤ i + 1

theorem synced_empty (maxAge : ℚ) (maxCount : Nat) : Synced (empty maxAge maxCount) :=
  ⟨rfl, rfl, fun _ h => absurd rfl h⟩

namespace Synced

variable {q : LogQueue}

theorem length_timestamps (h : Synced q) : q.timestamps.length = q.logs.length := by
  rw [h.timestamps_eq, List.length_map]

theorem logs_eq_nil_iff (h : Synced q) : q.logs = [] ↔ q.size < 1 := by
  rw [h.size_eq, ← List.length_eq_zero_iff]
  omega

theorem timestamps_ne_nil (h : Synced q) (hne : q.logs ≠ []) : q.timestamps ≠ [] := by
  rw [h.timestamps_eq]
  simpa using hne

theorem getLast?_timestamps (h : Synced q) (hne : q.logs ≠ []) :
    q.timestamps.getLast? = some q.lastTimestamp := by
  have hts := h.timestamps_ne_nil hne
  rw [lastTimestamp, List.getLast?_eq_some_getLast hts, Option.getD_some]

theorem lastTimestamp_mem (h : Synced q) (hne : q.logs ≠ []) : q.lastTimestamp ∈ q.timestamps :=
  List.mem_of_getLast? (h.getLast?_timestamps hne)

/-- The last entry is the one filed under the newest timestamp. -/
theorem exists_getLast (h : Synced q) (hne : q.logs ≠ []) :
    ∃ x, q.logs = q.logs.dropLast ++ [x] ∧ x.stamp = q.lastTimestamp := by
  refine ⟨q.logs.getLast hne, (List.dropLast_append_getLast hne).symm, ?_⟩
  have hlast := h.getLast?_timestamps hne
  rw [h.timestamps_eq, List.getLast?_map, List.getLast?_eq_some_getLast hne, Option.map_some] at hlast
  exact Option.some.inj hlast

end Synced

/-! ## 4. One turn of the loop -/

/-- The write of `e` is turned down with an exception: a later timestamp has no record to
move up, or the record of the newest timestamp is missing or past the end. -/
def WriteFails (q : LogQueue) (e : Entry) : Prop :=
  (e.stamp < q.lastTimestamp ∧
      ∃ t ∈ q.timestamps.drop (insertIndex q.timestamps e.stamp),
        t ≠ e.stamp ∧ q.timestampIndexMap.get? t = none) ∨
    (e.stamp = q.lastTimestamp ∧
      ∀ i, q.timestampIndexMap.get? e.stamp = some i → q.logs.length ≤ i)

/-- **What one turn of the loop can do to a queue that is not empty.**  It inserts the entry
somewhere, it overwrites the last entry by one of the same timestamp, or it fails and
leaves the entries alone. -/
inductive Turn (q : LogQueue) (e : Entry) : LogQueue → Option PyError → Prop
  | inserted (i : Nat) (m : Dict Int Nat) (hi : i ≤ q.logs.length)
      (hpos : e.stamp < q.lastTimestamp ∧ i = insertIndex q.timestamps e.stamp ∧
          shift (q.timestampIndexMap.set e.stamp i) (q.timestamps.drop i) = (m, none) ∨
        q.lastTimestamp < e.stamp ∧ i = q.logs.length ∧
          m = q.timestampIndexMap.set e.stamp i) :
      Turn q e
        { q with
          timestampIndexMap := m
          logs := q.logs.take i ++ e :: q.logs.drop i
          timestamps := q.timestamps.take i ++ e.stamp :: q.timestamps.drop i
          size := q.size + 1 } none
  | replaced (heq : e.stamp = q.lastTimestamp) :
      Turn q e { q with logs := q.logs.dropLast ++ [e] } none
  | failed (m : Dict Int Nat) (err : PyError)
      (hm : m = q.timestampIndexMap ∨ e.stamp < q.lastTimestamp ∧
        ∃ i ts, m = (shift (q.timestampIndexMap.set e.stamp i) ts).1) :
      Turn q e { q with timestampIndexMap := m } (some err)

section Branches

variable {q : LogQueue} {e : Entry}

/-- The branch for a missing entry. -/
theorem Synced.insertMissing_turn (h : Synced q) (hne : q.logs ≠ [])
    (hlt : e.stamp < q.lastTimestamp) :
    Turn q e (q.insertMissing e).1 (q.insertMissing e).2 ∧
      ((q.insertMissing e).2 = none ↔ ¬ q.WriteFails e) := by
  have hlen := h.length_timestamps
  have hi := insertIndex_lt (h.getLast?_timestamps hne) (le_of_lt hlt)
  unfold insertMissing
  simp only
  rcases hs : shift (q.timestampIndexMap.set e.stamp (insertIndex q.timestamps e.stamp))
    (q.timestamps.drop (insertIndex q.timestamps e.stamp)) with ⟨m, _ | err⟩
  · refine ⟨Turn.inserted _ m (by omega) (Or.inl ⟨hlt, rfl, hs⟩), ?_⟩
    simp only [true_iff]
    rintro (⟨-, t, ht, hte, hnone⟩ | ⟨heq, -⟩)
    · exact (shift_done hs).1 t ht (by rw [Dict.get?_set_ne _ _ hte]; exact hnone)
    · omega
  · refine ⟨Turn.failed m err (Or.inr ⟨hlt, _, _, by rw [hs]⟩), ?_⟩
    obtain ⟨t, ht, hnone⟩ := shift_fails hs
    have hte : t ≠ e.stamp := by
      rintro rfl
      simp at hnone
    rw [Dict.get?_set_ne _ _ hte] at hnone
    simp only [reduceCtorEq, false_iff, not_not]
    exact Or.inl ⟨hlt, t, ht, hte, hnone⟩

/-- The branch for an entry to append. -/
theorem Synced.appendNext_turn (h : Synced q) (hgt : q.lastTimestamp < e.stamp) :
    Turn q e (q.appendNext e) none ∧ ¬ q.WriteFails e := by
  have hlen := h.length_timestamps
  constructor
  · have happ : q.appendNext e =
        { q with
          timestampIndexMap := q.timestampIndexMap.set e.stamp q.logs.length
          logs := q.logs.take q.logs.length ++ e :: q.logs.drop q.logs.length
          timestamps := q.timestamps.take q.logs.length ++
            e.stamp :: q.timestamps.drop q.logs.length
          size := q.size + 1 } := by
      rw [appendNext, h.size_eq, List.take_length, List.drop_length, ← hlen, List.take_length,
        List.drop_length]
    rw [happ]
    exact Turn.inserted q.logs.length _ (Nat.le_refl _) (Or.inr ⟨hgt, rfl, rfl⟩)
  · rintro (⟨hlt, -⟩ | ⟨heq, -⟩) <;> omega

/-- A record of the newest timestamp that is inside the queue is the one of the last entry. -/
theorem Synced.set_last (h : Synced q) (hne : q.logs ≠ []) (heq : e.stamp = q.lastTimestamp)
    {i : Nat} (hget : q.timestampIndexMap.get? e.stamp = some i) (hi : i < q.logs.length) :
    q.logs.set i e = q.logs.dropLast ++ [e] ∧ q.timestamps.set i e.stamp = q.timestamps := by
  have hlast := h.last_index i hne (heq ▸ hget)
  obtain ⟨x, hx, hxs⟩ := h.exists_getLast hne
  have hi : i = q.logs.dropLast.length := by
    rw [List.length_dropLast]
    have := h.size_eq
    omega
  have hlogs : q.logs.set i e = q.logs.dropLast ++ [e] := by
    conv_lhs => rw [hx, hi]
    simp
  refine ⟨hlogs, ?_⟩
  rw [h.timestamps_eq, ← List.map_set, hlogs]
  conv_rhs => rw [hx]
  simp [heq, hxs]

/-- The branch for an entry to replace. -/
theorem Synced.replaceAt_turn (h : Synced q) (hne : q.logs ≠ [])
    (heq : e.stamp = q.lastTimestamp) :
    Turn q e (q.replaceAt e).1 (q.replaceAt e).2 ∧
      ((q.replaceAt e).2 = none ↔ ¬ q.WriteFails e) := by
  have hlen := h.length_timestamps
  unfold replaceAt
  rcases hget : q.timestampIndexMap.get? e.stamp with _ | i
  · refine ⟨Turn.failed _ _ (Or.inl rfl), ?_⟩
    simp only [reduceCtorEq, false_iff, not_not]
    exact Or.inr ⟨heq, fun i hi => absurd (hget.symm.trans hi) (by simp)⟩
  · simp only
    by_cases hil : i < q.logs.length
    · obtain ⟨hlogs, hts⟩ := h.set_last hne heq hget hil
      rw [if_pos hil, if_pos (hlen ▸ hil), hlogs, hts]
      refine ⟨Turn.replaced heq, ?_⟩
      simp only [true_iff]
      rintro (⟨hlt, -⟩ | ⟨-, hall⟩)
      · omega
      · exact absurd (hall i hget) (by omega)
    · rw [if_neg hil]
      refine ⟨Turn.failed _ _ (Or.inl rfl), ?_⟩
      simp only [reduceCtorEq, false_iff, not_not]
      refine Or.inr ⟨heq, fun j hj => ?_⟩
      rw [hget] at hj
      have := Option.some.inj hj
      omega

theorem Synced.insertEntry_turn (h : Synced q) (hne : q.logs ≠ []) (e : Entry) :
    Turn q e (q.insertEntry e).1 (q.insertEntry e).2 ∧
      ((q.insertEntry e).2 = none ↔ ¬ q.WriteFails e) := by
  unfold insertEntry
  split
  · next hlt => exact h.insertMissing_turn hne hlt
  · next hge =>
    split
    · next hgt =>
      obtain ⟨hturn, hok⟩ := h.appendNext_turn hgt
      exact ⟨hturn, iff_of_true rfl hok⟩
    · next hle => exact h.replaceAt_turn hne (by omega)

end Branches

/-! ## 5. What a turn keeps -/

namespace Turn

variable {q q' : LogQueue} {e : Entry} {r : Option PyError}

theorem logs_ne_nil (h : Turn q e q' r) (hne : q.logs ≠ []) : q'.logs ≠ [] := by
  cases h <;> simp [hne]

/-- The stored timestamps stay, in their order. -/
theorem sublist (h : Turn q e q' r) : q.timestamps.Sublist q'.timestamps := by
  cases h with
  | inserted i m hi hpos =>
    have hsub : (q.timestamps.take i ++ q.timestamps.drop i).Sublist
        (q.timestamps.take i ++ e.stamp :: q.timestamps.drop i) :=
      (List.sublist_cons_self _ _).append_left _
    rwa [List.take_append_drop] at hsub
  | replaced heq => exact List.Sublist.refl _
  | failed m err hm => exact List.Sublist.refl _

/-- A turn touches neither the commit marks nor the term. -/
theorem frame (h : Turn q e q' r) : q'.commits = q.commits ∧ q'.term = q.term ∧
    q'.pruneMaxAge = q.pruneMaxAge ∧ q'.pruneMaxCount = q.pruneMaxCount := by
  cases h <;> exact ⟨rfl, rfl, rfl, rfl⟩

/-- After a turn that went through, the entry is stored. -/
theorem mem_logs (h : Turn q e q' none) : e ∈ q'.logs := by
  cases h <;> simp

theorem mem_timestamps (h : Turn q e q' none) (hq : Synced q) (hne : q.logs ≠ []) (t : Int) :
    t ∈ q'.timestamps ↔ t ∈ q.timestamps ∨ t = e.stamp := by
  cases h with
  | inserted i m hi hpos =>
    change t ∈ q.timestamps.take i ++ e.stamp :: q.timestamps.drop i ↔ _
    conv_rhs => rw [← List.take_append_drop i q.timestamps]
    simp only [List.mem_append, List.mem_cons]
    tauto
  | replaced heq =>
    refine ⟨Or.inl, fun ht => ht.elim id ?_⟩
    rintro rfl
    exact heq ▸ hq.lastTimestamp_mem hne

/-- The newest timestamp is the larger one. -/
theorem lastTimestamp (h : Turn q e q' none) (hq : Synced q) (hne : q.logs ≠ []) :
    q'.lastTimestamp = max q.lastTimestamp e.stamp := by
  have hlen := hq.length_timestamps
  have hlast := hq.getLast?_timestamps hne
  cases h with
  | inserted i m hi hpos =>
    change (q.timestamps.take i ++ e.stamp :: q.timestamps.drop i).getLast?.getD 0 = _
    rcases hpos with ⟨hlt, rfl, -⟩ | ⟨hgt, rfl, -⟩
    · have hidx := insertIndex_lt hlast (le_of_lt hlt)
      have hdrop : (q.timestamps.drop (insertIndex q.timestamps e.stamp)).getLast? =
          some q.lastTimestamp := by
        rw [List.getLast?_drop, if_neg (by omega), hlast]
      rw [List.getLast?_append, List.getLast?_cons, hdrop, max_eq_left (le_of_lt hlt)]
      rfl
    · rw [← hlen, List.drop_length, List.getLast?_append, max_eq_right (le_of_lt hgt)]
      rfl
  | replaced heq =>
    change q.lastTimestamp = _
    rw [heq, max_self]

/-- The record of the newest timestamp moves up when an entry goes in before it. -/
theorem get?_shift_last (hq : Synced q) (hne : q.logs ≠ []) (hlt : e.stamp < q.lastTimestamp)
    {m : Dict Int Nat} {i : Nat} (hs : shift (q.timestampIndexMap.set e.stamp i)
      (q.timestamps.drop (insertIndex q.timestamps e.stamp)) = (m, none)) {j : Nat}
    (hj : m.get? q.lastTimestamp = some j) :
    ∃ k, q.timestampIndexMap.get? q.lastTimestamp = some k ∧ k < j := by
  have hidx := insertIndex_lt (hq.getLast?_timestamps hne) (le_of_lt hlt)
  have hmem : q.lastTimestamp ∈ q.timestamps.drop (insertIndex q.timestamps e.stamp) := by
    refine List.mem_of_getLast? (l := _) ?_
    rw [List.getLast?_drop, if_neg (by omega), hq.getLast?_timestamps hne]
  have hcount := List.count_pos_iff.mpr hmem
  have hget := (shift_done hs).2 q.lastTimestamp
  rw [Dict.get?_set_ne _ _ (ne_of_gt hlt)] at hget
  obtain ⟨k, hk, hkj⟩ := Option.map_eq_some_iff.mp (hget.symm.trans hj)
  exact ⟨k, hk, by omega⟩

/-- **A turn keeps the queue synced**, whether it goes through or fails. -/
theorem synced (h : Turn q e q' r) (hq : Synced q) (hne : q.logs ≠ []) : Synced q' := by
  have hsize := hq.size_eq
  have hnewest := fun hr : r = none => (hr ▸ h).lastTimestamp hq hne
  cases h with
  | inserted i m hi hpos =>
    refine ⟨?_, ?_, fun j _ hj => ?_⟩
    · change q.size + 1 = (q.logs.take i ++ e :: q.logs.drop i).length
      rw [List.length_append, List.length_cons, List.length_take_of_le hi, List.length_drop]
      omega
    · change q.timestamps.take i ++ e.stamp :: q.timestamps.drop i = _
      rw [hq.timestamps_eq, List.map_append, List.map_cons, List.map_take, List.map_drop]
    · change q.size + 1 ≤ j + 1
      rw [hnewest rfl] at hj
      rcases hpos with ⟨hlt, rfl, hs⟩ | ⟨hgt, rfl, rfl⟩
      · rw [max_eq_left (le_of_lt hlt)] at hj
        obtain ⟨k, hk, hkj⟩ := get?_shift_last hq hne hlt hs hj
        have := hq.last_index k hne hk
        omega
      · rw [max_eq_right (le_of_lt hgt), Dict.get?_set_self] at hj
        have := Option.some.inj hj
        omega
  | replaced heq =>
    obtain ⟨x, hx, hxs⟩ := hq.exists_getLast hne
    refine ⟨?_, ?_, fun j _ hj => hq.last_index j hne hj⟩
    · rw [hsize]
      conv_lhs => rw [hx]
      simp
    · change q.timestamps = _
      rw [hq.timestamps_eq]
      conv_lhs => rw [hx]
      simp [heq, hxs]
  | failed m err hm =>
    refine ⟨hsize, hq.timestamps_eq, fun j _ hj => ?_⟩
    rcases hm with rfl | ⟨hlt, i, ts, rfl⟩
    · exact hq.last_index j hne hj
    · have hj' : (shift (q.timestampIndexMap.set e.stamp i) ts).1.get? q.lastTimestamp = some j := hj
      obtain ⟨k, hk, hget⟩ := le_of_shift hj'
      rw [Dict.get?_set_ne _ _ (ne_of_gt hlt)] at hget
      exact le_trans (hq.last_index k hne hget) (Nat.succ_le_succ hk)

end Turn

/-- **How the loop goes on after its first turn.** -/
theorem Synced.insertEntries_cons {q : LogQueue} (h : Synced q) (hne : q.logs ≠ []) (e : Entry)
    (es : List Entry) :
    (∃ q', q.insertEntry e = (q', none) ∧ Turn q e q' none ∧ Synced q' ∧ q'.logs ≠ [] ∧
        q.insertEntries (e :: es) = q'.insertEntries es) ∨
      ∃ q' err, q.insertEntry e = (q', some err) ∧ Turn q e q' (some err) ∧
        q.insertEntries (e :: es) = (q', .raised err) := by
  have ht := (h.insertEntry_turn hne e).1
  rcases hr : q.insertEntry e with ⟨q', _ | err⟩
  · rw [hr] at ht
    refine Or.inl ⟨q', rfl, ht, ht.synced h hne, ht.logs_ne_nil hne, ?_⟩
    rw [insertEntries, hr]
  · rw [hr] at ht
    refine Or.inr ⟨q', err, rfl, ht, ?_⟩
    rw [insertEntries, hr]

/-- **What the loop keeps**, however it ends. -/
theorem Synced.insertEntries (es : List Entry) {q : LogQueue} (h : Synced q) (hne : q.logs ≠ []) :
    Synced (q.insertEntries es).1 ∧ (q.insertEntries es).1.logs ≠ [] ∧
      q.timestamps.Sublist (q.insertEntries es).1.timestamps ∧
      (q.insertEntries es).1.commits = q.commits ∧ (q.insertEntries es).1.term = q.term ∧
      ∀ err, (q.insertEntries es).2 ≠ .rejected err := by
  induction es generalizing q with
  | nil => exact ⟨h, hne, List.Sublist.refl _, rfl, rfl, by simp [LogQueue.insertEntries]⟩
  | cons e es ih =>
    rcases h.insertEntries_cons hne e es with ⟨q', -, ht, h', hne', hu⟩ | ⟨q', err, -, ht, hu⟩
    · obtain ⟨h1, h2, h3, h4, h5, h6⟩ := ih h' hne'
      rw [hu]
      exact ⟨h1, h2, ht.sublist.trans h3, h4.trans ht.frame.1, h5.trans ht.frame.2.1, h6⟩
    · rw [hu]
      exact ⟨ht.synced h hne, ht.logs_ne_nil hne, ht.sublist, ht.frame.1, ht.frame.2.1,
        fun _ => by simp⟩

/-- A loop that ends well has stored every timestamp. -/
theorem Synced.mem_timestamps_of_done {es : List Entry} {q : LogQueue} (h : Synced q)
    (hne : q.logs ≠ []) (hdone : (q.insertEntries es).2 = .done) :
    ∀ e ∈ es, e.stamp ∈ (q.insertEntries es).1.timestamps := by
  induction es generalizing q with
  | nil => simp
  | cons e es ih =>
    intro x hx
    rcases h.insertEntries_cons hne e es with ⟨q', -, ht, h', hne', hu⟩ | ⟨q', err, -, -, hu⟩
    · rw [hu] at hdone ⊢
      rcases List.mem_cons.mp hx with rfl | hx
      · refine (h'.insertEntries es hne').2.2.1.subset ?_
        exact (ht.mem_timestamps h hne _).mpr (Or.inr rfl)
      · exact ih h' hne' hdone x hx
    · rw [hu] at hdone
      cases hdone

/-! ## 6. A batch into an empty queue -/

theorem appendAll_concat (e : Entry) (es : List Entry) (q : LogQueue) (idx : Nat) :
    q.appendAll idx (es ++ [e]) = (q.appendAll idx es).appendAt (idx + es.length) e := by
  induction es generalizing q idx with
  | nil => rfl
  | cons x es ih =>
    rw [List.cons_append, appendAll, appendAll, ih, List.length_cons,
      show idx + 1 + es.length = idx + (es.length + 1) by omega]

/-- The lists and the counter simply grow by the batch. -/
theorem appendAll_spec (es : List Entry) (q : LogQueue) (idx : Nat) :
    (q.appendAll idx es).logs = q.logs ++ es ∧
      (q.appendAll idx es).timestamps = q.timestamps ++ es.map Entry.stamp ∧
      (q.appendAll idx es).size = q.size + es.length ∧
      (q.appendAll idx es).commits = q.commits ∧ (q.appendAll idx es).term = q.term := by
  induction es generalizing q idx with
  | nil => simp [appendAll]
  | cons x es ih =>
    obtain ⟨h1, h2, h3, h4, h5⟩ := ih (q.appendAt idx x) (idx + 1)
    rw [appendAll, h1, h2, h3, h4, h5]
    simp [appendAt]
    omega

/-- The newest timestamp of the batch is indexed at the end. -/
theorem get?_appendAll_concat (q : LogQueue) (es : List Entry) (e : Entry) (idx : Nat) :
    (q.appendAll idx (es ++ [e])).timestampIndexMap.get? e.stamp = some (idx + es.length) := by
  rw [appendAll_concat]
  exact Dict.get?_set_self _ _ _

theorem Synced.appendAll {q : LogQueue} (h : Synced q) (he : q.logs = []) {es : List Entry}
    (hne : es ≠ []) : Synced (q.appendAll 0 es) := by
  obtain ⟨h1, h2, h3, -, -⟩ := appendAll_spec es q 0
  obtain ⟨fs, e, rfl⟩ := (List.eq_nil_or_concat' es).resolve_left hne
  have hts : q.timestamps = [] := by rw [h.timestamps_eq, he]; rfl
  have hsize : q.size = 0 := by rw [h.size_eq, he]; rfl
  refine ⟨?_, ?_, fun i _ hi => ?_⟩
  · rw [h3, h1, he, hsize]
    simp
  · rw [h2, h1, he, hts]
    rfl
  · have hlast : (q.appendAll 0 (fs ++ [e])).lastTimestamp = e.stamp := by
      rw [lastTimestamp, h2, hts]
      simp
    rw [hlast, get?_appendAll_concat] at hi
    have := Option.some.inj hi
    rw [h3, hsize, List.length_append, List.length_singleton]
    omega

/-! ## 7. The calls -/

/-- What a batch that is not rejected does, in terms of the loop. -/
theorem Synced.file {q : LogQueue} (h : Synced q) {es : List Entry} (hne : es ≠ []) :
    Synced (q.file es).1 ∧ (q.file es).1.logs ≠ [] ∧
      q.timestamps.Sublist (q.file es).1.timestamps ∧ (q.file es).1.commits = q.commits := by
  unfold LogQueue.file
  split
  · next hsize =>
    have he := h.logs_eq_nil_iff.mpr hsize
    obtain ⟨h1, h2, -, h4, -⟩ := appendAll_spec es q 0
    refine ⟨h.appendAll he hne, ?_, ?_, h4⟩
    · rw [h1]
      simp [hne]
    · rw [h2]
      exact List.sublist_append_left _ _
  · next hsize =>
    have hlogs := mt h.logs_eq_nil_iff.mp hsize
    obtain ⟨h1, h2, h3, h4, -, -⟩ := h.insertEntries es hlogs
    exact ⟨h1, h2, h3, h4⟩

theorem Synced.withTerm {q : LogQueue} (h : Synced q) (term : Int) :
    Synced { q with term := term } := ⟨h.size_eq, h.timestamps_eq, h.last_index⟩

/-- The ways a call of `update` can go: an empty batch, a stale one, or one that is filed. -/
theorem update_cases (q : LogQueue) (es : List Entry) :
    (es = [] ∧ q.update es = (q, .raised (.indexError "list index out of range"))) ∨
      ∃ last, es.getLast? = some last ∧
        ((last.term < q.term ∧
            q.update es = (q, .rejected ⟨Snowflake.parse last.entryId, last.term, q.term⟩)) ∨
          (q.term ≤ last.term ∧ q.update es = { q with term := last.term }.file es)) := by
  unfold update
  cases hlast : es.getLast? with
  | none => exact Or.inl ⟨List.getLast?_eq_none_iff.mp hlast, rfl⟩
  | some last =>
    refine Or.inr ⟨last, rfl, ?_⟩
    by_cases hterm : last.term < q.term
    · exact Or.inl ⟨hterm, if_pos hterm⟩
    · exact Or.inr ⟨not_lt.mp hterm, if_neg hterm⟩

theorem ne_nil_of_getLast? {es : List Entry} {last : Entry} (h : es.getLast? = some last) :
    es ≠ [] := by
  rintro rfl
  cases h

theorem Synced.update {q : LogQueue} (h : Synced q) (es : List Entry) :
    Synced (q.update es).1 := by
  rcases update_cases q es with ⟨-, hu⟩ | ⟨last, hlast, ⟨-, hu⟩ | ⟨-, hu⟩⟩
  · rwa [hu]
  · rwa [hu]
  · rw [hu]
    exact ((h.withTerm last.term).file (ne_nil_of_getLast? hlast)).1

/-- `update` never drops a timestamp. -/
theorem Synced.update_sublist {q : LogQueue} (h : Synced q) (es : List Entry) :
    q.timestamps.Sublist (q.update es).1.timestamps := by
  rcases update_cases q es with ⟨-, hu⟩ | ⟨last, hlast, ⟨-, hu⟩ | ⟨-, hu⟩⟩
  · rw [hu]
  · rw [hu]
  · rw [hu]
    exact ((h.withTerm last.term).file (ne_nil_of_getLast? hlast)).2.2.1

theorem Synced.commit {q : LogQueue} (h : Synced q) : Synced q.commit := by
  unfold LogQueue.commit
  split
  · exact ⟨h.size_eq, h.timestamps_eq, h.last_index⟩
  · exact h

/-- Deleting records never writes one. -/
theorem get?_foldl_forget {t : Int} {i : Nat} (ts : List Int) {m : Dict Int Nat}
    (h : (ts.foldl forget m).get? t = some i) : m.get? t = some i := by
  induction ts generalizing m with
  | nil => exact h
  | cons u ts ih =>
    have hget := ih h
    unfold forget at hget
    split at hget
    · rw [Dict.get?_erase] at hget
      split at hget
      · cases hget
      · exact hget
    · exact hget

theorem Synced.prune {q : LogQueue} (h : Synced q) (currentTime : Nat) :
    Synced (q.prune currentTime) := by
  unfold LogQueue.prune
  simp only
  split
  · exact ⟨rfl, rfl, fun _ hne => absurd rfl hne⟩
  · next hcount =>
    have hlen := h.length_timestamps
    have hsize := h.size_eq
    have hne : q.logs ≠ [] := by
      rintro he
      rw [he, List.length_nil] at hsize
      omega
    refine ⟨?_, ?_, fun i _ hi => ?_⟩
    · change q.size - q.pruneCount currentTime = (q.logs.drop _).length
      rw [List.length_drop, hsize]
    · change q.timestamps.drop _ = (q.logs.drop _).map Entry.stamp
      rw [h.timestamps_eq, List.map_drop]
    · have hlast : (q.timestamps.drop (q.pruneCount currentTime)).getLast?.getD 0 =
          q.lastTimestamp := by
        rw [List.getLast?_drop, if_neg (by omega)]
        rfl
      have hi' : ((q.timestamps.take (q.pruneCount currentTime)).foldl forget
          q.timestampIndexMap).get? q.lastTimestamp = some i := hlast ▸ hi
      have := h.last_index i hne (get?_foldl_forget _ hi')
      change q.size - q.pruneCount currentTime ≤ i + 1
      omega

/-! ## 8. Runs of calls -/

/-- The calls that change a `LogQueue`. -/
inductive Op
  | update (entries : List Entry)
  | commit
  | prune (currentTime : Nat)

/-- The state a call leaves behind, also when it raises. -/
def apply (q : LogQueue) : Op → LogQueue
  | .update entries => (q.update entries).1
  | .commit => q.commit
  | .prune currentTime => q.prune currentTime

/-- The machine of a queue's calls; every call is possible in every state. -/
def step (q : LogQueue) (op : Op) : Option LogQueue := some (q.apply op)

theorem Synced.apply {q : LogQueue} (h : Synced q) (op : Op) : Synced (q.apply op) := by
  cases op with
  | update es => exact h.update es
  | commit => exact h.commit
  | prune t => exact h.prune t

end LogQueue
end Hedra
