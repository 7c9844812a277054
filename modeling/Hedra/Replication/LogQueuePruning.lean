/-
# Pruning

What `prune` (`distributed/replication/log_queue.py`) is meant to cut off are the oldest entries
that are older than the maximum age, at most the maximum number of them; the others should stay to
be found, and `latest` should go on from the last committed entry.  Four things come between:

* timestamps are milliseconds and the maximum age is in seconds, so the ages are compared a thousand
  times too early;
* the index is not moved with the entries, so a `prune` that cuts some entries but not all leaves
  every other one filed under a wrong position;
* an id that is not in the index is looked up at position `-1`, which is the last entry;
* once the queue has been emptied nothing is left of the last commit, so entries from before it that
  come late are among the `latest` ones.

Each part holds exactly where these do not show.

`pruningExact_iff` has the four, each with its condition on the queue before the call.
-/
import Hedra.Lib.Filters
import Hedra.Replication.LogQueueRep

namespace Hedra
namespace LogQueue

open Lib Lib.Machine

/-! ## 1. What pruning should do -/

/-- `e` is older than the maximum age, which is in seconds, at the millisecond `now`. -/
def expired (q : LogQueue) (now : Nat) (e : Entry) : Bool :=
  q.pruneMaxAge * 1000 < ((now - e.stamp : Int) : ℚ)

/-- **`prune` removes exactly** the oldest entries that are older than the maximum age, at most
the maximum number of them. -/
def PrunesExactly (q : LogQueue) (now : Nat) : Prop :=
  ∃ removed, (removed ++ (q.prune now).logs).Perm q.logs ∧ (q.prune now).logs.Sublist q.logs ∧
    (∀ r ∈ removed, q.expired now r = true) ∧
    (∀ r ∈ removed, ∀ e ∈ (q.prune now).logs, r.stamp ≤ e.stamp) ∧
    removed.length = min (q.logs.countP (q.expired now)) q.pruneMaxCount

/-- What `prune` keeps is found. -/
def KeepsFound (q : LogQueue) (now : Nat) : Prop :=
  ∀ e ∈ (q.prune now).logs, (q.prune now).get e.entryId = .ok (some e)

/-- An id that is not stored is not found. -/
def UnknownNotFound (q : LogQueue) : Prop :=
  ∀ id, (∀ e ∈ q.logs, e.entryId ≠ id) → q.get id = .ok none

/-- The timestamp of the last committed entry, after the calls `ops` on `q`, before which it was
`t`. -/
def lastCommitted (q : LogQueue) (t : Option Int) : List Op → Option Int
  | [] => t
  | .commit :: ops => lastCommitted q.commit (q.timestamps.getLast?.or t) ops
  | .update entries :: ops => lastCommitted (q.update entries).1 t ops
  | .prune now :: ops => lastCommitted (q.prune now) t ops

/-- `latest` returns the stored entries from the last committed one on. -/
def LatestExact (q : LogQueue) (committed : Option Int) : Prop :=
  q.latest = .ok (q.logs.filter fun e => ∀ t ∈ committed, t ≤ e.stamp)

/-- All of it, in a queue whose last committed entry has the timestamp `committed`. -/
def PruningExact (q : LogQueue) (committed : Option Int) (now : Nat) : Prop :=
  q.PrunesExactly now ∧ q.KeepsFound now ∧ q.UnknownNotFound ∧ q.LatestExact committed

/-! ## 2. Unknown ids -/

/-- There is always an id that is not stored. -/
theorem exists_unknown (es : List Entry) : ∃ id, ∀ e ∈ es, e.entryId ≠ id := by
  induction es with
  | nil => exact ⟨0, fun e he => absurd he List.not_mem_nil⟩
  | cons e es _ =>
    obtain ⟨bound, hbound⟩ : ∃ bound, ∀ x ∈ e :: es, x.entryId < bound := by
      generalize e :: es = l
      induction l with
      | nil => exact ⟨0, fun x hx => absurd hx List.not_mem_nil⟩
      | cons y l ih =>
        obtain ⟨bound, hbound⟩ := ih
        refine ⟨max bound (y.entryId + 1), fun x hx => ?_⟩
        rcases List.mem_cons.mp hx with rfl | hx
        · omega
        · have := hbound x hx
          omega
    exact ⟨bound, fun x hx => ne_of_lt (hbound x hx)⟩

/-- `get` returns `None` for no id but from an empty queue. -/
theorem get_ne_none {q : LogQueue} (h : ¬ q.size < 1) (id : Int) : q.get id ≠ .ok none := by
  unfold get
  dsimp only
  rw [if_neg h]
  split <;> simp

/-- **Unknown ids are not found exactly in an empty queue.** -/
theorem Synced.unknownNotFound_iff {q : LogQueue} (h : Synced q) :
    q.UnknownNotFound ↔ q.logs = [] := by
  constructor
  · intro hnone
    by_contra hne
    obtain ⟨id, hid⟩ := exists_unknown q.logs
    exact get_ne_none (fun hs => hne (h.logs_eq_nil_iff.mpr hs)) id (hnone id hid)
  · intro hnil id _
    unfold get
    dsimp only
    rw [if_pos (h.logs_eq_nil_iff.mp hnil)]

/-! ## 3. What `prune` cuts off -/

theorem Rep.synced {q : LogQueue} (h : Rep q) : Synced q := h.indexed.synced

theorem Rep.logs_increasing {q : LogQueue} (h : Rep q) :
    q.logs.Pairwise fun x y => x.stamp < y.stamp := by
  have hinc := h.increasing
  rw [h.synced.timestamps_eq, List.pairwise_map] at hinc
  exact hinc

theorem pruneCount_le_size {q : LogQueue} (h : Synced q) (now : Nat) : q.pruneCount now ≤ q.size := by
  have hfilter : (q.timestamps.filter fun t =>
      q.pruneMaxAge < ((now - t : Int) : ℚ)).length ≤ q.timestamps.length :=
    List.length_filter_le _ _
  rw [h.length_timestamps, ← h.size_eq] at hfilter
  unfold pruneCount
  dsimp only
  split
  · omega
  · exact hfilter

/-- `prune` cuts `pruneCount` entries off at the front. -/
theorem logs_prune {q : LogQueue} (h : Synced q) (now : Nat) :
    (q.prune now).logs = q.logs.drop (q.pruneCount now) := by
  unfold prune
  dsimp only
  split
  · rename_i hall
    rw [h.size_eq] at hall
    exact (List.drop_eq_nil_of_le hall).symm
  · rfl

/-- **The entries that are cut are the right ones** exactly if there are as many of them as there
should be. -/
theorem Rep.prunesExactly_iff {q : LogQueue} (h : Rep q) (now : Nat) : q.PrunesExactly now ↔
    q.pruneCount now = min (q.logs.countP (q.expired now)) q.pruneMaxCount := by
  have hle := pruneCount_le_size h.synced now
  rw [h.synced.size_eq] at hle
  have hlogs := logs_prune h.synced now
  unfold PrunesExactly
  rw [hlogs]
  constructor
  · rintro ⟨removed, hperm, -, -, -, hlen⟩
    have htotal := hperm.length_eq
    rw [List.length_append, List.length_drop] at htotal
    omega
  · intro hcount
    have hsorted := h.logs_increasing
    refine ⟨q.logs.take (q.pruneCount now), ?_, List.drop_sublist _ _, ?_, ?_, ?_⟩
    · rw [List.take_append_drop]
    · -- older entries stand first, so the expired ones are a prefix
      have hpre : q.logs.take (q.logs.countP (q.expired now)) =
          q.logs.filter (q.expired now) := by
        refine take_countP_eq_filter_iff.mpr (hsorted.imp ?_)
        intro a b hab hb
        unfold expired at hb ⊢
        rw [decide_eq_true_eq] at hb ⊢
        have hstamp : ((now - b.stamp : Int) : ℚ) ≤ ((now - a.stamp : Int) : ℚ) := by
          exact_mod_cast (by omega : (now : Int) - b.stamp ≤ now - a.stamp)
        exact lt_of_lt_of_le hb hstamp
      intro r hr
      have hfew : q.pruneCount now ≤ q.logs.countP (q.expired now) := by omega
      have hmem : r ∈ q.logs.take (q.logs.countP (q.expired now)) :=
        List.take_subset_take_left _ hfew hr
      rw [hpre] at hmem
      exact (List.mem_filter.mp hmem).2
    · intro r hr e he
      rw [← List.take_append_drop (q.pruneCount now) q.logs] at hsorted
      exact le_of_lt ((List.pairwise_append.mp hsorted).2.2 r hr e he)
    · rw [List.length_take_of_le hle]
      exact hcount

/-! ## 4. What is found -/

/-- With an exact index and no millisecond twice, every stored entry is found. -/
theorem Rep.get_of_mem {q : LogQueue} (h : Rep q) {e : Entry} (he : e ∈ q.logs) :
    q.get e.entryId = .ok (some e) := by
  obtain ⟨i, hi⟩ := List.mem_iff_getElem?.mp he
  have hstamp : q.timestamps[i]? = some e.stamp := by
    rw [h.timestamp_at, hi]
    rfl
  have hindex : q.timestampIndexMap.get? (Snowflake.parse e.entryId).timestamp = some i :=
    (h.index e.stamp i).mpr hstamp
  have hsize : ¬ q.size < 1 := fun hs =>
    List.ne_nil_of_mem he (h.synced.logs_eq_nil_iff.mpr hs)
  unfold get
  simp only [hindex, if_neg hsize, hi]

/-- The first entry that is kept is still filed under its old position. -/
theorem Rep.not_keepsFound {q : LogQueue} (h : Rep q) {now : Nat} (hpos : q.pruneCount now ≠ 0)
    (hlt : q.pruneCount now < q.size) : ¬ q.KeepsFound now := by
  intro hkeep
  have hlen : q.pruneCount now < q.logs.length := h.synced.size_eq ▸ hlt
  have hget : q.logs[q.pruneCount now]? = some q.logs[q.pruneCount now] :=
    List.getElem?_eq_getElem hlen
  generalize q.logs[q.pruneCount now] = e at hget
  have hfirst : (q.prune now).logs[0]? = some e := by
    rw [logs_prune h.synced, List.getElem?_drop, Nat.add_zero, hget]
  have hstamp : q.timestamps[q.pruneCount now]? = some e.stamp := by
    rw [h.timestamp_at, hget]
    rfl
  have hnot : e.stamp ∉ q.timestamps.take (q.pruneCount now) := by
    intro hm
    have hdrop : e.stamp ∈ q.timestamps.drop (q.pruneCount now) := by
      refine List.mem_of_getElem? (i := 0) ?_
      rw [List.getElem?_drop, Nat.add_zero, hstamp]
    have hn := nodup_of_increasing h.increasing
    rw [← List.take_append_drop (q.pruneCount now) q.timestamps] at hn
    exact List.disjoint_of_nodup_append hn hm hdrop
  have hindex : (q.prune now).timestampIndexMap.get? (Snowflake.parse e.entryId).timestamp =
      some (q.pruneCount now) := by
    unfold prune
    dsimp only
    rw [if_neg (by omega)]
    change ((q.timestamps.take (q.pruneCount now)).foldl forget q.timestampIndexMap).get? e.stamp =
      _
    rw [get?_foldl_forget_of_not_mem hnot]
    exact (h.index _ _).mpr hstamp
  have hfound := hkeep e (List.mem_of_getElem? hfirst)
  -- there stands an entry from further behind, or none
  have hsize : ¬ (q.prune now).size < 1 := fun hs => by
    have hnil := (h.synced.prune now).logs_eq_nil_iff.mpr hs
    rw [hnil] at hfirst
    cases hfirst
  unfold get at hfound
  simp only [hindex, if_neg hsize] at hfound
  have hat : (q.prune now).logs[q.pruneCount now]? = some e := by
    split at hfound
    · rename_i x hx
      rw [hx, Option.some.inj (Except.ok.inj hfound)]
    · cases hfound
  rw [logs_prune h.synced, List.getElem?_drop] at hat
  have hstamp' : q.timestamps[q.pruneCount now + q.pruneCount now]? = some e.stamp := by
    rw [h.timestamp_at, hat]
    rfl
  have hsame := (h.index _ _).mpr hstamp'
  rw [(h.index _ _).mpr hstamp] at hsame
  have := Option.some.inj hsame
  omega

/-- **What is kept is found** exactly if nothing is cut, or everything. -/
theorem Rep.keepsFound_iff {q : LogQueue} (h : Rep q) (now : Nat) :
    q.KeepsFound now ↔ q.pruneCount now = 0 ∨ q.size ≤ q.pruneCount now := by
  constructor
  · intro hkeep
    by_contra hnot
    obtain ⟨hpos, hlt⟩ := not_or.mp hnot
    exact h.not_keepsFound hpos (not_le.mp hlt) hkeep
  · intro hclean e he
    exact ((h.prune_iff now).mpr hclean).get_of_mem he

/-! ## 5. The last committed entry -/

/-- A queue in a run of clean calls, whose last committed entry has the timestamp `committed`: what
is left of the commits increases, ends with it, and is stored. -/
structure Committed (q : LogQueue) (committed : Option Int) : Prop where
  rep : Rep q
  increasing : q.commits.Pairwise (· ≤ ·)
  last : ∀ t, q.commits.getLast? = some t → committed = some t ∧ t ∈ q.timestamps

theorem commits_insertEntry (q : LogQueue) (e : Entry) :
    (q.insertEntry e).1.commits = q.commits := by
  unfold insertEntry insertMissing replaceAt
  dsimp only
  split
  · split <;> rfl
  · split
    · rfl
    · split
      · rfl
      · split
        · split <;> rfl
        · rfl

theorem commits_insertEntries (es : List Entry) (q : LogQueue) :
    (q.insertEntries es).1.commits = q.commits := by
  induction es generalizing q with
  | nil => rfl
  | cons e es ih =>
    have hone := commits_insertEntry q e
    rw [insertEntries]
    split
    · rename_i q' heq
      rw [heq] at hone
      exact (ih q').trans hone
    · rename_i q' err heq
      rw [heq] at hone
      exact hone

theorem commits_appendAll (es : List Entry) (q : LogQueue) (idx : Nat) :
    (q.appendAll idx es).commits = q.commits := by
  induction es generalizing q idx with
  | nil => rfl
  | cons e es ih => exact ih (q.appendAt idx e) (idx + 1)

/-- `update` leaves the commits as they are. -/
theorem commits_update (q : LogQueue) (es : List Entry) : (q.update es).1.commits = q.commits := by
  rcases update_cases q es with ⟨-, hu⟩ | ⟨last, -, ⟨-, hu⟩ | ⟨-, hu⟩⟩
  · rw [hu]
  · rw [hu]
  · rw [hu, file]
    split
    · exact commits_appendAll es _ 0
    · exact commits_insertEntries es _

/-- In a list that increases the last of what a bound leaves is the last. -/
theorem getLast?_filter_of_increasing {l : List Int} (h : l.Pairwise (· ≤ ·)) {bound t : Int}
    (ht : (l.filter fun c => bound < c).getLast? = some t) : l.getLast? = some t := by
  obtain rfl | ⟨ys, y, rfl⟩ := List.eq_nil_or_concat' l
  · cases ht
  · have hmem := List.mem_filter.mp (List.mem_of_getLast? ht)
    have hle : t ≤ y := by
      rcases List.mem_append.mp hmem.1 with hys | hy
      · exact (List.pairwise_append.mp h).2.2 t hys y List.mem_cons_self
      · exact le_of_eq (List.mem_singleton.mp hy)
    have hlt : bound < y := lt_of_lt_of_le (by simpa using hmem.2) hle
    rw [List.filter_append, List.filter_cons_of_pos (by simpa using hlt), List.filter_nil,
      List.getLast?_append_of_ne_nil _ (by simp)] at ht
    rw [List.getLast?_append_of_ne_nil _ (by simp)]
    exact ht

namespace Committed

variable {q : LogQueue} {committed : Option Int}

theorem update (h : Committed q committed) {es : List Entry} (hc : q.Clean (.update es)) :
    Committed (q.update es).1 committed := by
  refine ⟨(h.rep.apply_iff (.update es)).mpr hc, ?_, ?_⟩
  · rw [commits_update]
    exact h.increasing
  · intro t ht
    rw [commits_update] at ht
    obtain ⟨hlast, hmem⟩ := h.last t ht
    exact ⟨hlast, (h.rep.synced.update_sublist es).subset hmem⟩

theorem commit (h : Committed q committed) :
    Committed q.commit (q.timestamps.getLast?.or committed) := by
  unfold LogQueue.commit
  cases ht : q.timestamps.getLast? with
  | none => exact h
  | some t =>
    refine ⟨⟨h.rep.1, h.rep.2, h.rep.3, h.rep.4, h.rep.5⟩, ?_, ?_⟩
    · refine List.pairwise_append.mpr ⟨h.increasing, List.pairwise_singleton _ _, ?_⟩
      intro c hc x hx
      rw [List.mem_singleton.mp hx]
      -- the last commit is stored, and no stored timestamp is above the newest one
      cases hlast : q.commits.getLast? with
      | none => exact absurd (List.getLast?_eq_none_iff.mp hlast) (List.ne_nil_of_mem hc)
      | some u =>
        have hcu : c ≤ u := by
          obtain ⟨ys, hys⟩ := List.getLast?_eq_some_iff.mp hlast
          have hinc := h.increasing
          rw [hys] at hc hinc
          rcases List.mem_append.mp hc with hc | hc
          · exact (List.pairwise_append.mp hinc).2.2 c hc u List.mem_cons_self
          · exact le_of_eq (List.mem_singleton.mp hc)
        have hut := h.rep.synced.le_lastTimestamp h.rep.increasing (h.last u hlast).2
        rw [lastTimestamp, ht, Option.getD_some] at hut
        exact le_trans hcu hut
    · intro u hu
      have hut : t = u := by simpa using hu
      subst hut
      exact ⟨rfl, List.mem_of_getLast? ht⟩

theorem prune (h : Committed q committed) {now : Nat} (hc : q.Clean (.prune now)) :
    Committed (q.prune now) committed := by
  have hrep := (h.rep.prune_iff now).mpr hc
  by_cases hall : q.pruneCount now ≥ q.size
  · have hcommits : (q.prune now).commits = [] := by
      unfold LogQueue.prune
      dsimp only
      rw [if_pos hall]
    refine ⟨hrep, ?_, ?_⟩
    · rw [hcommits]
      exact List.Pairwise.nil
    · intro t ht
      rw [hcommits] at ht
      cases ht
  · have hzero : q.pruneCount now = 0 := hc.resolve_right hall
    have hts : (q.prune now).timestamps = q.timestamps := by
      unfold LogQueue.prune
      dsimp only
      rw [if_neg hall, hzero]
      rfl
    obtain ⟨bound, hcommits⟩ : ∃ bound, (q.prune now).commits =
        q.commits.filter fun c => bound < c := by
      unfold LogQueue.prune
      dsimp only
      rw [if_neg hall]
      exact ⟨_, rfl⟩
    refine ⟨hrep, ?_, ?_⟩
    · rw [hcommits]
      exact h.increasing.filter _
    · intro t ht
      rw [hcommits] at ht
      rw [hts]
      exact h.last t (getLast?_filter_of_increasing h.increasing ht)

/-- **After clean calls** the commits are as they should be. -/
theorem along : ∀ (ops : List Op) {q q' : LogQueue} {committed : Option Int},
    Committed q committed → Along step (fun q op _ => q.Clean op) q ops →
      run step q ops = some q' → Committed q' (q.lastCommitted committed ops) := by
  intro ops
  induction ops with
  | nil =>
    intro q q' committed h _ hrun
    rw [run_nil, Option.some.injEq] at hrun
    exact hrun ▸ h
  | cons op ops ih =>
    intro q q' committed h hclean hrun
    obtain ⟨t, ht, hrun⟩ := run_cons_eq_some.mp hrun
    obtain ⟨hop, hrest⟩ := hclean t ht
    rw [step, Option.some.injEq] at ht
    subst ht
    cases op with
    | update es => exact ih (h.update hop) hrest hrun
    | commit => exact ih h.commit hrest hrun
    | prune now => exact ih (h.prune hop) hrest hrun

/-- The entries from a stored one on. -/
theorem filter_eq_drop (h : Rep q) {t : Int} {i : Nat} (hi : q.timestamps[i]? = some t) :
    (q.logs.filter fun e => t ≤ e.stamp) = q.logs.drop i := by
  have hinc := h.increasing
  have hlen := (List.getElem?_eq_some_iff.mp hi).1
  rw [← List.take_append_drop i q.timestamps] at hinc
  have hcons : q.timestamps.drop i = t :: q.timestamps.drop (i + 1) := by
    rw [List.drop_eq_getElem_cons hlen, (List.getElem?_eq_some_iff.mp hi).2]
  obtain ⟨-, hdrop, hcross⟩ := List.pairwise_append.mp hinc
  rw [hcons] at hdrop hcross
  have hbefore : ∀ e ∈ q.logs.take i, ¬ t ≤ e.stamp := by
    intro e he
    have hmem : e.stamp ∈ q.timestamps.take i := by
      rw [h.synced.timestamps_eq, ← List.map_take]
      exact List.mem_map_of_mem he
    exact not_le.mpr (hcross _ hmem t List.mem_cons_self)
  have hafter : ∀ e ∈ q.logs.drop i, t ≤ e.stamp := by
    intro e he
    have hmem : e.stamp ∈ q.timestamps.drop i := by
      rw [h.synced.timestamps_eq, ← List.map_drop]
      exact List.mem_map_of_mem he
    rw [hcons] at hmem
    rcases List.mem_cons.mp hmem with heq | hmem
    · exact le_of_eq heq.symm
    · exact le_of_lt ((List.pairwise_cons.mp hdrop).1 _ hmem)
  conv_lhs => rw [← List.take_append_drop i q.logs]
  rw [List.filter_append, List.filter_eq_nil_iff.mpr fun e he => by simpa using hbefore e he,
    List.filter_eq_self.mpr fun e he => by simpa using hafter e he, List.nil_append]

/-- **`latest` is exact** unless nothing is left of the commits and an entry from before the last
one is stored. -/
theorem latestExact_iff (h : Committed q committed) : q.LatestExact committed ↔
    (q.commits = [] → ∀ t ∈ committed, ∀ e ∈ q.logs, t ≤ e.stamp) := by
  unfold LatestExact latest
  cases hlast : q.commits.getLast? with
  | none =>
    have hnil := List.getLast?_eq_none_iff.mp hlast
    have hself : (Except.ok q.logs : Except PyError (List Entry)) =
        .ok (q.logs.filter fun e => ∀ t ∈ committed, t ≤ e.stamp) ↔
          ∀ e ∈ q.logs, ∀ t ∈ committed, t ≤ e.stamp := by
      rw [Except.ok.injEq, eq_comm, List.filter_eq_self]
      simp
    rw [hself]
    exact ⟨fun hall _ t ht e he => hall e he t ht, fun hall e he t ht => hall hnil t ht e he⟩
  | some t =>
    obtain ⟨rfl, hmem⟩ := h.last t hlast
    obtain ⟨i, hi⟩ := h.rep.indexed.index.exists_get? hmem
    have hdrop := filter_eq_drop h.rep ((h.rep.index t i).mp hi)
    refine iff_of_true ?_ fun hnil => ?_
    · dsimp only
      rw [hi]
      change Except.ok (q.logs.drop i) = _
      rw [← hdrop]
      simp
    · rw [hnil] at hlast
      cases hlast

end Committed

/-! ## 6. Runs of calls -/

/-- What every queue that can arise satisfies: an empty one has no commits. -/
def Settled (q : LogQueue) : Prop := Synced q ∧ (q.logs = [] → q.commits = [])

theorem Settled.step {q q' : LogQueue} {op : Op} (h : Settled q) (hs : q.step op = some q') :
    Settled q' := by
  rw [LogQueue.step, Option.some.injEq] at hs
  subst hs
  refine ⟨h.1.apply op, fun hnil => ?_⟩
  cases op with
  | update es =>
    have hts : (q.update es).1.timestamps = [] := by
      rw [(h.1.update es).timestamps_eq]
      exact List.map_eq_nil_iff.mpr hnil
    have hbefore : q.timestamps = [] := by
      have hsub := h.1.update_sublist es
      rw [hts] at hsub
      exact List.sublist_nil.mp hsub
    rw [h.1.timestamps_eq, List.map_eq_nil_iff] at hbefore
    exact (commits_update q es).trans (h.2 hbefore)
  | commit =>
    change q.commit.commits = []
    have hlogs : q.logs = [] := by
      unfold apply LogQueue.commit at hnil
      dsimp only at hnil
      split at hnil <;> exact hnil
    have hts : q.timestamps = [] := by
      rw [h.1.timestamps_eq, hlogs]
      rfl
    unfold LogQueue.commit
    rw [hts]
    exact h.2 hlogs
  | prune now =>
    change (q.prune now).logs = [] at hnil
    rw [logs_prune h.1, List.drop_eq_nil_iff, ← h.1.size_eq] at hnil
    change (q.prune now).commits = []
    unfold LogQueue.prune
    dsimp only
    rw [if_pos hnil]

theorem settled_of_run {maxAge : ℚ} {maxCount : Nat} {ops : List Op} {q : LogQueue}
    (hrun : run step (empty maxAge maxCount) ops = some q) : Settled q :=
  invariant_of_run (fun _ _ _ h hs => Settled.step h hs)
    ⟨synced_empty maxAge maxCount, fun _ => rfl⟩ hrun

theorem committed_empty (maxAge : ℚ) (maxCount : Nat) :
    Committed (empty maxAge maxCount) none :=
  ⟨rep_empty maxAge maxCount, List.Pairwise.nil, fun _ ht => by cases ht⟩

/-- An empty queue is as it should be. -/
theorem Settled.pruningExact {q : LogQueue} (h : Settled q) (hnil : q.logs = [])
    (committed : Option Int) (now : Nat) : q.PruningExact committed now := by
  have hlogs : (q.prune now).logs = [] := by rw [logs_prune h.1, hnil, List.drop_nil]
  refine ⟨⟨[], ?_, ?_, ?_, ?_, ?_⟩, ?_, h.1.unknownNotFound_iff.mpr hnil, ?_⟩
  · rw [hlogs, hnil]
    exact List.Perm.refl _
  · rw [hlogs]
    exact List.nil_sublist _
  · exact fun r hr => absurd hr List.not_mem_nil
  · exact fun r hr => absurd hr List.not_mem_nil
  · rw [hnil]
    simp
  · intro e he
    rw [hlogs] at he
    exact absurd he List.not_mem_nil
  · unfold LatestExact latest
    rw [h.2 hnil, hnil]
    rfl

/-- **When pruning is exact**, in a queue that any calls have led to: as a whole only while the
queue is empty, since no unknown id is told from the last entry's otherwise.  Of the other parts,
after clean calls: what is cut is right if as many entries are cut as have reached the age in
seconds; what is kept is found if nothing or everything is cut; and `latest` is right unless there
is nothing left of the commits and an entry from before the last one is stored. -/
theorem pruningExact_iff {maxAge : ℚ} {maxCount : Nat} {ops : List Op} {q : LogQueue}
    (hrun : run step (empty maxAge maxCount) ops = some q) :
    (∀ now, q.PruningExact ((empty maxAge maxCount).lastCommitted none ops) now ↔ q.logs = []) ∧
      (q.UnknownNotFound ↔ q.logs = []) ∧
      (Along step (fun q op _ => q.Clean op) (empty maxAge maxCount) ops →
        (∀ now, q.PrunesExactly now ↔
          q.pruneCount now = min (q.logs.countP (q.expired now)) q.pruneMaxCount) ∧
        (∀ now, q.KeepsFound now ↔ q.pruneCount now = 0 ∨ q.size ≤ q.pruneCount now) ∧
        (q.LatestExact ((empty maxAge maxCount).lastCommitted none ops) ↔
          (q.commits = [] → ∀ t ∈ (empty maxAge maxCount).lastCommitted none ops,
            ∀ e ∈ q.logs, t ≤ e.stamp))) := by
  have hsettled := settled_of_run hrun
  refine ⟨fun now => ⟨?_, ?_⟩, hsettled.1.unknownNotFound_iff, fun hclean => ?_⟩
  · exact fun hexact => hsettled.1.unknownNotFound_iff.mp hexact.2.2.1
  · exact fun hnil => hsettled.pruningExact hnil _ now
  · have hcommitted := (committed_empty maxAge maxCount).along ops hclean hrun
    exact ⟨hcommitted.rep.prunesExactly_iff, hcommitted.rep.keepsFound_iff,
      hcommitted.latestExact_iff⟩

/-- Two entries that are four seconds apart. -/
def twoEntries : List Op := [.update [entryAt 1000 0, entryAt 5000 0], .commit]

theorem clean_twoEntries :
    Along step (fun q op _ => q.Clean op) (empty 3600 1000) twoEntries := by
  refine fun q hq => ⟨fun last _ => Or.inr ?_, fun q' _ => ⟨trivial, trivial⟩⟩
  change List.Pairwise (· < ·) [(1000 : Int), 5000]
  decide

/-- A second after the second one nothing is due, but the first one is cut, and the second is not
found any more. -/
theorem pruningExact_iff_two : ∃ q, run step (empty 3600 1000) twoEntries = some q ∧
    ¬ q.UnknownNotFound ∧ ¬ q.PrunesExactly 6000 ∧ ¬ q.KeepsFound 6000 := by
  refine ⟨_, rfl, ?_, ?_, ?_⟩
  · exact fun h => absurd ((@pruningExact_iff 3600 1000 twoEntries _ rfl).2.1.mp h) (by decide)
  · exact fun h => absurd (((pruningExact_iff rfl).2.2 clean_twoEntries).1 6000 |>.mp h)
      (by decide +kernel)
  · exact fun h => absurd (((pruningExact_iff rfl).2.2 clean_twoEntries).2.1 6000 |>.mp h)
      (by decide +kernel)

/-- Asked for an id that is not stored, `get` returns the last entry. -/
theorem not_pruningExact : ¬ ∀ (ops : List Op) (q : LogQueue) (now : Nat),
    run step (empty 3600 1000) ops = some q →
      q.PruningExact ((empty 3600 1000).lastCommitted none ops) now := by
  intro h
  have hexact := h twoEntries _ 6000 rfl
  have hnone := hexact.2.2.1 0 (by decide)
  cases hnone

end LogQueue
end Hedra
