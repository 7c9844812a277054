/-
# Redelivery and reordering of batches

A leader (`distributed/replication/replication_controller.py`) sends everything since its last
commit again, so a follower receives overlapping batches, and the network reorders them.
`harmless_iff` says when that does no harm: when delivering the batches as they came ends with the
log that delivering each of them once, in timestamp order, ends with.

The argument goes through a small abstract model.  A `View` of a queue is what decides
whether the next entry of a batch goes where it belongs: which timestamps are stored, which
one is the newest, and which of the records are unusable.  `Shows` connects it to the queue,
and `Shows.turn` is the simulation step.  Two queues with increasing timestamps hold the same
logs exactly if every timestamp was last written by the same entry.
-/
import Mathlib.Data.List.Dedup
import Mathlib.Data.List.Sort
import Hedra.Lib.LastWrite
import Hedra.Replication.LogQueueRep

namespace Hedra
namespace LogQueue

open Lib Lib.Machine

/-! ## 1. Deliveries -/

/-- Apply `update` to each batch in turn, as long as no call raises. -/
def deliver (q : LogQueue) : List (List Entry) → Option LogQueue
  | [] => some q
  | b :: bs =>
    match q.update b with
    | (_, .raised _) => none
    | (q', _) => q'.deliver bs

/-- The timestamp of a batch is the one of its last entry. -/
def batchStamp (b : List Entry) : Int := (b.getLast?.map Entry.stamp).getD 0

/-- Each batch once, in timestamp order. -/
def inTimestampOrder (batches : List (List Entry)) : List (List Entry) :=
  batches.dedup.insertionSort fun a b => batchStamp a ≤ batchStamp b

/-- No call raises, and the logs end increasing and the same as after delivering each batch
once in timestamp order. -/
def Harmless (q : LogQueue) (batches : List (List Entry)) : Prop :=
  ∃ q₁ q₂, q.deliver batches = some q₁ ∧ q.deliver (inTimestampOrder batches) = some q₂ ∧
    q₁.logs = q₂.logs ∧ q₁.timestamps.Pairwise (· < ·)

/-! ## 2. Views -/

/-- What decides whether a write goes where it belongs.  `unrecorded` are the stored
timestamps without a record, and the queue is `loose` when its newest timestamp has no record
of a stored position: both are left behind by a `prune` that cuts a part of the queue. -/
structure View where
  stored : List Int
  newest : Int
  unrecorded : List Int
  loose : Bool

namespace View

/-- A write under `t` goes where it belongs: a timestamp that is not stored yet, with nothing
unrecorded behind it, or the newest one again. -/
def Allows (v : View) (t : Int) : Prop :=
  if t < v.newest then t ∉ v.stored ∧ ∀ u ∈ v.unrecorded, u < t
  else t = v.newest → v.loose = false

/-- The view after such a write. -/
def write (v : View) (t : Int) : View where
  stored := v.stored ++ [t]
  newest := max v.newest t
  unrecorded := v.unrecorded
  loose := v.loose && decide (t ≤ v.newest)

/-- Each write of a sequence goes where it belongs. -/
def AllowsAll (v : View) : List Int → Prop
  | [] => True
  | t :: ts => v.Allows t ∧ (v.write t).AllowsAll ts

/-- The view after a batch into an empty queue. -/
def ofBatch (b : List Entry) : View where
  stored := b.map Entry.stamp
  newest := batchStamp b
  unrecorded := []
  loose := false

instance (v : View) (t : Int) : Decidable (v.Allows t) := by
  unfold Allows
  infer_instance

instance decidableAllowsAll : ∀ (v : View) (ts : List Int), Decidable (v.AllowsAll ts)
  | _, [] => isTrue trivial
  | v, t :: ts =>
    have := decidableAllowsAll (v.write t) ts
    inferInstanceAs (Decidable (v.Allows t ∧ (v.write t).AllowsAll ts))

theorem allowsAll_append (v : View) :
    ∀ (ts us : List Int),
      v.AllowsAll (ts ++ us) ↔ v.AllowsAll ts ∧ (ts.foldl write v).AllowsAll us
  | [], us => by simp [AllowsAll]
  | t :: ts, us => by
    rw [List.cons_append, AllowsAll, AllowsAll, allowsAll_append (v.write t) ts us, and_assoc,
      List.foldl_cons]

end View

/-- The view of a queue. -/
def view (q : LogQueue) : View where
  stored := q.timestamps
  newest := q.lastTimestamp
  unrecorded := q.timestamps.filter fun t => q.timestampIndexMap.get? t = none
  loose :=
    match q.timestampIndexMap.get? q.lastTimestamp with
    | some i => decide (q.logs.length ≤ i)
    | none => true

/-- `q` looks like `v`. -/
structure Shows (q : LogQueue) (v : View) : Prop where
  stored : ∀ t, t ∈ q.timestamps ↔ t ∈ v.stored
  newest : q.lastTimestamp = v.newest
  unrecorded : ∀ t, t ∈ v.unrecorded ↔ t ∈ q.timestamps ∧ q.timestampIndexMap.get? t = none
  loose : v.loose = true ↔
    ∀ i, q.timestampIndexMap.get? q.lastTimestamp = some i → q.logs.length ≤ i

theorem shows_view (q : LogQueue) : q.Shows q.view where
  stored _ := Iff.rfl
  newest := rfl
  unrecorded t := by simp [view]
  loose := by
    cases h : q.timestampIndexMap.get? q.lastTimestamp <;> simp [view, h]

/-! ## 3. One write -/

namespace Turn

variable {q q' : LogQueue} {e : Entry}

/-- A write that goes where it belongs leaves the same timestamps without a record. -/
theorem unrecorded_iff (ht : Turn q e q' none) (hq : Synced q) (hne : q.logs ≠ [])
    (htimely : e.stamp ∈ q.timestamps → e.stamp = q.lastTimestamp) (t : Int) :
    t ∈ q'.timestamps ∧ q'.timestampIndexMap.get? t = none ↔
      t ∈ q.timestamps ∧ q.timestampIndexMap.get? t = none := by
  rw [ht.mem_timestamps hq hne]
  cases ht with
  | inserted i m hi hpos =>
    have hlast : e.stamp ≠ q.lastTimestamp := by
      rcases hpos with ⟨hlt, -, -⟩ | ⟨hgt, -, -⟩ <;> omega
    have hset : (q.timestampIndexMap.set e.stamp i).get? t = none ↔
        t ≠ e.stamp ∧ q.timestampIndexMap.get? t = none := by
      rw [Dict.get?_set]
      by_cases hte : t = e.stamp <;> simp [hte]
    have hget : m.get? t = none ↔ t ≠ e.stamp ∧ q.timestampIndexMap.get? t = none := by
      rcases hpos with ⟨-, -, hs⟩ | ⟨-, -, rfl⟩
      · rw [(shift_done hs).2 t, Option.map_eq_none_iff, hset]
      · exact hset
    change (t ∈ q.timestamps ∨ t = e.stamp) ∧ m.get? t = none ↔ _
    rw [hget]
    constructor
    · rintro ⟨hm, hte, hnone⟩
      exact ⟨hm.resolve_right hte, hnone⟩
    · rintro ⟨hm, hnone⟩
      exact ⟨Or.inl hm, fun he => mt htimely hlast (he ▸ hm), hnone⟩
  | replaced heq =>
    refine and_congr_left' ⟨fun ht => ht.elim id ?_, Or.inl⟩
    rintro rfl
    exact heq ▸ hq.lastTimestamp_mem hne

/-- After a write the record of the newest timestamp is unusable if it was before, and the
write was not behind it. -/
theorem loose_iff (ht : Turn q e q' none) (hq : Synced q) (hne : q.logs ≠ [])
    (hinc : q.timestamps.Pairwise (· < ·)) :
    (∀ j, q'.timestampIndexMap.get? q'.lastTimestamp = some j → q'.logs.length ≤ j) ↔
      (∀ j, q.timestampIndexMap.get? q.lastTimestamp = some j → q.logs.length ≤ j) ∧
        e.stamp ≤ q.lastTimestamp := by
  have hnewest := ht.lastTimestamp hq hne
  cases ht with
  | inserted i m hi hpos =>
    have hlength : (q.logs.take i ++ e :: q.logs.drop i).length = q.logs.length + 1 := by
      rw [List.length_append, List.length_cons, List.length_take_of_le hi, List.length_drop]
      omega
    change (∀ j, m.get? _ = some j → (q.logs.take i ++ e :: q.logs.drop i).length ≤ j) ↔ _
    rw [hlength, hnewest]
    rcases hpos with ⟨hlt, rfl, hs⟩ | ⟨hgt, rfl, rfl⟩
    · -- the record of the newest timestamp moves up with the length
      have hbehind := mem_drop_insertIndex hinc (hq.lastTimestamp_mem hne) (le_of_lt hlt)
      have hone := List.count_eq_one_of_mem
        ((nodup_of_increasing hinc).sublist (List.drop_sublist _ _)) hbehind
      rw [max_eq_left (le_of_lt hlt), (shift_done hs).2, Dict.get?_set_ne _ _ (ne_of_gt hlt), hone]
      cases hget : q.timestampIndexMap.get? q.lastTimestamp with
      | none => simp [le_of_lt hlt]
      | some k => simp [le_of_lt hlt]
    · rw [max_eq_right (le_of_lt hgt), Dict.get?_set_self]
      simp [hgt]
  | replaced heq =>
    have hlength : (q.logs.dropLast ++ [e]).length = q.logs.length := by
      have := List.length_pos_iff.mpr hne
      rw [List.length_append, List.length_dropLast, List.length_singleton]
      omega
    change (∀ j, q.timestampIndexMap.get? _ = some j → (q.logs.dropLast ++ [e]).length ≤ j) ↔ _
    rw [hlength, hnewest, heq, max_self]
    simp

/-- After a write that goes where it belongs its timestamp reads as the entry, and all others
as before. -/
theorem lastWith_eq (ht : Turn q e q' none) (hq : Synced q) (hne : q.logs ≠ [])
    (htimely : e.stamp ∈ q.timestamps → e.stamp = q.lastTimestamp) (t : Int) :
    lastWith Entry.stamp q'.logs t =
      (if e.stamp = t then some e else none).or (lastWith Entry.stamp q.logs t) := by
  cases ht with
  | inserted i m hi hpos =>
    have hlast : e.stamp ≠ q.lastTimestamp := by
      rcases hpos with ⟨hlt, -, -⟩ | ⟨hgt, -, -⟩ <;> omega
    change lastWith Entry.stamp (q.logs.take i ++ e :: q.logs.drop i) t = _
    conv_rhs => rw [← List.take_append_drop i q.logs]
    rw [lastWith_append, lastWith_append, lastWith_cons]
    by_cases hte : e.stamp = t
    · have hnone : lastWith Entry.stamp (q.logs.drop i) t = none := by
        refine lastWith_eq_none_iff.mpr fun x hx hxt => mt htimely hlast ?_
        rw [hq.timestamps_eq, hte, ← hxt]
        exact List.mem_map_of_mem (List.mem_of_mem_drop hx)
      simp [hnone, hte]
    · simp [hte]
  | replaced heq =>
    obtain ⟨x, hx, hxs⟩ := hq.exists_getLast hne
    change lastWith Entry.stamp (q.logs.dropLast ++ [e]) t = _
    conv_rhs => rw [hx]
    rw [lastWith_append, lastWith_append, lastWith_singleton, lastWith_singleton, hxs, heq]
    by_cases hte : q.lastTimestamp = t <;> simp [hte]

end Turn

namespace Shows

variable {q q' : LogQueue} {v : View} {e : Entry}

/-- **The view knows which writes go where they belong.** -/
theorem allows_iff (h : q.Shows v) (hq : Synced q) (hinc : q.timestamps.Pairwise (· < ·)) :
    v.Allows e.stamp ↔
      ¬ q.WriteFails e ∧ (e.stamp ∈ q.timestamps → e.stamp = q.lastTimestamp) := by
  unfold View.Allows WriteFails
  rw [← h.newest, ← h.stored]
  by_cases hlt : e.stamp < q.lastTimestamp
  · rw [if_pos hlt]
    constructor
    · rintro ⟨hfresh, hbehind⟩
      refine ⟨?_, fun hm => absurd hm hfresh⟩
      rintro (⟨-, u, hu, -, hnone⟩ | ⟨heq, -⟩)
      · have hunrec := (h.unrecorded u).mpr ⟨List.mem_of_mem_drop hu, hnone⟩
        exact absurd (hbehind u hunrec) (not_lt.mpr (le_of_mem_drop_insertIndex hu))
      · omega
    · rintro ⟨hok, htimely⟩
      have hfresh : e.stamp ∉ q.timestamps := mt htimely (ne_of_lt hlt)
      refine ⟨hfresh, fun u hu => not_le.mp fun hle => hok (Or.inl ⟨hlt, u, ?_⟩)⟩
      obtain ⟨hmem, hnone⟩ := (h.unrecorded u).mp hu
      have hne : u ≠ e.stamp := fun heq => hfresh (heq ▸ hmem)
      exact ⟨mem_drop_insertIndex hinc hmem hle, hne, hnone⟩
  · rw [if_neg hlt]
    constructor
    · intro hloose
      refine ⟨?_, fun hm => le_antisymm (hq.le_lastTimestamp hinc hm) (not_lt.mp hlt)⟩
      rintro (⟨hlt', -⟩ | ⟨heq, hall⟩)
      · exact hlt hlt'
      · rw [heq] at hall
        have hl := h.loose.mpr hall
        rw [hloose heq] at hl
        cases hl
    · rintro ⟨hok, -⟩ heq
      refine Bool.eq_false_iff.mpr fun hl => hok (Or.inr ⟨heq, ?_⟩)
      rw [heq]
      exact h.loose.mp hl

/-- **The simulation step**: a write that the view allows leaves a queue that looks like the
view after the write. -/
theorem turn (h : q.Shows v) (hq : Synced q) (hne : q.logs ≠ [])
    (hinc : q.timestamps.Pairwise (· < ·)) (ht : Turn q e q' none) (hv : v.Allows e.stamp) :
    q'.Shows (v.write e.stamp) where
  stored t := by
    rw [ht.mem_timestamps hq hne, h.stored, View.write, List.mem_append, List.mem_singleton]
  newest := by rw [ht.lastTimestamp hq hne, h.newest, View.write]
  unrecorded t := by
    change t ∈ v.unrecorded ↔ _
    rw [h.unrecorded, ht.unrecorded_iff hq hne ((h.allows_iff hq hinc).mp hv).2]
  loose := by
    rw [View.write, Bool.and_eq_true, decide_eq_true_eq, h.loose, ← h.newest,
      ht.loose_iff hq hne hinc]

end Shows

/-! ## 4. Whole batches -/

/-- What the delivery of `es` to `q` leaves when every write goes where it belongs. -/
structure Stored (q : LogQueue) (es : List Entry) (q' : LogQueue) : Prop where
  synced : Synced q'
  ne_nil : q'.logs ≠ []
  increasing : q'.timestamps.Pairwise (· < ·)
  lastWith_eq : ∀ t, lastWith Entry.stamp q'.logs t =
    (lastWith Entry.stamp es t).or (lastWith Entry.stamp q.logs t)

theorem Stored.trans {q q' q'' : LogQueue} {es fs : List Entry} (h : Stored q es q')
    (h' : Stored q' fs q'') : Stored q (es ++ fs) q'' := by
  refine ⟨h'.synced, h'.ne_nil, h'.increasing, fun t => ?_⟩
  rw [h'.lastWith_eq, h.lastWith_eq, lastWith_append, Option.or_assoc]

/-- One write that the view allows goes through and stores the entry. -/
theorem Shows.insertEntry {q : LogQueue} {v : View} (h : q.Shows v) (hq : Synced q)
    (hne : q.logs ≠ []) (hinc : q.timestamps.Pairwise (· < ·)) {e : Entry}
    (hv : v.Allows e.stamp) :
    (q.insertEntry e).2 = none ∧ (q.insertEntry e).1.Shows (v.write e.stamp) ∧
      Stored q [e] (q.insertEntry e).1 := by
  obtain ⟨hturn, hok⟩ := hq.insertEntry_turn hne e
  obtain ⟨hfails, htimely⟩ := (h.allows_iff hq hinc).mp hv
  have hnone := hok.mpr hfails
  rw [hnone] at hturn
  refine ⟨hnone, h.turn hq hne hinc hturn hv, hturn.synced hq hne, hturn.logs_ne_nil hne,
    hturn.increasing hq hinc htimely, fun t => ?_⟩
  rw [hturn.lastWith_eq hq hne htimely, lastWith_singleton]

/-- A write that the view does not allow fails, or stores its timestamp a second time. -/
theorem Shows.not_allows {q : LogQueue} {v : View} (h : q.Shows v) (hq : Synced q)
    (hne : q.logs ≠ []) (hinc : q.timestamps.Pairwise (· < ·)) {e : Entry}
    (hv : ¬ v.Allows e.stamp) (hnone : (q.insertEntry e).2 = none) :
    ¬ (q.insertEntry e).1.timestamps.Nodup := by
  obtain ⟨hturn, hok⟩ := hq.insertEntry_turn hne e
  rw [hnone] at hturn
  have hlate : ¬ (e.stamp ∈ q.timestamps → e.stamp = q.lastTimestamp) := fun htimely =>
    hv ((h.allows_iff hq hinc).mpr ⟨hok.mp hnone, htimely⟩)
  obtain ⟨hmem, hlast⟩ := Classical.not_imp.mp hlate
  exact Indexed.not_nodup_of_turn hturn hmem hlast

/-- **The loop stores the batch if the view allows all of it; otherwise it fails or leaves a
timestamp stored twice.** -/
theorem Shows.insertEntries (es : List Entry) {q : LogQueue} {v : View} (h : q.Shows v)
    (hq : Synced q) (hne : q.logs ≠ []) (hinc : q.timestamps.Pairwise (· < ·)) :
    (v.AllowsAll (es.map Entry.stamp) → (q.insertEntries es).2 = .done ∧
      (q.insertEntries es).1.Shows ((es.map Entry.stamp).foldl View.write v) ∧
      Stored q es (q.insertEntries es).1) ∧
    (¬ v.AllowsAll (es.map Entry.stamp) → (q.insertEntries es).2 = .done →
      ¬ (q.insertEntries es).1.timestamps.Nodup) := by
  induction es generalizing q v with
  | nil =>
    exact ⟨fun _ => ⟨rfl, h, hq, hne, hinc, fun _ => by simp [LogQueue.insertEntries]⟩,
      fun hn => absurd trivial hn⟩
  | cons e es ih =>
    by_cases hv : v.Allows e.stamp
    · obtain ⟨hnone, hshows, hstored⟩ := h.insertEntry hq hne hinc hv
      have heq : q.insertEntries (e :: es) = (q.insertEntry e).1.insertEntries es := by
        rcases hq.insertEntries_cons hne e es with ⟨q', hr, -, -, -, hu⟩ | ⟨q', err, hr, -⟩
        · rw [hu, hr]
        · rw [hr] at hnone
          cases hnone
      obtain ⟨hgood, hbad⟩ :=
        ih hshows hstored.synced hstored.ne_nil hstored.increasing
      rw [heq, List.map_cons, View.AllowsAll, List.foldl_cons]
      constructor
      · rintro ⟨-, hall⟩
        obtain ⟨hdone, hshows', hstored'⟩ := hgood hall
        exact ⟨hdone, hshows', hstored.trans hstored'⟩
      · exact fun hnot => hbad fun hall => hnot ⟨hv, hall⟩
    · refine ⟨fun hall => absurd hall.1 hv, fun _ hdone hn => ?_⟩
      have hdup := h.not_allows hq hne hinc hv
      rcases hq.insertEntries_cons hne e es with ⟨q', hr, -, hq', hne', hu⟩ | ⟨q', err, -, -, hu⟩
      · rw [hr] at hdup
        rw [hu] at hn
        exact hdup rfl (hn.sublist (hq'.insertEntries es hne').2.2.1)
      · rw [hu] at hdone
        cases hdone

/-! ## 5. Sequences of batches -/

/-- An empty batch makes `update` raise. -/
theorem ne_nil_of_deliver {bs : List (List Entry)} {q q' : LogQueue}
    (h : q.deliver bs = some q') : ∀ b ∈ bs, b ≠ [] := by
  induction bs generalizing q with
  | nil => simp
  | cons b bs ih =>
    intro c hc
    unfold deliver at h
    rcases List.mem_cons.mp hc with rfl | hc
    · rintro rfl
      cases h
    · split at h
      · cases h
      · exact ih h c hc

/-- Deliveries never remove a timestamp. -/
theorem deliver_sublist {bs : List (List Entry)} {q q' : LogQueue} (hq : Synced q)
    (h : q.deliver bs = some q') : Synced q' ∧ q.timestamps.Sublist q'.timestamps := by
  induction bs generalizing q with
  | nil =>
    obtain rfl := Option.some.inj h
    exact ⟨hq, List.Sublist.refl _⟩
  | cons b bs ih =>
    have hsync := hq.update b
    have hsub : q.timestamps.Sublist (q.update b).1.timestamps := hq.update_sublist b
    unfold deliver at h
    split at h
    · cases h
    · next q₁ r _ hu =>
      rw [hu] at hsync hsub
      obtain ⟨hsync', hsub'⟩ := ih hsync h
      exact ⟨hsync', hsub.trans hsub'⟩

/-- A batch of a term that is not stale is filed. -/
theorem update_of_term {q : LogQueue} {b : List Entry} {term : Int} (hb : b ≠ [])
    (hterm : ∀ e ∈ b, e.term = term) (hle : q.term ≤ term) :
    q.update b = { q with term := term }.file b := by
  rcases update_cases q b with ⟨he, -⟩ | ⟨last, hlast, ⟨hlt, -⟩ | ⟨-, hu⟩⟩
  · exact absurd he hb
  · rw [hterm last (List.mem_of_getLast? hlast)] at hlt
    omega
  · rw [hu, hterm last (List.mem_of_getLast? hlast)]

/-- The calls of one term, into a queue that is not empty. -/
theorem Shows.deliver {term : Int} (bs : List (List Entry)) {q : LogQueue} {v : View}
    (h : q.Shows v) (hq : Synced q) (hne : q.logs ≠ []) (hinc : q.timestamps.Pairwise (· < ·))
    (hle : q.term ≤ term) (hbs : ∀ b ∈ bs, b ≠ []) (hterm : ∀ b ∈ bs, ∀ e ∈ b, e.term = term) :
    (v.AllowsAll (bs.flatten.map Entry.stamp) →
      ∃ q', q.deliver bs = some q' ∧ Stored q bs.flatten q') ∧
    (¬ v.AllowsAll (bs.flatten.map Entry.stamp) →
      ∀ q', q.deliver bs = some q' → ¬ q'.timestamps.Nodup) := by
  induction bs generalizing q v with
  | nil =>
    exact ⟨fun _ => ⟨q, rfl, hq, hne, hinc, fun _ => by simp⟩, fun hn => absurd trivial hn⟩
  | cons b bs ih =>
    have hb := hbs b List.mem_cons_self
    have hu := update_of_term hb (hterm b List.mem_cons_self) hle
    have hsize : ¬ q.size < 1 := fun hs => hne (hq.logs_eq_nil_iff.mpr hs)
    have hq' := hq.withTerm term
    have hshows : Shows { q with term := term } v := ⟨h.1, h.2, h.3, h.4⟩
    obtain ⟨hgood, hbad⟩ := hshows.insertEntries b hq' hne hinc
    have hkeep := hq'.insertEntries b hne
    rw [LogQueue.file, if_neg hsize] at hu
    rw [List.flatten_cons, List.map_append, View.allowsAll_append]
    unfold LogQueue.deliver
    rw [hu]
    rcases hr : LogQueue.insertEntries { q with term := term } b with ⟨q₁, _ | err | err⟩
    · rw [hr] at hgood hbad hkeep
      by_cases hv : v.AllowsAll (b.map Entry.stamp)
      · obtain ⟨-, hshows₁, hstored⟩ := hgood hv
        have hstored' : Stored q b q₁ := ⟨hstored.1, hstored.2, hstored.3, hstored.4⟩
        obtain ⟨hgood', hbad'⟩ := ih hshows₁ hstored.synced hstored.ne_nil
          hstored.increasing (le_of_eq hkeep.2.2.2.2.1)
          (fun c hc => hbs c (List.mem_cons_of_mem _ hc))
          (fun c hc => hterm c (List.mem_cons_of_mem _ hc))
        constructor
        · rintro ⟨-, hall⟩
          obtain ⟨q', hdel, hrest⟩ := hgood' hall
          exact ⟨q', hdel, hstored'.trans hrest⟩
        · exact fun hnot => hbad' fun hall => hnot ⟨hv, hall⟩
      · refine ⟨fun hall => absurd hall.1 hv, fun _ q' hdel hn => hbad hv rfl ?_⟩
        exact hn.sublist (deliver_sublist hkeep.1 hdel).2
    · exact absurd (congrArg Prod.snd hr) (hkeep.2.2.2.2.2 err)
    · rw [hr] at hgood
      refine ⟨fun hall => absurd (hgood hall.1).1 (by simp), fun _ q' hdel => ?_⟩
      cases hdel

theorem recorded_appendAll {t : Int} (es : List Entry) {q : LogQueue} {idx : Nat}
    (h : t ∈ es.map Entry.stamp ∨ q.timestampIndexMap.get? t ≠ none) :
    (q.appendAll idx es).timestampIndexMap.get? t ≠ none := by
  induction es generalizing q idx with
  | nil => exact h.resolve_left List.not_mem_nil
  | cons e es ih =>
    refine ih ?_
    by_cases hte : t = e.stamp
    · refine Or.inr ?_
      change (q.timestampIndexMap.set e.stamp idx).get? t ≠ none
      simp [hte]
    · rcases h with h | h
      · exact Or.inl ((List.mem_cons.mp h).resolve_left hte)
      · refine Or.inr ?_
        change (q.timestampIndexMap.set e.stamp idx).get? t ≠ none
        rwa [Dict.get?_set_ne _ _ hte]

/-- A first batch with increasing timestamps goes where it belongs. -/
theorem Synced.file_first {q : LogQueue} (hq : Synced q) (hnil : q.logs = []) {b : List Entry}
    (hb : b ≠ []) (hinc : (b.map Entry.stamp).Pairwise (· < ·)) :
    (q.file b).2 = .done ∧ (q.file b).1.Shows (View.ofBatch b) ∧ Stored q b (q.file b).1 := by
  have hts : q.timestamps = [] := by rw [hq.timestamps_eq, hnil]; rfl
  have hfile : q.file b = (q.appendAll 0 b, .done) := by
    rw [LogQueue.file, if_pos (hq.logs_eq_nil_iff.mp hnil)]
  obtain ⟨hlogs, hstamps, -, -, -⟩ := appendAll_spec b q 0
  rw [hnil, List.nil_append] at hlogs
  rw [hts, List.nil_append] at hstamps
  have hlast : (q.appendAll 0 b).lastTimestamp = batchStamp b := by
    rw [lastTimestamp, hstamps, List.getLast?_map]
    rfl
  rw [hfile]
  refine ⟨rfl, ⟨fun t => by rw [hstamps]; rfl, hlast, fun t => ?_, ?_⟩, hq.appendAll hnil hb, ?_, ?_,
    fun t => ?_⟩
  · rw [hstamps]
    refine ⟨fun ht => absurd ht List.not_mem_nil, ?_⟩
    rintro ⟨ht, hnone⟩
    exact absurd hnone (recorded_appendAll _ (Or.inl ht))
  · obtain ⟨fs, e, rfl⟩ := (List.eq_nil_or_concat' b).resolve_left hb
    have hstamp : batchStamp (fs ++ [e]) = e.stamp := by simp [batchStamp]
    rw [hlast, hstamp, get?_appendAll_concat, hlogs]
    simp [View.ofBatch]
  · rw [hlogs]
    exact hb
  · rw [hstamps]
    exact hinc
  · rw [hlogs, hnil, lastWith_nil, Option.or_none]

/-- **The deliveries that store every entry where it belongs**: the first batch into an empty
queue increases, and from then on every write is allowed. -/
def Delivers (q : LogQueue) : List (List Entry) → Prop
  | [] => True
  | b :: bs =>
    if q.size < 1 then
      (b.map Entry.stamp).Pairwise (· < ·) ∧
        (View.ofBatch b).AllowsAll (bs.flatten.map Entry.stamp)
    else q.view.AllowsAll ((b :: bs).flatten.map Entry.stamp)

/-- A first batch that does not increase stays so. -/
theorem Synced.not_increasing_of_first {q : LogQueue} (hq : Synced q) (hnil : q.logs = [])
    {term : Int} {b : List Entry} {bs : List (List Entry)}
    (hu : q.update b = { q with term := term }.file b)
    (hfirst : ¬ (b.map Entry.stamp).Pairwise (· < ·)) {q' : LogQueue}
    (hdel : q.deliver (b :: bs) = some q') : ¬ q'.timestamps.Pairwise (· < ·) := by
  intro hinc
  have hts : q.timestamps = [] := by rw [hq.timestamps_eq, hnil]; rfl
  have hfile : (q.update b).1.timestamps = b.map Entry.stamp := by
    rw [hu, LogQueue.file, if_pos (hq.logs_eq_nil_iff.mp hnil), (appendAll_spec b _ 0).2.1]
    change q.timestamps ++ _ = _
    rw [hts, List.nil_append]
  have hsync := hq.update b
  unfold LogQueue.deliver at hdel
  split at hdel
  · cases hdel
  · next q₁ r _ hr =>
    rw [hr] at hfile hsync
    exact hfirst (hfile ▸ hinc.sublist (deliver_sublist hsync hdel).2)

/-- The calls of one term, into an empty queue. -/
theorem Synced.deliver_first {q : LogQueue} (hq : Synced q) (hnil : q.logs = []) {term : Int}
    (hle : q.term ≤ term) {b : List Entry} {bs : List (List Entry)}
    (hbs : ∀ c ∈ b :: bs, c ≠ []) (hterm : ∀ c ∈ b :: bs, ∀ e ∈ c, e.term = term) :
    (q.Delivers (b :: bs) →
      ∃ q', q.deliver (b :: bs) = some q' ∧ Stored q (b :: bs).flatten q') ∧
      (¬ q.Delivers (b :: bs) → ∀ q', q.deliver (b :: bs) = some q' →
        ¬ q'.timestamps.Pairwise (· < ·)) := by
  have hb := hbs b List.mem_cons_self
  have hu := update_of_term hb (hterm b List.mem_cons_self) hle
  have hsize := hq.logs_eq_nil_iff.mp hnil
  rw [Delivers, if_pos hsize]
  by_cases hfirst : (b.map Entry.stamp).Pairwise (· < ·)
  · obtain ⟨hdone, hshows, hstored⟩ := (hq.withTerm term).file_first hnil hb hfirst
    have hterm₁ : (LogQueue.file { q with term := term } b).1.term = term := by
      rw [LogQueue.file, if_pos hsize]
      exact (appendAll_spec b _ 0).2.2.2.2
    have heq : q.deliver (b :: bs) = (LogQueue.file { q with term := term } b).1.deliver bs := by
      rw [LogQueue.deliver, hu]
      rcases hr : LogQueue.file { q with term := term } b with ⟨q₁, r⟩
      rw [hr] at hdone
      obtain rfl : r = .done := hdone
      rfl
    obtain ⟨hgood, hbad⟩ := hshows.deliver bs hstored.synced hstored.ne_nil
      hstored.increasing (le_of_eq hterm₁) (fun c hc => hbs c (List.mem_cons_of_mem _ hc))
      (fun c hc => hterm c (List.mem_cons_of_mem _ hc))
    rw [heq]
    constructor
    · rintro ⟨-, hall⟩
      obtain ⟨q', hdel, hrest⟩ := hgood hall
      have hall' := hstored.trans hrest
      exact ⟨q', hdel, hall'.synced, hall'.ne_nil, hall'.increasing, hall'.lastWith_eq⟩
    · intro hnot q' hdel hinc'
      exact hbad (fun hall => hnot ⟨hfirst, hall⟩) q' hdel (nodup_of_increasing hinc')
  · exact ⟨fun hall => absurd hall.1 hfirst, fun _ q' hdel =>
      hq.not_increasing_of_first hnil hu hfirst hdel⟩

/-- **What the calls of one term do**: they store every entry where it belongs, or raise, or
leave timestamps that do not increase. -/
theorem Synced.deliver {q : LogQueue} (hq : Synced q) (hinc : q.timestamps.Pairwise (· < ·))
    {term : Int} (hle : q.term ≤ term) {bs : List (List Entry)} (hbs : ∀ b ∈ bs, b ≠ [])
    (hterm : ∀ b ∈ bs, ∀ e ∈ b, e.term = term) :
    (q.Delivers bs → ∃ q', q.deliver bs = some q' ∧ q'.timestamps.Pairwise (· < ·) ∧
      Synced q' ∧ ∀ t, lastWith Entry.stamp q'.logs t =
        (lastWith Entry.stamp bs.flatten t).or (lastWith Entry.stamp q.logs t)) ∧
      (¬ q.Delivers bs → ∀ q', q.deliver bs = some q' → ¬ q'.timestamps.Pairwise (· < ·)) := by
  cases bs with
  | nil => exact ⟨fun _ => ⟨q, rfl, hinc, hq, fun _ => by simp⟩, fun hn => absurd trivial hn⟩
  | cons b bs =>
    by_cases hnil : q.logs = []
    · obtain ⟨hgood, hbad⟩ := hq.deliver_first hnil hle hbs hterm
      refine ⟨fun hall => ?_, hbad⟩
      obtain ⟨q', hdel, hrest⟩ := hgood hall
      exact ⟨q', hdel, hrest.increasing, hrest.synced, hrest.lastWith_eq⟩
    · obtain ⟨hgood, hbad⟩ := q.shows_view.deliver (b :: bs) hq hnil hinc hle hbs hterm
      rw [Delivers, if_neg (mt hq.logs_eq_nil_iff.mpr hnil)]
      constructor
      · intro hall
        obtain ⟨q', hdel, hrest⟩ := hgood hall
        exact ⟨q', hdel, hrest.increasing, hrest.synced, hrest.lastWith_eq⟩
      · exact fun hnot q' hdel hinc' => hbad hnot q' hdel (nodup_of_increasing hinc')

/-- The calls of a stale term are turned down. -/
theorem deliver_stale {term : Int} (bs : List (List Entry)) {q : LogQueue} (hlt : term < q.term)
    (hbs : ∀ b ∈ bs, b ≠ []) (hterm : ∀ b ∈ bs, ∀ e ∈ b, e.term = term) :
    q.deliver bs = some q := by
  induction bs with
  | nil => rfl
  | cons b bs ih =>
    have hrest := ih (fun c hc => hbs c (List.mem_cons_of_mem _ hc))
      (fun c hc => hterm c (List.mem_cons_of_mem _ hc))
    rcases update_cases q b with ⟨he, -⟩ | ⟨last, hlast, ⟨-, hu⟩ | ⟨hle, -⟩⟩
    · exact absurd he (hbs b List.mem_cons_self)
    · rw [deliver, hu]
      exact hrest
    · rw [hterm b List.mem_cons_self last (List.mem_of_getLast? hlast)] at hle
      omega

/-! ## 6. Harmless redelivery -/

theorem mem_inTimestampOrder {b : List Entry} {batches : List (List Entry)} :
    b ∈ inTimestampOrder batches ↔ b ∈ batches := by
  rw [inTimestampOrder, List.mem_insertionSort, List.mem_dedup]

theorem mem_flatten_inTimestampOrder {e : Entry} {batches : List (List Entry)} :
    e ∈ (inTimestampOrder batches).flatten ↔ e ∈ batches.flatten := by
  simp only [List.mem_flatten, mem_inTimestampOrder]

/-- The condition under which redelivery and reordering of `batches` do no harm. -/
structure Convergent (q : LogQueue) (term : Int) (batches : List (List Entry)) : Prop where
  increasing : q.timestamps.Pairwise (· < ·)
  ne_nil : ∀ b ∈ batches, b ≠ []
  delivers : q.term ≤ term → q.Delivers batches
  delivers_once : q.term ≤ term → q.Delivers (inTimestampOrder batches)
  same_last : q.term ≤ term → ∀ e ∈ batches.flatten,
    lastWith Entry.stamp batches.flatten e.stamp =
      lastWith Entry.stamp (inTimestampOrder batches).flatten e.stamp

section Harmless

variable {q : LogQueue} {term : Int} {batches : List (List Entry)}

theorem term_inTimestampOrder (hterm : ∀ b ∈ batches, ∀ e ∈ b, e.term = term) :
    ∀ b ∈ inTimestampOrder batches, ∀ e ∈ b, e.term = term :=
  fun b hb => hterm b (mem_inTimestampOrder.mp hb)

theorem Harmless.convergent (hq : Synced q) (hterm : ∀ b ∈ batches, ∀ e ∈ b, e.term = term)
    (h : q.Harmless batches) : q.Convergent term batches := by
  have hterm' := term_inTimestampOrder hterm
  obtain ⟨q₁, q₂, h₁, h₂, hlogs, hinc₁⟩ := h
  obtain ⟨hsync₁, hsub⟩ := deliver_sublist hq h₁
  obtain ⟨hsync₂, -⟩ := deliver_sublist hq h₂
  have hinc := hinc₁.sublist hsub
  have hinc₂ : q₂.timestamps.Pairwise (· < ·) := by
    rwa [hsync₂.timestamps_eq, ← hlogs, ← hsync₁.timestamps_eq]
  have hbs := ne_nil_of_deliver h₁
  have hall : q.term ≤ term → q.Delivers batches := fun hle => by
    by_contra hnot
    exact (hq.deliver hinc hle hbs hterm).2 hnot q₁ h₁ hinc₁
  have hall' : q.term ≤ term → q.Delivers (inTimestampOrder batches) := fun hle => by
    by_contra hnot
    exact (hq.deliver hinc hle (ne_nil_of_deliver h₂) hterm').2 hnot q₂ h₂ hinc₂
  refine ⟨hinc, hbs, hall, hall', fun hle e he => ?_⟩
  obtain ⟨q₁', h₁', -, -, hw₁⟩ := (hq.deliver hinc hle hbs hterm).1 (hall hle)
  obtain ⟨q₂', h₂', -, -, hw₂⟩ :=
    (hq.deliver hinc hle (ne_nil_of_deliver h₂) hterm').1 (hall' hle)
  obtain rfl := Option.some.inj (h₁.symm.trans h₁')
  obtain rfl := Option.some.inj (h₂.symm.trans h₂')
  obtain ⟨x, hx⟩ := exists_lastWith Entry.stamp he
  obtain ⟨y, hy⟩ := exists_lastWith Entry.stamp (mem_flatten_inTimestampOrder.mpr he)
  have hw := hw₁ e.stamp
  rw [hlogs, hw₂, hx, hy] at hw
  rw [hx, hy]
  exact hw.symm

theorem Convergent.harmless (hq : Synced q) (hterm : ∀ b ∈ batches, ∀ e ∈ b, e.term = term)
    (h : q.Convergent term batches) : q.Harmless batches := by
  have hterm' := term_inTimestampOrder hterm
  obtain ⟨hinc, hbs, hall, hall', hsame⟩ := h
  have hbs' : ∀ b ∈ inTimestampOrder batches, b ≠ [] :=
    fun b hb => hbs b (mem_inTimestampOrder.mp hb)
  rcases lt_or_ge term q.term with hlt | hle
  · exact ⟨q, q, deliver_stale _ hlt hbs hterm, deliver_stale _ hlt hbs' hterm', rfl, hinc⟩
  · obtain ⟨q₁, h₁, hinc₁, hsync₁, hw₁⟩ := (hq.deliver hinc hle hbs hterm).1 (hall hle)
    obtain ⟨q₂, h₂, hinc₂, hsync₂, hw₂⟩ := (hq.deliver hinc hle hbs' hterm').1 (hall' hle)
    refine ⟨q₁, q₂, h₁, h₂, ?_, hinc₁⟩
    refine eq_of_lastWith_eq (hsync₁.timestamps_eq ▸ hinc₁) (hsync₂.timestamps_eq ▸ hinc₂)
      fun t => ?_
    rw [hw₁, hw₂, lastWith_congr (fun _ => mem_flatten_inTimestampOrder.symm) (hsame hle) t]

/-- **Harmless redelivery**, on every queue whose lists agree. -/
theorem Synced.harmless_iff (hq : Synced q) (hterm : ∀ b ∈ batches, ∀ e ∈ b, e.term = term) :
    q.Harmless batches ↔ q.Convergent term batches :=
  ⟨fun h => h.convergent hq hterm, fun h => h.harmless hq hterm⟩

end Harmless

/-- **Redelivering and reordering batches of one term ends with the log of delivering each
once in timestamp order, exactly under `Convergent`.** -/
theorem redelivery_iff (maxAge : ℚ) (maxCount : Nat) (q : LogQueue)
    (hq : Reachable step (fun q => q = empty maxAge maxCount) q) (term : Int)
    (batches : List (List Entry)) (hterm : ∀ b ∈ batches, ∀ e ∈ b, e.term = term) :
    q.Harmless batches ↔ q.Convergent term batches := by
  have hsync : Synced q := by
    refine hq.invariant (fun s hs => hs ▸ synced_empty maxAge maxCount) fun s op s' h hs => ?_
    exact Option.some.inj hs ▸ h.apply op
  exact hsync.harmless_iff hterm

instance (q : LogQueue) : ∀ batches, Decidable (q.Delivers batches)
  | [] => isTrue trivial
  | b :: bs => by
    unfold Delivers
    infer_instance

/-- Two overlapping batches, the first of which comes twice. -/
theorem redelivery_of_newest :
    (apply (empty 0 0) (.update [entryAt 1 0])).Harmless
      [[entryAt 2 0], [entryAt 2 0], [entryAt 2 0, entryAt 3 0]] := by
  refine (redelivery_iff 0 0 (apply (empty 0 0) (.update [entryAt 1 0]))
    ⟨_, [.update [entryAt 1 0]], rfl, rfl⟩ 1
    [[entryAt 2 0], [entryAt 2 0], [entryAt 2 0, entryAt 3 0]] ?_).mpr ?_
  · decide
  · refine ⟨by decide, by decide, fun _ => by decide, fun _ => by decide, fun _ => by decide⟩

/-- What a leader sends again since its last commit is stored twice. -/
theorem redelivery_duplicates :
    ¬ ∀ (maxAge : ℚ) (maxCount : Nat) (q : LogQueue),
      Reachable step (fun q => q = empty maxAge maxCount) q →
      ∀ (term : Int) (batches : List (List Entry)), (∀ b ∈ batches, ∀ e ∈ b, e.term = term) →
        q.Harmless batches := by
  intro h
  have hall := h 0 0 (empty 0 0) ⟨_, [], rfl, rfl⟩ 1
    [[entryAt 1 0, entryAt 2 0, entryAt 3 0], [entryAt 2 0, entryAt 3 0]] (by decide)
  have hterm : ∀ b ∈ [[entryAt 1 0, entryAt 2 0, entryAt 3 0], [entryAt 2 0, entryAt 3 0]],
      ∀ e ∈ b, e.term = 1 := by decide
  have hconv := ((synced_empty 0 0).harmless_iff hterm).mp hall
  exact absurd (hconv.delivers (by decide)) (by decide)

end LogQueue
end Hedra
