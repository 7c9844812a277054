/-
# Allocation of query ids

`RandomIDGenerator` (`distributed/discovery/dns/core/random/random_id_generator.py`) hands out the
ids of queries.  It keeps the free ids as a list of ranges.  `generate` takes an id at random out of
a range at random and puts what is left of the range in its place.  `put` gives an id back: it
searches for the first range behind the id and joins the id with the range before, with the range
behind, with both, or with neither.

What `random.randrange` returns is part of the event, so that a run is one for any random choices.

* `put_data`: `put` adds the id to the set that the ranges are;
* `Inv.generate`: `generate` issues an id that is free, and `Inv.put` frees an outstanding one;
* `always_correct`: so free and outstanding ids make up the interval, in every run.
-/
import Hedra.Lib.Machine
import Hedra.Lib.Ranges

namespace Hedra
namespace Dns

open Lib.Machine Lib.Ranges

/-- The free ids, as ranges. -/
structure RandomIDGenerator where
  data : List Range
deriving DecidableEq

namespace RandomIDGenerator

/-! ## 1. The generator -/

/-- `RandomIDGenerator(start, stop)` -/
def init (start stop : Int) : RandomIDGenerator where
  data := [(start, stop)]

/-- `generate`, with the `index` and the `id` that `randrange` returns.  It returns nothing else
than indices of the list and ids of the range, and raises when there are none. -/
def generate (g : RandomIDGenerator) (index : Nat) (id : Int) : Option RandomIDGenerator :=
  match g.data[index]? with
  | none => none
  | some rng =>
    if rng.1 ≤ id ∧ id ≤ rng.2 then
      let rngs := (if id > rng.1 then [(rng.1, id - 1)] else []) ++
        (if id < rng.2 then [(id + 1, rng.2)] else [])
      some { data := g.data.take index ++ rngs ++ g.data.drop (index + 1) }
    else none

/-- What `put` replaces the ranges around `value` by. -/
def rngs (value : Int) (lastRng nextRng : Option Range) : List Range :=
  let lastRng := lastRng.map fun rng => if rng.2 = value - 1 then (rng.1, value) else rng
  let nextRng := nextRng.map fun rng => if rng.1 = value + 1 then (value, rng.2) else rng
  let joined :=
    match lastRng, nextRng with
    | some l, some n => if l.2 = n.1 then (some (l.1, n.2), none) else (some l, some n)
    | l, n => (l, n)
  let notLastRange := joined.1.all fun rng => decide (rng.2 < value)
  let notNextRange := joined.2.all fun rng => decide (value < rng.1)
  joined.1.toList ++ (if notLastRange && notNextRange then [(value, value)] else []) ++
    joined.2.toList

/-- `put` -/
def put (g : RandomIDGenerator) (value : Int) : RandomIDGenerator :=
  let size := g.data.length
  let index := g.data.findIdx fun rng => decide (value < rng.1)
  let lastRng := if 0 < index then g.data[index - 1]? else none
  let nextRng := if index < size then g.data[index]? else none
  { data := g.data.take (index - 1) ++ rngs value lastRng nextRng ++
      g.data.drop (min (index + 1) size) }

variable {g g' : RandomIDGenerator}

/-- `generate` cuts a range. -/
theorem generate_eq_some {index : Nat} {id : Int} (h : g.generate index id = some g') :
    ∃ l rng r, g.data = l ++ rng :: r ∧ rng.1 ≤ id ∧ id ≤ rng.2 ∧
      g'.data = l ++ cut rng id ++ r := by
  unfold generate at h
  split at h
  · cases h
  · next rng hrng =>
    split at h
    · next hid =>
      obtain ⟨hlt, hget⟩ := List.getElem?_eq_some_iff.mp hrng
      refine ⟨g.data.take index, rng, g.data.drop (index + 1), ?_, hid.1, hid.2, ?_⟩
      · rw [← hget, List.getElem_cons_drop, List.take_append_drop]
      · rw [← Option.some.inj h]
        rfl
    · cases h

/-- `put`, when the search ends between `l` and `r`. -/
theorem put_append {l r : List Range} {value : Int} (hl : ∀ rng ∈ l, rng.1 ≤ value)
    (hr : ∀ rng ∈ r, value < rng.1) :
    (put ⟨l ++ r⟩ value).data = l.dropLast ++ rngs value l.getLast? r.head? ++ r.tail := by
  have hindex : (l ++ r).findIdx (fun rng => decide (value < rng.1)) = l.length := by
    rw [List.findIdx_append, List.findIdx_eq_length.mpr fun rng hrng => by simpa using hl rng hrng]
    cases r with
    | nil => simp
    | cons n r => simp [List.findIdx_cons, hr n List.mem_cons_self]
  have hlast : (if 0 < l.length then (l ++ r)[l.length - 1]? else none) = l.getLast? := by
    cases l with
    | nil => rfl
    | cons x l =>
      have hlen : (x :: l).length - 1 < (x :: l).length := Nat.sub_one_lt (by simp)
      rw [if_pos (by simp), List.getElem?_append_left hlen, List.getLast?_eq_getElem?]
  have hnext : (if l.length < (l ++ r).length then (l ++ r)[l.length]? else none) = r.head? := by
    cases r with
    | nil => simp
    | cons n r => simp
  have htake : (l ++ r).take (l.length - 1) = l.dropLast := by
    rw [List.take_append_of_le_length (Nat.sub_le _ _), List.dropLast_eq_take]
  have hdrop : (l ++ r).drop (min (l.length + 1) (l ++ r).length) = r.tail := by
    cases r with
    | nil => simp
    | cons n r => simp [List.drop_append]
  unfold put
  simp only [hindex, hlast, hnext, htake, hdrop]

/-- Adding an id between ranges. -/
theorem add_append {l r : List Range} {value : Int} (h : Separated (l ++ r))
    (hl : ∀ rng ∈ l, rng.2 < value) (hr : ∀ rng ∈ r, value < rng.1) :
    add value (l ++ r) = l.dropLast ++ rngs value l.getLast? r.head? ++ r.tail := by
  induction l with
  | nil =>
    cases r with
    | nil => rfl
    | cons n r =>
      obtain ⟨c, d⟩ := n
      have hn : value < c := hr (c, d) List.mem_cons_self
      by_cases hc : c = value + 1
      · simp [add, rngs, hc]
      · simp [add, rngs, hn, hc, Ne.symm hc]
  | cons x l ih =>
    obtain ⟨a, b⟩ := x
    obtain ⟨hne, hlt, hsep⟩ := separated_cons.mp h
    have hx : b < value := hl (a, b) List.mem_cons_self
    have ha : ¬ value < a := by omega
    cases l with
    | nil =>
      by_cases hb : b = value - 1
      · cases r with
        | nil => simp [add, rngs, hb, ha]
        | cons n r =>
          obtain ⟨c, d⟩ := n
          have hn : value < c := hr (c, d) List.mem_cons_self
          have hcd : c ≤ d := hsep.nonempty (c, d) List.mem_cons_self
          by_cases hc : c = value + 1
          · have hd : value ≤ d := by omega
            simp [add, rngs, hb, hc, ha, hd]
          · simp [add, rngs, hb, hc, ha, hn, Ne.symm hc, hn.ne]
      · have hb' : b + 1 ≠ value := by omega
        cases r with
        | nil => simp [add, rngs, hb, hb', ha, hx]
        | cons n r =>
          obtain ⟨c, d⟩ := n
          have hn : value < c := hr (c, d) List.mem_cons_self
          by_cases hc : c = value + 1
          · simp [add, rngs, hb, hb', hc, ha, hx.ne]
          · have hbc : b ≠ c := by omega
            simp [add, rngs, hb, hb', hc, ha, hn, hx, Ne.symm hc, hbc]
    | cons y l =>
      have hy := hl y (List.mem_cons_of_mem _ List.mem_cons_self)
      have hby := hlt y List.mem_cons_self
      have hy' := hsep.nonempty y List.mem_cons_self
      have hb : b + 1 ≠ value := by
        simp only at hby
        omega
      rw [List.cons_append, add_cons_of_lt (Int.not_lt.mp ha) hb,
        ih hsep fun rng hrng => hl rng (List.mem_cons_of_mem _ hrng)]
      simp

/-- **`put` adds the id to the set.** -/
theorem put_data {value : Int} (h : Separated g.data) (hv : ¬ Covers g.data value) :
    (g.put value).data = add value g.data := by
  obtain ⟨l, r, hdata, hl, hr⟩ := h.exists_append value
  have hg : g = ⟨l ++ r⟩ := by rw [← hdata]
  have hlt : ∀ rng ∈ l, rng.2 < value := by
    intro rng hrng
    by_contra hge
    exact hv ⟨rng, hdata ▸ List.mem_append_left _ hrng, hl rng hrng, not_lt.mp hge⟩
  rw [hdata, hg, put_append hl hr, add_append (hdata ▸ h) hlt hr]

end RandomIDGenerator

/-! ## 2. Runs -/

open RandomIDGenerator

/-- A generator, with the ids that are outstanding: issued and not given back. -/
structure Ids where
  generator : RandomIDGenerator
  outstanding : List Int
deriving DecidableEq

namespace Ids

/-- No id has been issued. -/
def init (start stop : Int) : Ids where
  generator := .init start stop
  outstanding := []

/-- The calls. -/
inductive Event
  /-- `generate()`, with what `randrange` returns. -/
  | generate (index : Nat) (id : Int)
  | put (value : Int)
deriving DecidableEq

/-- The machine.  `put` is called with outstanding ids only. -/
def step (s : Ids) : Event → Option Ids
  | .generate index id =>
    (s.generator.generate index id).map fun g => ⟨g, id :: s.outstanding⟩
  | .put value =>
    if value ∈ s.outstanding then some ⟨s.generator.put value, s.outstanding.erase value⟩ else none

/-- The id is free. -/
def Free (s : Ids) (id : Int) : Prop := Covers s.generator.data id

/-- The free ranges are sorted, disjoint and not adjacent.  The free ids and the outstanding ones
make up the interval, without overlap. -/
structure Correct (start stop : Int) (s : Ids) : Prop where
  separated : s.generator.data.Pairwise fun r r' => r.2 + 1 < r'.1
  all : ∀ id, s.Free id ∨ id ∈ s.outstanding ↔ start ≤ id ∧ id ≤ stop
  apart : ∀ id, s.Free id → id ∉ s.outstanding
  nodup : s.outstanding.Nodup

/-- The id that the event issues is not outstanding. -/
def IssuesFresh (s : Ids) : Event → Prop
  | .generate _ id => id ∉ s.outstanding
  | .put _ => True

/-- `Correct`, where no range is empty -- unless there are no ids at all. -/
structure Inv (start stop : Int) (s : Ids) : Prop extends Correct start stop s where
  nonempty : start ≤ stop → ∀ r ∈ s.generator.data, r.1 ≤ r.2

variable {start stop : Int} {s s' : Ids}

theorem Inv.init (start stop : Int) : Inv start stop (init start stop) where
  separated := List.pairwise_singleton ..
  all id := by simp [Free, Ids.init, RandomIDGenerator.init]
  apart id _ := List.not_mem_nil
  nodup := List.nodup_nil
  nonempty h := by simpa [Ids.init, RandomIDGenerator.init] using h

/-- **`generate` issues an id that is free.** -/
theorem Inv.generate (h : Inv start stop s) {index : Nat} {id : Int} {g : RandomIDGenerator}
    (hg : s.generator.generate index id = some g) :
    id ∉ s.outstanding ∧ Inv start stop ⟨g, id :: s.outstanding⟩ := by
  obtain ⟨l, rng, r, hdata, hlo, hhi, hcut⟩ := generate_eq_some hg
  have hfree : s.Free id := ⟨rng, by simp [hdata], hlo, hhi⟩
  have hle : start ≤ stop := by
    have := (h.all id).mp (Or.inl hfree)
    omega
  have hsep : Separated s.generator.data := ⟨h.nonempty hle, h.separated⟩
  rw [hdata] at hsep
  have hsep' := hsep.cut hlo hhi
  have hfree' : ∀ x, Free ⟨g, id :: s.outstanding⟩ x ↔ s.Free x ∧ x ≠ id := by
    intro x
    unfold Free
    rw [hcut, hdata, covers_append_cut hsep hlo hhi]
  refine ⟨h.apart id hfree, ⟨?_, fun x => ?_, fun x hx => ?_, ?_⟩, fun _ => ?_⟩
  · exact hcut ▸ hsep'.apart
  · rw [hfree', ← h.all, List.mem_cons]
    by_cases hx : x = id
    · simp [hx, hfree]
    · simp [hx]
  · obtain ⟨hx, hne⟩ := (hfree' x).mp hx
    simp [hne, h.apart x hx]
  · exact List.nodup_cons.mpr ⟨h.apart id hfree, h.nodup⟩
  · exact hcut ▸ hsep'.nonempty

/-- **`put` makes an outstanding id free.** -/
theorem Inv.put (h : Inv start stop s) {value : Int} (hv : value ∈ s.outstanding) :
    Inv start stop ⟨s.generator.put value, s.outstanding.erase value⟩ := by
  have hnot : ¬ s.Free value := fun hf => h.apart value hf hv
  have hle : start ≤ stop := by
    have := (h.all value).mp (Or.inr hv)
    omega
  have hsep : Separated s.generator.data := ⟨h.nonempty hle, h.separated⟩
  have hdata := put_data hsep hnot
  have hsep' := hsep.add hnot
  have hfree' : ∀ x, Free ⟨s.generator.put value, s.outstanding.erase value⟩ x ↔
      x = value ∨ s.Free x := by
    intro x
    unfold Free
    rw [hdata, covers_add hsep hnot]
  refine ⟨⟨?_, fun x => ?_, fun x hx => ?_, h.nodup.erase value⟩, fun _ => ?_⟩
  · exact hdata ▸ hsep'.apart
  · rw [hfree', ← h.all, h.nodup.mem_erase_iff]
    by_cases hx : x = value
    · simp [hx, hv]
    · simp [hx]
  · rw [h.nodup.mem_erase_iff]
    rintro ⟨hne, hx'⟩
    exact h.apart x (((hfree' x).mp hx).resolve_left hne) hx'
  · exact hdata ▸ hsep'.nonempty

theorem Inv.step (h : Inv start stop s) {a : Event} (hs : step s a = some s') :
    s.IssuesFresh a ∧ Inv start stop s' := by
  cases a with
  | generate index id =>
    obtain ⟨g, hg, rfl⟩ := Option.map_eq_some_iff.mp hs
    exact h.generate hg
  | put value =>
    unfold Ids.step at hs
    simp only at hs
    split at hs
    · next hv => exact ⟨trivial, Option.some.inj hs ▸ h.put hv⟩
    · cases hs

/-- **The free ranges stay apart, free and outstanding ids make up the interval, and no outstanding
id is issued.** -/
theorem always_correct (start stop : Int) (events : List Event) :
    Always step (Correct start stop) (init start stop) events ∧
      Along step (fun s a _ => s.IssuesFresh a) (init start stop) events := by
  constructor
  · refine Always.mono (I := Inv start stop) (fun _ h => h.toCorrect) ?_
    exact always_of_step (fun _ _ _ h hs => (h.step hs).2) (Inv.init start stop)
  · exact along_of_step (I := Inv start stop) (fun _ _ _ h hs => (h.step hs).symm)
      (Inv.init start stop)

end Ids
end Dns
end Hedra
