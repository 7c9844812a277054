/-
# What the cache returns

A run is a list of additions and lookups, each with the clock it reads; nothing happens when a
record expires, but that later clocks are past it.  What a run has added is its history, and the
cache is specified by it: `Rep` says which nodes there are and, up to expired records, which record
each has of a type and data.

A lookup is answered by at most one path (`Answers`): one of the names that have been added, or a
domain of one, that agrees with the name but where it has the label `*` and nothing was ever added
at or below the label itself.  A `*` stands for one label.

Two things keep the cache from its specification: an addition below a wildcard that captures it goes
to the wildcard, and when the clock goes back, records that have expired are gone that would be
unexpired again.

The operations are those of `Cache.lean` (`cache_node.py` and `cache_value.py` of
`distributed/discovery/dns/core/cache`).

* `rep_run`: the cache has what an orderly run has added;
* `returned_iff`: what a lookup in such a run returns, record by record;
* `unchanged_of_plain`: without wildcards an addition changes nothing for any other name.
-/
import Hedra.Dns.Cache
import Hedra.Lib.LastWrite
import Mathlib.Data.List.Induction

namespace Hedra
namespace Dns
namespace Cache

open Lib

/-! ## 1. Histories -/

/-- A record that was added, and the clock. -/
structure Addition where
  record : Record
  now : Rat

namespace Addition

/-- The labels of its name. -/
def path (a : Addition) : List String := labels a.record.name

/-- What it replaces another record by. -/
def key (a : Addition) : List String × Option RecordType × Option RecordData :=
  (a.path, a.record.recordType, a.record.data)

/-- The record was unexpired. -/
def accepted (a : Addition) : Bool := CacheValue.checkTtl a.now a.record

end Addition

/-- Something was added at or below the path; the root is always there. -/
def known (h : List Addition) (p : List String) : Bool :=
  decide (p = [] ∨ ∃ a ∈ h, p <+: a.path)

/-- The record added last under a name, of a type and data, of those that were unexpired then. -/
def newest (h : List Addition) (path : List String) (t : Option RecordType)
    (d : Option RecordData) : Option Record :=
  (lastWith Addition.key (h.filter Addition.accepted) (path, t, d)).map Addition.record

/-- What a lookup is to return: the unexpired records of the type under the path that answers. -/
def Returned (h : List Addition) (now : Rat) (fqdn : String) (recordType : RecordType)
    (r : Record) : Prop :=
  ∃ path, Answers "*" (known h) (labels fqdn) path ∧
    (recordType = .any ∨ r.recordType = some recordType) ∧
    newest h path r.recordType r.data = some r ∧ CacheValue.checkTtl now r = true

theorem known_of_append {h : List Addition} {p q : List String} (hk : known h (p ++ q) = true) :
    known h p = true := by
  simp only [known, decide_eq_true_eq] at hk ⊢
  rcases hk with hnil | ⟨a, ha, hpq⟩
  · exact Or.inl (List.append_eq_nil_iff.mp hnil).1
  · exact Or.inr ⟨a, ha, (List.prefix_append p q).trans hpq⟩

theorem known_concat (h : List Addition) (a : Addition) (p : List String) :
    known (h ++ [a]) p = (known h p || decide (p <+: a.path)) := by
  rw [Bool.eq_iff_iff]
  simp [known, or_assoc, or_and_right, exists_or]

theorem newest_concat (h : List Addition) (a : Addition) (path : List String)
    (t : Option RecordType) (d : Option RecordData) :
    newest (h ++ [a]) path t d =
      if a.accepted = true ∧ path = a.path ∧ t = a.record.recordType ∧ d = a.record.data then
        some a.record
      else newest h path t d := by
  unfold newest
  by_cases ha : a.accepted = true
  · rw [List.filter_append, List.filter_singleton, ha, cond_true,
      lastWith_append, lastWith_singleton]
    by_cases hkey : a.key = (path, t, d)
    · obtain ⟨h₁, h₂, h₃⟩ : a.path = path ∧ a.record.recordType = t ∧ a.record.data = d := by
        simpa [Addition.key] using hkey
      simp [Addition.key, h₁, h₂, h₃]
    · have hne : ¬ (path = a.path ∧ t = a.record.recordType ∧ d = a.record.data) := by
        rintro ⟨rfl, rfl, rfl⟩
        exact hkey rfl
      simp [hkey, hne]
  · simp [List.filter_append, ha]

/-! ## 2. One operation -/

/-- **The cache has what the history says**, up to records that have expired. -/
structure Rep (h : List Addition) (now : Rat) (c : CacheNode) : Prop where
  has : ∀ p, c.has p = known h p
  filed : ∀ p v, c.get? p = some v → v.Filed
  held : ∀ p t d, (c.held p t d).filter (CacheValue.checkTtl now) =
    (newest h p t d).filter (CacheValue.checkTtl now)
  any : (∀ a ∈ h, a.record.recordType ≠ some .any) →
    ∀ p v, c.get? p = some v → v.data.get? (some .any) = none

namespace Rep

variable {h : List Addition} {now : Rat} {c : CacheNode}

theorem init (now : Rat) : Rep [] now CacheNode.init where
  has p := by
    rw [Trie.has, CacheNode.init, Trie.get?_leaf]
    cases p <;> simp [known]
  filed p v hv := by
    rw [CacheNode.init, Trie.get?_leaf] at hv
    split at hv
    · rw [← Option.some.inj hv]
      intro t d r hr
      cases hr
    · cases hv
  held p t d := by
    rw [CacheNode.held, CacheNode.init, Trie.get?_leaf]
    split <;> rfl
  any _ p v hv := by
    rw [CacheNode.init, Trie.get?_leaf] at hv
    split at hv
    · rw [← Option.some.inj hv]
      rfl
    · cases hv

/-- Time passes. -/
theorem mono (hr : Rep h now c) {now' : Rat} (hle : now ≤ now') : Rep h now' c where
  has := hr.has
  filed := hr.filed
  held p t d := by
    have hfilter : ∀ o : Option Record, (o.filter (CacheValue.checkTtl now)).filter
        (CacheValue.checkTtl now') = o.filter (CacheValue.checkTtl now') := by
      intro o
      rw [Option.filter_filter]
      congr 1
      funext r
      rw [Bool.eq_iff_iff, Bool.and_eq_true]
      exact ⟨fun hb => hb.2, fun hb => ⟨CacheValue.checkTtl_of_le hle hb, hb⟩⟩
    rw [← hfilter, hr.held, hfilter]
  any := hr.any

/-- **An addition that is not captured is held under its own name.** -/
theorem addRecord (hr : Rep h now c) (r : Record)
    (hplace : ¬ Captured "*" (known h) (labels r.name)) :
    Rep (h ++ [⟨r, now⟩]) now (c.addRecord now r) := by
  have hpath : place "*" c.has (labels r.name) = labels r.name := by
    rw [funext hr.has]
    exact place_eq_self_iff.mpr hplace
  have hvalue : ∀ p v, (c.addRecord now r).get? p = some v →
      (∃ v', c.get? p = some v' ∧ (v = v' ∨ v = v'.add now r)) ∨
        v = .init ∨ v = CacheValue.init.add now r := by
    intro p v hv
    rw [CacheNode.get?_addRecord] at hv
    cases hc : c.get? p with
    | some v' =>
      rw [hc] at hv
      split at hv
      · exact Or.inl ⟨v', rfl, Or.inr (Option.some.inj hv).symm⟩
      · exact Or.inl ⟨v', rfl, Or.inl (Option.some.inj hv).symm⟩
    | none =>
      rw [hc] at hv
      split at hv
      · exact Or.inr (Or.inr (Option.some.inj hv).symm)
      · split at hv
        · exact Or.inr (Or.inl (Option.some.inj hv).symm)
        · cases hv
  have hinit : CacheValue.init.Filed := fun t d r hr => by cases hr
  refine ⟨fun p => ?_, fun p v hv => ?_, fun p t d => ?_, fun hany p v hv => ?_⟩
  · rw [CacheNode.has_addRecord, hpath, hr.has, known_concat]
    rfl
  · rcases hvalue p v hv with ⟨v', hv', rfl | rfl⟩ | rfl | rfl
    · exact hr.filed p v hv'
    · exact (hr.filed p v' hv').add now r
    · exact hinit
    · exact hinit.add now r
  · have hnew : newest (h ++ [⟨r, now⟩]) p t d =
        if CacheValue.checkTtl now r = true ∧ p = labels r.name ∧ t = r.recordType ∧
          d = r.data then some r else newest h p t d := newest_concat h ⟨r, now⟩ p t d
    rw [CacheNode.held_addRecord, hpath, hnew]
    by_cases hheld : CacheValue.checkTtl now r = true ∧ p = labels r.name ∧ t = r.recordType ∧
        d = r.data
    · rw [if_pos hheld, if_pos hheld]
    · rw [if_neg hheld, if_neg hheld, hr.held]
  · have htype : r.recordType ≠ some .any := hany ⟨r, now⟩ (by simp)
    have hold := hr.any fun a ha => hany a (List.mem_append_left _ ha)
    rcases hvalue p v hv with ⟨v', hv', rfl | rfl⟩ | rfl | rfl
    · exact hold p v hv'
    · exact CacheValue.get?_add_any (hold p v' hv') htype
    · rfl
    · exact CacheValue.get?_add_any rfl htype

/-- **A lookup changes nothing but for expired records.** -/
theorem query (hr : Rep h now c) (fqdn : String) (recordType : RecordType) :
    Rep h now (c.query now fqdn recordType).1 := by
  refine ⟨fun p => ?_, fun p v hv => ?_, fun p t d => ?_, fun hany p v hv => ?_⟩
  · rw [← hr.has, Trie.has, Trie.has]
    rcases CacheNode.get?_query now c fqdn recordType p with heq | ⟨v, v', hv, hv', -⟩
    · rw [heq]
    · rw [hv, hv']
      rfl
  · rcases CacheNode.get?_query now c fqdn recordType p with heq | ⟨v₀, v', hv₀, hv', hd⟩
    · exact hr.filed p v (heq ▸ hv)
    · rw [hv', Option.some.injEq] at hv
      exact hv ▸ (hr.filed p v₀ hv₀).of_drops hd
  · rw [← hr.held, CacheNode.held, CacheNode.held]
    rcases CacheNode.get?_query now c fqdn recordType p with heq | ⟨v, v', hv, hv', hd⟩
    · rw [heq]
    · rw [hv, hv', Option.bind_some, Option.bind_some]
      rcases hd.held t d with heq | heq
      · rw [heq]
      · rw [heq, Option.filter_filter]
        simp
  · rcases CacheNode.get?_query now c fqdn recordType p with heq | ⟨v₀, v', hv₀, hv', hd⟩
    · exact hr.any hany p v (heq ▸ hv)
    · rw [hv', Option.some.injEq] at hv
      exact hv ▸ (hd.types (some .any)).mpr (hr.any hany p v₀ hv₀)

theorem queryEach (hr : Rep h now c) (fqdn : String) (recordTypes : List RecordType) :
    Rep h now (CacheNode.queryEach now fqdn c recordTypes).1 := by
  induction recordTypes generalizing c with
  | nil => exact hr
  | cons rtype rtypes ih =>
    have hq := hr.query fqdn rtype
    unfold CacheNode.queryEach
    split
    · next heq => rwa [heq] at hq
    · next heq =>
      rw [heq] at hq
      exact ih hq

end Rep

/-! ## 3. Runs -/

/-- An operation on the cache, with the clock. -/
inductive Op
  | add
      (now : Rat)
      (new : NewRecord)
  | query
      (now : Rat)
      (fqdn : String)
      (recordType : RecordType)
  | queryEach
      (now : Rat)
      (fqdn : String)
      (recordTypes : List RecordType)

namespace Op

/-- The clock. -/
def now : Op → Rat
  | add now _ | query now _ _ | queryEach now _ _ => now

/-- What it adds; `add` may raise instead. -/
def addition (inet : Inet) : Op → Option Addition
  | add now new =>
    match new.toRecord inet now with
    | .ok r => some ⟨r, now⟩
    | .error _ => none
  | query .. | queryEach .. => none

/-- What it does to the cache. -/
def apply (inet : Inet) (c : CacheNode) : Op → CacheNode
  | add now new =>
    match c.add inet now new with
    | .ok c => c
    | .error _ => c
  | query now fqdn recordType => (c.query now fqdn recordType).1
  | queryEach now fqdn recordTypes => (c.queryEach now fqdn recordTypes).1

end Op

section Run

variable (inet : Inet)

/-- The cache after a run. -/
def run (ops : List Op) : CacheNode := ops.foldl (Op.apply inet) .init

/-- What a run has added. -/
def additions (ops : List Op) : List Addition := ops.filterMap (Op.addition inet)

/-- The clock does not go back, and no wildcard captures an addition. -/
structure Orderly (ops : List Op) : Prop where
  clock : (ops.map Op.now).Pairwise (· ≤ ·)
  placed : ∀ l a r, additions inet ops = l ++ a :: r → ¬ Captured "*" (known l) a.path

variable {inet}

theorem run_concat (ops : List Op) (op : Op) :
    run inet (ops ++ [op]) = Op.apply inet (run inet ops) op :=
  List.foldl_concat ..

theorem additions_concat (ops : List Op) (op : Op) :
    additions inet (ops ++ [op]) = additions inet ops ++ (op.addition inet).toList := by
  rw [additions, List.filterMap_append]
  cases hop : op.addition inet <;> simp [hop, additions]

theorem Orderly.init {ops : List Op} {op : Op} (ho : Orderly inet (ops ++ [op])) :
    Orderly inet ops := by
  constructor
  · have h := ho.clock
    rw [List.map_append] at h
    exact (List.pairwise_append.mp h).1
  · intro l a r heq
    refine ho.placed l a (r ++ (op.addition inet).toList) ?_
    rw [additions_concat, heq, List.append_assoc, List.cons_append]

/-- **One operation of an orderly run.** -/
theorem Rep.apply {ops : List Op} {op : Op} (ho : Orderly inet (ops ++ [op]))
    (hr : Rep (additions inet ops) op.now (run inet ops)) :
    Rep (additions inet (ops ++ [op])) op.now (run inet (ops ++ [op])) := by
  have hplaced := ho.placed
  rw [additions_concat] at hplaced ⊢
  rw [run_concat]
  cases op with
  | query now fqdn recordType =>
    rw [Op.addition, Option.toList_none, List.append_nil]
    exact hr.query fqdn recordType
  | queryEach now fqdn recordTypes =>
    rw [Op.addition, Option.toList_none, List.append_nil]
    exact hr.queryEach fqdn recordTypes
  | add now new =>
    cases hnew : new.toRecord inet now with
    | error e =>
      have hadd : (Op.add now new).addition inet = none := by simp [Op.addition, hnew]
      have happly : Op.apply inet (run inet ops) (.add now new) = run inet ops := by
        simp [Op.apply, CacheNode.add, hnew, bind, Except.bind]
      rw [hadd, happly, Option.toList_none, List.append_nil]
      exact hr
    | ok r =>
      have hadd : (Op.add now new).addition inet = some ⟨r, now⟩ := by
        simp [Op.addition, hnew]
      have happly : Op.apply inet (run inet ops) (.add now new) =
          (run inet ops).addRecord now r := by
        simp [Op.apply, CacheNode.add, hnew, bind, Except.bind, pure, Except.pure]
      rw [hadd] at hplaced ⊢
      rw [happly]
      exact hr.addRecord r (hplaced (additions inet ops) ⟨r, now⟩ [] rfl)

/-- **The cache has what an orderly run has added.** -/
theorem rep_run {ops : List Op} (ho : Orderly inet ops) {now : Rat}
    (hnow : ∀ op ∈ ops, op.now ≤ now) : Rep (additions inet ops) now (run inet ops) := by
  induction ops using List.reverseRecOn generalizing now with
  | nil => exact Rep.init now
  | append_singleton ops op ih =>
    have hclock : ∀ o ∈ ops, o.now ≤ op.now := by
      have h := ho.clock
      rw [List.map_append] at h
      intro o hmem
      exact (List.pairwise_append.mp h).2.2 _ (List.mem_map_of_mem hmem) _ (by simp)
    exact (Rep.apply ho (ih ho.init hclock)).mono (hnow op (by simp))

end Run

/-! ## 4. Lookups -/

/-- A lookup returns what the history says. -/
theorem Rep.query_iff {h : List Addition} {now : Rat} {c : CacheNode} (hr : Rep h now c)
    (fqdn : String) {recordType : RecordType}
    (hany : recordType = .any → ∀ a ∈ h, a.record.recordType ≠ some .any) :
    ∃ rs, (c.query now fqdn recordType).2 = some rs ∧
      (rs.map fun r => (r.recordType, r.data)).Nodup ∧
      ∀ r, r ∈ rs ↔ Returned h now fqdn recordType r := by
  have hanswers : ∀ p, Answers "*" (known h) (labels fqdn) p ↔
      p = place "*" c.has (labels fqdn) ∧ c.has p = true := by
    intro p
    rw [answers_iff (fun p q => known_of_append), ← funext hr.has]
  rw [CacheNode.query_eq]
  cases hv : c.get? (place "*" c.has (labels fqdn)) with
  | none =>
    refine ⟨[], rfl, List.nodup_nil, fun r => iff_of_false (by simp) ?_⟩
    rintro ⟨p, hp, -⟩
    obtain ⟨rfl, hhas⟩ := (hanswers p).mp hp
    rw [Trie.has, hv] at hhas
    exact absurd hhas (by simp)
  | some v =>
    obtain ⟨rs, hrs, hnodup, hmem⟩ := CacheValue.get_spec now (hr.filed _ v hv) recordType
      fun ht => hr.any (hany ht) _ v hv
    refine ⟨rs, hrs, hnodup, fun r => ?_⟩
    have hheld : (v.held r.recordType r.data = some r ∧ CacheValue.checkTtl now r = true) ↔
        newest h (place "*" c.has (labels fqdn)) r.recordType r.data = some r ∧
          CacheValue.checkTtl now r = true := by
      have heq := hr.held (place "*" c.has (labels fqdn)) r.recordType r.data
      rw [CacheNode.held, hv, Option.bind_some] at heq
      rw [← Option.filter_eq_some_iff, heq, Option.filter_eq_some_iff]
    rw [hmem, hheld]
    constructor
    · rintro ⟨ht, hnew⟩
      exact ⟨_, (hanswers _).mpr ⟨rfl, by rw [Trie.has, hv]; rfl⟩, ht, hnew⟩
    · rintro ⟨p, hp, ht, hnew⟩
      obtain ⟨rfl, -⟩ := (hanswers p).mp hp
      exact ⟨ht, hnew⟩

variable {inet : Inet}

/-- **In an orderly run, a lookup returns the unexpired records under the path that answers its
name, of each type and data the last one; and an addition changes nothing for a name that is
answered as before, and not by the name of the record.**  A lookup of type `ANY` is one of all
types, where none of the records is of type `ANY`. -/
theorem returned_iff {ops : List Op} (ho : Orderly inet ops) {now : Rat}
    (hnow : ∀ op ∈ ops, op.now ≤ now) (fqdn : String) {recordType : RecordType}
    (hany : recordType = .any →
      ∀ a ∈ additions inet ops, a.record.recordType ≠ some .any) :
    (∃ rs, ((run inet ops).query now fqdn recordType).2 = some rs ∧
      (rs.map fun r => (r.recordType, r.data)).Nodup ∧
      ∀ r, r ∈ rs ↔ Returned (additions inet ops) now fqdn recordType r) ∧
    ∀ r, ¬ Captured "*" (known (additions inet ops)) (labels r.name) →
      (∀ p, Answers "*" (known (additions inet ops ++ [⟨r, now⟩])) (labels fqdn) p ↔
        Answers "*" (known (additions inet ops)) (labels fqdn) p) →
      ¬ Answers "*" (known (additions inet ops)) (labels fqdn) (labels r.name) →
      ∀ now', (((run inet ops).addRecord now r).query now' fqdn recordType).2 =
        ((run inet ops).query now' fqdn recordType).2 := by
  have hr := rep_run ho hnow
  refine ⟨hr.query_iff fqdn hany, fun r hplaced hsame hne now' => ?_⟩
  have hr' := hr.addRecord r hplaced
  rw [← funext hr.has] at hplaced hsame hne
  rw [← funext hr'.has] at hsame
  exact CacheNode.query_addRecord (place_eq_self_iff.mpr hplaced) hsame hne now' recordType

/-- The addition of an address. -/
def address (now : Rat) (fqdn ip : String) (ttl : Int) : Op :=
  .add now (.data fqdn (some .a) (.a ip) ttl)

/-- A name and a wildcard beside it; the name is answered by itself, another by the wildcard. -/
theorem returned_beside_wildcard :
    (∃ rs, ((run .raising [address 0 "a.example" "10.0.0.1" 10,
        address 1 "*.example" "10.0.0.9" 10]).query 2 "b.example" .any).2 = some rs ∧
      (rs.map fun r => (r.recordType, r.data)).Nodup ∧
      ∀ r, r ∈ rs ↔ Returned (additions .raising [address 0 "a.example" "10.0.0.1" 10,
        address 1 "*.example" "10.0.0.9" 10]) 2 "b.example" .any r) := by
  refine (returned_iff ⟨by decide, ?_⟩ (by decide) "b.example" fun _ => by decide).1
  intro l a r heq
  have hadds : additions .raising [address 0 "a.example" "10.0.0.1" 10,
      address 1 "*.example" "10.0.0.9" 10] =
      [⟨.ofData 0 "a.example" (some .a) (.a "10.0.0.1") 10, 0⟩,
        ⟨.ofData 1 "*.example" (some .a) (.a "10.0.0.9") 10, 1⟩] := rfl
  rw [hadds] at heq
  match l, heq with
  | [], heq =>
    obtain ⟨rfl, -⟩ := List.cons.inj heq
    decide
  | [x], heq =>
    obtain ⟨hx, heq⟩ := List.cons.inj heq
    obtain ⟨rfl, -⟩ := List.cons.inj heq
    rw [← hx]
    decide
  | _ :: _ :: _, heq => simp at heq

/-- A `*` stands for one label only; a wildcard changes what is returned for other names; a record
that is added again has the new time to live; a wildcard takes what is added under the other names;
a record of type `ANY` makes a lookup of all types call itself without end; an expired record is
gone also for earlier clocks. -/
theorem additions_interfere :
    ((run .raising [address 0 "*.example" "10.0.0.1" 9]).query 1 "a.b.example" .a).2 = some [] ∧
    ((run .raising []).query 1 "a.example" .a).2 ≠
      ((run .raising [address 0 "*.example" "10.0.0.1" 9]).query 1 "a.example" .a).2 ∧
    ((run .raising [address 0 "a.example" "10.0.0.1" 9, address 0 "a.example" "10.0.0.1" 1]).query
      2 "a.example" .a).2 = some [] ∧
    ((run .raising [address 0 "*.example" "10.0.0.1" 9]).query 1 "b.example" .a).2 ≠
      ((run .raising [address 0 "*.example" "10.0.0.1" 9,
        address 0 "a.example" "10.0.0.2" 9]).query 1 "b.example" .a).2 ∧
    ((run .raising [.add 0 (.data "a.example" (some .any) (.a "10.0.0.1") 9)]).query
      1 "a.example" .any).2 = none ∧
    ((run .raising [address 0 "a.example" "10.0.0.1" 9, .query 20 "a.example" .a]).query
      1 "a.example" .a).2 = some [] := by
  decide

/-- No wildcard captures where none was added. -/
theorem not_captured_of_plain {h : List Addition} (hplain : ∀ a ∈ h, "*" ∉ a.path)
    (keys : List String) : ¬ Captured "*" (known h) keys := by
  rintro ⟨i, k, -, -, hw⟩
  rw [known, decide_eq_true_eq] at hw
  rcases hw with hnil | ⟨a, ha, hpre⟩
  · simp at hnil
  · exact hplain a ha (hpre.subset (by simp))

/-- **Without wildcards, an addition changes nothing for any other name.** -/
theorem unchanged_of_plain {ops : List Op} (ho : Orderly inet ops) {now : Rat}
    (hnow : ∀ op ∈ ops, op.now ≤ now) (hplain : ∀ a ∈ additions inet ops, "*" ∉ a.path)
    {r : Record} {fqdn : String} (hne : fqdn ≠ r.name) (hr : "*" ∉ labels r.name) (now' : Rat)
    (recordType : RecordType) :
    (((run inet ops).addRecord now r).query now' fqdn recordType).2 =
      ((run inet ops).query now' fqdn recordType).2 := by
  have hrep := rep_run ho hnow
  have hrep' := hrep.addRecord r (not_captured_of_plain hplain _)
  have hplain' : ∀ a ∈ additions inet ops ++ [⟨r, now⟩], "*" ∉ a.path := by
    intro a ha
    rcases List.mem_append.mp ha with ha | ha
    · exact hplain a ha
    · rw [List.mem_singleton.mp ha]
      exact hr
  have hplace : ∀ keys, place "*" (run inet ops).has keys = keys := by
    intro keys
    rw [funext hrep.has]
    exact place_eq_self_iff.mpr (not_captured_of_plain hplain keys)
  have hplace' : ∀ keys, place "*" ((run inet ops).addRecord now r).has keys = keys := by
    intro keys
    rw [funext hrep'.has]
    exact place_eq_self_iff.mpr (not_captured_of_plain hplain' keys)
  rw [CacheNode.query_eq, CacheNode.query_eq, hplace, hplace', CacheNode.get?_addRecord, hplace,
    if_neg fun h => hne (labels_injective h)]
  cases (run inet ops).get? (labels fqdn) with
  | some v => rfl
  | none =>
    split
    · next heq =>
      split at heq
      · rw [← Option.some.inj heq, CacheValue.get_init]
      · cases heq
    · rfl

end Cache
end Dns
end Hedra
