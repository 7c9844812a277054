/-
# The cache

A `CacheNode` (`distributed/discovery/dns/core/cache/cache_node.py`) is a trie over the labels of a
name, the last label first, and each node has a `CacheValue` (`cache_value.py`): a dictionary of the
records of each type, by their data.  So a record that is added again with the same data replaces
the one before.

`get` walks along the labels and takes the child `*` where there is no child of the label itself,
and with `touch` it makes the children that are missing.  It is the same walk for lookups and for
additions: where a wildcard stands in the way of an addition, the record is added to the value of
the wildcard.  Expired records stay where they are until a lookup comes across them.

The clock is read once by each operation.

* `get_spec`: a lookup in one value yields the unexpired records of its type, each once;
* `walk_false`: where the walk of a lookup ends, and `walk_true` that of an addition;
* `query_addRecord`: an addition changes nothing for a name that is answered as before, and not by
  its own.
-/
import Hedra.Dns.Record
import Hedra.Lib.Trie

namespace Hedra
namespace Dns

open Lib

/-! ## 1. Values -/

/-- A `CacheValue`. -/
structure CacheValue where
  data : Dict (Option RecordType) (Dict (Option RecordData) Record)

namespace CacheValue

/-- `CacheValue()` -/
def init : CacheValue := ⟨Dict.empty⟩

/-- `check_ttl` -/
def checkTtl (now : Rat) (r : Record) : Bool :=
  decide (r.ttl < 0) || decide (now ≤ ((r.timestamp + r.ttl : Int) : Rat))

/-- What `get` does with the records of one type: the expired ones are popped, the others
yielded. -/
def prune (now : Rat) (v : CacheValue) (recordType : Option RecordType) :
    CacheValue × List Record :=
  match v.data.get? recordType with
  | none => (v, [])
  | some results =>
    let results := results.filter (checkTtl now)
    (⟨v.data.set recordType results⟩, results.values)

/-- The loop of `get` over the types.  It yields `self.get(qt)`, which for `ANY` is the loop itself
again, without end: the result `none` is a `RecursionError`. -/
def getEach (now : Rat) : CacheValue → List (Option RecordType) →
    CacheValue × Option (List Record)
  | v, [] => (v, some [])
  | v, qt :: qts =>
    if qt = some .any then (v, none)
    else
      let (v, records) := v.prune now qt
      let (v, rest) := v.getEach now qts
      (v, rest.map (records ++ ·))

/-- `get`, all of what it yields. -/
def get (now : Rat) (v : CacheValue) (recordType : RecordType) :
    CacheValue × Option (List Record) :=
  if recordType = .any then
    match v.getEach now v.data.keys with
    | (v, none) => (v, none)
    | (v, some records) =>
      let (v, own) := v.prune now (some recordType)
      (v, some (records ++ own))
  else
    let (v, records) := v.prune now (some recordType)
    (v, some records)

/-- `add` -/
def add (now : Rat) (v : CacheValue) (r : Record) : CacheValue :=
  if checkTtl now r then
    let results := (v.data.get? r.recordType).getD Dict.empty
    ⟨v.data.set r.recordType (results.set r.data r)⟩
  else v

/-- The record of a type and data. -/
def held (v : CacheValue) (recordType : Option RecordType) (data : Option RecordData) :
    Option Record :=
  (v.data.get? recordType).bind fun results => results.get? data

/-- Records are where their type and data say. -/
def Filed (v : CacheValue) : Prop :=
  ∀ t d r, v.held t d = some r → r.recordType = t ∧ r.data = d

@[simp] theorem held_init (t : Option RecordType) (d : Option RecordData) :
    init.held t d = none := rfl

/-- An expired record stays expired. -/
theorem checkTtl_of_le {now now' : Rat} (h : now ≤ now') {r : Record}
    (hr : checkTtl now' r = true) : checkTtl now r = true := by
  simp only [checkTtl, Bool.or_eq_true, decide_eq_true_eq] at hr ⊢
  exact hr.imp id (Rat.le_trans h)

theorem held_add (now : Rat) (v : CacheValue) (r : Record) (t : Option RecordType)
    (d : Option RecordData) :
    (v.add now r).held t d =
      if checkTtl now r = true ∧ t = r.recordType ∧ d = r.data then some r else v.held t d := by
  unfold add
  by_cases hr : checkTtl now r = true
  · simp only [hr, if_true, true_and, held, Dict.get?_set]
    by_cases ht : t = r.recordType
    · subst ht
      simp only [if_true, true_and, Option.bind_some, Dict.get?_set]
      split
      · rfl
      · cases v.data.get? r.recordType <;> simp
    · simp [ht]
  · simp [hr]

theorem held_prune (now : Rat) (v : CacheValue) (qt t : Option RecordType)
    (d : Option RecordData) :
    (v.prune now qt).1.held t d =
      if t = qt then (v.held t d).filter (checkTtl now) else v.held t d := by
  unfold prune
  cases hq : v.data.get? qt with
  | none =>
    by_cases ht : t = qt
    · simp [held, ht, hq]
    · simp [ht]
  | some results =>
    simp only [held, Dict.get?_set]
    by_cases ht : t = qt
    · simp [ht, hq, Dict.get?_filter]
    · simp [ht]

theorem mem_prune_iff (now : Rat) (v : CacheValue) (qt : Option RecordType) (r : Record) :
    r ∈ (v.prune now qt).2 ↔ ∃ d, v.held qt d = some r ∧ checkTtl now r = true := by
  unfold prune
  cases hq : v.data.get? qt with
  | none => simp [held, hq]
  | some results =>
    simp only [Dict.mem_values_iff, Dict.get?_filter, Option.filter_eq_some_iff, held, hq,
      Option.bind_some]

theorem nodup_prune (now : Rat) {v : CacheValue} (hv : v.Filed) (qt : Option RecordType) :
    ((v.prune now qt).2.map fun r => (r.recordType, r.data)).Nodup := by
  unfold prune
  cases hq : v.data.get? qt with
  | none => exact List.nodup_nil
  | some results =>
    refine Dict.nodup_map_values _ (Prod.mk_right_injective qt) ?_
    intro d r hr
    rw [Dict.get?_filter, Option.filter_eq_some_iff] at hr
    have hheld : v.held qt d = some r := by simp [held, hq, hr.1]
    obtain ⟨ht, hd⟩ := hv qt d r hheld
    rw [ht, hd]

theorem Filed.add {v : CacheValue} (hv : v.Filed) (now : Rat) (r : Record) :
    (v.add now r).Filed := by
  intro t d r' h
  rw [held_add] at h
  split at h
  · next hc =>
    rw [Option.some.injEq] at h
    subst h
    exact ⟨hc.2.1.symm, hc.2.2.symm⟩
  · exact hv t d r' h

theorem get?_add_any {now : Rat} {v : CacheValue} {r : Record} (hv : v.data.get? (some .any) = none)
    (hr : r.recordType ≠ some .any) : (v.add now r).data.get? (some .any) = none := by
  unfold add
  split
  · rw [Dict.get?_set_ne _ _ hr.symm, hv]
  · exact hv

/-- All that a lookup does to a value is to drop expired records. -/
structure Drops (now : Rat) (v v' : CacheValue) : Prop where
  types : ∀ t, v'.data.get? t = none ↔ v.data.get? t = none
  held : ∀ t d, v'.held t d = v.held t d ∨ v'.held t d = (v.held t d).filter (checkTtl now)

theorem Drops.refl (now : Rat) (v : CacheValue) : Drops now v v :=
  ⟨fun _ => Iff.rfl, fun _ _ => Or.inl rfl⟩

theorem Drops.trans {now : Rat} {v v' v'' : CacheValue} (h : Drops now v v')
    (h' : Drops now v' v'') : Drops now v v'' := by
  refine ⟨fun t => (h'.types t).trans (h.types t), fun t d => ?_⟩
  rcases h.held t d with e | e <;> rcases h'.held t d with e' | e' <;> rw [e', e]
  · exact Or.inl rfl
  · exact Or.inr rfl
  · exact Or.inr rfl
  · exact Or.inr (by simp [Option.filter_filter])

theorem drops_prune (now : Rat) (v : CacheValue) (qt : Option RecordType) :
    Drops now v (v.prune now qt).1 := by
  constructor
  · intro t
    unfold prune
    cases hq : v.data.get? qt with
    | none => rfl
    | some results =>
      rw [Dict.get?_set]
      split
      · next heq => simp [heq, hq]
      · rfl
  · intro t d
    rw [held_prune]
    split
    · exact Or.inr rfl
    · exact Or.inl rfl

theorem drops_getEach (now : Rat) (v : CacheValue) (qts : List (Option RecordType)) :
    Drops now v (v.getEach now qts).1 := by
  induction qts generalizing v with
  | nil => exact Drops.refl now v
  | cons qt qts ih =>
    unfold getEach
    split
    · exact Drops.refl now v
    · exact (drops_prune now v qt).trans (ih _)

theorem drops_get (now : Rat) (v : CacheValue) (recordType : RecordType) :
    Drops now v (v.get now recordType).1 := by
  unfold get
  split
  · have h := drops_getEach now v v.data.keys
    split
    · next heq => rwa [heq] at h
    · next heq =>
      rw [heq] at h
      exact h.trans (drops_prune now _ _)
  · exact drops_prune now v _

theorem Filed.of_drops {now : Rat} {v v' : CacheValue} (hv : v.Filed) (h : Drops now v v') :
    v'.Filed := by
  intro t d r hr
  rcases h.held t d with e | e <;> rw [e] at hr
  · exact hv t d r hr
  · exact hv t d r (Option.filter_eq_some_iff.mp hr).1

/-! ## 2. What is yielded -/

/-- The loop over types that are not `ANY`. -/
theorem getEach_spec (now : Rat) {v : CacheValue} (hv : v.Filed)
    {qts : List (Option RecordType)} (hn : qts.Nodup) (hany : some .any ∉ qts) :
    ∃ rs, (v.getEach now qts).2 = some rs ∧ (rs.map fun r => (r.recordType, r.data)).Nodup ∧
      ∀ r, r ∈ rs ↔ r.recordType ∈ qts ∧ v.held r.recordType r.data = some r ∧
        checkTtl now r = true := by
  induction qts generalizing v with
  | nil => exact ⟨[], rfl, List.nodup_nil, fun r => by simp⟩
  | cons qt qts ih =>
    obtain ⟨hqt, hn⟩ := List.nodup_cons.mp hn
    rw [List.mem_cons, not_or] at hany
    obtain ⟨rest, hrest, hnodup, hmem⟩ :=
      ih (hv.of_drops (drops_prune now v qt)) hn hany.2
    have hpruned : ∀ r, r ∈ (v.prune now qt).2 ↔ r.recordType = qt ∧
        v.held r.recordType r.data = some r ∧ checkTtl now r = true := by
      intro r
      rw [mem_prune_iff]
      constructor
      · rintro ⟨d, hd, hr⟩
        obtain ⟨rfl, rfl⟩ := hv qt d r hd
        exact ⟨rfl, hd, hr⟩
      · rintro ⟨rfl, hd, hr⟩
        exact ⟨r.data, hd, hr⟩
    have hrestmem : ∀ r, r ∈ rest ↔ r.recordType ∈ qts ∧
        v.held r.recordType r.data = some r ∧ checkTtl now r = true := by
      intro r
      rw [hmem, held_prune]
      refine and_congr_right fun hr => ?_
      rw [if_neg fun h : r.recordType = qt => hqt (h ▸ hr)]
    refine ⟨(v.prune now qt).2 ++ rest, ?_, ?_, fun r => ?_⟩
    · unfold getEach
      rw [if_neg (Ne.symm hany.1)]
      simp [hrest]
    · rw [List.map_append]
      refine List.Nodup.append (nodup_prune now hv qt) hnodup fun x hx hx' => ?_
      obtain ⟨r, hr, rfl⟩ := List.mem_map.mp hx
      obtain ⟨r', hr', heq⟩ := List.mem_map.mp hx'
      have htype : r'.recordType = qt := (Prod.mk.inj heq).1.trans ((hpruned r).mp hr).1
      exact hqt (htype ▸ ((hrestmem r').mp hr').1)
    · rw [List.mem_append, hpruned, hrestmem, List.mem_cons, or_and_right]

/-- **A lookup yields the unexpired records of its type, each once.** -/
theorem get_spec (now : Rat) {v : CacheValue} (hv : v.Filed) (recordType : RecordType)
    (hany : recordType = .any → v.data.get? (some .any) = none) :
    ∃ rs, (v.get now recordType).2 = some rs ∧
      (rs.map fun r => (r.recordType, r.data)).Nodup ∧
      ∀ r, r ∈ rs ↔ (recordType = .any ∨ r.recordType = some recordType) ∧
        v.held r.recordType r.data = some r ∧ checkTtl now r = true := by
  by_cases ht : recordType = .any
  · subst ht
    have hnone := hany rfl
    have hnot : some RecordType.any ∉ v.data.keys := fun h => by
      obtain ⟨results, hr⟩ := (Dict.mem_keys_iff v.data (some .any)).mp h
      rw [hnone] at hr
      exact absurd hr (by simp)
    obtain ⟨rs, hrs, hnodup, hmem⟩ := getEach_spec now hv v.data.nodup_keys hnot
    have hown : ((v.getEach now v.data.keys).1.prune now (some .any)).2 = [] := by
      have h := ((drops_getEach now v v.data.keys).types (some .any)).mpr hnone
      unfold prune
      rw [h]
    refine ⟨rs, ?_, hnodup, fun r => ?_⟩
    · unfold get
      rw [if_pos rfl]
      split
      · next heq => simp [heq] at hrs
      · next v' records heq =>
        rw [heq] at hrs hown
        rw [Option.some.injEq] at hrs
        simp [hown, hrs]
    · rw [hmem]
      simp only [true_or, true_and]
      refine ⟨fun h => h.2, fun h => ⟨?_, h⟩⟩
      obtain ⟨results, hr, -⟩ := Option.bind_eq_some_iff.mp h.1
      exact (Dict.mem_keys_iff v.data _).mpr ⟨results, hr⟩
  · refine ⟨(v.prune now (some recordType)).2, ?_, nodup_prune now hv _, fun r => ?_⟩
    · unfold get
      rw [if_neg ht]
    · rw [mem_prune_iff]
      simp only [ht, false_or]
      constructor
      · rintro ⟨d, hd, hr⟩
        obtain ⟨ht, rfl⟩ := hv _ d r hd
        exact ⟨ht, ht ▸ hd, hr⟩
      · rintro ⟨ht, hd, hr⟩
        exact ⟨r.data, ht ▸ hd, hr⟩

/-- A new value yields nothing. -/
theorem get_init (now : Rat) (recordType : RecordType) :
    (init.get now recordType).2 = some [] := by
  unfold get
  split <;> rfl

end CacheValue

/-! ## 3. Nodes -/

/-- A `CacheNode`. -/
abbrev CacheNode := Trie String CacheValue

/-- `reversed(fqdn.split('.'))` -/
def labels (fqdn : String) : List String := (split fqdn).reverse

theorem labels_injective : Function.Injective labels := by
  intro x y h
  rw [← join_split x, ← join_split y, List.reverse_injective h]

/-- What `add` is called with. -/
inductive NewRecord
  | record
      (record : Record)
  | data
      (fqdn : String)
      (recordType : Option RecordType)
      (data : RecordData)
      (ttl : Int)
  | bytes
      (fqdn : String)
      (recordType : Option RecordType)
      (data : Bytes)
      (ttl : Int)

/-- `Record(name=fqdn, data=rdata, record_type=record_type, ttl=ttl)`; `int` takes the clock to a
whole number. -/
def Record.ofData (now : Rat) (fqdn : String) (recordType : Option RecordType)
    (data : RecordData) (ttl : Int) : Record where
  queryType := .queryType .request
  name := fqdn
  recordType := recordType
  qclass := 1
  ttl := ttl
  data := some data
  timestamp := now.num.tdiv now.den

/-- The record that `add` adds. -/
def NewRecord.toRecord (inet : Inet) (now : Rat) : NewRecord → Except Error Record
  | .record r => .ok r
  | .data fqdn recordType rdata ttl => .ok (.ofData now fqdn recordType rdata ttl)
  | .bytes fqdn recordType raw ttl => do
    let (_, rdata) ← RecordData.load inet recordType raw 0 raw.length
    return .ofData now fqdn recordType rdata ttl

namespace CacheNode

/-- `CacheNode()` -/
def init : CacheNode := .node .init []

/-- A walk that goes on below the child `key`. -/
def below (current : CacheNode) (key : String) (walked : CacheNode × List String) :
    CacheNode × List String :=
  (current.setChild key walked.1, key :: walked.2)

/-- The loop of `get`: the node with the children that have been made, and the path from it to the
node whose value is returned. -/
def walk (touch : Bool) : CacheNode → List String → Option (CacheNode × List String)
  | current, [] => some (current, [])
  | current, key :: keys =>
    match current.child? key, current.child? "*" with
    | some child, _ => (walk touch child keys).map (below current key)
    | none, some child => (walk touch child keys).map (below current "*")
    | none, none => if touch then (walk touch init keys).map (below current key) else none

/-- `get` -/
def get (c : CacheNode) (fqdn : String) (touch : Bool) : Option (CacheNode × List String) :=
  walk touch c (labels fqdn)

/-- `query` of one type; the result `none` is a `RecursionError`. -/
def query (now : Rat) (c : CacheNode) (fqdn : String) (recordType : RecordType) :
    CacheNode × Option (List Record) :=
  match c.get fqdn false with
  | none => (c, some [])
  | some (c, path) =>
    match c.get? path with
    | none => (c, some [])
    | some value =>
      let (value, records) := value.get now recordType
      (c.modify (fun _ => value) path, records)

/-- `query` of several types. -/
def queryEach (now : Rat) (fqdn : String) : CacheNode → List RecordType →
    CacheNode × Option (List Record)
  | c, [] => (c, some [])
  | c, rtype :: rtypes =>
    match c.query now fqdn rtype with
    | (c, none) => (c, none)
    | (c, some records) =>
      let (c, rest) := queryEach now fqdn c rtypes
      (c, rest.map (records ++ ·))

/-- `add` of a record. -/
def addRecord (now : Rat) (c : CacheNode) (r : Record) : CacheNode :=
  match c.get r.name true with
  | none => c
  | some (c, path) => c.modify (fun value => value.add now r) path

/-- `add` -/
def add (inet : Inet) (now : Rat) (c : CacheNode) (new : NewRecord) : Except Error CacheNode := do
  let r ← new.toRecord inet now
  return c.addRecord now r

/-- The record of a type and data at the end of a path. -/
def held (c : CacheNode) (path : List String) (recordType : Option RecordType)
    (data : Option RecordData) : Option Record :=
  (c.get? path).bind fun value => value.held recordType data

/-! ## 4. What an operation does -/

/-- **A lookup ends where the labels lead, if there is a node, and makes none.** -/
theorem walk_false (c : CacheNode) (keys : List String) :
    c.walk false keys =
      if c.has (place "*" c.has keys) then some (c, place "*" c.has keys) else none := by
  induction keys generalizing c with
  | nil => rfl
  | cons key keys ih =>
    unfold walk
    cases hkey : c.child? key with
    | some child =>
      rw [Trie.place_child hkey, Trie.has_cons c hkey]
      simp only [ih]
      split
      · simp [below, Trie.setChild_self hkey]
      · rfl
    | none =>
      cases hwild : c.child? "*" with
      | some child =>
        rw [Trie.place_wild hkey hwild, Trie.has_cons c hwild]
        simp only [ih]
        split
        · simp [below, Trie.setChild_self hwild]
        · rfl
      | none => simp [Trie.place_new hkey hwild, Trie.has_cons_of_none c hkey]

/-- `c'` has what `c` has, and new nodes where there were none along `path`. -/
def Touched (c c' : CacheNode) (path : List String) : Prop :=
  ∀ q, c'.get? q = (c.get? q).or (if q <+: path then some .init else none)

/-- What a child's walk does to the child, it does below the node. -/
theorem Touched.below {c child child' : CacheNode} {path : List String} (key : String)
    (hc : ∀ q, c.get? (key :: q) = child.get? q ∨ c.get? (key :: q) = none ∧ child = init)
    (h : Touched child child' path) : Touched c (c.setChild key child') (key :: path) := by
  intro q
  cases q with
  | nil => rfl
  | cons k q =>
    rw [Trie.get?_setChild_cons]
    by_cases hk : k = key
    · subst hk
      rw [if_pos rfl, h]
      rcases hc q with heq | ⟨heq, rfl⟩
      · simp [heq, List.cons_prefix_cons]
      · rw [heq, init, Trie.get?_leaf]
        cases q <;> simp [List.cons_prefix_cons]
    · simp [hk, List.cons_prefix_cons]

/-- **With `touch` the walk makes the nodes that are missing on its way, and leaves the others as
they are.** -/
theorem walk_true (c : CacheNode) (keys : List String) :
    ∃ c', c.walk true keys = some (c', place "*" c.has keys) ∧
      Touched c c' (place "*" c.has keys) := by
  induction keys generalizing c with
  | nil =>
    refine ⟨c, rfl, fun q => ?_⟩
    cases q with
    | nil => rfl
    | cons k q => simp [place]
  | cons key keys ih =>
    unfold walk
    cases hkey : c.child? key with
    | some child =>
      obtain ⟨child', hw, h⟩ := ih child
      rw [Trie.place_child hkey]
      refine ⟨c.setChild key child', by simp [hw, CacheNode.below], h.below key fun q => ?_⟩
      exact Or.inl (by simp [Trie.get?_cons, hkey])
    | none =>
      cases hwild : c.child? "*" with
      | some child =>
        obtain ⟨child', hw, h⟩ := ih child
        rw [Trie.place_wild hkey hwild]
        refine ⟨c.setChild "*" child', by simp [hw, CacheNode.below], h.below "*" fun q => ?_⟩
        exact Or.inl (by simp [Trie.get?_cons, hwild])
      | none =>
        obtain ⟨child', hw, h⟩ := ih init
        have hinit : place "*" init.has keys = keys := by
          cases keys with
          | nil => rfl
          | cons k ks => exact Trie.place_new rfl rfl ks
        rw [hinit] at hw h
        rw [Trie.place_new hkey hwild]
        refine ⟨c.setChild key child', by simp [hw, CacheNode.below], h.below key fun q => ?_⟩
        exact Or.inr ⟨by simp [Trie.get?_cons, hkey], rfl⟩

/-- The value that a record is added to: the one at the end of the walk, or a new one. -/
theorem get?_addRecord (now : Rat) (c : CacheNode) (r : Record) (q : List String) :
    (c.addRecord now r).get? q =
      if q = place "*" c.has (labels r.name) then
        some (((c.get? q).getD .init).add now r)
      else (c.get? q).or (if q <+: place "*" c.has (labels r.name) then some .init else none) := by
  obtain ⟨c', hw, h⟩ := walk_true c (labels r.name)
  unfold addRecord get
  rw [hw]
  simp only [Trie.get?_modify]
  split
  · next heq =>
    rw [h, heq, if_pos (List.prefix_refl _)]
    cases c.get? (place "*" c.has (labels r.name)) <;> rfl
  · exact h q

theorem has_addRecord (now : Rat) (c : CacheNode) (r : Record) (q : List String) :
    (c.addRecord now r).has q =
      (c.has q || decide (q <+: place "*" c.has (labels r.name))) := by
  rw [Trie.has, get?_addRecord]
  split
  · next heq => simp [heq]
  · rw [Option.isSome_or]
    split <;> simp_all [Trie.has]

theorem held_addRecord (now : Rat) (c : CacheNode) (r : Record) (q : List String)
    (t : Option RecordType) (d : Option RecordData) :
    (c.addRecord now r).held q t d =
      if CacheValue.checkTtl now r = true ∧ q = place "*" c.has (labels r.name) ∧
        t = r.recordType ∧ d = r.data then some r
      else c.held q t d := by
  rw [held, get?_addRecord]
  by_cases hq : q = place "*" c.has (labels r.name)
  · simp only [hq, if_true, Option.bind_some, CacheValue.held_add, true_and]
    split
    · rfl
    · rw [held]
      cases c.get? (place "*" c.has (labels r.name)) <;> simp
  · simp only [hq, if_false, false_and, and_false]
    rw [held]
    cases c.get? q with
    | some v => simp
    | none => split <;> simp

/-- A lookup drops expired records. -/
theorem get?_query (now : Rat) (c : CacheNode) (fqdn : String) (recordType : RecordType)
    (q : List String) :
    (c.query now fqdn recordType).1.get? q = c.get? q ∨
      ∃ v v', c.get? q = some v ∧ (c.query now fqdn recordType).1.get? q = some v' ∧
        CacheValue.Drops now v v' := by
  unfold query get
  rw [walk_false]
  split
  · exact Or.inl rfl
  · next c' path heq =>
    split at heq
    · obtain ⟨rfl, rfl⟩ := Prod.mk.inj (Option.some.inj heq)
      split
      · exact Or.inl rfl
      · next v hv =>
        rw [Trie.get?_modify]
        split
        · next hq =>
          subst hq
          exact Or.inr ⟨v, _, hv, by rw [hv]; rfl, CacheValue.drops_get now v recordType⟩
        · exact Or.inl rfl
    · cases heq

/-- What a lookup returns is what the value at the end of the walk yields. -/
theorem query_eq (now : Rat) (c : CacheNode) (fqdn : String) (recordType : RecordType) :
    (c.query now fqdn recordType).2 =
      match c.get? (place "*" c.has (labels fqdn)) with
      | some v => (v.get now recordType).2
      | none => some [] := by
  unfold query get
  rw [walk_false]
  by_cases hhas : c.has (place "*" c.has (labels fqdn)) = true
  · simp only [hhas, if_true]
    cases c.get? (place "*" c.has (labels fqdn)) <;> rfl
  · have hnone : c.get? (place "*" c.has (labels fqdn)) = none := by
      simpa [Trie.has] using hhas
    simp [hhas, hnone]

/-- **An addition changes nothing for a name that is answered as before, and not by its own.** -/
theorem query_addRecord {now : Rat} {c : CacheNode} {r : Record} {fqdn : String}
    (hplace : place "*" c.has (labels r.name) = labels r.name)
    (hsame : ∀ p, Answers "*" (c.addRecord now r).has (labels fqdn) p ↔
      Answers "*" c.has (labels fqdn) p)
    (hne : ¬ Answers "*" c.has (labels fqdn) (labels r.name)) (now' : Rat)
    (recordType : RecordType) :
    ((c.addRecord now r).query now' fqdn recordType).2 = (c.query now' fqdn recordType).2 := by
  have hpre : ∀ (c : CacheNode) p q, c.has (p ++ q) = true → c.has p = true :=
    fun _ _ _ => Trie.has_of_append
  have hnone : ∀ c : CacheNode, c.has (place "*" c.has (labels fqdn)) = false →
      c.get? (place "*" c.has (labels fqdn)) = none := by
    intro c h
    simpa [Trie.has] using h
  rw [query_eq, query_eq]
  cases hhas : (c.addRecord now r).has (place "*" (c.addRecord now r).has (labels fqdn)) with
  | true =>
    have hold := (hsame _).mp ((answers_iff (hpre _)).mpr ⟨rfl, hhas⟩)
    obtain ⟨hpath, hhas'⟩ := (answers_iff (hpre c)).mp hold
    have hne' : place "*" c.has (labels fqdn) ≠ labels r.name := by
      intro heq
      rw [hpath, heq] at hold
      exact hne hold
    obtain ⟨v, hv⟩ := Option.isSome_iff_exists.mp hhas'
    rw [hpath] at hv ⊢
    rw [get?_addRecord, hplace, if_neg hne', hv, Option.some_or]
  | false =>
    have hhas' : c.has (place "*" c.has (labels fqdn)) = false := by
      rw [← Bool.not_eq_true]
      intro h
      have hnew := (hsame _).mpr ((answers_iff (hpre c)).mpr ⟨rfl, h⟩)
      obtain ⟨hpath, hh⟩ := (answers_iff (hpre _)).mp hnew
      rw [hpath, hhas] at hh
      exact absurd hh (by simp)
    rw [hnone _ hhas, hnone c hhas']

end CacheNode
end Dns
end Hedra
