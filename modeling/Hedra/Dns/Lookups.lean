/-
# Lookups in the cache, record by record

A lookup is a generator: it reads the clock for each record, drops the expired ones, and is left
when the loop over it is; between two records of a lookup there may be other lookups.  `query_cache`
(`distributed/discovery/dns/resolver/base_resolver.py`) is modelled with the states that the cache
goes through so.

What a lookup keeps is every record that does not expire meanwhile.

`forRecords_spec` is what the modules over this one use of a loop: it has dealt with every record
that is alive, unless it was left before.
-/
import Hedra.Dns.Cache
import Hedra.Dns.Message
import Hedra.Lib.Chase

namespace Hedra
namespace Dns

open Lib

/-! ## 1. Lookups -/

namespace CacheNode

/-- The keys of the records of a type. -/
def recordKeys (c : CacheNode) (path : List String) (t : Option RecordType) :
    List (Option RecordData) :=
  (((c.get? path).bind fun v => v.data.get? t).map Dict.keys).getD []

/-- The types that records have been filed under. -/
def typeKeys (c : CacheNode) (path : List String) : List (Option RecordType) :=
  ((c.get? path).map fun v => v.data.keys).getD []

/-- `results.pop(key, None)` -/
def pop (c : CacheNode) (path : List String) (t : Option RecordType) (key : Option RecordData) :
    CacheNode :=
  c.modify (fun v =>
    match v.data.get? t with
    | some results => ⟨v.data.set t (results.erase key)⟩
    | none => v) path

end CacheNode

/-- The cache, how often the clock has been read, and the message that is being put together. -/
structure Search where
  cache : CacheNode
  reads : ℕ
  msg : DnsMessage

/-- `record.copy(name=fqdn)` -/
def Record.copyNamed (now : Rat) (r : Record) (fqdn : String) : Record :=
  { r with name := fqdn, timestamp := now.num.tdiv now.den }

namespace Search

variable (clock : ℕ → Rat) {β : Type}

/-- A `for` loop over `value.get(record_type)`, of one type; the body says whether to go on.  The result
`none` is a `KeyError`, for a record that was dropped in between. -/
def forRecords (path : List String) (t : Option RecordType)
    (body : Search → β → Record → Option (Search × β × Bool)) :
    Search → β → List (Option RecordData) → Option (Search × β)
  | s, b, [] => some (s, b)
  | s, b, key :: keys =>
    match s.cache.held path t key with
    | none => none
    | some r =>
      let s' := { s with reads := s.reads + 1 }
      if CacheValue.checkTtl (clock s.reads) r then
        match body s' b r with
        | none => none
        | some (s'', b', true) => forRecords path t body s'' b' keys
        | some (s'', b', false) => some (s'', b')
      else forRecords path t body { s' with cache := s'.cache.pop path t key } b keys

/-- The loop over the types, for `ANY`; the type `ANY` itself is a `RecursionError`. -/
def forTypes (path : List String) (body : Search → β → Record → Option (Search × β × Bool)) :
    Search → β → List (Option RecordType) → Option (Search × β)
  | s, b, [] => some (s, b)
  | s, b, t :: ts =>
    if t = some .any then none
    else
      match forRecords clock path t body s b (s.cache.recordKeys path t) with
      | none => none
      | some (s', b') => forTypes path body s' b' ts

/-- A `for` loop over `self.cache.query(fqdn, record_type)`. -/
def forQuery (fqdn : String) (recordType : RecordType)
    (body : Search → β → Record → Option (Search × β × Bool)) (s : Search) (b : β) :
    Option (Search × β) :=
  match s.cache.get fqdn false with
  | none => some (s, b)
  | some (_, path) =>
    if recordType = .any then
      match forTypes clock path body s b (s.cache.typeKeys path) with
      | none => none
      | some (s', b') =>
        forRecords clock path (some .any) body s' b' (s'.cache.recordKeys path (some .any))
    else forRecords clock path (some recordType) body s b (s.cache.recordKeys path (some recordType))

/-- `_add_cache_cname`, for each record. -/
def cnameBody (fqdn : String) (s : Search) (_ : Option String) (r : Record) :
    Option (Search × Option String × Bool) :=
  let s' := { s with
    reads := s.reads + 1
    msg := { s.msg with answers := s.msg.answers ++ [r.copyNamed (clock s.reads) fqdn] } }
  match r.data with
  | some (.cname name) => some (s', some name, false)
  | _ => some (s', none, true)

/-- `_add_cache_cname` -/
def addCacheCname (s : Search) (fqdn : String) : Option (Search × Option String) :=
  forQuery clock fqdn .cname (cnameBody clock fqdn) s none

/-- `list(self.cache.query(host, (RecordType.A, RecordType.AAAA)))` -/
def addresses (s : Search) (host : String) : Option (Search × List Record) :=
  let collect (s : Search) (rs : List Record) (r : Record) := some (s, rs ++ [r], true)
  match forQuery clock host .a collect s [] with
  | none => none
  | some (s', rs) => forQuery clock host .aaaa collect s' rs

/-- `_add_cache_qtype`, for each record. -/
def qtypeBody (fqdn : String) (s : Search) (hasResult : Bool) (r : Record) :
    Option (Search × Bool × Bool) :=
  match r.data with
  | some (.ns host) =>
    match addresses clock s host with
    | none => none
    | some (s', []) => some (s', hasResult, true)
    | some (s', records) =>
      some ({ s' with msg := { s'.msg with
        additionalRecords := s'.msg.additionalRecords ++ records
        namservers := s'.msg.namservers ++ [r] } }, true, true)
  | _ => some ({ s with
      reads := s.reads + 1
      msg := { s.msg with answers := s.msg.answers ++ [r.copyNamed (clock s.reads) fqdn] } }, true, true)

/-- `_add_cache_qtype` -/
def addCacheQtype (s : Search) (fqdn : String) (recordType : RecordType) : Option (Search × Bool) :=
  if recordType = .cname then some (s, false)
  else forQuery clock fqdn recordType (qtypeBody clock fqdn) s false

/-- The name that the loop of `query_cache` goes on with; it takes the empty one for none. -/
def nextName (s : Search) (fqdn : String) : Option (Search × Option String) :=
  (addCacheCname clock s fqdn).map fun (s', cname) => (s', cname.filter (· ≠ ""))

/-- `('.' + fqdn).endswith(root)` -/
def inZone (zoneDomains : List String) (fqdn : String) : Bool :=
  zoneDomains.any fun root => decide (root.toList <:+ '.' :: fqdn.toList)

/-- `query_cache`, behind its loop. -/
def answer (zoneDomains : List String) (recordType : RecordType) (e : Chase.End Search String) :
    Option (Search × Bool × String) :=
  let hasResult := e.cycle && decide (recordType = .cname ∨ recordType = .any)
  (addCacheQtype clock e.state e.place recordType).map fun (s, has) =>
    let hasResult := has || hasResult
    if inZone zoneDomains e.place then
      let msg := if hasResult then s.msg else { s.msg with resultCode := 3 }
      ({ s with msg := { msg with authoritativeAnswer := 1 } }, true, e.place)
    else (s, hasResult, e.place)

/-- `query_cache`, with a limit on its loop; the inner `none` is an exception. -/
def queryCache (zoneDomains : List String) (limit : ℕ) (s : Search) (fqdn : String)
    (recordType : RecordType) : Option (Option (Search × Bool × String)) :=
  (Chase.chase (nextName clock) limit s [] fqdn).map fun e =>
    e.bind (answer clock zoneDomains recordType)

end Search

/-! ## 2. What a cache keeps -/

namespace CacheNode

/-- The records of a type, with their keys. -/
def recordItems (c : CacheNode) (path : List String) (t : Option RecordType) :
    List (Option RecordData × Record) :=
  (((c.get? path).bind fun v => v.data.get? t).map Dict.items).getD []

/-- `c'` has what `c` has, but for records that need not be kept. -/
structure Kept (P : Record → Prop) (c c' : CacheNode) : Prop where
  has : ∀ p, c'.has p = c.has p
  types : ∀ p, c'.typeKeys p = c.typeKeys p
  sub : ∀ p t, (c'.recordItems p t).Sublist (c.recordItems p t)
  kept : ∀ p t, ∀ i ∈ c.recordItems p t, P i.2 → i ∈ c'.recordItems p t

variable {P : Record → Prop} {c c' c'' : CacheNode} {path : List String} {t : Option RecordType}
  {key : Option RecordData} {r : Record}

theorem Kept.refl (P : Record → Prop) (c : CacheNode) : Kept P c c :=
  ⟨fun _ => rfl, fun _ => rfl, fun _ _ => List.Sublist.refl _, fun _ _ _ hi _ => hi⟩

theorem Kept.trans (h : Kept P c c') (h' : Kept P c' c'') : Kept P c c'' :=
  ⟨fun p => (h'.has p).trans (h.has p), fun p => (h'.types p).trans (h.types p),
    fun p t => (h'.sub p t).trans (h.sub p t),
    fun p t i hi hP => h'.kept p t i (h.kept p t i hi hP) hP⟩

theorem recordKeys_eq (c : CacheNode) (path : List String) (t : Option RecordType) :
    c.recordKeys path t = (c.recordItems path t).map Prod.fst := by
  unfold recordKeys recordItems
  cases (c.get? path).bind fun v => v.data.get? t <;> rfl

theorem nodup_recordItems (c : CacheNode) (path : List String) (t : Option RecordType) :
    ((c.recordItems path t).map Prod.fst).Nodup := by
  unfold recordItems
  cases (c.get? path).bind fun v => v.data.get? t with
  | none => exact List.nodup_nil
  | some results => exact results.nodup

theorem held_eq_some_iff : c.held path t key = some r ↔ (key, r) ∈ c.recordItems path t := by
  unfold held recordItems CacheValue.held
  cases c.get? path with
  | none => simp
  | some v =>
    cases hv : v.data.get? t with
    | none => simp [hv]
    | some results => simp [hv, Dict.mem_items_iff]

theorem recordItems_pop (c : CacheNode) (path q : List String) (t u : Option RecordType)
    (key : Option RecordData) : (c.pop path t key).recordItems q u =
      if q = path ∧ u = t then (c.recordItems q u).filter fun i => i.1 ≠ key
      else c.recordItems q u := by
  unfold pop recordItems
  rw [Trie.get?_modify]
  by_cases hq : q = path
  · subst hq
    simp only [if_true, true_and]
    cases c.get? q with
    | none => simp
    | some v =>
      simp only [Option.map_some, Option.bind_some]
      cases hv : v.data.get? t with
      | none =>
        by_cases hu : u = t
        · simp [hu, hv]
        · simp [hu]
      | some results =>
        simp only [Dict.get?_set]
        by_cases hu : u = t
        · simp only [hu, if_true, hv, Option.map_some, Option.getD_some]
          rfl
        · simp [hu]
  · simp [hq]

/-- What records there are have been filed under their type. -/
theorem mem_typeKeys {i : Option RecordData × Record} (hi : i ∈ c.recordItems path t) :
    t ∈ c.typeKeys path := by
  unfold recordItems at hi
  unfold typeKeys
  cases hv : c.get? path with
  | none => simp [hv] at hi
  | some v =>
    cases hr : v.data.get? t with
    | none => simp [hv, hr] at hi
    | some results => exact (v.data.mem_keys_iff t).mpr ⟨results, hr⟩

/-- A record that need not be kept is dropped. -/
theorem Kept.pop (hr : (key, r) ∈ c.recordItems path t) (hP : ¬ P r) :
    Kept P c (c.pop path t key) := by
  refine ⟨fun p => ?_, fun p => ?_, fun p u => ?_, fun p u i hi hPi => ?_⟩
  · unfold CacheNode.pop Trie.has
    rw [Trie.get?_modify]
    split
    · exact Option.isSome_map
    · rfl
  · unfold CacheNode.pop typeKeys
    rw [Trie.get?_modify]
    split
    · cases c.get? p with
      | none => rfl
      | some v =>
        simp only [Option.map_some, Option.getD_some]
        split
        · next results hv => exact Dict.keys_set hv _
        · rfl
    · rfl
  · rw [recordItems_pop]
    split
    · exact List.filter_sublist
    · exact List.Sublist.refl _
  · rw [recordItems_pop]
    split
    · next heq =>
      obtain ⟨rfl, rfl⟩ := heq
      refine List.mem_filter.mpr ⟨hi, decide_eq_true fun hkey => hP ?_⟩
      obtain ⟨k, x⟩ := i
      obtain rfl : k = key := hkey
      rw [← held_eq_some_iff] at hi hr
      exact Option.some.inj (hi.symm.trans hr) ▸ hPi
    · exact hi

end CacheNode

/-- Where the records of a name are. -/
def CacheNode.pathOf (c : CacheNode) (fqdn : String) : List String := place "*" c.has (labels fqdn)

theorem CacheNode.Kept.pathOf_eq {P : Record → Prop} {c c' : CacheNode} (h : CacheNode.Kept P c c')
    (fqdn : String) : c'.pathOf fqdn = c.pathOf fqdn := by
  rw [CacheNode.pathOf, CacheNode.pathOf, funext h.has]

theorem CacheNode.get_pathOf (c : CacheNode) (fqdn : String) :
    c.get fqdn false = if c.has (c.pathOf fqdn) then some (c, c.pathOf fqdn) else none :=
  CacheNode.walk_false c (labels fqdn)

theorem CacheNode.get?_pathOf {c : CacheNode} {fqdn : String} (h : ¬ c.has (c.pathOf fqdn) = true) :
    c.get? (c.pathOf fqdn) = none := by
  simpa [Trie.has] using h

/-! ## 3. Records and the clock -/

/-- A record that is unexpired whenever the clock is read. -/
def Alive (clock : ℕ → Rat) (r : Record) : Prop := ∀ n, CacheValue.checkTtl (clock n) r = true

/-- A record that is expired whenever the clock is read. -/
def Dead (clock : ℕ → Rat) (r : Record) : Prop := ∀ n, CacheValue.checkTtl (clock n) r = false

namespace Search

open CacheNode (Kept)

variable {clock : ℕ → Rat} {β : Type} {path : List String} {t : Option RecordType}
  {body : Search → β → Record → Option (Search × β × Bool)} {s s' : Search} {b b' : β} {r : Record}

/-- **A loop that goes on to the end has dealt with every record that is alive.** -/
theorem forRecords_spec {R : Search × β → Search × β → Prop} {D : Search → β → Record → Prop}
    (hrefl : ∀ x, R x x) (htrans : ∀ x y z, R x y → R y z → R x z)
    (hdrop : ∀ s b key r, (key, r) ∈ s.cache.recordItems path t → ¬ Alive clock r →
      R (s, b) (⟨s.cache.pop path t key, s.reads + 1, s.msg⟩, b))
    (hstable : ∀ x y r, D x.1 x.2 r → R x y → D y.1 y.2 r)
    (hbody : ∀ s' b' key r, (key, r) ∈ s'.cache.recordItems path t → R (s, b) (s', b') →
      ∃ s'' b'', body { s' with reads := s'.reads + 1 } b' r = some (s'', b'', true) ∧
        R (s', b') (s'', b'') ∧
        s''.cache.recordItems path t = s'.cache.recordItems path t ∧ D s'' b'' r) :
    ∃ s' b', forRecords clock path t body s b (s.cache.recordKeys path t) = some (s', b') ∧
      R (s, b) (s', b') ∧ ∀ i ∈ s.cache.recordItems path t, Alive clock i.2 → D s' b' i.2 := by
  -- The keys were listed before; the records that are still to come are there.
  have hloop : ∀ (items : List (Option RecordData × Record)) (s₁ : Search) (b₁ : β),
      (items.map Prod.fst).Nodup → (∀ i ∈ items, i ∈ s₁.cache.recordItems path t) →
      R (s, b) (s₁, b₁) →
      ∃ s' b', forRecords clock path t body s₁ b₁ (items.map Prod.fst) = some (s', b') ∧
        R (s₁, b₁) (s', b') ∧ ∀ i ∈ items, Alive clock i.2 → D s' b' i.2 := by
    intro items
    induction items with
    | nil => exact fun s₁ b₁ _ _ _ => ⟨s₁, b₁, rfl, hrefl _, fun i hi => absurd hi List.not_mem_nil⟩
    | cons i items ih =>
      intro s₁ b₁ hnodup hitems hext
      obtain ⟨key, r⟩ := i
      obtain ⟨hkey, hnodup⟩ := List.nodup_cons.mp hnodup
      have hr : (key, r) ∈ s₁.cache.recordItems path t := hitems _ List.mem_cons_self
      simp only [List.map_cons, forRecords, CacheNode.held_eq_some_iff.mpr hr]
      by_cases hfresh : CacheValue.checkTtl (clock s₁.reads) r = true
      · obtain ⟨s₂, b₂, hrun, hext₂, hsame, hdone⟩ := hbody s₁ b₁ key r hr hext
        obtain ⟨s₃, b₃, hrest, hext₃, hall⟩ := ih s₂ b₂ hnodup
          (fun j hj => hsame ▸ hitems j (List.mem_cons_of_mem _ hj)) (htrans _ _ _ hext hext₂)
        refine ⟨s₃, b₃, ?_, htrans _ _ _ hext₂ hext₃, fun j hj halive => ?_⟩
        · rw [if_pos hfresh, hrun]
          exact hrest
        · rcases List.mem_cons.mp hj with rfl | hj
          · exact hstable (s₂, b₂) (s₃, b₃) r hdone hext₃
          · exact hall j hj halive
      · have hdead : ¬ Alive clock r := fun halive => hfresh (halive _)
        have hext₂ := hdrop s₁ b₁ key r hr hdead
        have hitems' : ∀ j ∈ items, j ∈ (s₁.cache.pop path t key).recordItems path t := by
          intro j hj
          rw [CacheNode.recordItems_pop, if_pos ⟨rfl, rfl⟩]
          refine List.mem_filter.mpr ⟨hitems j (List.mem_cons_of_mem _ hj), decide_eq_true ?_⟩
          rintro rfl
          exact hkey (List.mem_map.mpr ⟨j, hj, rfl⟩)
        obtain ⟨s₃, b₃, hrest, hext₃, hall⟩ := ih ⟨s₁.cache.pop path t key, s₁.reads + 1, s₁.msg⟩ b₁
          hnodup hitems' (htrans _ _ _ hext hext₂)
        refine ⟨s₃, b₃, ?_, htrans _ _ _ hext₂ hext₃, fun j hj halive => ?_⟩
        · rw [if_neg hfresh]
          exact hrest
        · rcases List.mem_cons.mp hj with rfl | hj
          · exact absurd halive hdead
          · exact hall j hj halive
  rw [CacheNode.recordKeys_eq]
  exact hloop _ s b (CacheNode.nodup_recordItems _ _ _) (fun _ hi => hi) (hrefl _)

end Search

end Dns
end Hedra
