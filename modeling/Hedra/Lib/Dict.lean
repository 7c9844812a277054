/-
# Insertion-ordered dictionaries

The dictionaries of a language in which iterating a dictionary follows the order in which
its keys were first inserted: overwriting a key keeps its place, deleting it gives the
place up.  A `Dict` carries the proof that its keys are distinct, so that no operation has
to say which of two records of one key it means.

The lemmas say what each operation does to `get?`  and to the list of the items; a module that uses
a dictionary never looks into it.
-/
import Mathlib.Algebra.BigOperators.Group.List.Basic
import Mathlib.Algebra.GroupWithZero.Nat
import Mathlib.Data.List.Nodup

namespace Lib

variable {κ α : Type*}

/-- A dictionary: the items in insertion order, with distinct keys. -/
structure Dict (κ α : Type*) where
  items : List (κ × α)
  nodup : (items.map Prod.fst).Nodup

namespace Dict

theorem ext_items {d d' : Dict κ α} (h : d.items = d'.items) : d = d' := by
  obtain ⟨items, hd⟩ := d
  obtain ⟨items', hd'⟩ := d'
  obtain rfl : items = items' := h
  rfl

instance [DecidableEq κ] [DecidableEq α] : DecidableEq (Dict κ α) := fun d d' =>
  decidable_of_iff (d.items = d'.items) ⟨ext_items, congrArg Dict.items⟩

/-- `{}` -/
def empty : Dict κ α := ⟨[], List.nodup_nil⟩

variable [DecidableEq κ]

/-- The record of `k` in a list of items. -/
def getItems (k : κ) : List (κ × α) → Option α
  | [] => none
  | (k', v) :: r => if k' = k then some v else getItems k r

/-- `d.get(k)` -/
def get? (d : Dict κ α) (k : κ) : Option α := getItems k d.items

theorem getItems_eq_none {k : κ} {l : List (κ × α)} (h : k ∉ l.map Prod.fst) :
    getItems k l = none := by
  induction l with
  | nil => rfl
  | cons p r ih =>
    rw [List.map_cons, List.mem_cons, not_or] at h
    rw [getItems, if_neg (Ne.symm h.1), ih h.2]

theorem mem_of_getItems {k : κ} {v : α} {l : List (κ × α)} (h : getItems k l = some v) : (k, v) ∈ l := by
  induction l with
  | nil => cases h
  | cons p r ih =>
    unfold getItems at h
    split at h
    · next heq =>
      rw [← heq, ← Option.some.inj h]
      exact List.mem_cons_self
    · exact List.mem_cons_of_mem _ (ih h)

/-! ## 1. Writing a key -/

/-- Overwrite the record of `k`, or append one. -/
def setItems (k : κ) (v : α) : List (κ × α) → List (κ × α)
  | [] => [(k, v)]
  | (k', v') :: r => if k' = k then (k, v) :: r else (k', v') :: setItems k v r

theorem mem_map_fst_setItems {k k' : κ} {v : α} {l : List (κ × α)}
    (h : k' ∈ (setItems k v l).map Prod.fst) : k' = k ∨ k' ∈ l.map Prod.fst := by
  induction l with
  | nil => exact Or.inl (by simpa [setItems] using h)
  | cons p r ih =>
    unfold setItems at h
    split at h
    · rcases List.mem_cons.mp h with rfl | h
      · exact Or.inl rfl
      · exact Or.inr (List.mem_cons_of_mem _ h)
    · rcases List.mem_cons.mp h with rfl | h
      · exact Or.inr List.mem_cons_self
      · exact (ih h).imp id (List.mem_cons_of_mem _)

theorem nodup_setItems (k : κ) (v : α) {l : List (κ × α)} (h : (l.map Prod.fst).Nodup) :
    ((setItems k v l).map Prod.fst).Nodup := by
  induction l with
  | nil => simp [setItems]
  | cons p r ih =>
    obtain ⟨hx, hr⟩ := List.nodup_cons.mp h
    unfold setItems
    split
    · next heq => exact List.nodup_cons.mpr ⟨heq ▸ hx, hr⟩
    · next hne =>
      refine List.nodup_cons.mpr ⟨fun hmem => ?_, ih hr⟩
      exact (mem_map_fst_setItems hmem).elim hne hx

/-- `d[k] = v` -/
def set (d : Dict κ α) (k : κ) (v : α) : Dict κ α :=
  ⟨setItems k v d.items, nodup_setItems k v d.nodup⟩

theorem getItems_setItems (k : κ) (v : α) (k' : κ) (l : List (κ × α)) :
    getItems k' (setItems k v l) = if k' = k then some v else getItems k' l := by
  induction l with
  | nil => simp [setItems, getItems, eq_comm]
  | cons p r ih =>
    obtain ⟨x, y⟩ := p
    unfold setItems
    split
    · next heq =>
      subst heq
      by_cases h : k' = x
      · simp [getItems, h]
      · simp [getItems, h, Ne.symm h]
    · next hne =>
      simp only [getItems, ih]
      by_cases h : x = k'
      · subst h
        simp [hne]
      · simp [h]

theorem get?_set (d : Dict κ α) (k : κ) (v : α) (k' : κ) :
    (d.set k v).get? k' = if k' = k then some v else d.get? k' :=
  getItems_setItems k v k' d.items

@[simp] theorem get?_set_self (d : Dict κ α) (k : κ) (v : α) : (d.set k v).get? k = some v := by
  rw [get?_set, if_pos rfl]

theorem get?_set_ne (d : Dict κ α) {k k' : κ} (v : α) (h : k' ≠ k) :
    (d.set k v).get? k' = d.get? k' := by
  rw [get?_set, if_neg h]

/-- Writing what is there changes nothing. -/
theorem setItems_self {k : κ} {v : α} {l : List (κ × α)} (h : getItems k l = some v) :
    setItems k v l = l := by
  induction l with
  | nil => exact absurd h (by simp [getItems])
  | cons p r ih =>
    obtain ⟨x, y⟩ := p
    unfold getItems at h
    unfold setItems
    split
    · next heq => simp_all
    · next hne => rw [ih (by simpa [hne] using h)]

theorem set_eq_self_iff (d : Dict κ α) (k : κ) (v : α) : d.set k v = d ↔ d.get? k = some v := by
  constructor
  · intro h
    rw [← h]
    exact get?_set_self d k v
  · exact fun h => ext_items (setItems_self h)

/-- A new key comes last. -/
theorem setItems_of_not_mem {k : κ} (v : α) {l : List (κ × α)} (h : k ∉ l.map Prod.fst) :
    setItems k v l = l ++ [(k, v)] := by
  induction l with
  | nil => rfl
  | cons p r ih =>
    rw [List.map_cons, List.mem_cons, not_or] at h
    unfold setItems
    rw [if_neg (Ne.symm h.1), ih h.2, List.cons_append]

@[simp] theorem get?_empty (k : κ) : (empty : Dict κ α).get? k = none := rfl

/-- Write the records of a list, one after the other. -/
def ofList (l : List (κ × α)) : Dict κ α := l.foldl (fun d i => d.set i.1 i.2) empty

theorem items_foldl_set {l : List (κ × α)} {d : Dict κ α}
    (h : ((d.items ++ l).map Prod.fst).Nodup) :
    (l.foldl (fun d i => d.set i.1 i.2) d).items = d.items ++ l := by
  induction l generalizing d with
  | nil => exact (List.append_nil _).symm
  | cons i l ih =>
    have hnot : i.1 ∉ d.items.map Prod.fst := by
      rw [List.map_append, List.nodup_append] at h
      exact fun hi => h.2.2 _ hi _ List.mem_cons_self rfl
    have hitems : (d.set i.1 i.2).items = d.items ++ [i] := setItems_of_not_mem i.2 hnot
    have hrest : (((d.set i.1 i.2).items ++ l).map Prod.fst).Nodup := by
      rwa [hitems, List.append_assoc, List.singleton_append]
    rw [List.foldl_cons, ih hrest, hitems, List.append_assoc, List.singleton_append]

/-- Records of distinct keys are the items of their dictionary. -/
theorem items_ofList {l : List (κ × α)} (h : (l.map Prod.fst).Nodup) : (ofList l).items = l :=
  items_foldl_set h

/-- What a dictionary of records has is one of them. -/
theorem mem_of_get?_foldl_set {l : List (κ × α)} {d : Dict κ α} {k : κ} {v : α}
    (h : (l.foldl (fun d i => d.set i.1 i.2) d).get? k = some v) : (k, v) ∈ l ∨ d.get? k = some v := by
  induction l generalizing d with
  | nil => exact .inr h
  | cons i l ih =>
    rcases ih h with hmem | hset
    · exact .inl (List.mem_cons_of_mem _ hmem)
    · rw [get?_set] at hset
      split at hset
      · next hk =>
        obtain rfl := Option.some.inj hset
        exact .inl (List.mem_cons.mpr (.inl (by rw [hk])))
      · exact .inr hset

theorem mem_of_get?_ofList {l : List (κ × α)} {k : κ} {v : α} (h : (ofList l).get? k = some v) :
    (k, v) ∈ l := by
  refine (mem_of_get?_foldl_set h).resolve_right fun hempty => ?_
  cases hempty

theorem isSome_get?_foldl_set {l : List (κ × α)} {d : Dict κ α} {k : κ}
    (h : k ∈ l.map Prod.fst ∨ (d.get? k).isSome) :
    ((l.foldl (fun d i => d.set i.1 i.2) d).get? k).isSome := by
  induction l generalizing d with
  | nil => exact h.resolve_left List.not_mem_nil
  | cons i l ih =>
    refine ih ?_
    rw [get?_set]
    by_cases hk : k = i.1
    · right
      rw [if_pos hk]
      rfl
    · rw [if_neg hk]
      refine h.imp_left fun hmem => ?_
      rw [List.map_cons] at hmem
      exact (List.mem_cons.mp hmem).resolve_left hk

/-- `d.update(d')` -/
def update (d d' : Dict κ α) : Dict κ α := d'.items.foldl (fun d i => d.set i.1 i.2) d

/-- What is in the other dictionary is taken from it. -/
theorem get?_update (d d' : Dict κ α) (k : κ) : (d.update d').get? k = (d'.get? k).or (d.get? k) := by
  obtain ⟨l, hl⟩ := d'
  change (l.foldl (fun d i => d.set i.1 i.2) d).get? k = (getItems k l).or (d.get? k)
  induction l generalizing d with
  | nil => rfl
  | cons i l ih =>
    obtain ⟨hi, hl⟩ := List.nodup_cons.mp hl
    rw [List.foldl_cons, ih _ hl, get?_set, getItems]
    by_cases h : i.1 = k
    · rw [if_pos h, if_pos h.symm, getItems_eq_none (h ▸ hi)]
      rfl
    · rw [if_neg h, if_neg (Ne.symm h)]

/-- Nothing is taken that is there already. -/
theorem update_eq_self {d d' : Dict κ α} (h : ∀ k v, d'.get? k = some v → d.get? k = some v) :
    d.update d' = d := by
  obtain ⟨l, hl⟩ := d'
  change l.foldl (fun d i => d.set i.1 i.2) d = d
  induction l with
  | nil => rfl
  | cons i l ih =>
    obtain ⟨k, v⟩ := i
    obtain ⟨hi, hl⟩ := List.nodup_cons.mp hl
    have hset : d.set k v = d := ext_items (setItems_self (h k v (if_pos rfl)))
    rw [List.foldl_cons, hset]
    refine ih hl fun k' v' hk' => h k' v' ?_
    have hne : k ≠ k' := by
      rintro rfl
      exact Option.some_ne_none v' (hk'.symm.trans (getItems_eq_none hi))
    exact (if_neg hne).trans hk'

/-- What has been taken is not taken again. -/
theorem update_update (d d' : Dict κ α) : (d.update d').update d' = d.update d' := by
  refine update_eq_self fun k v hk => ?_
  rw [get?_update, hk]
  rfl

@[simp] theorem update_empty (d : Dict κ α) : d.update empty = d := rfl

/-- Where a key is written again. -/
theorem exists_split {d : Dict κ α} {k : κ} {v : α} (h : d.get? k = some v) :
    ∃ before behind, d.items = before ++ (k, v) :: behind ∧
      ∀ v', (d.set k v').items = before ++ (k, v') :: behind := by
  have hitems : ∀ l : List (κ × α), getItems k l = some v → ∃ before behind,
      l = before ++ (k, v) :: behind ∧ ∀ v', setItems k v' l = before ++ (k, v') :: behind := by
    intro l
    induction l with
    | nil => exact fun hget => absurd hget (by simp [getItems])
    | cons i l ih =>
      intro hget
      unfold getItems at hget
      split at hget
      · next heq =>
        obtain rfl := Option.some.inj hget
        exact ⟨[], l, by rw [← heq]; rfl, fun v' => if_pos heq⟩
      · next hne =>
        obtain ⟨before, behind, rfl, hset⟩ := ih hget
        refine ⟨i :: before, behind, rfl, fun v' => ?_⟩
        rw [setItems, if_neg hne, hset]
        rfl
  exact hitems d.items h

/-- What the records sum up to, after one is written. -/
theorem sum_set (f : α → ℕ) (k : κ) (v : α) (d : Dict κ α) :
    ((d.set k v).items.map fun i => f i.2).sum + ((d.get? k).elim 0 f) =
      (d.items.map fun i => f i.2).sum + f v := by
  obtain ⟨l, hl⟩ := d
  change ((setItems k v l).map fun i => f i.2).sum + (getItems k l).elim 0 f =
    (l.map fun i => f i.2).sum + f v
  induction l with
  | nil => simp [setItems, getItems]
  | cons i l ih =>
    have ih := ih (List.nodup_cons.mp hl).2
    by_cases hk : i.1 = k
    · simp only [setItems, getItems, hk, if_true, List.map_cons, List.sum_cons, Option.elim_some]
      omega
    · simp only [setItems, getItems, hk, if_false, List.map_cons, List.sum_cons]
      omega

/-- A key that is there keeps its place. -/
theorem keys_set {d : Dict κ α} {k : κ} {v : α} (h : d.get? k = some v) (v' : α) :
    (d.set k v').items.map Prod.fst = d.items.map Prod.fst := by
  obtain ⟨before, behind, hitems, hset⟩ := exists_split h
  rw [hitems, hset, List.map_append, List.map_append, List.map_cons, List.map_cons]

/-! ## 2. Deleting a key -/

omit [DecidableEq κ] in
theorem nodup_filter {l : List (κ × α)} (h : (l.map Prod.fst).Nodup) (p : κ × α → Bool) :
    ((l.filter p).map Prod.fst).Nodup :=
  h.sublist ((List.filter_sublist (p := p)).map Prod.fst)

/-- `del d[k]` -/
def erase (d : Dict κ α) (k : κ) : Dict κ α :=
  ⟨d.items.filter fun p => p.1 ≠ k, nodup_filter d.nodup _⟩

theorem getItems_filter_ne (k k' : κ) (l : List (κ × α)) :
    getItems k' (l.filter fun p => p.1 ≠ k) = if k' = k then none else getItems k' l := by
  induction l with
  | nil => simp [getItems]
  | cons p r ih =>
    obtain ⟨x, y⟩ := p
    by_cases hx : x = k
    · rw [List.filter_cons_of_neg (by simpa using hx), ih]
      by_cases h : k' = k
      · simp [h]
      · have hx' : ¬ x = k' := fun e => h (e ▸ hx)
        simp [getItems, h, hx']
    · rw [List.filter_cons_of_pos (by simpa using hx), getItems, getItems, ih]
      by_cases h : x = k'
      · have hk : ¬ k' = k := fun e => hx (h.trans e)
        simp [h, hk]
      · simp [h]

theorem get?_erase (d : Dict κ α) (k k' : κ) :
    (d.erase k).get? k' = if k' = k then none else d.get? k' :=
  getItems_filter_ne k k' d.items

/-- The items whose records satisfy `p`. -/
def filter (p : α → Bool) (d : Dict κ α) : Dict κ α :=
  ⟨d.items.filter fun i => p i.2, nodup_filter d.nodup _⟩

/-- The items under some of the keys. -/
def restrict (keys : List κ) (d : Dict κ α) : Dict κ α :=
  ⟨d.items.filter fun i => i.1 ∈ keys, nodup_filter d.nodup _⟩

/-- Another record for every key. -/
def mapValues {β : Type*} (f : α → β) (d : Dict κ α) : Dict κ β where
  items := d.items.map fun i => (i.1, f i.2)
  nodup := by
    rw [List.map_map]
    exact d.nodup

theorem get?_mapValues {β : Type*} (f : α → β) (d : Dict κ α) (k : κ) :
    (d.mapValues f).get? k = (d.get? k).map f := by
  unfold get? mapValues
  simp only
  induction d.items with
  | nil => rfl
  | cons p r ih =>
    rw [List.map_cons, getItems, getItems]
    split
    · rfl
    · exact ih

/-! ## 3. Iterating -/

/-- `d.keys()` -/
def keys (d : Dict κ α) : List κ := d.items.map Prod.fst

omit [DecidableEq κ] in
theorem nodup_keys (d : Dict κ α) : d.keys.Nodup := d.nodup

/-- `d.values()` -/
def values (d : Dict κ α) : List α := d.items.map Prod.snd

/-- What iteration meets is what lookup finds. -/
theorem mem_items_iff (d : Dict κ α) (k : κ) (v : α) : (k, v) ∈ d.items ↔ d.get? k = some v := by
  obtain ⟨l, hl⟩ := d
  change (k, v) ∈ l ↔ getItems k l = some v
  induction l with
  | nil => simp [getItems]
  | cons p r ih =>
    obtain ⟨x, y⟩ := p
    obtain ⟨hx, hr⟩ := List.nodup_cons.mp hl
    rw [List.mem_cons, getItems]
    by_cases h : x = k
    · subst h
      have hnot : (x, v) ∉ r := fun hm => hx (List.mem_map.mpr ⟨_, hm, rfl⟩)
      simp [hnot, eq_comm]
    · rw [if_neg h, ← ih hr]
      simp [Ne.symm h]

/-- Lookup does not depend on the order. -/
theorem get?_of_perm {d d' : Dict κ α} (h : d'.items.Perm d.items) (k : κ) : d'.get? k = d.get? k := by
  refine Option.ext fun v => ?_
  rw [← mem_items_iff, ← mem_items_iff]
  exact h.mem_iff

theorem mem_values_iff (d : Dict κ α) (v : α) : v ∈ d.values ↔ ∃ k, d.get? k = some v := by
  simp only [values, List.mem_map, ← mem_items_iff]
  exact ⟨fun ⟨⟨k, _⟩, hm, hv⟩ => ⟨k, hv ▸ hm⟩, fun ⟨k, hm⟩ => ⟨(k, v), hm, rfl⟩⟩

theorem mem_keys_iff (d : Dict κ α) (k : κ) : k ∈ d.keys ↔ ∃ v, d.get? k = some v := by
  simp only [keys, List.mem_map, ← mem_items_iff]
  exact ⟨fun ⟨⟨_, v⟩, hm, hk⟩ => ⟨v, hk ▸ hm⟩, fun ⟨v, hm⟩ => ⟨(k, v), hm, rfl⟩⟩

/-- Dictionaries with the same keys in the same order, and the same records. -/
theorem ext_keys {d d' : Dict κ α} (hkeys : d.keys = d'.keys) (hget : ∀ k, d.get? k = d'.get? k) :
    d = d' := by
  refine ext_items (List.ext_getElem ?_ fun i hi hi' => ?_)
  · simpa [keys] using congrArg List.length hkeys
  · have hfst : (d.items[i]).1 = (d'.items[i]).1 := by
      simpa [keys, hi, hi'] using congrArg (fun l => l[i]?) hkeys
    have h : d.get? (d.items[i]).1 = some (d.items[i]).2 := (mem_items_iff d _ _).mp (List.getElem_mem hi)
    have h' : d'.get? (d'.items[i]).1 = some (d'.items[i]).2 := (mem_items_iff d' _ _).mp (List.getElem_mem hi')
    rw [hget, hfst, h'] at h
    exact Prod.ext hfst (Option.some.inj h).symm

theorem keys_set_of_not_mem {d : Dict κ α} {k : κ} (v : α) (h : k ∉ d.keys) :
    (d.set k v).keys = d.keys ++ [k] := by
  have hitems : (d.set k v).items = d.items ++ [(k, v)] := setItems_of_not_mem v h
  rw [keys, hitems, List.map_append]
  rfl

/-- The keys that are new come behind the others. -/
theorem keys_update (d d' : Dict κ α) : (d.update d').keys = d.keys ++ d'.keys.filter (· ∉ d.keys) := by
  obtain ⟨l, hl⟩ := d'
  change (l.foldl (fun d i => d.set i.1 i.2) d).keys = d.keys ++ (l.map Prod.fst).filter (· ∉ d.keys)
  induction l generalizing d with
  | nil => exact (List.append_nil _).symm
  | cons i l ih =>
    obtain ⟨hi, hl⟩ := List.nodup_cons.mp hl
    rw [List.foldl_cons, ih _ hl, List.map_cons]
    by_cases hmem : i.1 ∈ d.keys
    · obtain ⟨v, hv⟩ := (mem_keys_iff d _).mp hmem
      have hkeys : (d.set i.1 i.2).keys = d.keys := keys_set hv i.2
      rw [hkeys, List.filter_cons_of_neg (by simpa using hmem)]
    · rw [keys_set_of_not_mem i.2 hmem, List.filter_cons_of_pos (by simpa using hmem), List.append_assoc,
        List.singleton_append]
      refine congrArg _ (congrArg _ (List.filter_congr fun k hk => ?_))
      have hne : k ≠ i.1 := fun heq => hi (heq ▸ hk)
      simp [hne]

/-- A dictionary has all that it was updated by. -/
theorem update_of_update (d d' : Dict κ α) : d.update (d.update d') = d.update d' := by
  refine ext_keys ?_ fun k => ?_
  · rw [keys_update, keys_update, List.filter_append, List.filter_filter]
    simp
  · rw [get?_update, get?_update, Option.or_assoc, Option.or_self]

/-- Where a key is written, and what remains beside it. -/
theorem exists_items_set (d : Dict κ α) (k : κ) (v : α) :
    ∃ before behind, List.Sublist (before ++ behind) d.items ∧
      (d.set k v).items = before ++ (k, v) :: behind := by
  cases hget : d.get? k with
  | some v' =>
    obtain ⟨before, behind, hitems, hset⟩ := exists_split hget
    refine ⟨before, behind, ?_, hset v⟩
    rw [hitems]
    exact (List.sublist_cons_self _ behind).append_left before
  | none =>
    have hnot : k ∉ d.items.map Prod.fst := by
      intro hmem
      obtain ⟨v', hv'⟩ := (mem_keys_iff d k).mp hmem
      cases hget.symm.trans hv'
    refine ⟨d.items, [], ?_, setItems_of_not_mem v hnot⟩
    rw [List.append_nil]

theorem get?_filter (p : α → Bool) (d : Dict κ α) (k : κ) :
    (d.filter p).get? k = (d.get? k).filter p := by
  refine Option.ext fun v => ?_
  rw [← mem_items_iff, Option.filter_eq_some_iff, ← mem_items_iff]
  exact List.mem_filter

/-- Where a record tells its key, the records tell themselves apart. -/
theorem nodup_map_values {β : Type*} {f : α → β} {g : κ → β} (d : Dict κ α)
    (hg : Function.Injective g) (hf : ∀ k v, d.get? k = some v → f v = g k) :
    (d.values.map f).Nodup := by
  have heq : d.values.map f = d.keys.map g := by
    rw [values, keys, List.map_map, List.map_map]
    refine List.map_congr_left fun i hi => hf i.1 i.2 ?_
    rwa [← mem_items_iff]
  rw [heq]
  exact d.nodup_keys.map hg

end Dict

end Lib
