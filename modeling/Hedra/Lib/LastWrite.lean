/-
# The last write under each key

A list of keyed records, read as a sequence of writes, gives each key the last record
written under it.  Two lists that are sorted strictly by key and give every key the same
record are the same list: a store that keeps its records sorted is determined by the last
writes.

* `eq_of_lastWith_eq`: a list sorted strictly by its keys is known by its last writes;
* `lastWith_congr`: lists of the same records that agree in the last write of each have the same
  last writes;
* `lastWith_map`: what is done to each record is done to the last one.
-/
import Mathlib.Data.List.Sort
import Hedra.Lib.Dict

namespace Lib

variable {α κ : Type*} [DecidableEq κ] (key : α → κ)

/-- The last record of `l` with key `k`. -/
def lastWith (l : List α) (k : κ) : Option α := l.reverse.find? fun x => key x = k

@[simp] theorem lastWith_nil (k : κ) : lastWith key [] k = none := rfl

theorem lastWith_append (l l' : List α) (k : κ) :
    lastWith key (l ++ l') k = (lastWith key l' k).or (lastWith key l k) := by
  rw [lastWith, List.reverse_append, List.find?_append]
  rfl

theorem lastWith_singleton (x : α) (k : κ) :
    lastWith key [x] k = if key x = k then some x else none := by
  by_cases h : key x = k <;> simp [lastWith, h]

theorem lastWith_cons (x : α) (l : List α) (k : κ) :
    lastWith key (x :: l) k = (lastWith key l k).or (if key x = k then some x else none) := by
  rw [← List.singleton_append, lastWith_append, lastWith_singleton]

theorem lastWith_map {β : Type*} (g : β → α) (l : List β) (k : κ) :
    lastWith key (l.map g) k = (lastWith (fun x => key (g x)) l k).map g := by
  rw [lastWith, lastWith, ← List.map_reverse, List.find?_map]
  rfl

/-- Only the records with the key count. -/
theorem lastWith_eq_of_filter {l l' : List α} {k : κ}
    (h : (l.filter fun x => key x = k) = l'.filter fun x => key x = k) :
    lastWith key l k = lastWith key l' k := by
  rw [lastWith, lastWith, ← List.head?_filter, ← List.head?_filter, List.filter_reverse,
    List.filter_reverse, h]

/-- A key that is written has a last record. -/
theorem exists_lastWith {l : List α} {x : α} (hx : x ∈ l) :
    ∃ y, lastWith key l (key x) = some y := by
  refine Option.ne_none_iff_exists'.mp fun hnone => ?_
  exact List.find?_eq_none.mp hnone x (List.mem_reverse.mpr hx) (by simp)

variable {key}

theorem lastWith_eq_none_iff {l : List α} {k : κ} :
    lastWith key l k = none ↔ ∀ x ∈ l, key x ≠ k := by
  simp [lastWith]

theorem key_of_lastWith {l : List α} {k : κ} {x : α} (h : lastWith key l k = some x) :
    key x = k := by
  simpa using List.find?_some h

theorem mem_of_lastWith {l : List α} {k : κ} {x : α} (h : lastWith key l k = some x) : x ∈ l :=
  List.mem_reverse.mp (List.mem_of_find?_eq_some h)

/-- Where no key repeats, the last record of a key is the only one. -/
theorem lastWith_eq_some_iff {l : List α} (hn : (l.map key).Nodup) {x : α} :
    lastWith key l (key x) = some x ↔ x ∈ l := by
  refine ⟨mem_of_lastWith, fun hx => ?_⟩
  cases h : lastWith key l (key x) with
  | none => exact absurd rfl (lastWith_eq_none_iff.mp h x hx)
  | some y =>
    have hinj := List.inj_on_of_nodup_map hn (mem_of_lastWith h) hx (key_of_lastWith h)
    rw [hinj]

/-- Two lists of the same records agree on all keys if they agree on those written. -/
theorem lastWith_congr {l l' : List α} (hmem : ∀ x, x ∈ l ↔ x ∈ l')
    (h : ∀ x ∈ l, lastWith key l (key x) = lastWith key l' (key x)) (k : κ) :
    lastWith key l k = lastWith key l' k := by
  by_cases hk : ∃ x ∈ l, key x = k
  · obtain ⟨x, hx, rfl⟩ := hk
    exact h x hx
  · have hnone : lastWith key l k = none :=
      lastWith_eq_none_iff.mpr fun x hx hxk => hk ⟨x, hx, hxk⟩
    have hnone' : lastWith key l' k = none :=
      lastWith_eq_none_iff.mpr fun x hx hxk => hk ⟨x, (hmem x).mpr hx, hxk⟩
    rw [hnone, hnone']

/-- **A list sorted strictly by key is determined by its last writes.** -/
theorem eq_of_lastWith_eq [Preorder κ] {l l' : List α} (hl : (l.map key).Pairwise (· < ·))
    (hl' : (l'.map key).Pairwise (· < ·)) (h : ∀ k, lastWith key l k = lastWith key l' k) :
    l = l' := by
  have hn : (l.map key).Nodup := hl.imp fun h => ne_of_lt h
  have hn' : (l'.map key).Nodup := hl'.imp fun h => ne_of_lt h
  have hmem : ∀ x, x ∈ l ↔ x ∈ l' := by
    intro x
    rw [← lastWith_eq_some_iff hn, ← lastWith_eq_some_iff hn', h]
  have hperm : l.Perm l' := (List.perm_ext_iff_of_nodup hn.of_map hn'.of_map).mpr hmem
  rw [List.pairwise_map] at hl hl'
  exact hperm.eq_of_pairwise (fun x y _ _ hxy hyx => absurd hxy (lt_asymm hyx)) hl hl'

/-- Writing pairs one after the other gives each key its last value. -/
theorem Dict.get?_ofList (l : List (κ × α)) (k : κ) :
    (Dict.ofList l).get? k = (lastWith Prod.fst l k).map Prod.snd := by
  have hfold : ∀ (l : List (κ × α)) (d : Dict κ α),
      (l.foldl (fun d i => d.set i.1 i.2) d).get? k =
        ((lastWith Prod.fst l k).map Prod.snd).or (d.get? k) := by
    intro l
    induction l with
    | nil => exact fun d => rfl
    | cons i l ih =>
      intro d
      rw [List.foldl_cons, ih, Dict.get?_set, lastWith_cons]
      by_cases hk : i.1 = k
      · rw [if_pos hk, if_pos hk.symm]
        cases lastWith Prod.fst l k <;> rfl
      · rw [if_neg hk, if_neg fun h => hk h.symm]
        cases lastWith Prod.fst l k <;> rfl
  rw [Dict.ofList, hfold, Dict.get?_empty, Option.or_none]

end Lib
