/-
# Memoised calls

A cache of the last results of a function, by its arguments: what was used longest ago goes when a
new result does not fit.  A remembered result is given again whatever the function would give now,
so the cache of a function that reads state can be stale.  `remembered_touch` says all that a call
changes; a property of all remembered results is kept as long as each new one has it.
-/
import Mathlib.Data.List.Nodup
import Hedra.Lib.Dict

namespace Lib

/-- The results that are remembered, the last used first. -/
structure LruCache (κ ν : Type*) (capacity : Nat) where
  entries : List (κ × ν)
  nodup : (entries.map Prod.fst).Nodup
  bounded : entries.length ≤ capacity

namespace LruCache

variable {κ ν : Type*} {capacity : Nat}

def empty : LruCache κ ν capacity := ⟨[], List.nodup_nil, Nat.zero_le _⟩

variable [DecidableEq κ]

def remembered (c : LruCache κ ν capacity) (k : κ) : Option ν := Dict.getItems k c.entries

/-- What a call returns: the remembered result, or the one it computes. -/
def answer (c : LruCache κ ν capacity) (k : κ) (computed : ν) : ν := (c.remembered k).getD computed

/-- The cache after the call. -/
def touch (c : LruCache κ ν capacity) (k : κ) (computed : ν) : LruCache κ ν capacity where
  entries := ((k, c.answer k computed) :: c.entries.filter fun p => p.1 ≠ k).take capacity
  nodup := by
    have hne : k ∉ (c.entries.filter fun p => p.1 ≠ k).map Prod.fst := by simp
    have hall : (((k, c.answer k computed) :: c.entries.filter fun p => p.1 ≠ k).map
        Prod.fst).Nodup :=
      List.nodup_cons.mpr ⟨hne, Dict.nodup_filter c.nodup _⟩
    rw [List.map_take]
    exact hall.sublist (List.take_sublist _ _)
  bounded := List.length_take_le _ _

@[simp] theorem remembered_empty (k : κ) : (empty : LruCache κ ν capacity).remembered k = none := rfl

theorem remembered_eq_some {c : LruCache κ ν capacity} {k : κ} {v : ν} (h : c.remembered k = some v) :
    (k, v) ∈ c.entries :=
  (Dict.mem_items_iff ⟨c.entries, c.nodup⟩ k v).mpr h

/-- Whatever is remembered after a call is its result or was remembered before. -/
theorem remembered_touch {c : LruCache κ ν capacity} {k k' : κ} {v w : ν}
    (h : (c.touch k v).remembered k' = some w) :
    (k' = k ∧ w = c.answer k v) ∨ c.remembered k' = some w := by
  have hmem := List.mem_of_mem_take (remembered_eq_some h)
  rcases List.mem_cons.mp hmem with heq | hold
  · obtain ⟨rfl, rfl⟩ := Prod.mk.inj heq
    exact .inl ⟨rfl, rfl⟩
  · exact .inr ((Dict.mem_items_iff ⟨c.entries, c.nodup⟩ k' w).mp (List.mem_of_mem_filter hold))

/-- A property of the results that each computed one has. -/
theorem touch_forall {c : LruCache κ ν capacity} {P : κ → ν → Prop}
    (hc : ∀ k v, c.remembered k = some v → P k v) {k : κ} {v : ν} (hv : P k v) :
    ∀ k' w, (c.touch k v).remembered k' = some w → P k' w := by
  intro k' w h
  rcases remembered_touch h with ⟨rfl, rfl⟩ | hold
  · rw [answer]
    cases hk : c.remembered k' with
    | none => exact hv
    | some u => exact hc k' u hk
  · exact hc k' w hold

end LruCache

end Lib
