/-
# A dictionary that indexes a list

`Indexes m l` says that `m` records, for exactly the elements of `l`, where they stand.  It
makes the list duplicate-free, and it is kept by the two ways a list with an index grows:
appending a new element under the old length, and inserting one in the middle with every
later position moved up by one.

* `Indexes.insert`: an element is inserted, and the positions behind it move up;
* `Indexes.append`: an element is appended;
* `Indexes.nodup`: a list that is indexed has no element twice.
-/
import Mathlib.Data.List.Nodup
import Hedra.Lib.Dict

namespace Lib

variable {κ : Type*} [DecidableEq κ]

/-- `m` maps exactly the elements of `l` to their positions. -/
def Indexes (m : Dict κ Nat) (l : List κ) : Prop := ∀ t i, m.get? t = some i ↔ l[i]? = some t

theorem indexes_empty : Indexes (Dict.empty : Dict κ Nat) [] := by
  intro t i
  simp

section Insert

variable {α : Type*} {l : List α} {x : α} {i j : Nat}

theorem getElem?_insert_of_lt (hi : i ≤ l.length) (hj : j < i) :
    (l.take i ++ x :: l.drop i)[j]? = l[j]? := by
  rw [List.getElem?_append_left (by rw [List.length_take_of_le hi]; exact hj),
    List.getElem?_take_of_lt hj]

theorem getElem?_insert_self (hi : i ≤ l.length) :
    (l.take i ++ x :: l.drop i)[i]? = some x := by
  rw [List.getElem?_append_right (Nat.le_of_eq (List.length_take_of_le hi)),
    List.length_take_of_le hi, Nat.sub_self, List.getElem?_cons_zero]

theorem getElem?_insert_of_gt (hi : i ≤ l.length) (hj : i < j) :
    (l.take i ++ x :: l.drop i)[j]? = l[j - 1]? := by
  rw [List.getElem?_append_right (by rw [List.length_take_of_le hi]; omega),
    List.length_take_of_le hi, List.getElem?_cons, if_neg (by omega), List.getElem?_drop,
    show i + (j - i - 1) = j - 1 by omega]

end Insert

namespace Indexes

variable {m : Dict κ Nat} {l : List κ}

/-- One record cannot give two positions, so the list has no duplicates. -/
theorem nodup (h : Indexes m l) : l.Nodup := by
  rw [List.nodup_iff_injective_get]
  intro i j hij
  have hi : l[i.val]? = some (l.get i) := List.getElem?_eq_getElem i.isLt
  have hj : l[j.val]? = some (l.get i) := hij ▸ List.getElem?_eq_getElem j.isLt
  have hsame := ((h _ _).mpr hi).symm.trans ((h _ _).mpr hj)
  exact Fin.ext (Option.some.inj hsame)

theorem exists_get? (h : Indexes m l) {t : κ} (ht : t ∈ l) : ∃ i, m.get? t = some i := by
  obtain ⟨i, hi⟩ := List.mem_iff_getElem?.mp ht
  exact ⟨i, (h t i).mpr hi⟩

theorem get?_eq_none_iff (h : Indexes m l) (t : κ) : m.get? t = none ↔ t ∉ l := by
  constructor
  · intro hn ht
    obtain ⟨i, hi⟩ := h.exists_get? ht
    rw [hn] at hi
    cases hi
  · intro ht
    cases hget : m.get? t with
    | none => rfl
    | some i => exact absurd (List.mem_of_getElem? ((h t i).mp hget)) ht

/-- Inserting a new element at `i`, when the new dictionary has moved up every record of a
position from `i` on. -/
theorem insert (h : Indexes m l) {x : κ} (hx : x ∉ l) {i : Nat} (hi : i ≤ l.length)
    {m' : Dict κ Nat} (hself : m'.get? x = some i)
    (hrest : ∀ t, t ≠ x → m'.get? t = (m.get? t).map fun j => if i ≤ j then j + 1 else j) :
    Indexes m' (l.take i ++ x :: l.drop i) := by
  intro t j
  by_cases ht : t = x
  · subst ht
    have hnot : ∀ k, l[k]? ≠ some t := fun k hk => hx (List.mem_of_getElem? hk)
    rw [hself, Option.some.injEq]
    rcases Nat.lt_trichotomy j i with hlt | rfl | hgt
    · rw [getElem?_insert_of_lt hi hlt]
      exact iff_of_false (by omega) (hnot j)
    · rw [getElem?_insert_self hi]
      exact iff_of_true rfl rfl
    · rw [getElem?_insert_of_gt hi hgt]
      exact iff_of_false (by omega) (hnot _)
  · rw [hrest t ht, Option.map_eq_some_iff]
    rcases Nat.lt_trichotomy j i with hlt | rfl | hgt
    · rw [getElem?_insert_of_lt hi hlt, ← h t j]
      constructor
      · rintro ⟨k, hk, hkj⟩
        split at hkj
        · omega
        · exact hkj ▸ hk
      · exact fun hk => ⟨j, hk, if_neg (by omega)⟩
    · rw [getElem?_insert_self hi]
      refine iff_of_false ?_ fun he => ht (Option.some.inj he).symm
      rintro ⟨k, -, hk⟩
      split at hk <;> omega
    · rw [getElem?_insert_of_gt hi hgt, ← h t (j - 1)]
      constructor
      · rintro ⟨k, hk, hkj⟩
        split at hkj
        · exact (show k = j - 1 by omega) ▸ hk
        · omega
      · exact fun hk => ⟨j - 1, hk, by rw [if_pos (by omega)]; omega⟩

/-- Appending a new element under the old length. -/
theorem append (h : Indexes m l) {x : κ} (hx : x ∉ l) :
    Indexes (m.set x l.length) (l ++ [x]) := by
  have hrest : ∀ t, t ≠ x → (m.set x l.length).get? t =
      (m.get? t).map fun j => if l.length ≤ j then j + 1 else j := by
    intro t ht
    rw [Dict.get?_set_ne _ _ ht]
    cases hget : m.get? t with
    | none => rfl
    | some j =>
      have hlt := (List.getElem?_eq_some_iff.mp ((h t j).mp hget)).1
      rw [Option.map_some, if_neg (by omega)]
  have hins := h.insert hx (Nat.le_refl l.length) (Dict.get?_set_self _ _ _) hrest
  rwa [List.take_length, List.drop_length] at hins

end Indexes

end Lib
