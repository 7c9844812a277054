/-
# Reading one item off the front

An item says itself where it ends: whether and what is read off the front of some input does not
depend on what comes behind it.  The variable-length integers of QUIC are such items: the two high
bits of the first byte say how many bytes there are.

* `Encodes.pull_append`: an item is read off the front of any input that begins with it;
* `Encodes.of_pull`: and what is read is that item.
-/
import Hedra.Lib.BigEndian

namespace Lib

/-- A reader of items `β` off the front of a list of `α`. -/
structure Pull (α β : Type*) where
  /-- The item and what comes behind it, or `none` when the item is not there as a whole. -/
  pull : List α → Option (β × List α)
  pull_append : ∀ {l b r}, pull l = some (b, r) → ∀ m, pull (l ++ m) = some (b, r ++ m)
  /-- The item alone. -/
  exists_front : ∀ {l b r}, pull l = some (b, r) → ∃ h, h ≠ [] ∧ l = h ++ r ∧ pull h = some (b, [])

namespace Pull

variable {α β : Type*} (P : Pull α β)

/-- `h` is an encoding of `b`. -/
def Encodes (h : List α) (b : β) : Prop := P.pull h = some (b, [])

variable {P}

theorem pull_nil : P.pull [] = none := by
  rcases h : P.pull [] with _ | ⟨b, r⟩
  · rfl
  · obtain ⟨f, hf, hl, -⟩ := P.exists_front h
    exact absurd (List.append_eq_nil_iff.mp hl.symm).1 hf

theorem length_lt {l : List α} {b : β} {r : List α} (h : P.pull l = some (b, r)) :
    r.length < l.length := by
  obtain ⟨f, hf, rfl, -⟩ := P.exists_front h
  have := List.length_pos_iff.mpr hf
  rw [List.length_append]
  omega

theorem Encodes.pull_append {h : List α} {b : β} (hb : P.Encodes h b) (r : List α) :
    P.pull (h ++ r) = some (b, r) := by
  rw [P.pull_append hb, List.nil_append]

theorem Encodes.ne_nil {h : List α} {b : β} (hb : P.Encodes h b) : h ≠ [] := by
  rintro rfl
  rw [Encodes, pull_nil] at hb
  cases hb

/-- What is read off a part of the input is read off the whole. -/
theorem Encodes.of_pull {h r : List α} {b b' : β} (hb : P.Encodes h b) {l m l' : List α}
    (heq : l ++ m = h ++ r) (hl : P.pull l = some (b', l')) : b' = b ∧ l = h ++ l' ∧ r = l' ++ m := by
  have hlm := P.pull_append hl m
  rw [heq, hb.pull_append] at hlm
  obtain ⟨rfl, rfl⟩ := Prod.mk.inj (Option.some.inj hlm)
  refine ⟨rfl, ?_, rfl⟩
  rw [← List.append_assoc] at heq
  exact List.append_cancel_right heq

end Pull

/-! ## 1. The integers of QUIC -/

/-- How many bytes come behind the first one. -/
def uintVarTail (b : UInt8) : Nat := 2 ^ (b.toNat / 64) - 1

/-- The integer at the front. -/
def pullUintVar : List UInt8 → Option (Nat × List UInt8)
  | [] => none
  | b :: r =>
    if r.length < uintVarTail b then none
    else some (BigEndian.decode (UInt8.ofNat (b.toNat % 64) :: r.take (uintVarTail b)),
      r.drop (uintVarTail b))

theorem pullUintVar_cons {x : UInt8} {l : List UInt8} {p : Nat × List UInt8} :
    pullUintVar (x :: l) = some p ↔ uintVarTail x ≤ l.length ∧
      (BigEndian.decode (UInt8.ofNat (x.toNat % 64) :: l.take (uintVarTail x)),
        l.drop (uintVarTail x)) = p := by
  rw [pullUintVar]
  split
  · next h => exact ⟨fun hnone => (by cases hnone), fun hp => absurd hp.1 (by omega)⟩
  · next h => exact ⟨fun hp => ⟨by omega, Option.some.inj hp⟩, fun hp => congrArg some hp.2⟩

/-- Integers of one, two, four or eight bytes. -/
def uintVar : Pull UInt8 Nat where
  pull := pullUintVar
  pull_append {l b r} h m := by
    cases l with
    | nil => cases h
    | cons x l =>
      obtain ⟨hle, hp⟩ := pullUintVar_cons.mp h
      obtain ⟨rfl, rfl⟩ := Prod.mk.inj hp
      have hle' : uintVarTail x ≤ (l ++ m).length := by
        rw [List.length_append]
        omega
      rw [List.cons_append]
      refine pullUintVar_cons.mpr ⟨hle', ?_⟩
      rw [List.take_append_of_le_length hle, List.drop_append_of_le_length hle]
  exists_front {l b r} h := by
    cases l with
    | nil => cases h
    | cons x l =>
      obtain ⟨hle, hp⟩ := pullUintVar_cons.mp h
      obtain ⟨rfl, rfl⟩ := Prod.mk.inj hp
      refine ⟨x :: l.take (uintVarTail x), List.cons_ne_nil _ _, ?_, ?_⟩
      · rw [List.cons_append, List.take_append_drop]
      · refine pullUintVar_cons.mpr ⟨by rw [List.length_take]; omega, ?_⟩
        rw [List.take_take, Nat.min_self, List.drop_eq_nil_of_le (by rw [List.length_take]; omega)]

end Lib
