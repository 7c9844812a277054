/-
# Text and its UTF-8 bytes

A byte below 128 stands for the character of that number, and for nothing else.  So bytes can be split
at such bytes as the text at these characters.

* `eq_of_mem_utf8EncodeChar`: a small byte is a whole character;
* `split_encode`: bytes are split as the text is, at small characters;
* `dropWhile_encode`: and dropped as the characters are.
-/
import Mathlib.Algebra.Order.Ring.Nat
import Mathlib.Data.List.DropRight
import Hedra.Lib.Separated

namespace Lib
namespace Utf8

/-- `s.encode()` -/
def encode (s : List Char) : List UInt8 := s.flatMap String.utf8EncodeChar

/-- `b.decode()`, if they are the bytes of a text. -/
def decode (b : List UInt8) : Option (List Char) := b.toByteArray.utf8Decode?.map Array.toList

theorem encode_cons (c : Char) (s : List Char) :
    encode (c :: s) = String.utf8EncodeChar c ++ encode s := rfl

theorem encode_append (s t : List Char) : encode (s ++ t) = encode s ++ encode t :=
  List.flatMap_append

theorem decode_encode (s : List Char) : decode (encode s) = some s := by
  have hbytes : (encode s).toByteArray = s.utf8Encode := rfl
  rw [decode, hbytes, List.utf8Decode?_utf8Encode]
  rfl

theorem exists_of_decode {b : List UInt8} {s : List Char} (h : decode b = some s) : b = encode s := by
  have hvalid : b.toByteArray.utf8Decode?.isSome := by
    cases hdecode : b.toByteArray.utf8Decode? with
    | none =>
      rw [decode, hdecode] at h
      cases h
    | some chars => rfl
  obtain ⟨l, hl⟩ := ByteArray.isSome_utf8Decode?_iff.mp hvalid
  have hb : b = encode l := List.toByteArray_inj.mp hl
  rw [hb, decode_encode] at h
  rw [hb, Option.some.inj h]

/-! ## 1. Bytes of a character -/

/-- **A small byte is a whole character.** -/
theorem eq_of_mem_utf8EncodeChar {c : Char} {b : UInt8} (h : b ∈ String.utf8EncodeChar c)
    (hb : b.toNat < 128) : String.utf8EncodeChar c = [b] ∧ c.toNat = b.toNat := by
  unfold String.utf8EncodeChar at *
  dsimp only at h
  split at h
  case isTrue hsmall =>
    obtain rfl := List.mem_singleton.mp h
    refine ⟨if_pos hsmall, ?_⟩
    rw [UInt8.toNat_ofNat', Nat.mod_eq_of_lt (by omega)]
    rfl
  case isFalse =>
    -- the other bytes are 128 and more
    exfalso
    split at h
    · simp only [List.mem_cons, List.not_mem_nil, or_false] at h
      rcases h with rfl | rfl <;> rw [UInt8.toNat_ofNat'] at hb <;> omega
    · split at h
      · simp only [List.mem_cons, List.not_mem_nil, or_false] at h
        rcases h with rfl | rfl | rfl <;> rw [UInt8.toNat_ofNat'] at hb <;> omega
      · simp only [List.mem_cons, List.not_mem_nil, or_false] at h
        rcases h with rfl | rfl | rfl | rfl <;> rw [UInt8.toNat_ofNat'] at hb <;> omega

theorem head_utf8EncodeChar (c : Char) :
    ∃ b r, String.utf8EncodeChar c = b :: r ∧ (b.toNat < 128 ∨ 192 ≤ b.toNat) := by
  unfold String.utf8EncodeChar
  dsimp only
  split
  · exact ⟨_, _, rfl, .inl (by rw [UInt8.toNat_ofNat']; omega)⟩
  · split
    · exact ⟨_, _, rfl, .inr (by rw [UInt8.toNat_ofNat']; omega)⟩
    · split
      · exact ⟨_, _, rfl, .inr (by rw [UInt8.toNat_ofNat']; omega)⟩
      · exact ⟨_, _, rfl, .inr (by rw [UInt8.toNat_ofNat']; omega)⟩

/-- Bytes of a text begin with a small one, or with one of 192 and more. -/
theorem first_encode {b : UInt8} {r : List UInt8} {s : List Char} (h : encode s = b :: r) :
    b.toNat < 128 ∧ (∃ t, r = encode t) ∨ 192 ≤ b.toNat := by
  cases s with
  | nil => cases h
  | cons c t =>
    obtain ⟨b', r', hc, hb⟩ := head_utf8EncodeChar c
    rw [encode_cons, hc] at h
    obtain ⟨rfl, hr⟩ := List.cons.inj h
    refine hb.imp_left fun hsmall => ⟨hsmall, t, ?_⟩
    obtain ⟨hone, -⟩ := eq_of_mem_utf8EncodeChar (hc ▸ List.mem_cons_self) hsmall
    obtain rfl := (List.cons.inj (hc.symm.trans hone)).2
    exact hr.symm

/-! ## 2. Lengths -/

theorem length_utf8EncodeChar_pos (c : Char) : 0 < (String.utf8EncodeChar c).length := by
  rw [String.length_utf8EncodeChar]
  exact c.utf8Size_pos

theorem length_utf8EncodeChar_eq_one_iff (c : Char) :
    (String.utf8EncodeChar c).length = 1 ↔ c.toNat < 128 := by
  rw [String.length_utf8EncodeChar, Char.utf8Size_eq_one_iff, UInt32.le_iff_toNat_le]
  exact Nat.lt_succ_iff.symm

/-- There are at least as many bytes as characters, -/
theorem length_le_encode (s : List Char) : s.length ≤ (encode s).length := by
  induction s with
  | nil => exact le_refl _
  | cons c s ih =>
    have hc := length_utf8EncodeChar_pos c
    rw [encode_cons, List.length_append, List.length_cons]
    omega

/-- and as many only if they are all small. -/
theorem length_encode_iff {s : List Char} :
    (encode s).length = s.length ↔ ∀ c ∈ s, c.toNat < 128 := by
  induction s with
  | nil => exact iff_of_true rfl (List.forall_mem_nil _)
  | cons c s ih =>
    have hc := length_utf8EncodeChar_pos c
    have hs := length_le_encode s
    rw [List.forall_mem_cons, ← ih, ← length_utf8EncodeChar_eq_one_iff, encode_cons, List.length_append,
      List.length_cons]
    omega

/-! ## 3. Splitting -/

section Splitting

open Separated

/-- The byte of a small character. -/
def byte (c : Char) : UInt8 := UInt8.ofNat c.toNat

theorem toNat_byte {c : Char} (h : c.toNat < 128) : (byte c).toNat = c.toNat := by
  rw [byte, UInt8.toNat_ofNat', Nat.mod_eq_of_lt (by omega)]

theorem utf8EncodeChar_small {c : Char} (h : c.toNat < 128) : String.utf8EncodeChar c = [byte c] :=
  if_pos (Nat.le_of_lt_succ h)

theorem eq_of_byte_mem {c d : Char} (hc : c.toNat < 128) (h : byte c ∈ String.utf8EncodeChar d) :
    d = c := by
  have hbyte := toNat_byte hc
  obtain ⟨-, hd⟩ := eq_of_mem_utf8EncodeChar h (by omega)
  exact Char.toNat_inj.mp (hd.trans hbyte)

theorem map_encode_modifyHead (c : Char) (ls : List (List Char)) :
    (ls.modifyHead (c :: ·)).map encode =
      (ls.map encode).modifyHead (String.utf8EncodeChar c ++ ·) := by
  cases ls with
  | nil => rfl
  | cons l ls => rfl

/-- **Bytes are split as the text is**, at small characters. -/
theorem split_encode {x y : Char} (hx : x.toNat < 128) (hy : y.toNat < 128) (s : List Char) :
    split (byte x) (byte y) (encode s) = (split x y s).map encode := by
  induction s using split.induct x y with
  | case1 => rfl
  | case2 c =>
    by_cases hc : c = x
    · have hencode : encode [x] = [byte x] := by
        rw [encode_cons, utf8EncodeChar_small hx]
        rfl
      rw [hc, split_singleton, List.map_singleton, hencode]
      rfl
    · rw [encode_cons, split_append_of_not_mem fun hmem => hc (eq_of_byte_mem hx hmem)]
      rfl
  | case3 c d l hcd ih =>
    obtain ⟨rfl, rfl⟩ := hcd
    rw [encode_cons, encode_cons, utf8EncodeChar_small hx, utf8EncodeChar_small hy, List.singleton_append,
      List.singleton_append, split_cons_cons, if_pos ⟨rfl, rfl⟩, ih, split_cons_cons, if_pos ⟨rfl, rfl⟩]
    rfl
  | case4 c d l hcd ih =>
    rw [encode_cons, split_cons_cons, if_neg hcd, map_encode_modifyHead, ← ih]
    by_cases hc : c = x
    · obtain ⟨b, r, hd, -⟩ := head_utf8EncodeChar d
      have hb : b ≠ byte y := fun hb => hcd ⟨hc, eq_of_byte_mem hy (hb ▸ hd ▸ List.mem_cons_self)⟩
      rw [hc, utf8EncodeChar_small hx, encode_cons, hd, List.singleton_append, List.cons_append]
      exact if_neg fun h => hb h.2
    · exact split_append_of_not_mem (fun hmem => hc (eq_of_byte_mem hx hmem)) _

end Splitting

/-! ## 4. Dropping from the ends -/

theorem encode_flatten (ls : List (List Char)) : encode ls.flatten = (ls.map encode).flatten := by
  induction ls with
  | nil => rfl
  | cons l ls ih => rw [List.flatten_cons, encode_append, ih, List.map_cons, List.flatten_cons]

section Dropping

variable {p : UInt8 → Bool} {q : Char → Bool}

/-- **Bytes are dropped as the characters are** that they are the bytes of. -/
theorem dropWhile_encode (h : ∀ c, ∀ b ∈ String.utf8EncodeChar c, p b = q c) (s : List Char) :
    (encode s).dropWhile p = encode (s.dropWhile q) := by
  induction s with
  | nil => rfl
  | cons c s ih =>
    rw [encode_cons]
    cases hc : q c with
    | true =>
      rw [List.dropWhile_append_of_pos fun b hb => (h c b hb).trans hc, ih, List.dropWhile_cons_of_pos hc]
    | false =>
      obtain ⟨b, r, hr, -⟩ := head_utf8EncodeChar c
      have hb : p b = false := (h c b (hr ▸ List.mem_cons_self)).trans hc
      rw [List.dropWhile_cons_of_neg (by simp [hc]), encode_cons, hr, List.cons_append,
        List.dropWhile_cons_of_neg (by simp [hb])]

theorem rdropWhile_encode (h : ∀ c, ∀ b ∈ String.utf8EncodeChar c, p b = q c) (s : List Char) :
    (encode s).rdropWhile p = encode (s.rdropWhile q) := by
  induction s using List.reverseRecOn with
  | nil => rfl
  | append_singleton s c ih =>
    have hlast : encode (s ++ [c]) = encode s ++ String.utf8EncodeChar c := by
      rw [encode_append, encode_cons]
      exact congrArg _ (List.append_nil _)
    have hbytes : ∀ b ∈ (String.utf8EncodeChar c).reverse, p b = q c := fun b hb => h c b (List.mem_reverse.mp hb)
    unfold List.rdropWhile at ih ⊢
    rw [hlast, List.reverse_append, List.reverse_concat]
    cases hc : q c with
    | true =>
      rw [List.dropWhile_append_of_pos fun b hb => (hbytes b hb).trans hc, ih, List.dropWhile_cons_of_pos hc]
    | false =>
      obtain ⟨b, r, hr⟩ : ∃ b r, (String.utf8EncodeChar c).reverse = b :: r :=
        List.exists_cons_of_ne_nil fun hnil => by
          have hpos := length_utf8EncodeChar_pos c
          rw [List.reverse_eq_nil_iff.mp hnil] at hpos
          cases hpos
      have hb : p b = false := (hbytes b (hr ▸ List.mem_cons_self)).trans hc
      rw [List.dropWhile_cons_of_neg (by simp [hc]), List.reverse_cons, List.reverse_reverse, hlast, hr,
        List.cons_append, List.dropWhile_cons_of_neg (by simp [hb]), ← List.cons_append, ← hr,
        ← List.reverse_append, List.reverse_reverse]

end Dropping

end Utf8
end Lib
