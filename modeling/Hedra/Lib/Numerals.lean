/-
# Numerals in ASCII

What `int(text, base)` makes of a byte string: white space around it, a sign, the prefix of the base
16, and single underscores between digits are all accepted.  A plain numeral, which has digits only,
is read as its value.

* `int_eq_value`: a plain numeral is read as its value;
* `numeral_decimal`: the decimal numeral of a number has its value.
-/
import Mathlib.Data.Int.Notation
import Mathlib.Data.List.Basic
import Mathlib.Data.List.TakeWhile
import Mathlib.Tactic.Common
import Hedra.Lib.Ascii
import Hedra.Lib.Utf8

namespace Lib
namespace Numerals

/-- ASCII white space. -/
def isSpace (b : UInt8) : Bool := b = 32 ∨ 9 ≤ b ∧ b ≤ 13

def lstrip (text : List UInt8) : List UInt8 := text.dropWhile isSpace

def rstrip (text : List UInt8) : List UInt8 := (text.reverse.dropWhile isSpace).reverse

/-- The value of a digit, in either case of the letters. -/
def digit (base : ℕ) (b : UInt8) : Option ℕ :=
  let d :=
    if 48 ≤ b ∧ b ≤ 57 then b.toNat - 48
    else if 97 ≤ b ∧ b ≤ 122 then b.toNat - 87
    else if 65 ≤ b ∧ b ≤ 90 then b.toNat - 55
    else base
  if d < base then some d else none

def underscore : UInt8 := 95

/-- Digits with single underscores between them, behind digits of the value `acc`. -/
def digits (base acc : ℕ) : List UInt8 → Option ℕ
  | [] => none
  | b :: text =>
    match digit base b with
    | none => none
    | some d =>
      match text with
      | [] => some (acc * base + d)
      | c :: rest =>
        if c = underscore then digits base (acc * base + d) rest
        else digits base (acc * base + d) (c :: rest)

/-- `0x`, `0X`, and an underscore behind it. -/
def dropPrefix : List UInt8 → List UInt8
  | 48 :: x :: text =>
    if x = 120 ∨ x = 88 then
      match text with
      | [] => []
      | c :: rest => if c = underscore then rest else c :: rest
    else 48 :: x :: text
  | text => text

def unsigned (base : ℕ) (text : List UInt8) : Option ℕ :=
  digits base 0 (if base = 16 then dropPrefix text else text)

/-- `int(text, base)`, for the bases 10 and 16.  The interpreter's limit for the length of a decimal
numeral is a setting and not modelled. -/
def int (base : ℕ) (text : List UInt8) : Option ℤ :=
  match rstrip (lstrip text) with
  | [] => none
  | c :: rest =>
    if c = 45 then (unsigned base rest).map Int.negOfNat
    else if c = 43 then (unsigned base rest).map Int.ofNat
    else (unsigned base (c :: rest)).map Int.ofNat

/-! ## 1. Plain numerals -/

/-- The value of a numeral, behind digits of the value `acc`. -/
def value (base : ℕ) (acc : ℕ) (text : List UInt8) : ℕ :=
  text.foldl (fun n b => n * base + (digit base b).getD 0) acc

/-- Digits, at least one of them. -/
structure Numeral (base : ℕ) (text : List UInt8) : Prop where
  ne_nil : text ≠ []
  digits : ∀ b ∈ text, (digit base b).isSome

variable {base : ℕ} {text : List UInt8}

theorem digits_eq_value (h : Numeral base text) (acc : ℕ) :
    digits base acc text = some (value base acc text) := by
  induction text generalizing acc with
  | nil => exact absurd rfl h.ne_nil
  | cons b text ih =>
    obtain ⟨d, hd⟩ := Option.isSome_iff_exists.mp (h.digits b List.mem_cons_self)
    cases text with
    | nil => simp [Numerals.digits, value, hd]
    | cons c rest =>
      have hrest : Numeral base (c :: rest) :=
        ⟨List.cons_ne_nil _ _, fun x hx => h.digits x (List.mem_cons_of_mem _ hx)⟩
      have hc : c ≠ underscore := by
        rintro rfl
        have := hrest.digits underscore List.mem_cons_self
        simp [digit, underscore] at this
      rw [Numerals.digits, hd]
      simp only [if_neg hc]
      rw [ih hrest]
      simp [value, hd]

theorem digit_of_isSpace {b : UInt8} (h : isSpace b) : digit base b = none := by
  simp only [isSpace, decide_eq_true_eq] at h
  have hb : ¬(48 ≤ b ∧ b ≤ 57) ∧ ¬(97 ≤ b ∧ b ≤ 122) ∧ ¬(65 ≤ b ∧ b ≤ 90) := by
    rcases h with rfl | ⟨h9, h13⟩
    · decide
    · rw [UInt8.le_iff_toNat_le] at h13
      simp only [UInt8.le_iff_toNat_le]
      simp at h13 ⊢
      omega
  simp [digit, hb]

theorem Numeral.not_isSpace (h : Numeral base text) {b : UInt8} (hb : b ∈ text) :
    isSpace b = false := by
  by_contra hsp
  have := h.digits b hb
  rw [digit_of_isSpace (by simpa using hsp)] at this
  cases this

/-- White space behind a numeral is taken off. -/
theorem rstrip_append (h : Numeral base text) {space : List UInt8}
    (hspace : ∀ b ∈ space, isSpace b) : rstrip (text ++ space) = text := by
  have hrev : text.reverse.dropWhile isSpace = text.reverse := by
    cases hr : text.reverse with
    | nil => rfl
    | cons b r =>
      have hb : b ∈ text := List.mem_reverse.mp (by rw [hr]; exact List.mem_cons_self)
      rw [List.dropWhile_cons, if_neg (by rw [h.not_isSpace hb]; exact Bool.false_ne_true)]
  rw [rstrip, List.reverse_append, List.dropWhile_append, hrev]
  have hnil : space.reverse.dropWhile isSpace = [] :=
    List.dropWhile_eq_nil_iff.mpr fun b hb => hspace b (List.mem_reverse.mp hb)
  simp [hnil]

theorem lstrip_eq (h : Numeral base text) : lstrip text = text := by
  cases text with
  | nil => rfl
  | cons b text =>
    rw [lstrip, List.dropWhile_cons,
      if_neg (by rw [h.not_isSpace List.mem_cons_self]; exact Bool.false_ne_true)]

theorem unsigned_eq_value (h : Numeral base text) :
    unsigned base text = some (value base 0 text) := by
  have hpre : base = 16 → dropPrefix text = text := by
    rintro rfl
    unfold dropPrefix
    split
    · next x rest =>
      rw [if_neg]
      rintro (rfl | rfl)
      · exact absurd (h.digits 120 (by simp)) (by decide)
      · exact absurd (h.digits 88 (by simp)) (by decide)
    · rfl
  rw [unsigned]
  split
  · next hb => rw [hpre hb, digits_eq_value h]
  · exact digits_eq_value h 0

/-- **A plain numeral is read as its value.** -/
theorem int_eq_value (h : Numeral base text) : int base text = some (Int.ofNat (value base 0 text)) := by
  have hstrip : rstrip (lstrip text) = text := by
    rw [lstrip_eq h]
    simpa using rstrip_append h (List.forall_mem_nil _)
  have hsign : ∀ b, digit base b = none → b ∉ text := fun b hb hmem => by
    have := h.digits b hmem
    rw [hb] at this
    cases this
  rw [int, hstrip]
  cases text with
  | nil => exact absurd rfl h.ne_nil
  | cons c rest =>
    have h45 : c ≠ 45 := fun hc => hsign 45 (by simp [digit]) (hc ▸ List.mem_cons_self)
    have h43 : c ≠ 43 := fun hc => hsign 43 (by simp [digit]) (hc ▸ List.mem_cons_self)
    simp only [if_neg h45, if_neg h43, unsigned_eq_value h, Option.map_some]

/-! ## 2. What is in a text that is read -/

/-- A byte that stands in no number. -/
structure Foreign (base : ℕ) (b : UInt8) : Prop where
  digit : digit base b = none
  not_space : isSpace b = false
  not_mark : b ∉ [43, 45, 48, 88, underscore, 120]

theorem not_mem_of_digits {b : UInt8} (hb : digit base b = none) (hu : b ≠ underscore) {acc n : ℕ}
    (h : digits base acc text = some n) : b ∉ text := by
  have hne : ∀ c d, digit base c = some d → b ≠ c := fun c d hc heq => by
    rw [← heq, hb] at hc
    cases hc
  induction acc, text using digits.induct base with
  | case1 acc => cases h
  | case2 acc c rest hc => simp [digits, hc] at h
  | case3 acc c d hc => simpa using hne c d hc
  | case4 acc c d hc rest ih =>
    rw [digits, hc] at h
    simp only [if_pos] at h
    simpa [hne c d hc, hu] using ih h
  | case5 acc c d hc e rest he ih =>
    rw [digits, hc] at h
    simp only [if_neg he] at h
    simpa [hne c d hc] using ih h

theorem mem_dropWhile {b : UInt8} (hb : isSpace b = false) (h : b ∈ text) :
    b ∈ text.dropWhile isSpace := by
  rw [← List.takeWhile_append_dropWhile (p := isSpace) (l := text), List.mem_append] at h
  refine h.resolve_left fun hmem => ?_
  rw [List.mem_takeWhile_imp hmem] at hb
  cases hb

theorem mem_rstrip {b : UInt8} (hb : isSpace b = false) (h : b ∈ text) : b ∈ rstrip text :=
  List.mem_reverse.mpr (mem_dropWhile hb (List.mem_reverse.mpr h))

theorem mem_dropPrefix {b : UInt8} (hb : Foreign base b) (h : b ∈ text) : b ∈ dropPrefix text := by
  have hmark := hb.not_mark
  simp only [List.mem_cons, List.not_mem_nil, or_false, not_or] at hmark
  obtain ⟨-, -, h48, h88, hu, h120⟩ := hmark
  unfold dropPrefix
  split
  · next x rest =>
    split
    · next hx =>
      have hx' : b ≠ x := by rcases hx with rfl | rfl <;> assumption
      have hrest : b ∈ rest := by simpa [h48, hx'] using h
      split
      · exact hrest
      · next c rest =>
        split
        · next hc => exact (List.mem_cons.mp hrest).resolve_left (hc ▸ hu)
        · exact hrest
    · exact h
  · exact h

theorem not_mem_of_unsigned {b : UInt8} (hb : Foreign base b) {n : ℕ}
    (h : unsigned base text = some n) : b ∉ text := by
  have hu : b ≠ underscore := fun heq => hb.not_mark (by simp [heq])
  intro hmem
  rw [unsigned] at h
  refine not_mem_of_digits hb.digit hu h ?_
  split
  · exact mem_dropPrefix hb hmem
  · exact hmem

theorem not_mem_of_int {b : UInt8} (hb : Foreign base b) {n : ℤ} (h : int base text = some n) :
    b ∉ text := by
  intro hmem
  have hstrip := mem_rstrip hb.not_space (mem_dropWhile hb.not_space hmem)
  rw [← lstrip] at hstrip
  rw [int] at h
  split at h
  · cases h
  · next c rest hc =>
    rw [hc] at hstrip
    have hrest : ∀ {d : UInt8}, d ∈ [43, 45, 48, 88, underscore, 120] → c = d → b ∈ rest := by
      rintro d hd rfl
      exact (List.mem_cons.mp hstrip).resolve_left fun heq => hb.not_mark (heq ▸ hd)
    split at h
    · next h45 =>
      obtain ⟨m, hm, -⟩ := Option.map_eq_some_iff.mp h
      exact not_mem_of_unsigned hb hm (hrest (by simp) h45)
    · split at h
      · next h43 =>
        obtain ⟨m, hm, -⟩ := Option.map_eq_some_iff.mp h
        exact not_mem_of_unsigned hb hm (hrest (by simp) h43)
      · obtain ⟨m, hm, -⟩ := Option.map_eq_some_iff.mp h
        exact not_mem_of_unsigned hb hm hstrip

/-! ## 3. Decimal numerals -/

/-- `str(n)` -/
def decimal (n : ℕ) : List Char := n.repr.toList

theorem isDigit_of_mem_decimal {n : ℕ} {c : Char} (h : c ∈ decimal n) : c.isDigit := by
  rw [decimal, Nat.toList_repr] at h
  exact Nat.isDigit_of_mem_toDigits (by omega) (by omega) h

theorem digit_byte {c : Char} (h : c.isDigit) : digit 10 (Utf8.byte c) = some (c.toNat - 48) := by
  obtain ⟨hlo, hhi⟩ := Ascii.isDigit_iff.mp h
  have hbyte : (Utf8.byte c).toNat = c.toNat := Utf8.toNat_byte (by omega)
  have hrange : 48 ≤ Utf8.byte c ∧ Utf8.byte c ≤ 57 := by
    rw [UInt8.le_iff_toNat_le, UInt8.le_iff_toNat_le, hbyte]
    exact ⟨hlo, hhi⟩
  rw [digit, if_pos hrange, hbyte, if_pos (by omega)]

theorem encode_of_isDigit {s : List Char} (h : ∀ c ∈ s, c.isDigit) :
    Utf8.encode s = s.map Utf8.byte := by
  induction s with
  | nil => rfl
  | cons c s ih =>
    have hc := Ascii.isDigit_iff.mp (h c List.mem_cons_self)
    rw [Utf8.encode_cons, Utf8.utf8EncodeChar_small (by omega),
      ih fun d hd => h d (List.mem_cons_of_mem _ hd)]
    rfl

theorem value_map_byte {s : List Char} (h : ∀ c ∈ s, c.isDigit) (acc : ℕ) :
    value 10 acc (s.map Utf8.byte) = Nat.ofDigitChars 10 s acc := by
  induction s generalizing acc with
  | nil => rfl
  | cons c s ih =>
    rw [List.map_cons, value, List.foldl_cons, ← value,
      ih fun d hd => h d (List.mem_cons_of_mem _ hd), digit_byte (h c List.mem_cons_self),
      Nat.ofDigitChars_cons, Option.getD_some, Nat.mul_comm acc]
    rfl

/-- **The decimal numeral of a number has its value.** -/
theorem numeral_decimal (n : ℕ) :
    Numeral 10 (Utf8.encode (decimal n)) ∧ value 10 0 (Utf8.encode (decimal n)) = n := by
  have hdigits : ∀ c ∈ decimal n, c.isDigit := fun _ => isDigit_of_mem_decimal
  rw [encode_of_isDigit hdigits]
  refine ⟨⟨?_, fun b hb => ?_⟩, ?_⟩
  · rw [decimal, Nat.toList_repr]
    exact fun h => Nat.toDigits_ne_nil (List.map_eq_nil_iff.mp h)
  · obtain ⟨c, hc, rfl⟩ := List.mem_map.mp hb
    rw [digit_byte (hdigits c hc)]
    rfl
  · rw [value_map_byte hdigits, decimal, Nat.toList_repr, Nat.ofDigitChars_ten_toDigits]

end Numerals
end Lib
