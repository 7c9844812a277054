/-
# Amounts with units

`MemoryParser` and `TimeParser` (`distributed/env/memory_parser.py`, `time_parser.py`) read a text with
one regular expression: numbers, each with the letter behind it if that is a unit of time.  Texts are
ASCII, and what is found of a number is made a double (`float`), which is none of the rationals from
`2 ^ 1024` on.

The other side is a list of parts: a number as it is written, with its exact value, and a word that
is called for a unit.  `finditer_text` is what both parsers start from.  Of parts that are written one
behind the other the expression finds every number whole, and no more of its word than the first
letter, and that only where the letter is a unit of time.
-/
import Mathlib.Algebra.Field.Rat
import Mathlib.Data.List.TakeWhile
import Hedra.Lib.Ascii
import Hedra.Lib.Binary64
import Hedra.Lib.Scan

namespace Hedra
namespace Env

open Lib Scan Ascii Binary64

abbrev Str := List Char

/-- `m.group('val')` and `m.group('unit')` -/
structure Match where
  val : Str
  unit : Str
deriving DecidableEq

/-- `[smhdw]`, in either case. -/
def isUnit (c : Char) : Bool := c.toLower ∈ ['s', 'm', 'h', 'd', 'w']

/-- `(\.\d+)?`, behind `whole`. -/
def withFraction (whole : Str) : Str → Str × Str
  | '.' :: rest =>
    if rest.takeWhile Char.isDigit = [] then (whole, '.' :: rest)
    else (whole ++ '.' :: rest.takeWhile Char.isDigit, rest.dropWhile Char.isDigit)
  | rest => (whole, rest)

/-- `[smhdw]?`, behind `val`. -/
def withUnit (val : Str) : Str → Match × Str
  | c :: rest => if isUnit c then (⟨val, [c]⟩, rest) else (⟨val, []⟩, c :: rest)
  | [] => (⟨val, []⟩, [])

/-- `(?P<val>\d+(\.\d+)?)(?P<unit>[smhdw]?)` -/
def amount (text : Str) : Option (Match × Str) :=
  if text.takeWhile Char.isDigit = [] then none
  else
    let (val, rest) := withFraction (text.takeWhile Char.isDigit) (text.dropWhile Char.isDigit)
    some (withUnit val rest)

/-- `re.finditer` -/
def finditer (text : Str) : List Match := findAll amount text

/-- What digits with a point, or without, are written for. -/
def decimal (val : Str) : ℚ :=
  let fraction := (val.dropWhile (· ≠ '.')).tail
  Nat.ofDigitChars 10 (val.takeWhile (· ≠ '.')) 0 + Nat.ofDigitChars 10 fraction 0 / 10 ^ fraction.length

/-- `float(val)`, if it is not infinite. -/
def float (val : Str) : Option ℚ := double (decimal val)

/-! ## 1. Parts -/

/-- A number, as it is written. -/
structure Numeral where
  whole : Str
  fraction : Str
  whole_ne_nil : whole ≠ []
  whole_digits : ∀ c ∈ whole, c.isDigit = true
  fraction_digits : ∀ c ∈ fraction, c.isDigit = true

def Numeral.text (n : Numeral) : Str :=
  n.whole ++ if n.fraction = [] then [] else '.' :: n.fraction

def Numeral.value (n : Numeral) : ℚ :=
  Nat.ofDigitChars 10 n.whole 0 + Nat.ofDigitChars 10 n.fraction 0 / 10 ^ n.fraction.length

variable {U : Type} {names : U → List Str}

/-- A number, and a word for its unit. -/
structure Part (names : U → List Str) where
  number : Numeral
  word : Str
  unit : U
  named : word.map Char.toLower ∈ names unit

/-- The parts, one behind the other. -/
def text (parts : List (Part names)) : Str := parts.flatMap fun p => p.number.text ++ p.word

/-- The units are called by words. -/
def Words (names : U → List Str) : Prop := ∀ u, ∀ w ∈ names u, w ≠ [] ∧ ∀ c ∈ w, c.isLower = true

/-- What the expression takes for the unit. -/
def letter (word : Str) : Str := (word.take 1).filter isUnit

/-! ## 2. What is found -/

theorem ne_point_of_toLower {c : Char} (h : c.toLower.isLower = true) : c ≠ '.' := by
  rintro rfl
  exact absurd h (by decide)

variable {parts : List (Part names)}

/-- The names of the units, evaluated. -/
theorem words_of_all (h : ∀ u, (names u).all (fun w => !w.isEmpty && w.all Char.isLower) = true) :
    Words names := by
  intro u w hw
  have hboth := List.all_eq_true.mp (h u) w hw
  rw [Bool.and_eq_true, Bool.not_eq_true', List.isEmpty_eq_false_iff, List.all_eq_true] at hboth
  exact hboth

theorem Part.letters (hwords : Words names) (p : Part names) :
    p.word ≠ [] ∧ ∀ c ∈ p.word, c.toLower.isLower = true := by
  obtain ⟨hne, hlower⟩ := hwords p.unit _ p.named
  exact ⟨fun hnil => hne (by rw [hnil]; rfl), fun c hc => hlower _ (List.mem_map_of_mem hc)⟩

theorem takeWhile_digits {digits : Str} (h : ∀ c ∈ digits, c.isDigit = true) {rest : Str}
    (hrest : ∀ c ∈ rest.head?, c.isDigit = false) :
    (digits ++ rest).takeWhile Char.isDigit = digits ∧
      (digits ++ rest).dropWhile Char.isDigit = rest := by
  rw [List.takeWhile_append_of_pos h, List.dropWhile_append_of_pos h]
  cases rest with
  | nil => exact ⟨List.append_nil _, rfl⟩
  | cons c rest =>
    have hc : ¬ c.isDigit = true := by rw [hrest c rfl]; exact Bool.false_ne_true
    rw [List.takeWhile_cons_of_neg hc, List.dropWhile_cons_of_neg hc]
    exact ⟨List.append_nil _, rfl⟩

theorem withFraction_of_ne {c : Char} (h : c ≠ '.') (whole rest : Str) :
    withFraction whole (c :: rest) = (whole, c :: rest) := by
  unfold withFraction
  split
  · next heq => exact absurd (List.cons.inj heq).1 h
  · rfl

/-- A number is taken whole, with the letter behind it if that is a unit. -/
theorem amount_numeral (n : Numeral) {c : Char} (hdigit : c.isDigit = false) (hpoint : c ≠ '.')
    (rest : Str) : amount (n.text ++ c :: rest) = some (withUnit n.text (c :: rest)) := by
  have hc : ∀ d ∈ (c :: rest).head?, d.isDigit = false := by
    rintro d ⟨⟩
    exact hdigit
  by_cases hf : n.fraction = []
  · have htext : n.text = n.whole := by rw [Numeral.text, if_pos hf, List.append_nil]
    have ⟨htake, hdrop⟩ := takeWhile_digits n.whole_digits hc
    rw [htext, amount, htake, hdrop, if_neg n.whole_ne_nil, withFraction_of_ne hpoint]
  · have htext : n.text = n.whole ++ '.' :: n.fraction := by rw [Numeral.text, if_neg hf]
    have hdot : ∀ d ∈ ('.' :: (n.fraction ++ c :: rest)).head?, d.isDigit = false := by
      rintro d ⟨⟩
      rfl
    have ⟨htake, hdrop⟩ := takeWhile_digits n.whole_digits hdot
    have ⟨htake', hdrop'⟩ := takeWhile_digits n.fraction_digits hc
    rw [htext, List.append_assoc, List.cons_append, amount, htake, hdrop, if_neg n.whole_ne_nil,
      withFraction, htake', hdrop', if_neg hf]

theorem amount_of_not_digit {c : Char} (h : c.isDigit = false) (rest : Str) :
    amount (c :: rest) = none := by
  have hc : ¬ c.isDigit = true := by rw [h]; exact Bool.false_ne_true
  rw [amount, List.takeWhile_cons_of_neg hc, if_pos rfl]

theorem length_withFraction_le (whole rest : Str) : (withFraction whole rest).2.length ≤ rest.length := by
  unfold withFraction
  split
  · split
    · exact Nat.le_refl _
    · exact Nat.le_succ_of_le (List.dropWhile_sublist _).length_le
  · exact Nat.le_refl _

theorem length_withUnit_le (val rest : Str) : (withUnit val rest).2.length ≤ rest.length := by
  unfold withUnit
  split
  · split
    · exact Nat.le_succ _
    · exact Nat.le_refl _
  · exact Nat.le_refl _

theorem amount_consumes : Consumes amount := by
  intro text m rest h
  unfold amount at h
  split at h
  · cases h
  · next hne =>
    have hsplit := congrArg List.length (List.takeWhile_append_dropWhile (p := Char.isDigit) (l := text))
    rw [List.length_append] at hsplit
    have hpos := List.length_pos_of_ne_nil hne
    have hunit := length_withUnit_le
      (withFraction (text.takeWhile Char.isDigit) (text.dropWhile Char.isDigit)).1
      (withFraction (text.takeWhile Char.isDigit) (text.dropWhile Char.isDigit)).2
    have hfraction :=
      length_withFraction_le (text.takeWhile Char.isDigit) (text.dropWhile Char.isDigit)
    have hrest : (withUnit
        (withFraction (text.takeWhile Char.isDigit) (text.dropWhile Char.isDigit)).1
        (withFraction (text.takeWhile Char.isDigit) (text.dropWhile Char.isDigit)).2).2 = rest :=
      congrArg Prod.snd (Option.some.inj h)
    rw [← hrest]
    omega

/-- **What is found of parts.** -/
theorem finditer_text (hwords : Words names) (parts : List (Part names)) :
    finditer (text parts) = parts.map fun p => ⟨p.number.text, letter p.word⟩ := by
  induction parts with
  | nil => rfl
  | cons p parts ih =>
    obtain ⟨hne, hletters⟩ := p.letters hwords
    cases hword : p.word with
    | nil => exact absurd hword hne
    | cons c rest =>
      rw [hword] at hletters
      have hskip : ∀ d ∈ c :: rest, ∀ ds, amount (d :: ds) = none := fun d hd ds =>
        amount_of_not_digit (not_isDigit_of_toLower (hletters d hd)) ds
      have hc := hletters c List.mem_cons_self
      have htext : text (p :: parts) = p.number.text ++ c :: (rest ++ text parts) := by
        rw [text, List.flatMap_cons, hword, List.append_assoc]
        rfl
      have hmatch := amount_numeral p.number (not_isDigit_of_toLower hc) (ne_point_of_toLower hc)
        (rest ++ text parts)
      have hne' : p.number.text ++ c :: (rest ++ text parts) ≠ [] := by simp
      rw [htext, finditer, List.map_cons, ← ih, finditer]
      by_cases hunit : isUnit c = true
      · have hw : withUnit p.number.text (c :: (rest ++ text parts)) =
            (⟨p.number.text, [c]⟩, rest ++ text parts) := if_pos hunit
        have hl : letter (c :: rest) = [c] := by simp [letter, hunit]
        rw [findAll_of_match amount_consumes (hmatch.trans (congrArg some hw)) hne', hword, hl,
          findAll_skip fun d hd => hskip d (List.mem_cons_of_mem _ hd)]
      · have hw : withUnit p.number.text (c :: (rest ++ text parts)) =
            (⟨p.number.text, []⟩, c :: rest ++ text parts) := if_neg hunit
        have hl : letter (c :: rest) = [] := by simp [letter, hunit]
        rw [findAll_of_match amount_consumes (hmatch.trans (congrArg some hw)) hne', hword, hl,
          findAll_skip hskip]

/-- A number is written for its value. -/
theorem decimal_text (n : Numeral) : decimal n.text = n.value := by
  obtain ⟨whole, fraction, hne, hwhole, hfraction⟩ := n
  have hpoint : ∀ c ∈ whole, decide (c ≠ '.') = true := by
    intro c hc
    refine decide_eq_true ?_
    rintro rfl
    exact absurd (hwhole _ hc) (by decide)
  unfold decimal Numeral.text Numeral.value
  dsimp only
  rw [List.takeWhile_append_of_pos hpoint, List.dropWhile_append_of_pos hpoint]
  by_cases hf : fraction = []
  · subst hf
    simp
  · rw [if_neg hf]
    simp

theorem float_text (n : Numeral) : float n.text = double n.value := by rw [float, decimal_text]

end Env
end Hedra
