/-
# Durations

`TimeParser` (`distributed/env/time_parser.py`) takes the letter behind each number for the unit, so
that `ms` is read as minutes, and makes keyword arguments of the parts, of which a later one overwrites
an earlier one of the same letter.  What `timedelta` makes of them is reckoned as CPython does: the
whole part of a number in integers, what a double holds of the rest in microseconds, the fractions of
these added up in doubles, and the nearest whole number of microseconds at the end.

`denotesTimes_iff_read` says which durations are read right: those for which what the last parts of the
letters are read for (`readMicroseconds`) rounds to a number of microseconds that has one double with
the sum.  `denotesTimes_of_whole` is the plain case: no letter twice, no milliseconds, no decimals, and
less than `10 ^ 9` days.  `denotes_iff_read` puts both parsers together.
-/
import Mathlib.Algebra.BigOperators.Ring.List
import Mathlib.Algebra.Order.BigOperators.Group.List
import Mathlib.Tactic.NormNum
import Hedra.Lib.LastWrite
import Hedra.Env.MemoryParser

namespace Hedra
namespace Env

open Lib HalfEven Ascii Binary64

/-- The keywords of `timedelta`. -/
inductive Keyword
  | seconds
  | minutes
  | hours
  | days
  | weeks
deriving DecidableEq

namespace Keyword

def UNITS : List (Str × Keyword) :=
  [("s".toList, seconds), ("m".toList, minutes), ("h".toList, hours), ("d".toList, days),
    ("w".toList, weeks)]

/-- In the order in which `timedelta` adds them up. -/
def order : List Keyword := [seconds, minutes, hours, days, weeks]

def inSeconds : Keyword → ℤ
  | seconds => 1
  | minutes => 60
  | hours => 3600
  | days => 86400
  | weeks => 604800

/-- The whole microseconds of a number, and what is left of them. -/
def microseconds (k : Keyword) (num : ℚ) : ℤ × ℚ :=
  let fraction := rounded (Int.fract num * (k.inSeconds * 10 ^ 6 : ℤ))
  (⌊num⌋ * (k.inSeconds * 10 ^ 6) + ⌊fraction⌋, Int.fract fraction)

end Keyword

/-- The microseconds of a day. -/
def dayMicroseconds : ℤ := 86400000000

/-- `accum`, of one more keyword. -/
def accum (sofar : ℤ × ℚ) (k : Keyword) (num : ℚ) : ℤ × ℚ :=
  (sofar.1 + (k.microseconds num).1, rounded (sofar.2 + (k.microseconds num).2))

/-- A keyword that is not given adds nothing, and an infinite number cannot be made an integer. -/
def accumGiven (kwargs : Dict Keyword (Option ℚ)) (sofar : ℤ × ℚ) (k : Keyword) : Option (ℤ × ℚ) :=
  match kwargs.get? k with
  | none => some sofar
  | some num => num.map (accum sofar k)

/-- A number of microseconds, if there is a `timedelta` of so many days. -/
def ofMicroseconds (n : ℤ) : Option ℤ :=
  if -999999999 ≤ n / dayMicroseconds ∧ n / dayMicroseconds ≤ 999999999 then some n else none

/-- `timedelta(**kwargs)`, in microseconds. -/
def timedelta (kwargs : Dict Keyword (Option ℚ)) : Option ℤ :=
  (Keyword.order.foldlM (accumGiven kwargs) (0, 0)).bind fun sum => ofMicroseconds (halfEven (sum.1 + sum.2))

namespace TimeParser

def kwargs (timeAmount : Str) : Dict Keyword (Option ℚ) :=
  .ofList ((finditer timeAmount).map fun m =>
    ((Keyword.UNITS.lookup (m.unit.map Char.toLower)).getD .seconds, float m.val))

/-- `time`, in seconds. -/
def time (timeAmount : Str) : Option ℚ :=
  (timedelta (kwargs timeAmount)).bind fun microseconds : ℤ => double (microseconds / 10 ^ 6)

end TimeParser

/-! ## 1. What a duration is -/

inductive TimeUnit
  | milliseconds
  | seconds
  | minutes
  | hours
  | days
  | weeks
deriving DecidableEq

namespace TimeUnit

/-- What a unit is called. -/
def names : TimeUnit → List Str
  | milliseconds => ["ms".toList, "milliseconds".toList]
  | seconds => ["s".toList, "seconds".toList]
  | minutes => ["m".toList, "minutes".toList]
  | hours => ["h".toList, "hours".toList]
  | days => ["d".toList, "days".toList]
  | weeks => ["w".toList, "weeks".toList]

/-- What it is read as. -/
def read : TimeUnit → Keyword
  | milliseconds => .minutes
  | seconds => .seconds
  | minutes => .minutes
  | hours => .hours
  | days => .days
  | weeks => .weeks

/-- How many seconds a unit has. -/
def inSeconds : TimeUnit → ℚ
  | milliseconds => 1 / 1000
  | u => u.read.inSeconds

end TimeUnit

/-- A number and a unit of time. -/
abbrev Time := Part TimeUnit.names

def Time.seconds (p : Time) : ℚ := p.number.value * p.unit.inSeconds

/-- The sum of the durations, in seconds. -/
def totalSeconds (times : List Time) : ℚ := (times.map Time.seconds).sum

/-- The parser denotes the sum of the durations. -/
def DenotesTimes (times : List Time) : Prop := IsDouble (TimeParser.time (text times)) (totalSeconds times)

/-- The unit a part is read in. -/
def Time.key (p : Time) : Keyword := p.unit.read

/-- The last part of each letter. -/
def lasts (times : List Time) : List Time := Keyword.order.filterMap (lastWith Time.key times)

/-- What a part is read for: its number is a double, and milliseconds are minutes. -/
def Time.microseconds (p : Time) : ℤ × ℚ := p.key.microseconds (rounded p.number.value)

/-- What the last parts of the letters are read for.  Their fractions are added up in doubles. -/
def readMicroseconds (times : List Time) : ℚ :=
  ((lasts times).map fun p => p.microseconds.1).sum +
    (((lasts times).map fun p => p.microseconds.2).foldl (fun leftover d => rounded (leftover + d)) 0)

/-- The last parts of the letters have finite numbers and are read for what rounds to a number of
microseconds, of no more days than there are, that has one double with the sum of all parts. -/
def ReadByLetters (times : List Time) : Prop :=
  (∀ p ∈ lasts times, |rounded p.number.value| < 2 ^ 1024) ∧
    ∃ n : ℤ, |readMicroseconds times - n| ≤ 1 / 2 ∧
      (|readMicroseconds times - n| = 1 / 2 → n % 2 = 0) ∧ n / dayMicroseconds ≤ 999999999 ∧
      IsDouble (double (n / 10 ^ 6)) (totalSeconds times)

/-! ## 2. What is read -/

theorem words_time : Words TimeUnit.names := by
  refine words_of_all fun u => ?_
  cases u <;> decide

/-- The first letter of a word, in lower case. -/
theorem map_letter {word : Str} (hletters : ∀ c ∈ word, c.toLower.isLower = true)
    (h : ∀ c ∈ (word.map Char.toLower).head?, isUnit c = true) :
    (letter word).map Char.toLower = (word.map Char.toLower).take 1 := by
  cases word with
  | nil => rfl
  | cons c rest =>
    have hunit : isUnit c = true := by
      have hlower := h c.toLower rfl
      unfold isUnit at hlower ⊢
      rwa [toLower_of_isLower (hletters c List.mem_cons_self)] at hlower
    simp [letter, hunit]

/-- **The letter of a unit.** -/
theorem lookup_unit (p : Time) :
    Keyword.UNITS.lookup ((letter p.word).map Char.toLower) = some p.key := by
  have hnames : ∀ u, (TimeUnit.names u).all (fun w => w.head?.all isUnit &&
      decide (Keyword.UNITS.lookup (w.take 1) = some u.read)) = true := by
    intro u
    cases u <;> decide
  have hboth := List.all_eq_true.mp (hnames p.unit) _ p.named
  rw [Bool.and_eq_true, Option.all_eq_true, decide_eq_true_iff] at hboth
  obtain ⟨hhead, hlookup⟩ := hboth
  rw [map_letter (p.letters words_time).2 hhead, hlookup]
  rfl

/-- **The last part of a letter is the number of its keyword.** -/
theorem get?_kwargs (times : List Time) (k : Keyword) :
    (TimeParser.kwargs (text times)).get? k =
      (lastWith Time.key times k).map fun p => double p.number.value := by
  have hread : (finditer (text times)).map (fun m =>
      ((Keyword.UNITS.lookup (m.unit.map Char.toLower)).getD Keyword.seconds, float m.val)) =
        times.map fun p => (p.key, double p.number.value) := by
    rw [finditer_text words_time, List.map_map]
    refine List.map_congr_left fun p _ => ?_
    simp only [Function.comp_apply, lookup_unit, Option.getD_some, float_text]
  rw [TimeParser.kwargs, hread, Dict.get?_ofList, lastWith_map, Option.map_map]
  rfl

/-- The keywords that are given, one after the other. -/
theorem foldlM_accumGiven (times : List Time) (ks : List Keyword) (sofar : ℤ × ℚ) :
    ks.foldlM (accumGiven (TimeParser.kwargs (text times))) sofar =
      (ks.filterMap (lastWith Time.key times)).foldlM
        (fun sofar p => (double p.number.value).map (accum sofar p.key)) sofar := by
  induction ks generalizing sofar with
  | nil => rfl
  | cons k ks ih =>
    rw [List.foldlM_cons, accumGiven, get?_kwargs]
    cases hlast : lastWith Time.key times k with
    | none =>
      rw [List.filterMap_cons_none hlast, ← ih]
      rfl
    | some p =>
      obtain rfl := key_of_lastWith hlast
      rw [List.filterMap_cons_some hlast, List.foldlM_cons]
      exact congrArg _ (funext ih)

/-- They come to something where their numbers are finite. -/
theorem foldlM_accum_iff (parts : List Time) (sofar r : ℤ × ℚ) :
    parts.foldlM (fun sofar p => (double p.number.value).map (accum sofar p.key)) sofar = some r ↔
      (∀ p ∈ parts, |rounded p.number.value| < 2 ^ 1024) ∧
        parts.foldl (fun sofar p => accum sofar p.key (rounded p.number.value)) sofar = r := by
  induction parts generalizing sofar with
  | nil => simp
  | cons p parts ih =>
    rw [List.foldlM_cons, List.forall_mem_cons, List.foldl_cons, and_assoc, ← ih]
    unfold double
    split
    · next hlt => exact (and_iff_right hlt).symm
    · next hlt => exact ⟨fun h => (nomatch h), fun h => absurd h.1 hlt⟩

/-- The whole microseconds are added up exactly, and the fractions in doubles. -/
theorem foldl_accum (parts : List Time) (whole : ℤ) (leftover : ℚ) :
    parts.foldl (fun sofar p => accum sofar p.key (rounded p.number.value)) (whole, leftover) =
      (whole + (parts.map fun p => p.microseconds.1).sum,
        (parts.map fun p => p.microseconds.2).foldl (fun leftover d => rounded (leftover + d)) leftover) := by
  induction parts generalizing whole leftover with
  | nil => simp
  | cons p parts ih =>
    rw [List.foldl_cons, accum, ih, List.map_cons, List.sum_cons, List.map_cons, List.foldl_cons, add_assoc]
    rfl

/-- **What the keywords come to.** -/
theorem timedelta_iff (times : List Time) (n : ℤ) :
    timedelta (TimeParser.kwargs (text times)) = some n ↔
      (∀ p ∈ lasts times, |rounded p.number.value| < 2 ^ 1024) ∧ halfEven (readMicroseconds times) = n ∧
        -999999999 ≤ n / dayMicroseconds ∧ n / dayMicroseconds ≤ 999999999 := by
  have hfold := fun r => foldlM_accum_iff (lasts times) (0, 0) r
  rw [foldl_accum, zero_add] at hfold
  rw [timedelta, foldlM_accumGiven, Option.bind_eq_some_iff]
  constructor
  · rintro ⟨r, hr, hn⟩
    obtain ⟨hfinite, rfl⟩ := (hfold r).mp hr
    obtain ⟨hdays, hsome⟩ := Option.ite_none_right_eq_some.mp hn
    obtain rfl := Option.some.inj hsome
    exact ⟨hfinite, rfl, hdays⟩
  · rintro ⟨hfinite, rfl, hdays⟩
    exact ⟨_, (hfold _).mpr ⟨hfinite, rfl⟩, if_pos hdays⟩

/-! ## 3. Where it is right -/

theorem Numeral.value_nonneg (n : Numeral) : 0 ≤ n.value := by
  unfold Numeral.value
  positivity

theorem Time.seconds_nonneg (p : Time) : 0 ≤ p.seconds := by
  refine mul_nonneg p.number.value_nonneg ?_
  cases p.unit <;> norm_num [TimeUnit.inSeconds, TimeUnit.read, Keyword.inSeconds]

theorem microseconds_nonneg (p : Time) : 0 ≤ p.microseconds.1 ∧ 0 ≤ p.microseconds.2 := by
  have hunit : 0 ≤ p.key.inSeconds * 10 ^ 6 := by cases p.key <;> decide
  have hfraction : 0 ≤ rounded (Int.fract (rounded p.number.value) * (p.key.inSeconds * 10 ^ 6 : ℤ)) :=
    rounded_nonneg (mul_nonneg (Int.fract_nonneg _) (by exact_mod_cast hunit))
  have hwhole : 0 ≤ ⌊rounded p.number.value⌋ := Int.floor_nonneg.mpr (rounded_nonneg p.number.value_nonneg)
  exact ⟨add_nonneg (mul_nonneg hwhole hunit) (Int.floor_nonneg.mpr hfraction), Int.fract_nonneg _⟩

theorem foldl_rounded_nonneg {fractions : List ℚ} (h : ∀ d ∈ fractions, 0 ≤ d) {leftover : ℚ}
    (hleftover : 0 ≤ leftover) :
    0 ≤ fractions.foldl (fun leftover d => rounded (leftover + d)) leftover := by
  induction fractions generalizing leftover with
  | nil => exact hleftover
  | cons d fractions ih =>
    obtain ⟨hd, hrest⟩ := List.forall_mem_cons.mp h
    exact ih hrest (rounded_nonneg (add_nonneg hleftover hd))

theorem readMicroseconds_nonneg (times : List Time) : 0 ≤ readMicroseconds times := by
  have hwhole : 0 ≤ ((lasts times).map fun p => p.microseconds.1).sum := by
    refine List.sum_nonneg fun q hq => ?_
    obtain ⟨p, -, rfl⟩ := List.mem_map.mp hq
    exact (microseconds_nonneg p).1
  refine add_nonneg (by exact_mod_cast hwhole) (foldl_rounded_nonneg (fun d hd => ?_) le_rfl)
  obtain ⟨p, -, rfl⟩ := List.mem_map.mp hd
  exact (microseconds_nonneg p).2

/-- **The durations that are read right.** -/
theorem denotesTimes_iff_read (times : List Time) : DenotesTimes times ↔ ReadByLetters times := by
  constructor
  · rintro ⟨s, htime, htotal⟩
    obtain ⟨n, hn, hdouble⟩ := Option.bind_eq_some_iff.mp htime
    obtain ⟨hfinite, hnear, -, hdays⟩ := (timedelta_iff times n).mp hn
    obtain ⟨hle, htie⟩ := halfEven_eq_iff.mp hnear
    exact ⟨hfinite, n, hle, htie, hdays, s, hdouble, htotal⟩
  · rintro ⟨hfinite, n, hle, htie, hdays, s, hdouble, htotal⟩
    have hnear : halfEven (readMicroseconds times) = n := halfEven_eq_iff.mpr ⟨hle, htie⟩
    have hread : ((0 : ℤ) : ℚ) ≤ readMicroseconds times := by
      rw [Int.cast_zero]
      exact readMicroseconds_nonneg times
    have hdiv : 0 ≤ n / dayMicroseconds := Int.ediv_nonneg (hnear ▸ le_halfEven hread) (by decide)
    have htimedelta := (timedelta_iff times n).mpr ⟨hfinite, hnear, by omega, hdays⟩
    exact ⟨s, Option.bind_eq_some_iff.mpr ⟨n, htimedelta, hdouble⟩, htotal⟩

/-! ## 4. Whole numbers -/

theorem totalSeconds_nonneg (times : List Time) : 0 ≤ totalSeconds times := by
  refine List.sum_nonneg fun q hq => ?_
  obtain ⟨p, -, rfl⟩ := List.mem_map.mp hq
  exact p.seconds_nonneg

theorem le_totalSeconds {times : List Time} {p : Time} (h : p ∈ times) : p.seconds ≤ totalSeconds times :=
  List.single_le_sum (fun q hq => by
    obtain ⟨p, -, rfl⟩ := List.mem_map.mp hq
    exact p.seconds_nonneg) _ (List.mem_map_of_mem h)

theorem inSeconds_key {p : Time} (h : p.unit ≠ .milliseconds) :
    p.unit.inSeconds = p.key.inSeconds ∧ 1 ≤ p.key.inSeconds := by
  unfold Time.key
  cases hunit : p.unit with
  | milliseconds => exact absurd hunit h
  | seconds | minutes | hours | days | weeks => exact ⟨rfl, by decide⟩

theorem value_le_seconds {p : Time} (h : p.unit ≠ .milliseconds) : p.number.value ≤ p.seconds := by
  obtain ⟨hseconds, hone⟩ := inSeconds_key h
  refine le_mul_of_one_le_right p.number.value_nonneg ?_
  rw [hseconds]
  exact_mod_cast hone

/-- A whole number is read exactly. -/
theorem microseconds_of_whole {p : Time} (hunit : p.unit ≠ .milliseconds) {n : ℕ}
    (hn : p.number.value = n) (hlt : p.seconds < 10 ^ 9 * 86400) :
    rounded p.number.value = n ∧ (p.microseconds.1 : ℚ) = p.seconds * 10 ^ 6 ∧ p.microseconds.2 = 0 := by
  obtain ⟨hseconds, -⟩ := inSeconds_key hunit
  have hsmall : (n : ℚ) < 10 ^ 9 * 86400 := hn ▸ (value_le_seconds hunit).trans_lt hlt
  have hkept : rounded p.number.value = n := by
    have hbound : |(n : ℤ)| ≤ 2 ^ 53 := by
      have hless : n < 10 ^ 9 * 86400 := by exact_mod_cast hsmall
      rw [abs_of_nonneg (Int.natCast_nonneg n)]
      omega
    rw [hn]
    exact_mod_cast rounded_intCast hbound
  refine ⟨hkept, ?_⟩
  rw [Time.microseconds, hkept, Keyword.microseconds, Int.fract_natCast, zero_mul, rounded_zero,
    Int.floor_zero, Int.fract_zero, Int.floor_natCast, add_zero, Time.seconds, hn, hseconds]
  refine ⟨?_, rfl⟩
  push_cast
  ring

/-- Where no letter comes twice, every part remains. -/
theorem perm_lasts {times : List Time} (h : (times.map Time.key).Nodup) : (lasts times).Perm times := by
  have hkeys : (lasts times).Nodup := by
    refine List.Nodup.filterMap (fun k k' p hk hk' => ?_) (by decide)
    rw [← key_of_lastWith hk, ← key_of_lastWith hk']
  refine (List.perm_ext_iff_of_nodup hkeys h.of_map).mpr fun p => ?_
  have horder : ∀ k, k ∈ Keyword.order := by
    intro k
    cases k <;> decide
  rw [lasts, List.mem_filterMap]
  constructor
  · rintro ⟨k, -, hk⟩
    exact mem_of_lastWith hk
  · intro hp
    exact ⟨p.key, horder _, (lastWith_eq_some_iff h).mpr hp⟩

theorem foldl_rounded_zero {fractions : List ℚ} (h : ∀ d ∈ fractions, d = 0) :
    fractions.foldl (fun leftover d => rounded (leftover + d)) 0 = 0 := by
  induction fractions with
  | nil => rfl
  | cons d fractions ih =>
    obtain ⟨rfl, hrest⟩ := List.forall_mem_cons.mp h
    rw [List.foldl_cons, add_zero, rounded_zero, ih hrest]

/-- **Whole numbers of seconds to weeks, no letter twice, are read right.** -/
theorem denotesTimes_of_whole {times : List Time} (hunits : ∀ p ∈ times, p.unit ≠ .milliseconds)
    (hkeys : (times.map Time.key).Nodup) (hwhole : ∀ p ∈ times, ∃ n : ℕ, p.number.value = n)
    (hdays : totalSeconds times < 10 ^ 9 * 86400) : DenotesTimes times := by
  have hperm := perm_lasts hkeys
  have hread : ∀ p ∈ times, rounded p.number.value = p.number.value ∧
      (p.microseconds.1 : ℚ) = p.seconds * 10 ^ 6 ∧ p.microseconds.2 = 0 := by
    intro p hp
    obtain ⟨n, hn⟩ := hwhole p hp
    obtain ⟨hkept, hrest⟩ := microseconds_of_whole (hunits p hp) hn ((le_totalSeconds hp).trans_lt hdays)
    exact ⟨hkept.trans hn.symm, hrest⟩
  have hsum : (((times.map fun p => p.microseconds.1).sum : ℤ) : ℚ) = totalSeconds times * 10 ^ 6 := by
    rw [totalSeconds, ← List.sum_map_mul_right]
    refine (map_list_sum (Int.castRingHom ℚ) _).trans ?_
    rw [List.map_map]
    exact congrArg List.sum (List.map_congr_left fun p hp => (hread p hp).2.1)
  have hmicroseconds : readMicroseconds times = ((times.map fun p => p.microseconds.1).sum : ℤ) := by
    have hzero : ∀ d ∈ (lasts times).map fun p => p.microseconds.2, d = 0 := by
      intro d hd
      obtain ⟨p, hp, rfl⟩ := List.mem_map.mp hd
      exact (hread p (hperm.mem_iff.mp hp)).2.2
    rw [readMicroseconds, foldl_rounded_zero hzero, add_zero, (hperm.map _).sum_eq]
  have hnonneg := totalSeconds_nonneg times
  have hlarge : (10 ^ 9 * 86400 : ℚ) < 2 ^ 1023 :=
    (by norm_num : (10 ^ 9 * 86400 : ℚ) < 2 ^ 47).trans_le (pow_le_pow_right₀ (by norm_num) (by norm_num))
  refine (denotesTimes_iff_read times).mpr
    ⟨fun p hp => ?_, (times.map fun p => p.microseconds.1).sum, ?_, ?_, ?_, ?_⟩
  · have hmem := hperm.mem_iff.mp hp
    refine abs_rounded_lt ?_
    rw [abs_of_nonneg p.number.value_nonneg]
    exact ((value_le_seconds (hunits p hmem)).trans (le_totalSeconds hmem)).trans_lt (hdays.trans hlarge)
  · rw [hmicroseconds, sub_self, abs_zero]
    norm_num
  · rw [hmicroseconds, sub_self, abs_zero]
    norm_num
  · have hless : (((times.map fun p => p.microseconds.1).sum : ℤ) : ℚ) < 10 ^ 9 * 86400 * 10 ^ 6 := by
      rw [hsum]
      exact mul_lt_mul_of_pos_right hdays (by norm_num)
    have hless' : (times.map fun p => p.microseconds.1).sum < 10 ^ 9 * dayMicroseconds := by
      exact_mod_cast hless
    exact Int.le_of_lt_add_one (Int.ediv_lt_of_lt_mul (by decide) hless')
  · rw [hsum, mul_div_cancel_right₀ _ (by norm_num)]
    have hfinite : |rounded (totalSeconds times)| < 2 ^ 1024 := by
      refine abs_rounded_lt ?_
      rw [abs_of_nonneg hnonneg]
      exact hdays.trans hlarge
    exact ⟨_, if_pos hfinite, if_pos hfinite⟩

/-! ## 5. Sizes and durations -/

/-- **The parsers denote the sum of the parts exactly where a size is one of megabytes, and where no
unit is misread or overwritten for more than is rounded.** -/
theorem denotes_iff_read (sizes : List Size) (accuracy : ℤ) (times : List Time) :
    (DenotesSizes sizes accuracy ↔ ReadInMegabytes sizes accuracy) ∧
      (DenotesTimes times ↔ ReadByLetters times) :=
  ⟨denotesSizes_iff_read sizes accuracy, denotesTimes_iff_read times⟩

/-- `n`, of one digit. -/
def digit (n : Fin 10) : Numeral where
  whole := [n.val.digitChar]
  fraction := []
  whole_ne_nil := List.cons_ne_nil _ _
  whole_digits c hc := by
    obtain rfl := List.mem_singleton.mp hc
    rw [Nat.isDigit_digitChar]
    exact decide_eq_true n.isLt
  fraction_digits _ hc := absurd hc List.not_mem_nil

/-- `5gb` -/
def fiveGigabytes : Size := ⟨digit 5, "gb".toList, .gigabytes, by decide⟩

/-- `5ms` -/
def fiveMilliseconds : Time := ⟨digit 5, "ms".toList, .milliseconds, by decide⟩

/-- `1h` -/
def oneHour : Time := ⟨digit 1, "h".toList, .hours, by decide⟩

/-- Five gigabytes are read as megabytes, five milliseconds as minutes, and two hours in two parts as
one. -/
theorem not_denotes :
    text [fiveGigabytes] = "5gb".toList ∧ text [fiveMilliseconds] = "5ms".toList ∧
    text [oneHour, oneHour] = "1h1h".toList ∧
    MemoryParser.new "5gb".toList = some ⟨.megabytes, some 5⟩ ∧ ¬ DenotesSizes [fiveGigabytes] 2 ∧
    TimeParser.time "5ms".toList = some 300 ∧ ¬ DenotesTimes [fiveMilliseconds] ∧
    TimeParser.time "1h1h".toList = some 3600 ∧ ¬ DenotesTimes [oneHour, oneHour] := by
  have hgigabytes : text [fiveGigabytes] = "5gb".toList := by decide
  have hmilliseconds : text [fiveMilliseconds] = "5ms".toList := by decide
  have hhours : text [oneHour, oneHour] = "1h1h".toList := by decide
  have hsize : MemoryParser.new "5gb".toList = some ⟨.megabytes, some 5⟩ := by decide +kernel
  have hminutes : TimeParser.time "5ms".toList = some 300 := by decide +kernel
  have hhour : TimeParser.time "1h1h".toList = some 3600 := by decide +kernel
  refine ⟨hgigabytes, hmilliseconds, hhours, hsize, ?_, hminutes, ?_, hhour, ?_⟩
  · rintro ⟨m, hm, ⟨s, hs, htotal⟩, -⟩
    obtain rfl := Option.some.inj (hsize.symm.trans (hgigabytes ▸ hm))
    obtain rfl := Option.some.inj hs
    exact absurd htotal (by decide +kernel)
  · rintro ⟨s, hs, htotal⟩
    rw [hmilliseconds, hminutes] at hs
    obtain rfl := Option.some.inj hs
    exact absurd htotal (by decide +kernel)
  · rintro ⟨s, hs, htotal⟩
    rw [hhours, hhour] at hs
    obtain rfl := Option.some.inj hs
    exact absurd htotal (by decide +kernel)

end Env
end Hedra
