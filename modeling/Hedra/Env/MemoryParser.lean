/-
# Sizes of memory

`MemoryParser` (`distributed/env/memory_parser.py`) looks for letters that are units of time, so that
it never sees a unit of memory, and takes every number for megabytes.  The parts of a text are the
records of one key, and the last one is what remains (`new_text`).

`denotesSizes_iff_read` says which sizes are read right all the same.  Sizes are doubles, and an amount
is kept by a conversion if it is the double of the exact amount.  Since a kilobyte, a megabyte and a
gigabyte are powers of two of one another, the last number has one double with the sum in megabytes
where it has one in every unit; what is left to ask is that the double, in each unit, comes back from
being rounded to so many decimals (`Survives`).  Five megabytes do not, with two decimals in gigabytes.
-/
import Mathlib.Tactic.FieldSimp
import Mathlib.Tactic.Ring
import Hedra.Lib.Dict
import Hedra.Env.Parts

namespace Hedra
namespace Env

open Lib HalfEven Binary64

inductive SizeUnit
  | kilobytes
  | megabytes
  | gigabytes
deriving DecidableEq

namespace SizeUnit

def UNITS : List (Str × SizeUnit) :=
  [("kb".toList, kilobytes), ("mb".toList, megabytes), ("gb".toList, gigabytes)]

/-- `_conversion_table` -/
def conversion : SizeUnit → SizeUnit → ℚ
  | kilobytes, kilobytes => 1
  | kilobytes, megabytes => 1 / 1024
  | kilobytes, gigabytes => 1 / 1024 ^ 2
  | megabytes, kilobytes => 1024
  | megabytes, megabytes => 1
  | megabytes, gigabytes => 1 / 1024
  | gigabytes, kilobytes => 1024 ^ 2
  | gigabytes, megabytes => 1024
  | gigabytes, gigabytes => 1

/-- What a unit is called. -/
def names : SizeUnit → List Str
  | kilobytes => ["kb".toList, "kilobytes".toList]
  | megabytes => ["mb".toList, "megabytes".toList]
  | gigabytes => ["gb".toList, "gigabytes".toList]

/-- How many kilobytes a unit has. -/
def inKilobytes : SizeUnit → ℚ
  | kilobytes => 1
  | megabytes => 1024
  | gigabytes => 1024 ^ 2

end SizeUnit

structure MemoryParser where
  unit : SizeUnit
  /-- Nothing is an infinite size. -/
  size : Option ℚ
deriving DecidableEq

namespace MemoryParser

def parsedSize (timeAmount : Str) : Dict SizeUnit (Option ℚ) :=
  .ofList ((finditer timeAmount).map fun m =>
    ((SizeUnit.UNITS.lookup (m.unit.map Char.toLower)).getD .megabytes, float m.val))

/-- The last key with its size, if there is one to `pop`. -/
def new (timeAmount : Str) : Option MemoryParser :=
  (parsedSize timeAmount).items.getLast?.map fun i => ⟨i.1, i.2⟩

/-- `round(self.size * conversion_amount, accuracy)` -/
def converted (unit : SizeUnit) (m : MemoryParser) (accuracy : ℤ) : Option ℚ := do
  let size ← m.size
  let amount ← double (size * m.unit.conversion unit)
  double (roundTo amount accuracy)

def kilobytes (m : MemoryParser) (accuracy : ℤ := 2) : Option ℚ := converted .kilobytes m accuracy

def megabytes (m : MemoryParser) (accuracy : ℤ := 2) : Option ℚ := converted .megabytes m accuracy

def gigabytes (m : MemoryParser) (accuracy : ℤ := 2) : Option ℚ := converted .gigabytes m accuracy

end MemoryParser

/-! ## 1. What a size is -/

/-- A number and a unit of memory. -/
abbrev Size := Part SizeUnit.names

def Size.kilobytes (p : Size) : ℚ := p.number.value * p.unit.inKilobytes

/-- The sum of the sizes, in kilobytes. -/
def totalKilobytes (sizes : List Size) : ℚ := (sizes.map Size.kilobytes).sum

/-- The double of an amount. -/
def IsDouble (x : Option ℚ) (amount : ℚ) : Prop := ∃ s, x = some s ∧ double amount = some s

/-- The parser denotes the sum of the sizes, and converts it to the same amount. -/
def DenotesSizes (sizes : List Size) (accuracy : ℤ) : Prop :=
  ∃ m, MemoryParser.new (text sizes) = some m ∧
    IsDouble m.size (totalKilobytes sizes / m.unit.inKilobytes) ∧
    IsDouble (m.kilobytes accuracy) (totalKilobytes sizes) ∧
    IsDouble (m.megabytes accuracy) (totalKilobytes sizes / 1024) ∧
    IsDouble (m.gigabytes accuracy) (totalKilobytes sizes / 1024 ^ 2)

/-- The double comes back from being rounded. -/
def Survives (accuracy : ℤ) (z : ℚ) : Prop := double (roundTo z accuracy) = some z

/-- What stands before the last size makes up for reading that in megabytes, up to what is rounded to
a double, and no unit needs more decimals than are kept. -/
def ReadInMegabytes (sizes : List Size) (accuracy : ℤ) : Prop :=
  ∃ before last s, sizes = before ++ [last] ∧
    double last.number.value = some s ∧ double (totalKilobytes sizes / 1024) = some s ∧
    Survives accuracy (s * 1024) ∧ Survives accuracy s ∧ Survives accuracy (s / 1024)

/-! ## 2. What is read -/

theorem words_size : Words SizeUnit.names := by
  refine words_of_all fun u => ?_
  cases u <;> decide

/-- No letter of a unit of time is a unit of memory. -/
theorem lookup_letter (word : Str) :
    SizeUnit.UNITS.lookup ((letter word).map Char.toLower) = none := by
  have hlong : ∀ p ∈ SizeUnit.UNITS, p.1.length = 2 := by decide
  have hshort : ((letter word).map Char.toLower).length ≤ 1 := by
    rw [List.length_map]
    exact (List.length_filter_le _ _).trans (List.length_take_le _ _)
  refine List.lookup_eq_none_iff.mpr fun p hp => bne_iff_ne.mpr fun heq => ?_
  have hlen := congrArg List.length heq
  have htwo := hlong p hp
  omega

/-- No record, or one of `k`. -/
def AtMost (k : SizeUnit) (d : Dict SizeUnit (Option ℚ)) : Prop := d.items = [] ∨ ∃ v, d.items = [(k, v)]

theorem items_set_same {k : SizeUnit} {d : Dict SizeUnit (Option ℚ)} (h : AtMost k d) (v : Option ℚ) :
    (d.set k v).items = [(k, v)] := by
  obtain hd | ⟨w, hd⟩ := h <;> simp [Dict.set, hd, Dict.setItems]

/-- The records of one key come to the last of them. -/
theorem items_ofList_same (k : SizeUnit) (values : List (Option ℚ)) (v : Option ℚ) :
    (Dict.ofList ((values ++ [v]).map fun v => (k, v))).items = [(k, v)] := by
  have hone : ∀ (values : List (Option ℚ)) (d : Dict SizeUnit (Option ℚ)), AtMost k d →
      AtMost k ((values.map fun v => (k, v)).foldl (fun d i => d.set i.1 i.2) d) := by
    intro values
    induction values with
    | nil => exact fun d hd => hd
    | cons x values ih => exact fun d hd => ih _ (Or.inr ⟨x, items_set_same hd x⟩)
  rw [Dict.ofList, List.map_append, List.foldl_append]
  exact items_set_same (hone values .empty (Or.inl rfl)) v

/-- **The last number, in megabytes.** -/
theorem new_text (before : List Size) (last : Size) :
    MemoryParser.new (text (before ++ [last])) = some ⟨.megabytes, double last.number.value⟩ := by
  have hread : (finditer (text (before ++ [last]))).map (fun m =>
      ((SizeUnit.UNITS.lookup (m.unit.map Char.toLower)).getD SizeUnit.megabytes, float m.val)) =
        ((before.map fun p => double p.number.value) ++ [double last.number.value]).map
          fun v => (SizeUnit.megabytes, v) := by
    rw [finditer_text words_size, List.map_map,
      ← List.map_singleton (f := fun p : Size => double p.number.value), ← List.map_append, List.map_map]
    refine List.map_congr_left fun p _ => ?_
    simp only [Function.comp_apply, lookup_letter, Option.getD_none, float_text]
  rw [MemoryParser.new, MemoryParser.parsedSize, hread, items_ofList_same]
  rfl

theorem new_nil : MemoryParser.new (text ([] : List Size)) = none := rfl

/-! ## 3. What is converted -/

/-- **A double is converted to the double of an amount, in another unit, exactly if it comes back from
being rounded there.** -/
theorem isDouble_converted_iff {s amount : ℚ} (k : ℤ) (unit : SizeUnit) (accuracy : ℤ)
    (hunit : SizeUnit.megabytes.conversion unit = 2 ^ k) (hs : double amount = some s) :
    IsDouble (MemoryParser.converted unit ⟨.megabytes, some s⟩ accuracy) (amount * 2 ^ k) ↔
      Survives accuracy (s * 2 ^ k) := by
  obtain ⟨hround, -⟩ := double_eq_some_iff.mp hs
  have hmul : ∀ q, rounded q = s → rounded (q * 2 ^ k) = s * 2 ^ k := by
    intro q hq
    rw [rounded_mul_zpow, hq]
  have hself : rounded s = s := by rw [← hround, rounded_rounded]
  have hconverted : MemoryParser.converted unit ⟨.megabytes, some s⟩ accuracy =
      (double (s * 2 ^ k)).bind fun amount => double (roundTo amount accuracy) := by
    rw [← hunit]
    rfl
  unfold Survives
  constructor
  · rintro ⟨z, hz, hamount⟩
    obtain ⟨hrounded, hlt⟩ := double_eq_some_iff.mp hamount
    rw [hmul _ hround] at hrounded
    subst hrounded
    rwa [hconverted, double_eq_some_iff.mpr ⟨hmul _ hself, hlt⟩] at hz
  · intro hsurvives
    have hlt := (double_eq_some_iff.mp hsurvives).2
    refine ⟨s * 2 ^ k, ?_, double_eq_some_iff.mpr ⟨hmul _ hround, hlt⟩⟩
    rw [hconverted, double_eq_some_iff.mpr ⟨hmul _ hself, hlt⟩]
    exact hsurvives

/-- The three units, of a sum whose double in megabytes is the size. -/
theorem isDouble_units_iff {s total : ℚ} (accuracy : ℤ) (hs : double (total / 1024) = some s) :
    (IsDouble (MemoryParser.kilobytes ⟨.megabytes, some s⟩ accuracy) total ∧
      IsDouble (MemoryParser.megabytes ⟨.megabytes, some s⟩ accuracy) (total / 1024) ∧
      IsDouble (MemoryParser.gigabytes ⟨.megabytes, some s⟩ accuracy) (total / 1024 ^ 2)) ↔
    Survives accuracy (s * 1024) ∧ Survives accuracy s ∧ Survives accuracy (s / 1024) := by
  have hkilobytes := isDouble_converted_iff 10 .kilobytes accuracy
    (by norm_num [SizeUnit.conversion]) hs
  have hmegabytes := isDouble_converted_iff 0 .megabytes accuracy
    (by norm_num [SizeUnit.conversion]) hs
  have hgigabytes := isDouble_converted_iff (-10) .gigabytes accuracy
    (by norm_num [SizeUnit.conversion]) hs
  have hup : ∀ q : ℚ, q * 2 ^ (10 : ℤ) = q * 1024 := fun q => by norm_num
  have hdown : ∀ q : ℚ, q * 2 ^ (-10 : ℤ) = q / 1024 := fun q => by norm_num [div_eq_mul_inv]
  rw [hup, hup, div_mul_cancel₀ _ (by norm_num)] at hkilobytes
  rw [zpow_zero, mul_one, mul_one] at hmegabytes
  rw [hdown, hdown, div_div, ← sq] at hgigabytes
  exact and_congr hkilobytes (and_congr hmegabytes hgigabytes)

/-- **The sizes that are read right.** -/
theorem denotesSizes_iff_read (sizes : List Size) (accuracy : ℤ) :
    DenotesSizes sizes accuracy ↔ ReadInMegabytes sizes accuracy := by
  rcases List.eq_nil_or_concat' sizes with rfl | ⟨before, last, rfl⟩
  · constructor
    · rintro ⟨m, hm, -⟩
      exact (nomatch new_nil.symm.trans hm)
    · rintro ⟨before, last, s, hnil, -⟩
      exact absurd hnil (by simp)
  constructor
  · rintro ⟨m, hm, ⟨s, hsize, hs⟩, hconverted⟩
    obtain rfl := Option.some.inj ((new_text before last).symm.trans hm)
    have hlast : double last.number.value = some s := hsize
    rw [hlast] at hconverted
    exact ⟨before, last, s, rfl, hlast, hs, (isDouble_units_iff accuracy hs).mp hconverted⟩
  · rintro ⟨before', last', s, heq, hlast, hs, hsurvive⟩
    obtain ⟨rfl, hlasts⟩ := List.append_inj' heq rfl
    obtain rfl := (List.cons.inj hlasts).1
    refine ⟨_, new_text before last, ⟨s, hlast, hs⟩, ?_⟩
    rw [hlast]
    exact (isDouble_units_iff accuracy hs).mpr hsurvive

end Env
end Hedra
