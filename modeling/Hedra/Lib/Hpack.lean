/-
# Header compression (HPACK)

The format as the standard has it.  A header block is a list of representations: an index into the
tables, a field with a literal value whose name is an index or a literal, or a new size for the
dynamic table.  Fields with incremental indexing go in front of the dynamic table, and what does
not fit its size falls out at the end.

The static table, the code of string literals and the size that the dynamic table must not exceed
are parameters.

`parse_serialize`: a block is parsed back as its representations.  What a decoder makes of them
depends on its dynamic table alone (`Table`).
-/
import Mathlib.Data.List.Basic
import Mathlib.Data.List.Flatten
import Hedra.Lib.PrefixInteger

namespace Lib.Hpack

abbrev Octets := List UInt8

/-- A name and a value. -/
abbrev Field := Octets × Octets

/-! ## 1. The dynamic table -/

def fieldSize (f : Field) : Nat := 32 + f.1.length + f.2.length

def totalSize (fs : List Field) : Nat := (fs.map fieldSize).sum

/-- The fields from the front that fit the limit together. -/
def fit : Nat → List Field → List Field
  | _, [] => []
  | limit, f :: fs => if fieldSize f ≤ limit then f :: fit (limit - fieldSize f) fs else []

structure Table where
  entries : List Field
  limit : Nat
  deriving DecidableEq

namespace Table

def insert (t : Table) (f : Field) : Table := { t with entries := fit t.limit (f :: t.entries) }

def resize (t : Table) (n : Nat) : Table := ⟨fit n t.entries, n⟩

/-- The field at an index; the static table comes first, and there is no index 0. -/
def lookup (t : Table) (static : List Field) (i : Nat) : Option Field :=
  if i = 0 then none else (static ++ t.entries)[i - 1]?

end Table

@[simp] theorem totalSize_nil : totalSize [] = 0 := rfl

@[simp] theorem totalSize_cons (f : Field) (fs : List Field) :
    totalSize (f :: fs) = fieldSize f + totalSize fs := by simp [totalSize]

@[simp] theorem totalSize_append (fs gs : List Field) :
    totalSize (fs ++ gs) = totalSize fs + totalSize gs := by simp [totalSize]

theorem totalSize_fit_le (limit : Nat) (fs : List Field) : totalSize (fit limit fs) ≤ limit := by
  induction fs generalizing limit with
  | nil => simp [fit]
  | cons f fs ih =>
    by_cases h : fieldSize f ≤ limit
    · have hrest := ih (limit - fieldSize f)
      simp only [fit, h, if_true, totalSize_cons]
      omega
    · simp [fit, h]

theorem fit_isPrefix (limit : Nat) (fs : List Field) : fit limit fs <+: fs := by
  induction fs generalizing limit with
  | nil => exact List.nil_prefix
  | cons f fs ih =>
    by_cases h : fieldSize f ≤ limit
    · simpa [fit, h] using (List.prefix_cons_inj f).mpr (ih (limit - fieldSize f))
    · simp [fit, h]

/-- Of all front parts that fit, it is the longest. -/
theorem prefix_fit {limit : Nat} {fs gs : List Field} (h : gs <+: fs) (hle : totalSize gs ≤ limit) :
    gs <+: fit limit fs := by
  induction fs generalizing limit gs with
  | nil => simpa [fit] using h
  | cons f fs ih =>
    cases gs with
    | nil => exact List.nil_prefix
    | cons g gs =>
      obtain ⟨rfl, hpre⟩ := List.cons_prefix_cons.mp h
      rw [totalSize_cons] at hle
      have hfit : fieldSize g ≤ limit := by omega
      simp only [fit, hfit, if_true]
      exact (List.prefix_cons_inj g).mpr (ih hpre (by omega))

theorem fit_eq_self {limit : Nat} {fs : List Field} (h : totalSize fs ≤ limit) :
    fit limit fs = fs :=
  ((fit_isPrefix limit fs).eq_of_length_le (prefix_fit (List.prefix_refl fs) h).length_le)

/-- A table that holds a front part of another one, with a limit that is not larger, does so after
both got the same field. -/
theorem fit_prefix_fit {limit limit' : Nat} {fs gs : List Field} (h : fs <+: gs)
    (hle : limit ≤ limit') : fit limit fs <+: fit limit' gs :=
  prefix_fit ((fit_isPrefix limit fs).trans h) ((totalSize_fit_le limit fs).trans hle)

/-! ## 2. Representations -/

/-- A string literal: whether its octets are coded. -/
structure Literal where
  coded : Bool
  octets : Octets
  deriving DecidableEq

inductive Name
  | index (i : Nat) (h : 0 < i)
  | literal (s : Literal)
  deriving DecidableEq

inductive Indexing
  | incremental
  | without
  | never
  deriving DecidableEq

inductive Rep
  | indexed (i : Nat)
  | field (how : Indexing) (name : Name) (value : Literal)
  | resize (n : Nat)
  deriving DecidableEq

namespace Indexing

/-- The bits in front of the index of the name, and how many bits are left for it. -/
def flag : Indexing → Nat
  | incremental => 1
  | without => 0
  | never => 1

def width : Indexing → Nat
  | incremental => 6
  | without => 4
  | never => 4

end Indexing

def Literal.serialize (s : Literal) : Octets :=
  PrefixInteger.encode (if s.coded then 1 else 0) 7 s.octets.length ++ s.octets

def Rep.serialize : Rep → Octets
  | .indexed i => PrefixInteger.encode 1 7 i
  | .field how (.index i _) value =>
    PrefixInteger.encode how.flag how.width i ++ value.serialize
  | .field how (.literal name) value =>
    PrefixInteger.encode how.flag how.width 0 ++ (name.serialize ++ value.serialize)
  | .resize n => PrefixInteger.encode 1 5 n

/-! ## 3. Parsing -/

def parseLiteral : Octets → Option (Literal × Octets)
  | [] => none
  | b :: bs => do
    let (n, rest) ← PrefixInteger.decode 7 (b :: bs)
    if n ≤ rest.length then some (⟨decide (128 ≤ b.toNat), rest.take n⟩, rest.drop n) else none

/-- A field whose first byte has this form. -/
def parseField (how : Indexing) (octets : Octets) : Option (Rep × Octets) := do
  let (i, rest) ← PrefixInteger.decode how.width octets
  if h : 0 < i then
    let (value, rest) ← parseLiteral rest
    some (.field how (.index i h) value, rest)
  else
    let (name, rest) ← parseLiteral rest
    let (value, rest) ← parseLiteral rest
    some (.field how (.literal name) value, rest)

/-- The first representation; its first bits tell the kind. -/
def parseRep : Octets → Option (Rep × Octets)
  | [] => none
  | b :: bs =>
    if b.toNat / 2 ^ 7 = 1 then
      (PrefixInteger.decode 7 (b :: bs)).map fun p => (.indexed p.1, p.2)
    else if b.toNat / 2 ^ 6 = 1 then parseField .incremental (b :: bs)
    else if b.toNat / 2 ^ 5 = 1 then
      (PrefixInteger.decode 5 (b :: bs)).map fun p => (.resize p.1, p.2)
    else if b.toNat / 2 ^ 4 = 1 then parseField .never (b :: bs)
    else parseField .without (b :: bs)

/-- All representations, at most `n`. -/
def parse : Nat → Octets → Option (List Rep)
  | _, [] => some []
  | 0, _ :: _ => none
  | n + 1, octets => do
    let (rep, rest) ← parseRep octets
    let reps ← parse n rest
    some (rep :: reps)

theorem parseLiteral_serialize (s : Literal) (rest : Octets) :
    parseLiteral (s.serialize ++ rest) = some (s, rest) := by
  have hflag : (if s.coded then 1 else 0) < 2 ^ (8 - 7) := by split <;> decide
  have hdec := PrefixInteger.decode_encode (by decide : 7 ≤ 8) hflag s.octets.length
    (s.octets ++ rest)
  obtain ⟨b, bs, henc, hb⟩ := PrefixInteger.encode_eq_cons (by decide : 7 ≤ 8) hflag s.octets.length
  have hcoded : decide (128 ≤ b.toNat) = s.coded := by
    have hlt := b.toNat_lt
    cases hs : s.coded <;> simp only [hs] at hb <;> simp <;> simp at hb <;> omega
  rw [henc, List.cons_append] at hdec
  rw [Literal.serialize, List.append_assoc, henc, List.cons_append, parseLiteral, hdec]
  simp [hcoded]

theorem parseField_serialize (how : Indexing) (name : Name) (value : Literal) (rest : Octets) :
    parseField how ((Rep.field how name value).serialize ++ rest)
      = some (.field how name value, rest) := by
  have hwidth : how.width ≤ 8 := by cases how <;> decide
  have hflag : how.flag < 2 ^ (8 - how.width) := by cases how <;> decide
  cases name with
  | index i h =>
    rw [Rep.serialize, List.append_assoc, parseField, PrefixInteger.decode_encode hwidth hflag]
    simp [h, parseLiteral_serialize]
  | literal s =>
    rw [Rep.serialize, List.append_assoc, parseField, PrefixInteger.decode_encode hwidth hflag]
    simp [parseLiteral_serialize]

/-- The first byte of a representation has the bits of its kind. -/
theorem serialize_field_eq_cons (how : Indexing) (name : Name) (value : Literal) :
    ∃ b bs, (Rep.field how name value).serialize = b :: bs ∧ b.toNat / 2 ^ how.width = how.flag := by
  have hwidth : how.width ≤ 8 := by cases how <;> decide
  have hflag : how.flag < 2 ^ (8 - how.width) := by cases how <;> decide
  cases name with
  | index i h =>
    obtain ⟨b, bs, henc, hb⟩ := PrefixInteger.encode_eq_cons hwidth hflag i
    exact ⟨b, bs ++ value.serialize, by rw [Rep.serialize, henc, List.cons_append], hb⟩
  | literal s =>
    obtain ⟨b, bs, henc, hb⟩ := PrefixInteger.encode_eq_cons hwidth hflag 0
    exact ⟨b, bs ++ (s.serialize ++ value.serialize),
      by rw [Rep.serialize, henc, List.cons_append], hb⟩

theorem parseRep_serialize (r : Rep) (rest : Octets) :
    parseRep (r.serialize ++ rest) = some (r, rest) := by
  cases r with
  | indexed i =>
    have hdec := PrefixInteger.decode_encode (by decide : 7 ≤ 8) (by decide : 1 < 2 ^ (8 - 7)) i rest
    obtain ⟨b, bs, henc, hb⟩ := PrefixInteger.encode_eq_cons (by decide : 7 ≤ 8)
      (by decide : 1 < 2 ^ (8 - 7)) i
    rw [henc, List.cons_append] at hdec
    rw [Rep.serialize, henc, List.cons_append, parseRep, if_pos hb, hdec]
    rfl
  | field how name value =>
    have hfield := parseField_serialize how name value rest
    obtain ⟨b, bs, hser, hb⟩ := serialize_field_eq_cons how name value
    rw [hser, List.cons_append] at hfield ⊢
    cases how with
    | incremental =>
      replace hb : b.toNat / 2 ^ 6 = 1 := hb
      rw [parseRep, if_neg (by omega), if_pos hb, hfield]
    | without =>
      replace hb : b.toNat / 2 ^ 4 = 0 := hb
      rw [parseRep, if_neg (by omega), if_neg (by omega), if_neg (by omega), if_neg (by omega),
        hfield]
    | never =>
      replace hb : b.toNat / 2 ^ 4 = 1 := hb
      rw [parseRep, if_neg (by omega), if_neg (by omega), if_neg (by omega), if_pos hb, hfield]
  | resize n =>
    have hdec := PrefixInteger.decode_encode (by decide : 5 ≤ 8) (by decide : 1 < 2 ^ (8 - 5)) n rest
    obtain ⟨b, bs, henc, hb⟩ := PrefixInteger.encode_eq_cons (by decide : 5 ≤ 8)
      (by decide : 1 < 2 ^ (8 - 5)) n
    rw [henc, List.cons_append] at hdec
    rw [Rep.serialize, henc, List.cons_append, parseRep, if_neg (by omega), if_neg (by omega),
      if_pos hb, hdec]
    rfl

theorem serialize_ne_nil (r : Rep) : r.serialize ≠ [] := by
  intro h
  have hparse := parseRep_serialize r []
  rw [h, List.append_nil, parseRep] at hparse
  cases hparse

/-- **A block is parsed back.** -/
theorem parse_serialize {n : Nat} (reps : List Rep) (h : reps.length ≤ n) :
    parse n (reps.flatMap Rep.serialize) = some reps := by
  induction reps generalizing n with
  | nil => cases n <;> rfl
  | cons r reps ih =>
    obtain ⟨n, rfl⟩ : ∃ m, n = m + 1 := Nat.exists_eq_add_one.mpr (Nat.lt_of_lt_of_le (by simp) h)
    have hrep := parseRep_serialize r (reps.flatMap Rep.serialize)
    have hrest := ih (Nat.le_of_succ_le_succ h)
    rw [List.flatMap_cons]
    cases hser : r.serialize ++ reps.flatMap Rep.serialize with
    | nil => exact absurd (List.append_eq_nil_iff.mp hser).1 (serialize_ne_nil r)
    | cons b bs =>
      rw [hser] at hrep
      simp [parse, hrep, hrest]

theorem length_le_serialize (reps : List Rep) :
    reps.length ≤ (reps.flatMap Rep.serialize).length := by
  induction reps with
  | nil => exact Nat.le_refl 0
  | cons r reps ih =>
    have hr : 0 < r.serialize.length := List.length_pos_iff.mpr (serialize_ne_nil r)
    simp only [List.length_cons, List.flatMap_cons, List.length_append]
    omega

/-! ## 4. Meaning -/

section Meaning

variable (static : List Field) (uncode : Octets → Option Octets) (max : Nat)

def Literal.meaning (s : Literal) : Option Octets :=
  if s.coded then uncode s.octets else some s.octets

def Name.meaning (t : Table) : Name → Option Octets
  | .index i _ => (t.lookup static i).map Prod.fst
  | .literal s => s.meaning uncode

/-- The field of a representation, and the table after it. -/
def Rep.apply (t : Table) : Rep → Option (List Field × Table)
  | .indexed i => (t.lookup static i).map fun f => ([f], t)
  | .field how name value => do
    let n ← name.meaning static uncode t
    let v ← value.meaning uncode
    some ([(n, v)], if how = .incremental then t.insert (n, v) else t)
  | .resize n => if n ≤ max then some ([], t.resize n) else none

def interpret (t : Table) : List Rep → Option (List Field × Table)
  | [] => some ([], t)
  | r :: reps => do
    let (fs, t) ← r.apply static uncode max t
    let (gs, t) ← interpret t reps
    some (fs ++ gs, t)

def Rep.isResize : Rep → Bool
  | .resize _ => true
  | _ => false

/-- New sizes come in front of all fields. -/
def sizesFirst (reps : List Rep) : Bool :=
  (reps.dropWhile Rep.isResize).all fun r => !r.isResize

theorem sizesFirst_of_forall {reps : List Rep} (h : ∀ r ∈ reps, r.isResize = false) :
    sizesFirst reps = true := by
  refine List.all_eq_true.mpr fun r hr => ?_
  rw [h r ((List.dropWhile_sublist _).subset hr)]
  rfl

/-- A decoder that gets a whole block. -/
def decode (t : Table) (block : Octets) : Option (List Field × Table) := do
  let reps ← parse block.length block
  if sizesFirst reps then interpret static uncode max t reps else none

variable {static uncode max}

theorem decode_serialize {reps : List Rep} (h : sizesFirst reps = true) (t : Table) :
    decode static uncode max t (reps.flatMap Rep.serialize)
      = interpret static uncode max t reps := by
  rw [decode, parse_serialize reps (length_le_serialize reps)]
  exact if_pos h

theorem interpret_cons {r : Rep} {reps : List Rep} {t t' t'' : Table} {fs gs : List Field}
    (hr : r.apply static uncode max t = some (fs, t'))
    (hreps : interpret static uncode max t' reps = some (gs, t'')) :
    interpret static uncode max t (r :: reps) = some (fs ++ gs, t'') := by
  simp [interpret, hr, hreps]

end Meaning

end Lib.Hpack
