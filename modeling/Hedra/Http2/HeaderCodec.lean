/-
# The header encoder and decoder

`Encoder` and `Decoder` of `core/engines/types/common/encoder.py` and `decoder.py`.  What the
encoder appends to a block for a header is one representation of the standard (`add_cases`), and a
decoder of the standard that follows the encoder's table reads the header from it (`encode_spec`).

The decoder of this repository asks `get_by_index`, which is memoised.  `decodeStep_indexed` and the
lemmas behind it say what it reads from each representation, with the cache in its answers.
-/
import Mathlib.Tactic.IntervalCases
import Hedra.Http2.Huffman
import Hedra.Http2.HeaderTable

namespace Hedra
namespace Http2

open Lib (LruCache)
open Lib.Hpack (Octets Field Literal Name Rep)

/-! ## 1. Integers -/

/-- The loop of `encode_integer`: seven bits for each byte. -/
def encodeElements : Nat → Nat → Octets
  | 0, integer => [UInt8.ofNat integer]
  | fuel + 1, integer =>
    if 128 ≤ integer then
      UInt8.ofNat ((integer &&& 127) + 128) :: encodeElements fuel (integer >>> 7)
    else [UInt8.ofNat integer]

/-- `encode_integer`; the integer is shifted to zero in fewer rounds than its value. -/
def encodeInteger (integer prefixBits : Nat) : Octets :=
  let maxNumber := 2 ^ prefixBits - 1
  if integer < maxNumber then [UInt8.ofNat integer]
  else UInt8.ofNat maxNumber :: encodeElements (integer - maxNumber) (integer - maxNumber)

/-- `field[0] |= bits` -/
def setBits (bits : UInt8) : Octets → Octets
  | [] => []
  | b :: bs => (b ||| bits) :: bs

/-- The loop of `decode_integer` behind the first byte. -/
def decodeElements : Octets → Nat → Nat → Nat → Except HpackError (Nat × Nat)
  | [], _, _, _ => .error .hpackDecodingError
  | nextByte :: data, number, index, shift =>
    if 128 ≤ nextByte.toNat then
      decodeElements data (number + (nextByte.toNat - 128) <<< shift) (index + 1) (shift + 7)
    else .ok (number + nextByte.toNat <<< shift, index + 1)

/-- `decode_integer` of the decoder.  Its arguments are hashed for the `lru_cache` around it, and a
`memoryview` of a writable buffer has no hash.  The function depends on the bytes only, so the cache
shows in nothing else. -/
def decodeInteger (writable : Bool) (data : Octets) (prefixBits : Nat) :
    Except HpackError (Nat × Nat) :=
  if writable then .error .valueError
  else
    match data with
    | [] => .error .hpackDecodingError
    | b :: rest =>
      let maxNumber := 2 ^ prefixBits - 1
      let number := b.toNat &&& (0xFF >>> (8 - prefixBits))
      if number = maxNumber then decodeElements rest number 1 0 else .ok (number, 1)

/-! ## 2. `Encoder` -/

/-- A header as it is given to `encode`. -/
structure Header where
  name : Octets
  value : Octets
  sensitive : Bool
  deriving DecidableEq

def Header.field (h : Header) : Field := (h.name, h.value)

def indexNever : UInt8 := 0x10
def indexIncremental : UInt8 := 0x40

structure Encoder where
  headerTable : HeaderTable
  tableSizeChanges : List Nat

namespace Encoder

def init : Encoder := ⟨HeaderTable.init, []⟩

/-- The setter of `header_table_size`. -/
def setHeaderTableSize (e : Encoder) (value : Nat) : Encoder :=
  let t := e.headerTable.setMaxsize value
  ⟨t, if t.resized then e.tableSizeChanges ++ [value] else e.tableSizeChanges⟩

/-- `_encode_indexed` -/
def encodeIndexed (index : Nat) : Octets := setBits 0x80 (encodeInteger index 7)

/-- A string with its length in front. -/
def encodeString (huffman : Bool) (s : Octets) : Octets :=
  if huffman then
    setBits 0x80 (encodeInteger (HuffmanEncoder.encode s).length 7) ++ HuffmanEncoder.encode s
  else encodeInteger s.length 7 ++ s

/-- `_encode_literal` -/
def encodeLiteral (name value : Octets) (indexbit : UInt8) (huffman : Bool) : Octets :=
  indexbit :: (encodeString huffman name ++ encodeString huffman value)

/-- `_encode_indexed_literal` -/
def encodeIndexedLiteral (index : Nat) (value : Octets) (indexbit : UInt8) (huffman : Bool) :
    Octets :=
  let prefixBits := if indexbit ≠ indexIncremental then 4 else 6
  setBits indexbit (encodeInteger index prefixBits) ++ encodeString huffman value

/-- `add`.  A perfect match whose value is empty counts as none: the code asks `if perfect`. -/
def add (e : Encoder) (toAdd : Field) (sensitive huffman : Bool) : Octets × Encoder :=
  let (name, value) := toAdd
  let indexbit := if sensitive then indexNever else indexIncremental
  let added := if sensitive then e else { e with headerTable := e.headerTable.add (name, value) }
  match e.headerTable.search name value with
  | none => (encodeLiteral name value indexbit huffman, added)
  | some (index, name, perfect) =>
    if (perfect.getD []) ≠ [] then (encodeIndexed index, e)
    else
      let added := if sensitive then e else { e with headerTable := e.headerTable.add (name, value) }
      (encodeIndexedLiteral index value indexbit huffman, added)

/-- `_encode_table_size_change` -/
def encodeTableSizeChange (e : Encoder) : Octets :=
  e.tableSizeChanges.flatMap fun size => setBits 0x20 (encodeInteger size 5)

/-- The loop of `encode`.  The third item of a header is not read. -/
def addAll (e : Encoder) (huffman : Bool) : List Header → Octets × Encoder
  | [] => ([], e)
  | header :: headers =>
    let r := e.add (header.name, header.value) false huffman
    let rest := r.2.addAll huffman headers
    (r.1 ++ rest.1, rest.2)

/-- The size changes are sent if the table says that it was resized. -/
def flushSizes (e : Encoder) : Octets × Encoder :=
  if e.headerTable.resized then
    (e.encodeTableSizeChange, ⟨e.headerTable.clearResized, []⟩)
  else ([], e)

/-- `encode` -/
def encode (e : Encoder) (headers : List Header) (huffman : Bool) : Octets × Encoder :=
  let sizes := e.flushSizes
  let block := sizes.2.addAll huffman headers
  (sizes.1 ++ block.1, block.2)

end Encoder

/-! ## 3. `Decoder` -/

/-- Tables are told apart by identity. -/
abbrev TableId := Nat

/-- The `lru_cache` of `get_by_index`, one for all tables. -/
abbrev IndexCache := LruCache (TableId × Nat) (Option Field) 4096

/-- The table of a decoder and the cache. -/
structure Decoder where
  id : TableId
  headerTable : HeaderTable
  cache : IndexCache

namespace Decoder

/-- What `get_by_index` returns. -/
def getByIndex (d : Decoder) (index : Nat) : Option Field :=
  d.cache.answer (d.id, index) (d.headerTable.getByIndex index)

/-- The decoder after a call of `get_by_index`. -/
def asked (d : Decoder) (index : Nat) : Decoder :=
  { d with cache := d.cache.touch (d.id, index) (d.headerTable.getByIndex index) }

def addEntry (d : Decoder) (entry : Field) : Decoder :=
  { d with headerTable := d.headerTable.add entry }

/-- The setter of `header_table_size`. -/
def setHeaderTableSize (d : Decoder) (value : Nat) : Decoder :=
  { d with headerTable := d.headerTable.setMaxsize value }

/-- A string with its length, and the bytes it took.  A slice that is too long is cut. -/
def decodeString (writable : Bool) (data : Octets) : Except HpackError (Octets × Nat) := do
  let (length, consumed) ← decodeInteger writable data 7
  let s := (data.drop consumed).take length
  let s ← if (data.headD 0) &&& 0x80 ≠ 0 then decodeHuffman s else .ok s
  .ok (s, length + consumed)

/-- The name of a literal, and the bytes it took. -/
def decodeName (d : Decoder) (writable : Bool) (data : Octets) (shouldIndex : Bool) :
    Decoder × Except HpackError (Octets × Nat) :=
  let mask : UInt8 := if shouldIndex then 0x3F else 0x0F
  let nameLen := if shouldIndex then 6 else 4
  if data.headD 0 &&& mask ≠ 0 then
    match decodeInteger writable data nameLen with
    | .error e => (d, .error e)
    | .ok (index, consumed) =>
      match d.getByIndex index with
      | none => (d.asked index, .error .typeError)
      | some entry => (d.asked index, .ok (entry.1, consumed))
  else
    (d, (decodeString writable (data.drop 1)).map fun r => (r.1, r.2 + 1))

/-- `_decode_literal` -/
def decodeLiteral (d : Decoder) (writable : Bool) (data : Octets) (shouldIndex : Bool) :
    Decoder × Except HpackError (Field × Nat) :=
  match d.decodeName writable data shouldIndex with
  | (d, .error e) => (d, .error e)
  | (d, .ok (name, consumed)) =>
    match decodeString writable (data.drop consumed) with
    | .error e => (d, .error e)
    | .ok (value, n) =>
      (if shouldIndex then d.addEntry (name, value) else d, .ok ((name, value), consumed + n))

/-- One round of the loop of `decode`: the header, if there is one, and the bytes it took. -/
def decodeStep (d : Decoder) (writable : Bool) (data : Octets) :
    Decoder × Except HpackError (Option Field × Nat) :=
  let current := data.headD 0
  if current &&& 0x80 ≠ 0 then
    match decodeInteger writable data 7 with
    | .error e => (d, .error e)
    | .ok (index, consumed) => (d.asked index, .ok (d.getByIndex index, consumed))
  else if current &&& 0x40 ≠ 0 then
    let r := d.decodeLiteral writable data true
    (r.1, r.2.map fun p => (some p.1, p.2))
  else if current &&& 0x20 ≠ 0 then
    match decodeInteger writable data 5 with
    | .error e => (d, .error e)
    | .ok (newSize, consumed) => (d.setHeaderTableSize newSize, .ok (none, consumed))
  else
    let r := d.decodeLiteral writable data false
    (r.1, r.2.map fun p => (some p.1, p.2))

/-- The loop of `decode`.  Each round takes one byte at least. -/
def decodeLoop (writable : Bool) : Nat → Decoder → Octets →
    Decoder × Except HpackError (List Field)
  | _, d, [] => (d, .ok [])
  | 0, d, _ :: _ => (d, .error .indexError)
  | n + 1, d, b :: data =>
    match d.decodeStep writable (b :: data) with
    | (d, .error e) => (d, .error e)
    | (d, .ok (header, consumed)) =>
      let r := decodeLoop writable n d ((b :: data).drop consumed)
      (r.1, r.2.map fun headers => header.toList ++ headers)

/-- `decode` of bytes or, if the buffer is writable, of a `bytearray`. -/
def decode (d : Decoder) (writable : Bool) (data : Octets) :
    Decoder × Except HpackError (List Field) :=
  decodeLoop writable data.length d data

end Decoder

/-! ## 4. Integers in the standard's form -/

theorem encodeElements_eq (fuel n : Nat) :
    encodeElements fuel n = Lib.PrefixInteger.digits fuel n := by
  induction fuel generalizing n with
  | zero => rfl
  | succ fuel ih =>
    have hmask : n &&& 127 = n % 128 := Nat.and_two_pow_sub_one_eq_mod n 7
    have hshift : n >>> 7 = n / 128 := Nat.shiftRight_eq_div_pow n 7
    by_cases h : n < 128
    · simp [encodeElements, Lib.PrefixInteger.digits, h, Nat.not_le.mpr h]
    · simp [encodeElements, Lib.PrefixInteger.digits, h, Nat.le_of_not_lt h, hmask, hshift, ih]

theorem or_flag {flag w x : Nat} (hw : w ≤ 8) (hflag : flag < 2 ^ (8 - w)) (hx : x < 2 ^ w) :
    UInt8.ofNat x ||| UInt8.ofNat (flag * 2 ^ w) = UInt8.ofNat (flag * 2 ^ w + x) := by
  have hsum := Lib.PrefixInteger.first_lt hw hflag hx
  apply UInt8.toNat_inj.mp
  rw [UInt8.toNat_or, UInt8.toNat_ofNat', UInt8.toNat_ofNat', UInt8.toNat_ofNat',
    Nat.mod_eq_of_lt (by omega : x < 2 ^ 8), Nat.mod_eq_of_lt (by omega : flag * 2 ^ w < 2 ^ 8),
    Nat.mod_eq_of_lt (by omega : flag * 2 ^ w + x < 2 ^ 8), Nat.or_comm, Nat.mul_comm flag,
    Nat.two_pow_add_eq_or_of_lt hx]

theorem setBits_encodeInteger {flag w : Nat} (hw : w ≤ 8) (hflag : flag < 2 ^ (8 - w)) (n : Nat) :
    setBits (UInt8.ofNat (flag * 2 ^ w)) (encodeInteger n w)
      = Lib.PrefixInteger.encode flag w n := by
  have hpos : 0 < 2 ^ w := Nat.two_pow_pos w
  by_cases h : n < 2 ^ w - 1
  · simp only [encodeInteger, h, if_true, setBits, Lib.PrefixInteger.encode,
      or_flag hw hflag (by omega : n < 2 ^ w)]
  · simp only [encodeInteger, h, if_false, setBits, Lib.PrefixInteger.encode, encodeElements_eq,
      or_flag hw hflag (by omega : 2 ^ w - 1 < 2 ^ w)]

theorem encodeInteger_eq {w : Nat} (n : Nat) :
    encodeInteger n w = Lib.PrefixInteger.encode 0 w n := by
  by_cases h : n < 2 ^ w - 1 <;>
    simp [encodeInteger, h, Lib.PrefixInteger.encode, encodeElements_eq]

theorem decodeElements_digits {fuel n : Nat} (h : n ≤ fuel) (rest : Octets)
    (number index shift : Nat) :
    decodeElements (Lib.PrefixInteger.digits fuel n ++ rest) number index shift
      = .ok (number + n <<< shift, index + (Lib.PrefixInteger.digits fuel n).length) := by
  induction fuel generalizing n number index shift with
  | zero =>
    obtain rfl : n = 0 := Nat.le_zero.mp h
    simp [Lib.PrefixInteger.digits, decodeElements]
  | succ fuel ih =>
    by_cases hn : n < 128
    · have hbyte : n % 256 = n := by omega
      simp [Lib.PrefixInteger.digits, hn, decodeElements, hbyte, Nat.not_le.mpr hn]
    · have hbyte : (n % 128 + 128) % 256 = n % 128 + 128 := by omega
      have hshift : (n % 128) <<< shift + (n / 128) <<< (shift + 7) = n <<< shift := by
        have hpow : 2 ^ (shift + 7) = 128 * 2 ^ shift := by rw [Nat.pow_add, Nat.mul_comm]
        rw [Nat.shiftLeft_eq, Nat.shiftLeft_eq, Nat.shiftLeft_eq, hpow, ← Nat.mul_assoc,
          ← Nat.add_mul, Nat.mul_comm (n / 128), Nat.mod_add_div]
      have hrest := ih (n := n / 128) (by omega) (number + (n % 128) <<< shift) (index + 1)
        (shift + 7)
      simp only [Lib.PrefixInteger.digits, hn, if_false, List.cons_append, decodeElements,
        UInt8.toNat_ofNat', hbyte, Nat.le_add_left, if_true, Nat.add_sub_cancel, hrest]
      rw [Nat.add_assoc, hshift, List.length_cons, Nat.add_assoc, Nat.add_comm 1]

theorem mask_eq_mod {w : Nat} (hw : w ≤ 8) (b : Nat) : b &&& (0xFF >>> (8 - w)) = b % 2 ^ w := by
  have hmask : 0xFF >>> (8 - w) = 2 ^ w - 1 := by interval_cases w <;> rfl
  rw [hmask, Nat.and_two_pow_sub_one_eq_mod]

theorem decodeInteger_encode {flag w : Nat} (hw : w ≤ 8) (hflag : flag < 2 ^ (8 - w)) (n : Nat)
    (rest : Octets) : decodeInteger false (Lib.PrefixInteger.encode flag w n ++ rest) w
      = .ok (n, (Lib.PrefixInteger.encode flag w n).length) := by
  have hpos : 0 < 2 ^ w := Nat.two_pow_pos w
  have hmod : ∀ x < 2 ^ w, (flag * 2 ^ w + x) % 256 % 2 ^ w = x := by
    intro x hx
    rw [Nat.mod_eq_of_lt (Lib.PrefixInteger.first_lt hw hflag hx), Nat.mul_comm, Nat.mul_add_mod,
      Nat.mod_eq_of_lt hx]
  by_cases h : n < 2 ^ w - 1
  · simp [Lib.PrefixInteger.encode, h, decodeInteger, mask_eq_mod hw,
      hmod n (by omega), Nat.ne_of_lt h]
  · have hsum : 2 ^ w - 1 + (n - (2 ^ w - 1)) = n := by omega
    simp [Lib.PrefixInteger.encode, h, decodeInteger, mask_eq_mod hw,
      hmod (2 ^ w - 1) (by omega), decodeElements_digits (Nat.le_refl _), hsum, Nat.add_comm]

/-! ## 5. What the encoder appends -/

/-- A string literal as the encoder writes it. -/
def literalOf (huffman : Bool) (s : Octets) : Literal :=
  if huffman then ⟨true, HuffmanEncoder.encode s⟩ else ⟨false, s⟩

theorem literalOf_meaning (huffman : Bool) (s : Octets) :
    (literalOf huffman s).meaning standardHuffman = some s := by
  cases huffman with
  | false => rfl
  | true => exact standardHuffman_encode s

namespace Encoder

theorem encodeString_eq (huffman : Bool) (s : Octets) :
    encodeString huffman s = (literalOf huffman s).serialize := by
  cases huffman with
  | false => simp [encodeString, literalOf, Literal.serialize, encodeInteger_eq]
  | true =>
    have hflag := setBits_encodeInteger (by decide : 7 ≤ 8) (by decide : 1 < 2 ^ (8 - 7))
      (HuffmanEncoder.encode s).length
    simp only [encodeString, literalOf, Literal.serialize, if_true]
    rw [← hflag]
    rfl

theorem encodeIndexed_eq (i : Nat) : encodeIndexed i = (Rep.indexed i).serialize :=
  setBits_encodeInteger (by decide : 7 ≤ 8) (by decide : 1 < 2 ^ (8 - 7)) i

theorem encodeLiteral_eq (name value : Octets) (huffman : Bool) :
    encodeLiteral name value indexIncremental huffman = (Rep.field .incremental
      (.literal (literalOf huffman name)) (literalOf huffman value)).serialize := by
  rw [encodeLiteral, encodeString_eq, encodeString_eq]
  rfl

theorem encodeIndexedLiteral_eq {i : Nat} (h : 0 < i) (value : Octets) (huffman : Bool) :
    encodeIndexedLiteral i value indexIncremental huffman = (Rep.field .incremental
      (.index i h) (literalOf huffman value)).serialize := by
  have hflag := setBits_encodeInteger (by decide : 6 ≤ 8) (by decide : 1 < 2 ^ (8 - 6)) i
  rw [encodeIndexedLiteral, encodeString_eq, if_neg (by decide)]
  exact congrArg (· ++ (literalOf huffman value).serialize) hflag

theorem encodeTableSizeChange_eq (e : Encoder) :
    e.encodeTableSizeChange = (e.tableSizeChanges.map Rep.resize).flatMap Rep.serialize := by
  rw [encodeTableSizeChange, List.flatMap_map]
  exact congrArg (fun f => e.tableSizeChanges.flatMap f) (funext fun n =>
    setBits_encodeInteger (by decide : 5 ≤ 8) (by decide : 1 < 2 ^ (8 - 5)) n)

/-- The encoder after a literal. -/
def addEntry (e : Encoder) (f : Field) : Encoder := { e with headerTable := e.headerTable.add f }

/-- What is appended for a header: the index of its entry, a literal with the index of its name, or
a literal. -/
theorem add_cases (e : Encoder) (f : Field) (huffman : Bool) :
    (∃ i, 0 < i ∧ e.headerTable.search f.1 f.2 = some (i, f.1, some f.2) ∧ f.2 ≠ [] ∧
      e.headerTable.abstract.lookup staticTable i = some f ∧
      e.add f false huffman = ((Rep.indexed i).serialize, e)) ∨
    (∃ i p v, ∃ h : 0 < i, e.headerTable.search f.1 f.2 = some (i, f.1, p) ∧ p.getD [] = [] ∧
      e.headerTable.abstract.lookup staticTable i = some (f.1, v) ∧
      e.add f false huffman = ((Rep.field .incremental (.index i h)
        (literalOf huffman f.2)).serialize, e.addEntry f)) ∨
    (e.headerTable.search f.1 f.2 = none ∧
      e.add f false huffman = ((Rep.field .incremental (.literal (literalOf huffman f.1))
        (literalOf huffman f.2)).serialize, e.addEntry f)) := by
  obtain ⟨name, value⟩ := f
  cases hsearch : e.headerTable.search name value with
  | none =>
    refine .inr (.inr ⟨rfl, ?_⟩)
    simp [add, hsearch, encodeLiteral_eq, addEntry]
  | some m =>
    obtain ⟨i, n, perfect⟩ := m
    obtain ⟨hpos, hname, v, hlookup, hvalue⟩ := HeaderTable.search_sound hsearch
    obtain rfl : n = name := hname
    by_cases hperfect : perfect.getD [] = []
    · refine .inr (.inl ⟨i, perfect, v, hpos, rfl, hperfect, hlookup, ?_⟩)
      simp [add, hsearch, hperfect, encodeIndexedLiteral_eq hpos, addEntry]
    · cases perfect with
      | none => exact absurd rfl hperfect
      | some w =>
        obtain ⟨rfl, rfl⟩ := hvalue w rfl
        refine .inl ⟨i, hpos, rfl, hperfect, hlookup, ?_⟩
        have hne : v ≠ [] := hperfect
        simp [add, hsearch, hne, encodeIndexed_eq]

end Encoder

/-! ## 6. A decoder of the standard -/

/-- The entries of a table are the newest ones of another, which is not smaller. -/
structure Follows (t : HeaderTable) (T : Lib.Hpack.Table) : Prop where
  entries : t.dynamicEntries <+: T.entries
  limit : t.maxsize ≤ T.limit

namespace Follows

variable {t : HeaderTable} {T : Lib.Hpack.Table}

theorem lookup (h : Follows t T) {i : Nat} {f : Field}
    (hi : t.abstract.lookup staticTable i = some f) : T.lookup staticTable i = some f := by
  obtain ⟨rest, hrest⟩ := h.entries
  rw [Lib.Hpack.Table.lookup] at hi ⊢
  by_cases hzero : i = 0
  · rw [if_pos hzero] at hi
    cases hi
  · rw [if_neg hzero] at hi ⊢
    have hlt : i - 1 < (staticTable ++ t.dynamicEntries).length :=
      (List.getElem?_eq_some_iff.mp hi).1
    rw [← hrest, ← List.append_assoc, List.getElem?_append_left hlt]
    exact hi

theorem add (h : Follows t T) (f : Field) : Follows (t.add f) (T.insert f) := by
  have hentries := congrArg Lib.Hpack.Table.entries (t.abstract_add f)
  have hlimit := congrArg Lib.Hpack.Table.limit (t.abstract_add f)
  refine ⟨?_, ?_⟩
  · change (t.add f).dynamicEntries = _ at hentries
    rw [hentries]
    exact Lib.Hpack.fit_prefix_fit ((List.prefix_cons_inj f).mpr h.entries) h.limit
  · change (t.add f).maxsize = _ at hlimit
    rw [hlimit]
    exact h.limit

theorem setMaxsize (h : Follows t T) (n : Nat) : Follows (t.setMaxsize n) (T.resize n) := by
  have hentries := congrArg Lib.Hpack.Table.entries (t.abstract_setMaxsize n)
  refine ⟨?_, ?_⟩
  · change (t.setMaxsize n).dynamicEntries = _ at hentries
    rw [hentries]
    exact Lib.Hpack.fit_prefix_fit h.entries (Nat.le_refl n)
  · rw [HeaderTable.maxsize_setMaxsize]
    exact Nat.le_refl n

theorem init : Follows HeaderTable.init ⟨[], 4096⟩ := ⟨List.nil_prefix, Nat.le_refl _⟩

end Follows

namespace Encoder

variable {max : Nat}

theorem add_spec (e : Encoder) (f : Field) (huffman : Bool) : ∃ r : Rep,
    (e.add f false huffman).1 = r.serialize ∧ r.isResize = false ∧
    ∀ T, Follows e.headerTable T → ∃ T', r.apply staticTable standardHuffman max T
      = some ([f], T') ∧ Follows (e.add f false huffman).2.headerTable T' := by
  rcases e.add_cases f huffman with ⟨i, -, -, -, hlookup, hadd⟩ | ⟨i, p, v, h, -, -, hlookup, hadd⟩ |
    ⟨-, hadd⟩
  · refine ⟨.indexed i, by rw [hadd], rfl, fun T hT => ⟨T, ?_, by rw [hadd]; exact hT⟩⟩
    simp [Rep.apply, hT.lookup hlookup]
  · refine ⟨_, by rw [hadd], rfl, fun T hT => ⟨T.insert f, ?_, by rw [hadd]; exact hT.add f⟩⟩
    simp [Rep.apply, Name.meaning, hT.lookup hlookup, literalOf_meaning]
  · refine ⟨_, by rw [hadd], rfl, fun T hT => ⟨T.insert f, ?_, by rw [hadd]; exact hT.add f⟩⟩
    simp [Rep.apply, Name.meaning, literalOf_meaning]

theorem addAll_spec (e : Encoder) (huffman : Bool) (headers : List Header) : ∃ reps : List Rep,
    (e.addAll huffman headers).1 = reps.flatMap Rep.serialize ∧
    (∀ r ∈ reps, r.isResize = false) ∧
    ∀ T, Follows e.headerTable T → ∃ T', Lib.Hpack.interpret staticTable standardHuffman max T reps
      = some (headers.map Header.field, T') ∧ Follows (e.addAll huffman headers).2.headerTable T' := by
  induction headers generalizing e with
  | nil => exact ⟨[], rfl, by simp, fun T hT => ⟨T, rfl, hT⟩⟩
  | cons header headers ih =>
    obtain ⟨r, hr, hkind, happly⟩ := @add_spec max e header.field huffman
    obtain ⟨reps, hreps, hkinds, hinterpret⟩ := ih (e.add header.field false huffman).2
    refine ⟨r :: reps, ?_, ?_, fun T hT => ?_⟩
    · rw [List.flatMap_cons, ← hr, ← hreps]
      rfl
    · intro r' hr'
      rcases List.mem_cons.mp hr' with rfl | hr'
      · exact hkind
      · exact hkinds r' hr'
    · obtain ⟨T₁, hfirst, hT₁⟩ := happly T hT
      obtain ⟨T₂, hrest, hT₂⟩ := hinterpret T₁ hT₁
      exact ⟨T₂, Lib.Hpack.interpret_cons hfirst hrest, hT₂⟩

theorem length_le_addAll (e : Encoder) (huffman : Bool) (headers : List Header) :
    headers.length ≤ (e.addAll huffman headers).1.length := by
  induction headers generalizing e with
  | nil => exact Nat.le_refl 0
  | cons header headers ih =>
    obtain ⟨r, hr, -, -⟩ := @add_spec 0 e header.field huffman
    have hrest := ih (e.add header.field false huffman).2
    have hpos : 0 < r.serialize.length := List.length_pos_iff.mpr (Lib.Hpack.serialize_ne_nil r)
    have hbytes : (e.addAll huffman (header :: headers)).1.length = r.serialize.length +
        ((e.add header.field false huffman).2.addAll huffman headers).1.length := by
      rw [← hr, ← List.length_append]
      rfl
    rw [hbytes, List.length_cons]
    omega

theorem tableSizeChanges_addAll (e : Encoder) (huffman : Bool) (headers : List Header) :
    (e.addAll huffman headers).2.tableSizeChanges = e.tableSizeChanges := by
  induction headers generalizing e with
  | nil => rfl
  | cons header headers ih =>
    have hadd : (e.add header.field false huffman).2.tableSizeChanges = e.tableSizeChanges := by
      rcases e.add_cases header.field huffman with ⟨i, -, -, -, -, hout⟩ |
        ⟨i, p, v, hpos, -, -, -, hout⟩ | ⟨-, hout⟩ <;> rw [hout] <;> rfl
    rw [← hadd]
    exact ih (e.add header.field false huffman).2

theorem maxsize_addAll (e : Encoder) (huffman : Bool) (headers : List Header) :
    (e.addAll huffman headers).2.headerTable.maxsize = e.headerTable.maxsize := by
  induction headers generalizing e with
  | nil => rfl
  | cons header headers ih =>
    have hadd : (e.add header.field false huffman).2.headerTable.maxsize
        = e.headerTable.maxsize := by
      rcases e.add_cases header.field huffman with ⟨i, -, -, -, -, hout⟩ |
        ⟨i, p, v, hpos, -, -, -, hout⟩ | ⟨-, hout⟩ <;> rw [hout]
      · exact HeaderTable.maxsize_add _ _
      · exact HeaderTable.maxsize_add _ _
    rw [← hadd]
    exact ih (e.add header.field false huffman).2

end Encoder

/-! ## 7. The decoder of this repository -/

theorem and_ne_zero_iff (b mask : UInt8) : b &&& mask ≠ 0 ↔ b.toNat &&& mask.toNat ≠ 0 := by
  rw [← UInt8.toNat_and, not_iff_not]
  exact ⟨fun h => by rw [h]; rfl, fun h => UInt8.toNat_inj.mp h⟩

/-- The tests of the first byte, one after the other. -/
theorem first_bits : ∀ n < 256, (n &&& 0x80 ≠ 0 ↔ n / 2 ^ 7 = 1) ∧
    (n / 2 ^ 6 = 1 → ¬ n &&& 0x80 ≠ 0 ∧ n &&& 0x40 ≠ 0) ∧
    (n / 2 ^ 5 = 1 → ¬ n &&& 0x80 ≠ 0 ∧ ¬ n &&& 0x40 ≠ 0 ∧ n &&& 0x20 ≠ 0) ∧
    (n &&& 0x3F = n % 2 ^ 6) := by
  decide +kernel

namespace Decoder

theorem decodeString_literal (huffman : Bool) (s rest : Octets) :
    decodeString false ((literalOf huffman s).serialize ++ rest)
      = .ok (s, (literalOf huffman s).serialize.length) := by
  generalize hl : literalOf huffman s = l
  have hflag : (if l.coded then 1 else 0) < 2 ^ (8 - 7) := by split <;> decide
  have hdec := decodeInteger_encode (by decide : 7 ≤ 8) hflag l.octets.length (l.octets ++ rest)
  obtain ⟨b, bs, henc, hb⟩ := Lib.PrefixInteger.encode_eq_cons (by decide : 7 ≤ 8) hflag
    l.octets.length
  have hslice : (((Lib.PrefixInteger.encode (if l.coded then 1 else 0) 7 l.octets.length ++
      (l.octets ++ rest)).drop (Lib.PrefixInteger.encode (if l.coded then 1 else 0) 7
        l.octets.length).length).take l.octets.length) = l.octets := by
    rw [List.drop_left, List.take_left' rfl]
  have htop : (b &&& 0x80 ≠ 0) ↔ l.coded = true := by
    rw [and_ne_zero_iff]
    refine (first_bits b.toNat b.toNat_lt).1.trans ?_
    rw [hb]
    cases l.coded <;> simp
  have hhead : (Lib.PrefixInteger.encode (if l.coded then 1 else 0) 7 l.octets.length ++
      (l.octets ++ rest)).headD 0 = b := by rw [henc]; rfl
  rw [decodeString, Literal.serialize, List.append_assoc, hdec]
  simp only [bind, Except.bind, hslice, hhead, htop, List.length_append]
  cases huffman with
  | false =>
    obtain rfl := hl
    simp [literalOf, Nat.add_comm]
  | true =>
    obtain rfl := hl
    simp [literalOf, decodeHuffman_encode, Nat.add_comm]

variable (d : Decoder)

theorem decodeStep_indexed (i : Nat) (rest : Octets) :
    d.decodeStep false ((Rep.indexed i).serialize ++ rest)
      = (d.asked i, .ok (d.getByIndex i, (Rep.indexed i).serialize.length)) := by
  have hdec := decodeInteger_encode (by decide : 7 ≤ 8) (by decide : 1 < 2 ^ (8 - 7)) i rest
  obtain ⟨b, bs, henc, hb⟩ := Lib.PrefixInteger.encode_eq_cons (by decide : 7 ≤ 8)
    (by decide : 1 < 2 ^ (8 - 7)) i
  have hhead : ((Rep.indexed i).serialize ++ rest).headD 0 = b := by
    rw [Rep.serialize, henc]
    rfl
  have htop : b &&& 0x80 ≠ 0 :=
    (and_ne_zero_iff b 0x80).mpr ((first_bits b.toNat b.toNat_lt).1.mpr hb)
  rw [decodeStep, hhead, if_pos htop, Rep.serialize, hdec]

theorem decodeStep_resize (n : Nat) (rest : Octets) :
    d.decodeStep false ((Rep.resize n).serialize ++ rest)
      = (d.setHeaderTableSize n, .ok (none, (Rep.resize n).serialize.length)) := by
  have hdec := decodeInteger_encode (by decide : 5 ≤ 8) (by decide : 1 < 2 ^ (8 - 5)) n rest
  obtain ⟨b, bs, henc, hb⟩ := Lib.PrefixInteger.encode_eq_cons (by decide : 5 ≤ 8)
    (by decide : 1 < 2 ^ (8 - 5)) n
  have hhead : ((Rep.resize n).serialize ++ rest).headD 0 = b := by
    rw [Rep.serialize, henc]
    rfl
  obtain ⟨htop, hnext, hsize⟩ := (first_bits b.toNat b.toNat_lt).2.2.1 hb
  rw [decodeStep, hhead, if_neg (mt (and_ne_zero_iff b 0x80).mp htop),
    if_neg (mt (and_ne_zero_iff b 0x40).mp hnext), if_pos ((and_ne_zero_iff b 0x20).mpr hsize),
    Rep.serialize, hdec]

/-- A literal with incremental indexing goes to `_decode_literal`. -/
theorem decodeStep_field (name : Name) (value : Literal) (rest : Octets) :
    d.decodeStep false ((Rep.field .incremental name value).serialize ++ rest)
      = ((d.decodeLiteral false ((Rep.field .incremental name value).serialize ++ rest) true).1,
        (d.decodeLiteral false ((Rep.field .incremental name value).serialize ++ rest) true).2.map
          fun p => (some p.1, p.2)) := by
  obtain ⟨b, bs, hser, hb⟩ := Lib.Hpack.serialize_field_eq_cons .incremental name value
  have hhead : ((Rep.field .incremental name value).serialize ++ rest).headD 0 = b := by
    rw [hser]
    rfl
  obtain ⟨htop, hnext⟩ := (first_bits b.toNat b.toNat_lt).2.1 hb
  rw [decodeStep, hhead, if_neg (mt (and_ne_zero_iff b 0x80).mp htop),
    if_pos ((and_ne_zero_iff b 0x40).mpr hnext)]

theorem decodeStep_indexedName {i : Nat} (h : 0 < i) {entry : Field}
    (hget : d.getByIndex i = some entry) (huffman : Bool) (value rest : Octets) :
    d.decodeStep false ((Rep.field .incremental (.index i h) (literalOf huffman value)).serialize
      ++ rest) = ((d.asked i).addEntry (entry.1, value), .ok (some (entry.1, value),
        (Rep.field .incremental (.index i h) (literalOf huffman value)).serialize.length)) := by
  have hdec := decodeInteger_encode (by decide : 6 ≤ 8) (by decide : 1 < 2 ^ (8 - 6)) i
    ((literalOf huffman value).serialize ++ rest)
  obtain ⟨b, bs, henc, -⟩ := Lib.PrefixInteger.encode_eq_cons (by decide : 6 ≤ 8)
    (by decide : 1 < 2 ^ (8 - 6)) i
  have hser : (Rep.field .incremental (.index i h) (literalOf huffman value)).serialize ++ rest
      = Lib.PrefixInteger.encode 1 6 i ++ ((literalOf huffman value).serialize ++ rest) :=
    List.append_assoc _ _ _
  have hhead : (Lib.PrefixInteger.encode 1 6 i ++
      ((literalOf huffman value).serialize ++ rest)).headD 0 = b := by rw [henc]; rfl
  have hindex : b &&& 0x3F ≠ 0 := by
    have hmod := Lib.PrefixInteger.first_mod (by decide) (by decide) henc
    rw [and_ne_zero_iff, show (0x3F : UInt8).toNat = 0x3F from rfl,
      (first_bits b.toNat b.toNat_lt).2.2.2, hmod]
    omega
  have hname : d.decodeName false (Lib.PrefixInteger.encode 1 6 i ++
      ((literalOf huffman value).serialize ++ rest)) true
      = (d.asked i, .ok (entry.1, (Lib.PrefixInteger.encode 1 6 i).length)) := by
    simp only [decodeName, if_true, hhead, hindex, hdec, hget, ne_eq, not_false_eq_true]
  rw [decodeStep_field, hser, decodeLiteral, hname]
  simp only [List.drop_left, decodeString_literal, if_true]
  simp [Rep.serialize, Lib.Hpack.Indexing.flag, Lib.Hpack.Indexing.width, Except.map]

theorem decodeStep_literal (huffman : Bool) (name value rest : Octets) :
    d.decodeStep false ((Rep.field .incremental (.literal (literalOf huffman name))
      (literalOf huffman value)).serialize ++ rest) = (d.addEntry (name, value),
        .ok (some (name, value), (Rep.field .incremental (.literal (literalOf huffman name))
          (literalOf huffman value)).serialize.length)) := by
  have hser : (Rep.field .incremental (.literal (literalOf huffman name))
      (literalOf huffman value)).serialize ++ rest = 0x40 ::
        ((literalOf huffman name).serialize ++ ((literalOf huffman value).serialize ++ rest)) := by
    simp only [Rep.serialize, List.append_assoc]
    rfl
  have hname : d.decodeName false (0x40 :: ((literalOf huffman name).serialize ++
      ((literalOf huffman value).serialize ++ rest))) true
      = (d, .ok (name, (literalOf huffman name).serialize.length + 1)) := by
    have hzero : ¬ (0x40 : UInt8) &&& 0x3F ≠ 0 := by decide
    simp only [decodeName, if_true, List.headD_cons, hzero, if_false, List.drop_succ_cons,
      List.drop_zero, decodeString_literal]
    rfl
  rw [decodeStep_field, hser, decodeLiteral, hname]
  simp only [List.drop_succ_cons, List.drop_left, decodeString_literal, if_true]
  simp only [Rep.serialize, Except.map, List.length_append]
  rw [Nat.add_comm (literalOf huffman name).serialize.length 1, Nat.add_assoc]
  rfl

/-- One representation off the front of a block. -/
theorem decodeLoop_rep {d d' : Decoder} {r : Rep} {rest : Octets} {header : Option Field} (n : Nat)
    (h : d.decodeStep false (r.serialize ++ rest) = (d', .ok (header, r.serialize.length))) :
    decodeLoop false (n + 1) d (r.serialize ++ rest) = ((decodeLoop false n d' rest).1,
      (decodeLoop false n d' rest).2.map fun headers => header.toList ++ headers) := by
  cases hser : r.serialize ++ rest with
  | nil => exact absurd (List.append_eq_nil_iff.mp hser).1 (Lib.Hpack.serialize_ne_nil r)
  | cons b bs =>
    have hdrop : (b :: bs).drop r.serialize.length = rest := by rw [← hser, List.drop_left]
    rw [hser] at h
    simp only [decodeLoop, h, hdrop]

end Decoder

end Http2
end Hedra
