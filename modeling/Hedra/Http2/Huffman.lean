/-
# The Huffman coder of header strings

`HuffmanEncoder.encode` (`core/engines/types/common/hpack/huffman_encoder.py`) appends the codes of
the bytes in one large integer, fills the last byte with ones and writes the integer out.
`decode_huffman` (`huffman_table.py`) goes through the state machine of `Http2/HuffmanTable.lean`,
two nibbles for each byte.

The state machine is checked against the codes entry by entry (`entryAgrees`), so it is a reader of
the code in the sense of `Lib.PrefixCode`, and what was encoded is decoded (`decodeHuffman_encode`).
-/
import Mathlib.Data.List.GetD
import Hedra.Lib.BitString
import Hedra.Lib.PrefixCode
import Hedra.Http2.HuffmanTable

namespace Hedra
namespace Http2

open Lib.BitString (bits ofBytes)
open Lib.PrefixCode (PrefixFree Unfinished Reader spell)

/-- What the HPACK classes raise. -/
inductive HpackError
  | hpackDecodingError
  | indexError
  | typeError
  | valueError
  deriving DecidableEq, Repr

/-! ## 1. `HuffmanEncoder.encode` and `decode_huffman` -/

namespace HuffmanEncoder

/-- The loop over the bytes: `final_num` and `final_int_len`. -/
def addCode (final : Nat × Nat) (byte : UInt8) : Nat × Nat :=
  let binIntLen := requestCodesLength.getD byte.toNat 0
  let binInt := requestCodes.getD byte.toNat 0 &&& (2 ^ (binIntLen + 1) - 1)
  ((final.1 <<< binIntLen) ||| binInt, final.2 + binIntLen)

/-- The integer is written in hexadecimal, with the leading zeros that are missing, and read as
bytes: its big-endian bytes. -/
def encode (bytesToEncode : List UInt8) : List UInt8 :=
  if bytesToEncode = [] then []
  else
    let final := bytesToEncode.foldl addCode (0, 0)
    let bitsToBePadded := (8 - final.2 % 8) % 8
    let finalNum := (final.1 <<< bitsToBePadded) ||| ((1 <<< bitsToBePadded) - 1)
    Lib.BigEndian.encode ((final.2 + bitsToBePadded) / 8) finalNum

end HuffmanEncoder

/-- `state`, `flags` and `decoded_bytes` of the loop. -/
structure HuffmanState where
  state : Nat
  flags : Nat
  decodedBytes : List UInt8

/-- One half of the loop's body. -/
def decodeNibble (s : HuffmanState) (nibble : Nat) : Except HpackError HuffmanState :=
  match huffmanTable[s.state * 16 + nibble]? with
  | none => .error .indexError
  | some (state, flags, outputByte) =>
    if flags &&& 4 ≠ 0 then .error .hpackDecodingError
    else if flags &&& 2 ≠ 0 then .ok ⟨state, flags, s.decodedBytes ++ [UInt8.ofNat outputByte]⟩
    else .ok ⟨state, flags, s.decodedBytes⟩

def decodeByte (s : HuffmanState) (inputByte : UInt8) : Except HpackError HuffmanState := do
  let s ← decodeNibble s (inputByte.toNat >>> 4)
  decodeNibble s (inputByte.toNat &&& 0x0F)

def decodeHuffman (huffmanString : List UInt8) : Except HpackError (List UInt8) :=
  if huffmanString = [] then .ok []
  else do
    let s ← huffmanString.foldlM decodeByte ⟨0, 0, []⟩
    if s.flags &&& 1 = 0 then .error .hpackDecodingError else .ok s.decodedBytes

/-! ## 2. The code -/

/-- Where a symbol stands in the lists of codes; the last one is the end of the string. -/
def symbolIndex : Option UInt8 → Nat
  | some b => b.toNat
  | none => 256

/-- The length and the code of a symbol. -/
def codeOf (a : Option UInt8) : Nat × Nat :=
  (requestCodesLength.getD (symbolIndex a) 0, requestCodes.getD (symbolIndex a) 0)

/-- The bits of a symbol. -/
def huffmanCode (a : Option UInt8) : List Bool := bits (codeOf a).1 (codeOf a).2

theorem symbolIndex_lt (a : Option UInt8) : symbolIndex a < 257 := by
  cases a with
  | none => decide
  | some b => exact Nat.lt_succ_of_lt b.toNat_lt

theorem symbolIndex_inj {a b : Option UInt8} (h : symbolIndex a = symbolIndex b) : a = b := by
  cases a with
  | none =>
    cases b with
    | none => rfl
    | some b => exact absurd h.symm (Nat.ne_of_lt b.toNat_lt)
  | some a =>
    cases b with
    | none => exact absurd h (Nat.ne_of_lt a.toNat_lt)
    | some b => rw [UInt8.toNat_inj.mp h]

/-- The lengths and the codes side by side. -/
def codeTable : List (Nat × Nat) := requestCodesLength.zip requestCodes

/-- The code of a symbol in the table. -/
theorem codeTable_symbol (a : Option UInt8) : (codeOf a, symbolIndex a) ∈ codeTable.zipIdx := by
  have hlen : symbolIndex a < requestCodesLength.length :=
    Nat.lt_of_lt_of_eq (symbolIndex_lt a) (by decide +kernel)
  have hlen' : symbolIndex a < requestCodes.length :=
    Nat.lt_of_lt_of_eq (symbolIndex_lt a) (by decide +kernel)
  rw [List.mk_mem_zipIdx_iff_getElem?, codeTable, List.getElem?_zip_eq_some]
  simp [codeOf, List.getD_eq_getElem?_getD, hlen, hlen']

theorem codeTable_bounded : codeTable.all (fun p => decide (p.2 < 2 ^ p.1)) = true := by
  decide +kernel

theorem codeOf_lt (a : Option UInt8) : (codeOf a).2 < 2 ^ (codeOf a).1 := by
  have hmem : codeOf a ∈ codeTable :=
    List.mem_of_getElem? (List.mk_mem_zipIdx_iff_getElem?.mp (codeTable_symbol a))
  simpa using List.all_eq_true.mp codeTable_bounded _ hmem

/-- The symbol with this index. -/
def symbolAt (i : Nat) : Option UInt8 := if i < 256 then some (UInt8.ofNat i) else none

/-- The symbols at the ends of their codes. -/
def codeTree : Lib.PrefixCode.Tree UInt8 :=
  codeTable.zipIdx.foldl (fun t p => t.add (symbolAt p.2) p.1.1 p.1.2) .empty

/-- The tree is the leaf of this symbol. -/
def endsAt (i : Nat) : Lib.PrefixCode.Tree UInt8 → Bool
  | .leaf a => symbolIndex a == i
  | _ => false

theorem codeTree_codes : codeTable.zipIdx.all (fun p =>
    endsAt p.2 (codeTree.walkNum p.1.1 p.1.2)) = true := by
  decide +kernel

theorem walk_huffmanCode (a : Option UInt8) : codeTree.walk (huffmanCode a) = .leaf a := by
  have hend := List.all_eq_true.mp codeTree_codes _ (codeTable_symbol a)
  rw [Lib.PrefixCode.Tree.walkNum_eq] at hend
  rw [huffmanCode]
  cases hwalk : codeTree.walk (bits (codeOf a).1 (codeOf a).2) with
  | leaf b =>
    rw [hwalk] at hend
    rw [symbolIndex_inj (a := b) (b := a) (by simpa [endsAt] using hend)]
  | empty => rw [hwalk] at hend; cases hend
  | node zero one => rw [hwalk] at hend; cases hend

theorem huffmanCode_prefixFree : PrefixFree huffmanCode :=
  Lib.PrefixCode.Tree.prefixFree walk_huffmanCode

/-! ## 3. The state machine reads the code -/

/-- Rows of sixteen: with them an entry far down a list is found in few steps. -/
def rowsOf {α : Type*} : Nat → List α → List (List α)
  | 0, _ => []
  | n + 1, l => l.take 16 :: rowsOf n (l.drop 16)

def inRows (rows : List (List (Nat × Nat))) (i : Nat) : Nat × Nat :=
  (rows.getD (i / 16) []).getD (i % 16) (0, 0)

theorem inRows_rowsOf {n i : Nat} (h : i < 16 * n) (l : List (Nat × Nat)) :
    inRows (rowsOf n l) i = l.getD i (0, 0) := by
  induction n generalizing i l with
  | zero => omega
  | succ n ih =>
    by_cases hi : i < 16
    · have hdiv : i / 16 = 0 := Nat.div_eq_of_lt hi
      have hmod : i % 16 = i := Nat.mod_eq_of_lt hi
      simp [inRows, rowsOf, hdiv, hmod, List.getD_eq_getElem?_getD, hi]
    · have hdiv : i / 16 = (i - 16) / 16 + 1 := by omega
      have hmod : i % 16 = (i - 16) % 16 := by omega
      have hadd : 16 + (i - 16) = i := by omega
      have hrest := ih (i := i - 16) (by omega) (l.drop 16)
      simp only [inRows] at hrest
      simp only [inRows, rowsOf, hdiv, hmod, List.getD_cons_succ]
      rw [hrest]
      simp [List.getD_eq_getElem?_getD, List.getElem?_drop, hadd]

/-- What each state stands for: the length and the value of the bits behind the last symbol. -/
def pendingRows : List (List (Nat × Nat)) := [
  [(0, 0x0), (1, 0x0), (2, 0x0), (3, 0x0), (4, 0x0), (4, 0x1), (3, 0x1), (4, 0x2), (4, 0x3),
   (2, 0x1), (3, 0x2), (4, 0x4), (4, 0x5), (5, 0xa), (5, 0xb), (3, 0x3)],
  [(4, 0x6), (5, 0xc), (5, 0xd), (4, 0x7), (5, 0xe), (5, 0xf), (1, 0x1), (2, 0x2), (3, 0x4),
   (4, 0x8), (5, 0x10), (5, 0x11), (4, 0x9), (5, 0x12), (5, 0x13), (3, 0x5)],
  [(4, 0xa), (5, 0x14), (5, 0x15), (4, 0xb), (5, 0x16), (5, 0x17), (6, 0x2e), (6, 0x2f),
   (2, 0x3), (3, 0x6), (4, 0xc), (5, 0x18), (6, 0x30), (6, 0x31), (5, 0x19), (6, 0x32)],
  [(6, 0x33), (4, 0xd), (5, 0x1a), (6, 0x34), (6, 0x35), (5, 0x1b), (6, 0x36), (6, 0x37),
   (3, 0x7), (4, 0xe), (5, 0x1c), (6, 0x38), (6, 0x39), (5, 0x1d), (6, 0x3a), (6, 0x3b)],
  [(4, 0xf), (5, 0x1e), (6, 0x3c), (6, 0x3d), (5, 0x1f), (6, 0x3e), (7, 0x7c), (7, 0x7d),
   (6, 0x3f), (7, 0x7e), (7, 0x7f), (8, 0xfe), (9, 0x1fc), (9, 0x1fd), (8, 0xff), (9, 0x1fe)],
  [(10, 0x3fd), (9, 0x1ff), (10, 0x3fe), (11, 0x7fd), (10, 0x3ff), (11, 0x7fe), (12, 0xffc),
   (12, 0xffd), (11, 0x7ff), (12, 0xffe), (12, 0xfff), (13, 0x1ffe), (13, 0x1fff), (14, 0x3ffe),
   (14, 0x3fff), (15, 0x7fff)],
  [(16, 0xfffe), (17, 0x1fffc), (18, 0x3fff8), (18, 0x3fff9), (19, 0x7fff3), (17, 0x1fffd),
   (18, 0x3fffa), (19, 0x7fff4), (19, 0x7fff5), (18, 0x3fffb), (19, 0x7fff6), (19, 0x7fff7),
   (20, 0xfffee), (20, 0xfffef), (16, 0xffff), (17, 0x1fffe)],
  [(18, 0x3fffc), (19, 0x7fff8), (20, 0xffff0), (20, 0xffff1), (19, 0x7fff9), (20, 0xffff2),
   (20, 0xffff3), (18, 0x3fffd), (19, 0x7fffa), (20, 0xffff4), (21, 0x1fffe9), (20, 0xffff5),
   (21, 0x1fffea), (21, 0x1fffeb), (19, 0x7fffb), (20, 0xffff6)],
  [(21, 0x1fffec), (21, 0x1fffed), (20, 0xffff7), (21, 0x1fffee), (21, 0x1fffef), (17, 0x1ffff),
   (18, 0x3fffe), (19, 0x7fffc), (20, 0xffff8), (21, 0x1ffff0), (21, 0x1ffff1), (20, 0xffff9),
   (21, 0x1ffff2), (21, 0x1ffff3), (19, 0x7fffd), (20, 0xffffa)],
  [(21, 0x1ffff4), (21, 0x1ffff5), (20, 0xffffb), (21, 0x1ffff6), (22, 0x3fffec), (22, 0x3fffed),
   (21, 0x1ffff7), (22, 0x3fffee), (22, 0x3fffef), (18, 0x3ffff), (19, 0x7fffe), (20, 0xffffc),
   (21, 0x1ffff8), (22, 0x3ffff0), (22, 0x3ffff1), (21, 0x1ffff9)],
  [(22, 0x3ffff2), (22, 0x3ffff3), (20, 0xffffd), (21, 0x1ffffa), (22, 0x3ffff4), (22, 0x3ffff5),
   (21, 0x1ffffb), (22, 0x3ffff6), (22, 0x3ffff7), (19, 0x7ffff), (20, 0xffffe), (21, 0x1ffffc),
   (22, 0x3ffff8), (22, 0x3ffff9), (21, 0x1ffffd), (22, 0x3ffffa)],
  [(23, 0x7ffff5), (22, 0x3ffffb), (23, 0x7ffff6), (23, 0x7ffff7), (20, 0xfffff), (21, 0x1ffffe),
   (22, 0x3ffffc), (23, 0x7ffff8), (23, 0x7ffff9), (22, 0x3ffffd), (23, 0x7ffffa),
   (23, 0x7ffffb), (24, 0xfffff6), (24, 0xfffff7), (21, 0x1fffff), (22, 0x3ffffe)],
  [(23, 0x7ffffc), (24, 0xfffff8), (25, 0x1fffff0), (25, 0x1fffff1), (24, 0xfffff9),
   (25, 0x1fffff2), (25, 0x1fffff3), (23, 0x7ffffd), (24, 0xfffffa), (25, 0x1fffff4),
   (25, 0x1fffff5), (24, 0xfffffb), (25, 0x1fffff6), (25, 0x1fffff7), (26, 0x3ffffef),
   (22, 0x3fffff)],
  [(23, 0x7ffffe), (24, 0xfffffc), (25, 0x1fffff8), (26, 0x3fffff0), (26, 0x3fffff1),
   (25, 0x1fffff9), (26, 0x3fffff2), (26, 0x3fffff3), (24, 0xfffffd), (25, 0x1fffffa),
   (26, 0x3fffff4), (26, 0x3fffff5), (25, 0x1fffffb), (26, 0x3fffff6), (26, 0x3fffff7),
   (23, 0x7fffff)],
  [(24, 0xfffffe), (25, 0x1fffffc), (26, 0x3fffff8), (27, 0x7fffff1), (26, 0x3fffff9),
   (27, 0x7fffff2), (27, 0x7fffff3), (25, 0x1fffffd), (26, 0x3fffffa), (27, 0x7fffff4),
   (27, 0x7fffff5), (26, 0x3fffffb), (27, 0x7fffff6), (27, 0x7fffff7), (24, 0xffffff),
   (25, 0x1fffffe)],
  [(26, 0x3fffffc), (27, 0x7fffff8), (27, 0x7fffff9), (26, 0x3fffffd), (27, 0x7fffffa),
   (27, 0x7fffffb), (25, 0x1ffffff), (26, 0x3fffffe), (27, 0x7fffffc), (27, 0x7fffffd),
   (26, 0x3ffffff), (27, 0x7fffffe), (27, 0x7ffffff), (28, 0xfffffff), (29, 0x1ffffffe),
   (29, 0x1fffffff)]]

def pendingOf (state : Nat) : Nat × Nat := inRows pendingRows state

/-- The bits are fewer than a byte and all ones, as `encode` pads. -/
def isPadding (n v : Nat) : Bool := Nat.blt n 8 && Nat.beq v (2 ^ n - 1)

/-- An entry of the table for the nibble `c`, in a state with the pending bits `p`: it fails where
the end of the string is read, it emits a symbol where one gets whole, and the bits of the new state
are those that are left. -/
def entryAgrees (p : Nat × Nat) (c : Nat) : HuffmanEntry → Bool
  | (state, flags, byte) =>
    if flags &&& 4 = 0 then
      match pendingOf state with
      | (n, v) => Nat.blt state 256 && (Nat.beq (flags &&& 1) 0 == !isPadding n v) &&
        if flags &&& 2 = 0 then Nat.beq (p.1 + 4) n && Nat.beq (Lib.pack p.2 4 c) v
        else
          match inRows (rowsOf 17 codeTable) byte with
          | (m, w) => Nat.blt byte 256 && Nat.beq (p.1 + 4) (m + n) &&
            Nat.beq (Lib.pack p.2 4 c) (Lib.pack w n v)
    else Nat.ble 30 (p.1 + 4) && Nat.beq (Lib.pack p.2 4 c / 2 ^ (p.1 + 4 - 30)) (codeOf none).2

theorem pendingOf_nodes : (List.range 256).all (fun s =>
    (codeTree.walkNum (pendingOf s).1 (pendingOf s).2).isNode) = true := by
  decide +kernel

theorem pendingOf_bounded : (List.range 256).all (fun s =>
    Nat.blt (pendingOf s).2 (2 ^ (pendingOf s).1)) = true := by
  decide +kernel

theorem huffmanNodes_agree : huffmanNodes.zipIdx.all (fun n =>
    n.1.zipIdx.all fun e => entryAgrees (pendingOf n.2) e.2 e.1) = true := by
  decide +kernel

theorem huffmanNodes_rows : huffmanNodes.length = 256 ∧
    huffmanNodes.all (fun n => Nat.beq n.length 16) = true := by
  decide +kernel

theorem getElem?_flatten_rows {α : Type*} {k : Nat} {rows : List (List α)}
    (h : ∀ row ∈ rows, row.length = k) (s : Nat) {c : Nat} (hc : c < k) :
    rows.flatten[s * k + c]? = rows[s]?.bind fun row => row[c]? := by
  induction rows generalizing s with
  | nil => rfl
  | cons row rows ih =>
    have hlen : row.length = k := h row List.mem_cons_self
    have hrest := ih (fun r hr => h r (List.mem_cons_of_mem row hr))
    cases s with
    | zero => simp [List.getElem?_append_left, hlen, hc]
    | succ s =>
      have hidx : (s + 1) * k + c = row.length + (s * k + c) := by rw [hlen]; ring
      rw [List.flatten_cons, hidx, List.getElem?_append_right (Nat.le_add_right _ _),
        Nat.add_sub_cancel_left, hrest, List.getElem?_cons_succ]

/-- The flat table has an entry for each state and each nibble, and it agrees with the code. -/
theorem huffmanTable_agrees (s : Fin 256) (c : Fin 16) : ∃ e,
    huffmanTable[s.val * 16 + c.val]? = some e ∧ entryAgrees (pendingOf s.val) c.val e = true := by
  have hrows : ∀ row ∈ huffmanNodes, row.length = 16 := fun row hrow =>
    Nat.eq_of_beq_eq_true (List.all_eq_true.mp huffmanNodes_rows.2 row hrow)
  obtain ⟨row, hrow⟩ : ∃ row, huffmanNodes[s.val]? = some row :=
    ⟨_, List.getElem?_eq_getElem (by rw [huffmanNodes_rows.1]; exact s.isLt)⟩
  obtain ⟨e, he⟩ : ∃ e, row[c.val]? = some e :=
    ⟨_, List.getElem?_eq_getElem (by rw [hrows row (List.mem_of_getElem? hrow)]; exact c.isLt)⟩
  refine ⟨e, ?_, ?_⟩
  · rw [huffmanTable, getElem?_flatten_rows hrows s.val c.isLt, hrow]
    exact he
  · have hall := List.all_eq_true.mp huffmanNodes_agree (row, s.val)
      (List.mk_mem_zipIdx_iff_getElem?.mpr hrow)
    exact List.all_eq_true.mp hall (e, c.val) (List.mk_mem_zipIdx_iff_getElem?.mpr he)

def pendingBits (s : Fin 256) : List Bool := bits (pendingOf s.val).1 (pendingOf s.val).2

theorem pendingOf_lt (s : Fin 256) : (pendingOf s.val).2 < 2 ^ (pendingOf s.val).1 := by
  have h := List.all_eq_true.mp pendingOf_bounded s.val (List.mem_range.mpr s.isLt)
  simpa [Nat.blt_eq] using h

theorem pendingBits_nibble (s : Fin 256) (c : Fin 16) : pendingBits s ++ bits 4 c.val
    = bits ((pendingOf s.val).1 + 4) (Lib.pack (pendingOf s.val).2 4 c.val) :=
  (Lib.BitString.bits_pack _ _ c.isLt).symm

/-- The step of the state machine, without the flags. -/
def nibbleStep (s : Fin 256) (c : Fin 16) : Option (Fin 256 × Option UInt8) :=
  match huffmanTable[s.val * 16 + c.val]? with
  | none => none
  | some (state, flags, byte) =>
    if flags &&& 4 = 0 then
      some (Fin.ofNat 256 state, if flags &&& 2 = 0 then none else some (UInt8.ofNat byte))
    else none

theorem inRows_codeTable {byte : Nat} (h : byte < 256) :
    inRows (rowsOf 17 codeTable) byte = codeOf (some (UInt8.ofNat byte)) := by
  have hidx : symbolIndex (some (UInt8.ofNat byte)) = byte := by
    simp [symbolIndex, Nat.mod_eq_of_lt h]
  have hget := List.mk_mem_zipIdx_iff_getElem?.mp (codeTable_symbol (some (UInt8.ofNat byte)))
  rw [hidx] at hget
  rw [inRows_rowsOf (by omega), List.getD_eq_getElem?_getD, hget]
  rfl

section Entry

variable {p : Nat × Nat} {c state flags byte : Nat}

theorem entryAgrees_of_eq_zero (hf : flags &&& 4 = 0) : entryAgrees p c (state, flags, byte) =
    (Nat.blt state 256 && (Nat.beq (flags &&& 1) 0 ==
        !isPadding (pendingOf state).1 (pendingOf state).2) &&
      if flags &&& 2 = 0 then
        Nat.beq (p.1 + 4) (pendingOf state).1 && Nat.beq (Lib.pack p.2 4 c) (pendingOf state).2
      else
        Nat.blt byte 256 &&
        Nat.beq (p.1 + 4) ((inRows (rowsOf 17 codeTable) byte).1 + (pendingOf state).1) &&
        Nat.beq (Lib.pack p.2 4 c)
          (Lib.pack (inRows (rowsOf 17 codeTable) byte).2 (pendingOf state).1
          (pendingOf state).2)) :=
  if_pos hf

theorem entryAgrees_fail (hf : flags &&& 4 ≠ 0) (h : entryAgrees p c (state, flags, byte) = true) :
    30 ≤ p.1 + 4 ∧ Lib.pack p.2 4 c / 2 ^ (p.1 + 4 - 30) = (codeOf none).2 := by
  rw [entryAgrees, if_neg hf, Bool.and_eq_true, Nat.beq_eq] at h
  exact ⟨Nat.le_of_ble_eq_true h.1, h.2⟩

theorem entryAgrees_ok (hf : flags &&& 4 = 0) (h : entryAgrees p c (state, flags, byte) = true) :
    state < 256 ∧
    (flags &&& 1 = 0 ↔ isPadding (pendingOf state).1 (pendingOf state).2 = false) := by
  rw [entryAgrees_of_eq_zero hf, Bool.and_eq_true, Bool.and_eq_true, Nat.blt_eq, beq_iff_eq] at h
  refine ⟨h.1.1, ?_⟩
  rw [← Nat.beq_eq, h.1.2, Bool.not_eq_true']

theorem entryAgrees_quiet (hf : flags &&& 4 = 0) (he : flags &&& 2 = 0)
    (h : entryAgrees p c (state, flags, byte) = true) :
    p.1 + 4 = (pendingOf state).1 ∧ Lib.pack p.2 4 c = (pendingOf state).2 := by
  rw [entryAgrees_of_eq_zero hf, if_pos he] at h
  simp only [Bool.and_eq_true, Nat.beq_eq] at h
  exact h.2

theorem entryAgrees_emit (hf : flags &&& 4 = 0) (he : flags &&& 2 ≠ 0)
    (h : entryAgrees p c (state, flags, byte) = true) :
    p.1 + 4 = (codeOf (some (UInt8.ofNat byte))).1 + (pendingOf state).1 ∧
    Lib.pack p.2 4 c = Lib.pack (codeOf (some (UInt8.ofNat byte))).2 (pendingOf state).1
      (pendingOf state).2 := by
  rw [entryAgrees_of_eq_zero hf, if_neg he] at h
  simp only [Bool.and_eq_true, Nat.blt_eq, Nat.beq_eq] at h
  rw [← inRows_codeTable h.2.1.1]
  exact ⟨h.2.1.2, h.2.2⟩

end Entry

/-- `decode_huffman`'s table as a reader of the code. -/
def huffmanReader : Reader huffmanCode (fun c : Fin 16 => bits 4 c.val) (Fin 256) where
  start := 0
  step := nibbleStep
  pending := pendingBits
  pending_start := by decide +kernel
  unfinished s := by
    have h := List.all_eq_true.mp pendingOf_nodes s.val (List.mem_range.mpr s.isLt)
    rw [Lib.PrefixCode.Tree.walkNum_eq] at h
    exact Lib.PrefixCode.Tree.unfinished walk_huffmanCode h
  step_some {s c s' o} h := by
    obtain ⟨⟨state, flags, byte⟩, hget, hagrees⟩ := huffmanTable_agrees s c
    rw [nibbleStep, hget] at h
    by_cases hf : flags &&& 4 = 0
    · obtain ⟨rfl, rfl⟩ : Fin.ofNat 256 state = s' ∧
          (if flags &&& 2 = 0 then none else some (UInt8.ofNat byte)) = o := by simpa [hf] using h
      have hstate : (Fin.ofNat 256 state).val = state :=
        Nat.mod_eq_of_lt (entryAgrees_ok hf hagrees).1
      have hlt := pendingOf_lt (Fin.ofNat 256 state)
      rw [hstate] at hlt
      rw [pendingBits_nibble, pendingBits, hstate]
      by_cases he : flags &&& 2 = 0
      · obtain ⟨hlen, hval⟩ := entryAgrees_quiet hf he hagrees
        simp [he, hlen, hval]
      · obtain ⟨hlen, hval⟩ := entryAgrees_emit hf he hagrees
        rw [hlen, hval, Lib.BitString.bits_pack _ _ hlt]
        simp [he, huffmanCode]
    · simp [hf] at h
  step_none {s c} h := by
    obtain ⟨⟨state, flags, byte⟩, hget, hagrees⟩ := huffmanTable_agrees s c
    rw [nibbleStep, hget] at h
    by_cases hf : flags &&& 4 = 0
    · simp [hf] at h
    · obtain ⟨hlen, hval⟩ := entryAgrees_fail hf hagrees
      have hlt : Lib.pack (pendingOf s.val).2 4 c.val < 2 ^ ((pendingOf s.val).1 + 4) :=
        Lib.pack_lt (pendingOf_lt s) c.isLt
      rw [pendingBits_nibble, huffmanCode]
      exact (Lib.BitString.bits_prefix_iff (codeOf_lt none) hlt).mpr ⟨hlen, hval⟩

/-! ## 4. What was encoded is decoded -/

theorem decodeNibble_of_step {s s' : Fin 256} {c : Fin 16} {o : Option UInt8}
    (h : huffmanReader.step s c = some (s', o)) (flags : Nat) (out : List UInt8) : ∃ flags',
    decodeNibble ⟨s.val, flags, out⟩ c.val = .ok ⟨s'.val, flags', out ++ o.toList⟩ ∧
    (flags' &&& 1 = 0 ↔ isPadding (pendingOf s'.val).1 (pendingOf s'.val).2 = false) := by
  obtain ⟨⟨state, flags', byte⟩, hget, hagrees⟩ := huffmanTable_agrees s c
  change nibbleStep s c = some (s', o) at h
  rw [nibbleStep, hget] at h
  by_cases hf : flags' &&& 4 = 0
  · obtain ⟨rfl, rfl⟩ : Fin.ofNat 256 state = s' ∧
        (if flags' &&& 2 = 0 then none else some (UInt8.ofNat byte)) = o := by simpa [hf] using h
    obtain ⟨hlt, hflag⟩ := entryAgrees_ok hf hagrees
    have hstate : (Fin.ofNat 256 state).val = state := Nat.mod_eq_of_lt hlt
    refine ⟨flags', ?_, by rw [hstate, hflag]⟩
    by_cases he : flags' &&& 2 = 0
    · simp [decodeNibble, hget, hf, he, Nat.mod_eq_of_lt hlt]
    · simp [decodeNibble, hget, hf, he, Nat.mod_eq_of_lt hlt]
  · simp [hf] at h

/-- The two halves of a byte. -/
def nibbles (b : UInt8) : List (Fin 16) :=
  [⟨b.toNat >>> 4, by rw [Nat.shiftRight_eq_div_pow]; have := b.toNat_lt; omega⟩,
    ⟨b.toNat &&& 15, Nat.lt_of_le_of_lt Nat.and_le_right (by decide)⟩]

theorem flatMap_nibbles (bs : List UInt8) :
    (bs.flatMap nibbles).flatMap (fun c => bits 4 c.val) = ofBytes bs := by
  induction bs with
  | nil => rfl
  | cons b bs ih =>
    rw [List.flatMap_cons, List.flatMap_append, ih, Lib.BitString.ofBytes_cons,
      Lib.BitString.bits_byte]
    simp [nibbles]

/-- The loop of `decode_huffman` follows the reader. -/
theorem foldlM_decodeByte {bs : List UInt8} {s s' : Fin 256} {word : List UInt8}
    (h : huffmanReader.run s (bs.flatMap nibbles) = some (s', word)) (flags : Nat)
    (out : List UInt8) : ∃ flags',
    bs.foldlM decodeByte ⟨s.val, flags, out⟩ = .ok ⟨s'.val, flags', out ++ word⟩ ∧
    (bs ≠ [] → (flags' &&& 1 = 0 ↔
      isPadding (pendingOf s'.val).1 (pendingOf s'.val).2 = false)) := by
  induction bs generalizing s word flags out with
  | nil =>
    obtain ⟨rfl, rfl⟩ : s = s' ∧ ([] : List UInt8) = word := by
      simpa [Reader.run] using h
    exact ⟨flags, by simp; rfl, fun h => absurd rfl h⟩
  | cons b bs ih =>
    obtain ⟨s₁, o₁, rest₁, hstep₁, hrun₁, rfl⟩ := Reader.run_cons.mp h
    obtain ⟨s₂, o₂, rest₂, hstep₂, hrun₂, rfl⟩ := Reader.run_cons.mp hrun₁
    obtain ⟨flags₁, hnib₁, -⟩ := decodeNibble_of_step hstep₁ flags out
    obtain ⟨flags₂, hnib₂, hpad₂⟩ := decodeNibble_of_step hstep₂ flags₁ (out ++ o₁.toList)
    have hbyte : decodeByte ⟨s.val, flags, out⟩ b
        = .ok ⟨s₂.val, flags₂, out ++ o₁.toList ++ o₂.toList⟩ := by
      simp only [decodeByte]
      rw [hnib₁]
      exact hnib₂
    obtain ⟨flags', hfold, hpad⟩ := ih hrun₂ flags₂ (out ++ o₁.toList ++ o₂.toList)
    refine ⟨flags', ?_, fun _ => ?_⟩
    · have hword : out ++ (o₁.toList ++ (o₂.toList ++ rest₂))
          = out ++ o₁.toList ++ o₂.toList ++ rest₂ := by simp
      rw [List.foldlM_cons, hbyte, hword]
      exact hfold
    · cases bs with
      | nil =>
        obtain ⟨rfl, -⟩ : s₂ = s' ∧ _ := by simpa [Reader.run] using hrun₂
        obtain rfl : flags₂ = flags' := congrArg HuffmanState.flags (Except.ok.inj hfold)
        exact hpad₂
      | cons b' bs => exact hpad (List.cons_ne_nil b' bs)

namespace HuffmanEncoder

/-- The integer of the loop holds the codes of the bytes so far. -/
theorem foldl_addCode (bs : List UInt8) {num len : Nat} (h : num < 2 ^ len) :
    (bs.foldl addCode (num, len)).1 < 2 ^ (bs.foldl addCode (num, len)).2 ∧
    bits (bs.foldl addCode (num, len)).2 (bs.foldl addCode (num, len)).1
      = bits len num ++ spell huffmanCode bs := by
  induction bs generalizing num len with
  | nil => exact ⟨h, by simp⟩
  | cons b bs ih =>
    have hcode := codeOf_lt (some b)
    have hmask : (codeOf (some b)).2 &&& (2 ^ ((codeOf (some b)).1 + 1) - 1)
        = (codeOf (some b)).2 := by
      rw [Nat.and_two_pow_sub_one_eq_mod, Nat.mod_eq_of_lt]
      exact hcode.trans (Nat.pow_lt_pow_right (by decide) (Nat.lt_succ_self _))
    have hadd : addCode (num, len) b
        = (Lib.pack num (codeOf (some b)).1 (codeOf (some b)).2, len + (codeOf (some b)).1) := by
      rw [← congrArg (Lib.pack num (codeOf (some b)).1) hmask]
      rfl
    obtain ⟨hlt, hbits⟩ := ih (Lib.pack_lt h hcode)
    rw [List.foldl_cons, hadd]
    refine ⟨hlt, ?_⟩
    rw [hbits, Lib.BitString.bits_pack _ _ hcode]
    simp [huffmanCode]

/-- The bits of an encoded string: the codes, and ones up to the end of a byte. -/
theorem ofBytes_encode (bs : List UInt8) : ∃ k < 8,
    ofBytes (encode bs) = spell huffmanCode bs ++ List.replicate k true := by
  by_cases hbs : bs = []
  · exact ⟨0, by decide, by simp [encode, hbs]⟩
  · obtain ⟨hlt, hbits⟩ := foldl_addCode bs (Nat.two_pow_pos 0)
    rw [encode, if_neg hbs]
    simp only [Lib.BitString.ofBytes_encode]
    generalize hfinal : bs.foldl addCode (0, 0) = final at hlt hbits ⊢
    have hwhole : 8 * ((final.2 + (8 - final.2 % 8) % 8) / 8)
        = final.2 + (8 - final.2 % 8) % 8 := by omega
    refine ⟨(8 - final.2 % 8) % 8, Nat.mod_lt _ (by decide), ?_⟩
    generalize (8 - final.2 % 8) % 8 = k at hwhole ⊢
    have hones : (1 <<< k) - 1 = 2 ^ k - 1 := by rw [Nat.one_shiftLeft]
    have hfit : 2 ^ k - 1 < 2 ^ k := Nat.sub_lt (Nat.two_pow_pos k) Nat.one_pos
    rw [hwhole, hones]
    rw [show final.1 <<< k ||| (2 ^ k - 1) = Lib.pack final.1 k (2 ^ k - 1) from rfl,
      Lib.BitString.bits_pack _ _ hfit, hbits, Lib.BitString.bits_ones]
    simp

end HuffmanEncoder

theorem padding_nodes : (List.range 8).all (fun k =>
    (codeTree.walkNum k (2 ^ k - 1)).isNode) = true := by
  decide +kernel

theorem unfinished_padding {k : Nat} (hk : k < 8) :
    Unfinished huffmanCode (List.replicate k true) := by
  have h := List.all_eq_true.mp padding_nodes k (List.mem_range.mpr hk)
  rw [Lib.PrefixCode.Tree.walkNum_eq, Lib.BitString.bits_ones] at h
  exact Lib.PrefixCode.Tree.unfinished walk_huffmanCode h

theorem huffmanCode_ne_nil (a : Option UInt8) : huffmanCode a ≠ [] := by
  intro ha
  exact (unfinished_padding (by decide : 0 < 8)) a (by rw [ha]; exact List.nil_prefix)

namespace HuffmanEncoder

theorem encode_ne_nil {bs : List UInt8} (h : bs ≠ []) : encode bs ≠ [] := by
  intro hnil
  obtain ⟨k, -, hbits⟩ := ofBytes_encode bs
  rw [hnil, Lib.BitString.ofBytes_nil] at hbits
  have hlen := Lib.PrefixCode.length_le_spell huffmanCode_ne_nil bs
  rw [(List.append_eq_nil_iff.mp hbits.symm).1] at hlen
  exact h (List.eq_nil_of_length_eq_zero (Nat.le_zero.mp hlen))

end HuffmanEncoder

/-- **`decode_huffman` undoes `HuffmanEncoder.encode`.** -/
theorem decodeHuffman_encode (bs : List UInt8) :
    decodeHuffman (HuffmanEncoder.encode bs) = .ok bs := by
  by_cases hbs : bs = []
  · subst hbs
    rfl
  · obtain ⟨k, hk, hbits⟩ := HuffmanEncoder.ofBytes_encode bs
    have hne := HuffmanEncoder.encode_ne_nil hbs
    rw [← flatMap_nibbles] at hbits
    obtain ⟨s', hrun, hpending⟩ := Reader.run_spell huffmanCode_prefixFree
      (unfinished_padding hk) (r := huffmanReader) (s := 0)
      (by rw [show huffmanReader.pending 0 = [] from huffmanReader.pending_start]; exact hbits)
    obtain ⟨flags', hfold, hflag⟩ := foldlM_decodeByte hrun 0 []
    have hcomplete : isPadding (pendingOf s'.val).1 (pendingOf s'.val).2 = true := by
      change bits (pendingOf s'.val).1 (pendingOf s'.val).2 = _ at hpending
      have hlen : (pendingOf s'.val).1 = k := by simpa using congrArg List.length hpending
      have hlt := pendingOf_lt s'
      rw [hlen, ← Lib.BitString.bits_ones] at hpending
      rw [hlen] at hlt ⊢
      have hval := Lib.BitString.bits_inj hlt (Nat.sub_lt (Nat.two_pow_pos k) Nat.one_pos) hpending
      simp [isPadding, hval, hk, Nat.blt_eq]
    have hone : ¬ flags' &&& 1 = 0 := by rw [hflag hne, hcomplete]; decide
    rw [decodeHuffman, if_neg hne]
    change (HuffmanEncoder.encode bs).foldlM decodeByte ⟨0, 0, []⟩ = _ at hfold
    rw [hfold]
    exact if_neg hone

/-! ## 5. The code as the standard defines it

Appendix B of the HPACK standard gives the codes only.  Its decoder takes off code after code; fewer
than eight bits may be left, all ones, and the end of the string must not be met. -/

def allBytes : List UInt8 := (List.range 256).map UInt8.ofNat

theorem mem_allBytes (b : UInt8) : b ∈ allBytes :=
  List.mem_map.mpr ⟨b.toNat, List.mem_range.mpr b.toNat_lt, UInt8.ofNat_toNat⟩

def standardHuffman (octets : List UInt8) : Option (List UInt8) :=
  let r := Lib.PrefixCode.read huffmanCode allBytes (8 * octets.length) (ofBytes octets)
  if r.2.length < 8 ∧ r.2.all id = true then some r.1 else none

theorem standardHuffman_encode (bs : List UInt8) :
    standardHuffman (HuffmanEncoder.encode bs) = some bs := by
  obtain ⟨k, hk, hbits⟩ := HuffmanEncoder.ofBytes_encode bs
  have hlen : bs.length ≤ 8 * (HuffmanEncoder.encode bs).length := by
    have hspell := Lib.PrefixCode.length_le_spell huffmanCode_ne_nil bs
    have htotal := congrArg List.length hbits
    rw [Lib.BitString.length_ofBytes, List.length_append] at htotal
    omega
  have hread := Lib.PrefixCode.read_spell huffmanCode_prefixFree mem_allBytes
    (unfinished_padding hk) hlen
  rw [standardHuffman, hbits, hread]
  simp [hk]

end Http2
end Hedra
