/-
# Big-endian integers

A number in a fixed count of bytes, the most significant byte first, and back.  Formats that put
several numbers side by side read them by cutting the bytes at their widths; `decodeAll` undoes
`encodeAll` when every number fits its width.

* `decode_encode`: a number that fits its width is read back;
* `decodeAll_encodeAll`: so are several, side by side.
-/
import Mathlib.Data.List.Basic
import Mathlib.Algebra.Order.Ring.Int
import Mathlib.Algebra.Order.Ring.Nat

namespace Lib.BigEndian

/-- The last `w` base-256 digits of `x`. -/
def encode : Nat → Nat → List UInt8
  | 0, _ => []
  | w + 1, x => encode w (x / 256) ++ [UInt8.ofNat x]

/-- The number with these digits. -/
def decode (bs : List UInt8) : Nat := bs.foldl (fun x b => x * 256 + b.toNat) 0

@[simp] theorem length_encode (w x : Nat) : (encode w x).length = w := by
  induction w generalizing x with
  | zero => rfl
  | succ w ih => simp [encode, ih]

theorem decode_concat (bs : List UInt8) (b : UInt8) :
    decode (bs ++ [b]) = decode bs * 256 + b.toNat := by
  simp [decode]

/-- **What fits is read back.** -/
theorem decode_encode {w x : Nat} (h : x < 256 ^ w) : decode (encode w x) = x := by
  induction w generalizing x with
  | zero =>
    obtain rfl : x = 0 := by simpa using h
    rfl
  | succ w ih =>
    have hdiv : x / 256 < 256 ^ w := Nat.div_lt_of_lt_mul (by rwa [Nat.pow_succ'] at h)
    rw [encode, decode_concat, ih hdiv, UInt8.toNat_ofNat']
    omega

/-- Numbers side by side, each with its width. -/
def encodeAll (fields : List (Nat × Nat)) : List UInt8 :=
  (fields.map fun f => encode f.1 f.2).flatten

/-- Bytes cut at the widths. -/
def decodeAll : List Nat → List UInt8 → List Nat
  | [], _ => []
  | w :: ws, bs => decode (bs.take w) :: decodeAll ws (bs.drop w)

theorem length_encodeAll (fields : List (Nat × Nat)) :
    (encodeAll fields).length = (fields.map Prod.fst).sum := by
  simp [encodeAll, List.length_flatten, Function.comp_def]

theorem decodeAll_encodeAll {fields : List (Nat × Nat)} (h : ∀ f ∈ fields, f.2 < 256 ^ f.1) :
    decodeAll (fields.map Prod.fst) (encodeAll fields) = fields.map Prod.snd := by
  induction fields with
  | nil => rfl
  | cons f fields ih =>
    have hf := decode_encode (h f List.mem_cons_self)
    have hrest := ih fun g hg => h g (List.mem_cons_of_mem f hg)
    have hall : encodeAll (f :: fields) = encode f.1 f.2 ++ encodeAll fields := rfl
    simp only [List.map_cons, decodeAll, hall]
    rw [List.take_left' (length_encode f.1 f.2), List.drop_left' (length_encode f.1 f.2), hf, hrest]

end Lib.BigEndian
