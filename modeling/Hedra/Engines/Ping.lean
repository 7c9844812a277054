/-
# The checksum of the ping client

`checksum` (`core/engines/types/common/protocols/ping/ping.py`) adds the words of a buffer, low byte
first, folds the carries in, complements, and swaps the bytes of what comes out.  That is the
Internet checksum of the buffer, which adds words high byte first: swapping the bytes of every word
multiplies the sum by 256 (`swap_eq_reduce`), and two foldings are enough for 32 bits.

The loop is meant to stop before an odd last byte, but `/` is a division of floats, nothing is
rounded off, and the byte behind the last one is read.  The sum is also cut at 32 bits, where
carries are lost; no buffer that would fit into a packet gets there.

* `loop_eq`: what the loop adds up, of a buffer of even length;
* `packet_verifies`: an echo packet verifies;
* `checksum_correct_iff`: for which buffers the checksum is the Internet checksum.
-/
import Hedra.Lib.OnesComplement
import Mathlib.Algebra.Order.Field.Rat
import Mathlib.Data.Nat.Bitwise
import Mathlib.Tactic.NormNum
import Mathlib.Tactic.Ring

namespace Hedra
namespace Engines
namespace Ping

open Lib OnesComplement

abbrev Bytes := List UInt8

/-! ## 1. The code -/

/-- `buffer[count + 1] * 256 + buffer[count]`, unless one of them is out of range. -/
def thisVal (buffer : Bytes) (count : ℕ) : Option ℕ :=
  match buffer[count + 1]?, buffer[count]? with
  | some high, some low => some (high.toNat * 256 + low.toNat)
  | _, _ => none

/-- `(len(buffer) / 2) * 2`: a float, which is exact up to 2 ^ 53. -/
def countTo (buffer : Bytes) : ℚ := (buffer.length / 2) * 2

theorem countTo_eq (buffer : Bytes) : countTo buffer = buffer.length := by
  unfold countTo
  ring

/-- The `while` loop. -/
def loop (buffer : Bytes) (count sum : ℕ) : Option ℕ :=
  if count < countTo buffer then
    match thisVal buffer count with
    | none => none
    | some val => loop buffer (count + 2) ((sum + val) &&& 0xffffffff)
  else some sum
termination_by buffer.length - count
decreasing_by
  have h : count < buffer.length := by simp_all [countTo_eq]
  omega

/-- What is made of the sum. -/
def answer (sum : ℕ) : ℕ :=
  let sum := (sum >>> 16) + (sum &&& 0xffff)
  let sum := sum + (sum >>> 16)
  -- `~sum & 0xffff`
  let answer := (~~~(sum : ℤ) % 0x10000).toNat
  answer >>> 8 ||| (answer <<< 8 &&& 0xff00)

/-- `checksum`, unless it raises an `IndexError`. -/
def checksum (buffer : Bytes) : Option ℕ :=
  (loop buffer 0 0).map fun sum =>
    answer <|
      if countTo buffer < buffer.length then
        (sum + (buffer.getLastD 0).toNat) &&& 0xffffffff
      else sum

/-! ## 2. The Internet checksum -/

/-- The words of RFC 1071; a last byte is filled up with zeros. -/
def internetWords : Bytes → List ℕ
  | [] => []
  | [a] => [a.toNat * 256]
  | a :: b :: bytes => (a.toNat * 256 + b.toNat) :: internetWords bytes

/-- The complement of the one's complement sum of the words. -/
def internetChecksum (buffer : Bytes) : ℕ := 0xffff - sum 0xffff (internetWords buffer)

/-- The words, low byte first. -/
def words : Bytes → List ℕ
  | [] => []
  | [a] => [a.toNat]
  | a :: b :: bytes => (b.toNat * 256 + a.toNat) :: words bytes

theorem internetWords_le (bytes : Bytes) : ∀ w ∈ internetWords bytes, w ≤ 0xffff := by
  induction bytes using internetWords.induct with
  | case1 => simp [internetWords]
  | case2 a =>
    have ha := a.toNat_lt
    simp only [internetWords, List.mem_singleton, forall_eq]
    omega
  | case3 a b bytes ih =>
    have ha := a.toNat_lt
    have hb := b.toNat_lt
    simp only [internetWords, List.forall_mem_cons]
    exact ⟨by omega, ih⟩

theorem internetWords_sum (bytes : Bytes) :
    (internetWords bytes).sum ≡ 256 * (words bytes).sum [MOD 0xffff] := by
  induction bytes using internetWords.induct with
  | case1 => rfl
  | case2 a => simp [internetWords, words, Nat.mul_comm, Nat.ModEq]
  | case3 a b bytes ih =>
    simp only [internetWords, words, List.sum_cons, Nat.ModEq] at *
    omega

theorem internetWords_sum_eq_zero (bytes : Bytes) :
    (internetWords bytes).sum = 0 ↔ (words bytes).sum = 0 := by
  induction bytes using internetWords.induct with
  | case1 => rfl
  | case2 a => simp [internetWords, words]
  | case3 a b bytes ih =>
    simp only [internetWords, words, List.sum_cons]
    omega

/-- **Either order of the bytes.** -/
theorem internetChecksum_eq (bytes : Bytes) :
    internetChecksum bytes = 0xffff - reduce 0xffff (256 * (words bytes).sum) := by
  have h : reduce 0xffff (internetWords bytes).sum = reduce 0xffff (256 * (words bytes).sum) := by
    refine (reduce_eq_iff (by decide)).mpr ⟨internetWords_sum bytes, ?_⟩
    rw [internetWords_sum_eq_zero, Nat.mul_eq_zero]
    omega
  rw [internetChecksum, sum_eq_reduce (by decide) (internetWords_le bytes), h]

/-! ## 3. Folding and swapping -/

/-- **Two foldings are enough for 32 bits.** -/
theorem fold_eq {s : ℕ} (hs : s < 2 ^ 32) :
    (s / 65536 + s % 65536 + (s / 65536 + s % 65536) / 65536) % 65536 = reduce 0xffff s := by
  have hs' : s = 65536 * (s / 65536) + s % 65536 := (Nat.div_add_mod s 65536).symm
  have hhigh : s / 65536 < 65536 := by omega
  have hlow : s % 65536 < 65536 := Nat.mod_lt s (by decide)
  generalize s / 65536 = high at *
  generalize s % 65536 = low at *
  subst hs'
  symm
  -- the second folding adds the one carry that the first can leave
  rcases Nat.lt_or_ge (high + low) 65536 with h | h
  · have hfold : (high + low + (high + low) / 65536) % 65536 = high + low := by omega
    rw [hfold]
    refine reduce_eq (by decide) (by omega) ?_ (by omega)
    unfold Nat.ModEq
    omega
  · have hfold : (high + low + (high + low) / 65536) % 65536 = high + low - 65535 := by omega
    rw [hfold]
    refine reduce_eq (by decide) (by omega) ?_ (by omega)
    unfold Nat.ModEq
    omega

/-- The bytes of a word, the other way around. -/
theorem swap_eq {x : ℕ} (hx : x < 65536) :
    x >>> 8 ||| (x <<< 8 &&& 0xff00) = x / 256 + x % 256 * 256 := by
  have hhigh : x >>> 8 = x / 256 := Nat.shiftRight_eq_div_pow x 8
  have hlow : x <<< 8 &&& 0xff00 = (x % 256) <<< 8 := by
    have h : x % 256 = x &&& 0xff := (Nat.and_two_pow_sub_one_eq_mod x 8).symm
    rw [h, Nat.shiftLeft_and_distrib]
    rfl
  have hor : (x % 256) <<< 8 + x / 256 = (x % 256) <<< 8 ||| x / 256 :=
    Nat.shiftLeft_add_eq_or_of_lt (by omega) _
  rw [hhigh, hlow, Nat.or_comm, ← hor, Nat.shiftLeft_eq]
  omega

/-- A swap is a multiplication by 256. -/
theorem swap_eq_reduce {x : ℕ} (hx : x < 65536) :
    x / 256 + x % 256 * 256 = reduce 0xffff (256 * x) := by
  symm
  refine reduce_eq (by decide) (by omega) ?_ (by omega)
  unfold Nat.ModEq
  omega

/-- `~sum & 0xffff` -/
theorem complement_eq (sum : ℕ) : (~~~(sum : ℤ) % 0x10000).toNat = 65535 - sum % 65536 := by
  have h : ~~~(sum : ℤ) = Int.negSucc sum := rfl
  rw [h, Int.negSucc_eq]
  omega

theorem answer_eq {s : ℕ} (hs : s < 2 ^ 32) :
    answer s = 0xffff - reduce 0xffff (256 * s) := by
  have hfold := fold_eq hs
  have hle : reduce 0xffff s ≤ 0xffff := reduce_le (by decide) s
  have hswap := swap_eq_reduce (x := reduce 0xffff s) (by omega)
  rw [reduce_mul_reduce (by decide)] at hswap
  have hand : s &&& 0xffff = s % 65536 := Nat.and_two_pow_sub_one_eq_mod s 16
  unfold answer
  simp only [complement_eq, hand, Nat.shiftRight_eq_div_pow, hfold]
  have := swap_eq (x := 65535 - reduce 0xffff s) (by omega)
  rw [Nat.shiftRight_eq_div_pow] at this
  omega

/-! ## 4. The loop -/

theorem drop_eq_cons {buffer : Bytes} {count : ℕ} {a b : UInt8} (ha : buffer[count]? = some a)
    (hb : buffer[count + 1]? = some b) :
    buffer.drop count = a :: b :: buffer.drop (count + 2) := by
  obtain ⟨h, rfl⟩ := List.getElem?_eq_some_iff.mp ha
  obtain ⟨h', rfl⟩ := List.getElem?_eq_some_iff.mp hb
  rw [List.drop_eq_getElem_cons h, List.drop_eq_getElem_cons h']

theorem thisVal_eq_some {buffer : Bytes} {count val : ℕ} (h : thisVal buffer count = some val) :
    ∃ a b : UInt8, buffer.drop count = a :: b :: buffer.drop (count + 2) ∧
      val = b.toNat * 256 + a.toNat := by
  unfold thisVal at h
  split at h
  next high low hhigh hlow =>
    simp only [Option.some.injEq] at h
    exact ⟨low, high, drop_eq_cons hlow hhigh, h.symm⟩
  next => cases h

theorem thisVal_eq_none {buffer : Bytes} {count : ℕ} (h : thisVal buffer count = none)
    (hcount : count < buffer.length) : buffer.length = count + 1 := by
  unfold thisVal at h
  split at h
  next => cases h
  next hno =>
    by_contra hne
    have h' : count + 1 < buffer.length := by omega
    exact hno _ _ (List.getElem?_eq_getElem h') (List.getElem?_eq_getElem hcount)

theorem and_mask (n : ℕ) : n &&& 0xffffffff = n % 2 ^ 32 := Nat.and_two_pow_sub_one_eq_mod n 32

/-- **An odd byte is never left over: the loop reads past it.** -/
theorem loop_eq (buffer : Bytes) (count sum : ℕ) (hcount : count ≤ buffer.length)
    (hsum : sum < 2 ^ 32) :
    loop buffer count sum =
      if (buffer.length - count) % 2 = 0 then
        some ((sum + (words (buffer.drop count)).sum) % 2 ^ 32)
      else none := by
  induction count, sum using loop.induct buffer with
  | case1 count sum hlt hnone =>
    have hlen : count < buffer.length := by rwa [countTo_eq, Nat.cast_lt] at hlt
    have hone := thisVal_eq_none hnone hlen
    rw [loop, if_pos hlt, hnone, if_neg (by omega)]
  | case2 count sum hlt val hval ih =>
    obtain ⟨a, b, hdrop, rfl⟩ := thisVal_eq_some hval
    have hlen : count + 2 ≤ buffer.length := by
      have := congrArg List.length hdrop
      simp only [List.length_drop, List.length_cons] at this
      omega
    have hpar : (buffer.length - (count + 2)) % 2 = (buffer.length - count) % 2 := by omega
    have hrec := ih hlen (by rw [and_mask]; exact Nat.mod_lt _ (by decide))
    rw [loop, if_pos hlt, hval]
    change loop buffer (count + 2) _ = _
    rw [hrec, hpar, and_mask, Nat.mod_add_mod, hdrop, words, List.sum_cons, Nat.add_assoc]
  | case3 count sum hge =>
    have hlen : buffer.length ≤ count := by rwa [countTo_eq, Nat.cast_lt, Nat.not_lt] at hge
    have hdrop : buffer.drop count = [] := List.drop_eq_nil_of_le hlen
    have hmod : sum % 2 ^ 32 = sum := Nat.mod_eq_of_lt hsum
    rw [loop, if_neg hge, if_pos (by omega), hdrop, words, List.sum_nil, Nat.add_zero, hmod]

theorem checksum_of_odd {buffer : Bytes} (h : buffer.length % 2 = 1) : checksum buffer = none := by
  rw [checksum, loop_eq buffer 0 0 (Nat.zero_le _) (by decide), if_neg (by omega), Option.map_none]

theorem checksum_of_even {buffer : Bytes} (h : buffer.length % 2 = 0) :
    checksum buffer = some (0xffff - reduce 0xffff (256 * ((words buffer).sum % 2 ^ 32))) := by
  have hno : ¬ countTo buffer < buffer.length := by simp [countTo_eq]
  rw [checksum, loop_eq buffer 0 0 (Nat.zero_le _) (by decide), Nat.sub_zero, if_pos h,
    Option.map_some, if_neg hno, List.drop_zero, Nat.zero_add,
    answer_eq (Nat.mod_lt _ (by decide))]

/-! ## 5. Echo packets -/

/-- `sys.byteorder` -/
inductive ByteOrder
  | little
  | big
deriving DecidableEq

/-- `struct.pack` of an `H`. -/
def pack (order : ByteOrder) (x : ℕ) : Bytes :=
  match order with
  | .little => [UInt8.ofNat x, UInt8.ofNat (x / 256)]
  | .big => [UInt8.ofNat (x / 256), UInt8.ofNat x]

/-- `socket.htons` -/
def htons (order : ByteOrder) (x : ℕ) : ℕ :=
  match order with
  | .little => x / 256 + x % 256 * 256
  | .big => x

/-- What `send` makes a packet of; `time` is the packed `time.perf_counter()`. -/
structure Echo where
  type : UInt8
  id : ℕ
  time : Bytes
  length_time : time.length = 8

/-- `struct.pack("BbHHh", icmp_type, 0, checksum, id_, 1)` -/
def header (order : ByteOrder) (e : Echo) (checksum : ℕ) : Bytes :=
  e.type :: 0 :: (pack order checksum ++ pack order e.id ++ pack order 1)

/-- The bytes behind the header. -/
def data (e : Echo) : Bytes := e.time ++ List.replicate (192 - 8) 81

/-- The packet that `send` sends. -/
def packet (order : ByteOrder) (e : Echo) : Option Bytes :=
  (checksum (header order e 0 ++ data e)).map fun pingChecksum =>
    header order e (htons order pingChecksum) ++ data e


/-! ## 6. When the checksum is right -/

/-- There is no odd byte, and no carry that counts is lost at 32 bits. -/
def Fits (buffer : Bytes) : Prop :=
  buffer.length % 2 = 0 ∧ (words buffer).sum / 2 ^ 32 % 0xffff = 0 ∧
    ((words buffer).sum = 0 ∨ (words buffer).sum % 2 ^ 32 ≠ 0)

instance (buffer : Bytes) : Decidable (Fits buffer) :=
  inferInstanceAs (Decidable (_ ∧ _ ∧ (_ ∨ _)))

/-- The carries that are lost are worth their number. -/
theorem reduce_mod_eq_iff (total : ℕ) :
    reduce 0xffff (256 * (total % 2 ^ 32)) = reduce 0xffff (256 * total) ↔
      total / 2 ^ 32 % 0xffff = 0 ∧ (total = 0 ∨ total % 2 ^ 32 ≠ 0) := by
  rw [reduce_eq_iff (by decide)]
  unfold Nat.ModEq
  omega

theorem checksum_eq_internetChecksum_iff (buffer : Bytes) :
    checksum buffer = some (internetChecksum buffer) ↔ Fits buffer := by
  rcases Nat.mod_two_eq_zero_or_one buffer.length with heven | hodd
  · rw [checksum_of_even heven, Option.some.injEq, internetChecksum_eq, Fits,
      and_iff_right heven, ← reduce_mod_eq_iff]
    have h := reduce_le (m := 0xffff) (by decide) (256 * ((words buffer).sum % 2 ^ 32))
    have h' := reduce_le (m := 0xffff) (by decide) (256 * (words buffer).sum)
    omega
  · rw [checksum_of_odd hodd]
    simp [Fits, hodd]

theorem words_sum_le (bytes : Bytes) : (words bytes).sum ≤ 0xffff * bytes.length := by
  induction bytes using words.induct with
  | case1 => simp [words]
  | case2 a =>
    have ha := a.toNat_lt
    simp only [words, List.sum_cons, List.sum_nil, List.length_singleton]
    omega
  | case3 a b bytes ih =>
    have ha := a.toNat_lt
    have hb := b.toNat_lt
    simp only [words, List.sum_cons, List.length_cons]
    omega

theorem fits_of_length_le {buffer : Bytes} (heven : buffer.length % 2 = 0)
    (hlen : buffer.length ≤ 65536) : Fits buffer := by
  have hle := words_sum_le buffer
  have hlt : (words buffer).sum < 2 ^ 32 := by omega
  refine ⟨heven, ?_, ?_⟩
  · rw [Nat.div_eq_of_lt hlt]
  · rw [Nat.mod_eq_of_lt hlt]
    exact Nat.eq_zero_or_pos _ |>.imp_right Nat.pos_iff_ne_zero.mp

theorem length_packet (order : ByteOrder) (e : Echo) (x : ℕ) :
    (header order e x ++ data e).length = 200 := by
  have h := e.length_time
  cases order <;>
    simp only [header, data, pack, List.length_cons, List.length_append, List.length_nil,
      List.length_replicate, h]

/-- What stands in the packet but for the checksum. -/
theorem internetWords_packet (order : ByteOrder) (e : Echo) :
    ∃ n, ∀ x, (internetWords (header order e x ++ data e)).sum =
      (internetWords (pack order x)).sum + n := by
  refine ⟨e.type.toNat * 256 + (internetWords (pack order e.id ++ pack order 1 ++ data e)).sum,
    fun x => ?_⟩
  cases order <;>
  · simp only [header, data, pack, List.cons_append, List.nil_append, internetWords, List.sum_cons,
      List.sum_nil, UInt8.toNat_zero]
    omega

/-- The checksum is sent high byte first on every machine. -/
theorem internetWords_htons (order : ByteOrder) {x : ℕ} (hx : x < 65536) :
    (internetWords (pack order (htons order x))).sum = x := by
  cases order with
  | little =>
    have hlow : (x / 256 + x % 256 * 256) % 256 = x / 256 := by omega
    have hhigh : (x / 256 + x % 256 * 256) / 256 = x % 256 := by omega
    simp only [pack, htons, internetWords, List.sum_cons, List.sum_nil, UInt8.toNat_ofNat',
      Nat.reducePow, hlow, hhigh]
    omega
  | big =>
    simp only [pack, htons, internetWords, List.sum_cons, List.sum_nil, UInt8.toNat_ofNat']
    omega

/-- **An echo packet verifies.** -/
theorem packet_verifies (order : ByteOrder) (e : Echo) :
    ∃ p, packet order e = some p ∧ internetChecksum p = 0 ∧ checksum p = some 0 := by
  obtain ⟨n, hn⟩ := internetWords_packet order e
  have hfits : ∀ x, Fits (header order e x ++ data e) := fun x =>
    fits_of_length_le (by rw [length_packet]) (by rw [length_packet]; decide)
  have hzero : (internetWords (pack order 0)).sum = 0 := by cases order <;> rfl
  have hle : ∀ x, ∀ w ∈ internetWords (header order e x ++ data e), w ≤ 0xffff :=
    fun x => internetWords_le _
  have hsum : internetChecksum (header order e 0 ++ data e) = 0xffff - reduce 0xffff n := by
    rw [internetChecksum, sum_eq_reduce (by decide) (hle 0), hn, hzero, Nat.zero_add]
  have hpacket : internetChecksum
      (header order e (htons order (0xffff - reduce 0xffff n)) ++ data e) = 0 := by
    rw [internetChecksum, sum_eq_reduce (by decide) (hle _), hn,
      internetWords_htons order (by omega), Nat.add_comm, reduce_complement (by decide)]
  refine ⟨_, ?_, hpacket, ?_⟩
  · rw [packet, (checksum_eq_internetChecksum_iff _).mpr (hfits 0), hsum, Option.map_some]
  · rw [(checksum_eq_internetChecksum_iff _).mpr (hfits _), hpacket]

/-- **The checksum is the Internet checksum of the buffers that fit, and packets do.** -/
theorem checksum_correct_iff (buffer : Bytes) :
    (checksum buffer = some (internetChecksum buffer) ↔ Fits buffer) ∧
      ∀ order e, ∃ p, packet order e = some p ∧ internetChecksum p = 0 :=
  ⟨checksum_eq_internetChecksum_iff buffer, fun order e =>
    have ⟨p, hp, h, _⟩ := packet_verifies order e
    ⟨p, hp, h⟩⟩

/-- One byte is a byte too many. -/
theorem checksum_one_byte : checksum [1] = none ∧ checksum [1] ≠ some (internetChecksum [1]) := by
  have h : checksum [1] = none := checksum_of_odd (by decide)
  exact ⟨h, by rw [h]; nofun⟩


end Ping
end Engines
end Hedra
