/-
# The round trip of names

What `pack_domain_name` writes (`pack_domain_name.py` of
`distributed/discovery/dns/core/record/record_data_types/utils`) is read back where it is placed,
through pointers into what has been written before.  The table says where the rests of the names
are; what carries the induction over a message is that each entry is spelled out at its offset
(`Table`).

Two things are left over.  The root is one empty label, which is written as a zero, and then another
zero ends the name.  And a pointer has fourteen bits, but every offset goes into the table.

* `Spelled.append`: what is spelled at an offset stays so, whatever is written behind it;
* `exists_packsName`: a name is packed so that it is read back, the root apart;
* `nameRoundTrips_iff`: which names of a message are read back.
-/
import Hedra.Dns.NameWalks
import Hedra.Lib.Utf8

namespace Hedra
namespace Dns

open Lib

/-! ## 1. Strings -/

theorem encode_ofList (l : List Char) : encode (String.ofList l) = Utf8.encode l := by
  have hbytes : (String.ofList l).toByteArray = (Utf8.encode l).toByteArray := String.toByteArray_ofList
  unfold encode
  rw [String.toUTF8, hbytes, List.data_toByteArray]

theorem encode_eq (s : String) : encode s = Utf8.encode s.toList := by
  rw [← encode_ofList, String.ofList_toList]

theorem decode_encode (s : String) : decode (encode s) = .ok s := by
  have hvalid : String.fromUTF8? s.toByteArray = some s := dif_pos s.isValidUTF8
  unfold decode encode
  rw [String.toUTF8, Array.toArray_toList, hvalid]

theorem intercalate_cons_cons {α : Type} (a : List α) (l l' : List α) (ls : List (List α)) :
    a.intercalate (l :: l' :: ls) = l ++ a ++ a.intercalate (l' :: ls) := by
  simp [List.intercalate]

theorem encode_join (ps : List String) :
    encode (join ps) = List.intercalate [46] (ps.map encode) := by
  rw [join, encode_ofList]
  induction ps with
  | nil => rfl
  | cons p ps ih =>
    cases ps with
    | nil => simp [List.intercalate, encode_eq]
    | cons q ps =>
      have hdot : Utf8.encode ['.'] = [46] := by decide
      rw [List.map_cons, List.map_cons, List.map_cons, List.map_cons, intercalate_cons_cons,
        intercalate_cons_cons, Utf8.encode_append, Utf8.encode_append, hdot, ← encode_eq]
      rw [List.map_cons, List.map_cons] at ih
      rw [ih]

/-! ## 2. Names -/

/-- A label as it is between the dots. -/
structure IsLabel (p : String) : Prop where
  pos : 1 ≤ (encode p).length
  le : (encode p).length ≤ 63
  dot : '.' ∉ p.toList

/-- The root, or labels of 1 to 63 bytes. -/
def DomainName (name : String) : Prop :=
  name = "" ∨ ∀ p ∈ split name, 1 ≤ (encode p).length ∧ (encode p).length ≤ 63

/-- The labels of a name; the root has none. -/
def nameLabels (name : String) : List Bytes := if name = "" then [] else (split name).map encode

theorem split_join {ps : List String} (hps : ∀ p ∈ ps, IsLabel p) (hne : ps ≠ []) :
    split (join ps) = ps := by
  have hdots : ∀ l ∈ ps.map String.toList, '.' ∉ l := by
    intro l hl
    obtain ⟨p, hp, rfl⟩ := List.mem_map.mp hl
    exact (hps p hp).dot
  have hnil : ps.map String.toList ≠ [] := fun h => hne (List.map_eq_nil_iff.mp h)
  unfold split join
  rw [String.toList_ofList, List.splitOn_intercalate '.' hdots hnil, List.map_map]
  simp

theorem nameLabels_join {ps : List String} (hps : ∀ p ∈ ps, IsLabel p) (hne : ps ≠ []) :
    nameLabels (join ps) = ps.map encode := by
  have hname : join ps ≠ "" := by
    intro h
    have hsplit := split_join hps hne
    rw [h] at hsplit
    have hempty := hps "" (hsplit ▸ List.mem_singleton_self _)
    exact absurd hempty.pos (by decide)
  rw [nameLabels, if_neg hname, split_join hps hne]

theorem decode_nameLabels (name : String) :
    decode (List.intercalate [46] (nameLabels name)) = .ok name := by
  unfold nameLabels
  split
  · next h => exact h ▸ decode_encode ""
  · rw [← encode_join, join_split, decode_encode]

theorem not_mem_of_mem_splitOn {c : Char} {l p : List Char} (h : p ∈ l.splitOn c) : c ∉ p := by
  induction hn : l.length using Nat.strong_induction_on generalizing l with
  | _ n ih =>
    by_cases hmem : c ∈ l
    · obtain ⟨u, v, rfl, hu⟩ := List.eq_append_cons_of_mem hmem
      rw [List.splitOn_append_cons_self, List.splitOn_eq_singleton hu] at h
      rcases List.mem_append.mp h with h | h
      · obtain rfl := List.mem_singleton.mp h
        exact hu
      · refine ih v.length ?_ h rfl
        rw [← hn, List.length_append, List.length_cons]
        omega
    · rw [List.splitOn_eq_singleton hmem] at h
      obtain rfl := List.mem_singleton.mp h
      exact hmem

theorem DomainName.isLabel {name : String} (h : DomainName name) (hne : name ≠ "") :
    ∀ p ∈ split name, IsLabel p := by
  intro p hp
  obtain ⟨hpos, hle⟩ := h.resolve_left hne p hp
  refine ⟨hpos, hle, ?_⟩
  obtain ⟨l, hl, rfl⟩ := List.mem_map.mp hp
  rw [String.toList_ofList]
  exact not_mem_of_mem_splitOn hl

/-! ## 3. What is spelled -/

/-- A walk over these labels to a zero, and the cursor that is returned behind it. -/
def Spelled (data : Bytes) (x : ℕ) (labels : List Bytes) (stop : ℕ) : Prop :=
  ∃ cursor z, Walk data x cursor labels z ∧ data[z]? = some 0 ∧ cursor.getD (z + 1) = stop

variable {data : Bytes} {x stop : ℕ} {labels : List Bytes}

theorem Spelled.load {name : String} (h : Spelled data x (nameLabels name) stop) :
    loadDomainName data x = .ok (stop, name) := by
  obtain ⟨cursor, z, hwalk, hzero, rfl⟩ := h
  rw [loadDomainName_zero hwalk hzero, decode_nameLabels]
  rfl

theorem Spelled.zero (h : data[x]? = some 0) : Spelled data x [] (x + 1) := ⟨none, x, .refl x, h, rfl⟩

theorem Spelled.label {b : UInt8} (hbyte : data[x]? = some b) (hpos : 0 < b.toNat)
    (hless : b.toNat < 0xc0) (h : Spelled data (x + 1 + b.toNat) labels stop) :
    Spelled data x (slice data (x + 1) (x + 1 + b.toNat) :: labels) stop := by
  obtain ⟨cursor, z, hwalk, hzero, hstop⟩ := h
  exact ⟨cursor, z, .label hbyte hpos hless hwalk, hzero, hstop⟩

theorem Spelled.pointer {high low : UInt8} (hhigh : data[x]? = some high) (hge : 0xc0 ≤ high.toNat)
    (hlow : data[x + 1]? = some low)
    (h : Spelled data ((high.toNat - 0xc0) * 256 + low.toNat) labels stop) :
    Spelled data x labels (x + 2) := by
  obtain ⟨cursor, z, hwalk, hzero, -⟩ := h
  exact ⟨some (x + 2), z, .pointer hhigh hge hlow hwalk, hzero, rfl⟩

theorem getElem?_append_of_some {b : UInt8} (h : data[x]? = some b) (rest : Bytes) :
    (data ++ rest)[x]? = some b := by
  rw [List.getElem?_append_left (List.getElem?_eq_some_iff.mp h).1, h]

theorem slice_append {i j : ℕ} (h : j ≤ data.length) (rest : Bytes) :
    slice (data ++ rest) i j = slice data i j := by
  rw [slice, slice, List.take_append_of_le_length h]

/-- **What is spelled stays so**, whatever is written behind it. -/
theorem Spelled.append (h : Spelled data x labels stop) (rest : Bytes) :
    Spelled (data ++ rest) x labels stop := by
  obtain ⟨cursor, z, hwalk, hzero, hstop⟩ := h
  refine ⟨cursor, z, ?_, getElem?_append_of_some hzero rest, hstop⟩
  have hend := (List.getElem?_eq_some_iff.mp hzero).1
  clear hzero hstop
  induction hwalk with
  | refl x => exact .refl x
  | label hbyte hpos hless hrest ih =>
    rw [← slice_append (hrest.lt_length hend).le rest]
    exact .label (getElem?_append_of_some hbyte rest) hpos hless (ih hend)
  | pointer hhigh hge hlow _ ih =>
    exact .pointer (getElem?_append_of_some hhigh rest) hge (getElem?_append_of_some hlow rest) (ih hend)

/-! ## 4. Packing -/

/-- Each entry is in the message and spelled out there. -/
def Table (data : Bytes) (names : Names) : Prop :=
  ∀ s u, names.get? s = some u → u < data.length ∧ ∃ stop, Spelled data u (nameLabels s) stop

/-- Where the labels go that are not in the table yet. -/
def writtenAt (names : Names) (x : ℕ) : List String → List ℕ
  | [] => []
  | p :: ps =>
    if (names.get? (join (p :: ps))).getD 0 = 0 then x :: writtenAt names (x + 1 + (encode p).length) ps
    else []

theorem packString_label {p : String} (hle : (encode p).length ≤ 63) :
    packString (encode p) 1 = .ok (UInt8.ofNat (encode p).length :: encode p) := by
  have hfits : (0 : ℤ) ≤ (encode p).length ∧ ((encode p).length : ℤ) < 256 ^ 1 := by omega
  have hpack : packInt 1 (encode p).length = .ok [UInt8.ofNat (encode p).length] := by
    rw [packInt, if_pos hfits]
    rfl
  rw [packString, hpack]
  rfl

/-- A pointer to `u`. -/
def pointerBytes (u : ℕ) : Bytes := [UInt8.ofNat (0xc0 + u / 256), UInt8.ofNat u]

theorem packInt_pointer {u : ℕ} (h : u < 0x4000) : packInt 2 (0xc000 + u) = .ok (pointerBytes u) := by
  have hfits : (0 : ℤ) ≤ 0xc000 + (u : ℤ) ∧ 0xc000 + (u : ℤ) < 256 ^ 2 := by omega
  have hnat : (0xc000 + (u : ℤ)).toNat = 0xc000 + u := by omega
  rw [packInt, if_pos hfits, hnat]
  have hhigh : (0xc000 + u) / 256 = 0xc0 + u / 256 := by omega
  have hlow : UInt8.ofNat (0xc000 + u) = UInt8.ofNat u := by
    apply UInt8.toNat_inj.mp
    rw [UInt8.toNat_ofNat', UInt8.toNat_ofNat']
    omega
  change Except.ok [UInt8.ofNat ((0xc000 + u) / 256), UInt8.ofNat (0xc000 + u)] = _
  rw [hhigh, hlow, pointerBytes]

theorem Spelled.pointerBytes {u : ℕ} (hu : u < 0x4000) (h : Spelled data u labels stop) (rest : Bytes) :
    Spelled (data ++ (pointerBytes u ++ rest)) data.length labels (data.length + 2) := by
  have hhigh : (UInt8.ofNat (0xc0 + u / 256)).toNat = 0xc0 + u / 256 := by
    rw [UInt8.toNat_ofNat']
    omega
  have hlow : (UInt8.ofNat u).toNat = u % 256 := UInt8.toNat_ofNat'
  have htarget : (0xc0 + u / 256 - 0xc0) * 256 + u % 256 = u := by omega
  have hfirst : (data ++ (Dns.pointerBytes u ++ rest))[data.length]? =
      some (UInt8.ofNat (0xc0 + u / 256)) := by simp [Dns.pointerBytes]
  have hsecond : (data ++ (Dns.pointerBytes u ++ rest))[data.length + 1]? = some (UInt8.ofNat u) := by
    simp [Dns.pointerBytes]
  have hwalk : Spelled (data ++ (Dns.pointerBytes u ++ rest))
      (((UInt8.ofNat (0xc0 + u / 256)).toNat - 0xc0) * 256 + (UInt8.ofNat u).toNat) labels stop := by
    rw [hhigh, hlow, htarget]
    exact h.append _
  exact Spelled.pointer hfirst (by omega) hsecond hwalk

/-- What packing the labels `ps` behind `data` and `written` does. -/
structure Packs (data written : Bytes) (known names : Names) (ps : List String) (tail : Bytes)
    (names' : Names) : Prop where
  pack : packParts data.length ps written names = .ok (written ++ tail, names')
  spelled : ∀ rest, Spelled (data ++ written ++ tail ++ rest) (data.length + written.length)
    (ps.map encode) (data.length + written.length + tail.length)
  /-- The entries that are new are spelled out too. -/
  entries : ∀ s u, names'.get? s = some u → names.get? s = some u ∨
    ∃ qs, qs ≠ [] ∧ qs <:+ ps ∧ s = join qs ∧ u ∈ writtenAt known (data.length + written.length) ps ∧
      u < (data ++ written ++ tail).length ∧ ∃ stop, Spelled (data ++ written ++ tail) u (qs.map encode) stop
  recorded : ∀ u ∈ writtenAt known (data.length + written.length) ps, ∃ s, names'.get? s = some u
  others : ∀ s, (∀ qs, qs ≠ [] → qs <:+ ps → s ≠ join qs) → names'.get? s = names.get? s

theorem join_ne_of_suffix {p : String} {ps qs : List String} (hps : ∀ q ∈ p :: ps, IsLabel q)
    (hne : qs ≠ []) (hqs : qs <:+ ps) : join (p :: ps) ≠ join qs := by
  intro h
  have hsplit := congrArg split h
  rw [split_join hps (List.cons_ne_nil _ _),
    split_join (fun q hq => hps q (List.mem_cons_of_mem _ (hqs.subset hq))) hne] at hsplit
  have hlength := hqs.length_le
  rw [← hsplit, List.length_cons] at hlength
  omega

section Steps

variable {names : Names} {p : String} {ps : List String}

theorem packParts_known {u : ℕ} (h : names.get? (join (p :: ps)) = some u) (hpos : u ≠ 0)
    (hu : u < 0x4000) (offset : ℕ) (written : Bytes) :
    packParts offset (p :: ps) written names = .ok (written ++ pointerBytes u, names) := by
  obtain ⟨v, rfl⟩ := Nat.exists_eq_succ_of_ne_zero hpos
  rw [packParts]
  simp only [h]
  have hpack := packInt_pointer hu
  rw [Nat.succ_eq_add_one] at hpack ⊢
  push_cast at hpack
  rw [hpack]
  rfl

theorem packParts_label (h : (names.get? (join (p :: ps))).getD 0 = 0) (hle : (encode p).length ≤ 63)
    (offset : ℕ) (written : Bytes) :
    packParts offset (p :: ps) written names =
      packParts offset ps (written ++ UInt8.ofNat (encode p).length :: encode p)
        (names.set (join (p :: ps)) (written.length + offset)) := by
  rw [packParts]
  dsimp only
  split
  · next u hu =>
    rw [hu] at h
    cases h
  · rw [packString_label hle]
    rfl

end Steps

theorem exists_of_getD_ne {α : Type} {o : Option α} {d : α} (h : o.getD d ≠ d) :
    ∃ u, o = some u ∧ u ≠ d := by
  cases o with
  | none => exact absurd rfl h
  | some u => exact ⟨u, rfl, h⟩

/-- A label in front of what is spelled. -/
theorem Spelled.cons {before : Bytes} {p : String} (hp : IsLabel p) {behind : Bytes}
    (h : Spelled (before ++ UInt8.ofNat (encode p).length :: encode p ++ behind)
      (before.length + (1 + (encode p).length)) labels stop) :
    Spelled (before ++ UInt8.ofNat (encode p).length :: encode p ++ behind) before.length
      (encode p :: labels) stop := by
  have hlength : (UInt8.ofNat (encode p).length).toNat = (encode p).length := by
    have := hp.le
    rw [UInt8.toNat_ofNat']
    omega
  have hbyte : (before ++ UInt8.ofNat (encode p).length :: encode p ++ behind)[before.length]? =
      some (UInt8.ofNat (encode p).length) := by
    rw [List.append_assoc, List.getElem?_append_right le_rfl, Nat.sub_self]
    rfl
  have hslice : slice (before ++ UInt8.ofNat (encode p).length :: encode p ++ behind)
      (before.length + 1) (before.length + 1 + (encode p).length) = encode p := by
    have hsplit : before ++ UInt8.ofNat (encode p).length :: encode p ++ behind =
        (before ++ [UInt8.ofNat (encode p).length]) ++ (encode p ++ behind) := by simp
    rw [slice, List.drop_take, hsplit, List.drop_left' (by simp), Nat.add_sub_cancel_left,
      List.take_left]
  have hpos := hp.pos
  have hle := hp.le
  have hlabel := Spelled.label hbyte (by omega) (by omega)
    (by rw [hlength, Nat.add_assoc]; exact h)
  rwa [hlength, hslice] at hlabel

/-- What is written for a label that is not in the table yet, and behind it. -/
theorem Packs.spelled_cons {data written tail : Bytes} {known names names' : Names} {p : String}
    {ps : List String} (hp : IsLabel p)
    (h : Packs data (written ++ UInt8.ofNat (encode p).length :: encode p) known names ps tail
      names') (rest : Bytes) :
    Spelled (data ++ written ++ (UInt8.ofNat (encode p).length :: encode p ++ tail) ++ rest)
      (data.length + written.length) ((p :: ps).map encode) (data.length + written.length +
        (UInt8.ofNat (encode p).length :: encode p ++ tail).length) := by
  have hrest := h.spelled rest
  have hbytes : data ++ (written ++ UInt8.ofNat (encode p).length :: encode p) ++ tail ++ rest =
      (data ++ written) ++ UInt8.ofNat (encode p).length :: encode p ++ (tail ++ rest) := by simp
  have hsplit : data ++ written ++ (UInt8.ofNat (encode p).length :: encode p ++ tail) ++ rest =
      (data ++ written) ++ UInt8.ofNat (encode p).length :: encode p ++ (tail ++ rest) := by simp
  have hfrom : data.length + (written ++ UInt8.ofNat (encode p).length :: encode p).length =
      (data ++ written).length + (1 + (encode p).length) := by
    rw [List.length_append, List.length_append, List.length_cons]
    omega
  have hstop : data.length + written.length +
      (UInt8.ofNat (encode p).length :: encode p ++ tail).length =
      (data ++ written).length + (1 + (encode p).length) + tail.length := by
    rw [List.length_append, List.length_append, List.length_cons]
    omega
  rw [hbytes, hfrom] at hrest
  rw [hsplit, hstop, ← List.length_append]
  exact hrest.cons hp

theorem writtenAt_cons {known : Names} {p : String} {ps : List String}
    (hzero : (known.get? (join (p :: ps))).getD 0 = 0) (data written : Bytes) :
    writtenAt known (data.length + written.length) (p :: ps) =
      (data.length + written.length) :: writtenAt known
        (data.length + (written ++ UInt8.ofNat (encode p).length :: encode p).length) ps := by
  rw [writtenAt, if_pos hzero, List.length_append, List.length_cons]
  congr 2
  omega

/-- A label that is not in the table yet. -/
theorem Packs.cons {data written tail : Bytes} {known names names' : Names} {p : String}
    {ps : List String} (hps : ∀ q ∈ p :: ps, IsLabel q)
    (hself : names.get? (join (p :: ps)) = known.get? (join (p :: ps)))
    (hzero : (known.get? (join (p :: ps))).getD 0 = 0)
    (h : Packs data (written ++ UInt8.ofNat (encode p).length :: encode p) known
      (names.set (join (p :: ps)) (written.length + data.length)) ps tail names') :
    Packs data written known names (p :: ps) (UInt8.ofNat (encode p).length :: encode p ++ tail)
      names' := by
  have hp := hps p List.mem_cons_self
  have hat := writtenAt_cons hzero data written
  refine
    { pack := ?_
      spelled := h.spelled_cons hp
      entries := fun s u hu => ?_
      recorded := fun u hu => ?_
      others := fun s hs => ?_ }
  · rw [packParts_label (by rw [hself, hzero]) hp.le, h.pack, List.append_assoc]
  · have hend : data ++ (written ++ UInt8.ofNat (encode p).length :: encode p) ++ tail =
        data ++ written ++ (UInt8.ofNat (encode p).length :: encode p ++ tail) := by simp
    rcases h.entries s u hu with hold | ⟨qs, hne, hqs, hs, hu, hlt, hstop⟩
    · rw [Dict.get?_set] at hold
      split at hold
      · next heq =>
        obtain rfl := Option.some.inj hold
        have hhere := h.spelled_cons hp []
        rw [List.append_nil] at hhere
        refine .inr ⟨p :: ps, List.cons_ne_nil _ _, List.suffix_rfl, heq, ?_, ?_, ?_⟩
        · rw [hat, Nat.add_comm]
          exact List.mem_cons_self
        · simp only [List.length_append, List.length_cons]
          omega
        · rw [Nat.add_comm]
          exact ⟨_, hhere⟩
      · exact .inl hold
    · refine .inr ⟨qs, hne, hqs.trans (List.suffix_cons _ _), hs, ?_, hend ▸ hlt, hend ▸ hstop⟩
      rw [hat]
      exact List.mem_cons_of_mem _ hu
  · rw [hat] at hu
    rcases List.mem_cons.mp hu with rfl | hu
    · refine ⟨join (p :: ps), ?_⟩
      rw [h.others _ fun qs hne hqs => join_ne_of_suffix hps hne hqs, Dict.get?_set_self, Nat.add_comm]
    · exact h.recorded u hu
  · rw [h.others s fun qs hne hqs => hs qs hne (hqs.trans (List.suffix_cons _ _))]
    exact Dict.get?_set_ne _ _ (hs _ (List.cons_ne_nil _ _) List.suffix_rfl)

/-- **Labels are packed so that they are read back**, at an offset that pointers reach. -/
theorem exists_packs {data : Bytes} {known : Names} (htable : Table data known)
    (hdata : data.length < 0x4000) {ps : List String} (hps : ∀ p ∈ ps, IsLabel p) (written : Bytes)
    (names : Names) (hnames : ∀ qs, qs ≠ [] → qs <:+ ps → names.get? (join qs) = known.get? (join qs)) :
    ∃ tail names', Packs data written known names ps tail names' := by
  induction ps generalizing written names with
  | nil =>
    refine ⟨[0], names, rfl, fun rest => ?_, fun _ _ => .inl, fun _ hu => (nomatch hu), fun _ _ => rfl⟩
    have hzero : (data ++ written ++ [0] ++ rest)[data.length + written.length]? = some 0 := by
      simp
    exact .zero hzero
  | cons p ps ih =>
    have hself := hnames (p :: ps) (List.cons_ne_nil _ _) List.suffix_rfl
    by_cases hzero : (known.get? (join (p :: ps))).getD 0 = 0
    · have hp := hps p List.mem_cons_self
      have hrest : ∀ q ∈ ps, IsLabel q := fun q hq => hps q (List.mem_cons_of_mem _ hq)
      obtain ⟨tail, names', h⟩ := ih hrest (written ++ UInt8.ofNat (encode p).length :: encode p)
        (names.set (join (p :: ps)) (written.length + data.length)) fun qs hne hqs => by
          rw [Dict.get?_set_ne _ _ (join_ne_of_suffix hps hne hqs).symm]
          exact hnames qs hne (hqs.trans (List.suffix_cons _ _))
      exact ⟨_, names', h.cons hps hself hzero⟩
    · obtain ⟨u, hu, hne⟩ := exists_of_getD_ne hzero
      obtain ⟨hlt, stop, hspelled⟩ := htable _ u hu
      rw [nameLabels_join hps (List.cons_ne_nil _ _)] at hspelled
      have hreach : u < 0x4000 := by omega
      have hat : writtenAt known (data.length + written.length) (p :: ps) = [] := by
        rw [writtenAt, if_neg hzero]
      refine ⟨pointerBytes u, names, packParts_known (hself.trans hu) hne hreach _ _, fun rest => ?_,
        fun _ _ => .inl, fun v hv => ?_, fun _ _ => rfl⟩
      · have hpointer := (hspelled.append written).pointerBytes hreach rest
        rw [← List.append_assoc, List.length_append] at hpointer
        exact hpointer
      · rw [hat] at hv
        cases hv

/-! ## 5. Messages -/

/-- A message while it is written: what stands there, and the table. -/
inductive Built : Bytes → Names → Prop
  | start (data : Bytes) : Built data Dict.empty
  | raw {data : Bytes} {names : Names} (hbuilt : Built data names) (more : Bytes) :
      Built (data ++ more) names
  | name {data out : Bytes} {names names' : Names} {name : String} (hbuilt : Built data names)
      (hname : DomainName name) (hpack : packDomainName name names data.length = .ok (out, names')) :
      Built (data ++ out) names'

/-- The root is in the table, where a name is the root. -/
def RootKnown (names : Names) (name : String) : Prop := name = "" → (names.get? "").getD 0 ≠ 0

/-- What packing a name does. -/
structure PacksName (data : Bytes) (names : Names) (name : String) (out : Bytes) (names' : Names) :
    Prop where
  pack : packDomainName name names data.length = .ok (out, names')
  spelled : ∃ stop, (∀ rest, Spelled (data ++ out ++ rest) data.length (nameLabels name) stop) ∧
    (stop = data.length + out.length ↔ RootKnown names name)
  table : Table (data ++ out) names'
  entries : ∀ s u, names'.get? s = some u → names.get? s = some u ∨
    u ∈ writtenAt names data.length (split name)
  recorded : ∀ u ∈ writtenAt names data.length (split name), ∃ s, names'.get? s = some u

variable {names : Names} {name : String}

theorem Table.append (h : Table data names) (rest : Bytes) : Table (data ++ rest) names := by
  intro s u hu
  obtain ⟨hlt, stop, hspelled⟩ := h s u hu
  refine ⟨?_, stop, hspelled.append rest⟩
  rw [List.length_append]
  omega

theorem split_empty : split "" = [""] := by decide

theorem join_root : join [""] = "" := by decide

theorem packDomainName_root (hzero : (names.get? "").getD 0 = 0) (offset : ℕ) :
    packDomainName "" names offset = .ok ([0, 0], names.set "" offset) := by
  rw [packDomainName, split_empty, packParts_label (by rw [join_root, hzero]) (by decide), join_root,
    packParts, List.length_nil, Nat.zero_add]
  rfl

theorem nameLabels_root : nameLabels "" = [] := if_pos rfl

/-- The root, when it is not in the table. -/
theorem packsName_root_new (htable : Table data names) (hzero : (names.get? "").getD 0 = 0) :
    PacksName data names "" [0, 0] (names.set "" data.length) := by
  have hat : writtenAt names data.length (split "") = [data.length] := by
    rw [split_empty, writtenAt, join_root, if_pos hzero]
    rfl
  have hspelled : ∀ rest, Spelled (data ++ [0, 0] ++ rest) data.length [] (data.length + 1) :=
    fun rest => .zero (by simp)
  refine ⟨packDomainName_root hzero _, ⟨data.length + 1, fun rest => nameLabels_root ▸ hspelled rest,
    iff_of_false ?_ fun h => h rfl hzero⟩, fun s u hu => ?_, fun s u hu => ?_, fun u hu => ?_⟩
  · rw [List.length_cons, List.length_singleton]
    omega
  · rw [Dict.get?_set] at hu
    split at hu
    · next hs =>
      obtain rfl := Option.some.inj hu
      have hhere := hspelled []
      rw [List.append_nil] at hhere
      refine ⟨?_, data.length + 1, ?_⟩
      · simp
      · rw [hs, nameLabels_root]
        exact hhere
    · exact htable.append [0, 0] s u hu
  · rw [Dict.get?_set] at hu
    split at hu
    · right
      rw [hat]
      exact List.mem_singleton.mpr (Option.some.inj hu).symm
    · exact .inl hu
  · rw [hat] at hu
    obtain rfl := List.mem_singleton.mp hu
    exact ⟨"", Dict.get?_set_self _ _ _⟩

/-- The root, when it is in the table. -/
theorem packsName_root_known (htable : Table data names) (hdata : data.length < 0x4000)
    (hknown : (names.get? "").getD 0 ≠ 0) :
    ∃ u, PacksName data names "" (pointerBytes u) names := by
  obtain ⟨u, hu, hne⟩ := exists_of_getD_ne hknown
  obtain ⟨hlt, stop, hspelled⟩ := htable "" u hu
  have hreach : u < 0x4000 := by omega
  have hat : writtenAt names data.length (split "") = [] := by
    rw [split_empty, writtenAt, join_root, if_neg hknown]
  have hpack : packDomainName "" names data.length = .ok (pointerBytes u, names) := by
    rw [packDomainName, split_empty]
    exact packParts_known (by rw [join_root, hu]) hne hreach _ _
  refine ⟨u, hpack, ⟨data.length + 2, fun rest => ?_, iff_of_true rfl fun _ => hknown⟩,
    htable.append _, fun _ _ => .inl, fun v hv => ?_⟩
  · rw [List.append_assoc]
    exact hspelled.pointerBytes hreach rest
  · rw [hat] at hv
    cases hv

theorem packsName_root (htable : Table data names) (hdata : data.length < 0x4000) :
    ∃ out names', PacksName data names "" out names' := by
  by_cases hzero : (names.get? "").getD 0 = 0
  · exact ⟨_, _, packsName_root_new htable hzero⟩
  · obtain ⟨u, h⟩ := packsName_root_known htable hdata hzero
    exact ⟨_, _, h⟩

/-- **Names are packed so that they are read back**, the root apart. -/
theorem exists_packsName (htable : Table data names) (hdata : data.length < 0x4000)
    (hname : DomainName name) : ∃ out names', PacksName data names name out names' := by
  by_cases hroot : name = ""
  · obtain rfl := hroot
    exact packsName_root htable hdata
  have hps := hname.isLabel hroot
  have hlabels : nameLabels name = (split name).map encode := if_neg hroot
  obtain ⟨out, names', h⟩ := exists_packs htable hdata hps [] names fun _ _ _ => rfl
  have hspelled : ∀ rest, Spelled (data ++ out ++ rest) data.length (nameLabels name)
      (data.length + out.length) := fun rest => by
    have hrest := h.spelled rest
    rw [List.append_nil] at hrest
    exact hlabels ▸ hrest
  refine ⟨out, names', h.pack, ⟨_, hspelled, iff_of_true rfl fun heq => absurd heq hroot⟩,
    fun s u hu => ?_, fun s u hu => ?_, h.recorded⟩
  · rcases h.entries s u hu with hold | ⟨qs, hne, hqs, rfl, -, hlt, stop, hstop⟩
    · exact htable.append out s u hold
    · rw [List.append_nil] at hlt hstop
      refine ⟨hlt, stop, ?_⟩
      rwa [nameLabels_join (fun q hq => hps q (hqs.subset hq)) hne]
  · rcases h.entries s u hu with hold | ⟨qs, -, -, -, hat, -⟩
    · exact .inl hold
    · exact .inr hat

/-- **The table of a message is right**, as far as pointers reach. -/
theorem Built.table (h : Built data names) (hdata : data.length < 0x4000) : Table data names := by
  induction h with
  | start data => exact fun s u hu => nomatch hu
  | raw hbuilt more ih =>
    rw [List.length_append] at hdata
    exact (ih (by omega)).append more
  | name hbuilt hname hpack ih =>
    rw [List.length_append] at hdata
    have hlt : _ < 0x4000 := (Nat.le_add_right _ _).trans_lt hdata
    obtain ⟨out, names', h⟩ := exists_packsName (ih hlt) hlt hname
    obtain ⟨rfl, rfl⟩ := Prod.mk.inj (Except.ok.inj (hpack.symm.trans h.pack))
    exact h.table

/-! ## 6. The round trip -/

/-- Pointers to the entries can be written, and lead to the names. -/
def Usable (data : Bytes) (names : Names) : Prop :=
  ∀ s u, names.get? s = some u →
    u < 0x4000 ∧ ∀ rest, ∃ cursor, loadDomainName (data ++ rest) u = .ok (cursor, s)

/-- **The name is read back** where it is placed, with the cursor behind it, and the table can be used
for later names. -/
def NameRoundTrips (data : Bytes) (names : Names) (name : String) : Prop :=
  ∃ out names', packDomainName name names data.length = .ok (out, names') ∧
    (∀ rest, loadDomainName (data ++ out ++ rest) data.length = .ok (data.length + out.length, name)) ∧
    Usable (data ++ out) names'

/-- **Which names are read back**: all but a root that is not in the table, as long as pointers reach
every label that is written. -/
theorem nameRoundTrips_iff (hbuilt : Built data names) (hdata : data.length < 0x4000)
    (hname : DomainName name) :
    NameRoundTrips data names name ↔ RootKnown names name ∧
      ∀ u ∈ writtenAt names data.length (split name), u < 0x4000 := by
  have htable := hbuilt.table hdata
  obtain ⟨out, names', h⟩ := exists_packsName htable hdata hname
  obtain ⟨stop, hspelled, hstop⟩ := h.spelled
  constructor
  · rintro ⟨out', names'', hpack, hload, husable⟩
    obtain ⟨rfl, rfl⟩ := Prod.mk.inj (Except.ok.inj (hpack.symm.trans h.pack))
    refine ⟨hstop.mp ?_, fun u hu => ?_⟩
    · have hboth := (hspelled []).load.symm.trans (hload [])
      exact (Prod.mk.inj (Except.ok.inj hboth)).1
    · obtain ⟨s, hs⟩ := h.recorded u hu
      exact (husable s u hs).1
  · rintro ⟨hroot, hreach⟩
    obtain rfl := hstop.mpr hroot
    refine ⟨out, names', h.pack, fun rest => (hspelled rest).load, fun s u hu => ⟨?_, fun rest => ?_⟩⟩
    · rcases h.entries s u hu with hold | hnew
      · exact (htable s u hold).1.trans hdata
      · exact hreach u hnew
    · obtain ⟨-, stop, hs⟩ := h.table s u hu
      exact ⟨stop, (hs.append rest).load⟩

set_option maxRecDepth 2000 in
/-- Two names of one domain. -/
theorem nameRoundTrips_second :
    NameRoundTrips (List.replicate 12 0 ++ [1, 97, 3, 99, 111, 109, 0])
      ((Dict.empty.set "a.com" 12).set "com" 14) "b.com" := by
  have hname : DomainName "a.com" := .inr (by decide)
  have hsecond : DomainName "b.com" := .inr (by decide)
  have hfirst : Built (List.replicate 12 0 ++ [1, 97, 3, 99, 111, 109, 0])
      ((Dict.empty.set "a.com" 12).set "com" 14) := .name (.start (List.replicate 12 0)) hname rfl
  have hroot : RootKnown ((Dict.empty.set "a.com" 12).set "com" 14) "b.com" :=
    fun h => absurd h (by decide)
  exact (nameRoundTrips_iff hfirst (by decide) hsecond).mpr ⟨hroot, by decide +kernel⟩

/-- The root takes two bytes, and is read as one. -/
theorem not_nameRoundTrips : ¬ ∀ data names name, Built data names → data.length < 0x4000 →
    DomainName name → NameRoundTrips data names name := by
  intro h
  obtain ⟨out, names', hpack, hload, -⟩ := h (List.replicate 12 0) _ "" (.start _) (by decide) (.inl rfl)
  rw [packDomainName_root rfl] at hpack
  obtain ⟨rfl, -⟩ := Prod.mk.inj (Except.ok.inj hpack)
  have hspelled : Spelled (List.replicate 12 0 ++ [0, 0] ++ []) 12 (nameLabels "") 13 := .zero rfl
  have hboth := hspelled.load.symm.trans (hload [])
  exact absurd (Prod.mk.inj (Except.ok.inj hboth)).1 (by decide)

end Dns
end Hedra
