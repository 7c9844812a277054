/-
# Messages with a size limit

`DNSMessage.pack` (`distributed/models/dns/dns_message.py`) drops what does not fit: the first
record that would go over the limit, and all records behind it.  What is written stays below the
limit, and the flag says whether something has been dropped.  But the counts in the header are those
of all records, and `DNSMessage.parse` reads none.

* `packGroup_spec`: what packing a section does: it keeps to the limit, and says what it drops;
* `pack_spec`: the same of a message;
* `limited_iff`: which messages keep to a limit and are read back.
-/
import Hedra.Dns.Message

namespace Hedra
namespace Dns
namespace DnsMessage

open Lib

/-! ## 1. What is written -/

section Groups

variable (inet : Inet) (now : Int) (sizeLimit : Option Int)

/-- How many records of a section go to the buffer. -/
def writtenIn (p : Packing) : List Record → ℕ
  | [] => 0
  | record :: group =>
    if p.truncation then 0
    else
      match record.pack inet now p.names (12 + p.body.length) with
      | .error _ => 0
      | .ok (packedRecord, names, _) =>
        if exceedsLimit sizeLimit (12 + p.body.length + packedRecord.length) then 0
        else writtenIn ⟨names, p.body ++ packedRecord, false⟩ group + 1

/-- How many there are in each section. -/
structure Counts where
  domains : ℕ
  answers : ℕ
  namservers : ℕ
  additionalRecords : ℕ
deriving DecidableEq

/-- The same for all four sections. -/
def written (m : DnsMessage) : Except Error Counts := do
  let start : Packing := ⟨Dict.empty, [], false⟩
  let (p, _) ← packGroup inet now sizeLimit start m.domains
  let (q, _) ← packGroup inet now sizeLimit p m.answers
  let (r, _) ← packGroup inet now sizeLimit q m.namservers
  return {
    domains := writtenIn inet now sizeLimit start m.domains
    answers := writtenIn inet now sizeLimit p m.answers
    namservers := writtenIn inet now sizeLimit q m.namservers
    additionalRecords := writtenIn inet now sizeLimit r m.additionalRecords }

end Groups

/-- All that there are. -/
def counts (m : DnsMessage) : Counts :=
  ⟨m.domains.length, m.answers.length, m.namservers.length, m.additionalRecords.length⟩

/-- The truncation flag of a header. -/
def flag (rawData : ℕ) : ℕ := rawData / 2 ^ 9 % 2

/-- The first records of each section. -/
structure PrefixOf (c : Counts) (m' m : DnsMessage) : Prop where
  domains : List.Forall₂ SameQuestion m'.domains (m.domains.take c.domains)
  answers : List.Forall₂ SameRecord m'.answers (m.answers.take c.answers)
  namservers : List.Forall₂ SameRecord m'.namservers (m.namservers.take c.namservers)
  additionalRecords :
    List.Forall₂ SameRecord m'.additionalRecords (m.additionalRecords.take c.additionalRecords)

/-- **Packing keeps to the limit**: no more bytes than it allows, the counts of what is written, the flag
if something is not, and what is written is read back. -/
structure Limited (inet : Inet) (now' : Int) (sizeLimit : Option Int) (m : DnsMessage) (c : Counts)
    (data : Bytes) : Prop where
  length : ∀ limit, sizeLimit = some limit → 12 ≤ limit → (data.length : ℤ) ≤ limit
  header : ∃ i rawData, unpackInts [2, 2, 2, 2, 2, 2] (slice data 0 12) =
      .ok [i, rawData, c.domains, c.answers, c.namservers, c.additionalRecords] ∧
    (flag rawData = 1 ↔ c ≠ m.counts)
  parsed : ∃ m', parse inet now' data none = .ok m' ∧ PrefixOf c m' m

/-- What the fields below the flag carry into it. -/
def carry (m : DnsMessage) : Int :=
  (m.desiredRecursion * 2 ^ 8 + m.availableRecursion * 2 ^ 7 + m.resultCode) / 2 ^ 9 % 2

/-! ## 2. Sections -/

section Packs

variable {inet : Inet} {now now' : Int} {sizeLimit : Option Int} {p p' : Packing}
  {group group' : List Record}

theorem writtenIn_of_truncation (hp : p.truncation = true) :
    writtenIn inet now sizeLimit p group = 0 := by
  cases group with
  | nil => rfl
  | cons record group => exact if_pos hp

/-- **What packing a section does**: it keeps to the limit, and what it drops it says. -/
theorem packGroup_spec (h : packGroup inet now sizeLimit p group = .ok (p', group')) :
    writtenIn inet now sizeLimit p group ≤ group.length ∧
      (p'.truncation = true ↔ p.truncation = true ∨
        writtenIn inet now sizeLimit p group < group.length) ∧
      ∀ limit, sizeLimit = some limit → (12 + p.body.length : ℕ) ≤ limit →
        (12 + p'.body.length : ℕ) ≤ limit := by
  induction group generalizing p group' with
  | nil =>
    obtain ⟨rfl, -⟩ := Prod.mk.inj (Except.ok.inj h)
    exact ⟨le_rfl, by simp [writtenIn], fun _ _ hle => hle⟩
  | cons record group ih =>
    by_cases hp : p.truncation = true
    · rw [packGroup, if_pos hp] at h
      obtain ⟨rfl, -⟩ := Prod.mk.inj (Except.ok.inj h)
      rw [writtenIn_of_truncation hp]
      exact ⟨Nat.zero_le _, iff_of_true hp (.inl hp), fun _ _ hle => hle⟩
    · rw [packGroup, if_neg hp] at h
      obtain ⟨⟨packedRecord, names, record'⟩, hpack, h⟩ := bind_eq_ok_iff.mp h
      rw [writtenIn, if_neg hp, hpack]
      dsimp only at h ⊢
      split at h
      · next hexceeds =>
        obtain ⟨rfl, -⟩ := Prod.mk.inj (Except.ok.inj h)
        rw [if_pos hexceeds]
        exact ⟨Nat.zero_le _, iff_of_true rfl (.inr (Nat.succ_pos _)), fun _ _ hle => hle⟩
      · next hfits =>
        obtain ⟨⟨q, rest⟩, hrest, hq⟩ := bind_eq_ok_iff.mp h
        obtain ⟨rfl, -⟩ := Prod.mk.inj (Except.ok.inj hq)
        obtain ⟨hle, htruncation, hlimit⟩ := ih hrest
        rw [if_neg hfits, List.length_cons]
        refine ⟨Nat.succ_le_succ hle, ?_, fun limit hsome hbody => hlimit limit hsome ?_⟩
        · rw [htruncation]
          simp [hp]
        · rw [hsome, exceedsLimit, decide_eq_true_eq, not_lt] at hfits
          rw [List.length_append]
          push_cast at hfits ⊢
          omega

end Packs

/-! ## 3. Messages -/

section Messages

variable {inet : Inet} {now now' : Int} {sizeLimit : Option Int} {m m₁ : DnsMessage} {data : Bytes}

theorem counts_ne_iff {c : Counts} (hd : c.domains ≤ m.domains.length)
    (ha : c.answers ≤ m.answers.length) (hn : c.namservers ≤ m.namservers.length)
    (hr : c.additionalRecords ≤ m.additionalRecords.length) :
    c ≠ m.counts ↔ c.domains < m.domains.length ∨ c.answers < m.answers.length ∨
      c.namservers < m.namservers.length ∨ c.additionalRecords < m.additionalRecords.length := by
  obtain ⟨d, a, n, r⟩ := c
  unfold DnsMessage.counts
  simp only [ne_eq, Counts.mk.injEq] at *
  omega

/-- **What packing a message does.** -/
theorem pack_spec (h : m.pack inet now sizeLimit = .ok (data, m₁)) :
    ∃ c truncation, written inet now sizeLimit m = .ok c ∧ (truncation = true ↔ c ≠ m.counts) ∧
      (∀ limit, sizeLimit = some limit → 12 ≤ limit → (data.length : ℤ) ≤ limit) ∧
      (0 ≤ m.queryData (if truncation then 1 else 0) ∧
        m.queryData (if truncation then 1 else 0) < 65536) ∧
      unpackInts [2, 2, 2, 2, 2, 2] (slice data 0 12) =
        .ok [m.id.toNat, (m.queryData (if truncation then 1 else 0)).toNat, m.domains.length,
          m.answers.length, m.namservers.length, m.additionalRecords.length] := by
  simp only [pack, bind_eq_ok_iff] at h
  obtain ⟨⟨p, _⟩, hp, ⟨q, _⟩, hq, ⟨r, _⟩, hr, ⟨s, _⟩, hs, bytes, hbytes, hdata⟩ := h
  obtain ⟨rfl, -⟩ := Prod.mk.inj (Except.ok.inj hdata)
  dsimp only at hq hr hs
  obtain ⟨hpl, hpt, hplimit⟩ := packGroup_spec hp
  obtain ⟨hql, hqt, hqlimit⟩ := packGroup_spec hq
  obtain ⟨hrl, hrt, hrlimit⟩ := packGroup_spec hr
  obtain ⟨hsl, hst, hslimit⟩ := packGroup_spec hs
  have hlength : bytes.length = 12 := length_of_packInts hbytes
  have hslice : slice (bytes ++ s.body) 0 12 = bytes := by
    rw [slice, List.drop_zero, List.take_left' hlength]
  refine ⟨⟨writtenIn inet now sizeLimit ⟨Dict.empty, [], false⟩ m.domains,
    writtenIn inet now sizeLimit p m.answers, writtenIn inet now sizeLimit q m.namservers,
    writtenIn inet now sizeLimit r m.additionalRecords⟩, s.truncation, ?_, ?_,
    fun limit hsome hle => ?_, ?_, ?_⟩
  · simp only [written, bind_eq_ok_iff]
    exact ⟨_, hp, _, hq, _, hr, rfl⟩
  · rw [counts_ne_iff hpl hql hrl hsl, hst, hrt, hqt, hpt]
    simp only [Bool.false_eq_true, false_or, or_assoc]
  · rw [List.length_append, hlength]
    exact hslimit limit hsome (hrlimit limit hsome (hqlimit limit hsome (hplimit limit hsome hle)))
  · have hall := (packInts_eq_ok_iff.mp hbytes).1
    cases htruncation : s.truncation <;> rw [htruncation] at hall <;>
      exact hall (2, _) (List.mem_cons_of_mem _ List.mem_cons_self)
  · rw [hslice]
    cases htruncation : s.truncation <;> rw [htruncation] at hbytes <;>
      exact unpackInts_packInts hbytes

/-- What is in the flag of a word is the truncation, with what is carried into it. -/
theorem flag_queryData {t : Int} (hpos : 0 ≤ m.queryData t) :
    (flag (m.queryData t).toNat : ℤ) = (t + m.carry) % 2 := by
  unfold flag carry queryData at *
  omega

theorem counts_eq_zero_iff :
    m.counts = ⟨0, 0, 0, 0⟩ ↔
      m.domains = [] ∧ m.answers = [] ∧ m.namservers = [] ∧ m.additionalRecords = [] := by
  simp [DnsMessage.counts]

/-- **Which messages keep to a limit**: those without records, where nothing is carried into the flag. -/
theorem limited_iff (h : m.pack inet now sizeLimit = .ok (data, m₁)) :
    ∃ c, written inet now sizeLimit m = .ok c ∧
      (Limited inet now' sizeLimit m c data ↔ m.counts = ⟨0, 0, 0, 0⟩ ∧ m.carry = 0) := by
  obtain ⟨c, truncation, hwritten, htruncation, hlength, hword, hunpack⟩ := pack_spec h
  refine ⟨c, hwritten, ?_⟩
  have hflag := flag_queryData hword.1
  have hcarry : 0 ≤ m.carry ∧ m.carry < 2 := by
    unfold carry
    omega
  constructor
  · intro hlimited
    obtain ⟨m', hparse, -⟩ := hlimited.parsed
    obtain ⟨hd, ha, hn, hr, -⟩ := (parse_eq_ok_iff hunpack).mp hparse
    have hnone : m.counts = ⟨0, 0, 0, 0⟩ := by simp [DnsMessage.counts, hd, ha, hn, hr]
    obtain ⟨i, rawData, hheader, hset⟩ := hlimited.header
    -- the counts that are read are those of what is written, so nothing has been dropped
    have hread := Except.ok.inj (hheader.symm.trans hunpack)
    simp only [List.cons.injEq, and_true] at hread
    obtain ⟨-, rfl, hcd, hca, hcn, hcr⟩ := hread
    have hc : c = m.counts := by
      obtain ⟨d, a, n, r⟩ := c
      exact congr (congr (congr (congrArg Counts.mk hcd) hca) hcn) hcr
    have hkept : truncation = false := Bool.eq_false_iff.mpr fun htrue => htruncation.mp htrue hc
    subst hkept
    have hunset : flag (m.queryData (if false = true then 1 else 0)).toNat ≠ 1 :=
      fun hone => hset.mp hone hc
    have hzero : (if false = true then 1 else 0 : Int) = 0 := rfl
    refine ⟨hnone, ?_⟩
    omega
  · rintro ⟨hnone, hclear⟩
    obtain ⟨hd, ha, hn, hr⟩ := counts_eq_zero_iff.mp hnone
    have hwrittenNone : written inet now sizeLimit m = .ok ⟨0, 0, 0, 0⟩ := by
      rw [written, hd, ha, hn, hr]
      rfl
    obtain rfl := Except.ok.inj (hwrittenNone.symm.trans hwritten)
    have hkept : truncation = false :=
      Bool.eq_false_iff.mpr fun htrue => htruncation.mp htrue hnone.symm
    subst hkept
    have hzero : (if false = true then 1 else 0 : Int) = 0 := rfl
    rw [hd, ha, hn, hr] at hunpack
    refine ⟨hlength, ⟨_, _, hunpack, iff_of_false ?_ fun hne => hne hnone.symm⟩,
      _, (parse_eq_ok_iff hunpack).mpr ⟨rfl, rfl, rfl, rfl, rfl⟩, ?_⟩
    · omega
    · constructor <;> simp [DnsMessage.ofRawData]

/-- No records, but a question for the limit. -/
theorem limited_empty :
    ∃ c, written Inet.raising 0 (some 512) { addressQuestion with domains := [] } = .ok c ∧
      Limited Inet.raising 0 (some 512) { addressQuestion with domains := [] } c
        [0, 7, 1, 0, 0, 0, 0, 0, 0, 0, 0, 0] := by
  obtain ⟨c, hc, hiff⟩ := @limited_iff Inet.raising 0 0 (some 512) { addressQuestion with domains := [] }
    _ [0, 7, 1, 0, 0, 0, 0, 0, 0, 0, 0, 0] rfl
  exact ⟨c, hc, hiff.mpr ⟨rfl, rfl⟩⟩

/-- A question that does not fit is dropped, and counted. -/
theorem not_limited : ¬ ∀ (m m₁ : DnsMessage) (limit : ℤ) (data : Bytes) (c : Counts),
    m.pack Inet.raising 0 (some limit) = .ok (data, m₁) →
    written Inet.raising 0 (some limit) m = .ok c →
    Limited Inet.raising 0 (some limit) m c data := by
  intro h
  have hpack : ∃ p, addressQuestion.pack Inet.raising 0 (some 20) = .ok p := ⟨_, rfl⟩
  obtain ⟨⟨data, m₁⟩, hpack⟩ := hpack
  obtain ⟨c, truncation, hwritten, -, -, -, hunpack⟩ := pack_spec hpack
  obtain ⟨i, rawData, hheader, -⟩ := (h _ _ _ _ _ hpack hwritten).header
  have hread := Except.ok.inj (hheader.symm.trans hunpack)
  have hnone : written Inet.raising 0 (some 20) addressQuestion = .ok ⟨0, 0, 0, 0⟩ := rfl
  obtain rfl := Except.ok.inj (hnone.symm.trans hwritten)
  simp [addressQuestion] at hread

end Messages

end DnsMessage
end Dns
end Hedra
