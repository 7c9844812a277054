/-
# Messages on the wire

`DNSMessage.pack` (`distributed/models/dns/dns_message.py`) writes a header and four sections of
records, `DNSMessage.parse` reads them.  What is packed is read back only as long as there is next
to nothing in it: `parse` calls `parse_entry` with the value of a `QueryType`, which asks that
integer for its `value` as soon as there is a record to read, and raises; and it reads the query id,
but does not pass it on.

So a message is read back as it was if and only if it has no records, its id is 0, its truncation
flag is not set (`pack` computes that flag anew) and its other flags fit the header.

* `header_of_pack`: what `parse` reads first is what `pack` has written there;
* `parse_eq_ok_iff`: what it makes of a header;
* `roundTrips_iff`: which messages are read back.
-/
import Hedra.Dns.Record

namespace Hedra
namespace Dns

open Lib

/-! ## 1. Messages -/

/-- A `DNSMessage`, its fields under their names without `query_`. -/
structure DnsMessage where
  queryType : QueryType
  id : Int
  opcode : Int
  authoritativeAnswer : Int
  truncation : Int
  desiredRecursion : Int
  availableRecursion : Int
  resultCode : Int
  domains : List Record
  answers : List Record
  namservers : List Record
  additionalRecords : List Record

namespace DnsMessage

/-- `get_bits` -/
def getBits (num bitLen : Nat) : Nat × Nat :=
  let high := num >>> bitLen
  (num - (high <<< bitLen), high)

/-! ## 2. Packing -/

/-- How far `pack` is: the table of names, what stands behind the header, and whether the size
limit has been met. -/
structure Packing where
  names : Names
  body : Bytes
  truncation : Bool

/-- `size_limit is not None and size > size_limit` -/
def exceedsLimit : Option Int → Nat → Bool
  | none, _ => false
  | some sizeLimit, size => decide (sizeLimit < size)

/-- One section of `pack`; the records that have been packed have been aged. -/
def packGroup (inet : Inet) (now : Int) (sizeLimit : Option Int) (p : Packing) :
    List Record → Except Error (Packing × List Record)
  | [] => .ok (p, [])
  | record :: group =>
    if p.truncation then .ok (p, record :: group)
    else do
      let offset := 12 + p.body.length
      let (packedRecord, names, record) ← record.pack inet now p.names offset
      if exceedsLimit sizeLimit (offset + packedRecord.length) then
        return ({ p with names := names, truncation := true }, record :: group)
      else
        let (p, group) ← packGroup inet now sizeLimit ⟨names, p.body ++ packedRecord, false⟩ group
        return (p, record :: group)

/-- The second word of the header. -/
def queryData (m : DnsMessage) (truncation : Int) : Int :=
  m.queryType.value * 2 ^ 15 + m.opcode * 2 ^ 11 + m.authoritativeAnswer * 2 ^ 10 +
    truncation * 2 ^ 9 + m.desiredRecursion * 2 ^ 8 + m.availableRecursion * 2 ^ 7 + 0 * 2 ^ 4 +
    m.resultCode

/-- `DNSMessage.pack`, and what it leaves of the message. -/
def pack (inet : Inet) (now : Int) (m : DnsMessage) (sizeLimit : Option Int) :
    Except Error (Bytes × DnsMessage) := do
  let (p, domains) ← packGroup inet now sizeLimit ⟨Dict.empty, [], false⟩ m.domains
  let (p, answers) ← packGroup inet now sizeLimit p m.answers
  let (p, namservers) ← packGroup inet now sizeLimit p m.namservers
  let (p, additionalRecords) ← packGroup inet now sizeLimit p m.additionalRecords
  let truncation := if p.truncation then 1 else 0
  let header ← packInts [(2, m.id), (2, m.queryData truncation), (2, m.domains.length),
    (2, m.answers.length), (2, m.namservers.length), (2, m.additionalRecords.length)]
  return (header ++ p.body,
    { m with
      truncation := truncation
      domains := domains
      answers := answers
      namservers := namservers
      additionalRecords := additionalRecords })

/-! ## 3. Parsing -/

/-- `parse_entry` -/
def parseEntry (inet : Inet) (now : Int) (queryType : PyQueryType) (data : Bytes) :
    Nat → Nat → Except Error (Nat × List Record)
  | cursor, 0 => .ok (cursor, [])
  | cursor, length + 1 => do
    let value ← queryType.value
    let (cursor, record) ← (Record.ofType (.int value) now).parse inet now data cursor
    let (cursor, results) ← parseEntry inet now queryType data cursor length
    return (cursor, record :: results)

/-- `DNSMessage.parse` -/
def parse (inet : Inet) (now : Int) (data : Bytes) (queryId : Option Int) :
    Except Error DnsMessage := do
  match ← unpackInts [2, 2, 2, 2, 2, 2] (slice data 0 12) with
  | [requestId, rawData, domains, answers, nameservers, additionalRecords] =>
    if queryId.isSome ∧ queryId ≠ some (requestId : Int) then
      throw (.dns (-1) "Transaction ID mismatch")
    let (resultCode, rawData) := getBits rawData 4
    let (_, rawData) := getBits rawData 3
    let (availableRecursion, rawData) := getBits rawData 1
    let (desiredRecursion, rawData) := getBits rawData 1
    let (truncation, rawData) := getBits rawData 1
    let (authoritativeAnswer, rawData) := getBits rawData 1
    let (opcode, rawData) := getBits rawData 4
    let (queryType, _) := getBits rawData 1
    let (cursor, domains) ← parseEntry inet now (.int QueryType.request.value) data 12 domains
    let (cursor, answers) ← parseEntry inet now (.int QueryType.response.value) data cursor answers
    let (cursor, nameservers) ←
      parseEntry inet now (.int QueryType.response.value) data cursor nameservers
    let (_, additionalRecords) ←
      parseEntry inet now (.int QueryType.response.value) data cursor additionalRecords
    return {
      queryType := QueryType.byValue queryType
      id := 0
      opcode := opcode
      authoritativeAnswer := authoritativeAnswer
      truncation := truncation
      desiredRecursion := desiredRecursion
      availableRecursion := availableRecursion
      resultCode := resultCode
      domains := domains
      answers := answers
      namservers := nameservers
      additionalRecords := additionalRecords }
  | _ => throw .structError

/-! ## 4. What is read back -/

/-- The same name, type and class. -/
def SameQuestion (r r' : Record) : Prop :=
  r.name = r'.name ∧ r.recordType = r'.recordType ∧ r.qclass = r'.qclass

/-- The same name, type, class, time to live and data. -/
def SameRecord (r r' : Record) : Prop := SameQuestion r r' ∧ r.ttl = r'.ttl ∧ r.data = r'.data

/-- The same id, flags and response code, and the same records in each section. -/
structure Same (m m' : DnsMessage) : Prop where
  queryType : m.queryType = m'.queryType
  id : m.id = m'.id
  opcode : m.opcode = m'.opcode
  authoritativeAnswer : m.authoritativeAnswer = m'.authoritativeAnswer
  truncation : m.truncation = m'.truncation
  desiredRecursion : m.desiredRecursion = m'.desiredRecursion
  availableRecursion : m.availableRecursion = m'.availableRecursion
  resultCode : m.resultCode = m'.resultCode
  domains : List.Forall₂ SameQuestion m.domains m'.domains
  answers : List.Forall₂ SameRecord m.answers m'.answers
  namservers : List.Forall₂ SameRecord m.namservers m'.namservers
  additionalRecords : List.Forall₂ SameRecord m.additionalRecords m'.additionalRecords

/-- `parse(m.pack())` is like `m`. -/
def RoundTrips (inet : Inet) (now now' : Int) (m : DnsMessage) : Prop :=
  ∃ data m₁ m', m.pack inet now none = .ok (data, m₁) ∧ parse inet now' data none = .ok m' ∧
    Same m m'

/-- The flags, the truncation flag apart, fit the header. -/
structure FlagsFit (m : DnsMessage) : Prop where
  opcode : 0 ≤ m.opcode ∧ m.opcode < 16
  authoritativeAnswer : 0 ≤ m.authoritativeAnswer ∧ m.authoritativeAnswer < 2
  desiredRecursion : 0 ≤ m.desiredRecursion ∧ m.desiredRecursion < 2
  availableRecursion : 0 ≤ m.availableRecursion ∧ m.availableRecursion < 2
  resultCode : 0 ≤ m.resultCode ∧ m.resultCode < 16

/-- No records, the id 0, no truncation flag, and flags that fit the header. -/
structure Bare (m : DnsMessage) : Prop where
  domains : m.domains = []
  answers : m.answers = []
  namservers : m.namservers = []
  additionalRecords : m.additionalRecords = []
  id : m.id = 0
  truncation : m.truncation = 0
  flags : m.FlagsFit

theorem getBits_eq (num bitLen : Nat) :
    getBits num bitLen = (num % 2 ^ bitLen, num / 2 ^ bitLen) := by
  have hdiv := Nat.div_add_mod num (2 ^ bitLen)
  rw [Nat.mul_comm] at hdiv
  simp only [getBits, Nat.shiftRight_eq_div_pow, Nat.shiftLeft_eq, Prod.mk.injEq, and_true]
  omega

/-- A section is read only if it is empty. -/
theorem parseEntry_int {inet : Inet} {now value : Int} {data : Bytes} {cursor length : Nat}
    {p : Nat × List Record} :
    parseEntry inet now (.int value) data cursor length = .ok p ↔ length = 0 ∧ p = (cursor, []) := by
  cases length with
  | zero => simp [parseEntry, eq_comm]
  | succ length =>
    have herr : parseEntry inet now (.int value) data cursor (length + 1) =
        .error .attributeError := rfl
    simp [herr]

/-- The message without records whose header has `rawData`. -/
def ofRawData (rawData : Nat) : DnsMessage where
  queryType := QueryType.byValue (rawData / 2 ^ 15 % 2)
  id := 0
  opcode := (rawData / 2 ^ 11 % 16 : Nat)
  authoritativeAnswer := (rawData / 2 ^ 10 % 2 : Nat)
  truncation := (rawData / 2 ^ 9 % 2 : Nat)
  desiredRecursion := (rawData / 2 ^ 8 % 2 : Nat)
  availableRecursion := (rawData / 2 ^ 7 % 2 : Nat)
  resultCode := (rawData % 16 : Nat)
  domains := []
  answers := []
  namservers := []
  additionalRecords := []

/-- **What `parse` makes of a header.** -/
theorem parse_eq_ok_iff {inet : Inet} {now : Int} {data : Bytes} {i rawData d a n r : Nat}
    (h : unpackInts [2, 2, 2, 2, 2, 2] (slice data 0 12) = .ok [i, rawData, d, a, n, r])
    {m : DnsMessage} :
    parse inet now data none = .ok m ↔
      d = 0 ∧ a = 0 ∧ n = 0 ∧ r = 0 ∧ m = ofRawData rawData := by
  unfold parse
  simp only [h, bind_eq_ok_iff, Except.ok.injEq, exists_eq_left', Option.isSome_none,
    Bool.false_eq_true, false_and, if_false, parseEntry_int, getBits_eq, Nat.div_div_eq_div_mul,
    ← Nat.pow_add]
  constructor
  · rintro ⟨p, ⟨rfl, rfl⟩, q, ⟨rfl, rfl⟩, s, ⟨rfl, rfl⟩, t, ⟨rfl, rfl⟩, hm⟩
    exact ⟨rfl, rfl, rfl, rfl, (Except.ok.inj hm).symm⟩
  · rintro ⟨rfl, rfl, rfl, rfl, rfl⟩
    exact ⟨_, ⟨rfl, rfl⟩, _, ⟨rfl, rfl⟩, _, ⟨rfl, rfl⟩, _, ⟨rfl, rfl⟩, rfl⟩

/-- Without a size limit nothing is truncated. -/
theorem truncation_of_packGroup {inet : Inet} {now : Int} {p p' : Packing}
    {group group' : List Record} (h : packGroup inet now none p group = .ok (p', group'))
    (hp : p.truncation = false) : p'.truncation = false := by
  induction group generalizing p group' with
  | nil =>
    obtain ⟨rfl, -⟩ := Prod.mk.inj (Except.ok.inj h)
    exact hp
  | cons record group ih =>
    unfold packGroup at h
    simp only [hp, Bool.false_eq_true, if_false, bind_eq_ok_iff, exceedsLimit] at h
    obtain ⟨packed, -, ⟨q, rest⟩, hrest, hq⟩ := h
    obtain ⟨rfl, -⟩ := Prod.mk.inj (Except.ok.inj hq)
    exact ih hrest rfl

/-- The fields of the header. -/
def header (m : DnsMessage) : List (Nat × Int) :=
  [(2, m.id), (2, m.queryData 0), (2, m.domains.length), (2, m.answers.length),
    (2, m.namservers.length), (2, m.additionalRecords.length)]

/-- **What `parse` reads first is what `pack` has written there.** -/
theorem header_of_pack {inet : Inet} {now : Int} {m m₁ : DnsMessage} {data : Bytes}
    (h : m.pack inet now none = .ok (data, m₁)) :
    ∃ bytes, packInts m.header = .ok bytes ∧
      unpackInts [2, 2, 2, 2, 2, 2] (slice data 0 12) = .ok (m.header.map fun f => f.2.toNat) := by
  simp only [pack, bind_eq_ok_iff] at h
  obtain ⟨⟨p, _⟩, hp, ⟨q, _⟩, hq, ⟨r, _⟩, hr, ⟨s, _⟩, hs, bytes, hbytes, hdata⟩ := h
  have htrunc : s.truncation = false :=
    truncation_of_packGroup hs (truncation_of_packGroup hr (truncation_of_packGroup hq
      (truncation_of_packGroup hp rfl)))
  simp only [htrunc, Bool.false_eq_true, if_false] at hbytes
  obtain ⟨rfl, -⟩ := Prod.mk.inj (Except.ok.inj hdata)
  have hslice : slice (bytes ++ s.body) 0 12 = bytes := by
    have hlen : bytes.length = 12 := length_of_packInts hbytes
    rw [slice, List.drop_zero, List.take_left' hlen]
  refine ⟨bytes, hbytes, ?_⟩
  rw [hslice]
  exact unpackInts_packInts hbytes

/-- Flags that fit take up one word. -/
theorem FlagsFit.queryData {m : DnsMessage} (h : m.FlagsFit) :
    0 ≤ m.queryData 0 ∧ m.queryData 0 < 65536 := by
  obtain ⟨ho, ha, hd, hv, hr⟩ := h
  have hq : 0 ≤ m.queryType.value ∧ m.queryType.value < 2 := by
    cases m.queryType <;> decide
  unfold DnsMessage.queryData
  omega

/-- **Flags that fit are read back.** -/
theorem FlagsFit.ofRawData {m : DnsMessage} (h : m.FlagsFit) :
    DnsMessage.ofRawData (m.queryData 0).toNat =
      { m with
        id := 0
        truncation := 0
        domains := []
        answers := []
        namservers := []
        additionalRecords := [] } := by
  obtain ⟨hpos, -⟩ := h.queryData
  obtain ⟨ho, ha, hd, hv, hr⟩ := h
  have hq : 0 ≤ m.queryType.value ∧ m.queryType.value < 2 := by
    cases m.queryType <;> decide
  have htype : QueryType.byValue ((m.queryData 0).toNat / 2 ^ 15 % 2) = m.queryType := by
    have hbit : (m.queryData 0).toNat / 2 ^ 15 % 2 = m.queryType.value.toNat := by
      unfold DnsMessage.queryData at hpos ⊢
      omega
    rw [hbit]
    cases m.queryType <;> rfl
  unfold DnsMessage.ofRawData
  rw [htype]
  unfold DnsMessage.queryData at hpos ⊢
  congr 1 <;> omega

/-- The flags of a header fit. -/
theorem flagsFit_of_same {m : DnsMessage} {rawData : Nat}
    (h : Same m (DnsMessage.ofRawData rawData)) : m.FlagsFit := by
  have ho := h.opcode
  have ha := h.authoritativeAnswer
  have hd := h.desiredRecursion
  have hv := h.availableRecursion
  have hr := h.resultCode
  simp only [DnsMessage.ofRawData] at ho ha hd hv hr
  constructor <;> omega

theorem Same.refl_of_bare {m : DnsMessage} (h : m.Bare) : Same m m := by
  constructor <;> simp [h.domains, h.answers, h.namservers, h.additionalRecords]

theorem pack_of_bare {inet : Inet} {now : Int} {m : DnsMessage} (h : m.Bare) {bytes : Bytes}
    (hb : packInts m.header = .ok bytes) : m.pack inet now none = .ok (bytes, m) := by
  obtain ⟨hd, ha, hn, hr, hid, ht, -⟩ := h
  obtain ⟨_, _, _, _, _, _, _, _, _, _, _, _⟩ := m
  simp only at hd ha hn hr hid ht
  subst hd ha hn hr hid ht
  simp only [header] at hb
  simp only [pack, packGroup, bind_eq_ok_iff, Except.ok.injEq, exists_eq_left',
    Bool.false_eq_true, if_false]
  exact ⟨bytes, hb, by simp [pure, Except.pure]⟩

/-- **A message is read back as it was exactly if there is next to nothing in it.** -/
theorem roundTrips_iff (inet : Inet) (now now' : Int) (m : DnsMessage) :
    m.RoundTrips inet now now' ↔ m.Bare := by
  constructor
  · rintro ⟨data, m₁, m', hpack, hparse, hsame⟩
    obtain ⟨-, -, hunpack⟩ := header_of_pack hpack
    obtain ⟨hd, ha, hn, hr, rfl⟩ := (parse_eq_ok_iff hunpack).mp hparse
    have hflags := flagsFit_of_same hsame
    have htrunc := hsame.truncation
    rw [hflags.ofRawData] at htrunc
    exact
      { domains := List.length_eq_zero_iff.mp (by simpa using hd)
        answers := List.length_eq_zero_iff.mp (by simpa using ha)
        namservers := List.length_eq_zero_iff.mp (by simpa using hn)
        additionalRecords := List.length_eq_zero_iff.mp (by simpa using hr)
        id := hsame.id
        truncation := htrunc
        flags := hflags }
  · intro h
    have hm : DnsMessage.ofRawData (m.queryData 0).toNat = m := by
      rw [h.flags.ofRawData]
      obtain ⟨hd, ha, hn, hr, hid, ht, -⟩ := h
      cases m
      simp_all
    obtain ⟨bytes, hbytes⟩ : ∃ bytes, packInts m.header = .ok bytes := by
      refine ⟨_, packInts_eq_ok_iff.mpr ⟨?_, rfl⟩⟩
      simp [header, h.id, h.domains, h.answers, h.namservers, h.additionalRecords,
        h.flags.queryData]
    have hpack : m.pack inet now none = .ok (bytes, m) := pack_of_bare h hbytes
    obtain ⟨-, -, hunpack⟩ := header_of_pack hpack
    refine ⟨bytes, m, m, hpack, (parse_eq_ok_iff hunpack).mpr ?_, Same.refl_of_bare h⟩
    simp [h.domains, h.answers, h.namservers, h.additionalRecords, hm]

/-- The types whose data has a class of its own. -/
def supported : List RecordType :=
  [.a, .aaaa, .cname, .mx, .naptr, .ns, .ptr, .soa, .srv, .txt]

/-- A question or a resource record of a supported type, with a valid name. -/
structure ValidRecord (q : QueryType) (r : Record) : Prop where
  queryType : r.queryType = .queryType q
  labels : ∀ label ∈ split r.name, 1 ≤ (encode label).length ∧ (encode label).length ≤ 63
  name : (encode r.name).length ≤ 255
  recordType : ∃ t ∈ supported, r.recordType = some t
  qclass : 0 ≤ r.qclass ∧ r.qclass < 65536
  ttl : 0 ≤ r.ttl ∧ r.ttl < 4294967296
  data : r.data.isSome ↔ q = .response

/-- A message that is built from such records. -/
structure Valid (m : DnsMessage) : Prop where
  id : 0 ≤ m.id ∧ m.id < 65536
  flags : m.FlagsFit
  domains : ∀ r ∈ m.domains, ValidRecord .request r
  answers : ∀ r ∈ m.answers, ValidRecord .response r
  namservers : ∀ r ∈ m.namservers, ValidRecord .response r
  additionalRecords : ∀ r ∈ m.additionalRecords, ValidRecord .response r

/-- The question for the address of a host. -/
def addressQuestion : DnsMessage where
  queryType := .request
  id := 7
  opcode := 0
  authoritativeAnswer := 0
  truncation := 0
  desiredRecursion := 1
  availableRecursion := 0
  resultCode := 0
  domains := [{ Record.ofType (.queryType .request) 0 with
    name := "example.com", recordType := some .a }]
  answers := []
  namservers := []
  additionalRecords := []

theorem addressQuestion_valid : addressQuestion.Valid := by
  constructor <;> simp only [addressQuestion, List.not_mem_nil, false_implies, implies_true]
  · decide
  · constructor <;> decide
  · intro r hr
    obtain rfl := List.mem_singleton.mp hr
    constructor <;> decide

/-- It is packed, and `parse` does not read what has been packed. -/
theorem question_not_read_back :
    ¬ ∀ (inet : Inet) (now : Int) (m : DnsMessage), m.Valid →
      ∀ data m₁, m.pack inet now none = .ok (data, m₁) →
        ∃ m', parse inet now data none = .ok m' ∧ Same m m' := by
  intro h
  have hok : ∃ p, addressQuestion.pack Inet.raising 0 none = .ok p := ⟨_, rfl⟩
  obtain ⟨⟨data, m₁⟩, hpack⟩ := hok
  obtain ⟨m', hparse, -⟩ := h Inet.raising 0 addressQuestion addressQuestion_valid data m₁ hpack
  obtain ⟨-, -, hunpack⟩ := header_of_pack hpack
  exact absurd ((parse_eq_ok_iff hunpack).mp hparse).1 (by decide)

end DnsMessage
end Dns
end Hedra
