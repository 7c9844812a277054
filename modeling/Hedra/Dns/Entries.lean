/-
# Service entries as records, and back

`DNSEntry` (`distributed/models/dns/dns_entry.py`) puts an instance, a service, a protocol and a domain
into one name, and takes them from it with a pattern whose captures it then filters by `isalnum`.  The
pattern allows hyphens, the filter does not, and so an entry comes back only if its names have none and
its domain is of two labels (`plain_of_toSegments`, `toSegments_of_plain`).

An address or a text comes back under the name of the record, which is never the domain.  A service
record carries all but the text values, and a pointer nothing but the names: its target is the name of
the instance itself.  `parses_back_iff` says, for every entry and every conversion, when the entry that
comes back is the same: where what the record does not carry is what is filled in for it.
-/
import Hedra.Dns.Record
import Hedra.Lib.Ascii
import Hedra.Lib.Captures
import Hedra.Lib.Dict

namespace Hedra
namespace Dns
namespace Entries

open Lib Captures Ascii

abbrev Str := List Char

/-! ## 1. Segments -/

/-- `isalnum` of a character, which is more than ASCII. -/
structure Alnum where
  isalnum : Char → Bool
  ascii : ∀ c : Char, c.toNat < 128 → isalnum c = c.isAlphanum

/-- `segment.isalnum()` -/
def Alnum.all (u : Alnum) (segment : Str) : Bool := !segment.isEmpty && segment.all u.isalnum

/-- `[a-zA-Z0-9\-]` -/
def nameChar (c : Char) : Bool := c.isAlphanum || c == '-'

/-- `[udp|tcp]` -/
def protocolChar (c : Char) : Bool := ['u', 'd', 'p', '|', 't', 'c'].contains c

/-- A character. -/
def char (c : Char) : Item Char := ⟨(· == c), 1, some 1⟩

/-- `([a-zA-Z0-9\-]{1,256})` -/
def nameGroup : CaptureGroup Char := ⟨[⟨nameChar, 1, some 256⟩], false⟩

def servicePattern : List (CaptureGroup Char) :=
  [⟨nameGroup.items, true⟩, ⟨[⟨(· == '.'), 0, some 1⟩, char '_'], false⟩, nameGroup,
    ⟨[char '.', char '_'], false⟩, ⟨[⟨protocolChar, 0, none⟩], false⟩, ⟨[char '.'], false⟩, nameGroup,
    ⟨[char '.'], false⟩, ⟨[⟨Char.isAlphanum, 2, some 5⟩], false⟩]

inductive EntryError
  | invalidServiceUrl
  | attributeError
  | valueError
  | validationError
deriving DecidableEq

/-- `segment for segment in segments if segment.isalnum()`; a group that captured nothing is `None`. -/
def alnumSegments (u : Alnum) : List (Option Str) → Except EntryError (List Str)
  | [] => .ok []
  | none :: _ => .error .attributeError
  | some segment :: segments => do
    let rest ← alnumSegments u segments
    return if u.all segment then segment :: rest else rest

/-- `to_segments` -/
def toSegments (u : Alnum) (url : Str) : Except EntryError (Str × Str × Str × Str) :=
  match matchGroups servicePattern url with
  | none => .error .invalidServiceUrl
  | some _ => do
    match ← alnumSegments u (Captures.split servicePattern url) with
    | instanceName :: serviceName :: domainProtocol :: rest =>
      return (instanceName, serviceName, domainProtocol, ['.'].intercalate rest)
    | _ => .error .valueError

/-! ## 2. Entries -/

/-- Addresses and their texts; the text of an address is read as that address. -/
structure IpText where
  Addr : Type
  parse : Str → Option Addr
  str : Addr → Str
  parse_str : ∀ a, parse (str a) = some a

/-- `Union[IPvAnyAddress, StrictStr]`: no text of an address is a string. -/
inductive Target (ip : IpText)
  | address (a : ip.Addr)
  | text (s : Str) (h : ip.parse s = none)

namespace Target

variable {ip : IpText}

def str : Target ip → Str
  | address a => ip.str a
  | text s _ => s

def ofStr (ip : IpText) (s : Str) : Target ip :=
  match h : ip.parse s with
  | some a => address a
  | none => text s h

end Target

/-- `DomainProtocol` -/
inductive Protocol
  | tcp
  | udp
deriving DecidableEq

def Protocol.str : Protocol → Str
  | tcp => "tcp".toList
  | udp => "udp".toList

def Protocol.ofStr (s : Str) : Except EntryError Protocol :=
  if s = "tcp".toList then .ok .tcp else if s = "udp".toList then .ok .udp else .error .validationError

/-- `RecordTypeName` -/
inductive RecordTypeName
  | a
  | aaaa
  | cname
  | ptr
  | srv
  | txt
deriving DecidableEq

structure DnsEntry (ip : IpText) where
  instanceName : Option Str
  serviceName : Str
  domainProtocol : Protocol
  domainName : Str
  domainPriority : Int
  domainWeight : Int
  domainPort : Option Int
  domainValues : Dict Str Str
  domainTargets : Option (Target ip)
  recordType : Option RecordType

/-- The data of a record, with what may be `None`. -/
inductive EntryData
  | address
      (rtype : RecordType)
      (data : Option Str)
  | srv
      (priority weight : Int)
      (port : Option Int)
      (hostname : Option Str)
  | ptr
      (data : Str)
  | txt
      (data : Str)

namespace DnsEntry

variable {ip : IpText}

/-- A string in a formatted one. -/
def format (s : Option Str) : Str := s.getD "None".toList

/-- The name of the instance of a service in a domain. -/
def fullName (e : DnsEntry ip) : Str :=
  format e.instanceName ++ "._".toList ++ e.serviceName ++ "._".toList ++ e.domainProtocol.str ++
    ".".toList ++ e.domainName

/-- `to_domain` -/
def toDomain (e : DnsEntry ip) (recordType : RecordTypeName) : Str :=
  if recordType = .ptr then
    e.serviceName ++ "._".toList ++ e.domainProtocol.str ++ ".in-addr.arpa".toList
  else e.fullName

/-- `to_data` -/
def toData (e : DnsEntry ip) (recordType : RecordTypeName) : EntryData :=
  let domainTarget := e.domainTargets.map Target.str
  match recordType with
  | .a => .address .a domainTarget
  | .aaaa => .address .aaaa domainTarget
  | .cname => .address .cname domainTarget
  | .srv => .srv e.domainPriority e.domainWeight e.domainPort domainTarget
  | .ptr => .ptr e.fullName
  | .txt =>
    let txtValues := e.domainValues.items.map fun i => i.1 ++ "=".toList ++ i.2
    .txt ("\n".toList.intercalate (txtValues ++ ["service=".toList ++ format domainTarget]))

/-- `DNSEntry(..)`, with what the conversions set. -/
def validated (segments : Str × Str × Str × Str) (domainName : Str) (domainPriority domainWeight : Int)
    (domainPort : Option Int) (domainTarget : Option Str) (domainValues : Dict Str Str)
    (recordType : RecordType) : Except EntryError (DnsEntry ip) := do
  let (instanceName, serviceName, domainProtocol, _) := segments
  let protocol ← Protocol.ofStr domainProtocol
  match domainTarget with
  | none => .error .validationError
  | some target =>
    return ⟨some instanceName, serviceName, protocol, domainName, domainPriority, domainWeight, domainPort,
      domainValues, some (.ofStr ip target), some recordType⟩

/-- `key, value = txt_item.split("=")`, for each item. -/
def recordValues : List Str → Dict Str Str → Except EntryError (Dict Str Str)
  | [], values => .ok values
  | item :: items, values =>
    match item.splitOn '=' with
    | [key, value] => recordValues items (values.set key value)
    | _ => .error .valueError

/-- `from_record_data` -/
def fromRecordData (u : Alnum) (ip : IpText) (recordName : Str) (recordData : EntryData) :
    Except EntryError (DnsEntry ip) := do
  match recordData with
  | .ptr data =>
    let segments ← toSegments u data
    validated segments segments.2.2.2 10 0 none (some data) Dict.empty .ptr
  | .address rtype data =>
    let segments ← toSegments u recordName
    validated segments recordName 10 0 none data Dict.empty rtype
  | .srv priority weight port hostname =>
    let segments ← toSegments u recordName
    validated segments segments.2.2.2 priority weight port hostname Dict.empty .srv
  | .txt data =>
    let segments ← toSegments u recordName
    let values ← recordValues (data.splitOn '\n') Dict.empty
    validated segments recordName 10 0 none (values.get? "service".toList) values .txt

end DnsEntry

/-! ## 3. What the pattern captures -/

/-- What `[a-zA-Z0-9\-]{1,256}` matches. -/
def NameText (l : Str) : Prop := (∀ c ∈ l, nameChar c = true) ∧ 1 ≤ l.length ∧ l.length ≤ 256

theorem takes_single {i : Item Char} {l : Str} (h : Takes [i] l) :
    (∀ c ∈ l, i.allowed c = true) ∧ i.least ≤ l.length ∧ ∀ n ∈ i.most, l.length ≤ n := by
  cases h with
  | cons hl hleast hmost rest =>
    cases rest
    rw [List.append_nil]
    exact ⟨hl, hleast, hmost⟩

theorem takes_char {c : Char} {items : List (Item Char)} {l : Str} (h : Takes (char c :: items) l) :
    ∃ l', l = c :: l' ∧ Takes items l' := by
  cases h with
  | @cons i items l l' hl hleast hmost rest =>
    obtain ⟨x, rfl⟩ := List.length_eq_one_iff.mp (Nat.le_antisymm (hmost 1 rfl) hleast)
    have hx : x = c := by simpa [char] using hl x List.mem_cons_self
    exact ⟨l', hx ▸ rfl, rest⟩

theorem takes_nil {l : Str} (h : Takes [] l) : l = [] := by
  cases h
  rfl

theorem takes_name {l : Str} (h : Takes nameGroup.items l) : NameText l := by
  obtain ⟨hall, hleast, hmost⟩ := takes_single h
  exact ⟨hall, hleast, hmost 256 rfl⟩

/-- A group that is not optional has captured something. -/
theorem matches_cons {g : CaptureGroup Char} {groups : List (CaptureGroup Char)}
    {captures : List (Option Str)} {text rest : Str} (hg : g.isOptional = false)
    (h : Matches (g :: groups) captures text rest) : ∃ l captures' text',
      captures = some l :: captures' ∧ text = l ++ text' ∧ Takes g.items l ∧
        Matches groups captures' text' rest := by
  cases h with
  | take htakes hrest => exact ⟨_, _, _, rfl, rfl, htakes, hrest⟩
  | skip hoptional _ => exact absurd (hoptional.symm.trans hg) (by decide)

/-- **What the pattern of a service captures.** -/
structure Service where
  g1 : Option Str
  g2 : Str
  g3 : Str
  g5 : Str
  g7 : Str
  g9 : Str
  name1 : ∀ l ∈ g1, NameText l
  mark : g2 = "_".toList ∨ g2 = "._".toList
  name3 : NameText g3
  protocol : ∀ c ∈ g5, protocolChar c = true
  name7 : NameText g7
  top : ∀ c ∈ g9, c.isAlphanum = true
  least : 2 ≤ g9.length
  most : g9.length ≤ 5

namespace Service

def captures (v : Service) : List (Option Str) :=
  [v.g1, some v.g2, some v.g3, some "._".toList, some v.g5, some ".".toList, some v.g7,
    some ".".toList, some v.g9]

/-- The text behind the instance. -/
def behind (v : Service) (rest : Str) : Str :=
  v.g2 ++ (v.g3 ++ ("._".toList ++ (v.g5 ++ (".".toList ++ (v.g7 ++ (".".toList ++ (v.g9 ++ rest)))))))

end Service

theorem exists_service {captures : List (Option Str)} {text rest : Str}
    (h : Matches servicePattern captures text rest) :
    ∃ v : Service, captures = v.captures ∧ text = v.g1.getD [] ++ v.behind rest := by
  obtain ⟨g1, captures₁, text₁, hcaptures, htext, hname, hrest⟩ : ∃ g1 captures₁ text₁,
      captures = g1 :: captures₁ ∧ text = g1.getD [] ++ text₁ ∧ (∀ l ∈ g1, NameText l) ∧
        Matches servicePattern.tail captures₁ text₁ rest := by
    cases h with
    | take htakes hrest =>
      exact ⟨_, _, _, rfl, rfl, fun l hl => Option.some.inj hl ▸ takes_name htakes, hrest⟩
    | skip _ hrest => exact ⟨none, _, _, rfl, rfl, fun l hl => absurd hl (Option.not_mem_none l), hrest⟩
  obtain ⟨g2, _, _, rfl, rfl, h2, hrest⟩ := matches_cons rfl hrest
  obtain ⟨g3, _, _, rfl, rfl, h3, hrest⟩ := matches_cons rfl hrest
  obtain ⟨g4, _, _, rfl, rfl, h4, hrest⟩ := matches_cons rfl hrest
  obtain ⟨g5, _, _, rfl, rfl, h5, hrest⟩ := matches_cons rfl hrest
  obtain ⟨g6, _, _, rfl, rfl, h6, hrest⟩ := matches_cons rfl hrest
  obtain ⟨g7, _, _, rfl, rfl, h7, hrest⟩ := matches_cons rfl hrest
  obtain ⟨g8, _, _, rfl, rfl, h8, hrest⟩ := matches_cons rfl hrest
  obtain ⟨g9, _, _, rfl, rfl, h9, hrest⟩ := matches_cons rfl hrest
  cases hrest
  obtain ⟨_, rfl, hunder⟩ := takes_char h4
  obtain ⟨_, rfl, hnil⟩ := takes_char hunder
  obtain rfl := takes_nil hnil
  obtain ⟨_, rfl, hnil⟩ := takes_char h6
  obtain rfl := takes_nil hnil
  obtain ⟨_, rfl, hnil⟩ := takes_char h8
  obtain rfl := takes_nil hnil
  have hmark : g2 = "_".toList ∨ g2 = "._".toList := by
    cases h2 with
    | @cons i items l l' hl hleast hmost rest =>
      obtain ⟨_, rfl, hnil⟩ := takes_char rest
      obtain rfl := takes_nil hnil
      have hlength : l.length ≤ 1 := hmost 1 rfl
      match l, hlength, hl with
      | [], _, _ => exact .inl rfl
      | [x], _, hl =>
        have hx : x = '.' := by simpa using hl x List.mem_cons_self
        exact .inr (hx ▸ rfl)
  obtain ⟨htop, hleast, hmost⟩ := takes_single h9
  exact ⟨⟨g1, g2, g3, g5, g7, g9, hname, hmark, takes_name h3, (takes_single h5).1, takes_name h7, htop,
    hleast, hmost 5 rfl⟩, hcaptures, htext⟩

/-! ## 4. What the filter leaves -/

section Filter

variable {u : Alnum} {l : Str} {c : Char}

theorem Alnum.all_iff : u.all l = true ↔ l ≠ [] ∧ ∀ c ∈ l, u.isalnum c = true := by
  cases l <;> simp [Alnum.all]

/-- A letter or a digit of ASCII is one. -/
theorem Alnum.of_ascii (u : Alnum) (h : c.isAlphanum = true) : u.isalnum c = true :=
  (u.ascii c (lt_of_isAlphanum h)).trans h

theorem Alnum.dot (u : Alnum) : u.isalnum '.' = false := u.ascii '.' (by decide)

theorem Alnum.underscore (u : Alnum) : u.isalnum '_' = false := u.ascii '_' (by decide)

/-- What has a mark in it is left out. -/
theorem Alnum.all_eq_false (hc : c ∈ l) (h : u.isalnum c = false) : u.all l = false := by
  refine Bool.eq_false_iff.mpr fun hall => ?_
  exact absurd ((Alnum.all_iff.mp hall).2 c hc) (by rw [h]; decide)

theorem alnumSegments_map (u : Alnum) (ls : List Str) :
    alnumSegments u (ls.map some) = .ok (ls.filter u.all) := by
  induction ls with
  | nil => rfl
  | cons l ls ih =>
    simp only [List.map_cons, alnumSegments, ih, List.filter_cons]
    rfl

theorem exists_of_alnumSegments {ls : List (Option Str)} {segments : List Str}
    (h : alnumSegments u ls = .ok segments) :
    ∃ ls' : List Str, ls = ls'.map some ∧ segments = ls'.filter u.all := by
  induction ls generalizing segments with
  | nil =>
    obtain rfl := Except.ok.inj h
    exact ⟨[], rfl, rfl⟩
  | cons o ls ih =>
    cases o with
    | none => cases h
    | some l =>
      cases hrest : alnumSegments u ls with
      | error e => simp [alnumSegments, hrest, bind, Except.bind] at h
      | ok rest =>
        obtain ⟨ls', rfl, rfl⟩ := ih hrest
        refine ⟨l :: ls', rfl, ?_⟩
        have := alnumSegments_map u (l :: ls')
        rw [List.map_cons, h] at this
        exact Except.ok.inj this

end Filter

/-- Up to the first mark two texts that are the same are the same. -/
theorem append_cons_inj {mark : Char → Prop} {l l' r r' : Str} {x x' : Char} (hl : ∀ c ∈ l, ¬ mark c)
    (hl' : ∀ c ∈ l', ¬ mark c) (hx : mark x) (hx' : mark x') (h : l ++ x :: r = l' ++ x' :: r') :
    l = l' ∧ x = x' ∧ r = r' := by
  induction l generalizing l' with
  | nil =>
    cases l' with
    | nil =>
      obtain ⟨rfl, rfl⟩ := List.cons.inj h
      exact ⟨rfl, rfl, rfl⟩
    | cons c l' =>
      obtain ⟨rfl, -⟩ := List.cons.inj h
      exact absurd hx (hl' x List.mem_cons_self)
  | cons c l ih =>
    cases l' with
    | nil =>
      obtain ⟨rfl, -⟩ := List.cons.inj h
      exact absurd hx' (hl c List.mem_cons_self)
    | cons c' l' =>
      obtain ⟨rfl, htail⟩ := List.cons.inj h
      obtain ⟨rfl, hx, hr⟩ := ih (fun c hc => hl c (List.mem_cons_of_mem _ hc))
        (fun c hc => hl' c (List.mem_cons_of_mem _ hc)) htail
      exact ⟨rfl, hx, hr⟩

/-! ## 5. Segments and back -/

/-- A name that comes back. -/
def PlainName (l : Str) : Prop := (∀ c ∈ l, c.isAlphanum = true) ∧ 1 ≤ l.length ∧ l.length ≤ 256

/-- A domain that comes back: two labels, of which the second is of two to five characters. -/
def PlainDomain (d : Str) : Prop :=
  ∃ x y, d = x ++ '.' :: y ∧ PlainName x ∧ (∀ c ∈ y, c.isAlphanum = true) ∧ 2 ≤ y.length ∧ y.length ≤ 5

/-- `f'{instance_name}._{service_name}._{domain_protocol}.{domain_name}'` -/
def join (i s p d : Str) : Str := i ++ '.' :: '_' :: (s ++ '.' :: '_' :: (p ++ '.' :: d))

section Segments

variable {u : Alnum} {i s d : Str} {p : Protocol}

theorem ne_nil_of_plain (h : PlainName i) : i ≠ [] := List.ne_nil_of_length_pos h.2.1

theorem Alnum.all_of_ascii (u : Alnum) {l : Str} (h : ∀ c ∈ l, c.isAlphanum = true) (hne : l ≠ []) :
    u.all l = true := Alnum.all_iff.mpr ⟨hne, fun c hc => u.of_ascii (h c hc)⟩

theorem protocol_alnum (u : Alnum) (p : Protocol) : u.all p.str = true := by
  have hall : p.str.all Char.isAlphanum = true := by cases p <;> decide
  exact u.all_of_ascii (List.all_eq_true.mp hall) (by cases p <;> exact List.cons_ne_nil _ _)

/-- A name before a mark is taken by its group. -/
theorem greedy_name {x : Char} {r : Str} (h : PlainName i) (hx : nameChar x = false) :
    Greedy nameGroup.items i (x :: r) := by
  have hi : ∀ c ∈ i, nameChar c = true := fun c hc => by simp [nameChar, h.1 c hc]
  exact .single hi (fun c hc => Option.some.inj hc ▸ hx) h.2.1
    fun n (hn : some 256 = some n) => Option.some.inj hn ▸ h.2.2

theorem greedy_char {c : Char} {items : List (Item Char)} {l text : Str} (h : Greedy items l text) :
    Greedy (char c :: items) (c :: l) text := by
  refine .cons (l := [c]) ?_ (Nat.le_refl 1) h
  simp [Item.longest, char]

/-- **The pattern matches a name of a service as it was made.** -/
theorem matchGroups_join (hi : PlainName i) (hs : PlainName s) (p : Protocol) (hd : PlainDomain d) :
    ∃ x y, d = x ++ '.' :: y ∧ PlainName x ∧ (∀ c ∈ y, c.isAlphanum = true) ∧ 2 ≤ y.length ∧
      matchGroups servicePattern (join i s p.str d) = some ([some i, some "._".toList, some s,
        some "._".toList, some p.str, some ".".toList, some x, some ".".toList, some y], []) := by
  obtain ⟨x, y, rfl, hx, hy, hleast, hmost⟩ := hd
  refine ⟨x, y, rfl, hx, hy, hleast, ?_⟩
  have hdot : ∀ r : Str, Greedy [char '.'] ".".toList r := fun r => greedy_char .nil
  have hunder : ∀ r : Str, Greedy [char '.', char '_'] "._".toList r :=
    fun r => greedy_char (greedy_char .nil)
  have hmark : ∀ r : Str, Greedy [⟨(· == '.'), 0, some 1⟩, char '_'] "._".toList r :=
    fun r => .cons (l := ['.']) (by simp [Item.longest]) (Nat.zero_le 1) (greedy_char .nil)
  have hprotocol : ∀ r : Str, Greedy [⟨protocolChar, 0, none⟩] p.str ('.' :: r) := by
    have hall : p.str.all protocolChar = true := by cases p <;> decide
    exact fun r => .single (List.all_eq_true.mp hall) (fun c hc => Option.some.inj hc ▸ by decide)
      (Nat.zero_le _) nofun
  have hlast : Greedy [⟨Char.isAlphanum, 2, some 5⟩] y [] :=
    .single hy nofun hleast fun n (hn : some 5 = some n) => Option.some.inj hn ▸ hmost
  have h9 : matchGroups [⟨[⟨Char.isAlphanum, 2, some 5⟩], false⟩] y = some ([some y], []) := by
    have h := @Greedy.matchGroups_eq Char ⟨_, false⟩ [] y [] [] [] hlast rfl
    rwa [List.append_nil] at h
  have h8 := @Greedy.matchGroups_eq Char ⟨_, false⟩ _ _ _ _ _ (hdot _) h9
  have h7 := @Greedy.matchGroups_eq Char nameGroup _ _ _ _ _ (greedy_name hx (by decide)) h8
  have h6 := @Greedy.matchGroups_eq Char ⟨_, false⟩ _ _ _ _ _ (hdot _) h7
  have h5 := @Greedy.matchGroups_eq Char ⟨_, false⟩ _ _ _ _ _ (hprotocol _) h6
  have h4 := @Greedy.matchGroups_eq Char ⟨_, false⟩ _ _ _ _ _ (hunder _) h5
  have h3 := @Greedy.matchGroups_eq Char nameGroup _ _ _ _ _ (greedy_name hs (by decide)) h4
  have h2 := @Greedy.matchGroups_eq Char ⟨_, false⟩ _ _ _ _ _ (hmark _) h3
  exact @Greedy.matchGroups_eq Char ⟨nameGroup.items, true⟩ _ _ _ _ _ (greedy_name hi (by decide)) h2

theorem join_ne_nil : join i s p.str d ≠ [] := by
  cases i <;> exact List.cons_ne_nil _ _

/-- **Plain names come back.** -/
theorem toSegments_of_plain (u : Alnum) (hi : PlainName i) (hs : PlainName s) (p : Protocol)
    (hd : PlainDomain d) : toSegments u (join i s p.str d) = .ok (i, s, p.str, d) := by
  obtain ⟨x, y, rfl, hx, hy, hleast, hmatch⟩ := matchGroups_join hi hs p hd
  have hall : ∀ l, PlainName l → u.all l = true :=
    fun l hl => u.all_of_ascii hl.1 (ne_nil_of_plain hl)
  have hy' : u.all y = true := u.all_of_ascii hy (List.ne_nil_of_length_pos (by omega))
  have hempty : u.all [] = false := rfl
  have hdot : u.all ['.'] = false := Alnum.all_eq_false List.mem_cons_self u.dot
  have hunder : u.all ['.', '_'] = false := Alnum.all_eq_false List.mem_cons_self u.dot
  have hsplit : Captures.split servicePattern (join i s p.str (x ++ '.' :: y)) =
      [[], i, "._".toList, s, "._".toList, p.str, ".".toList, x, ".".toList, y, []].map some := by
    rw [split_of_match hmatch join_ne_nil, splitFrom_of_none _ fun t ht hne =>
      absurd (List.suffix_nil.mp ht) hne]
    rfl
  unfold toSegments
  simp only [hmatch, hsplit, alnumSegments_map]
  have hfilter : [[], i, "._".toList, s, "._".toList, p.str, ".".toList, x, ".".toList, y, []].filter
      u.all = [i, s, p.str, x, y] := by
    simp [hall i hi, hall s hs, hall x hx, hy', hempty, hdot, hunder,
      protocol_alnum u p]
  rw [hfilter]
  simp [bind, Except.bind, pure, Except.pure, List.intercalate]

/-- Without an underscore nothing matches. -/
theorem matchGroups_of_no_underscore {t : Str} (h : '_' ∉ t) : matchGroups servicePattern t = none := by
  cases hm : matchGroups servicePattern t with
  | none => rfl
  | some m =>
    obtain ⟨v, -, rfl⟩ := exists_service (matchGroups_captures hm)
    refine absurd (List.mem_append_right _ (List.mem_append_left _ ?_)) h
    rcases v.mark with hmark | hmark <;> simp [hmark]

/-- What `to_segments` has found. -/
theorem exists_of_toSegments {url : Str} {r : Str × Str × Str × Str} (h : toSegments u url = .ok r) :
    ∃ (v : Service) (g1 rest : Str) (more pieces : List Str), v.g1 = some g1 ∧
      url = g1 ++ v.behind rest ∧ ('_' ∉ rest → more = [rest]) ∧
      ([g1, v.g2, v.g3, "._".toList, v.g5, ".".toList, v.g7, ".".toList, v.g9] ++ more).filter u.all =
        r.1 :: r.2.1 :: r.2.2.1 :: pieces ∧ r.2.2.2 = ['.'].intercalate pieces := by
  unfold toSegments at h
  split at h
  · cases h
  · next m hm =>
    obtain ⟨captures, rest⟩ := m
    obtain ⟨v, rfl, rfl⟩ := exists_service (matchGroups_captures hm)
    have hne : v.g1.getD [] ++ v.behind rest ≠ [] := by
      rcases v.mark with hmark | hmark <;> simp [Service.behind, hmark]
    rw [split_of_match hm hne] at h
    cases hsegments : alnumSegments u (some [] :: v.captures ++
        splitFrom servicePattern ((v.g1.getD [] ++ v.behind rest).length - 1) [] rest) with
    | error e =>
      rw [hsegments] at h
      cases h
    | ok segments =>
      rw [hsegments] at h
      obtain ⟨ls, hls, rfl⟩ := exists_of_alnumSegments hsegments
      -- A group without a capture is an exception.
      obtain ⟨first, ls, rfl, hfirst, hls⟩ := List.map_eq_cons_iff.mp hls.symm
      obtain ⟨groups, more, rfl, hgroups, hmore⟩ := List.map_eq_append_iff.mp hls
      obtain ⟨g1, groups, rfl, hg1, hgroups⟩ := List.map_eq_cons_iff.mp hgroups
      have hgroups' : groups = [v.g2, v.g3, "._".toList, v.g5, ".".toList, v.g7, ".".toList, v.g9] :=
        List.map_injective_iff.mpr (Option.some_injective _) hgroups
      obtain rfl := Option.some.inj hfirst
      have hempty : u.all [] = false := rfl
      rw [List.filter_cons_of_neg (by rw [hempty]; decide), hgroups'] at h
      simp only [bind, Except.bind, pure, Except.pure] at h
      split at h
      · next i s p pieces heq =>
        obtain rfl := Except.ok.inj h
        refine ⟨v, g1, rest, more, pieces, hg1.symm, by rw [← hg1]; rfl, fun hrest => ?_, heq, rfl⟩
        rw [splitFrom_of_none _ fun t ht _ =>
          matchGroups_of_no_underscore fun hmem => hrest (ht.subset hmem)] at hmore
        exact List.map_injective_iff.mpr (Option.some_injective _) hmore
      · cases h

/-- What the pattern takes for a name and the filter leaves. -/
theorem plain_of_all {l : Str} (h : NameText l) (hall : u.all l = true) : PlainName l := by
  refine ⟨fun c hc => ?_, h.2⟩
  have hchar := h.1 c hc
  rw [nameChar, Bool.or_eq_true, beq_iff_eq] at hchar
  refine hchar.resolve_right ?_
  rintro rfl
  have hyphen : u.isalnum '-' = false := u.ascii '-' (by decide)
  rw [Alnum.all_eq_false hc hyphen] at hall
  cases hall

/-- What is in joined segments. -/
theorem mem_intercalate {ls : List Str} {c : Char} (h : c ∈ ['.'].intercalate ls) :
    c = '.' ∨ ∃ l ∈ ls, c ∈ l := by
  induction ls with
  | nil => cases h
  | cons l ls ih =>
    cases ls with
    | nil =>
      rw [List.intercalate_singleton] at h
      exact .inr ⟨l, List.mem_cons_self, h⟩
    | cons l' ls =>
      rw [List.intercalate_cons_cons, List.append_assoc, List.mem_append, List.singleton_append,
        List.mem_cons] at h
      rcases h with h | h | h
      · exact .inr ⟨l, List.mem_cons_self, h⟩
      · exact .inl h
      · exact (ih h).imp_right fun ⟨l, hl, hc⟩ => ⟨l, List.mem_cons_of_mem _ hl, hc⟩

/-- A mark between the names of a service. -/
def IsMark (c : Char) : Prop := c = '.' ∨ c = '_'

theorem not_isMark_of_all {l : Str} (hl : u.all l = true) : ∀ c ∈ l, ¬ IsMark c := by
  rintro c hc (rfl | rfl)
  · rw [Alnum.all_eq_false hc u.dot] at hl
    cases hl
  · rw [Alnum.all_eq_false hc u.underscore] at hl
    cases hl

theorem NameText.not_isMark {l : Str} (hl : NameText l) : ∀ c ∈ l, ¬ IsMark c := by
  rintro c hc (rfl | rfl)
  · exact absurd (hl.1 _ hc) (by decide)
  · exact absurd (hl.1 _ hc) (by decide)

/-- Each name ends at the next mark, and what the pattern has found are the names that were joined. -/
theorem names_of_join {v : Service} {g1 rest : Str} (hi : u.all i = true) (hs : u.all s = true)
    (hg1 : NameText g1) (h : join i s p.str d = g1 ++ v.behind rest) :
    v.g2 = "._".toList ∧ i = g1 ∧ s = v.g3 ∧ p.str = v.g5 ∧ d = v.g7 ++ '.' :: (v.g9 ++ rest) := by
  obtain ⟨x, behind, hg2, hx⟩ :
      ∃ x behind, v.g2 = x :: behind ∧ IsMark x ∧ (x = '.' → behind = ['_']) := by
    rcases v.mark with hg2 | hg2
    · exact ⟨'_', [], hg2, .inr rfl, nofun⟩
    · exact ⟨'.', ['_'], hg2, .inl rfl, fun _ => rfl⟩
  rw [Service.behind, hg2, List.cons_append] at h
  obtain ⟨hname₁, rfl, h₂⟩ := append_cons_inj (not_isMark_of_all hi) hg1.not_isMark (.inl rfl) hx.1 h
  obtain rfl := hx.2 rfl
  obtain ⟨hname₃, -, h₄⟩ := append_cons_inj (not_isMark_of_all hs) v.name3.not_isMark (.inl rfl) (.inl rfl)
    (List.cons.inj h₂).2
  have hprotocol : ∀ c ∈ v.g5, ¬ c = '.' := by
    rintro c hc rfl
    exact absurd (v.protocol _ hc) (by decide)
  obtain ⟨hp, -, hdomain⟩ := append_cons_inj
    (fun c hc h => not_isMark_of_all (protocol_alnum u p) c hc (.inl h)) hprotocol rfl rfl
    (List.cons.inj h₄).2
  exact ⟨hg2, hname₁, hname₃, hp, hdomain⟩

/-- What the filter has left out is missing, and what is behind the pattern gets a dot of its own: the
domain is the joined pieces only where they are its two labels. -/
theorem whole_of_pieces {v : Service} {rest : Str} (hnine : u.all v.g9 = true)
    (h : v.g7 ++ '.' :: (v.g9 ++ rest) = ['.'].intercalate ([v.g7, v.g9, rest].filter u.all)) :
    u.all v.g7 = true ∧ rest = [] := by
  have hlength := congrArg List.length h
  have hpos := v.name7.2.1
  have hseven : u.all v.g7 = true := by
    by_contra hne
    cases hrest : u.all rest <;> simp [hne, hnine, hrest, List.intercalate] at hlength <;> omega
  refine ⟨hseven, ?_⟩
  cases hrest : u.all rest with
  | true => simp [hseven, hnine, hrest, List.intercalate] at hlength
  | false => simpa [hseven, hnine, hrest, List.intercalate] using hlength

/-- **A service comes back only with plain names.** -/
theorem plain_of_toSegments (h : toSegments u (join i s p.str d) = .ok (i, s, p.str, d)) :
    PlainName i ∧ PlainName s ∧ PlainDomain d := by
  obtain ⟨v, g1, rest, more, pieces, hg1, htext, hmore, hfilter, hd⟩ := exists_of_toSegments h
  dsimp only at hfilter hd
  have hkept : ∀ l ∈ i :: s :: p.str :: pieces, u.all l = true :=
    fun l hl => (List.mem_filter.mp (hfilter ▸ hl)).2
  have hi := hkept i (by simp)
  have hs := hkept s (by simp)
  obtain ⟨hg2, rfl, rfl, hp, hdomain⟩ := names_of_join hi hs (v.name1 g1 hg1) htext
  -- So the domain is what is left by the filter.
  have hdot : u.all ['.'] = false := Alnum.all_eq_false List.mem_cons_self u.dot
  have hunder : u.all ['.', '_'] = false := Alnum.all_eq_false List.mem_cons_self u.dot
  have hall2 : u.all v.g2 = false := Alnum.all_eq_false (hg2 ▸ List.mem_cons_self) u.dot
  have hall9 : u.all v.g9 = true :=
    u.all_of_ascii v.top (List.ne_nil_of_length_pos (Nat.lt_of_lt_of_le (by decide) v.least))
  have hpieces : pieces = ([v.g7, v.g9] ++ more).filter u.all := by
    rw [← hp] at hfilter
    simpa [List.filter_cons, hi, hs, hall2, hunder, hdot, protocol_alnum u p] using hfilter.symm
  have hno : '_' ∉ d := by
    intro hmem
    rw [hd] at hmem
    obtain ⟨l, hl, hc⟩ := (mem_intercalate hmem).resolve_left (by decide)
    exact not_isMark_of_all (hkept l (by simp [hl])) '_' hc (.inr rfl)
  have hrest : '_' ∉ rest := fun h => hno (by rw [hdomain]; simp [h])
  rw [hmore hrest] at hpieces
  obtain ⟨hall7, rfl⟩ := whole_of_pieces hall9 (hdomain.symm.trans (hpieces ▸ hd))
  refine ⟨plain_of_all (v.name1 i hg1) hi, plain_of_all v.name3 hs, v.g7, v.g9, ?_,
    plain_of_all v.name7 hall7, v.top, v.least, v.most⟩
  rw [hdomain]
  simp

end Segments

/-! ## 6. Entries and back -/

inductive Conversion
  | segments
  | record (recordType : RecordTypeName)

namespace DnsEntry

variable {ip : IpText} {u : Alnum}

/-- The entry that has come back has the names, the target, the port, the priority, the weight and the
text values. -/
structure Same (e e' : DnsEntry ip) : Prop where
  instanceName : e'.instanceName = e.instanceName
  serviceName : e'.serviceName = e.serviceName
  domainProtocol : e'.domainProtocol = e.domainProtocol
  domainName : e'.domainName = e.domainName
  domainTargets : e'.domainTargets = e.domainTargets
  domainPort : e'.domainPort = e.domainPort
  domainPriority : e'.domainPriority = e.domainPriority
  domainWeight : e'.domainWeight = e.domainWeight
  domainValues : ∀ k, e'.domainValues.get? k = e.domainValues.get? k

/-- Converting an entry and back. -/
def RoundTrips (u : Alnum) (e : DnsEntry ip) : Conversion → Prop
  | .segments => ∃ i, e.instanceName = some i ∧
      toSegments u (e.toDomain .srv) = .ok (i, e.serviceName, e.domainProtocol.str, e.domainName)
  | .record recordType => ∃ e', fromRecordData u ip (e.toDomain recordType) (e.toData recordType) =
      .ok e' ∧ e.Same e'

/-- The names of an entry are of ASCII letters and digits, and the domain is of two labels. -/
def Plain (e : DnsEntry ip) : Prop :=
  ∃ i, e.instanceName = some i ∧ PlainName i ∧ PlainName e.serviceName ∧ PlainDomain e.domainName

/-- No record but a text carries the values. -/
def NoValues (e : DnsEntry ip) : Prop := ∀ k, e.domainValues.get? k = none

/-- The entry is what a pointer can say: that its target is itself, and for the rest the defaults. -/
def PointsToItself (e : DnsEntry ip) : Prop :=
  e.domainTargets = some (.ofStr ip e.fullName) ∧ e.domainPort = none ∧ e.domainPriority = 10 ∧
    e.domainWeight = 0

/-- When an entry comes back. -/
def Holds (e : DnsEntry ip) : Conversion → Prop
  | .segments => e.Plain
  | .record .ptr => e.Plain ∧ e.PointsToItself ∧ e.NoValues
  | .record .srv => e.Plain ∧ e.domainTargets.isSome = true ∧ e.NoValues
  | .record _ => False

theorem fullName_eq {e : DnsEntry ip} {i : Str} (h : e.instanceName = some i) :
    e.fullName = join i e.serviceName e.domainProtocol.str e.domainName := by
  simp [fullName, format, h, join]

/-- The name of a record is longer than the domain in it. -/
theorem fullName_ne (e : DnsEntry ip) : e.fullName ≠ e.domainName := by
  intro h
  have hlength := congrArg List.length h
  simp [fullName] at hlength
  omega

theorem toSegments_iff (u : Alnum) {e : DnsEntry ip} {i : Str} (h : e.instanceName = some i) :
    toSegments u e.fullName = .ok (i, e.serviceName, e.domainProtocol.str, e.domainName) ↔ e.Plain := by
  rw [fullName_eq h]
  constructor
  · exact fun hsegments => ⟨i, h, plain_of_toSegments hsegments⟩
  · rintro ⟨i', hi', hplain, hs, hd⟩
    obtain rfl := Option.some.inj (hi'.symm.trans h)
    exact toSegments_of_plain u hplain hs e.domainProtocol hd

theorem ofStr_str (p : Protocol) : Protocol.ofStr p.str = .ok p := by
  cases p <;> rfl

theorem str_of_ofStr {l : Str} {p : Protocol} (h : Protocol.ofStr l = .ok p) : p.str = l := by
  unfold Protocol.ofStr at h
  split at h
  · next hl => exact Except.ok.inj h ▸ hl.symm
  · split at h
    · next hl => exact Except.ok.inj h ▸ hl.symm
    · cases h

/-- A target comes back from its text. -/
theorem ofStr_target (t : Target ip) : Target.ofStr ip t.str = t := by
  cases t with
  | address a =>
    unfold Target.ofStr
    split
    · next b hb => exact congrArg _ (Option.some.inj (hb.symm.trans (ip.parse_str a)))
    · next hnone => exact absurd ((ip.parse_str a).symm.trans hnone) nofun
  | text l h =>
    unfold Target.ofStr
    split
    · next b hb => exact absurd (hb.symm.trans h) nofun
    · rfl

section Validated

variable {segments : Str × Str × Str × Str} {domainName : Str} {priority weight : Int}
  {port : Option Int} {target : Option Str} {values : Dict Str Str} {recordType : RecordType}
  {e' : DnsEntry ip}

/-- What has been validated. -/
theorem validated_spec (h : validated segments domainName priority weight port target values recordType =
    .ok e') : ∃ p l, Protocol.ofStr segments.2.2.1 = .ok p ∧ target = some l ∧
      e' = ⟨some segments.1, segments.2.1, p, domainName, priority, weight, port, values,
        some (.ofStr ip l), some recordType⟩ := by
  unfold validated at h
  cases hp : Protocol.ofStr segments.2.2.1 with
  | error err => simp [hp, bind, Except.bind] at h
  | ok p =>
    cases target with
    | none => simp [hp, bind, Except.bind] at h
    | some l =>
      simp [hp, bind, Except.bind, pure, Except.pure] at h
      exact ⟨p, l, rfl, rfl, h.symm⟩

end Validated

/-- What a record says of the entry besides its names, where the domain does come back. -/
def Carries (e e' : DnsEntry ip) (t : RecordTypeName) : Prop :=
  t = .ptr ∧ e'.domainTargets = some (.ofStr ip e.fullName) ∧ e'.domainPort = none ∧
      e'.domainPriority = 10 ∧ e'.domainWeight = 0 ∧ e'.domainValues = Dict.empty ∨
    t = .srv ∧ e.domainTargets.isSome = true ∧ e'.domainValues = Dict.empty

/-- The names of an entry that has come back, and the domain that stands for its own. -/
theorem fromRecordData_spec {e e' : DnsEntry ip} {t : RecordTypeName}
    (h : fromRecordData u ip (e.toDomain t) (e.toData t) = .ok e') : ∃ segments,
      toSegments u e.fullName = .ok segments ∧ e'.instanceName = some segments.1 ∧
      e'.serviceName = segments.2.1 ∧ e'.domainProtocol.str = segments.2.2.1 ∧
      (e'.domainName = segments.2.2.2 ∧ e.Carries e' t ∨ e'.domainName = e.fullName) := by
  cases hsegments : toSegments u e.fullName with
  | error err => cases t <;> simp [fromRecordData, toDomain, toData, hsegments, bind, Except.bind] at h
  | ok segments =>
    refine ⟨segments, rfl, ?_⟩
    cases t with
    | a | aaaa | cname =>
      simp [fromRecordData, toDomain, toData, hsegments, bind, Except.bind] at h
      obtain ⟨p, l, hp, -, rfl⟩ := validated_spec h
      exact ⟨rfl, rfl, str_of_ofStr hp, .inr rfl⟩
    | ptr =>
      simp [fromRecordData, toData, hsegments, bind, Except.bind] at h
      obtain ⟨p, l, hp, hl, rfl⟩ := validated_spec h
      obtain rfl := Option.some.inj hl
      exact ⟨rfl, rfl, str_of_ofStr hp, .inl ⟨rfl, .inl ⟨rfl, rfl, rfl, rfl, rfl, rfl⟩⟩⟩
    | srv =>
      simp [fromRecordData, toDomain, toData, hsegments, bind, Except.bind] at h
      obtain ⟨p, l, hp, hl, rfl⟩ := validated_spec h
      have htarget : e.domainTargets.isSome = true := by
        rw [← Option.isSome_map (f := Target.str), hl]
        rfl
      exact ⟨rfl, rfl, str_of_ofStr hp, .inl ⟨rfl, .inr ⟨rfl, htarget, rfl⟩⟩⟩
    | txt =>
      simp only [fromRecordData, toDomain, toData, hsegments, bind, Except.bind, reduceCtorEq,
        if_false] at h
      split at h
      · cases h
      · obtain ⟨p, l, hp, -, rfl⟩ := validated_spec h
        exact ⟨rfl, rfl, str_of_ofStr hp, .inr rfl⟩

/-- An entry that has come back has plain names, and what its record carries is all of it. -/
theorem holds_of_roundTrips {e : DnsEntry ip} {t : RecordTypeName} (h : RoundTrips u e (.record t)) :
    Holds e (.record t) := by
  obtain ⟨e', hrun, hsame⟩ := h
  obtain ⟨⟨i, s, p, d⟩, hsegments, hi, hs, hp, hdomain⟩ := fromRecordData_spec hrun
  rw [hsame.domainName] at hdomain
  obtain ⟨hd, hcarries⟩ := hdomain.resolve_right fun h => e.fullName_ne h.symm
  rw [hsame.instanceName] at hi
  rw [hsame.serviceName] at hs
  rw [hsame.domainProtocol] at hp
  have hplain : e.Plain := by
    refine (toSegments_iff u hi).mp ?_
    rw [hsegments, hs, hp, hd]
  have hvalues : e'.domainValues = Dict.empty → e.NoValues := by
    intro hempty k
    rw [← hsame.domainValues, hempty, Dict.get?_empty]
  obtain ⟨rfl, htarget, hport, hpriority, hweight, hempty⟩ | ⟨rfl, htarget, hempty⟩ := hcarries
  · exact ⟨hplain, ⟨hsame.domainTargets ▸ htarget, hsame.domainPort ▸ hport,
      hsame.domainPriority ▸ hpriority, hsame.domainWeight ▸ hweight⟩, hvalues hempty⟩
  · exact ⟨hplain, htarget, hvalues hempty⟩

/-- **What comes back, and from which conversion.** -/
theorem parses_back_iff (u : Alnum) (e : DnsEntry ip) (k : Conversion) : RoundTrips u e k ↔ Holds e k := by
  cases k with
  | segments =>
    refine ⟨fun ⟨i, hi, h⟩ => (toSegments_iff u hi).mp h, fun h => ?_⟩
    obtain ⟨i, hi, -⟩ := id h
    exact ⟨i, hi, (toSegments_iff u hi).mpr h⟩
  | record t =>
    refine ⟨holds_of_roundTrips, fun h => ?_⟩
    cases t with
    | a | aaaa | cname | txt => exact h.elim
    | ptr =>
      obtain ⟨hplain, ⟨htarget, hport, hpriority, hweight⟩, hvalues⟩ := h
      obtain ⟨i, hi, -⟩ := id hplain
      have hsegments := (toSegments_iff u hi).mpr hplain
      refine ⟨⟨some i, e.serviceName, e.domainProtocol, e.domainName, 10, 0, none, Dict.empty,
        some (.ofStr ip e.fullName), some .ptr⟩, ?_, hi.symm, rfl, rfl, rfl, htarget.symm, hport.symm,
        hpriority.symm, hweight.symm, fun k => (hvalues k).symm⟩
      simp [fromRecordData, toData, hsegments, validated, ofStr_str, bind, Except.bind, pure, Except.pure]
    | srv =>
      obtain ⟨hplain, hsome, hvalues⟩ := h
      obtain ⟨i, hi, -⟩ := id hplain
      have hsegments := (toSegments_iff u hi).mpr hplain
      obtain ⟨target, htarget⟩ := Option.isSome_iff_exists.mp hsome
      refine ⟨⟨some i, e.serviceName, e.domainProtocol, e.domainName, e.domainPriority, e.domainWeight,
        e.domainPort, Dict.empty, some target, some .srv⟩, ?_, hi.symm, rfl, rfl, rfl, htarget.symm, rfl,
        rfl, rfl, fun k => (hvalues k).symm⟩
      simp [fromRecordData, toDomain, toData, hsegments, validated, ofStr_str, htarget, ofStr_target, bind,
        Except.bind, pure, Except.pure]

/-- An instance with a hyphen is left out, and the service comes in its place; and with a value that has
an equals sign in it a text is not read. -/
theorem not_roundTrips :
    let u : Alnum := ⟨Char.isAlphanum, fun _ _ => rfl⟩
    let ip : IpText := ⟨Empty, fun _ => none, Empty.elim, fun a => a.elim⟩
    let e : DnsEntry ip := ⟨some "a-1".toList, "web".toList, .tcp, "example.org".toList, 10, 0, some 80,
      Dict.empty, some (.text "host".toList rfl), none⟩
    let e' : DnsEntry ip := { e with
      instanceName := some "a1".toList
      domainValues := Dict.empty.set "k".toList "x=y".toList }
    toSegments u (e.toDomain .srv) =
        .ok ("web".toList, "tcp".toList, "example".toList, "org".toList) ∧
      ¬ RoundTrips u e .segments ∧ ¬ RoundTrips u e' (.record .txt) := by
  intro u ip e e'
  have hsegments : toSegments u (e.toDomain .srv) =
      .ok ("web".toList, "tcp".toList, "example".toList, "org".toList) := by decide +kernel
  have hfails : (fromRecordData u ip (e'.toDomain .txt) (e'.toData .txt)).isOk = false := by
    decide +kernel
  refine ⟨hsegments, ?_, ?_⟩
  · rintro ⟨i, -, h⟩
    have hservice : "tcp".toList = "web".toList :=
      congrArg (fun r => r.2.1) (Except.ok.inj (hsegments.symm.trans h))
    exact absurd hservice (by decide)
  · rintro ⟨e'', h, -⟩
    rw [h] at hfails
    cases hfails

end DnsEntry

end Entries
end Dns
end Hedra
