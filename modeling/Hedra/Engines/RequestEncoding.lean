/-
# The encoding of HTTP/1 requests

An action is encoded by `setup` (`core/engines/types/http/action.py`), which keeps what it has
encoded until the data or the headers are assigned.  What the client writes is a request by the
grammar, with the action's method, target, headers and body, under a list of conditions: an empty
path is written as it is, parameters lose their semicolon or are left out, bytes are not encoded at
all and iterators cannot be, and an assignment may leave a length or the mark of a stream behind
that belongs to the data before it.

* `target_eq`: the written target is the URL's (`core/engines/types/common/url.py`) only without
  parameters;
* `framed_iff`: how what is written is framed;
* `sends_iff`: which actions are sent as requests, after any setups and assignments.
-/
import Hedra.Lib.HttpGrammar
import Hedra.Lib.Utf8

namespace Hedra
namespace Engines
namespace RequestEncoding

open Lib HttpGrammar Utf8

abbrev Str := List Char

/-- `NEW_LINE` -/
def newLine : Str := ['\r', '\n']

/-! ## 1. The action -/

/-- The results of `json.dumps`, `urlencode` and the codec `idna`, where they do not raise. -/
structure Codecs (V T : Type) where
  dumps : List (Str × V) → Option Str
  urlencode : List T → Option Str
  idna : Str → Option Str
  /-- The codec brings no line ends in. -/
  idna_line : ∀ s r, 10 ∉ encode s → idna s = some r → 10 ∉ encode r

/-- The data of an action; an iterator is what it still yields. -/
inductive Data (V T : Type) where
  | none
  | text (s : Str)
  | bytes (b : Bytes)
  | mapping (items : List (Str × V))
  | tuple (items : List T)
  | iterator (chunks : List Bytes)

/-- What `urlparse` makes of a URL.  It has taken the line ends out. -/
structure Parsed where
  scheme : Str
  hostname : Option Str
  path : Str
  params : Str
  query : Str
  hostname_line : ∀ h, hostname = some h → 10 ∉ encode h

structure URL where
  parsed : Parsed
  port : ℕ

/-- `URL.path` -/
def URL.path (url : URL) : Str :=
  let urlPath := url.parsed.path
  let urlQuery := url.parsed.query
  let urlParams := url.parsed.params
  -- never both
  let urlPath := if urlPath ≠ [] ∧ urlPath.length = 0 then ['/'] else urlPath
  if urlQuery ≠ [] ∧ urlQuery.length > 0 then urlPath ++ '?' :: urlQuery
  else if urlParams ≠ [] ∧ urlParams.length > 0 then urlPath ++ urlParams
  else urlPath

/-- `encoded_data` -/
inductive Encoded where
  | bytes (b : Bytes)
  | chunks (cs : List Bytes)

structure HTTPAction (V T : Type) where
  method : Str
  url : URL
  headerItems : List (Str × Str)
  data : Data V T
  encodedData : Option Encoded
  encodedHeaders : Option Bytes
  isStream : Bool

variable {V T : Type}

/-- `if self._data` -/
def Data.truthy : Data V T → Bool
  | .none => false
  | .text s => s ≠ []
  | .bytes b => b ≠ []
  | .mapping items => !items.isEmpty
  | .tuple items => !items.isEmpty
  | .iterator _ => true

namespace HTTPAction

/-- `__init__` -/
def new (method : Str) (url : URL) (headers : List (Str × Str)) (data : Data V T) :
    HTTPAction V T where
  method := method
  url := url
  headerItems := headers
  data := data
  encodedData := none
  encodedHeaders := none
  isStream := false

/-- `size`, a property that cannot be assigned. -/
def size (a : HTTPAction V T) : ℕ :=
  match a.encodedData with
  | none => 0
  | some (.bytes b) => b.length
  | some (.chunks cs) => cs.length

/-- `data.setter` -/
def setData (a : HTTPAction V T) (value : Data V T) : HTTPAction V T :=
  { a with data := value, encodedData := none }

/-- `headers.setter` -/
def setHeaders (a : HTTPAction V T) (value : List (Str × Str)) : HTTPAction V T :=
  { a with headerItems := value, encodedHeaders := none }

variable (codecs : Codecs V T)

/-- `_setup_data`, which is false when it raises. -/
def setupData (a : HTTPAction V T) : HTTPAction V T × Bool :=
  if a.data.truthy then
    match a.data with
    | .iterator [] => ({ a with isStream := true, encodedData := some (.chunks []) }, true)
    -- `self.size += len(encoded_chunk)` raises with the first chunk
    | .iterator (_ :: chunks) => ({ a with data := .iterator chunks }, false)
    | .mapping items =>
      match codecs.dumps items with
      | none => (a, false)
      | some s => ({ a with encodedData := some (.bytes (encode s)) }, true)
    | .tuple items =>
      match codecs.urlencode items with
      | none => (a, false)
      | some s => ({ a with encodedData := some (.bytes (encode s)) }, true)
    | .text s => ({ a with encodedData := some (.bytes (encode s)) }, true)
    -- bytes are of none of these types
    | _ => (a, true)
  else (a, true)

/-- `f"{key}: {value}{NEW_LINE}"` -/
def headerLine (item : Str × Str) : Str := item.1 ++ ':' :: ' ' :: (item.2 ++ newLine)

/-- The name that the `HOST` header gives. -/
def hostname (url : URL) : Option Str :=
  let port := if url.port ≠ 0 then url.port
    else if url.parsed.scheme = "https".toList then 443 else 80
  match url.parsed.hostname with
  | none => none
  | some h =>
    (codecs.idna h).map fun hostname =>
      if port = 80 ∨ port = 443 then hostname else hostname ++ ':' :: Numerals.decimal port

/-- The headers that come before the action's own. -/
def ownItems (hostname : Str) (size : ℕ) : List (Str × Str) :=
  [("HOST".toList, hostname), ("User-Agent".toList, "mercury-http".toList),
    ("Keep-Alive".toList, "timeout=60, max=100000".toList),
    ("Content-Length".toList, Numerals.decimal size)]

/-- `encoded_headers` for data of that size. -/
def head (a : HTTPAction V T) (size : ℕ) : Option Bytes :=
  (hostname codecs a.url).map fun hostname =>
    let getBase := a.method ++ ' ' :: (a.url.path ++ " HTTP/1.1".toList ++ newLine)
    let getBase := getBase ++ (ownItems hostname size ++ a.headerItems).flatMap headerLine
    encode (getBase ++ newLine)

/-- `_setup_headers` -/
def setupHeaders (a : HTTPAction V T) : HTTPAction V T × Bool :=
  match head codecs a a.size with
  | none => (a, false)
  | some h => ({ a with encodedHeaders := some h }, true)

/-- `setup` -/
def setup (a : HTTPAction V T) : HTTPAction V T × Bool :=
  let r := if a.encodedData.isNone then setupData codecs a else (a, true)
  if r.2 then
    if r.1.encodedHeaders.isNone then setupHeaders codecs r.1 else r
  else r

/-- What `execute_prepared_request` writes, unless it raises. -/
def written (a : HTTPAction V T) : Option Bytes :=
  match a.encodedHeaders with
  | none => none
  | some h =>
    match a.encodedData with
    | none | some (.bytes []) | some (.chunks []) => some h
    -- `write_chunks` takes one argument and is called with two
    | some (.bytes (b :: bs)) => if a.isStream then none else some (h ++ b :: bs)
    | some (.chunks (_ :: _)) => none

end HTTPAction

/-! ## 2. Runs -/

inductive Event (V T : Type) where
  | setup
  | data (value : Data V T)
  | headers (value : List (Str × Str))

def step (codecs : Codecs V T) (a : HTTPAction V T) : Event V T → HTTPAction V T
  | .setup => (a.setup codecs).1
  | .data value => a.setData value
  | .headers value => a.setHeaders value

/-- An action after some of its setups and assignments. -/
def run (codecs : Codecs V T) (a : HTTPAction V T) (events : List (Event V T)) : HTTPAction V T :=
  events.foldl (step codecs) a

variable (codecs : Codecs V T)

/-- The body that the data stands for. -/
def Data.body : Data V T → Bytes
  | .none => []
  | .text s => encode s
  | .bytes b => b
  | .mapping items => if items.isEmpty then [] else ((codecs.dumps items).map encode).getD []
  | .tuple items => if items.isEmpty then [] else ((codecs.urlencode items).map encode).getD []
  | .iterator chunks => chunks.flatten

/-- The data can be encoded: it is no bytes, yields nothing, and is one that the codecs take. -/
def Data.Encodes : Data V T → Prop
  | .none | .text _ => True
  | .bytes b => b = []
  | .mapping items => items.isEmpty ∨ (codecs.dumps items).isSome
  | .tuple items => items.isEmpty ∨ (codecs.urlencode items).isSome
  | .iterator chunks => chunks = []

/-- The path of a URL, of which the parameters are a part. -/
def Parsed.fullPath (p : Parsed) : Str :=
  if p.params = [] then p.path else p.path ++ ';' :: p.params

def Parsed.queryText (p : Parsed) : Option Bytes :=
  if p.query = [] then none else some (encode p.query)

def encodeItem (item : Str × Str) : Bytes × Bytes := (encode item.1, encode item.2)

/-- The action is set up, and what is written then is one request, which is the action's. -/
def Sends (a : HTTPAction V T) : Prop :=
  (a.setup codecs).2 = true ∧
    ∃ text r, (a.setup codecs).1.written = some text ∧ Nonempty (Parse text r) ∧
      r.method = encode a.method ∧
      (a.url.parsed.fullPath ≠ [] → r.path = encode a.url.parsed.fullPath) ∧
      r.query = a.url.parsed.queryText ∧
      (∃ own, r.fields = own ++ a.headerItems.map encodeItem) ∧
      r.body = a.data.body codecs

/-- When it is. -/
structure Sendable (a : HTTPAction V T) : Prop where
  method : isToken (encode a.method)
  form : OriginForm (encode a.url.parsed.path) a.url.parsed.queryText
  params : a.url.parsed.params = []
  host : ∃ h, HTTPAction.hostname codecs a.url = some h ∧ isContent (encode h)
  headers : ∀ item ∈ a.headerItems, isToken (encode item.1) ∧ FieldValue (encode item.2)
  coding : valuesOf transferEncoding (a.headerItems.map encodeItem) = []
  length : ∀ v ∈ valuesOf contentLength (a.headerItems.map encodeItem),
    Numerals.Numeral 10 v ∧ Numerals.value 10 0 v = (a.data.body codecs).length
  data : a.data.Encodes codecs
  /-- Headers that are kept give the length of the present data. -/
  kept : a.encodedHeaders = none ∨
    a.encodedHeaders = HTTPAction.head codecs a (a.data.body codecs).length
  /-- The action was no stream before, unless there is nothing to write. -/
  stream : a.isStream = true → a.data.body codecs = []

/-! ## 3. What a setup leaves -/

/-- What is kept belongs to the data, and to the headers with some length. -/
structure Kept (a : HTTPAction V T) : Prop where
  data : ∀ e, a.encodedData = some e → a.data.Encodes codecs ∧
    (e = .bytes (a.data.body codecs) ∨ e = .chunks [] ∧ a.data.body codecs = [])
  headers : ∀ h, a.encodedHeaders = some h → ∃ n, HTTPAction.head codecs a n = some h

/-- `encoded_data` is that of the data. -/
def Holds (body : Bytes) (e : Option Encoded) : Prop :=
  e = none ∧ body = [] ∨ e = some (.bytes body) ∨ e = some (.chunks []) ∧ body = []

/-- `_setup_data` of data that can be encoded. -/
theorem setupData_of_encodes {a : HTTPAction V T} (hnone : a.encodedData = none)
    (h : a.data.Encodes codecs) :
    ∃ e s, a.setupData codecs = ({ a with encodedData := e, isStream := s }, true) ∧
      Holds (a.data.body codecs) e ∧ (a.data.body codecs ≠ [] → s = a.isStream) := by
  obtain ⟨method, url, headers, data, e, hd, s⟩ := a
  obtain rfl : e = none := hnone
  cases data with
  | none => exact ⟨none, s, rfl, .inl ⟨rfl, rfl⟩, fun _ => rfl⟩
  | text t =>
    cases t with
    | nil => exact ⟨none, s, rfl, .inl ⟨rfl, rfl⟩, fun _ => rfl⟩
    | cons c t => exact ⟨_, s, rfl, .inr (.inl rfl), fun _ => rfl⟩
  | bytes b =>
    obtain rfl : b = [] := h
    exact ⟨none, s, rfl, .inl ⟨rfl, rfl⟩, fun _ => rfl⟩
  | mapping items =>
    cases items with
    | nil => exact ⟨none, s, rfl, .inl ⟨rfl, rfl⟩, fun _ => rfl⟩
    | cons item items =>
      obtain ⟨t, ht⟩ := Option.isSome_iff_exists.mp (h.resolve_left Bool.false_ne_true)
      refine ⟨some (.bytes (encode t)), s, ?_, .inr (.inl ?_), fun _ => rfl⟩
      · simp [HTTPAction.setupData, Data.truthy, ht]
      · simp [Data.body, ht]
  | tuple items =>
    cases items with
    | nil => exact ⟨none, s, rfl, .inl ⟨rfl, rfl⟩, fun _ => rfl⟩
    | cons item items =>
      obtain ⟨t, ht⟩ := Option.isSome_iff_exists.mp (h.resolve_left Bool.false_ne_true)
      refine ⟨some (.bytes (encode t)), s, ?_, .inr (.inl ?_), fun _ => rfl⟩
      · simp [HTTPAction.setupData, Data.truthy, ht]
      · simp [Data.body, ht]
  | iterator cs =>
    obtain rfl : cs = [] := h
    exact ⟨_, true, rfl, .inr (.inr ⟨rfl, rfl⟩), fun hne => absurd rfl hne⟩

/-- Other data makes `_setup_data` raise, or is bytes, which it passes over. -/
theorem setupData_of_not_encodes {a : HTTPAction V T} (h : ¬a.data.Encodes codecs) :
    (∃ data, a.setupData codecs = ({ a with data := data }, false)) ∨
      a.setupData codecs = (a, true) ∧ a.data.body codecs ≠ [] := by
  obtain ⟨method, url, headers, data, e, hd, s⟩ := a
  cases data with
  | none => exact absurd trivial h
  | text t => exact absurd trivial h
  | bytes b =>
    cases b with
    | nil => exact absurd rfl h
    | cons b bs => exact .inr ⟨rfl, List.cons_ne_nil _ _⟩
  | mapping items =>
    refine .inl ⟨.mapping items, ?_⟩
    have h' : ¬(items.isEmpty ∨ (codecs.dumps items).isSome) := h
    rw [not_or, Bool.not_eq_true, Option.not_isSome_iff_eq_none] at h'
    simp [HTTPAction.setupData, Data.truthy, h'.1, h'.2]
  | tuple items =>
    refine .inl ⟨.tuple items, ?_⟩
    have h' : ¬(items.isEmpty ∨ (codecs.urlencode items).isSome) := h
    rw [not_or, Bool.not_eq_true, Option.not_isSome_iff_eq_none] at h'
    simp [HTTPAction.setupData, Data.truthy, h'.1, h'.2]
  | iterator cs =>
    cases cs with
    | nil => exact absurd rfl h
    | cons c cs => exact .inl ⟨_, rfl⟩

theorem Kept.holds {a : HTTPAction V T} (hk : Kept codecs a) {e : Encoded}
    (he : a.encodedData = some e) : Holds (a.data.body codecs) (some e) := by
  rcases (hk.data e he).2 with rfl | ⟨rfl, hbody⟩
  · exact .inr (.inl rfl)
  · exact .inr (.inr ⟨rfl, hbody⟩)

/-- The first part of `setup`. -/
def encodeData (a : HTTPAction V T) : HTTPAction V T × Bool :=
  if a.encodedData.isNone then a.setupData codecs else (a, true)

theorem encodeData_of_encodes {a : HTTPAction V T} (hk : Kept codecs a)
    (h : a.data.Encodes codecs) :
    ∃ e s, encodeData codecs a = ({ a with encodedData := e, isStream := s }, true) ∧
      Holds (a.data.body codecs) e ∧ (a.data.body codecs ≠ [] → s = a.isStream) := by
  cases he : a.encodedData with
  | none =>
    obtain ⟨e, s, hset, hrest⟩ := setupData_of_encodes codecs he h
    exact ⟨e, s, by rw [encodeData, if_pos (by simp [he]), hset], hrest⟩
  | some e =>
    refine ⟨some e, a.isStream, ?_, hk.holds codecs he, fun _ => rfl⟩
    rw [encodeData, if_neg (by simp [he]), ← he]

theorem encodeData_of_not_encodes {a : HTTPAction V T} (hk : Kept codecs a)
    (h : ¬a.data.Encodes codecs) :
    a.encodedData = none ∧ ((∃ data, encodeData codecs a = ({ a with data := data }, false)) ∨
      encodeData codecs a = (a, true) ∧ a.data.body codecs ≠ []) := by
  have he : a.encodedData = none := by
    cases he : a.encodedData with
    | none => rfl
    | some e => exact absurd (hk.data e he).1 h
  refine ⟨he, ?_⟩
  rw [encodeData, if_pos (by simp [he])]
  exact setupData_of_not_encodes codecs h

theorem kept_encodeData {a : HTTPAction V T} (hk : Kept codecs a) :
    Kept codecs (encodeData codecs a).1 := by
  by_cases h : a.data.Encodes codecs
  · obtain ⟨e, s, hset, hholds, -⟩ := encodeData_of_encodes codecs hk h
    rw [hset]
    refine ⟨fun e' he' => ⟨h, ?_⟩, hk.headers⟩
    obtain rfl : e = some e' := he'
    rcases hholds with ⟨hnone, -⟩ | hbytes | ⟨hchunks, hbody⟩
    · cases hnone
    · exact .inl (Option.some.inj hbytes)
    · exact .inr ⟨Option.some.inj hchunks, hbody⟩
  · obtain ⟨he, ⟨data, hset⟩ | ⟨hset, -⟩⟩ := encodeData_of_not_encodes codecs hk h
    · rw [hset]
      refine ⟨fun e' he' => ?_, hk.headers⟩
      rw [show a.encodedData = some e' from he'] at he
      cases he
    · rw [hset]
      exact hk

theorem kept_setupHeaders {a : HTTPAction V T} (hk : Kept codecs a) :
    Kept codecs (a.setupHeaders codecs).1 := by
  rw [HTTPAction.setupHeaders]
  split
  · exact hk
  · next h hh =>
    refine ⟨hk.data, fun h' hh' => ⟨a.size, ?_⟩⟩
    obtain rfl := Option.some.inj hh'
    exact hh

theorem setup_eq (a : HTTPAction V T) :
    a.setup codecs =
      if (encodeData codecs a).2 = true ∧ (encodeData codecs a).1.encodedHeaders = none then
        (encodeData codecs a).1.setupHeaders codecs
      else encodeData codecs a := by
  rw [HTTPAction.setup, ← encodeData]
  cases h : (encodeData codecs a).2 with
  | false => simp
  | true =>
    cases hh : (encodeData codecs a).1.encodedHeaders <;> simp

theorem kept_run (a : HTTPAction V T) (hk : Kept codecs a) (events : List (Event V T)) :
    Kept codecs (run codecs a events) := by
  induction events generalizing a with
  | nil => exact hk
  | cons event events ih =>
    rw [run, List.foldl_cons, ← run]
    refine ih _ ?_
    cases event with
    | setup =>
      rw [step, setup_eq]
      split
      · exact kept_setupHeaders codecs (kept_encodeData codecs hk)
      · exact kept_encodeData codecs hk
    | data value => exact ⟨fun e he => (nomatch he), hk.headers⟩
    | headers value => exact ⟨hk.data, fun h hh => (nomatch hh)⟩

theorem kept_new (method : Str) (url : URL) (headers : List (Str × Str)) (data : Data V T) :
    Kept codecs (HTTPAction.new method url headers data) :=
  ⟨fun _ h => (nomatch h), fun _ h => (nomatch h)⟩

/-! ## 4. What is written -/

/-- The head that a setup leaves for data that can be encoded. -/
def outgoing (a : HTTPAction V T) : Option Bytes :=
  if a.encodedHeaders = none then HTTPAction.head codecs a (a.data.body codecs).length
  else a.encodedHeaders

theorem size_of_holds {a : HTTPAction V T} (h : Holds (a.data.body codecs) a.encodedData) :
    a.size = (a.data.body codecs).length := by
  rw [HTTPAction.size]
  rcases h with ⟨he, hbody⟩ | he | ⟨he, hbody⟩ <;> simp [*]

theorem written_of_holds {a : HTTPAction V T} (h : Holds (a.data.body codecs) a.encodedData)
    {hd : Bytes} (hh : a.encodedHeaders = some hd) (text : Bytes) :
    a.written = some text ↔
      text = hd ++ a.data.body codecs ∧ (a.isStream = true → a.data.body codecs = []) := by
  rw [HTTPAction.written, hh]
  generalize a.data.body codecs = body at h
  have hempty : some hd = some text ↔ text = hd ++ [] ∧ (a.isStream = true → [] = ([] : Bytes)) := by
    rw [List.append_nil]
    exact ⟨fun h => ⟨(Option.some.inj h).symm, fun _ => rfl⟩, fun h => by rw [h.1]⟩
  rcases h with ⟨he, rfl⟩ | he | ⟨he, rfl⟩
  · rw [he]
    exact hempty
  · rw [he]
    cases body with
    | nil => exact hempty
    | cons b bs =>
      cases hs : a.isStream with
      | false =>
        exact ⟨fun h => ⟨(Option.some.inj h).symm, fun h => (nomatch h)⟩, fun h => by rw [h.1]; rfl⟩
      | true => simp
  · rw [he]
    exact hempty

/-- **What is written of data that can be encoded.** -/
theorem writes_of_encodes {a : HTTPAction V T} (hk : Kept codecs a) (h : a.data.Encodes codecs)
    (text : Bytes) :
    (a.setup codecs).2 = true ∧ (a.setup codecs).1.written = some text ↔
      ∃ hd, outgoing codecs a = some hd ∧ text = hd ++ a.data.body codecs ∧
        (a.isStream = true → a.data.body codecs = []) := by
  obtain ⟨e, s, hset, hholds, hs⟩ := encodeData_of_encodes codecs hk h
  have hstream : (s = true → a.data.body codecs = []) ↔
      (a.isStream = true → a.data.body codecs = []) := by
    by_cases hbody : a.data.body codecs = []
    · simp [hbody]
    · rw [hs hbody]
  have hhead : ∀ n, HTTPAction.head codecs { a with encodedData := e, isStream := s } n =
      HTTPAction.head codecs a n := fun _ => rfl
  rw [setup_eq, hset, outgoing]
  by_cases hh : a.encodedHeaders = none
  · rw [if_pos ⟨rfl, hh⟩, if_pos hh, HTTPAction.setupHeaders, hhead,
      size_of_holds (a := { a with encodedData := e, isStream := s }) codecs hholds]
    cases HTTPAction.head codecs a (a.data.body codecs).length with
    | none => simp
    | some hd =>
      simp only [true_and, Option.some.injEq, exists_eq_left']
      rw [← hstream]
      exact written_of_holds codecs hholds rfl text
  · rw [if_neg fun h => hh h.2, if_neg hh]
    obtain ⟨hd, hhd⟩ := Option.ne_none_iff_exists'.mp hh
    simp only [true_and, hhd, Option.some.injEq, exists_eq_left']
    rw [← hstream]
    exact written_of_holds codecs hholds rfl text

theorem head_of_outgoing {a : HTTPAction V T} (hk : Kept codecs a) {hd : Bytes}
    (h : outgoing codecs a = some hd) : ∃ n, HTTPAction.head codecs a n = some hd := by
  rw [outgoing] at h
  split at h
  · exact ⟨_, h⟩
  · exact hk.headers hd h

theorem written_of_none {a : HTTPAction V T} (h : a.encodedData = none) :
    a.written = a.encodedHeaders := by
  rw [HTTPAction.written, h]
  cases a.encodedHeaders <;> rfl

/-- Of other data, which is bytes, nothing is written behind the head. -/
theorem writes_of_not_encodes {a : HTTPAction V T} (hk : Kept codecs a)
    (h : ¬a.data.Encodes codecs) {text : Bytes} (hset : (a.setup codecs).2 = true)
    (hw : (a.setup codecs).1.written = some text) :
    a.data.body codecs ≠ [] ∧ ∃ n, HTTPAction.head codecs a n = some text := by
  obtain ⟨he, ⟨data, hdata⟩ | ⟨hdata, hbody⟩⟩ := encodeData_of_not_encodes codecs hk h
  · rw [setup_eq, hdata] at hset
    simp at hset
  · refine ⟨hbody, ?_⟩
    rw [setup_eq, hdata] at hset hw
    by_cases hh : a.encodedHeaders = none
    · rw [if_pos ⟨rfl, hh⟩, HTTPAction.setupHeaders] at hset hw
      cases hhead : HTTPAction.head codecs a a.size with
      | none =>
        rw [hhead] at hset
        cases hset
      | some hd =>
        rw [hhead] at hw
        have hnone : ({ a with encodedHeaders := some hd } : HTTPAction V T).encodedData = none := he
        exact ⟨_, hhead.trans ((written_of_none hnone).symm.trans hw)⟩
    · rw [if_neg fun h => hh h.2, written_of_none he] at hw
      exact hk.headers _ hw

/-! ## 5. The head by the grammar -/

def fieldLine (item : Str × Str) : Bytes :=
  encode item.1 ++ 58 :: (32 :: encode item.2 ++ crlf)

theorem encode_headerLine (item : Str × Str) :
    encode (HTTPAction.headerLine item) = fieldLine item := by
  rw [HTTPAction.headerLine, encode_append, encode_cons, encode_cons, encode_append, fieldLine]
  rfl

/-- The bytes of a head. -/
theorem head_eq (a : HTTPAction V T) (n : ℕ) :
    HTTPAction.head codecs a n = (HTTPAction.hostname codecs a.url).map fun hostname =>
      encode a.method ++ 32 :: (encode a.url.path ++ 32 :: (HttpGrammar.Request.version ++ crlf ++
        ((HTTPAction.ownItems hostname n ++ a.headerItems).flatMap fieldLine ++ crlf))) := by
  rw [HTTPAction.head]
  cases HTTPAction.hostname codecs a.url with
  | none => rfl
  | some hostname =>
    have hflat : ∀ items : List (Str × Str),
        encode (items.flatMap HTTPAction.headerLine) = items.flatMap fieldLine := fun items => by
      induction items with
      | nil => rfl
      | cons item items ih =>
        rw [List.flatMap_cons, List.flatMap_cons, encode_append, encode_headerLine, ih]
    have hspace : String.utf8EncodeChar ' ' = [32] := by decide
    have hversion : encode " HTTP/1.1".toList = 32 :: HttpGrammar.Request.version := by decide
    have hline : encode newLine = crlf := by decide
    simp only [Option.map_some, encode_append, encode_cons, hflat, hspace, hversion, hline,
      List.append_assoc, List.cons_append, List.nil_append, List.flatMap_append]

theorem URL.path_eq (url : URL) :
    url.path = url.parsed.path ++
      (if url.parsed.query ≠ [] then '?' :: url.parsed.query else url.parsed.params) := by
  have hpath : (if url.parsed.path ≠ [] ∧ url.parsed.path.length = 0 then ['/'] else url.parsed.path) =
      url.parsed.path := if_neg fun h => h.1 (List.length_eq_zero_iff.mp h.2)
  rw [URL.path]
  simp only [hpath, List.length_pos_iff, and_self]
  by_cases hquery : url.parsed.query = []
  · by_cases hparams : url.parsed.params = [] <;> simp [hquery, hparams]
  · simp [hquery]

theorem not_mem_target {r : HttpGrammar.Request} (hform : OriginForm r.path r.query) :
    32 ∉ r.target := by
  have hpath : 32 ∉ r.path := not_mem_of_uriChars (by decide) hform.path
  rw [HttpGrammar.Request.target]
  split
  · exact hpath
  · next q hq =>
    have hquery : 32 ∉ q := not_mem_of_uriChars (by decide) (hform.query q hq)
    simp [hpath, hquery]

/-- **The written target is the URL's only without parameters.** -/
theorem target_eq {url : URL} {r : HttpGrammar.Request} (hform : OriginForm r.path r.query)
    (hpath : url.parsed.fullPath ≠ [] → r.path = encode url.parsed.fullPath)
    (hquery : r.query = url.parsed.queryText) {x y : Bytes}
    (h : encode url.path ++ 32 :: x = r.target ++ 32 :: y) :
    url.parsed.params = [] ∧ r.path = encode url.parsed.path ∧ x = y := by
  have hmark : String.utf8EncodeChar '?' = [63] := by decide
  have hsemi : String.utf8EncodeChar ';' = [59] := by decide
  have htarget : r.target = r.path ++
      (if url.parsed.query ≠ [] then 63 :: encode url.parsed.query else []) := by
    rw [HttpGrammar.Request.target, hquery, Parsed.queryText]
    by_cases hq : url.parsed.query = [] <;> simp [hq]
  have hno := not_mem_target hform
  rw [URL.path_eq, encode_append] at h
  by_cases hfull : url.parsed.fullPath = []
  · -- what is written for no path does not begin with a slash
    obtain ⟨hparams, hnil⟩ : url.parsed.params = [] ∧ url.parsed.path = [] := by
      rw [Parsed.fullPath] at hfull
      split at hfull
      · next hp => exact ⟨hp, hfull⟩
      · simp at hfull
    have hslash := hform.slash
    have hhead := congrArg List.head? h
    rw [htarget] at hhead
    cases hp : r.path with
    | nil => rw [hp] at hslash; cases hslash
    | cons b path =>
      rw [hp] at hslash hhead
      obtain rfl := Option.some.inj hslash
      rw [hnil, hparams] at hhead
      by_cases hq : url.parsed.query = []
      · simp [hq, encode] at hhead
      · simp [hq, hmark, encode] at hhead
  · have hp := hpath hfull
    have hfullPath : encode url.parsed.fullPath = encode url.parsed.path ++
        (if url.parsed.params = [] then [] else 59 :: encode url.parsed.params) := by
      rw [Parsed.fullPath]
      split
      · rw [List.append_nil]
      · rw [encode_append, encode_cons, hsemi]
        rfl
    rw [htarget, hp, hfullPath] at hno h
    have hwritten : 32 ∉ encode url.parsed.path ++ encode
        (if url.parsed.query ≠ [] then '?' :: url.parsed.query else url.parsed.params) := by
      by_cases hq : url.parsed.query = [] <;> by_cases hps : url.parsed.params = []
      all_goals
        simp only [hq, hps, ne_eq, not_true_eq_false, not_false_eq_true, if_true, if_false,
          List.append_nil, List.mem_append, List.mem_cons, not_or, encode_cons, hmark] at hno ⊢
      · exact ⟨hno, List.not_mem_nil⟩
      · exact ⟨hno.1, hno.2.2⟩
      · exact ⟨hno.1, by decide, hno.2.2⟩
      · exact ⟨hno.1.1, by decide, hno.2.2⟩
    obtain ⟨heq, hrest⟩ := @Lines.eq_of_append _ 32 _ _ _ _ _ (Lines.Line.of_not_mem hwritten)
      (Lines.Line.of_not_mem hno) (by simpa using h)
    have hlen := congrArg List.length (List.append_cancel_right heq)
    have hparams : url.parsed.params = [] := by
      by_contra hps
      by_cases hq : url.parsed.query = []
      · simp [hq, hps] at hlen
      · simp [hq, hps, encode_cons, hmark] at hlen
        omega
    refine ⟨hparams, ?_, hrest⟩
    rw [hp, hfullPath, if_pos hparams, List.append_nil]

/-- Without parameters the target is written as it is. -/
theorem target_of_params {url : URL} (h : url.parsed.params = []) {r : HttpGrammar.Request}
    (hpath : r.path = encode url.parsed.path) (hquery : r.query = url.parsed.queryText) :
    r.target = encode url.path := by
  have hmark : String.utf8EncodeChar '?' = [63] := by decide
  rw [HttpGrammar.Request.target, hquery, hpath, URL.path_eq, h, encode_append, Parsed.queryText]
  by_cases hq : url.parsed.query = []
  · simp [hq, encode]
  · simp [hq, encode_cons, hmark]

/-! ## 6. The headers by the grammar -/

/-- A header as it is read. -/
def contentItem (item : Str × Str) : Bytes × Bytes := (encode item.1, trim (encode item.2))

theorem trim_cons (s : Bytes) : trim (32 :: s) = trim s := rfl

theorem isContent_cons (s : Bytes) : isContent (32 :: s) = isContent s := rfl

theorem exists_fields {items : List (Str × Str)}
    (h : ∀ item ∈ items, isToken (encode item.1) ∧ isContent (encode item.2)) :
    ∃ fs : List Field, fs.flatMap Field.encoded = items.flatMap fieldLine ∧
      fs.map Field.item = items.map contentItem := by
  induction items with
  | nil => exact ⟨[], rfl, rfl⟩
  | cons item items ih =>
    obtain ⟨fs, hfs, hitems⟩ := ih fun i hi => h i (List.mem_cons_of_mem _ hi)
    obtain ⟨hname, hcontent⟩ := h item List.mem_cons_self
    obtain ⟨f, hf, hitem⟩ := @exists_field _ (32 :: encode item.2) hname hcontent
    refine ⟨f :: fs, ?_, ?_⟩
    · rw [List.flatMap_cons, List.flatMap_cons, hfs, hf, fieldLine]
    · rw [List.map_cons, List.map_cons, hitems, hitem, trim_cons, contentItem]

theorem visible_of_digit {b : UInt8} (h : 48 ≤ b.toNat ∧ b.toNat ≤ 57) :
    isFieldVchar b = true ∧ isBlank b = false := by
  simp only [isFieldVchar, isBlank, UInt8.le_iff_toNat_le, ← UInt8.toNat_inj, ne_eq,
    decide_eq_true_eq, decide_eq_false_iff_not]
  simp
  omega

theorem fieldValue_decimal (n : ℕ) : FieldValue (encode (Numerals.decimal n)) := by
  have hdigit : ∀ b ∈ encode (Numerals.decimal n), isFieldVchar b = true ∧ isBlank b = false := by
    intro b hb
    rw [Numerals.encode_of_isDigit fun _ => Numerals.isDigit_of_mem_decimal] at hb
    obtain ⟨c, hc, rfl⟩ := List.mem_map.mp hb
    have hc := Lib.Ascii.isDigit_iff.mp (Numerals.isDigit_of_mem_decimal hc)
    refine visible_of_digit ?_
    rw [toNat_byte (by omega)]
    exact hc
  refine ⟨List.all_eq_true.mpr fun b hb => ?_, fun b hb => ?_, fun b hb => ?_⟩
  · rw [(hdigit b hb).1, Bool.true_or]
  · exact (hdigit b (List.mem_of_head? hb)).2
  · exact (hdigit b (List.mem_of_getLast? hb)).2

theorem ownItems_ok {host : Str} (hhost : isContent (encode host)) (n : ℕ) :
    ∀ item ∈ HTTPAction.ownItems host n, isToken (encode item.1) ∧ isContent (encode item.2) := by
  intro item hitem
  simp only [HTTPAction.ownItems, List.mem_cons, List.not_mem_nil, or_false] at hitem
  rcases hitem with rfl | rfl | rfl | rfl
  · have hname : isToken (encode "HOST".toList) := by decide
    exact ⟨hname, hhost⟩
  · exact ⟨by decide, by decide⟩
  · exact ⟨by decide, by decide⟩
  · have hname : isToken (encode "Content-Length".toList) := by decide
    exact ⟨hname, (fieldValue_decimal n).content⟩

theorem items_ok {host : Str} (hhost : isContent (encode host)) (n : ℕ) {items : List (Str × Str)}
    (h : ∀ item ∈ items, isToken (encode item.1) ∧ FieldValue (encode item.2)) :
    ∀ item ∈ HTTPAction.ownItems host n ++ items,
      isToken (encode item.1) ∧ isContent (encode item.2) := by
  intro item hitem
  rcases List.mem_append.mp hitem with hitem | hitem
  · exact ownItems_ok hhost n item hitem
  · exact ⟨(h item hitem).1, (h item hitem).2.content⟩

theorem encode_host : encode "HOST".toList = [72, 79, 83, 84] := by decide

/-- The first header is a line, whatever the host is. -/
theorem line_host {host : Str} (h : 10 ∉ encode host) :
    Lines.Line 10 (fieldLine ("HOST".toList, host)) := by
  have hline : fieldLine ("HOST".toList, host) =
      ([72, 79, 83, 84, 58, 32] ++ (encode host ++ [13])) ++ [10] := by
    rw [fieldLine, encode_host]
    simp [crlf]
  rw [hline]
  refine .of_not_mem ?_
  simp [h]

theorem hostname_line {url : URL} {host : Str} (h : HTTPAction.hostname codecs url = some host) :
    10 ∉ encode host := by
  simp only [HTTPAction.hostname] at h
  generalize (if url.port ≠ 0 then url.port else _ : ℕ) = port at h
  split at h
  · cases h
  · next name hname =>
    obtain ⟨ascii, hascii, rfl⟩ := Option.map_eq_some_iff.mp h
    have hline := codecs.idna_line name ascii (url.parsed.hostname_line name hname) hascii
    split
    · exact hline
    · have hcolon : 10 ∉ String.utf8EncodeChar ':' := by decide
      have hport := not_mem_of_isContent (fieldValue_decimal port).content
      rw [encode_append, encode_cons]
      simp only [List.mem_append, not_or]
      exact ⟨hline, hcolon, hport⟩

/-- When the first header is one by the grammar, the host is its content. -/
theorem content_of_line {host : Str} (hline : 10 ∉ encode host) {fs : List Field} {x y : Bytes}
    (h : fieldLine ("HOST".toList, host) ++ x = fs.flatMap Field.encoded ++ (crlf ++ y)) :
    isContent (encode host) := by
  cases fs with
  | nil =>
    rw [fieldLine, encode_host] at h
    simp [crlf] at h
  | cons f fs =>
    rw [List.flatMap_cons, List.append_assoc] at h
    have hf := (Lines.eq_of_append (line_host hline) f.line h).1
    have hname : 58 ∉ encode "HOST".toList := by decide
    have hsplit : (encode "HOST".toList ++ [58]) ++ (32 :: encode host ++ crlf) =
        (f.name ++ [58]) ++ (f.content ++ crlf) := by
      simpa [fieldLine, Field.encoded] using hf
    have hcontent := (Lines.eq_of_append (Lines.Line.of_not_mem hname)
      (Lines.Line.of_not_mem (not_mem_of_isToken f.token).2.2) hsplit).2
    rw [← isContent_cons, List.append_cancel_right hcontent]
    exact f.content_isContent

/-- What a parse of a head and of what is behind it says. -/
theorem of_parse {a : HTTPAction V T} {n : ℕ} {hd w : Bytes} {r : HttpGrammar.Request}
    (hhead : HTTPAction.head codecs a n = some hd) (p : Parse (hd ++ w) r)
    (hmethod : r.method = encode a.method)
    (hpath : a.url.parsed.fullPath ≠ [] → r.path = encode a.url.parsed.fullPath)
    (hquery : r.query = a.url.parsed.queryText)
    (hfields : ∃ own, r.fields = own ++ a.headerItems.map encodeItem) :
    a.url.parsed.params = [] ∧ OriginForm (encode a.url.parsed.path) a.url.parsed.queryText ∧
      (∀ item ∈ a.headerItems, isToken (encode item.1) ∧ FieldValue (encode item.2)) ∧
      p.rest = w ∧ ∃ host, HTTPAction.hostname codecs a.url = some host ∧ isContent (encode host) ∧
        r.fields = (HTTPAction.ownItems host n ++ a.headerItems).map contentItem := by
  rw [head_eq] at hhead
  obtain ⟨host, hhost, rfl⟩ := Option.map_eq_some_iff.mp hhead
  have htext := p.text_eq
  rw [HttpGrammar.Request.line, hmethod] at htext
  simp only [List.append_assoc, List.cons_append] at htext
  have htarget := (List.cons.inj (List.append_cancel_left htext)).2
  obtain ⟨hparams, hpath', hrest⟩ := target_eq p.form hpath hquery htarget
  have hrest := List.append_cancel_left (List.append_cancel_left hrest)
  have hform := p.form
  rw [hpath', hquery] at hform
  have hheaders : ∀ item ∈ a.headerItems, isToken (encode item.1) ∧ FieldValue (encode item.2) := by
    intro item hitem
    obtain ⟨own, hown⟩ := hfields
    have hmem : encodeItem item ∈ p.fields.map Field.item := by
      rw [p.fields_eq, hown]
      exact List.mem_append_right _ (List.mem_map_of_mem hitem)
    obtain ⟨f, -, hf⟩ := List.mem_map.mp hmem
    obtain ⟨hname, hvalue⟩ := Prod.mk.inj hf
    rw [← hname, ← hvalue]
    exact ⟨f.token, f.fieldValue⟩
  have hline := hostname_line codecs hhost
  have hcontent : isContent (encode host) := by
    refine @content_of_line _ hline p.fields
      ((HTTPAction.ownItems host n ++ a.headerItems).tail.flatMap fieldLine ++ (crlf ++ w)) p.rest ?_
    rw [← List.append_assoc, ← List.flatMap_cons]
    exact hrest
  obtain ⟨fs, hfs, hitems⟩ := exists_fields (items_ok hcontent n hheaders)
  obtain ⟨hread, hw⟩ :=
    HttpGrammar.fields_eq ((congrArg (· ++ (crlf ++ w)) hfs).trans hrest)
  refine ⟨hparams, hform, hheaders, hw.symm, host, hhost, hcontent, ?_⟩
  rw [← p.fields_eq, ← hread, hitems]

/-! ## 7. The framing -/

theorem valuesOf_append (name : Bytes) (l l' : List (Bytes × Bytes)) :
    valuesOf name (l ++ l') = valuesOf name l ++ valuesOf name l' := by
  rw [valuesOf, valuesOf, valuesOf, List.filter_append, List.map_append]

theorem map_contentItem {items : List (Str × Str)}
    (h : ∀ item ∈ items, isToken (encode item.1) ∧ FieldValue (encode item.2)) :
    items.map contentItem = items.map encodeItem :=
  List.map_congr_left fun item hi => by
    rw [contentItem, encodeItem, trim_of_fieldValue (h item hi).2]

theorem codings_eq (host : Str) (n : ℕ) {items : List (Str × Str)}
    (h : ∀ item ∈ items, isToken (encode item.1) ∧ FieldValue (encode item.2)) :
    valuesOf transferEncoding ((HTTPAction.ownItems host n ++ items).map contentItem) =
      valuesOf transferEncoding (items.map encodeItem) := by
  rw [List.map_append, valuesOf_append, map_contentItem h]
  rfl

theorem lengths_eq (host : Str) (n : ℕ) {items : List (Str × Str)}
    (h : ∀ item ∈ items, isToken (encode item.1) ∧ FieldValue (encode item.2)) :
    valuesOf contentLength ((HTTPAction.ownItems host n ++ items).map contentItem) =
      encode (Numerals.decimal n) :: valuesOf contentLength (items.map encodeItem) := by
  have hhost : lower (encode "HOST".toList) ≠ contentLength := by decide
  have hagent : lower (encode "User-Agent".toList) ≠ contentLength := by decide
  have halive : lower (encode "Keep-Alive".toList) ≠ contentLength := by decide
  have hlength : lower (encode "Content-Length".toList) = contentLength := by decide
  have hown : valuesOf contentLength ((HTTPAction.ownItems host n).map contentItem) =
      [trim (encode (Numerals.decimal n))] := by
    simp only [valuesOf, HTTPAction.ownItems, contentItem, List.map_cons, List.map_nil,
      List.filter_cons, List.filter_nil, hhost, hagent, halive, hlength, decide_true, decide_false,
      Bool.false_eq_true, if_true, if_false]
  rw [List.map_append, valuesOf_append, map_contentItem h, hown,
    trim_of_fieldValue (fieldValue_decimal n), List.singleton_append]

/-- **How what is written is framed**, when it is the body or nothing. -/
theorem framed_iff (host : Str) (n : ℕ) {items : List (Str × Str)}
    (h : ∀ item ∈ items, isToken (encode item.1) ∧ FieldValue (encode item.2)) {w body : Bytes}
    (hw : w = body ∨ w = []) :
    Framed ((HTTPAction.ownItems host n ++ items).map contentItem) w body ↔
      w = body ∧ n = body.length ∧ valuesOf transferEncoding (items.map encodeItem) = [] ∧
        ∀ v ∈ valuesOf contentLength (items.map encodeItem),
          Numerals.Numeral 10 v ∧ Numerals.value 10 0 v = body.length := by
  have hcodings := codings_eq host n h
  have hlengths := lengths_eq host n h
  constructor
  · intro hframed
    cases hframed with
    | empty hcoding hlength =>
      rw [hlengths] at hlength
      cases hlength
    | length hcoding hlength hvalue =>
      rw [hcodings] at hcoding
      rw [hlengths] at hvalue
      have hn := (hvalue _ List.mem_cons_self).2
      rw [(Numerals.numeral_decimal n).2] at hn
      exact ⟨rfl, hn, hcoding, fun v hv => hvalue v (List.mem_cons_of_mem _ hv)⟩
    | chunked c hcoding hv =>
      -- a coded body is longer than the body, and never empty
      have hlt := c.length_lt
      rcases hw with hw | hw
      · rw [hw] at hlt
        exact absurd hlt (lt_irrefl _)
      · rw [hw] at hlt
        exact absurd hlt (Nat.not_lt_zero _)
  · rintro ⟨rfl, rfl, hcoding, hvalue⟩
    refine .length (hcodings.trans hcoding) (by rw [hlengths]; exact List.cons_ne_nil _ _) ?_
    rw [hlengths]
    intro v hv
    rcases List.mem_cons.mp hv with rfl | hv
    · exact Numerals.numeral_decimal _
    · exact hvalue v hv

/-! ## 8. Every action -/

/-- The request that is sent for an action. -/
def requestOf (a : HTTPAction V T) (host : Str) : HttpGrammar.Request where
  method := encode a.method
  path := encode a.url.parsed.path
  query := a.url.parsed.queryText
  fields := (HTTPAction.ownItems host (a.data.body codecs).length ++ a.headerItems).map contentItem
  body := a.data.body codecs

/-- What is written for an action that can be sent is its request. -/
theorem parse_requestOf {a : HTTPAction V T} (hs : Sendable codecs a) {host : Str}
    (hcontent : isContent (encode host)) :
    Nonempty (Parse (encode a.method ++ 32 :: (encode a.url.path ++ 32 ::
      (HttpGrammar.Request.version ++ crlf ++
        ((HTTPAction.ownItems host (a.data.body codecs).length ++ a.headerItems).flatMap fieldLine ++
          crlf))) ++ a.data.body codecs) (requestOf codecs a host)) := by
  obtain ⟨fs, hfs, hitems⟩ :=
    exists_fields (items_ok hcontent (a.data.body codecs).length hs.headers)
  have htarget : (requestOf codecs a host).target = encode a.url.path :=
    target_of_params hs.params rfl rfl
  refine ⟨⟨fs, a.data.body codecs, ?_, hitems, hs.method, hs.form, ?_⟩⟩
  · rw [hfs, HttpGrammar.Request.line, htarget]
    simp only [List.append_assoc, List.cons_append]
    rfl
  · exact (framed_iff host _ hs.headers (.inl rfl)).mpr ⟨rfl, rfl, hs.coding, hs.length⟩

/-- Which actions are sent, of those whose headers and data are kept as setups leave them. -/
theorem sends_iff_of_kept {a : HTTPAction V T} (hk : Kept codecs a) :
    Sends codecs a ↔ Sendable codecs a := by
  constructor
  · rintro ⟨hset, text, r, hw, ⟨p⟩, hmethod, hpath, hquery, hfields, hbody⟩
    by_cases h : a.data.Encodes codecs
    · obtain ⟨hd, hout, rfl, hstream⟩ := (writes_of_encodes codecs hk h text).mp ⟨hset, hw⟩
      obtain ⟨n, hn⟩ := head_of_outgoing codecs hk hout
      obtain ⟨hparams, hform, hheaders, hrest, host, hhost, hcontent, hread⟩ :=
        of_parse codecs hn p hmethod hpath hquery hfields
      have hframed := p.framed
      rw [hread, hrest, hbody, framed_iff host n hheaders (.inl rfl)] at hframed
      obtain ⟨-, rfl, hcoding, hlength⟩ := hframed
      refine ⟨hmethod ▸ p.token, hform, hparams, ⟨host, hhost, hcontent⟩, hheaders, hcoding, hlength,
        h, ?_, hstream⟩
      rw [outgoing] at hout
      split at hout
      · next hnone => exact .inl hnone
      · exact .inr (hout.trans hn.symm)
    · obtain ⟨hne, n, hn⟩ := writes_of_not_encodes codecs hk h hset hw
      obtain ⟨p⟩ : Nonempty (Parse (text ++ []) r) := by
        rw [List.append_nil]
        exact ⟨p⟩
      obtain ⟨-, -, hheaders, hrest, host, -, -, hread⟩ :=
        of_parse codecs hn p hmethod hpath hquery hfields
      have hframed := p.framed
      rw [hread, hrest, hbody, framed_iff host n hheaders (.inr rfl)] at hframed
      exact absurd hframed.1.symm hne
  · intro hs
    obtain ⟨host, hhost, hcontent⟩ := hs.host
    have hout : outgoing codecs a = HTTPAction.head codecs a (a.data.body codecs).length := by
      rw [outgoing]
      split
      · rfl
      · next hne => exact hs.kept.resolve_left hne
    have hhead := head_eq codecs a (a.data.body codecs).length
    rw [hhost, Option.map_some] at hhead
    obtain ⟨hset, hw⟩ := (writes_of_encodes codecs hk hs.data _).mpr
      ⟨_, hout.trans hhead, rfl, hs.stream⟩
    exact ⟨hset, _, requestOf codecs a host, hw, parse_requestOf codecs hs hcontent, rfl,
      fun _ => congrArg encode (if_pos hs.params).symm, rfl,
      ⟨_, by rw [requestOf, List.map_append, map_contentItem hs.headers]⟩, rfl⟩

/-- **Which actions the client sends as requests**, after any setups and assignments. -/
theorem sends_iff (codecs : Codecs V T) (method : Str) (url : URL) (headers : List (Str × Str))
    (data : Data V T) (events : List (Event V T)) :
    Sends codecs (run codecs (HTTPAction.new method url headers data) events) ↔
      Sendable codecs (run codecs (HTTPAction.new method url headers data) events) :=
  sends_iff_of_kept codecs (kept_run codecs _ (kept_new codecs method url headers data) events)

def asciiCodecs : Codecs Unit Unit where
  dumps _ := some "{}".toList
  urlencode _ := some []
  idna := some
  idna_line := fun s r h heq => by
    obtain rfl := Option.some.inj heq
    exact h

/-- `http://localhost` -/
def localhost : URL where
  parsed := {
    scheme := "http".toList
    hostname := some "localhost".toList
    path := []
    params := []
    query := []
    hostname_line := fun h heq => by
      obtain rfl := Option.some.inj heq
      decide }
  port := 80

theorem not_sends : ¬∀ (method : Str) (url : URL) (headers : List (Str × Str))
    (data : Data Unit Unit) (events : List (Event Unit Unit)),
    Sends asciiCodecs (run asciiCodecs (HTTPAction.new method url headers data) events) := by
  intro h
  have hsends := h "GET".toList localhost [] .none []
  have hslash := ((sends_iff_of_kept asciiCodecs (kept_new _ _ _ _ _)).mp hsends).form.slash
  cases hslash

end RequestEncoding
end Engines
end Hedra
