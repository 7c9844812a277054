/-
# HTTP messages as text

Requests and responses (`models/http/http_request.py`, `http_message.py`) are joined from lines, and
read back by splitting at line ends, spaces and colons.  Texts are lists of characters, and so are
their UTF-8 bytes: a line end or a space is found in the bytes where it is in the text.

`data` of a message is an `Optional[Union[Json, StrictStr]]`.  But `typing` keeps the unions that it
has made, and takes two of them for equal whose members differ in their order: by the time that the
module is imported, the validators of actions (`data/parsers`) have made an
`Optional[Union[StrictStr, Json]]`, and this is what the model gets.  So a text stays the text that it
is, `Json` is only tried on bytes, and values and models are refused (`validateData`).

What a request or a response says is read back where it has none of the separators.  Main result:
`messages_kept_iff`, an equivalence for every request and for every response.

* `clean_of_splitColon`: what is read of a line has no separator in it;
* `requestKept_iff`: which requests come through, and `responseKept_of_clean` with
  `clean_of_responseKept` which responses;
* `messages_kept_iff`: both, for every message.
-/
import Mathlib.Data.List.DropRight
import Hedra.Lib.Ascii
import Hedra.Lib.Dict
import Hedra.Lib.Separated

namespace Hedra
namespace Http

open Lib Separated Ascii

abbrev Str := List Char

def crlf : Str := ['\r', '\n']

/-- `data.split(b'\r\n')` -/
def splitLines (data : Str) : List Str := split '\r' '\n' data

/-- There is no line end in it. -/
abbrev OneLine (s : Str) : Prop := Whole '\r' '\n' s

/-- `str.isspace`, of one character. -/
def isSpace (c : Char) : Bool :=
  c.toNat ∈ [9, 10, 11, 12, 13, 28, 29, 30, 31, 32, 133, 160, 5760, 8192, 8193, 8194, 8195, 8196,
    8197, 8198, 8199, 8200, 8201, 8202, 8232, 8233, 8239, 8287, 12288]

/-- The whitespace of `bytes.strip`. -/
def isByteSpace (c : Char) : Bool := c.toNat ∈ [9, 10, 11, 12, 13, 32]

def strip (space : Char → Bool) (s : Str) : Str := (s.dropWhile space).rdropWhile space

/-- One line, with nothing to strip. -/
structure Plain (s : Str) : Prop where
  oneLine : OneLine s
  stripped : strip isByteSpace s = s

/-- `f'{n}'` -/
def natStr (n : Nat) : Str := n.repr.toList

def intStr : ℤ → Str
  | .ofNat n => natStr n
  | .negSucc n => '-' :: natStr (n + 1)

/-! ## 1. Messages -/

/-- `data` of a message, where `M` is what there is of models, and `V` what `json.loads` gives besides
texts.  `prepare_response` looks for a model, although none is let in. -/
inductive Data (V M : Type)
  | none
  | text (s : Str)
  | value (v : V)
  | message (m : M)

/-- What a message is given as its `data`. -/
inductive GivenData (V M : Type)
  | none
  | text (s : Str)
  | bytes (s : Str)
  | value (v : V)
  | message (m : M)

/-- `data` of a request. -/
inductive Body (M : Type)
  | none
  | text (s : Str)
  | message (m : M)

/-- What messages rest on, and what is known of it.  `loads` gives what is to be had of JSON, and `dumps`
is that of `to_data`, which is a mapping. -/
structure Python (V M : Type) where
  lower : Str → Str
  int : Str → Option ℤ
  str : V → Str
  truthy : V → Bool
  len : V → Option Nat
  loads : Str → Option (Data V M)
  dumps : M → Str
  lower_lower : ∀ s, lower (lower s) = lower s
  lower_eq : ∀ s, (∀ c ∈ s, c.toNat < 128 ∧ c.isUpper = false) → lower s = s
  mem_lower : ∀ s, ':' ∈ lower s → ':' ∈ s
  oneLine_lower : ∀ s, OneLine s → OneLine (lower s)
  int_intStr : ∀ n, int (intStr n) = some n
  dumps_ne_nil : ∀ m, dumps m ≠ []
  plain_dumps : ∀ m, Plain (dumps m)

inductive Method
  | get
  | post
  | head
  | options
  | put
  | patch
  | delete
deriving DecidableEq

def Method.value : Method → Str
  | get => "GET".toList
  | post => "POST".toList
  | head => "HEAD".toList
  | options => "OPTIONS".toList
  | put => "PUT".toList
  | patch => "PATCH".toList
  | delete => "DELETE".toList

/-- The method of that value, if there is one. -/
def Method.ofValue (s : Str) : Option Method :=
  [get, post, head, options, put, patch, delete].find? fun m => m.value = s

inductive HTTPRequestMethod
  | get
  | post
deriving DecidableEq

def HTTPRequestMethod.method : HTTPRequestMethod → Method
  | get => .get
  | post => .post

/-- What `urlparse` gives of an `AnyHttpUrl`: there is no whitespace in that, and the path ends before
the first question mark. -/
structure Url where
  hostname : Str
  path : Str
  params : Str := []
  query : Str := []
  hostname_space : ∀ c ∈ hostname, isSpace c = false
  path_space : ∀ c ∈ path, isSpace c = false
  path_mark : '?' ∉ path

/-- What the URL asks for: the path with its parameters and the query. -/
def Url.target (url : Url) : Str :=
  (if url.path = [] then ['/'] else url.path) ++ (if url.params = [] then [] else ';' :: url.params) ++
    if url.query = [] then [] else '?' :: url.query

structure HTTPRequest (M : Type) where
  url : Url
  method : HTTPRequestMethod
  params : Option (Dict Str Str)
  headers : Dict Str Str
  data : Body M

structure HTTPMessage (V M : Type) where
  protocol : Str := "HTTP/1.1".toList
  path : Option Str := none
  method : Option Method := none
  status : Option ℤ := none
  statusMessage : Option Str := none
  params : Dict Str Str := .empty
  headers : Dict Str Str := .empty
  data : Data V M := .none
  error : Option Str := none

/-- `TypeError` is that of `len`, `ValidationError` that of a model; the others are a `ValueError`. -/
inductive MessageError
  | typeError
  | valueError
  | validationError
deriving DecidableEq

/-! ## 2. Writing them -/

section Writing

variable {V M : Type} (py : Python V M)

/-- `f'{key}: {value}'` -/
def headerLine (key value : Str) : Str := key ++ ": ".toList ++ value

def contentLength : Str := "content-length".toList

def contentType : Str := "content-type".toList

/-- The text of the body and its length. -/
def encodeData : Data V M → Except MessageError (Str × Nat)
  | .message m => .ok (py.dumps m, (py.dumps m).length)
  | .text s => .ok (s, s.length)
  | .value v =>
    if py.truthy v then
      match py.len v with
      | some n => .ok (py.str v, n)
      | none => .error .typeError
    else .ok ([], 0)
  | .none => .ok ([], 0)

/-- The reason phrase. -/
def HTTPMessage.message (m : HTTPMessage V M) : Str :=
  match m.error with
  | some error => if error = [] then "OK".toList else error
  | none => "OK".toList

/-- `f'{status}'` -/
def statusStr : Option ℤ → Str
  | some status => intStr status
  | none => "None".toList

def HTTPMessage.prepareResponse (m : HTTPMessage V M) : Except MessageError Str := do
  let headLine := "HTTP/1.1 ".toList ++ statusStr m.status ++ [' '] ++ m.message
  let (encodedData, length) ← encodeData py m.data
  let headers := m.headers.items.foldl (fun headers i => headers ++ crlf ++ headerLine i.1 i.2)
    (headerLine contentLength (natStr length))
  pure (headLine ++ crlf ++ headers ++ crlf ++ crlf ++ encodedData)

/-- The path with the parameters.  Iterating them gives their names, and a name is unpacked into a
name and a value. -/
def pathWithParams (path : Str) : Option (Dict Str Str) → Except MessageError Str
  | none => .ok path
  | some params =>
    if params.items = [] then .ok path
    else do
      let pairs ← params.keys.mapM fun key =>
        match key with
        | [name, value] => Except.ok [name, '=', value]
        | _ => .error .valueError
      pure (path ++ ['?'] ++ ['&'].intercalate pairs)

/-- The header line that is added for the body, if any, and the body. -/
def encodeBody : Body M → List Str × Str
  | .message m => (["content-type: application/msync".toList], py.dumps m)
  | .text s => if s = [] then ([], []) else ([headerLine contentLength (natStr s.length)], s)
  | .none => ([], [])

def HTTPRequest.prepareRequest (r : HTTPRequest M) : Except MessageError Str := do
  let path ← pathWithParams r.url.path r.params
  let request := [r.method.method.value ++ [' '] ++ path ++ " HTTP/1.1".toList,
    headerLine "host".toList r.url.hostname]
  let request := request ++ r.headers.items.map fun i => headerLine i.1 i.2
  let (added, encodedData) := encodeBody py r.data
  let request := request ++ added ++ [crlf] ++ if encodedData = [] then [] else [encodedData]
  pure (crlf.intercalate request)

end Writing

/-! ## 3. Reading them -/

section Reading

variable {V M : Type} (py : Python V M)

/-- `header_line.split(':', maxsplit=1)`, into two. -/
def splitColon (line : Str) : Option (Str × Str) :=
  if ':' ∈ line then some (line.takeWhile (· ≠ ':'), (line.dropWhile (· ≠ ':')).tail) else none

def addHeader (headers : Dict Str Str) (line : Str) : Except MessageError (Dict Str Str) :=
  match splitColon line with
  | some (key, value) => .ok (headers.set (py.lower key) (strip isSpace value))
  | none => .error .valueError

/-- The headers up to the first empty line, and the lines behind it. -/
def readHeaders (headers : Dict Str Str) : List Str → Except MessageError (Dict Str Str × List Str)
  | [] => .ok (headers, [])
  | line :: lines =>
    if line = [] then .ok (headers, lines)
    else do
      let headers ← addHeader py headers line
      readHeaders headers lines

/-- What a message takes for its `data`: a text as it is, of bytes what they are as JSON. -/
def validateData : GivenData V M → Except MessageError (Data V M)
  | .none => .ok .none
  | .text s => .ok (.text s)
  | .bytes s =>
    match py.loads s with
    | some data => .ok data
    | none => .error .validationError
  | .value _ | .message _ => .error .validationError

/-- The headers and the data, of the lines behind the first one. -/
def parseLines (lines : List Str) : Except MessageError (Dict Str Str × Data V M) := do
  let (headers, rest) ← readHeaders py .empty lines
  let data ← validateData py (.text (strip isByteSpace rest.flatten))
  pure (headers, data)

def HTTPRequest.parse (data : Str) : Except MessageError (HTTPMessage V M) := do
  let response := splitLines data
  let (headers, data) ← parseLines py response.tail
  match (response.headD []).splitOn ' ' with
  | [requestType, status, message] =>
    match py.int status with
    | some status =>
      .ok { protocol := requestType, status := some status, statusMessage := some message, headers, data }
    | none => .error .valueError
  | _ => .error .valueError

def HTTPRequest.parseRequest (data : Str) : Except MessageError (HTTPMessage V M) := do
  let response := splitLines data
  let (headers, data) ← parseLines py response.tail
  match (response.headD []).splitOn ' ' with
  | [method, path, requestType] =>
    match Method.ofValue method with
    | some method =>
      .ok
        { method := some method, path := some (if path = [] then ['/'] else path)
          protocol := requestType, headers, data }
    | none => .error .validationError
  | _ => .error .valueError

end Reading

/-! ## 4. What comes through -/

section Kept

variable {V M : Type} (py : Python V M)

/-- The headers that were sent, and others only of the names that are written besides. -/
structure SameHeaders (own : List Str) (sent received : Dict Str Str) : Prop where
  kept : ∀ name value, sent.get? name = some value → received.get? name = some value
  only : ∀ name, received.get? name ≠ none → sent.get? name ≠ none ∨ name ∈ own

/-- The data to be received.  No data are the empty text, and those of a model are its JSON. -/
def Data.received : Data V M → Data V M
  | .none => .text []
  | .text s => .text s
  | .value v => .value v
  | .message m => .text (py.dumps m)

def Body.received : Body M → Data V M
  | .none => .text []
  | .text s => .text s
  | .message m => .text (py.dumps m)

/-- **The response is read back**: its status, its headers and its data. -/
def ResponseKept (m : HTTPMessage V M) : Prop :=
  ∃ text parsed, m.prepareResponse py = .ok text ∧ HTTPRequest.parse py text = .ok parsed ∧
    parsed.status = m.status ∧ SameHeaders [contentLength] m.headers parsed.headers ∧
    parsed.data = m.data.received py

/-- **The request is read back**: its method, path, parameters, headers and data. -/
def RequestKept (r : HTTPRequest M) : Prop :=
  ∃ text parsed, r.prepareRequest py = .ok text ∧ HTTPRequest.parseRequest py text = .ok parsed ∧
    parsed.method = some r.method.method ∧
    parsed.path = some r.url.target ∧
    (∀ name, parsed.params.get? name = (r.params.getD .empty).get? name) ∧
    SameHeaders ["host".toList, contentLength, contentType] r.headers parsed.headers ∧
    parsed.data = r.data.received py

/-- The name has no line end, no colon and no capitals, the value no line end and nothing to strip. -/
structure CleanHeader (name value : Str) : Prop where
  name_line : OneLine name
  name_colon : ':' ∉ name
  name_lower : py.lower name = name
  value_line : OneLine value
  value_strip : strip isSpace value = value

/-- A text is plain; a value is none, since it is read as a text. -/
def Data.Clean : Data V M → Prop
  | .none => True
  | .text s => Plain s
  | .value _ => False
  | .message _ => True

/-- What is left of a line end in the phrase are lines of headers that are written again behind it. -/
structure CleanPhrase (names : List Str) (phrase : Str) : Prop where
  space : ' ' ∉ (splitLines phrase).headD []
  lines : ∀ line ∈ (splitLines phrase).tail,
    ∃ name value, splitColon line = some (name, value) ∧ py.lower name ∈ names

structure CleanResponse (m : HTTPMessage V M) : Prop where
  status : m.status ≠ none
  phrase : CleanPhrase py (contentLength :: m.headers.keys) m.message
  headers : ∀ i ∈ m.headers.items, CleanHeader py i.1 i.2
  data : m.data.Clean

/-- Headers that are written for the body are those of it. -/
def Body.Describes (headers : Dict Str Str) : Body M → Prop
  | .none => True
  | .text s => s = [] ∨ ∀ value, headers.get? contentLength = some value → value = natStr s.length
  | .message _ =>
    ∀ value, headers.get? contentType = some value → value = "application/msync".toList

def Body.Clean : Body M → Prop
  | .none => True
  | .text s => Plain s
  | .message _ => True

structure CleanRequest (r : HTTPRequest M) : Prop where
  url : r.url.params = [] ∧ r.url.query = []
  params : ∀ params, r.params = some params → params.items = []
  headers : ∀ i ∈ r.headers.items, CleanHeader py i.1 i.2
  described : r.data.Describes r.headers
  data : r.data.Clean

end Kept

/-! ## 5. Texts -/

section Texts

variable {space : Char → Bool} {s : Str}

theorem forall_of_all {p : Char → Prop} [DecidablePred p] (h : s.all (fun c => p c) = true) :
    ∀ c ∈ s, p c := fun c hc => of_decide_eq_true (List.all_eq_true.mp h c hc)

theorem strip_isInfix (space : Char → Bool) (s : Str) : strip space s <:+: s :=
  (List.rdropWhile_prefix _ _).isInfix.trans (List.dropWhile_suffix _).isInfix

theorem strip_of_space (h : ∀ c ∈ s, space c = false) : strip space s = s := by
  have hleft : s.dropWhile space = s := by
    cases s with
    | nil => rfl
    | cons c s => exact List.dropWhile_cons_of_neg (by simp [h c List.mem_cons_self])
  unfold strip
  rw [hleft, List.rdropWhile_eq_self_iff]
  exact fun hne => by simp [h _ (List.getLast_mem hne)]

theorem strip_of_ends {c d : Char} (hc : space c = false) (hd : space d = false) (s : Str) :
    strip space (c :: s ++ [d]) = c :: s ++ [d] := by
  rw [strip, List.cons_append, List.dropWhile_cons_of_neg (by simp [hc]), ← List.cons_append]
  exact List.rdropWhile_concat_neg _ _ _ (by simp [hd])

theorem strip_cons {c : Char} (h : space c = true) (s : Str) : strip space (c :: s) = strip space s := by
  unfold strip
  rw [List.dropWhile_cons_of_pos h]

theorem strip_strip (space : Char → Bool) (s : Str) : strip space (strip space s) = strip space s := by
  have hleft : (strip space s).dropWhile space = strip space s := by
    unfold strip
    cases hstrip : (s.dropWhile space).rdropWhile space with
    | nil => rfl
    | cons c r =>
      -- it begins as what is left of the text does
      obtain ⟨u, hu⟩ := List.rdropWhile_prefix space (s.dropWhile space)
      have hdrop := List.dropWhile_idempotent space s
      rw [← hu, hstrip, List.cons_append] at hdrop
      exact List.dropWhile_cons_of_neg (List.dropWhile_eq_self_iff.mp hdrop (Nat.succ_pos _))
  rw [strip, hleft, strip, List.rdropWhile_idempotent]

theorem isDigit_of_mem_natStr {n : Nat} {c : Char} (h : c ∈ natStr n) : c.isDigit = true := by
  rw [natStr, Nat.toList_repr] at h
  exact Nat.isDigit_of_mem_toDigits (by omega) (by omega) h

theorem isSpace_of_isDigit {c : Char} (h : c.isDigit = true) : isSpace c = false := by
  have hrange := isDigit_iff.mp h
  unfold isSpace
  simp only [List.mem_cons, List.not_mem_nil, or_false, decide_eq_false_iff_not]
  omega

theorem not_mem_intStr {c : Char} (hc : c.isDigit = false) (hminus : c ≠ '-') (n : ℤ) :
    c ∉ intStr n := by
  have hdigits : ∀ n, c ∉ natStr n := fun n h => by
    rw [isDigit_of_mem_natStr h] at hc
    cases hc
  cases n with
  | ofNat n => exact hdigits n
  | negSucc n => exact fun h => (List.mem_cons.mp h).elim hminus (hdigits (n + 1))

theorem splitLines_append (l r : Str) : splitLines (l ++ crlf ++ r) = splitLines l ++ splitLines r := by
  rw [List.append_assoc]
  exact split_append (by decide) l r

theorem splitLines_intercalate {lines : List Str} (h : lines ≠ []) :
    splitLines (crlf.intercalate lines) = (lines.map splitLines).flatten :=
  split_intercalate (by decide) h

end Texts

/-! ## 6. Lines of headers -/

section Headers

variable {V M : Type} {py : Python V M} {key value line : Str} {headers headers' : Dict Str Str}
  {lines rest : List Str}

theorem headerLine_eq (key value : Str) : headerLine key value = key ++ ':' :: ' ' :: value := by
  simp [headerLine]

theorem oneLine_headerLine (hkey : OneLine key) (hvalue : OneLine value) :
    OneLine (headerLine key value) := by
  rw [headerLine_eq]
  refine hkey.append_cons ?_ (by decide) (by decide)
  exact Whole.append_cons whole_nil hvalue (by decide) (by decide)

theorem headerLine_ne_nil (key value : Str) : headerLine key value ≠ [] := by
  simp [headerLine_eq]

theorem splitColon_append (h : ':' ∉ key) (value : Str) :
    splitColon (key ++ ':' :: value) = some (key, value) := by
  have hmem : ':' ∈ key ++ ':' :: value := List.mem_append_right _ List.mem_cons_self
  have hkey : ∀ c ∈ key, decide (c ≠ ':') = true := fun c hc =>
    decide_eq_true fun heq => h (heq ▸ hc)
  rw [splitColon, if_pos hmem, List.takeWhile_append_of_pos hkey, List.dropWhile_append_of_pos hkey]
  simp

theorem splitColon_eq (h : splitColon line = some (key, value)) :
    line = key ++ ':' :: value ∧ ':' ∉ key := by
  by_cases hmem : ':' ∈ line
  · obtain ⟨k, v, rfl, hk⟩ := List.eq_append_cons_of_mem hmem
    rw [splitColon_append hk] at h
    obtain ⟨rfl, rfl⟩ := Prod.mk.inj (Option.some.inj h)
    exact ⟨rfl, hk⟩
  · rw [splitColon, if_neg hmem] at h
    cases h

theorem addHeader_headerLine (h : ':' ∉ key) (headers : Dict Str Str) (value : Str) :
    addHeader py headers (headerLine key value) =
      .ok (headers.set (py.lower key) (strip isSpace value)) := by
  rw [addHeader, headerLine_eq, splitColon_append h]
  exact congrArg (fun v => Except.ok (headers.set _ v)) (strip_cons (by decide) value)

/-- **What is read of a line is clean.** -/
theorem clean_of_splitColon (hline : OneLine line) (h : splitColon line = some (key, value)) :
    CleanHeader py (py.lower key) (strip isSpace value) := by
  obtain ⟨rfl, hcolon⟩ := splitColon_eq h
  have hkey : OneLine key := hline.of_infix (List.prefix_append _ _).isInfix
  have hvalue : OneLine value := by
    refine hline.of_infix (List.IsSuffix.isInfix ?_)
    exact (List.suffix_cons _ _).trans (List.suffix_append _ _)
  exact
    { name_line := py.oneLine_lower key hkey
      name_colon := fun hmem => hcolon (py.mem_lower key hmem)
      name_lower := py.lower_lower key
      value_line := hvalue.of_infix (strip_isInfix _ _)
      value_strip := strip_strip _ _ }

/-- So are the headers that are read. -/
theorem clean_of_readHeaders (hlines : ∀ line ∈ lines, OneLine line)
    (hclean : ∀ name v, headers.get? name = some v → CleanHeader py name v)
    (h : readHeaders py headers lines = .ok (headers', rest)) :
    ∀ name v, headers'.get? name = some v → CleanHeader py name v := by
  induction lines generalizing headers with
  | nil =>
    obtain ⟨rfl, -⟩ := Prod.mk.inj (Except.ok.inj h)
    exact hclean
  | cons line lines ih =>
    rw [readHeaders] at h
    split at h
    · obtain ⟨rfl, -⟩ := Prod.mk.inj (Except.ok.inj h)
      exact hclean
    · rw [addHeader] at h
      split at h
      case h_2 => cases h
      case h_1 key value hsplit =>
        refine ih (fun l hl => hlines l (List.mem_cons_of_mem _ hl)) (fun name v hget => ?_) h
        rw [Dict.get?_set] at hget
        split at hget
        case isTrue hname =>
          obtain rfl := Option.some.inj hget
          exact hname ▸ clean_of_splitColon (hlines line List.mem_cons_self) hsplit
        case isFalse => exact hclean name v hget

theorem clean_of_parseLines {received : Dict Str Str × Data V M} (hlines : ∀ line ∈ lines, OneLine line)
    (h : parseLines py lines = .ok received) :
    ∀ name v, received.1.get? name = some v → CleanHeader py name v := by
  unfold parseLines at h
  cases hread : readHeaders py .empty lines with
  | error e =>
    rw [hread] at h
    cases h
  | ok read =>
    rw [hread] at h
    obtain rfl := Except.ok.inj h
    refine clean_of_readHeaders hlines (fun name v hget => ?_) hread
    rw [Dict.get?_empty] at hget
    cases hget

/-- Lines before an empty one are those of headers. -/
theorem readHeaders_append (h : [] ∉ lines) (rest : List Str) :
    readHeaders py headers (lines ++ rest) =
      lines.foldlM (addHeader py) headers >>= fun headers => readHeaders py headers rest := by
  induction lines generalizing headers with
  | nil => rfl
  | cons line lines ih =>
    have hline : line ≠ [] := fun heq => h (heq ▸ List.mem_cons_self)
    rw [List.cons_append, readHeaders, if_neg hline, List.foldlM_cons]
    cases addHeader py headers line with
    | error e => rfl
    | ok headers => exact ih fun hmem => h (List.mem_cons_of_mem _ hmem)

theorem foldlM_headerLines (sent : List (Str × Str)) (h : ∀ i ∈ sent, CleanHeader py i.1 i.2) :
    (sent.map fun i => headerLine i.1 i.2).foldlM (addHeader py) headers =
      .ok (sent.foldl (fun d i => d.set i.1 i.2) headers) := by
  induction sent generalizing headers with
  | nil => rfl
  | cons i sent ih =>
    obtain ⟨hi, hsent⟩ := List.forall_mem_cons.mp h
    rw [List.map_cons, List.foldlM_cons, addHeader_headerLine hi.name_colon, hi.name_lower,
      hi.value_strip]
    exact ih hsent

end Headers

/-! ## 7. Bodies -/

section Bodies

variable {V M : Type} {py : Python V M} {s : Str} {data : Data V M}

theorem Plain.flatten_splitLines (h : Plain s) : strip isByteSpace (splitLines s).flatten = s := by
  rw [splitLines, split_of_whole h.oneLine, List.flatten_singleton]
  exact h.stripped

theorem length_strip_le (space : Char → Bool) (s : Str) : (strip space s).length ≤ s.length :=
  (strip_isInfix space s).length_le

/-- A text comes through if it is plain. -/
theorem strip_flatten_eq_iff : strip isByteSpace (splitLines s).flatten = s ↔ Plain s := by
  refine ⟨fun hs => ?_, Plain.flatten_splitLines⟩
  have hline : OneLine s := by
    by_contra hnot
    have hless : (splitLines s).flatten.length < s.length :=
      length_flatten_split_lt (by decide) hnot
    have hlength := length_strip_le isByteSpace (splitLines s).flatten
    rw [hs] at hlength
    omega
  rw [splitLines, split_of_whole hline, List.flatten_singleton] at hs
  exact ⟨hline, hs⟩

/-- **Clean data come through.** -/
theorem data_received_iff {body : Str} {n : Nat} (h : encodeData py data = .ok (body, n)) :
    .text (strip isByteSpace (splitLines body).flatten) = data.received py ↔ data.Clean := by
  cases data with
  | none =>
    obtain ⟨rfl, -⟩ := Prod.mk.inj (Except.ok.inj h)
    exact iff_of_true rfl trivial
  | text s =>
    obtain ⟨rfl, -⟩ := Prod.mk.inj (Except.ok.inj h)
    exact Data.text.injEq .. ▸ strip_flatten_eq_iff
  | message m =>
    obtain ⟨rfl, -⟩ := Prod.mk.inj (Except.ok.inj h)
    exact iff_of_true (congrArg _ (py.plain_dumps m).flatten_splitLines) trivial
  | value v => exact iff_of_false nofun id

theorem exists_encodeData (h : data.Clean) : ∃ body n, encodeData py data = .ok (body, n) := by
  cases data with
  | none => exact ⟨_, _, rfl⟩
  | text s => exact ⟨_, _, rfl⟩
  | message m => exact ⟨_, _, rfl⟩
  | value v => exact h.elim

/-- What is received is not more than what was written, in letters that are neither of a line end nor
whitespace. -/
theorem count_strip {space : Char → Bool} {c : Char} (hc : space c = false) (s : Str) :
    (strip space s).count c = s.count c := by
  have hdrop : ∀ s : Str, (s.dropWhile space).count c = s.count c := by
    intro s
    induction s with
    | nil => rfl
    | cons d s ih =>
      rw [List.dropWhile_cons]
      split
      · next hd =>
        have hne : d ≠ c := fun heq => by simp [heq, hc] at hd
        rw [ih, List.count_cons_of_ne hne]
      · rfl
  rw [strip, List.rdropWhile, List.count_reverse, hdrop, List.count_reverse, hdrop]

end Bodies

/-! ## 8. Responses -/

section Responses

variable {V M : Type} {py : Python V M} {headers headers' : Dict Str Str} {lines : List Str}

/-- Each line has a name, which is then in the headers. -/
theorem names_of_addHeaders (h : lines.foldlM (addHeader py) headers = .ok headers') :
    (∀ line ∈ lines, ∃ key value, splitColon line = some (key, value) ∧
      headers'.get? (py.lower key) ≠ none) ∧
    ∀ name, headers.get? name ≠ none → headers'.get? name ≠ none := by
  induction lines generalizing headers with
  | nil =>
    obtain rfl := Except.ok.inj h
    exact ⟨List.forall_mem_nil _, fun _ => id⟩
  | cons line lines ih =>
    rw [List.foldlM_cons, addHeader] at h
    split at h
    case h_2 => cases h
    case h_1 key value hsplit =>
      obtain ⟨hlines, hnames⟩ := ih h
      refine ⟨List.forall_mem_cons.mpr ⟨⟨key, value, hsplit, hnames _ ?_⟩, hlines⟩, fun name hname => ?_⟩
      · rw [Dict.get?_set_self]
        exact Option.some_ne_none _
      · refine hnames name ?_
        rw [Dict.get?_set]
        split
        · exact Option.some_ne_none _
        · exact hname

/-- Lines with such names are read, and give headers of these names only. -/
theorem exists_addHeaders {names : List Str}
    (h : ∀ line ∈ lines, ∃ key value, splitColon line = some (key, value) ∧ py.lower key ∈ names) :
    ∃ headers', lines.foldlM (addHeader py) headers = .ok headers' ∧
      ∀ name, headers'.get? name ≠ none → headers.get? name ≠ none ∨ name ∈ names := by
  induction lines generalizing headers with
  | nil => exact ⟨headers, rfl, fun _ => .inl⟩
  | cons line lines ih =>
    obtain ⟨⟨key, value, hsplit, hkey⟩, hlines⟩ := List.forall_mem_cons.mp h
    obtain ⟨headers', hfold, hnames⟩ := @ih (headers.set (py.lower key) (strip isSpace value)) hlines
    refine ⟨headers', ?_, fun name hname => (hnames name hname).elim (fun hset => ?_) .inr⟩
    · rw [List.foldlM_cons, addHeader, hsplit]
      exact hfold
    · rw [Dict.get?_set] at hset
      split at hset
      case isTrue heq => exact .inr (heq ▸ hkey)
      case isFalse => exact .inl hset

theorem splitLines_headers (items : List (Str × Str)) (first : Str) :
    splitLines (items.foldl (fun headers i => headers ++ crlf ++ headerLine i.1 i.2) first) =
      splitLines first ++ (items.map fun i => splitLines (headerLine i.1 i.2)).flatten := by
  induction items generalizing first with
  | nil => exact (List.append_nil _).symm
  | cons i items ih =>
    rw [List.foldl_cons, ih, splitLines_append, List.append_assoc]
    rfl

theorem splitLines_clean {items : List (Str × Str)} (h : ∀ i ∈ items, CleanHeader py i.1 i.2) :
    (items.map fun i => splitLines (headerLine i.1 i.2)).flatten =
      items.map fun i => headerLine i.1 i.2 := by
  have hlines : (items.map fun i => splitLines (headerLine i.1 i.2)) =
      items.map fun i => [headerLine i.1 i.2] :=
    List.map_congr_left fun i hi =>
      split_of_whole (oneLine_headerLine (h i hi).name_line (h i hi).value_line)
  rw [hlines, ← List.flatMap_def]
  exact List.flatMap_pure_eq_map _ _

theorem oneLine_natStr (n : Nat) : OneLine (natStr n) :=
  whole_of_not_mem fun h => absurd (isDigit_of_mem_natStr h) (by decide)

theorem splitLines_contentLength (n : Nat) :
    splitLines (headerLine contentLength (natStr n)) = [headerLine contentLength (natStr n)] :=
  split_of_whole (oneLine_headerLine (whole_of_not_mem (by decide)) (oneLine_natStr n))

theorem not_mem_statusStr {c : Char} (hc : c.isDigit = false) (hminus : c ≠ '-')
    (hnone : c ∉ "None".toList) (status : Option ℤ) : c ∉ statusStr status := by
  cases status with
  | none => exact hnone
  | some n => exact not_mem_intStr hc hminus n

/-- The lines of a response. -/
theorem prepareResponse_eq (m : HTTPMessage V M) {body : Str} {n : Nat}
    (h : encodeData py m.data = .ok (body, n)) :
    ∃ text, m.prepareResponse py = .ok text ∧
      splitLines text =
        (splitLines m.message).modifyHead ("HTTP/1.1 ".toList ++ statusStr m.status ++ ' ' :: ·) ++
          (headerLine contentLength (natStr n) ::
            (m.headers.items.map fun i => splitLines (headerLine i.1 i.2)).flatten) ++
          [] :: splitLines body := by
  unfold HTTPMessage.prepareResponse
  rw [h]
  have hhead : OneLine ("HTTP/1.1 ".toList ++ statusStr m.status) := by
    have hstatus : '\r' ∉ statusStr m.status :=
      not_mem_statusStr (by decide) (by decide) (by decide) m.status
    exact whole_of_not_mem fun hmem => (List.mem_append.mp hmem).elim (by decide) hstatus
  have hphrase : splitLines ("HTTP/1.1 ".toList ++ statusStr m.status ++ [' '] ++ m.message) =
      (splitLines m.message).modifyHead ("HTTP/1.1 ".toList ++ statusStr m.status ++ ' ' :: ·) := by
    rw [List.append_assoc _ [' ']]
    exact split_append_cons hhead (by decide) (by decide) m.message
  have hend : ∀ lines, splitLines (lines ++ crlf) = splitLines lines ++ [[]] := fun lines => by
    rw [← List.append_nil (lines ++ crlf), splitLines_append]
    rfl
  refine ⟨_, rfl, ?_⟩
  rw [splitLines_append, hend, splitLines_append, hphrase, splitLines_headers,
    splitLines_contentLength]
  simp only [List.append_assoc, List.cons_append, List.nil_append]

theorem splitOn_space {s : Str} (h : ' ' ∉ s) (r : Str) : (s ++ ' ' :: r).splitOn ' ' = s :: r.splitOn ' ' := by
  rw [List.splitOn_append_cons_self, List.splitOn_eq_singleton h]
  rfl

/-- The status line has three parts if there is no space in the phrase. -/
theorem splitOn_statusLine (status : Option ℤ) (phrase : Str) :
    ("HTTP/1.1 ".toList ++ statusStr status ++ ' ' :: phrase).splitOn ' ' =
      "HTTP/1.1".toList :: statusStr status :: phrase.splitOn ' ' := by
  have hline : "HTTP/1.1 ".toList ++ statusStr status ++ ' ' :: phrase =
      "HTTP/1.1".toList ++ ' ' :: (statusStr status ++ ' ' :: phrase) := by
    rw [List.append_assoc]
    rfl
  have hstatus : ' ' ∉ statusStr status :=
    not_mem_statusStr (by decide) (by decide) (by decide) status
  rw [hline, splitOn_space (by decide), splitOn_space hstatus]

theorem not_mem_of_splitOn {c : Char} {s l : Str} (h : s.splitOn c = [l]) : c ∉ s := by
  intro hmem
  obtain ⟨u, v, rfl⟩ := List.append_of_mem hmem
  rw [List.splitOn_append_cons_self] at h
  have hlength := congrArg List.length h
  have hu := List.length_pos_iff.mpr (List.splitOn_ne_nil c u)
  have hv := List.length_pos_iff.mpr (List.splitOn_ne_nil c v)
  rw [List.length_append, List.length_singleton] at hlength
  omega

/-- What is read of a response. -/
theorem parse_eq_ok {text first : Str} {parsed : HTTPMessage V M} (h : splitLines text = first :: lines) :
    HTTPRequest.parse py text = .ok parsed ↔
      ∃ received requestType status message n, parseLines py lines = .ok received ∧
        first.splitOn ' ' = [requestType, status, message] ∧ py.int status = some n ∧
        parsed =
          { protocol := requestType, status := some n, statusMessage := some message
            headers := received.1, data := received.2 } := by
  unfold HTTPRequest.parse
  rw [h]
  constructor
  · intro hparse
    dsimp only [List.tail_cons, List.headD_cons] at hparse
    cases hlines : parseLines py lines with
    | error e =>
      rw [hlines] at hparse
      cases hparse
    | ok received =>
      rw [hlines] at hparse
      change (match first.splitOn ' ' with | [_, _, _] => _ | _ => _) = _ at hparse
      split at hparse
      case h_2 => cases hparse
      case h_1 requestType status message hfirst =>
        split at hparse
        case h_2 => cases hparse
        case h_1 n hn =>
          obtain rfl := Except.ok.inj hparse
          exact ⟨received, requestType, status, message, n, rfl, hfirst, hn, rfl⟩
  · rintro ⟨received, requestType, status, message, n, hlines, hfirst, hn, rfl⟩
    dsimp only [List.tail_cons, List.headD_cons]
    rw [hlines]
    change (match first.splitOn ' ' with | [_, _, _] => _ | _ => _) = _
    rw [hfirst]
    change (match py.int status with | some _ => _ | none => _) = _
    rw [hn]

variable {m : HTTPMessage V M}

theorem strip_natStr (n : Nat) : strip isSpace (natStr n) = natStr n :=
  strip_of_space fun _ hc => isSpace_of_isDigit (isDigit_of_mem_natStr hc)

theorem addHeader_contentLength (headers : Dict Str Str) (n : Nat) :
    addHeader py headers (headerLine contentLength (natStr n)) =
      .ok (headers.set contentLength (natStr n)) := by
  rw [addHeader_headerLine (by decide), py.lower_eq _ (forall_of_all (by decide)), strip_natStr]

/-- What is read of the header lines behind those of the phrase. -/
theorem readHeaders_lines {phrase : List Str} {sent : Dict Str Str} {n : Nat}
    (hphrase : [] ∉ phrase) (hsent : ∀ i ∈ sent.items, CleanHeader py i.1 i.2)
    (hfold : phrase.foldlM (addHeader py) .empty = .ok headers) (rest : List Str) :
    readHeaders py .empty (phrase ++ (headerLine contentLength (natStr n) ::
      sent.items.map fun i => headerLine i.1 i.2) ++ [] :: rest) =
      .ok ((headers.set contentLength (natStr n)).update sent, rest) := by
  have hlines : [] ∉ phrase ++ headerLine contentLength (natStr n) ::
      sent.items.map fun i => headerLine i.1 i.2 := by
    intro hmem
    rcases List.mem_append.mp hmem with hmem | hmem
    · exact hphrase hmem
    · rcases List.mem_cons.mp hmem with hmem | hmem
      · exact headerLine_ne_nil _ _ hmem.symm
      · obtain ⟨i, -, hi⟩ := List.mem_map.mp hmem
        exact headerLine_ne_nil _ _ hi
  have hown : (headerLine contentLength (natStr n) ::
      sent.items.map fun i => headerLine i.1 i.2).foldlM (addHeader py) headers =
      .ok ((headers.set contentLength (natStr n)).update sent) := by
    rw [List.foldlM_cons, addHeader_contentLength]
    exact foldlM_headerLines sent.items hsent
  rw [readHeaders_append hlines, List.foldlM_append, hfold]
  exact congrArg (· >>= fun headers => readHeaders py headers ([] :: rest)) hown

/-- What is read of the response, if the phrase leaves no empty line. -/
theorem parseLines_eq {phrase : List Str} {body : Str} {n : Nat}
    (hphrase : [] ∉ phrase) (hsent : ∀ i ∈ m.headers.items, CleanHeader py i.1 i.2)
    (hfold : phrase.foldlM (addHeader py) .empty = .ok headers) :
    parseLines py (phrase ++ (headerLine contentLength (natStr n) ::
      (m.headers.items.map fun i => splitLines (headerLine i.1 i.2)).flatten) ++ [] :: splitLines body) =
      .ok ((headers.set contentLength (natStr n)).update m.headers,
        .text (strip isByteSpace (splitLines body).flatten)) := by
  rw [splitLines_clean hsent, parseLines, readHeaders_lines hphrase hsent hfold]
  rfl

/-- An empty line in the phrase ends the headers, and what stands behind it, the length and all, is taken
for the body. -/
theorem parseLines_of_empty {phrase : List Str} {received : Dict Str Str × Data V M}
    (hempty : [] ∈ phrase) (rest : List Str) (h : parseLines py (phrase ++ rest) = .ok received) :
    ∃ lines, received.2 = .text (strip isByteSpace (lines ++ rest).flatten) := by
  obtain ⟨before, behind, rfl, hbefore⟩ := List.eq_append_cons_of_mem hempty
  rw [parseLines, List.append_assoc, readHeaders_append hbefore] at h
  cases hfold : before.foldlM (addHeader py) .empty with
  | error e =>
    rw [hfold] at h
    cases h
  | ok headers =>
    rw [hfold] at h
    exact ⟨behind, (congrArg Prod.snd (Except.ok.inj h)).symm⟩

/-- What is received as a text has as many colons as the body that was written. -/
theorem eq_of_received {body t : Str} {n : Nat} (h : encodeData py m.data = .ok (body, n))
    (ht : m.data.received py = .text t) : t = body := by
  cases hdata : m.data with
  | value v =>
    rw [hdata] at ht
    cases ht
  | none | text s | message m =>
    rw [hdata] at h ht
    exact (Data.text.inj ht).symm.trans (Prod.mk.inj (Except.ok.inj h)).1

/-- So no line of the phrase is empty where the body comes back. -/
theorem empty_not_mem_of_received {body : Str} {n : Nat} {phrase lines : List Str}
    {received : Dict Str Str × Data V M} (h : encodeData py m.data = .ok (body, n))
    (hparse : parseLines py (phrase ++ (headerLine contentLength (natStr n) :: lines) ++
      [] :: splitLines body) = .ok received) (hdata : m.data.received py = received.2) : [] ∉ phrase := by
  intro hempty
  rw [List.append_assoc] at hparse
  obtain ⟨rest, htext⟩ := parseLines_of_empty hempty _ hparse
  have hbody := eq_of_received h (hdata.trans htext)
  -- the colon of the length is one more than the body has
  have hcolons := congrArg (List.count ':') hbody
  rw [count_strip (by decide)] at hcolons
  simp only [List.flatten_append, List.flatten_cons, List.count_append, headerLine_eq,
    List.count_cons_self, splitLines,
    count_flatten_split (a := '\r') (b := '\n') (c := ':') (by decide) (by decide)] at hcolons
  omega

/-- The first line and the others. -/
theorem exists_lines (m : HTTPMessage V M) {body : Str} {n : Nat}
    (h : encodeData py m.data = .ok (body, n)) :
    ∃ text first phrase, m.prepareResponse py = .ok text ∧ splitLines m.message = first :: phrase ∧
      splitLines text = ("HTTP/1.1 ".toList ++ statusStr m.status ++ ' ' :: first) ::
        (phrase ++ (headerLine contentLength (natStr n) ::
          (m.headers.items.map fun i => splitLines (headerLine i.1 i.2)).flatten) ++
          [] :: splitLines body) := by
  obtain ⟨text, htext, hlines⟩ := prepareResponse_eq m h
  cases hmessage : splitLines m.message with
  | nil => exact absurd hmessage (split_ne_nil m.message)
  | cons first phrase =>
    rw [hmessage] at hlines
    exact ⟨text, first, phrase, htext, rfl, hlines⟩

theorem get?_received {sent : Dict Str Str} {value name : Str} :
    ((headers.set contentLength value).update sent).get? name ≠ none ↔
      sent.get? name ≠ none ∨ name = contentLength ∨ headers.get? name ≠ none := by
  rw [Dict.get?_update, Dict.get?_set]
  cases sent.get? name with
  | some v => simp
  | none =>
    by_cases h : name = contentLength
    · simp [h]
    · simp [h]

/-- **Clean responses come through.** -/
theorem responseKept_of_clean (h : CleanResponse py m) : ResponseKept py m := by
  obtain ⟨body, n, hencode⟩ := exists_encodeData h.data
  obtain ⟨text, first, phrase, htext, hmessage, hlines⟩ := exists_lines m hencode
  obtain ⟨status, hstatus⟩ := Option.ne_none_iff_exists'.mp h.status
  obtain ⟨hspace, hnames⟩ := h.phrase
  rw [hmessage] at hspace hnames
  have hspace : ' ' ∉ first := hspace
  have hnames : ∀ line ∈ phrase, ∃ key value, splitColon line = some (key, value) ∧
      py.lower key ∈ contentLength :: m.headers.keys := hnames
  obtain ⟨headers, hfold, honly⟩ := @exists_addHeaders V M py .empty _ _ hnames
  have hphrase : [] ∉ phrase := fun hmem => by
    obtain ⟨key, value, hsplit, -⟩ := hnames [] hmem
    cases hsplit
  have hparse := @parseLines_eq V M py _ m phrase body n hphrase h.headers hfold
  have hstatusLine : ("HTTP/1.1 ".toList ++ statusStr m.status ++ ' ' :: first).splitOn ' ' =
      ["HTTP/1.1".toList, intStr status, first] := by
    rw [splitOn_statusLine, hstatus, List.splitOn_eq_singleton hspace]
    rfl
  refine ⟨text, _, htext, (parse_eq_ok hlines).mpr
    ⟨_, _, _, _, status, hparse, hstatusLine, py.int_intStr status, rfl⟩, hstatus.symm, ⟨?_, ?_⟩, ?_⟩
  · intro name value hget
    rw [Dict.get?_update, hget]
    rfl
  · intro name hget
    rcases get?_received.mp hget with hsent | rfl | hheaders
    · exact .inl hsent
    · exact .inr (List.mem_singleton_self _)
    · rcases honly name hheaders with hnone | hname
      · exact absurd rfl hnone
      · rcases List.mem_cons.mp hname with rfl | hname
        · exact .inr (List.mem_singleton_self _)
        · obtain ⟨value, hvalue⟩ := (m.headers.mem_keys_iff name).mp hname
          exact .inl (Option.ne_none_iff_exists'.mpr ⟨value, hvalue⟩)
  · exact (data_received_iff hencode).mpr h.data

/-- **No others do.** -/
theorem clean_of_responseKept (h : ResponseKept py m) : CleanResponse py m := by
  obtain ⟨text, parsed, htext, hparse, hstatus, ⟨hkept, honly⟩, hdata⟩ := h
  cases hencode : encodeData py m.data with
  | error e =>
    rw [HTTPMessage.prepareResponse, hencode] at htext
    cases htext
  | ok encoded =>
    obtain ⟨body, n⟩ := encoded
    obtain ⟨text', first, phrase, htext', hmessage, hlines⟩ := exists_lines m hencode
    obtain rfl := Except.ok.inj (htext.symm.trans htext')
    obtain ⟨received, requestType, status, message, number, hreceived, hsplit, hnumber, rfl⟩ :=
      (parse_eq_ok hlines).mp hparse
    have hphrase := empty_not_mem_of_received hencode hreceived hdata.symm
    -- the headers that were sent are among those read, and these are clean
    have hsent : ∀ i ∈ m.headers.items, CleanHeader py i.1 i.2 := by
      intro i hi
      have hget := hkept i.1 i.2 ((m.headers.mem_items_iff i.1 i.2).mp hi)
      refine clean_of_parseLines (fun line hline => ?_) hreceived i.1 i.2 hget
      have hmem : line ∈ splitLines text := hlines ▸ List.mem_cons_of_mem _ hline
      exact whole_of_mem_split hmem
    obtain ⟨headers, hfold⟩ : ∃ headers, phrase.foldlM (addHeader py) .empty = .ok headers := by
      cases hfold : phrase.foldlM (addHeader py) .empty with
      | ok headers => exact ⟨headers, rfl⟩
      | error e =>
        rw [parseLines, List.append_assoc, readHeaders_append hphrase, hfold] at hreceived
        cases hreceived
    obtain rfl := Except.ok.inj ((parseLines_eq hphrase hsent hfold).symm.trans hreceived)
    refine ⟨fun hnone => ?_, ⟨?_, ?_⟩, hsent, (data_received_iff hencode).mp hdata⟩
    · rw [hnone] at hstatus
      cases hstatus
    · rw [splitOn_statusLine] at hsplit
      obtain ⟨-, hrest⟩ := List.cons.inj hsplit
      obtain ⟨-, hfirst⟩ := List.cons.inj hrest
      rw [hmessage]
      exact not_mem_of_splitOn hfirst
    · rw [hmessage]
      intro line hline
      obtain ⟨key, value, hkey, hname⟩ := (names_of_addHeaders hfold).1 line hline
      refine ⟨key, value, hkey, ?_⟩
      rcases honly _ (get?_received.mpr (.inr (.inr hname))) with hname | hname
      · obtain ⟨v, hv⟩ := Option.ne_none_iff_exists'.mp hname
        exact List.mem_cons_of_mem _ ((m.headers.mem_keys_iff _).mpr ⟨v, hv⟩)
      · obtain hname := List.mem_singleton.mp hname
        exact hname ▸ List.mem_cons_self

end Responses

/-! ## 9. Requests -/

section Requests

variable {V M : Type} {py : Python V M} {r : HTTPRequest M} {headers sent : Dict Str Str}
  {lines : List Str}

/-- The headers, and what is added for the body. -/
def Body.written (headers : Dict Str Str) : Body M → Dict Str Str
  | .message _ => headers.set contentType "application/msync".toList
  | .text s => if s = [] then headers else headers.set contentLength (natStr s.length)
  | .none => headers

theorem addHeaders_written (headers : Dict Str Str) (data : Body M) :
    (encodeBody py data).1.foldlM (addHeader py) headers = .ok (data.written headers) := by
  cases data with
  | none => rfl
  | text s =>
    unfold encodeBody Body.written
    dsimp only
    split
    · rfl
    · rw [List.foldlM_cons, addHeader_contentLength]
      rfl
  | message m =>
    have hline : "content-type: application/msync".toList =
        headerLine contentType "application/msync".toList := by decide
    have hadd : addHeader py headers (headerLine contentType "application/msync".toList) =
        .ok (headers.set contentType "application/msync".toList) := by
      rw [addHeader_headerLine (by decide), py.lower_eq _ (forall_of_all (by decide))]
      rfl
    rw [encodeBody, hline, List.foldlM_cons, hadd]
    rfl

/-- What is sent stays, if what is added for the body says the same. -/
theorem written_kept_iff (data : Body M) :
    (∀ name value, sent.get? name = some value →
      (data.written (headers.update sent)).get? name = some value) ↔ data.Describes sent := by
  have hsent : ∀ name value, sent.get? name = some value →
      (headers.update sent).get? name = some value := fun name value hget => by
    rw [Dict.get?_update, hget]
    rfl
  have hset : ∀ key v : Str, (∀ name value, sent.get? name = some value →
      ((headers.update sent).set key v).get? name = some value) ↔
      ∀ value, sent.get? key = some value → value = v := by
    intro key v
    constructor
    · intro h value hget
      have hkey := h key value hget
      rw [Dict.get?_set_self] at hkey
      exact (Option.some.inj hkey).symm
    · intro h name value hget
      rw [Dict.get?_set]
      split
      case isTrue hname =>
        rw [h value (hname ▸ hget)]
      case isFalse => exact hsent name value hget
  cases data with
  | none => exact iff_of_true hsent trivial
  | text s =>
    unfold Body.written Body.Describes
    by_cases hs : s = []
    · simpa only [hs, if_true, true_or, iff_true] using hsent
    · simpa only [hs, if_false, false_or] using hset contentLength (natStr s.length)
  | message m => exact hset contentType "application/msync".toList

theorem body_received_iff (data : Body M) :
    (.text (strip isByteSpace (splitLines (encodeBody py data).2).flatten) : Data V M) = data.received py ↔
      data.Clean := by
  cases data with
  | none => exact iff_of_true rfl trivial
  | message m => exact iff_of_true (congrArg _ (py.plain_dumps m).flatten_splitLines) trivial
  | text s =>
    have hbody : (encodeBody py (.text s)).2 = s := by
      unfold encodeBody
      dsimp only
      split
      · next h => exact h.symm
      · rfl
    rw [hbody]
    exact Data.text.injEq .. ▸ strip_flatten_eq_iff

theorem ofValue_value (m : Method) : Method.ofValue m.value = some m := by
  cases m <;> decide

/-- What is read of a request. -/
theorem parseRequest_eq_ok {text first : Str} {parsed : HTTPMessage V M}
    (h : splitLines text = first :: lines) :
    HTTPRequest.parseRequest py text = .ok parsed ↔
      ∃ received methodValue path requestType method, parseLines py lines = .ok received ∧
        first.splitOn ' ' = [methodValue, path, requestType] ∧
        Method.ofValue methodValue = some method ∧
        parsed =
          { method := some method, path := some (if path = [] then ['/'] else path)
            protocol := requestType, headers := received.1, data := received.2 } := by
  unfold HTTPRequest.parseRequest
  rw [h]
  constructor
  · intro hparse
    dsimp only [List.tail_cons, List.headD_cons] at hparse
    cases hlines : parseLines py lines with
    | error e =>
      rw [hlines] at hparse
      cases hparse
    | ok received =>
      rw [hlines] at hparse
      change (match first.splitOn ' ' with | [_, _, _] => _ | _ => _) = _ at hparse
      split at hparse
      case h_2 => cases hparse
      case h_1 methodValue path requestType hfirst =>
        split at hparse
        case h_2 => cases hparse
        case h_1 method hmethod =>
          obtain rfl := Except.ok.inj hparse
          exact ⟨received, methodValue, path, requestType, method, rfl, hfirst, hmethod, rfl⟩
  · rintro ⟨received, methodValue, path, requestType, method, hlines, hfirst, hmethod, rfl⟩
    dsimp only [List.tail_cons, List.headD_cons]
    rw [hlines]
    change (match first.splitOn ' ' with | [_, _, _] => _ | _ => _) = _
    rw [hfirst]
    change (match Method.ofValue methodValue with | some _ => _ | none => _) = _
    rw [hmethod]

theorem oneLine_of_space {s : Str} (h : ∀ c ∈ s, isSpace c = false) : OneLine s :=
  whole_of_not_mem fun hmem => absurd (h _ hmem) (by decide)

/-- The line of the request. -/
def requestLine (r : HTTPRequest M) : Str :=
  r.method.method.value ++ [' '] ++ r.url.path ++ " HTTP/1.1".toList

theorem oneLine_requestLine (r : HTTPRequest M) : OneLine (requestLine r) := by
  refine whole_of_not_mem fun hmem => ?_
  rcases List.mem_append.mp hmem with hmem | hmem
  · rcases List.mem_append.mp hmem with hmem | hmem
    · rcases List.mem_append.mp hmem with hmem | hmem
      · cases hmethod : r.method <;> rw [hmethod] at hmem <;> exact absurd hmem (by decide)
      · exact absurd hmem (by decide)
    · exact absurd (r.url.path_space _ hmem) (by decide)
  · exact absurd hmem (by decide)

theorem splitOn_requestLine (r : HTTPRequest M) :
    (requestLine r).splitOn ' ' = [r.method.method.value, r.url.path, "HTTP/1.1".toList] := by
  have hline : requestLine r = r.method.method.value ++ ' ' :: (r.url.path ++ ' ' :: "HTTP/1.1".toList) := by
    rw [requestLine, List.append_assoc, List.append_assoc]
    rfl
  have hmethod : ' ' ∉ r.method.method.value := by
    cases r.method <;> decide
  have hpath : ' ' ∉ r.url.path := fun hmem => absurd (r.url.path_space _ hmem) (by decide)
  rw [hline, splitOn_space hmethod, splitOn_space hpath, List.splitOn_eq_singleton (by decide)]

theorem pathWithParams_eq {path : Str} {params : Option (Dict Str Str)}
    (h : ∀ p, params = some p → p.items = []) : pathWithParams path params = .ok path := by
  cases params with
  | none => rfl
  | some p => exact if_pos (h p rfl)

/-- The lines of a request without parameters. -/
theorem prepareRequest_eq (r : HTTPRequest M) (h : ∀ params, r.params = some params → params.items = []) :
    ∃ text, r.prepareRequest py = .ok text ∧
      splitLines text = requestLine r ::
        ((headerLine "host".toList r.url.hostname ::
          (r.headers.items.map fun i => splitLines (headerLine i.1 i.2)).flatten) ++
          (encodeBody py r.data).1 ++
          [] :: [] :: if (encodeBody py r.data).2 = [] then [] else splitLines (encodeBody py r.data).2) := by
  have hhost : splitLines (headerLine "host".toList r.url.hostname) =
      [headerLine "host".toList r.url.hostname] :=
    split_of_whole (oneLine_headerLine (whole_of_not_mem (by decide))
      (oneLine_of_space r.url.hostname_space))
  have hadded : ((encodeBody py r.data).1.map splitLines).flatten = (encodeBody py r.data).1 := by
    cases r.data with
    | none => rfl
    | message m => exact congrArg (· ++ []) (split_of_whole (whole_of_not_mem (by decide)))
    | text s =>
      unfold encodeBody
      dsimp only
      split
      · rfl
      · exact congrArg (· ++ []) (splitLines_contentLength s.length)
  have htext : r.prepareRequest py = .ok (crlf.intercalate (requestLine r ::
      (headerLine "host".toList r.url.hostname :: (r.headers.items.map fun i => headerLine i.1 i.2) ++
        (encodeBody py r.data).1 ++ [crlf] ++
        if (encodeBody py r.data).2 = [] then [] else [(encodeBody py r.data).2]))) := by
    unfold HTTPRequest.prepareRequest
    rw [pathWithParams_eq h]
    rfl
  have hbody : ((if (encodeBody py r.data).2 = [] then [] else [(encodeBody py r.data).2]).map
      splitLines).flatten =
      if (encodeBody py r.data).2 = [] then [] else splitLines (encodeBody py r.data).2 := by
    split
    · rfl
    · exact List.append_nil _
  refine ⟨_, htext, ?_⟩
  rw [splitLines_intercalate (List.cons_ne_nil _ _), List.map_cons, List.flatten_cons, splitLines,
    split_of_whole (oneLine_requestLine r)]
  have hcrlf : splitLines crlf = [[], []] := rfl
  simp only [List.map_append, List.map_cons, List.map_map, List.flatten_append, List.flatten_cons,
    List.append_assoc, List.cons_append, List.nil_append, Function.comp_def, hhost, hadded, hbody, hcrlf]

/-- The host, which is the first header. -/
def hostHeader (url : Url) : Dict Str Str := Dict.empty.set "host".toList url.hostname

theorem addHeader_host (url : Url) :
    addHeader py .empty (headerLine "host".toList url.hostname) = .ok (hostHeader url) := by
  rw [addHeader_headerLine (by decide), py.lower_eq _ (forall_of_all (by decide)), strip_of_space url.hostname_space]
  rfl

/-- What is read of the lines of a request with clean headers, up to the line end in front of the body. -/
theorem readHeaders_request (hsent : ∀ i ∈ r.headers.items, CleanHeader py i.1 i.2) (rest : List Str) :
    readHeaders py .empty ((headerLine "host".toList r.url.hostname ::
        (r.headers.items.map fun i => splitLines (headerLine i.1 i.2)).flatten) ++
        (encodeBody py r.data).1 ++ [] :: rest) =
      .ok (r.data.written ((hostHeader r.url).update r.headers), rest) := by
  have hadded : [] ∉ (encodeBody py r.data).1 := by
    cases r.data with
    | none => exact List.not_mem_nil
    | message m => exact fun h => absurd (List.mem_singleton.mp h) (by decide)
    | text s =>
      unfold encodeBody
      dsimp only
      split
      · exact List.not_mem_nil
      · exact fun h => headerLine_ne_nil _ _ (List.mem_singleton.mp h).symm
  have hlines : [] ∉ headerLine "host".toList r.url.hostname ::
      (r.headers.items.map fun i => headerLine i.1 i.2) ++ (encodeBody py r.data).1 := by
    intro hmem
    rcases List.mem_append.mp hmem with hmem | hmem
    · rcases List.mem_cons.mp hmem with hmem | hmem
      · exact headerLine_ne_nil _ _ hmem.symm
      · obtain ⟨i, -, hi⟩ := List.mem_map.mp hmem
        exact headerLine_ne_nil _ _ hi
    · exact hadded hmem
  have hall : (headerLine "host".toList r.url.hostname ::
      (r.headers.items.map fun i => headerLine i.1 i.2) ++ (encodeBody py r.data).1).foldlM
        (addHeader py) .empty = .ok (r.data.written ((hostHeader r.url).update r.headers)) := by
    have hsentLines : (headerLine "host".toList r.url.hostname ::
        r.headers.items.map fun i => headerLine i.1 i.2).foldlM (addHeader py) .empty =
        .ok ((hostHeader r.url).update r.headers) := by
      rw [List.foldlM_cons, addHeader_host]
      exact foldlM_headerLines r.headers.items hsent
    rw [List.foldlM_append, hsentLines]
    exact addHeaders_written _ r.data
  rw [splitLines_clean hsent, readHeaders_append hlines, hall]
  rfl

/-- What is read of a request with clean headers. -/
theorem parseLines_request (hsent : ∀ i ∈ r.headers.items, CleanHeader py i.1 i.2) :
    parseLines py ((headerLine "host".toList r.url.hostname ::
        (r.headers.items.map fun i => splitLines (headerLine i.1 i.2)).flatten) ++
        (encodeBody py r.data).1 ++
        [] :: [] :: if (encodeBody py r.data).2 = [] then [] else splitLines (encodeBody py r.data).2) =
      .ok (r.data.written ((hostHeader r.url).update r.headers),
        .text (strip isByteSpace (splitLines (encodeBody py r.data).2).flatten)) := by
  have hbody : (if (encodeBody py r.data).2 = [] then [] else splitLines (encodeBody py r.data).2).flatten =
      (splitLines (encodeBody py r.data).2).flatten := by
    split
    · next h => rw [h]; rfl
    · rfl
  rw [parseLines, readHeaders_request hsent]
  change Except.ok (_, Data.text (strip isByteSpace (List.flatten ([] :: _)))) = _
  rw [List.flatten_cons, List.nil_append, hbody]

/-- Names of headers that are read were sent, or are written besides. -/
theorem written_only {name : Str}
    (h : (r.data.written ((hostHeader r.url).update r.headers)).get? name ≠ none) :
    r.headers.get? name ≠ none ∨ name ∈ ["host".toList, contentLength, contentType] := by
  have hbase : ((hostHeader r.url).update r.headers).get? name ≠ none →
      r.headers.get? name ≠ none ∨ name ∈ ["host".toList, contentLength, contentType] := by
    rw [Dict.get?_update, hostHeader, Dict.get?_set]
    cases r.headers.get? name with
    | some v => exact fun _ => .inl (Option.some_ne_none v)
    | none =>
      split
      case isTrue hname => exact fun _ => .inr (hname ▸ List.mem_cons_self)
      case isFalse => exact fun hnone => absurd rfl hnone
  have hset : ∀ key v : Str, key ∈ ["host".toList, contentLength, contentType] →
      (((hostHeader r.url).update r.headers).set key v).get? name ≠ none →
      r.headers.get? name ≠ none ∨ name ∈ ["host".toList, contentLength, contentType] := by
    intro key v hkey
    rw [Dict.get?_set]
    split
    case isTrue hname => exact fun _ => .inr (hname ▸ hkey)
    case isFalse => exact hbase
  cases hdata : r.data with
  | none =>
    rw [hdata] at h
    exact hbase h
  | message m =>
    rw [hdata] at h
    exact hset contentType _ (by decide) h
  | text s =>
    rw [hdata, Body.written] at h
    split at h
    · exact hbase h
    · exact hset contentLength _ (by decide) h

/-- The path is all that is asked for if nothing follows it. -/
theorem target_eq_iff (url : Url) :
    url.target = (if url.path = [] then ['/'] else url.path) ↔ url.params = [] ∧ url.query = [] := by
  unfold Url.target
  rw [List.append_assoc, List.append_right_eq_self, List.append_eq_nil_iff]
  exact and_congr (by simp) (by simp)

/-- **Clean requests come through, and no others.** -/
theorem requestKept_iff (py : Python V M) (r : HTTPRequest M) :
    RequestKept py r ↔ CleanRequest py r := by
  constructor
  · rintro ⟨text, parsed, htext, hparse, -, hpath, hparams, ⟨hkept, -⟩, hdata⟩
    have hnone : ∀ params, r.params = some params → params.items = [] := by
      intro params hsome
      obtain ⟨first, lines, hlines⟩ := List.exists_cons_of_ne_nil
        (split_ne_nil (a := '\r') (b := '\n') text)
      obtain ⟨_, _, _, _, _, -, -, -, rfl⟩ := (parseRequest_eq_ok hlines).mp hparse
      cases hitems : params.items with
      | nil => rfl
      | cons i items =>
        have hget : params.get? i.1 = some i.2 :=
          (params.mem_items_iff i.1 i.2).mp (hitems ▸ List.mem_cons_self)
        have hlost := (hparams i.1).trans (congrArg (fun p => (p.getD Dict.empty).get? i.1) hsome)
        exact absurd (hlost.trans hget) (Option.some_ne_none i.2).symm
    obtain ⟨text', htext', hlines⟩ := @prepareRequest_eq V M py r hnone
    obtain rfl := Except.ok.inj (htext.symm.trans htext')
    obtain ⟨received, methodValue, path, requestType, method, hreceived, hsplit, -, rfl⟩ :=
      (parseRequest_eq_ok hlines).mp hparse
    have hurl : r.url.params = [] ∧ r.url.query = [] := by
      rw [splitOn_requestLine] at hsplit
      obtain ⟨rfl, -⟩ := List.cons.inj (List.cons.inj hsplit).2
      exact (target_eq_iff r.url).mp (Option.some.inj hpath).symm
    have hsent : ∀ i ∈ r.headers.items, CleanHeader py i.1 i.2 := by
      intro i hi
      have hget := hkept i.1 i.2 ((r.headers.mem_items_iff i.1 i.2).mp hi)
      refine clean_of_parseLines (fun line hline => ?_) hreceived i.1 i.2 hget
      have hmem : line ∈ splitLines text := hlines ▸ List.mem_cons_of_mem _ hline
      exact whole_of_mem_split hmem
    obtain rfl := Except.ok.inj ((parseLines_request hsent).symm.trans hreceived)
    exact ⟨hurl, hnone, hsent, (written_kept_iff r.data).mp hkept, (body_received_iff r.data).mp hdata⟩
  · intro h
    obtain ⟨text, htext, hlines⟩ := @prepareRequest_eq V M py r h.params
    have hparsed := (parseRequest_eq_ok hlines).mpr ⟨_, _, _, _, r.method.method,
      parseLines_request h.headers, splitOn_requestLine r, ofValue_value _, rfl⟩
    refine ⟨text, _, htext, hparsed, rfl, congrArg some ((target_eq_iff r.url).mpr h.url).symm, fun name => ?_,
      ⟨(written_kept_iff r.data).mpr h.described, fun name => written_only⟩,
      (body_received_iff r.data).mpr h.data⟩
    cases hparams : r.params with
    | none => rfl
    | some params =>
      have hget : params.get? name = none := by
        rw [Dict.get?, h.params params hparams]
        rfl
      exact hget.symm

end Requests

/-! ## 10. Messages -/

section Messages

variable {V M : Type}

/-- **Which messages are read back.**  What the parsers cannot tell from what separates the parts is
lost: parameters always, the query of the URL, phrases with a space, names with capitals, values and
bodies with line ends or space around them.  A phrase may leave lines of headers that are overwritten. -/
theorem messages_kept_iff (py : Python V M) :
    (∀ r, RequestKept py r ↔ CleanRequest py r) ∧ ∀ m, ResponseKept py m ↔ CleanResponse py m :=
  ⟨requestKept_iff py, fun _ => ⟨clean_of_responseKept, responseKept_of_clean⟩⟩

theorem oneLine_map_toLower {s : Str} (h : OneLine s) : OneLine (s.map Char.toLower) := by
  rintro ⟨u, v, heq⟩
  obtain ⟨l, r, rfl, hl, -⟩ := List.append_eq_map_iff.mp heq
  obtain ⟨l, ends, rfl, -, hends⟩ := List.append_eq_map_iff.mp hl.symm
  obtain ⟨c, rest, rfl, hc, hrest⟩ := List.map_eq_cons_iff.mp hends
  obtain ⟨d, none, rfl, hd, hnil⟩ := List.map_eq_cons_iff.mp hrest
  obtain rfl := List.map_eq_nil_iff.mp hnil
  obtain rfl := eq_of_toLower_eq (by decide) hc
  obtain rfl := eq_of_toLower_eq (by decide) hd
  exact h ⟨l, r, rfl⟩

/-- The number of decimal digits. -/
def digitsNat (s : Str) : Option Nat :=
  if s.all Char.isDigit then some (Nat.ofDigitChars 10 s 0) else none

def asciiInt (s : Str) : Option ℤ :=
  if s.head? = some '-' then (digitsNat s.tail).map fun n => -n else (digitsNat s).map fun n => n

theorem digitsNat_natStr (n : Nat) : digitsNat (natStr n) = some n := by
  have hdigits : (natStr n).all Char.isDigit := List.all_eq_true.mpr fun _ => isDigit_of_mem_natStr
  rw [digitsNat, if_pos hdigits, natStr, Nat.toList_repr, Nat.ofDigitChars_ten_toDigits]

theorem asciiInt_intStr (n : ℤ) : asciiInt (intStr n) = some n := by
  cases n with
  | ofNat n =>
    have hhead : (natStr n).head? ≠ some '-' := fun h =>
      absurd (isDigit_of_mem_natStr (List.mem_of_head? h)) (by decide)
    rw [intStr, asciiInt, if_neg hhead, digitsNat_natStr]
    rfl
  | negSucc n =>
    have hhead : ('-' :: natStr (n + 1)).head? = some '-' := rfl
    rw [intStr, asciiInt, if_pos hhead, List.tail_cons, digitsNat_natStr]
    rfl

/-- `json.loads`, of lists of Booleans as `json.dumps` writes them. -/
def loadsBools : Str → Option (List Bool)
  | '[' :: rest =>
    if rest = [']'] then some []
    else if rest.getLast? = some ']' then
      (rest.dropLast.splitOn ',').mapM fun word =>
        match strip isByteSpace word with
        | ['t', 'r', 'u', 'e'] => some true
        | ['f', 'a', 'l', 's', 'e'] => some false
        | _ => none
    else none
  | _ => none

/-- `str`, of such a list. -/
def strBools (v : List Bool) : Str :=
  '[' :: ", ".toList.intercalate (v.map fun b => if b then "True".toList else "False".toList) ++ [']']

/-- `json.dumps`, of a model with one number. -/
def dumpsNumber (n : Nat) : Str := '\x7b' :: ("\"number\": ".toList ++ natStr n) ++ ['\x7d']

theorem plain_dumpsNumber (n : Nat) : Plain (dumpsNumber n) where
  oneLine := by
    refine whole_of_not_mem fun hmem => ?_
    rcases List.mem_append.mp hmem with hmem | hmem
    · rcases List.mem_append.mp (List.mem_of_ne_of_mem (by decide) hmem) with hmem | hmem
      · exact absurd hmem (by decide)
      · exact absurd (isDigit_of_mem_natStr hmem) (by decide)
    · exact absurd hmem (by decide)
  stripped := strip_of_ends (by decide) (by decide) _

/-- Python, as far as messages go that are ASCII; there are lists of Booleans, and models of one number. -/
def asciiPython : Python (List Bool) Nat where
  lower s := s.map Char.toLower
  int := asciiInt
  str := strBools
  truthy v := v ≠ []
  len v := some v.length
  loads s := (loadsBools s).map .value
  dumps := dumpsNumber
  lower_lower s := by
    rw [List.map_map]
    exact List.map_congr_left fun c _ => toLower_eq (isUpper_toLower c)
  lower_eq s h := by
    refine (List.map_congr_left fun c hc => ?_).trans (List.map_id s)
    exact toLower_eq (h c hc).2
  mem_lower s h := by
    obtain ⟨c, hc, heq⟩ := List.mem_map.mp h
    exact eq_of_toLower_eq (by decide) heq ▸ hc
  oneLine_lower _ := oneLine_map_toLower
  int_intStr := asciiInt_intStr
  dumps_ne_nil _ := List.cons_ne_nil _ _
  plain_dumps := plain_dumpsNumber

theorem host_space : ∀ c ∈ "h".toList, isSpace c = false := forall_of_all (by decide)

/-- `http://h/p`, with that query. -/
def samplePage (query : Str) : Url where
  hostname := "h".toList
  path := "/p".toList
  query := query
  hostname_space := host_space
  path_space := forall_of_all (by decide)
  path_mark := by decide

/-- A parameter raises an error, and so is the query of a URL lost; a phrase of two words cannot be parsed,
and a line end in the body is left out. -/
theorem messages_lost :
    (∃ r, r.params = some (.ofList [("q".toList, "x".toList)]) ∧ ¬ RequestKept asciiPython r) ∧
      (∃ r, r.params = none ∧ r.url.query = "q=1".toList ∧ ¬ RequestKept asciiPython r) ∧
      ¬ ResponseKept asciiPython { status := some 404, error := some "Not Found".toList } ∧
      ¬ ResponseKept asciiPython { status := some 200, data := .text "a\r\nb".toList } := by
  refine ⟨⟨⟨samplePage [], .get, _, .empty, .none⟩, rfl, fun h => ?_⟩,
    ⟨⟨samplePage "q=1".toList, .get, none, .empty, .none⟩, rfl, rfl, fun h => ?_⟩, fun h => ?_, fun h => ?_⟩
  · have hparams := ((requestKept_iff _ _).mp h).params _ rfl
    exact absurd hparams (by decide)
  · have hquery : "q=1".toList = [] := ((requestKept_iff _ _).mp h).url.2
    exact absurd hquery (by decide)
  · have hphrase := (clean_of_responseKept h).phrase.space
    exact absurd hphrase (by decide)
  · have hdata : Plain "a\r\nb".toList := (clean_of_responseKept h).data
    exact absurd (split_of_whole hdata.oneLine) (by decide)

end Messages

end Http
end Hedra
