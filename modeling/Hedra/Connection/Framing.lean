/-
# The length of messages

A receiver takes as much behind the headers as `content-length` says.  What is sent is laid out here as
lines, an empty line and the rest; the length is among the lines, and is counted in characters.

Three things make it wrong: characters of more than one byte, data that are not texts and are counted
before they are written as one, and the line end that requests have in front of their body.

The texts are those of `HTTPRequest.prepare_request` and `HTTPMessage.prepare_response`
(`distributed/models/http/http_request.py`, `http_message.py`), written as a `Layout`.

* `framed_text`: what is read of a layout, up to the first empty line and behind it;
* `sized_iff`: where nothing ends the headers early, what is framed is what is sized;
* `framed_outgoing_iff`: from both, exactly which outgoing messages are framed, by their texts
  alone.
-/
import Hedra.Connection.HttpMessage
import Hedra.Lib.Utf8

namespace Hedra
namespace Http

open Lib Separated Utf8

/-! ## 1. What a receiver counts -/

/-- `len(text.encode())` -/
def size (text : Str) : ℕ := (encode text).length

/-- The lines before the first empty one. -/
def headLines (text : Str) : List Str := (splitLines text).takeWhile (· ≠ [])

/-- What is behind the empty line. -/
def behind (text : Str) : Str := crlf.intercalate ((splitLines text).dropWhile (· ≠ [])).tail

/-- The values of `content-length`, in any case. -/
def lengths (lines : List Str) : List Str :=
  lines.filterMap fun line =>
    match splitColon line with
    | some (name, value) =>
      if name.map Char.toLower = contentLength then some (strip isSpace value) else none
    | none => none

/-- The decimal number. -/
def Numeral (n : ℕ) (value : Str) : Prop := value ≠ [] ∧ digitsNat value = some n

/-- The lengths that are given are the number.  Where none is, that is 0. -/
structure Counts (lines : List Str) (n : ℕ) : Prop where
  values : ∀ value ∈ lengths lines, Numeral n value
  some_given : lengths lines = [] → n = 0

/-- **The headers give the number of bytes behind them.** -/
def Framed (text : Str) : Prop := Counts (headLines text).tail (size (behind text))

/-! ## 2. Layouts -/

/-- What is sent: lines, one of them for the length, an empty line and the rest. -/
structure Layout where
  before : List Str
  length : Option ℕ
  after : List Str
  rest : Str

namespace Layout

def lines (l : Layout) : List Str :=
  l.before ++ (l.length.map fun n => headerLine contentLength (natStr n)).toList ++ l.after

def text (l : Layout) : Str := crlf.intercalate l.lines ++ crlf ++ crlf ++ l.rest

/-- The lines without the length. -/
def given (l : Layout) : List Str := l.before ++ l.after

end Layout

/-- Lines as they are read, where what is written as one may have line ends in it. -/
def pieces (lines : List Str) : List Str := lines.flatMap splitLines

/-- An empty line in what is given ends the headers, and what they say up to there counts all that is
written behind it. -/
structure Layout.EndsEarly (l : Layout) : Prop where
  empty : [] ∈ pieces l.given
  counts : Counts ((pieces l.lines).takeWhile (· ≠ [])).tail
    (size (crlf.intercalate (((pieces l.lines).dropWhile (· ≠ [])).tail ++ [[], l.rest])))

/-- Nothing that is given ends the headers, or gives another length. -/
structure Layout.Agrees (l : Layout) (n : ℕ) : Prop where
  no_empty : [] ∉ pieces l.given
  values : ∀ value ∈ lengths (pieces l.given).tail, Numeral n value

/-! ## 3. What is sent -/

/-- JSON is ASCII, and the text of a list or a mapping is longer than that has elements. -/
structure SizedPython (V M : Type) extends Python V M where
  ascii_dumps : ∀ m, ∀ c ∈ dumps m, c.toNat < 128
  len_lt : ∀ v n, len v = some n → n < (str v).length

/-- What a handler has returned. -/
structure Routed (M : Type) where
  statusCode : ℤ
  /-- `self._response_parsers.get(response_key)` -/
  responseParser : Option (Body M → Str)
  responseHeaders : Dict Str Str
  /-- The headers of the `Response` that middleware has put the data in. -/
  middleware : Option (Dict Str Str)
  responseData : Body M

section Routed

variable {M : Type}

/-- A model that nothing parses has no length. -/
def Routed.encodedData (r : Routed M) : Except MessageError Str :=
  match r.responseParser, r.responseData with
  | some parser, data => .ok (parser data)
  | none, .none => .ok []
  | none, .text s => .ok s
  | none, .message _ => .error .typeError

def Routed.headers (r : Routed M) : Dict Str Str :=
  match r.middleware with
  | some headers => r.responseHeaders.update headers
  | none => r.responseHeaders

/-- The end of `_route_request`. -/
def Routed.prepareResponse (r : Routed M) : Except MessageError Str := do
  let encodedData ← r.encodedData
  let headers := r.headers.items.foldl (fun headers i => headers ++ crlf ++ headerLine i.1 i.2)
    (headerLine contentLength (natStr encodedData.length))
  pure ("HTTP/1.1 ".toList ++ intStr r.statusCode ++ " OK".toList ++ crlf ++ headers ++ crlf ++ crlf ++
    encodedData)

end Routed

inductive Outgoing (V M : Type)
  /-- Errors, and whatever else is sent as a message. -/
  | response (m : HTTPMessage V M)
  | routed (r : Routed M)
  | request (r : HTTPRequest M)

section Outgoing

variable {V M : Type}

def Outgoing.prepare (py : Python V M) : Outgoing V M → Except MessageError Str
  | .response m => m.prepareResponse py
  | .routed r => r.prepareResponse
  | .request r => r.prepareRequest py

def headerLines (headers : Dict Str Str) : List Str := headers.items.map fun i => headerLine i.1 i.2

def HTTPMessage.layout (py : Python V M) (m : HTTPMessage V M) : Except MessageError Layout := do
  let (encodedData, length) ← encodeData py m.data
  pure
    { before := ["HTTP/1.1 ".toList ++ statusStr m.status ++ [' '] ++ m.message]
      length := some length
      after := headerLines m.headers
      rest := encodedData }

def Routed.layout (r : Routed M) : Except MessageError Layout := do
  let encodedData ← r.encodedData
  pure
    { before := ["HTTP/1.1 ".toList ++ intStr r.statusCode ++ " OK".toList]
      length := some encodedData.length
      after := headerLines r.headers
      rest := encodedData }

/-- A length is written for a text only, and a line end in front of any body. -/
def HTTPRequest.layout (py : Python V M) (r : HTTPRequest M) : Except MessageError Layout := do
  let path ← pathWithParams r.url.path r.params
  let before := [r.method.method.value ++ [' '] ++ path ++ " HTTP/1.1".toList,
    headerLine "host".toList r.url.hostname] ++ headerLines r.headers
  match r.data with
  | .none => pure { before, length := none, after := [], rest := [] }
  | .text s =>
    if s = [] then pure { before, length := none, after := [], rest := [] }
    else pure { before, length := some s.length, after := [], rest := crlf ++ s }
  | .message m =>
    pure
      { before, length := none, after := ["content-type: application/msync".toList]
        rest := crlf ++ py.dumps m }

def Outgoing.layout (py : Python V M) : Outgoing V M → Except MessageError Layout
  | .response m => m.layout py
  | .routed r => r.layout
  | .request r => r.layout py

/-- Every character is one byte. -/
def Ascii (s : Str) : Prop := ∀ c ∈ s, c.toNat < 128

/-- Data whose length is counted right. -/
def Data.Sized (py : Python V M) : Data V M → Prop
  | .none | .message _ => True
  | .text s => Ascii s
  | .value v => py.truthy v = false

/-- **What is framed**: ASCII texts and the JSON of models in responses, and requests without a body.
A model is framed in a request if the length is given with it and counts the line end. -/
def Outgoing.Sized (py : Python V M) (l : Layout) : Outgoing V M → Prop
  | .response m => m.data.Sized py ∧ l.Agrees l.rest.length
  | .routed _ => Ascii l.rest ∧ l.Agrees l.rest.length
  | .request r =>
    match r.data with
    | .none => l.Agrees 0
    | .text s => s = [] ∧ l.Agrees 0
    | .message m => lengths (pieces l.given).tail ≠ [] ∧ l.Agrees ((py.dumps m).length + 2)

end Outgoing

/-! ## 4. Lines and layouts -/

section Layouts

variable {l : Layout} {lines lines' : List Str} {n k : ℕ}

theorem lengths_append (lines lines' : List Str) :
    lengths (lines ++ lines') = lengths lines ++ lengths lines' := List.filterMap_append

theorem lengths_contentLength (n : ℕ) :
    lengths [headerLine contentLength (natStr n)] = [natStr n] := by
  have hsplit : splitColon (headerLine contentLength (natStr n)) =
      some (contentLength, ' ' :: natStr n) := by
    rw [headerLine_eq]
    exact splitColon_append (by decide) _
  have hstrip : strip isSpace (' ' :: natStr n) = natStr n :=
    (strip_cons (by decide) _).trans (strip_natStr n)
  have hname : contentLength.map Char.toLower = contentLength := by decide
  unfold lengths
  rw [List.filterMap_cons, hsplit]
  dsimp only
  rw [if_pos hname, hstrip]
  rfl

theorem natStr_ne_nil (n : ℕ) : natStr n ≠ [] := by
  rw [natStr, Nat.toList_repr]
  exact Nat.toDigits_ne_nil

theorem numeral_natStr : Numeral k (natStr n) ↔ n = k := by
  unfold Numeral
  rw [digitsNat_natStr, Option.some_inj]
  exact and_iff_right (natStr_ne_nil n)

theorem pieces_append (lines lines' : List Str) : pieces (lines ++ lines') = pieces lines ++ pieces lines' :=
  List.flatMap_append

theorem pieces_ne_nil (h : lines ≠ []) : pieces lines ≠ [] := by
  obtain ⟨line, lines, rfl⟩ := List.exists_cons_of_ne_nil h
  rw [pieces, List.flatMap_cons]
  exact fun hnil => split_ne_nil _ (List.append_eq_nil_iff.mp hnil).1

theorem pieces_length (n : Option ℕ) :
    pieces (n.map fun n => headerLine contentLength (natStr n)).toList =
      (n.map fun n => headerLine contentLength (natStr n)).toList := by
  cases n with
  | none => rfl
  | some n => exact congrArg (· ++ []) (splitLines_contentLength n)

/-- The length is one of the lines that are read. -/
theorem pieces_lines (l : Layout) :
    pieces l.lines =
      pieces l.before ++ (l.length.map fun n => headerLine contentLength (natStr n)).toList ++
        pieces l.after := by
  rw [Layout.lines, pieces_append, pieces_append, pieces_length]

theorem splitLines_text (hbefore : l.before ≠ []) :
    splitLines l.text = pieces l.lines ++ [] :: splitLines l.rest := by
  have hlines : l.lines ≠ [] := fun h =>
    hbefore (List.append_eq_nil_iff.mp (List.append_eq_nil_iff.mp h).1).1
  have hend : splitLines (crlf.intercalate l.lines ++ crlf) = pieces l.lines ++ [[]] := by
    rw [← List.append_nil (_ ++ crlf), splitLines_append, splitLines_intercalate hlines]
    rfl
  rw [Layout.text, splitLines_append, hend, List.append_assoc]
  rfl

theorem empty_mem_pieces : [] ∈ pieces l.lines ↔ [] ∈ pieces l.given := by
  have hlength : [] ∉ (l.length.map fun n => headerLine contentLength (natStr n)).toList := fun hmem => by
    obtain ⟨n, -, hn⟩ := Option.map_eq_some_iff.mp (Option.mem_toList.mp hmem)
    exact headerLine_ne_nil _ _ hn
  rw [pieces_lines, Layout.given, pieces_append]
  simp only [List.mem_append, hlength, or_false]

theorem intercalate_append (hl : lines' ≠ []) :
    crlf.intercalate (lines ++ lines') = crlf.intercalate (lines ++ [crlf.intercalate lines']) := by
  induction lines with
  | nil => simp [List.intercalate]
  | cons line lines ih =>
    obtain ⟨x, xs, hx⟩ := List.exists_cons_of_ne_nil
      (fun h => hl (List.append_eq_nil_iff.mp h).2 : lines ++ lines' ≠ [])
    obtain ⟨y, ys, hy⟩ := List.exists_cons_of_ne_nil
      (fun h => List.cons_ne_nil _ _ (List.append_eq_nil_iff.mp h).2 :
        lines ++ [crlf.intercalate lines'] ≠ [])
    rw [hx, hy] at ih
    rw [List.cons_append, List.cons_append, hx, hy]
    simpa [List.intercalate] using ih

theorem takeWhile_empty (h : [] ∉ lines) (lines' : List Str) :
    (lines ++ [] :: lines').takeWhile (· ≠ []) = lines := by
  have hlines : ∀ line ∈ lines, decide (line ≠ []) = true := fun line hline =>
    decide_eq_true fun heq => h (heq ▸ hline)
  rw [List.takeWhile_append_of_pos hlines]
  exact List.append_nil lines

theorem dropWhile_empty (h : [] ∉ lines) (lines' : List Str) :
    (lines ++ [] :: lines').dropWhile (· ≠ []) = [] :: lines' := by
  have hlines : ∀ line ∈ lines, decide (line ≠ []) = true := fun line hline =>
    decide_eq_true fun heq => h (heq ▸ hline)
  rw [List.dropWhile_append_of_pos hlines]
  rfl

/-- **What is read of a layout**, up to the first empty line and behind it. -/
theorem framed_text (hbefore : l.before ≠ []) :
    Framed l.text ↔ l.EndsEarly ∨
      [] ∉ pieces l.given ∧ Counts (pieces l.lines).tail (size l.rest) := by
  have hrest : crlf.intercalate (splitLines l.rest) = l.rest := intercalate_split l.rest
  unfold Framed headLines behind
  rw [splitLines_text hbefore]
  by_cases hempty : [] ∈ pieces l.lines
  · have hgiven := empty_mem_pieces.mp hempty
    obtain ⟨first, others, hpieces, hfirst⟩ := List.eq_append_cons_of_mem hempty
    have hbehind : crlf.intercalate (others ++ [] :: splitLines l.rest) =
        crlf.intercalate (others ++ [[], l.rest]) := by
      have happend := @intercalate_append (others ++ [[]]) (splitLines l.rest) (split_ne_nil _)
      rw [hrest, List.append_assoc, List.append_assoc] at happend
      exact happend
    have hearly : l.EndsEarly ↔
        Counts first.tail (size (crlf.intercalate (others ++ [[], l.rest]))) := by
      refine ⟨fun h => ?_, fun h => ⟨hgiven, ?_⟩⟩
      · have hcounts := h.counts
        rwa [hpieces, takeWhile_empty hfirst, dropWhile_empty hfirst] at hcounts
      · rwa [hpieces, takeWhile_empty hfirst, dropWhile_empty hfirst]
    rw [hearly, hpieces, List.append_assoc, List.cons_append, takeWhile_empty hfirst,
      dropWhile_empty hfirst, List.tail_cons, hbehind]
    exact (or_iff_left fun h => h.1 hgiven).symm
  · have hgiven : [] ∉ pieces l.given := fun h => hempty (empty_mem_pieces.mpr h)
    rw [takeWhile_empty hempty, dropWhile_empty hempty, List.tail_cons, hrest]
    exact ⟨fun h => .inr ⟨hgiven, h⟩, fun h => h.elim (fun he => absurd he.empty hgiven) And.right⟩

/-- The length that is written is one of those that count. -/
theorem counts_lines (hbefore : l.before ≠ []) :
    Counts (pieces l.lines).tail k ↔
      (∀ n, l.length = some n → n = k) ∧
        (∀ value ∈ lengths (pieces l.given).tail, Numeral k value) ∧
        (l.length = none → lengths (pieces l.given).tail = [] → k = 0) := by
  have htail : ∀ lines', (pieces l.before ++ lines').tail = (pieces l.before).tail ++ lines' :=
    fun lines' => List.tail_append_of_ne_nil (pieces_ne_nil hbefore)
  have hgiven : lengths (pieces l.given).tail =
      lengths (pieces l.before).tail ++ lengths (pieces l.after) := by
    rw [Layout.given, pieces_append, htail, lengths_append]
  have hlines : lengths (pieces l.lines).tail =
      lengths (pieces l.before).tail ++ ((l.length.map natStr).toList ++ lengths (pieces l.after)) := by
    have hown : lengths (l.length.map fun n => headerLine contentLength (natStr n)).toList =
        (l.length.map natStr).toList := by
      cases l.length with
      | none => rfl
      | some n => exact lengths_contentLength n
    rw [pieces_lines, List.append_assoc, htail, lengths_append, lengths_append, hown]
  rw [hgiven]
  cases hlength : l.length with
  | none =>
    rw [hlength] at hlines
    have hlines : lengths (pieces l.lines).tail =
        lengths (pieces l.before).tail ++ lengths (pieces l.after) := hlines
    exact
      ⟨fun h => ⟨nofun, hlines ▸ h.values, fun _ hnil => h.some_given (hlines.trans hnil)⟩,
        fun h => ⟨hlines ▸ h.2.1, fun hnil => h.2.2 rfl (hlines.symm.trans hnil)⟩⟩
  | some n =>
    rw [hlength] at hlines
    have hlines : lengths (pieces l.lines).tail =
        lengths (pieces l.before).tail ++ natStr n :: lengths (pieces l.after) := hlines
    have hmem : ∀ value, value ∈ lengths (pieces l.lines).tail ↔
        value = natStr n ∨ value ∈ lengths (pieces l.before).tail ++ lengths (pieces l.after) := by
      intro value
      rw [hlines, List.mem_append, List.mem_append, List.mem_cons]
      exact or_left_comm
    constructor
    · intro h
      refine ⟨fun m hm => ?_, fun value hvalue => h.values value ((hmem value).mpr (.inr hvalue)), nofun⟩
      obtain rfl := Option.some.inj hm
      exact numeral_natStr.mp (h.values _ ((hmem _).mpr (.inl rfl)))
    · rintro ⟨hown, hvalues, -⟩
      refine ⟨fun value hvalue => ?_, fun hnil => ?_⟩
      · rcases (hmem value).mp hvalue with rfl | hvalue
        · exact numeral_natStr.mpr (hown n rfl)
        · exact hvalues value hvalue
      · have hown := (hmem (natStr n)).mpr (.inl rfl)
        rw [hnil] at hown
        cases hown

end Layouts

/-! ## 5. What is sent is laid out so -/

section Sent

variable {V M : Type} {py : SizedPython V M} {l : Layout}

theorem intercalate_cons_headers (first : Str) (items : List (Str × Str)) :
    crlf.intercalate (first :: items.map fun i => headerLine i.1 i.2) =
      items.foldl (fun headers i => headers ++ crlf ++ headerLine i.1 i.2) first := by
  induction items generalizing first with
  | nil => simp [List.intercalate]
  | cons i items ih =>
    rw [List.foldl_cons, ← ih, List.map_cons]
    cases items <;> simp [List.intercalate]

theorem intercalate_cons_cons (line line' : Str) (lines : List Str) :
    crlf.intercalate (line :: line' :: lines) = line ++ crlf ++ crlf.intercalate (line' :: lines) := by
  simp [List.intercalate]

theorem text_of_length (first : Str) (n : ℕ) (headers : Dict Str Str) (rest : Str) :
    Layout.text ⟨[first], some n, headerLines headers, rest⟩ =
      first ++ crlf ++ headers.items.foldl (fun headers i => headers ++ crlf ++ headerLine i.1 i.2)
        (headerLine contentLength (natStr n)) ++ crlf ++ crlf ++ rest := by
  have hlines : Layout.lines ⟨[first], some n, headerLines headers, rest⟩ =
      first :: headerLine contentLength (natStr n) :: headers.items.map fun i => headerLine i.1 i.2 := rfl
  rw [Layout.text, hlines, intercalate_cons_cons, intercalate_cons_headers]

/-- The last line of a request is a line end itself. -/
theorem intercalate_request {lines : List Str} (h : lines ≠ []) (body : Str) :
    crlf.intercalate (lines ++ [crlf] ++ if body = [] then [] else [body]) =
      crlf.intercalate lines ++ crlf ++ crlf ++ if body = [] then [] else crlf ++ body := by
  have hlast : ∀ last : List Str, crlf.intercalate (lines ++ [crlf] ++ last) =
      crlf.intercalate lines ++ crlf ++ crlf.intercalate (crlf :: last) := by
    intro last
    induction lines with
    | nil => exact absurd rfl h
    | cons line lines ih =>
      cases lines with
      | nil => simp [List.intercalate]
      | cons line' lines =>
        have ih := ih (List.cons_ne_nil _ _)
        simp only [List.cons_append] at ih ⊢
        rw [intercalate_cons_cons, ih, intercalate_cons_cons]
        simp only [List.append_assoc]
  split
  · rw [hlast]
    simp [List.intercalate]
  · rw [hlast, intercalate_cons_cons]
    simp [List.intercalate]

theorem request_layout (r : HTTPRequest M) :
    r.prepareRequest py.toPython = (r.layout py.toPython).map Layout.text := by
  unfold HTTPRequest.prepareRequest HTTPRequest.layout
  cases pathWithParams r.url.path r.params with
  | error e => rfl
  | ok path =>
    have hlines : ∀ added body, crlf.intercalate
        ([r.method.method.value ++ [' '] ++ path ++ " HTTP/1.1".toList,
          headerLine "host".toList r.url.hostname] ++ headerLines r.headers ++ added ++ [crlf] ++
            if body = [] then [] else [body]) =
        crlf.intercalate ([r.method.method.value ++ [' '] ++ path ++ " HTTP/1.1".toList,
          headerLine "host".toList r.url.hostname] ++ headerLines r.headers ++ added) ++ crlf ++ crlf ++
            if body = [] then [] else crlf ++ body :=
      fun added body => intercalate_request (List.cons_ne_nil _ _) body
    change Except.ok (crlf.intercalate (_ ++ headerLines r.headers ++
      (encodeBody py.toPython r.data).1 ++ _ ++
        if (encodeBody py.toPython r.data).2 = [] then [] else [(encodeBody py.toPython r.data).2])) = _
    rw [hlines]
    cases r.data with
    | none => exact congrArg Except.ok (by simp [encodeBody, Layout.text, Layout.lines])
    | message m =>
      have hne : py.dumps m ≠ [] := py.dumps_ne_nil m
      exact congrArg Except.ok (by simp [encodeBody, Layout.text, Layout.lines, hne])
    | text s =>
      by_cases hs : s = []
      · have hbody : encodeBody py.toPython (.text s) = ([], []) := if_pos hs
        change _ = Except.map _ (if s = [] then _ else _)
        rw [hbody, if_pos hs]
        exact congrArg Except.ok (by simp [Layout.text, Layout.lines])
      · have hbody : encodeBody py.toPython (.text s) =
            ([headerLine contentLength (natStr s.length)], s) := if_neg hs
        change _ = Except.map _ (if s = [] then _ else _)
        rw [hbody, if_neg hs, if_neg hs]
        exact congrArg Except.ok (by simp [Layout.text, Layout.lines])

/-- **What is sent is what is laid out.** -/
theorem prepare_eq (o : Outgoing V M) :
    o.prepare py.toPython = (o.layout py.toPython).map Layout.text := by
  cases o with
  | request r => exact request_layout r
  | response m =>
    change m.prepareResponse _ = (m.layout _).map _
    unfold HTTPMessage.prepareResponse HTTPMessage.layout
    cases encodeData py.toPython m.data with
    | error e => rfl
    | ok encoded => exact congrArg Except.ok (text_of_length _ _ _ _).symm
  | routed r =>
    change r.prepareResponse = r.layout.map _
    unfold Routed.prepareResponse Routed.layout
    cases r.encodedData with
    | error e => rfl
    | ok encodedData => exact congrArg Except.ok (text_of_length _ _ _ _).symm

/-! ## 6. Lengths -/

theorem size_append (s t : Str) : size (s ++ t) = size s + size t := by
  rw [size, encode_append, List.length_append]
  rfl

theorem size_ascii {s : Str} : s.length = size s ↔ Ascii s :=
  eq_comm.trans length_encode_iff

theorem size_crlf (s : Str) : size (crlf ++ s) = size s + 2 := by
  rw [size_append, Nat.add_comm]
  rfl

/-- Which data are counted right.  No data are counted too long. -/
theorem encoded_length {data : Data V M} {body : Str} {n : ℕ}
    (h : encodeData py.toPython data = .ok (body, n)) :
    (n = size body ↔ data.Sized py.toPython) ∧ n ≤ body.length := by
  cases data with
  | none =>
    obtain ⟨rfl, rfl⟩ := Prod.mk.inj (Except.ok.inj h)
    exact ⟨iff_of_true rfl trivial, le_refl _⟩
  | text s =>
    obtain ⟨rfl, rfl⟩ := Prod.mk.inj (Except.ok.inj h)
    exact ⟨size_ascii, le_refl _⟩
  | message m =>
    obtain ⟨rfl, rfl⟩ := Prod.mk.inj (Except.ok.inj h)
    exact ⟨iff_of_true (size_ascii.mpr (py.ascii_dumps m)) trivial, le_refl _⟩
  | value v =>
    change (n = size body ↔ py.truthy v = false) ∧ _
    rw [encodeData] at h
    split at h
    case isFalse hfalsy =>
      obtain ⟨rfl, rfl⟩ := Prod.mk.inj (Except.ok.inj h)
      exact ⟨iff_of_true rfl (Bool.eq_false_iff.mpr hfalsy), le_refl _⟩
    case isTrue htruthy =>
      split at h
      case h_2 => cases h
      case h_1 k hk =>
        obtain ⟨rfl, rfl⟩ := Prod.mk.inj (Except.ok.inj h)
        have hlonger := py.len_lt v k hk
        have hsize : (py.str v).length ≤ size (py.str v) := length_le_encode _
        have hfalsy : py.truthy v ≠ false := by simp [htruthy]
        exact ⟨iff_of_false (by omega) hfalsy, hlonger.le⟩

/-- Where a length is written, it and all that are given have to be right. -/
theorem counts_of_length {n : ℕ} (hbefore : l.before ≠ []) (hlength : l.length = some n) :
    [] ∉ pieces l.given ∧ Counts (pieces l.lines).tail (size l.rest) ↔
      n = size l.rest ∧ l.Agrees n := by
  rw [counts_lines hbefore, hlength]
  constructor
  · rintro ⟨hempty, hown, hvalues, -⟩
    have hn := hown n rfl
    exact ⟨hn, hempty, hn ▸ hvalues⟩
  · rintro ⟨hn, hempty, hvalues⟩
    exact ⟨hempty, fun m hm => (Option.some.inj hm).symm.trans hn, hn ▸ hvalues, nofun⟩

/-- Where none is written, one has to be given unless nothing follows. -/
theorem counts_of_none {n : ℕ} (hbefore : l.before ≠ []) (hlength : l.length = none)
    (hsize : size l.rest = n) :
    [] ∉ pieces l.given ∧ Counts (pieces l.lines).tail (size l.rest) ↔
      (lengths (pieces l.given).tail = [] → n = 0) ∧ l.Agrees n := by
  rw [counts_lines hbefore, hlength, hsize]
  exact
    ⟨fun ⟨hempty, _, hvalues, hnone⟩ => ⟨hnone rfl, hempty, hvalues⟩,
      fun ⟨hnone, hempty, hvalues⟩ => ⟨hempty, nofun, hvalues, fun _ => hnone⟩⟩

theorem layout_response {m : HTTPMessage V M} (h : m.layout py.toPython = .ok l) :
    l.before ≠ [] ∧ ∃ n, l.length = some n ∧ encodeData py.toPython m.data = .ok (l.rest, n) := by
  unfold HTTPMessage.layout at h
  cases hencode : encodeData py.toPython m.data with
  | error e =>
    rw [hencode] at h
    cases h
  | ok encoded =>
    rw [hencode] at h
    obtain rfl := Except.ok.inj h
    exact ⟨List.cons_ne_nil _ _, encoded.2, rfl, rfl⟩

theorem layout_routed {r : Routed M} (h : r.layout = .ok l) :
    l.before ≠ [] ∧ l.length = some l.rest.length := by
  unfold Routed.layout at h
  cases hencode : r.encodedData with
  | error e =>
    rw [hencode] at h
    cases h
  | ok encodedData =>
    rw [hencode] at h
    obtain rfl := Except.ok.inj h
    exact ⟨List.cons_ne_nil _ _, rfl⟩

theorem layout_request {r : HTTPRequest M} (h : r.layout py.toPython = .ok l) :
    l.before ≠ [] ∧
      match r.data with
      | .none => l.length = none ∧ l.rest = []
      | .text s =>
        s = [] ∧ l.length = none ∧ l.rest = [] ∨
          s ≠ [] ∧ l.length = some s.length ∧ l.rest = crlf ++ s
      | .message m => l.length = none ∧ l.rest = crlf ++ py.dumps m := by
  unfold HTTPRequest.layout at h
  cases hpath : pathWithParams r.url.path r.params with
  | error e =>
    rw [hpath] at h
    cases h
  | ok path =>
    rw [hpath] at h
    cases hdata : r.data with
    | none =>
      rw [hdata] at h
      obtain rfl := Except.ok.inj h
      exact ⟨List.cons_ne_nil _ _, rfl, rfl⟩
    | message m =>
      rw [hdata] at h
      obtain rfl := Except.ok.inj h
      exact ⟨List.cons_ne_nil _ _, rfl, rfl⟩
    | text s =>
      rw [hdata] at h
      change (if s = [] then _ else _) = _ at h
      split at h
      case isTrue hs =>
        obtain rfl := Except.ok.inj h
        exact ⟨List.cons_ne_nil _ _, .inl ⟨hs, rfl, rfl⟩⟩
      case isFalse hs =>
        obtain rfl := Except.ok.inj h
        exact ⟨List.cons_ne_nil _ _, .inr ⟨hs, rfl, rfl⟩⟩

theorem sized_request {r : HTTPRequest M} (h : r.layout py.toPython = .ok l) :
    [] ∉ pieces l.given ∧ Counts (pieces l.lines).tail (size l.rest) ↔
      (Outgoing.request r).Sized py.toPython l := by
  obtain ⟨hbefore, hbody⟩ := layout_request h
  change _ ↔ match r.data with | .none => _ | .text s => _ | .message m => _
  cases hdata : r.data with
  | none =>
    rw [hdata] at hbody
    obtain ⟨hlength, hrest⟩ := hbody
    rw [counts_of_none hbefore hlength (congrArg size hrest)]
    exact and_iff_right fun _ => rfl
  | message m =>
    rw [hdata] at hbody
    obtain ⟨hlength, hrest⟩ := hbody
    have hsize : size l.rest = (py.dumps m).length + 2 := by
      rw [hrest, size_crlf, ← size_ascii.mpr (py.ascii_dumps m)]
    rw [counts_of_none hbefore hlength hsize]
    exact and_congr_left' ⟨fun hnone hnil => absurd (hnone hnil) (Nat.succ_ne_zero _),
      fun hgiven hnil => absurd hnil hgiven⟩
  | text s =>
    rw [hdata] at hbody
    obtain ⟨rfl, hlength, hrest⟩ | ⟨hs, hlength, hrest⟩ := hbody
    · rw [counts_of_none hbefore hlength (congrArg size hrest)]
      exact and_congr_left' (iff_of_true (fun _ => rfl) rfl)
    · -- the line end in front is not counted
      have hsize : s.length ≤ size s := length_le_encode s
      rw [counts_of_length hbefore hlength, hrest, size_crlf]
      exact iff_of_false (fun hcounts => by have := hcounts.1; omega) fun hempty => hs hempty.1

/-- **Where nothing ends the headers early, what is framed is what is sized.** -/
theorem sized_iff {o : Outgoing V M} (h : o.layout py.toPython = .ok l) :
    l.before ≠ [] ∧
      ([] ∉ pieces l.given ∧ Counts (pieces l.lines).tail (size l.rest) ↔ o.Sized py.toPython l) := by
  cases o with
  | request r => exact ⟨(layout_request h).1, sized_request h⟩
  | response m =>
    obtain ⟨hbefore, n, hlength, hencode⟩ := layout_response h
    obtain ⟨hsized, hle⟩ := encoded_length hencode
    have hsize : l.rest.length ≤ size l.rest := length_le_encode _
    refine ⟨hbefore, ?_⟩
    rw [counts_of_length hbefore hlength]
    constructor
    · rintro ⟨hn, hagrees⟩
      have hrest : n = l.rest.length := by omega
      exact ⟨hsized.mp hn, hrest ▸ hagrees⟩
    · rintro ⟨hdata, hagrees⟩
      have hn := hsized.mpr hdata
      have hrest : n = l.rest.length := by omega
      exact ⟨hn, hrest ▸ hagrees⟩
  | routed r =>
    obtain ⟨hbefore, hlength⟩ := layout_routed h
    refine ⟨hbefore, ?_⟩
    rw [counts_of_length hbefore hlength, size_ascii]
    exact Iff.rfl

/-- **Which messages are framed.** -/
theorem framed_outgoing_iff (py : SizedPython V M) (o : Outgoing V M) (text : Str)
    (h : o.prepare py.toPython = .ok text) :
    Framed text ↔ ∃ l, o.layout py.toPython = .ok l ∧ (l.EndsEarly ∨ o.Sized py.toPython l) := by
  rw [prepare_eq] at h
  cases hlayout : o.layout py.toPython with
  | error e =>
    rw [hlayout] at h
    cases h
  | ok l =>
    rw [hlayout] at h
    obtain rfl := Except.ok.inj h
    obtain ⟨hbefore, hsized⟩ := sized_iff hlayout
    rw [framed_text hbefore, hsized]
    exact ⟨fun hframed => ⟨l, rfl, hframed⟩, fun ⟨l', hl', hframed⟩ => Except.ok.inj hl' ▸ hframed⟩

theorem ascii_dumpsNumber (n : ℕ) : Ascii (dumpsNumber n) := by
  have hbraces : ∀ c ∈ '\x7b' :: "\"number\": ".toList, c.toNat < 128 := forall_of_all (by decide)
  intro c hc
  rcases List.mem_append.mp hc with hc | hc
  · rw [← List.cons_append] at hc
    rcases List.mem_append.mp hc with hc | hc
    · exact hbraces c hc
    · have hrange := Ascii.isDigit_iff.mp (isDigit_of_mem_natStr hc)
      omega
  · rw [List.mem_singleton.mp hc]
    decide

/-- Each Boolean is written with a letter at least. -/
theorem length_strBools (v : List Bool) : v.length < (strBools v).length := by
  have hwords : ∀ v : List Bool, v.length ≤
      (", ".toList.intercalate (v.map fun b => if b then "True".toList else "False".toList)).length := by
    intro v
    induction v with
    | nil => exact Nat.zero_le _
    | cons b v ih =>
      have hword : 0 < (if b then "True".toList else "False".toList).length := by
        cases b <;> decide
      cases v with
      | nil => simpa [List.intercalate, Nat.succ_le_iff] using hword
      | cons b' v =>
        simp only [List.map_cons, List.intercalate, List.intersperse_cons_cons, List.flatten_cons,
          List.length_append, List.length_cons] at ih ⊢
        omega
  have hlength := hwords v
  simp only [strBools, List.length_append, List.length_cons]
  omega

def sizedPython : SizedPython (List Bool) Nat where
  toPython := asciiPython
  ascii_dumps := ascii_dumpsNumber
  len_lt v n h := by
    obtain rfl := Option.some.inj h
    exact length_strBools v

/-- A text, a list that is empty, and a model. -/
theorem framed_ok :
    (∃ text, (Outgoing.response { status := some 200, data := .text "ok".toList }).prepare
      sizedPython.toPython = .ok text ∧ Framed text) ∧
      (∃ text, (Outgoing.response { status := some 200, data := .value [] }).prepare
        sizedPython.toPython = .ok text ∧ Framed text) ∧
      ∃ text, (Outgoing.response { status := some 200, data := .message 7 }).prepare
        sizedPython.toPython = .ok text ∧ Framed text := by
  have hframed : ∀ (data : Data (List Bool) Nat) (rest : Str) (n : ℕ),
      encodeData sizedPython.toPython data = .ok (rest, n) → data.Sized sizedPython.toPython →
      ∃ text, (Outgoing.response { status := some 200, data }).prepare sizedPython.toPython = .ok text ∧
        Framed text := by
    intro data rest n hencode hsized
    have hlayout : (Outgoing.response { status := some 200, data }).layout sizedPython.toPython =
        .ok ⟨["HTTP/1.1 200 OK".toList], some n, [], rest⟩ := by
      change HTTPMessage.layout _ _ = _
      unfold HTTPMessage.layout
      rw [hencode]
      rfl
    have htext := (prepare_eq (.response { status := some 200, data })).trans (congrArg _ hlayout)
    have hempty : [] ∉ pieces ["HTTP/1.1 200 OK".toList] := by decide
    exact ⟨_, htext, (framed_outgoing_iff sizedPython _ _ htext).mpr
      ⟨_, hlayout, .inr ⟨hsized, hempty, List.forall_mem_nil _⟩⟩⟩
  have hascii : Ascii "ok".toList := forall_of_all (by decide)
  exact ⟨hframed _ _ _ rfl hascii, hframed (.value []) _ _ rfl rfl, hframed (.message 7) _ _ rfl trivial⟩

/-- A character of two bytes. -/
theorem not_framed : ¬ ∀ (o : Outgoing (List Bool) Nat) (text : Str),
    o.prepare sizedPython.toPython = .ok text → Framed text := by
  intro h
  have hresponse := h (.response { status := some 200, data := .text "\u00e9".toList }) _ rfl
  have hvalue := hresponse.values "1".toList (by decide +kernel)
  exact absurd hvalue.2 (by decide +kernel)

end Sent

end Http
end Hedra
