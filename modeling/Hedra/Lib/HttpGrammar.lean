/-
# The grammar of HTTP/1.1 messages

Requests in origin form, with their fields and their framing, and the chunked coding, which responses
share.  An element of the grammar carries its text and the proof that it is one; `encoded` is its
bytes.  A message is read in one way only: a field ends with its line, and its value is what stands
between the blanks.

* `Field.item_eq`: a field line is read in one way;
* `fields_eq`: the fields end with the first blank line.
-/
import Hedra.Lib.Lines
import Hedra.Lib.Numerals

namespace Lib
namespace HttpGrammar

abbrev Bytes := List UInt8

def crlf : Bytes := [13, 10]

/-! ## 1. Characters -/

def isDigit (b : UInt8) : Bool := 48 ≤ b ∧ b ≤ 57

def isAlpha (b : UInt8) : Bool := 65 ≤ b ∧ b ≤ 90 ∨ 97 ≤ b ∧ b ≤ 122

def isHex (b : UInt8) : Bool := isDigit b ∨ 65 ≤ b ∧ b ≤ 70 ∨ 97 ≤ b ∧ b ≤ 102

/-- Letters, digits, and the marks of a token. -/
def isTchar (b : UInt8) : Bool :=
  isAlpha b || isDigit b || b ∈ [33, 35, 36, 37, 38, 39, 42, 43, 45, 46, 94, 95, 96, 124, 126]

/-- Visible characters, and those beyond ASCII. -/
def isFieldVchar (b : UInt8) : Bool := 33 ≤ b ∧ b ≠ 127

def isBlank (b : UInt8) : Bool := b = 32 ∨ b = 9

/-- The characters of a path segment, apart from percent-encoded ones. -/
def isPchar (b : UInt8) : Bool :=
  isAlpha b || isDigit b ||
    b ∈ [33, 36, 38, 39, 40, 41, 42, 43, 44, 45, 46, 58, 59, 61, 64, 95, 126]

/-- Characters of a segment, percent-encoded ones, and those of `more`. -/
def uriChars (more : List UInt8) : Bytes → Bool
  | [] => true
  | b :: text =>
    if b = 37 then
      match text with
      | h :: l :: rest => isHex h && isHex l && uriChars more rest
      | _ => false
    else (isPchar b || b ∈ more) && uriChars more text

def isToken (t : Bytes) : Bool := t ≠ [] && t.all isTchar

def isContent (v : Bytes) : Bool := v.all fun b => isFieldVchar b || isBlank b

/-- A field value begins and ends with what is not blank. -/
structure FieldValue (v : Bytes) : Prop where
  content : isContent v
  head : ∀ b, v.head? = some b → isBlank b = false
  last : ∀ b, v.getLast? = some b → isBlank b = false

/-- A path and a query, which is absent or follows a question mark. -/
structure OriginForm (path : Bytes) (query : Option Bytes) : Prop where
  slash : path.head? = some 47
  path : uriChars [47] path
  query : ∀ q, query = some q → uriChars [47, 63] q

/-! ## 2. Fields -/

/-- A field with the blanks around its value. -/
structure Field where
  name : Bytes
  before : Bytes
  value : Bytes
  after : Bytes
  token : isToken name
  fieldValue : FieldValue value
  blank_before : before.all isBlank
  blank_after : after.all isBlank

namespace Field

def content (f : Field) : Bytes := f.before ++ (f.value ++ f.after)

def encoded (f : Field) : Bytes := f.name ++ 58 :: (f.content ++ crlf)

def item (f : Field) : Bytes × Bytes := (f.name, f.value)

end Field

/-- The value between blanks. -/
def trim (s : Bytes) : Bytes := ((s.dropWhile isBlank).reverse.dropWhile isBlank).reverse

theorem dropWhile_append_of_all {p : UInt8 → Bool} {l r : Bytes} (hl : l.all p)
    (hr : ∀ b, r.head? = some b → p b = false) : (l ++ r).dropWhile p = r := by
  rw [List.dropWhile_append_of_pos (List.all_eq_true.mp hl)]
  cases r with
  | nil => rfl
  | cons b r => exact List.dropWhile_cons_of_neg (by simp [hr b rfl])

theorem head_dropWhile {p : UInt8 → Bool} {l : Bytes} {b : UInt8}
    (h : (l.dropWhile p).head? = some b) : p b = false := by
  induction l with
  | nil => cases h
  | cons x l ih =>
    by_cases hx : p x
    · rw [List.dropWhile_cons_of_pos hx] at h
      exact ih h
    · rw [List.dropWhile_cons_of_neg hx] at h
      obtain rfl := Option.some.inj h
      simpa using hx

/-- Blanks around a value are taken off. -/
theorem trim_append {before value after : Bytes} (hbefore : before.all isBlank)
    (hafter : after.all isBlank) (hv : FieldValue value) :
    trim (before ++ (value ++ after)) = value := by
  have hfront : (before ++ (value ++ after)).dropWhile isBlank = value ++ after ∨ value = [] := by
    cases hval : value with
    | nil => exact .inr rfl
    | cons b v =>
      refine .inl (dropWhile_append_of_all hbefore fun x hx => hv.head x ?_)
      rw [hval]
      exact hx
  rcases hfront with hfront | rfl
  · rw [trim, hfront, List.reverse_append, dropWhile_append_of_all, List.reverse_reverse]
    · rw [List.all_reverse]
      exact hafter
    · intro b hb
      rw [List.head?_reverse] at hb
      exact hv.last b hb
  · have hall : (before ++ ([] ++ after)).all isBlank := by simp [hbefore, hafter]
    have hnil := dropWhile_append_of_all hall (r := []) (fun b hb => nomatch hb)
    rw [List.append_nil] at hnil
    rw [trim, hnil]
    rfl

theorem Field.trim_content (f : Field) : trim f.content = f.value :=
  trim_append f.blank_before f.blank_after f.fieldValue

/-- Any content is a value with blanks around it. -/
theorem exists_trim {s : Bytes} (h : isContent s) :
    ∃ before after, before.all isBlank ∧ after.all isBlank ∧ FieldValue (trim s) ∧
      s = before ++ (trim s ++ after) := by
  have hback : s.dropWhile isBlank =
      trim s ++ ((s.dropWhile isBlank).reverse.takeWhile isBlank).reverse := by
    rw [trim, ← List.reverse_append, List.takeWhile_append_dropWhile, List.reverse_reverse]
  have hs : s = s.takeWhile isBlank ++
      (trim s ++ ((s.dropWhile isBlank).reverse.takeWhile isBlank).reverse) := by
    rw [← hback, List.takeWhile_append_dropWhile]
  refine ⟨_, _, List.all_takeWhile, ?_, ⟨?_, fun b hb => ?_, fun b hb => ?_⟩, hs⟩
  · rw [List.all_reverse]
    exact List.all_takeWhile
  · rw [isContent, hs, List.all_append, List.all_append] at h
    simp only [Bool.and_eq_true] at h
    exact h.2.1
  · refine head_dropWhile (l := s) ?_
    rw [hback]
    cases htrim : trim s with
    | nil => rw [htrim] at hb; cases hb
    | cons x r => rw [htrim] at hb; exact hb
  · rw [trim, List.getLast?_reverse] at hb
    exact head_dropWhile hb

/-- Any content stands in a field, with its value between the blanks. -/
theorem exists_field {name content : Bytes} (hname : isToken name) (hcontent : isContent content) :
    ∃ f : Field, f.encoded = name ++ 58 :: (content ++ crlf) ∧ f.item = (name, trim content) := by
  obtain ⟨before, after, hbefore, hafter, hvalue, heq⟩ := exists_trim hcontent
  refine ⟨⟨name, before, trim content, after, hname, hvalue, hbefore, hafter⟩, ?_, rfl⟩
  rw [Field.encoded, Field.content, ← heq]

theorem trim_of_fieldValue {v : Bytes} (h : FieldValue v) : trim v = v := by
  simpa using @trim_append [] v [] rfl rfl h

theorem isTchar_ne {b : UInt8} (h : isTchar b) : b ≠ 10 ∧ b ≠ 32 ∧ b ≠ 58 := by
  refine ⟨?_, ?_, ?_⟩ <;> rintro rfl <;> exact absurd h (by decide)

theorem not_mem_of_isToken {t : Bytes} (h : isToken t) : 10 ∉ t ∧ 32 ∉ t ∧ 58 ∉ t := by
  rw [isToken, Bool.and_eq_true] at h
  have hall := List.all_eq_true.mp h.2
  exact ⟨fun hm => (isTchar_ne (hall _ hm)).1 rfl, fun hm => (isTchar_ne (hall _ hm)).2.1 rfl,
    fun hm => (isTchar_ne (hall _ hm)).2.2 rfl⟩

theorem not_mem_of_uriChars {more : List UInt8} (hmore : 32 ∉ more) {text : Bytes}
    (h : uriChars more text) : 32 ∉ text := by
  induction text using uriChars.induct with
  | case1 => exact List.not_mem_nil
  | case2 x l rest ih =>
    rw [uriChars, if_pos rfl] at h
    simp only [Bool.and_eq_true] at h
    have hx : x ≠ 32 := by rintro rfl; exact absurd h.1.1 (by decide)
    have hl : l ≠ 32 := by rintro rfl; exact absurd h.1.2 (by decide)
    simpa [hx.symm, hl.symm] using ih h.2
  | case3 text hshort =>
    rw [uriChars, if_pos rfl] at h
    · cases h
    · exact hshort
  | case4 b text hb ih =>
    rw [uriChars.eq_def] at h
    simp only [if_neg hb, Bool.and_eq_true] at h
    have hne : b ≠ 32 := by
      rintro rfl
      simp [isPchar, isAlpha, isDigit, hmore] at h
    simpa [hne.symm] using ih h.2

theorem not_mem_of_isContent {v : Bytes} (h : isContent v) : 10 ∉ v := fun hm =>
  absurd (List.all_eq_true.mp h _ hm) (by decide)

theorem Field.content_isContent (f : Field) : isContent f.content := by
  have hblank : ∀ {l : Bytes}, l.all isBlank → isContent l := fun hl =>
    List.all_eq_true.mpr fun b hb => by simp [List.all_eq_true.mp hl b hb]
  have := f.fieldValue.content
  rw [isContent] at this ⊢
  rw [Field.content, List.all_append, List.all_append, this]
  simp only [Bool.and_eq_true, true_and]
  exact ⟨hblank f.blank_before, hblank f.blank_after⟩

theorem Field.line (f : Field) : Lines.Line 10 f.encoded := by
  have hencoded : f.encoded = (f.name ++ 58 :: (f.content ++ [13])) ++ [10] := by
    simp [Field.encoded, crlf]
  rw [hencoded]
  refine .of_not_mem ?_
  have hname := (not_mem_of_isToken f.token).1
  have hcontent := not_mem_of_isContent f.content_isContent
  simp [hname, hcontent]

theorem Field.colon_mem (f : Field) : 58 ∈ f.encoded :=
  List.mem_append_right _ List.mem_cons_self

/-- **A field line is read in one way.** -/
theorem Field.item_eq {f g : Field} (h : f.encoded = g.encoded) : f.item = g.item := by
  have hline : ∀ f : Field, Lines.Line 58 (f.name ++ [58]) := fun f =>
    .of_not_mem (not_mem_of_isToken f.token).2.2
  have hsplit : (f.name ++ [58]) ++ (f.content ++ crlf) = (g.name ++ [58]) ++ (g.content ++ crlf) := by
    simpa [Field.encoded] using h
  obtain ⟨hname, hcontent⟩ := Lines.eq_of_append (hline f) (hline g) hsplit
  rw [Field.item, Field.item, ← f.trim_content, ← g.trim_content,
    List.append_cancel_right hcontent, List.append_cancel_right hname]

/-- **The fields end with the first blank line.** -/
theorem fields_eq {fs gs : List Field} {a b : Bytes}
    (h : fs.flatMap Field.encoded ++ (crlf ++ a) = gs.flatMap Field.encoded ++ (crlf ++ b)) :
    fs.map Field.item = gs.map Field.item ∧ a = b := by
  have hblank : Lines.Line 10 crlf := .of_not_mem (c := [13]) (by decide)
  have hne : ∀ f : Field, f.encoded ≠ crlf := fun f heq =>
    absurd (heq ▸ f.colon_mem) (by decide)
  induction fs generalizing gs with
  | nil =>
    cases gs with
    | nil => exact ⟨rfl, List.append_cancel_left h⟩
    | cons g gs =>
      rw [List.flatMap_cons, List.append_assoc] at h
      exact absurd (Lines.eq_of_append hblank g.line h).1.symm (hne g)
  | cons f fs ih =>
    cases gs with
    | nil =>
      rw [List.flatMap_cons, List.append_assoc] at h
      exact absurd (Lines.eq_of_append f.line hblank h).1 (hne f)
    | cons g gs =>
      rw [List.flatMap_cons, List.flatMap_cons, List.append_assoc, List.append_assoc] at h
      obtain ⟨hfg, hrest⟩ := Lines.eq_of_append f.line g.line h
      obtain ⟨hitems, hab⟩ := ih hrest
      exact ⟨by rw [List.map_cons, List.map_cons, Field.item_eq hfg, hitems], hab⟩

/-! ## 3. The chunked coding -/

/-- The line in front of a chunk: its size, and extensions, which have a semicolon. -/
structure SizeLine where
  size : Bytes
  extension : Bytes
  numeral : Numerals.Numeral 16 size
  extension_eq : extension = [] ∨ 59 ∈ extension
  extension_sep : 10 ∉ extension

def SizeLine.value (l : SizeLine) : ℕ := Numerals.value 16 0 l.size

def SizeLine.encoded (l : SizeLine) : Bytes := l.size ++ l.extension ++ crlf

theorem SizeLine.line (l : SizeLine) : Lines.Line 10 l.encoded := by
  have hsize : 10 ∉ l.size := fun h => absurd (l.numeral.digits 10 h) (by decide)
  have hencoded : l.encoded = (l.size ++ l.extension ++ [13]) ++ [10] := by
    simp [SizeLine.encoded, crlf]
  rw [hencoded]
  refine .of_not_mem ?_
  simp only [List.mem_append, not_or]
  exact ⟨⟨hsize, l.extension_sep⟩, by decide⟩

structure Chunk extends SizeLine where
  data : Bytes
  value_eq : toSizeLine.value = data.length
  data_ne : data ≠ []

def Chunk.encoded (c : Chunk) : Bytes := c.toSizeLine.encoded ++ (c.data ++ crlf)

/-- The chunks, the size line of the last one, and the trailer. -/
structure Chunked where
  chunks : List Chunk
  last : SizeLine
  trailer : List Field
  value_last : last.value = 0

def Chunked.payload (c : Chunked) : Bytes := c.chunks.flatMap Chunk.data

def Chunked.encoded (c : Chunked) : Bytes :=
  c.chunks.flatMap Chunk.encoded ++ (c.last.encoded ++ (c.trailer.flatMap Field.encoded ++ crlf))

/-- The coding is longer than what is coded. -/
theorem Chunked.length_lt (c : Chunked) : c.payload.length < c.encoded.length := by
  have hchunks : (c.chunks.flatMap Chunk.data).length ≤ (c.chunks.flatMap Chunk.encoded).length := by
    induction c.chunks with
    | nil => exact Nat.le_refl _
    | cons x xs ih =>
      simp only [List.flatMap_cons, List.length_append, Chunk.encoded]
      omega
  simp only [Chunked.payload, Chunked.encoded, List.length_append, crlf, List.length_cons]
  omega

/-! ## 4. Requests -/

structure Request where
  method : Bytes
  path : Bytes
  query : Option Bytes
  fields : List (Bytes × Bytes)
  body : Bytes

namespace Request

def target (r : Request) : Bytes :=
  match r.query with
  | none => r.path
  | some q => r.path ++ 63 :: q

/-- `HTTP/1.1` -/
def version : Bytes := [72, 84, 84, 80, 47, 49, 46, 49]

def line (r : Request) : Bytes :=
  r.method ++ 32 :: (r.target ++ 32 :: (version ++ crlf))

end Request

def lower (name : Bytes) : Bytes := name.map fun b => if 65 ≤ b ∧ b ≤ 90 then b + 32 else b

/-- The values of the fields of that name, in any case. -/
def valuesOf (name : Bytes) (fields : List (Bytes × Bytes)) : List Bytes :=
  (fields.filter fun f => lower f.1 = name).map Prod.snd

/-- `content-length` -/
def contentLength : Bytes :=
  [99, 111, 110, 116, 101, 110, 116, 45, 108, 101, 110, 103, 116, 104]

/-- `transfer-encoding` -/
def transferEncoding : Bytes :=
  [116, 114, 97, 110, 115, 102, 101, 114, 45, 101, 110, 99, 111, 100, 105, 110, 103]

/-- The last coding that a value of `Transfer-Encoding` names is `chunked`. -/
def endsChunked (value : Bytes) : Bool :=
  lower (trim (value.reverse.takeWhile (· ≠ 44)).reverse) = [99, 104, 117, 110, 107, 101, 100]

/-- What stands behind the fields, and the body that it is. -/
inductive Framed (fields : List (Bytes × Bytes)) : Bytes → Bytes → Prop
  | empty (hcoding : valuesOf transferEncoding fields = [])
      (hlength : valuesOf contentLength fields = []) : Framed fields [] []
  | length {body : Bytes} (hcoding : valuesOf transferEncoding fields = [])
      (hlength : valuesOf contentLength fields ≠ [])
      (hvalue : ∀ v ∈ valuesOf contentLength fields,
        Numerals.Numeral 10 v ∧ Numerals.value 10 0 v = body.length) : Framed fields body body
  | chunked (c : Chunked) {v : Bytes}
      (hcoding : (valuesOf transferEncoding fields).getLast? = some v) (hv : endsChunked v) :
      Framed fields c.encoded c.payload

/-- The text is that request, and nothing follows it. -/
structure Parse (text : Bytes) (r : Request) where
  fields : List Field
  rest : Bytes
  text_eq : text = r.line ++ (fields.flatMap Field.encoded ++ (crlf ++ rest))
  fields_eq : fields.map Field.item = r.fields
  token : isToken r.method
  form : OriginForm r.path r.query
  framed : Framed r.fields rest r.body

end HttpGrammar
end Lib
