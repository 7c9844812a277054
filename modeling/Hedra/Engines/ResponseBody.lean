/-
# The body of an HTTP/1 response

A body is read (`core/engines/types/http/client.py`) by its `Content-Length` with one `readexactly`,
which is a plain `read`: it takes what the buffer holds, up to the length.  The body is the payload
exactly when all of it has come in by that look.  A chunked body is read line by line and chunk by
chunk; the line behind the last chunk is appended to it, so that it is never the payload when each
chunk is there as it is read.  A read that cuts a chunk short drops two bytes of it and takes the
rest for a size line; this can, by accident, make up for that line.

* `right_fixed_iff`: a body with a length is right exactly when the look at the buffer finds all of
  it;
* `getLast_of_readChunks`: a chunked body ends with a line end, however it comes in;
* `readsBody_iff`: which bodies are read right, in any cut and in some cut.
-/
import Hedra.Engines.Reader
import Hedra.Lib.HttpGrammar

namespace Hedra
namespace Engines
namespace ResponseBody

open Lib
open HttpGrammar (crlf Chunk SizeLine)
open Reader (Bytes sep takeChunk)

/-- `_DEFAULT_LIMIT` -/
def limit : ℕ := 65536

def ascii (text : String) : Bytes := text.toList.map fun c => UInt8.ofNat c.toNat

/-! ## 1. The reader -/

/-- The buffer, and what has come in besides by each of the next looks at it. -/
structure Input where
  buffer : Bytes
  later : List Bytes

def Input.bytes (i : Input) : Bytes := i.buffer ++ i.later.flatten

/-- A look at the buffer, which waits while there is nothing; `none` when it waits for ever. -/
def look (buffer : Bytes) : List Bytes → Option Input
  | [] => if buffer = [] then none else some ⟨buffer, []⟩
  | block :: later =>
    if buffer ++ block = [] then look [] later else some ⟨buffer ++ block, later⟩

/-- How reading ends when it brings no body. -/
inductive Stop where
  /-- It waits, until the time-out of the client. -/
  | waits
  /-- The loop of `readuntil` goes round without awaiting anything. -/
  | spins
  | limitOverrunError
  | valueError
deriving DecidableEq

/-- The length of `buffer[:n]`. -/
def upTo (n : ℤ) (length : ℕ) : ℕ := if 0 ≤ n then n.toNat else (length + n).toNat

/-- `reader.read(n)`, which `connection.readexactly` calls. -/
def read (n : ℤ) (i : Input) : Except Stop (Bytes × Input) :=
  match look i.buffer i.later with
  | none => .error .waits
  | some j =>
    let k := upTo n j.buffer.length
    .ok (j.buffer.take k, ⟨j.buffer.drop k, j.later⟩)

/-- `reader.readuntil()` -/
def readuntil (i : Input) : Except Stop (Bytes × Input) :=
  match look i.buffer i.later with
  | none => .error .waits
  | some j =>
    match j.buffer.idxOf? sep with
    | none => .error (if limit < j.buffer.length then .limitOverrunError else .spins)
    | some isep =>
      if limit < isep then .error .limitOverrunError
      else .ok (j.buffer.take (isep + 1), ⟨j.buffer.drop (isep + 1), j.later⟩)

theorem bytes_of_look {buffer : Bytes} {later : List Bytes} {j : Input}
    (h : look buffer later = some j) : j.buffer ≠ [] ∧ j.bytes = buffer ++ later.flatten := by
  induction later generalizing buffer with
  | nil =>
    rw [look] at h
    split at h
    · cases h
    · next hne =>
      obtain rfl := Option.some.inj h
      exact ⟨hne, rfl⟩
  | cons block later ih =>
    rw [look] at h
    split at h
    · next hnil =>
      obtain ⟨hb, hblock⟩ := List.append_eq_nil_iff.mp hnil
      rw [hb, hblock]
      exact ih h
    · next hne =>
      obtain rfl := Option.some.inj h
      exact ⟨hne, by rw [Input.bytes, List.flatten_cons, List.append_assoc]⟩

/-- A look waits for ever only when nothing comes. -/
theorem exists_look {buffer : Bytes} {later : List Bytes} (h : buffer ++ later.flatten ≠ []) :
    ∃ j, look buffer later = some j := by
  induction later generalizing buffer with
  | nil =>
    rw [List.flatten_nil, List.append_nil] at h
    exact ⟨_, by rw [look, if_neg h]⟩
  | cons block later ih =>
    rw [look]
    split
    · next hnil =>
      refine ih fun hlater => h ?_
      rw [List.flatten_cons, ← List.append_assoc, hnil]
      exact hlater
    · exact ⟨_, rfl⟩

theorem bytes_of_read {n : ℤ} {i : Input} {r : Bytes × Input} (h : read n i = .ok r) :
    r.1 ++ r.2.bytes = i.bytes := by
  rw [read] at h
  split at h
  · cases h
  · next j hj =>
    obtain rfl := Except.ok.inj h
    rw [Input.bytes, ← List.append_assoc, List.take_append_drop]
    exact (bytes_of_look hj).2

/-- **What `readuntil` takes is the first line of what comes in.** -/
theorem takeLine_of_readuntil {i : Input} {r : Bytes × Input} (h : readuntil i = .ok r) :
    Lines.Line sep r.1 ∧ Lines.takeLine sep i.bytes = (r.1, r.2.bytes) := by
  rw [readuntil] at h
  split at h
  · cases h
  · next j hj =>
    split at h
    · cases h
    · next isep hsep =>
      split at h
      · cases h
      · obtain rfl := Except.ok.inj h
        have hchunk : takeChunk j.buffer = (j.buffer.take (isep + 1), j.buffer.drop (isep + 1)) := by
          rw [takeChunk, hsep]
        rw [Reader.takeChunk_eq] at hchunk
        have hmem : sep ∈ j.buffer := by
          by_contra hnot
          rw [List.idxOf?_eq_none_iff.mpr hnot] at hsep
          cases hsep
        have hline := Lines.line_takeLine hmem
        rw [hchunk] at hline
        refine ⟨hline, ?_⟩
        rw [Input.bytes, ← (bytes_of_look hj).2, Input.bytes, Lines.takeLine_append hmem, hchunk]
        rfl

theorem length_of_readuntil {i : Input} {r : Bytes × Input} (h : readuntil i = .ok r) :
    r.2.bytes.length < i.bytes.length := by
  obtain ⟨hline, htake⟩ := takeLine_of_readuntil h
  have happ := Lines.takeLine_append_snd (t := sep) i.bytes
  rw [htake] at happ
  dsimp only at happ
  rw [← happ, List.length_append]
  have := List.length_pos_iff.mpr hline.ne_nil
  omega

theorem length_of_read {n : ℤ} {i : Input} {r : Bytes × Input} (h : read n i = .ok r) :
    r.2.bytes.length ≤ i.bytes.length := by
  rw [← bytes_of_read h, List.length_append]
  omega

/-- The first line is taken when it is taken at all. -/
theorem readuntil_line {i : Input} {r : Bytes × Input} (h : readuntil i = .ok r) {l rest : Bytes}
    (hl : Lines.Line sep l) (hi : i.bytes = l ++ rest) : r.1 = l ∧ r.2.bytes = rest := by
  have htake := (takeLine_of_readuntil h).2
  rw [hi, Lines.takeLine_line hl] at htake
  exact ⟨(Prod.mk.inj htake).1.symm, (Prod.mk.inj htake).2.symm⟩

/-! ## 2. The body -/

/-- `chunk[:-2]` -/
def withoutTerminator (chunk : Bytes) : Bytes := chunk.take (chunk.length - 2)

/-- The loop over the chunks. -/
def readChunks (body : Bytes) (i : Input) : Except Stop (Bytes × Input) :=
  match _hline : readuntil i with
  | .error stop => .error stop
  | .ok line =>
    match Numerals.int 16 (Numerals.rstrip line.1) with
    | none => .error .valueError
    | some chunkSize =>
      if chunkSize = 0 then
        -- "read last CRLF", which goes into the body
        match readuntil line.2 with
        | .error stop => .error stop
        | .ok last => .ok (body ++ last.1, last.2)
      else
        match _hchunk : read (chunkSize + 2) line.2 with
        | .error stop => .error stop
        | .ok chunk => readChunks (body ++ withoutTerminator chunk.1) chunk.2
termination_by i.bytes.length
decreasing_by exact (length_of_read _hchunk).trans_lt (length_of_readuntil _hline)

def contentLength : Bytes := ascii "content-length"

def transferEncoding : Bytes := ascii "transfer-encoding"

/-- The part of `execute_prepared_request` that reads the body, from the response's headers. -/
def readBody (headers : Dict Bytes Bytes) (i : Input) : Except Stop (Bytes × Input) :=
  match headers.get? contentLength with
  | some (c :: length) =>
    match Numerals.int 10 (c :: length) with
    | none => .error .valueError
    | some n => read n i
  | _ =>
    match headers.get? transferEncoding with
    | some (_ :: _) => readChunks [] i
    | _ => .ok ([], i)

/-- What the loop has done when it brings a body. -/
theorem readChunks_cases {body : Bytes} {i : Input} {r : Bytes × Input}
    (h : readChunks body i = .ok r) :
    ∃ line n, readuntil i = .ok line ∧ Numerals.int 16 (Numerals.rstrip line.1) = some n ∧
      ((n = 0 ∧ ∃ last, readuntil line.2 = .ok last ∧ r = (body ++ last.1, last.2)) ∨
        (n ≠ 0 ∧ ∃ chunk, read (n + 2) line.2 = .ok chunk ∧
          readChunks (body ++ withoutTerminator chunk.1) chunk.2 = .ok r)) := by
  rw [readChunks] at h
  split at h
  · cases h
  · next line hline =>
    split at h
    · cases h
    · next n hn =>
      refine ⟨line, n, hline, hn, ?_⟩
      split at h
      · next hzero =>
        split at h
        · cases h
        · next last hlast => exact .inl ⟨hzero, last, hlast, (Except.ok.inj h).symm⟩
      · next hzero =>
        split at h
        · cases h
        · next chunk hchunk => exact .inr ⟨hzero, chunk, hchunk, h⟩

theorem readChunks_chunk {body : Bytes} {i : Input} {line chunk : Bytes × Input} {n : ℤ}
    (hline : readuntil i = .ok line)
    (hn : Numerals.int 16 (Numerals.rstrip line.1) = some n) (hne : n ≠ 0)
    (hchunk : read (n + 2) line.2 = .ok chunk) :
    readChunks body i = readChunks (body ++ withoutTerminator chunk.1) chunk.2 := by
  rw [readChunks]
  split
  · next h => rw [hline] at h; cases h
  · next h =>
    obtain rfl := Except.ok.inj (hline.symm.trans h)
    simp only [hn, if_neg hne]
    split
    · next h => rw [hchunk] at h; cases h
    · next h =>
      obtain rfl := Except.ok.inj (hchunk.symm.trans h)
      rfl

theorem readChunks_last {body : Bytes} {i : Input} {line last : Bytes × Input}
    (hline : readuntil i = .ok line)
    (hn : Numerals.int 16 (Numerals.rstrip line.1) = some 0)
    (hlast : readuntil line.2 = .ok last) :
    readChunks body i = .ok (body ++ last.1, last.2) := by
  rw [readChunks]
  split
  · next h => rw [hline] at h; cases h
  · next h =>
    obtain rfl := Except.ok.inj (hline.symm.trans h)
    simp only [hn, if_pos, hlast]

/-- **The body of a chunked response ends with a line end**, however it comes in. -/
theorem getLast_of_readChunks {body : Bytes} {i : Input} {r : Bytes × Input}
    (h : readChunks body i = .ok r) : r.1.getLast? = some sep := by
  induction hn : i.bytes.length using Nat.strong_induction_on generalizing body i with
  | _ n ih =>
    obtain ⟨line, k, hline, -, ⟨-, last, hlast, rfl⟩ | ⟨-, chunk, hchunk, hrest⟩⟩ :=
      readChunks_cases h
    · obtain ⟨c, hc⟩ := (takeLine_of_readuntil hlast).1.exists_eq
      simp [hc]
    · exact ih _ (hn ▸ (length_of_read hchunk).trans_lt (length_of_readuntil hline)) hrest rfl

/-! ## 3. Responses -/

/-- A response with a chunked body. -/
structure Chunked where
  headers : Dict Bytes Bytes
  coding : Bytes
  body : HttpGrammar.Chunked
  length_none : headers.get? contentLength = none
  coding_some : headers.get? transferEncoding = some coding
  coding_ne : coding ≠ []

/-- A response whose body has its length in the headers. -/
structure Fixed where
  headers : Dict Bytes Bytes
  length : Bytes
  payload : Bytes
  length_some : headers.get? contentLength = some length
  numeral : Numerals.Numeral 10 length
  value_eq : Numerals.value 10 0 length = payload.length

inductive Response where
  | fixed (b : Fixed)
  | chunked (b : Chunked)

namespace Response

def headers : Response → Dict Bytes Bytes
  | fixed b => b.headers
  | chunked b => b.headers

def payload : Response → Bytes
  | fixed b => b.payload
  | chunked b => b.body.payload

/-- The bytes behind the head. -/
def encoded : Response → Bytes
  | fixed b => b.payload
  | chunked b => b.body.encoded

def HasLength : Response → Prop
  | fixed _ => True
  | chunked _ => False

end Response

/-- A way in which the bytes behind the head come in, with the bytes of the next response. -/
structure Delivery (r : Response) where
  input : Input
  next : Bytes
  bytes_eq : input.bytes = r.encoded ++ next

/-- The body is the payload, and the next bytes that the reader gives are those of the next
response. -/
def Right (r : Response) (d : Delivery r) : Prop :=
  ∃ i, readBody r.headers d.input = .ok (r.payload, i) ∧ i.bytes = d.next

/-! ## 4. Bodies with a length -/

theorem readBody_fixed (b : Fixed) (i : Input) :
    readBody b.headers i = read (b.payload.length : ℕ) i := by
  have hint := Numerals.int_eq_value b.numeral
  rw [readBody, b.length_some]
  cases hlen : b.length with
  | nil => exact absurd hlen b.numeral.ne_nil
  | cons c length =>
    rw [hlen, ← hlen, b.value_eq, hlen] at hint
    simp only [hint]
    rfl

/-- **A body with a length is read right exactly when the look at the buffer finds all of it.** -/
theorem right_fixed_iff (b : Fixed) (d : Delivery (.fixed b)) :
    Right (.fixed b) d ↔
      ∃ j, look d.input.buffer d.input.later = some j ∧ b.payload.length ≤ j.buffer.length := by
  have hbytes : d.input.bytes = b.payload ++ d.next := d.bytes_eq
  constructor
  · rintro ⟨i, hread, -⟩
    rw [Response.headers, readBody_fixed, read] at hread
    split at hread
    · cases hread
    · next j hj =>
      refine ⟨j, hj, ?_⟩
      have hbody := congrArg List.length (Prod.mk.inj (Except.ok.inj hread)).1
      rw [List.length_take] at hbody
      have hpay : (Response.fixed b).payload = b.payload := rfl
      rw [hpay] at hbody
      omega
  · rintro ⟨j, hj, hlen⟩
    obtain ⟨-, hj'⟩ := bytes_of_look hj
    rw [← Input.bytes, hbytes, Input.bytes] at hj'
    have hup : upTo (b.payload.length : ℕ) j.buffer.length = b.payload.length := by
      rw [upTo, if_pos (by omega)]
      rfl
    have htake : j.buffer.take b.payload.length = b.payload ∧
        j.buffer.drop b.payload.length ++ j.later.flatten = d.next := by
      refine List.append_inj ?_ ?_
      · rw [← List.append_assoc, List.take_append_drop, hj']
      · rw [List.length_take]
        omega
    refine ⟨⟨j.buffer.drop b.payload.length, j.later⟩, ?_, htake.2⟩
    rw [Response.headers, readBody_fixed, read, hj]
    simp only [hup, htake.1]
    rfl

/-! ## 5. Chunked bodies -/

/-- A size line is read as the size, or not at all. -/
theorem int_encoded (l : SizeLine) {n : ℤ}
    (h : Numerals.int 16 (Numerals.rstrip l.encoded) = some n) : n = l.value := by
  rcases l.extension_eq with hext | hext
  · rw [SizeLine.encoded, hext, List.append_nil, Numerals.rstrip_append l.numeral (List.all_eq_true.mp rfl),
      Numerals.int_eq_value l.numeral] at h
    exact (Option.some.inj h).symm
  · have hforeign : Numerals.Foreign 16 59 := ⟨by decide, by decide, by decide⟩
    refine absurd (Numerals.mem_rstrip hforeign.not_space ?_) (Numerals.not_mem_of_int hforeign h)
    simp [SizeLine.encoded, hext]

/-- Each chunk is there as a whole, with its terminator, when it is read. -/
def Whole : List Chunk → Input → Prop
  | [], _ => True
  | c :: cs, i =>
    ∀ line, readuntil i = .ok line → ∀ j, look line.2.buffer line.2.later = some j →
      c.data.length + 2 ≤ j.buffer.length ∧ Whole cs ⟨j.buffer.drop (c.data.length + 2), j.later⟩

/-- **When no chunk is cut short, the body is the payload and the line behind the last chunk.** -/
theorem exists_of_whole {cs : List Chunk} {last : SizeLine} (hlast : last.value = 0) {rest : Bytes}
    {body : Bytes} {i : Input} {r : Bytes × Input} (hw : Whole cs i)
    (hi : i.bytes = cs.flatMap Chunk.encoded ++ (last.encoded ++ rest))
    (h : readChunks body i = .ok r) :
    ∃ line, line ≠ [] ∧ r.1 = body ++ cs.flatMap Chunk.data ++ line := by
  induction cs generalizing body i with
  | nil =>
    obtain ⟨line, n, hline, hn, hcase⟩ := readChunks_cases h
    obtain ⟨hl, -⟩ := readuntil_line hline last.line hi
    rw [hl] at hn
    have hzero : n = 0 := by rw [int_encoded last hn, hlast]; rfl
    rcases hcase with ⟨-, l, hl, rfl⟩ | ⟨hne, -⟩
    · exact ⟨l.1, (takeLine_of_readuntil hl).1.ne_nil, by simp⟩
    · exact absurd hzero hne
  | cons c cs ih =>
    obtain ⟨line, n, hline, hn, hcase⟩ := readChunks_cases h
    rw [List.flatMap_cons, Chunk.encoded, List.append_assoc, List.append_assoc] at hi
    obtain ⟨hl, hbytes⟩ := readuntil_line hline c.line hi
    rw [hl] at hn
    have hsize : n = c.data.length := by rw [int_encoded c.toSizeLine hn, c.value_eq]
    have hpos : c.data.length ≠ 0 := fun hzero => c.data_ne (List.length_eq_zero_iff.mp hzero)
    rcases hcase with ⟨hzero, -⟩ | ⟨-, chunk, hchunk, hrest⟩
    · omega
    · rw [read] at hchunk
      split at hchunk
      · cases hchunk
      · next j hj =>
        obtain ⟨hlen, hw'⟩ := hw line hline j hj
        have hup : upTo (n + 2) j.buffer.length = c.data.length + 2 := by
          rw [upTo, hsize, if_pos (by omega)]
          omega
        obtain rfl := Except.ok.inj hchunk
        simp only [hup] at hrest
        obtain ⟨-, hj'⟩ := bytes_of_look hj
        rw [← Input.bytes, hbytes, Input.bytes, ← List.take_append_drop (c.data.length + 2) j.buffer,
          List.append_assoc] at hj'
        obtain ⟨htake, hdrop⟩ := List.append_inj hj' (by
          rw [List.length_take, List.length_append, crlf, List.length_cons]
          simp only [List.length_cons, List.length_nil]
          omega)
        obtain ⟨l, hne, hr⟩ := ih hw' hdrop hrest
        refine ⟨l, hne, ?_⟩
        rw [hr, htake]
        simp [withoutTerminator, crlf]

theorem readBody_chunked (b : Chunked) (i : Input) : readBody b.headers i = readChunks [] i := by
  rw [readBody, b.length_none, b.coding_some]
  cases hc : b.coding with
  | nil => exact absurd hc b.coding_ne
  | cons c coding => rfl

/-- A chunked body that is read right ends with a line end, and one of its chunks is cut short. -/
theorem of_right_chunked {b : Chunked} {d : Delivery (.chunked b)} (h : Right (.chunked b) d) :
    b.body.payload.getLast? = some sep ∧ ¬Whole b.body.chunks d.input := by
  obtain ⟨i, hread, -⟩ := h
  rw [Response.headers, readBody_chunked] at hread
  refine ⟨getLast_of_readChunks hread, fun hw => ?_⟩
  have hbytes : d.input.bytes = b.body.chunks.flatMap Chunk.encoded ++ (b.body.last.encoded ++
      (b.body.trailer.flatMap HttpGrammar.Field.encoded ++ crlf ++ d.next)) := by
    rw [d.bytes_eq, Response.encoded, HttpGrammar.Chunked.encoded]
    simp only [List.append_assoc]
  obtain ⟨line, hne, hbody⟩ := exists_of_whole b.body.value_last hw hbytes hread
  have hpay : (Response.chunked b).payload = b.body.chunks.flatMap Chunk.data := rfl
  rw [hpay, List.nil_append] at hbody
  exact hne (List.self_eq_append_right.mp hbody)

theorem look_nil {buffer : Bytes} {j : Input} (h : look buffer [] = some j) : j = ⟨buffer, []⟩ := by
  rw [look] at h
  split at h
  · cases h
  · exact (Option.some.inj h).symm

theorem later_of_readuntil {i : Input} {r : Bytes × Input} (hi : i.later = [])
    (h : readuntil i = .ok r) : r.2.later = [] := by
  rw [readuntil, hi] at h
  split at h
  · cases h
  · next j hj =>
    obtain rfl := look_nil hj
    split at h
    · cases h
    · split at h
      · cases h
      · obtain rfl := Except.ok.inj h
        rfl

/-- When all is there at once, each chunk is. -/
theorem whole_of_later_nil {cs : List Chunk} {i : Input} (hi : i.later = []) {rest : Bytes}
    (hbytes : i.bytes = cs.flatMap Chunk.encoded ++ rest) : Whole cs i := by
  induction cs generalizing i with
  | nil => trivial
  | cons c cs ih =>
    intro line hline j hj
    rw [List.flatMap_cons, Chunk.encoded, List.append_assoc, List.append_assoc] at hbytes
    obtain ⟨-, hrest⟩ := readuntil_line hline c.line hbytes
    have hlater := later_of_readuntil hi hline
    rw [hlater] at hj
    obtain rfl := look_nil hj
    rw [Input.bytes, hlater, List.flatten_nil, List.append_nil] at hrest
    refine ⟨?_, ih rfl ?_⟩
    · simp only [hrest, List.length_append, crlf, List.length_cons]
      omega
    · have hdrop : line.2.buffer.drop (c.data.length + 2) = cs.flatMap Chunk.encoded ++ rest := by
        rw [hrest]
        refine List.drop_left' ?_
        simp [crlf]
      rw [Input.bytes, List.flatten_nil, List.append_nil]
      exact hdrop

/-! ## 6. Every way in which a response comes in -/

/-- Everything is there from the beginning. -/
def Response.atOnce (r : Response) : Delivery r where
  input := ⟨r.encoded, []⟩
  next := []
  bytes_eq := by simp [Input.bytes]

/-- The first byte is there from the beginning, and the others come in later. -/
def Response.cut (r : Response) : Delivery r where
  input := ⟨r.encoded.take 1, [[], r.encoded.drop 1]⟩
  next := []
  bytes_eq := by
    rw [Input.bytes, List.flatten_cons, List.flatten_cons, List.flatten_nil, List.nil_append,
      List.append_nil, List.take_append_drop, List.append_nil]

theorem length_of_right_cut {b : Fixed} (h : Right (.fixed b) (Response.cut (.fixed b))) :
    b.payload.length = 1 := by
  obtain ⟨j, hj, hlen⟩ := (right_fixed_iff b _).mp h
  obtain ⟨hne, hbytes⟩ := bytes_of_look hj
  have hcut : (Response.cut (.fixed b)).input.bytes = b.payload :=
    (Response.cut (.fixed b)).bytes_eq.trans (List.append_nil _)
  rw [← Input.bytes, hcut] at hbytes
  have hpos : b.payload ≠ [] := fun hnil => by
    rw [hnil, Input.bytes] at hbytes
    exact hne (List.append_eq_nil_iff.mp hbytes).1
  have htake : b.payload.take 1 ++ [] ≠ [] := by simpa using hpos
  change look (b.payload.take 1) ([] :: [b.payload.drop 1]) = some j at hj
  rw [look, if_neg htake, List.append_nil] at hj
  obtain rfl := Option.some.inj hj
  have hone : (b.payload.take 1).length ≤ 1 := List.length_take_le 1 _
  have := List.length_pos_iff.mpr hpos
  dsimp only at hlen
  omega

theorem not_right_atOnce (b : Chunked) : ¬Right (.chunked b) (Response.atOnce (.chunked b)) := by
  intro h
  have hbytes : (Response.atOnce (.chunked b)).input.bytes =
      b.body.chunks.flatMap Chunk.encoded ++ (b.body.last.encoded ++
        (b.body.trailer.flatMap HttpGrammar.Field.encoded ++ crlf)) :=
    (Response.atOnce (.chunked b)).bytes_eq.trans (List.append_nil _)
  exact (of_right_chunked h).2 (whole_of_later_nil rfl hbytes)

/-- However the bytes come in, the bodies that are read right are those with a length of one. -/
theorem always_right_iff (r : Response) :
    (∀ d : Delivery r, Right r d) ↔ r.HasLength ∧ r.payload.length = 1 := by
  refine ⟨fun h => ?_, fun ⟨hlen, hone⟩ d => ?_⟩
  · cases r with
    | fixed b => exact ⟨trivial, length_of_right_cut (h _)⟩
    | chunked b => exact absurd (h _) (not_right_atOnce b)
  · cases r with
    | chunked b => exact hlen.elim
    | fixed b =>
      have hpay : (Response.fixed b).payload = b.payload := rfl
      rw [hpay] at hone
      have hbytes : d.input.bytes = b.payload ++ d.next := d.bytes_eq
      obtain ⟨j, hj⟩ := @exists_look d.input.buffer d.input.later fun hnil => by
        rw [← Input.bytes, hbytes] at hnil
        rw [(List.append_eq_nil_iff.mp hnil).1] at hone
        cases hone
      have := List.length_pos_iff.mpr (bytes_of_look hj).1
      exact (right_fixed_iff b d).mpr ⟨j, hj, by omega⟩

/-- What it takes to read a body right in one way in which it comes in: one with a length is there as
a whole at the one look at the buffer, and a chunked one ends with a line end and has a chunk that is
cut short. -/
def Needed : (r : Response) → Delivery r → Prop
  | .fixed b, d =>
    ∃ j, look d.input.buffer d.input.later = some j ∧ b.payload.length ≤ j.buffer.length
  | .chunked b, d => b.body.payload.getLast? = some sep ∧ ¬Whole b.body.chunks d.input

/-- **Which bodies are read right**, however the bytes come in, and in one way in which they do. -/
theorem readsBody_iff (r : Response) :
    ((∀ d : Delivery r, Right r d) ↔ r.HasLength ∧ r.payload.length = 1) ∧
      ∀ d : Delivery r, (Right r d → Needed r d) ∧ (r.HasLength → Needed r d → Right r d) := by
  refine ⟨always_right_iff r, fun d => ?_⟩
  cases r with
  | fixed b => exact ⟨(right_fixed_iff b d).mp, fun _ => (right_fixed_iff b d).mpr⟩
  | chunked b => exact ⟨of_right_chunked, fun hlen => hlen.elim⟩

/-- The two bytes `hi`, by length. -/
def cutResponse : Response := .fixed {
  headers := ⟨[(contentLength, ascii "2")], by decide⟩
  length := ascii "2"
  payload := ascii "hi"
  length_some := by decide
  numeral := ⟨by decide, List.all_eq_true.mp rfl⟩
  value_eq := by decide }

theorem not_readsBody : ¬∀ (r : Response) (d : Delivery r), Right r d := by
  intro h
  have hlen := length_of_right_cut (h cutResponse (Response.cut cutResponse))
  cases hlen

/-! A chunked body can be read right by accident.  The first read takes two bytes of the first chunk
and drops them; what follows them is taken for a size line, and the chunk that it announces ends with
the first line of the second chunk's data.  The line end that is appended makes up for it. -/

def luckyResponse : Response := .chunked {
  headers := ⟨[(transferEncoding, ascii "chunked")], by decide⟩
  coding := ascii "chunked"
  length_none := by decide
  coding_some := by decide
  coding_ne := by decide
  body := {
    chunks := [
      { size := ascii "a", extension := [], numeral := ⟨by decide, List.all_eq_true.mp rfl⟩,
        extension_eq := .inl rfl, extension_sep := by decide,
        data := ascii "8;0e" ++ crlf ++ ascii "8;0e", value_eq := by decide, data_ne := by decide },
      { size := ascii "8", extension := ascii ";0e2", numeral := ⟨by decide, List.all_eq_true.mp rfl⟩,
        extension_eq := .inr (by decide), extension_sep := by decide,
        data := ascii "2" ++ crlf ++ ascii "2" ++ crlf ++ crlf, value_eq := by decide,
        data_ne := by decide }]
    last := { size := ascii "0", extension := [], numeral := ⟨by decide, List.all_eq_true.mp rfl⟩,
              extension_eq := .inl rfl, extension_sep := by decide }
    trailer := []
    value_last := by decide } }

def luckyDelivery : Delivery luckyResponse where
  input := ⟨luckyResponse.encoded.take 5, [[], [], luckyResponse.encoded.drop 5]⟩
  next := []
  bytes_eq := by decide

theorem right_lucky : Right luckyResponse luckyDelivery := by
  refine ⟨⟨[], []⟩, ?_, rfl⟩
  calc readChunks [] luckyDelivery.input
      = readChunks _ _ := readChunks_chunk rfl (n := 10) (by decide) (by decide) rfl
    _ = readChunks _ _ := readChunks_chunk rfl (n := 14) (by decide) (by decide) rfl
    _ = readChunks _ _ := readChunks_chunk rfl (n := 2) (by decide) (by decide) rfl
    _ = _ := readChunks_last rfl (by decide) rfl

end ResponseBody
end Engines
end Hedra
