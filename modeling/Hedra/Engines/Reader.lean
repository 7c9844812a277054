/-
# The head of an HTTP/1 response

The `Reader` of the HTTP engines (`core/engines/types/common/protocols/shared/reader.py`) takes the
status line with `readline_fast` and the header lines with `read_headers`.  Both take what the
buffer has up to the next line end, and wait for data only when the buffer is empty: where it has no
line end they take all of it as if it were a line.  So the response read is that of another stream
whenever a block ends within the status line, within the blank line, or within a header line that is
not overwritten later.

* `readHeaders_eq`: the reader sees nothing but the chunks, and of these where they end;
* `same_iff_harmless`: a delivery makes no difference exactly if it is harmless.
-/
import Hedra.Lib.Dict
import Hedra.Lib.LastWrite
import Hedra.Lib.Lines
import Mathlib.Tactic.Common

namespace Hedra
namespace Engines

open Lib

namespace Reader

abbrev Bytes := List UInt8

/-- `separator` -/
def sep : UInt8 := 10

/-- `b':'` -/
def colon : UInt8 := 58

def space : UInt8 := 32

/-- What `bytes.strip` takes off. -/
def isSpace (b : UInt8) : Bool := b = space ∨ 9 ≤ b ∧ b ≤ 13

/-- `chunk.strip()` -/
def strip (chunk : Bytes) : Bytes :=
  ((chunk.dropWhile isSpace).reverse.dropWhile isSpace).reverse

/-- `key.lower()` -/
def lower (key : Bytes) : Bytes := key.map fun b => if 65 ≤ b ∧ b ≤ 90 then b + 32 else b

/-! ## 1. The reader -/

/-- What is taken from the buffer when it is looked at, and what stays. -/
def takeChunk (buffer : Bytes) : Bytes × Bytes :=
  match buffer.idxOf? sep with
  | none => (buffer, [])
  | some isep => (buffer.take (isep + 1), buffer.drop (isep + 1))

theorem takeChunk_eq (buffer : Bytes) : takeChunk buffer = Lines.takeLine sep buffer := by
  induction buffer with
  | nil => rfl
  | cons x xs ih =>
    by_cases hx : x = sep
    · simp [takeChunk, Lines.takeLine, hx, List.idxOf?_cons]
    · rw [takeChunk] at ih
      rw [takeChunk, Lines.takeLine, if_neg hx, ← ih, List.idxOf?_cons]
      cases xs.idxOf? sep <;> simp [hx]

/-- `chunk.strip().split(b':', 1)`, with the key in lower case and the value stripped. -/
def field (chunk : Bytes) : Bytes × Bytes :=
  let decoded := (strip chunk).span (· ≠ colon)
  (lower decoded.1, strip (decoded.2.drop 1))

def key (chunk : Bytes) : Bytes := (field chunk).1

def value (chunk : Bytes) : Bytes := (field chunk).2

/-- `headers[bytes(key).lower()] = value.strip()` -/
def addHeader (headers : Dict Bytes Bytes) (chunk : Bytes) : Dict Bytes Bytes :=
  headers.set (key chunk) (value chunk)

/-- `readline_fast`, from what the buffer holds when it looks. -/
def readlineFast (buffer : Bytes) : Bytes × Bytes := takeChunk buffer

/-- `if not self._buffer: await self._waiter`: the next block is there when the reader goes on, and
`none` when it waits for ever. -/
def wait : Bytes → List Bytes → Option (Bytes × List Bytes)
  | [], [] => none
  | [], block :: later => some (block, later)
  | b :: buffer, later => some (b :: buffer, later)

/-- The loop of `read_headers`.  It is left with the mapping, what stays in the buffer and the blocks
that are still to come. -/
def readHeaders (headers : Dict Bytes Bytes) (buffer : Bytes) (later : List Bytes) :
    Option (Dict Bytes Bytes × Bytes × List Bytes) :=
  match _h : wait buffer later with
  | none => none
  | some r =>
    if _hc : colon ∈ (takeChunk r.1).1 then
      readHeaders (addHeader headers (takeChunk r.1).1) (takeChunk r.1).2 r.2
    else some (headers, (takeChunk r.1).2, r.2)
termination_by (later.length, buffer.length)
decreasing_by
  rw [takeChunk_eq] at _hc ⊢
  have hne : r.1 ≠ [] := List.ne_nil_of_mem (Lines.mem_of_mem_takeLine _hc)
  match buffer, later with
  | [], [] => cases _h
  | [], block :: later =>
    obtain rfl := Option.some.inj _h
    exact Prod.Lex.left _ _ (Nat.lt_succ_self _)
  | b :: buffer, later =>
    obtain rfl := Option.some.inj _h
    exact Prod.Lex.right _ (Lines.length_takeLine_lt hne)

theorem readHeaders_of_wait {headers : Dict Bytes Bytes} {buffer : Bytes} {later : List Bytes}
    {r : Bytes × List Bytes} (h : wait buffer later = some r) :
    readHeaders headers buffer later =
      if colon ∈ (takeChunk r.1).1 then
        readHeaders (addHeader headers (takeChunk r.1).1) (takeChunk r.1).2 r.2
      else some (headers, (takeChunk r.1).2, r.2) := by
  rw [readHeaders]
  split
  · next hnone => rw [h] at hnone; cases hnone
  · next r' hr =>
    obtain rfl := Option.some.inj (h.symm.trans hr)
    rfl

/-! ## 2. A response head and its delivery -/

/-- A stream with a response head: the status line, the header lines, the blank line that ends them,
and what follows. -/
structure Head where
  status : Bytes
  headers : List Bytes
  blank : Bytes
  body : Bytes
  line_status : Lines.Line sep status
  line_headers : ∀ l ∈ headers, Lines.Line sep l
  line_blank : Lines.Line sep blank
  colon_headers : ∀ l ∈ headers, colon ∈ l
  colon_blank : colon ∉ blank

def Head.stream (head : Head) : Bytes :=
  head.status ++ (head.headers.flatten ++ head.blank ++ head.body)

/-- How a stream comes in, as the reader can see it: a wait ends when there is something. -/
structure Delivery (stream : Bytes) where
  /-- What the buffer holds when `readline_fast` looks at it. -/
  first : Bytes
  /-- What comes in from then on until `read_headers` begins. -/
  between : Bytes
  /-- What each wait of `read_headers` finds. -/
  later : List Bytes
  first_ne : first ≠ []
  later_ne : ∀ block ∈ later, block ≠ []
  stream_eq : first ++ (between ++ later.flatten) = stream

/-- The status line, the mapping of the headers, and the bytes left for the body. -/
structure Response where
  status : Bytes
  headers : Dict Bytes Bytes
  left : Bytes

/-- `readline_fast`, and then `read_headers`. -/
def receive {stream : Bytes} (d : Delivery stream) : Option Response :=
  let (status, buffer) := readlineFast d.first
  (readHeaders Dict.empty (buffer ++ d.between) d.later).map fun r =>
    ⟨status, r.1, r.2.1 ++ r.2.2.flatten⟩

/-- The whole stream is available at once. -/
def Head.atOnce (head : Head) : Delivery head.stream where
  first := head.stream
  between := []
  later := []
  first_ne := fun h => head.line_status.ne_nil (List.append_eq_nil_iff.mp h).1
  later_ne := fun _ h => absurd h List.not_mem_nil
  stream_eq := by simp

/-- The same response is read as when the whole stream is available at once. -/
def Same (head : Head) (d : Delivery head.stream) : Prop :=
  ∃ r r', receive head.atOnce = some r ∧ receive d = some r' ∧
    r'.status = r.status ∧ (∀ k, r'.headers.get? k = r.headers.get? k) ∧
    r'.left = r.left

/-! ## 3. The chunks -/

/-- The pieces in which `read_headers` takes what comes after the first line. -/
def Delivery.chunks {stream : Bytes} (d : Delivery stream) : List Bytes :=
  Lines.split sep ((readlineFast d.first).2 ++ d.between) ++ d.later.flatMap (Lines.split sep)

/-- The reader on the chunks. -/
def readChunks (headers : Dict Bytes Bytes) : List Bytes → Option (Dict Bytes Bytes × Bytes)
  | [] => none
  | chunk :: chunks =>
    if colon ∈ chunk then readChunks (addHeader headers chunk) chunks
    else some (headers, chunks.flatten)

theorem flatten_flatMap_split (later : List Bytes) :
    (later.flatMap (Lines.split sep)).flatten = later.flatten := by
  induction later with
  | nil => rfl
  | cons block later ih =>
    rw [List.flatMap_cons, List.flatten_append, Lines.flatten_split, ih, List.flatten_cons]

/-- What a wait finds does not change the chunks. -/
theorem chunks_wait {buffer : Bytes} {later : List Bytes} {r : Bytes × List Bytes}
    (h : wait buffer later = some r) :
    Lines.split sep buffer ++ later.flatMap (Lines.split sep) =
      Lines.split sep r.1 ++ r.2.flatMap (Lines.split sep) := by
  match buffer, later with
  | [], [] => cases h
  | [], block :: later =>
    obtain rfl := Option.some.inj h
    rfl
  | b :: buffer, later =>
    obtain rfl := Option.some.inj h
    rfl

theorem wait_ne {buffer : Bytes} {later : List Bytes} (hne : ∀ block ∈ later, block ≠ [])
    {r : Bytes × List Bytes} (h : wait buffer later = some r) :
    r.1 ≠ [] ∧ ∀ block ∈ r.2, block ≠ [] := by
  match buffer, later with
  | [], [] => cases h
  | [], block :: later =>
    obtain rfl := Option.some.inj h
    exact ⟨hne _ List.mem_cons_self, fun block' h' => hne _ (List.mem_cons_of_mem _ h')⟩
  | b :: buffer, later =>
    obtain rfl := Option.some.inj h
    exact ⟨List.cons_ne_nil _ _, hne⟩

/-- **The reader sees nothing but the chunks.** -/
theorem readHeaders_eq (headers : Dict Bytes Bytes) (buffer : Bytes) (later : List Bytes)
    (hne : ∀ block ∈ later, block ≠ []) :
    (readHeaders headers buffer later).map (fun r => (r.1, r.2.1 ++ r.2.2.flatten)) =
      readChunks headers (Lines.split sep buffer ++ later.flatMap (Lines.split sep)) := by
  induction headers, buffer, later using readHeaders.induct with
  | case1 headers buffer later hwait =>
    rw [readHeaders]
    match buffer, later with
    | [], [] => rfl
    | [], block :: later => cases hwait
    | b :: buffer, later => cases hwait
  | case2 headers buffer later r hwait hc ih =>
    obtain ⟨hr, hne'⟩ := wait_ne hne hwait
    rw [chunks_wait hwait, Lines.split_eq hr, List.cons_append, readChunks, ← takeChunk_eq,
      if_pos hc, ← ih hne', readHeaders_of_wait hwait, if_pos hc]
  | case3 headers buffer later r hwait hc =>
    obtain ⟨hr, hne'⟩ := wait_ne hne hwait
    rw [chunks_wait hwait, Lines.split_eq hr, List.cons_append, readChunks, ← takeChunk_eq,
      if_neg hc, List.flatten_append, Lines.flatten_split, flatten_flatMap_split,
      readHeaders_of_wait hwait, if_neg hc]
    rfl

theorem readChunks_append {cut : List Bytes} (hcut : ∀ chunk ∈ cut, colon ∈ chunk) {last : Bytes}
    (hlast : colon ∉ last) (headers : Dict Bytes Bytes) (rest : List Bytes) :
    readChunks headers (cut ++ last :: rest) = some (cut.foldl addHeader headers, rest.flatten) := by
  induction cut generalizing headers with
  | nil => rw [List.nil_append, readChunks, if_neg hlast, List.foldl_nil]
  | cons chunk cut ih =>
    rw [List.cons_append, readChunks, if_pos (hcut _ List.mem_cons_self),
      ih fun c hc => hcut c (List.mem_cons_of_mem _ hc), List.foldl_cons]

/-- Where the reader stops. -/
theorem exists_of_readChunks {chunks : List Bytes} {headers : Dict Bytes Bytes}
    {r : Dict Bytes Bytes × Bytes} (h : readChunks headers chunks = some r) :
    ∃ cut last rest, chunks = cut ++ last :: rest ∧ (∀ chunk ∈ cut, colon ∈ chunk) ∧
      colon ∉ last ∧ r = (cut.foldl addHeader headers, rest.flatten) := by
  induction chunks generalizing headers with
  | nil => cases h
  | cons chunk chunks ih =>
    by_cases hc : colon ∈ chunk
    · rw [readChunks, if_pos hc] at h
      obtain ⟨cut, last, rest, rfl, hcut, hlast, rfl⟩ := ih h
      refine ⟨chunk :: cut, last, rest, rfl, fun c hmem => ?_, hlast, rfl⟩
      rcases List.mem_cons.mp hmem with rfl | hmem
      · exact hc
      · exact hcut c hmem
    · rw [readChunks, if_neg hc] at h
      exact ⟨[], chunk, chunks, rfl, fun _ h => absurd h List.not_mem_nil, hc,
        (Option.some.inj h).symm⟩

/-- The mapping has the value of the last chunk with the key. -/
theorem get?_foldl_addHeader (chunks : List Bytes) (headers : Dict Bytes Bytes) (k : Bytes) :
    (chunks.foldl addHeader headers).get? k =
      ((lastWith key chunks k).map value).or (headers.get? k) := by
  induction chunks generalizing headers with
  | nil => rfl
  | cons chunk chunks ih =>
    rw [List.foldl_cons, ih, lastWith_cons, addHeader, Dict.get?_set]
    cases lastWith key chunks k with
    | some c => rfl
    | none =>
      by_cases hk : key chunk = k
      · rw [if_pos hk, if_pos (Eq.symm hk)]
        rfl
      · rw [if_neg hk, if_neg fun h => hk h.symm]
        rfl

theorem get?_foldl_empty (chunks : List Bytes) (k : Bytes) :
    (chunks.foldl addHeader Dict.empty).get? k = (lastWith key chunks k).map value := by
  rw [get?_foldl_addHeader]
  exact Option.or_none

/-! ## 4. When the delivery does not matter -/

/-- What comes in after the status line. -/
theorem Delivery.flatten_chunks {stream : Bytes} (d : Delivery stream) :
    (readlineFast d.first).1 ++ d.chunks.flatten = stream := by
  rw [chunks, List.flatten_append, Lines.flatten_split, flatten_flatMap_split, List.append_assoc,
    ← List.append_assoc, readlineFast, takeChunk_eq, Lines.takeLine_append_snd, d.stream_eq]

theorem Delivery.piece_of_mem {stream : Bytes} (d : Delivery stream) {chunk : Bytes}
    (h : chunk ∈ d.chunks) : Lines.Piece sep chunk := by
  rcases List.mem_append.mp h with h | h
  · exact Lines.piece_of_mem_split h
  · obtain ⟨block, -, h⟩ := List.mem_flatMap.mp h
    exact Lines.piece_of_mem_split h

theorem receive_eq {stream : Bytes} (d : Delivery stream) :
    receive d = (readChunks Dict.empty d.chunks).map fun r =>
      ⟨(readlineFast d.first).1, r.1, r.2⟩ := by
  rw [Delivery.chunks, ← readHeaders_eq _ _ _ d.later_ne, Option.map_map]
  rfl

/-- The first read is the status line as soon as it has a line end. -/
theorem readlineFast_eq {head : Head} {d : Delivery head.stream} (h : sep ∈ d.first) :
    (readlineFast d.first).1 = head.status := by
  have hstream := (congrArg (Lines.takeLine sep) d.stream_eq).trans
    (Lines.takeLine_line head.line_status _)
  rw [Lines.takeLine_append h] at hstream
  rw [readlineFast, takeChunk_eq]
  exact congrArg Prod.fst hstream

theorem flatten_chunks_eq {head : Head} {d : Delivery head.stream}
    (h : (readlineFast d.first).1 = head.status) :
    d.chunks.flatten = head.headers.flatten ++ head.blank ++ head.body := by
  have hflat := d.flatten_chunks
  rw [h] at hflat
  exact List.append_cancel_left hflat

theorem Head.chunks_atOnce (head : Head) :
    head.atOnce.chunks = head.headers ++ head.blank :: Lines.split sep head.body := by
  have hlines : ∀ l ∈ head.headers ++ [head.blank], Lines.Line sep l := fun l h => by
    rcases List.mem_append.mp h with h | h
    · exact head.line_headers l h
    · rw [List.mem_singleton.mp h]
      exact head.line_blank
  have hfirst : readlineFast head.atOnce.first =
      (head.status, (head.headers ++ [head.blank]).flatten ++ head.body) := by
    rw [readlineFast, takeChunk_eq, List.flatten_append, List.flatten_singleton]
    exact Lines.takeLine_line head.line_status _
  rw [Delivery.chunks, hfirst]
  change Lines.split sep ((head.headers ++ [head.blank]).flatten ++ head.body ++ []) ++ [] = _
  rw [List.append_nil, List.append_nil, Lines.split_flatten_append hlines, List.append_assoc,
    List.singleton_append]

theorem Head.receive_atOnce (head : Head) :
    receive head.atOnce =
      some ⟨head.status, head.headers.foldl addHeader Dict.empty, head.body⟩ := by
  have hfirst : sep ∈ head.atOnce.first := List.mem_append_left _ head.line_status.mem
  rw [receive_eq, head.chunks_atOnce, readChunks_append head.colon_headers head.colon_blank,
    readlineFast_eq hfirst, Lines.flatten_split]
  rfl

/-- The status line is there when the reader looks; the blank line comes in as a whole, and each
piece of a header line has a colon; and where the pieces with a name are not the lines with it, the
last piece carries the value of the last line. -/
def Harmless (head : Head) (d : Delivery head.stream) : Prop :=
  sep ∈ d.first ∧ ∃ cut rest, d.chunks = cut ++ head.blank :: rest ∧
    cut.flatten = head.headers.flatten ∧ (∀ chunk ∈ cut, colon ∈ chunk) ∧
    ∀ k, (cut.filter fun chunk => key chunk = k) ≠ (head.headers.filter fun l => key l = k) →
      (lastWith key cut k).map value = (lastWith key head.headers k).map value

/-- **The delivery does not matter exactly when it is harmless.** -/
theorem same_iff_harmless (head : Head) (d : Delivery head.stream) :
    Same head d ↔ Harmless head d := by
  constructor
  · rintro ⟨r, r', hr, hr', hstatus, hheaders, hleft⟩
    obtain rfl := Option.some.inj (head.receive_atOnce.symm.trans hr)
    rw [receive_eq] at hr'
    obtain ⟨q, hq, rfl⟩ := Option.map_eq_some_iff.mp hr'
    have hstatus : (readlineFast d.first).1 = head.status := hstatus
    have hsep : sep ∈ d.first := by
      have hmem : sep ∈ (readlineFast d.first).1 := by
        rw [hstatus]
        exact head.line_status.mem
      rw [readlineFast, takeChunk_eq] at hmem
      exact Lines.mem_of_mem_takeLine hmem
    have hflat := flatten_chunks_eq hstatus
    obtain ⟨cut, last, rest, hchunks, hcut, hlast, rfl⟩ := exists_of_readChunks hq
    have hrest : rest.flatten = head.body := hleft
    rw [hchunks, List.flatten_append, List.flatten_cons, ← List.append_assoc, hrest] at hflat
    have hheads := List.append_cancel_right hflat
    have hpieces : ∀ c ∈ cut, Lines.Piece sep c := fun c hc =>
      d.piece_of_mem (by rw [hchunks]; exact List.mem_append_left _ hc)
    have hpiece : Lines.Piece sep last :=
      d.piece_of_mem (by rw [hchunks]; exact List.mem_append_right _ List.mem_cons_self)
    have hblank : last = head.blank :=
      Lines.eq_of_marked hpieces head.line_headers hpiece head.line_blank hcut head.colon_blank
        hheads
    subst hblank
    refine ⟨hsep, cut, rest, hchunks, List.append_cancel_right hheads, hcut, fun k _ => ?_⟩
    have hk : (cut.foldl addHeader Dict.empty).get? k =
        (head.headers.foldl addHeader Dict.empty).get? k := hheaders k
    rwa [get?_foldl_empty, get?_foldl_empty] at hk
  · rintro ⟨hsep, cut, rest, hchunks, hcut, hcolon, hkeys⟩
    have hstatus := readlineFast_eq hsep
    have hflat := flatten_chunks_eq hstatus
    rw [hchunks, List.flatten_append, List.flatten_cons, ← List.append_assoc, hcut] at hflat
    have hrest : rest.flatten = head.body := List.append_cancel_left hflat
    have hr' : receive d = some ⟨head.status, cut.foldl addHeader Dict.empty, head.body⟩ := by
      rw [receive_eq, hchunks, readChunks_append hcolon head.colon_blank, hstatus, hrest]
      rfl
    refine ⟨_, _, head.receive_atOnce, hr', rfl, fun k => ?_, rfl⟩
    rw [get?_foldl_empty, get?_foldl_empty]
    by_cases hk : (cut.filter fun chunk => key chunk = k) = head.headers.filter fun l => key l = k
    · rw [lastWith_eq_of_filter key hk]
    · exact hkeys k hk

/-- A response without a body. -/
def okHead : Head where
  status := "HTTP/1.1 200 OK\r".toUTF8.data.toList ++ [sep]
  headers := ["Content-Length: 0\r".toUTF8.data.toList ++ [sep]]
  blank := "\r".toUTF8.data.toList ++ [sep]
  body := []
  line_status := .of_not_mem (by decide +kernel)
  line_headers := fun l h => by
    rw [List.mem_singleton.mp h]
    exact .of_not_mem (by decide +kernel)
  line_blank := .of_not_mem (by decide +kernel)
  colon_headers := by decide +kernel
  colon_blank := by decide +kernel

/-- Its first block ends within the status line. -/
def okHead.cut : Delivery okHead.stream where
  first := okHead.stream.take 9
  between := []
  later := [okHead.stream.drop 9]
  first_ne := by decide +kernel
  later_ne := by decide +kernel
  stream_eq := by
    rw [List.nil_append, List.flatten_singleton, List.take_append_drop]

/-- **The delivery matters.** -/
theorem not_same : ¬ ∀ (head : Head) (d : Delivery head.stream), Same head d := by
  intro h
  obtain ⟨r, r', hr, hr', hstatus, -⟩ := h okHead okHead.cut
  rw [okHead.receive_atOnce] at hr
  obtain rfl := Option.some.inj hr
  rw [receive_eq] at hr'
  obtain ⟨q, -, rfl⟩ := Option.map_eq_some_iff.mp hr'
  have hcut : (readlineFast okHead.cut.first).1 ≠ okHead.status := by decide +kernel
  exact hcut hstatus

end Reader
end Engines
end Hedra
