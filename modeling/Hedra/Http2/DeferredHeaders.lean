/-
# Response headers that are parsed later

A response keeps its header block as it came, and `HTTP2Result`
(`core/engines/types/http2/result.py`) parses it when the headers are first read.  `DeferredHeaders`
gives the decoder the table of the request's encoder, and the block is a slice of a `bytearray`,
whose `memoryview` cannot be hashed for the cache of `decode_integer`: the decoder raises on every
block that is not empty, and the status of such a response is 400, under a key of its own.  The
property `status` asks whether there are headers before it looks for a status, and by then there
are.

So no order of reading gives what a decoder of the standard would, unless there is nothing to give
(`always_correct_iff`).

A response has one header block here.  In the source the block of the trailers, or of an answer that
only informs, takes the place of the one before it (`response.deferred_headers`), and responses of
several blocks are left out.
-/
import Hedra.Lib.Machine
import Hedra.Http2.RequestHeaders

namespace Hedra
namespace Http2

open Lib (Dict)
open Lib.Hpack (Octets Field)
open Lib.Machine (run Along Always)

/-! ## 1. `DeferredHeaders` and `HTTP2Result` -/

/-- A value of the headers of a result: the bytes of a header, or a status. -/
inductive HeaderValue
  | bytes (b : Octets)
  | status (code : Option Int)
  deriving DecidableEq

abbrev HeaderDict := Dict Text HeaderValue

/-- The action whose encoder's table the block is parsed with, and the block. -/
structure DeferredHeaders where
  action : Nat
  rawHeaders : Octets

/-- `HTTP2Result`: what the reading of headers reads and writes. -/
structure HTTP2Result where
  deferredHeaders : Option DeferredHeaders
  headers : HeaderDict
  status : Option Int

/-- `b.strip(b':')` -/
def stripColons (b : Octets) : Octets :=
  ((b.dropWhile (· == 0x3A)).reverse.dropWhile (· == 0x3A)).reverse

section Parse

-- `int(v.decode("ascii", errors="ignore"))`, nothing where it raises.
variable (parseInt : Octets → Option Int)

/-- The loop of `parse` over the decoded headers. -/
def collect : List Field → Option Int → HeaderDict → Option (Option Int × HeaderDict)
  | [], status, headers => some (status, headers)
  | (k, v) :: fs, status, headers =>
    if k = ascii ":status" then
      (parseInt v).bind fun code => collect fs (some code) headers
    else if (ascii ":").isPrefixOf k then
      collect fs status (headers.set (.bytes (stripColons k)) (.bytes v))
    else collect fs status (headers.set (.bytes k) (.bytes v))

/-- `DeferredHeaders.parse`, with the decoder it makes; nothing where it raises. -/
def DeferredHeaders.parse (h : DeferredHeaders) (d : Decoder) :
    Decoder × Option (Option Int × HeaderDict) :=
  match (d.setHeaderTableSize d.headerTable.maxsize).decode true h.rawHeaders with
  | (d, .error _) => (d, some (some 400, Dict.empty))
  | (d, .ok headers) => (d, collect parseInt headers none Dict.empty)

/-- `_parse_headers` -/
def HTTP2Result.parseHeaders (r : HTTP2Result) (d : Decoder) : Decoder × HeaderDict :=
  match r.deferredHeaders with
  | none => (d, Dict.empty)
  | some h =>
    match h.parse parseInt d with
    | (d, none) => (d, Dict.empty)
    | (d, some (status, headers)) =>
      (d, headers.set (.str ['s', 't', 'a', 't', 'u', 's']) (.status status))

/-- The property `headers`; its value is in the result after it. -/
def HTTP2Result.readHeaders (r : HTTP2Result) (d : Decoder) : Decoder × HTTP2Result :=
  if r.headers.items = [] then
    let p := r.parseHeaders parseInt d
    (p.1, { r with headers := p.2 })
  else (d, r)

/-- `int(self.headers.get(b'status', 400))` -/
def HTTP2Result.statusEntry (r : HTTP2Result) : Option Int :=
  match r.headers.get? (.bytes (ascii "status")) with
  | none => some 400
  | some (.bytes v) => parseInt v
  | some (.status code) => code

/-- The property `status`; its value is in the result after it. -/
def HTTP2Result.readStatus (r : HTTP2Result) (d : Decoder) : Decoder × HTTP2Result :=
  if r.status = none then
    let p := r.readHeaders parseInt d
    if p.2.headers.items = [] ∧ p.2.deferredHeaders.isSome then
      let q := p.2.parseHeaders parseInt p.1
      let r := { p.2 with headers := q.2 }
      (q.1, { r with status := r.statusEntry parseInt })
    else p
  else (d, r)

end Parse

/-! ## 2. What should be read -/

/-- Header blocks decoded in the order of their arrival, with the table of the connection.  A block
that cannot be decoded has no headers, and neither has any behind it. -/
def decodeAll (T : Lib.Hpack.Table) : List Octets → List (List Field)
  | [] => []
  | block :: blocks =>
    match Lib.Hpack.decode staticTable standardHuffman 4096 T block with
    | none => (block :: blocks).map fun _ => []
    | some (fs, T) => fs :: decodeAll T blocks

/-- The status of a response. -/
def statusOf (fs : List Field) : Option Octets :=
  (fs.find? fun f => f.1 == ascii ":status").map Prod.snd

/-- The other headers. -/
def othersOf (fs : List Field) : List Field := fs.filter fun f => f.1 != ascii ":status"

/-- The headers of a dictionary: its keys that are bytes. -/
def HeaderDict.fields (headers : HeaderDict) : List Field :=
  headers.items.filterMap fun
    | (.bytes k, .bytes v) => some (k, v)
    | _ => none

/-- Names and values as `parse` puts them in its dictionary. -/
def dictOf (fs : List Field) : HeaderDict :=
  fs.foldl (fun headers f => headers.set (.bytes (if (ascii ":").isPrefixOf f.1
    then stripColons f.1 else f.1)) (.bytes f.2)) Dict.empty

/-! ## 3. The machine -/

/-- What a read gave. -/
inductive Reading
  | headers (response : Nat) (value : HeaderDict)
  | status (response : Nat) (value : Option Int)

/-- The response that a reading is of. -/
def Reading.response : Reading → Nat
  | .headers i _ => i
  | .status i _ => i

/-- A connection with its responses, the encoders of the actions and the cache of `get_by_index`. -/
structure Responses where
  encoder : Nat → Encoder
  cache : IndexCache
  blocks : List Octets
  results : List HTTP2Result
  readings : List Reading

namespace Responses

def init : Responses := ⟨fun _ => Encoder.init, Lib.LruCache.empty, [], [], []⟩

inductive Event
  /-- An action encodes headers. -/
  | encode (action : Nat) (headers : List Header)
  /-- The response to a request of this action. -/
  | respond (action : Nat) (block : Octets)
  | readHeaders (response : Nat)
  | readStatus (response : Nat)

/-- The decoder with the table of an action. -/
def decoderOf (s : Responses) (action : Nat) : Decoder :=
  ⟨action, (s.encoder action).headerTable, s.cache⟩

/-- A result that was read, with the decoder of its action. -/
def putBack (s : Responses) (i : Nat) (p : Decoder × HTTP2Result) : Responses :=
  { s with
    encoder := fun a => if a = p.1.id then { s.encoder a with headerTable := p.1.headerTable }
      else s.encoder a
    cache := p.1.cache
    results := s.results.set i p.2 }

def actionOf (r : HTTP2Result) : Nat := (r.deferredHeaders.map DeferredHeaders.action).getD 0

section Step

variable (parseInt : Octets → Option Int)

def step (s : Responses) : Event → Option Responses
  | .encode action headers => some { s with
      encoder := fun a => if a = action then ((s.encoder a).encode headers true).2 else s.encoder a }
  | .respond action block => some { s with
      blocks := s.blocks ++ [block]
      results := s.results ++ [⟨some ⟨action, block⟩, Dict.empty, none⟩] }
  | .readHeaders i => (s.results[i]?).map fun r =>
      let p := r.readHeaders parseInt (s.decoderOf (actionOf r))
      { s.putBack i p with readings := s.readings ++ [.headers i p.2.headers] }
  | .readStatus i => (s.results[i]?).map fun r =>
      let p := r.readStatus parseInt (s.decoderOf (actionOf r))
      { s.putBack i p with readings := s.readings ++ [.status i p.2.status] }

/-- The headers that the standard's decoder gives for a response. -/
def expected (s : Responses) (i : Nat) : List Field :=
  (decodeAll ⟨[], 4096⟩ s.blocks).getD i []

/-- A reading is what the standard's decoder gives. -/
def Right (s : Responses) : Reading → Prop
  | .headers i value =>
    HeaderDict.fields value = HeaderDict.fields (dictOf (othersOf (s.expected i)))
  | .status i value =>
    match statusOf (s.expected i) with
    | none => value = none
    | some v => value ≠ none ∧ value = parseInt v

def Correct (s : Responses) : Prop := ∀ r ∈ s.readings, s.Right parseInt r

end Step

/-- Nothing is read that is there. -/
def ReadsNothing (s : Responses) : Event → Responses → Prop
  | .readHeaders i, _ => othersOf (s.expected i) = []
  | .readStatus i, _ => statusOf (s.expected i) = none
  | _, _ => True

end Responses

/-! ## 4. What a writable buffer gives -/

namespace Decoder

/-- No literal can be read: its name is an index or a string with its length in front. -/
theorem decodeLiteral_writable (d : Decoder) (data : Octets) (shouldIndex : Bool) :
    (d.decodeLiteral true data shouldIndex).2 = .error .valueError := by
  have hinteger : ∀ n, decodeInteger true data n = .error .valueError := fun _ => rfl
  have hstring : decodeString true (data.drop 1) = .error .valueError := rfl
  have hname : d.decodeName true data shouldIndex = (d, .error .valueError) := by
    simp only [decodeName, hinteger, hstring, Except.map, ite_self]
  rw [decodeLiteral, hname]

/-- No representation can be read. -/
theorem decodeStep_writable (d : Decoder) (data : Octets) :
    (d.decodeStep true data).2 = .error .valueError := by
  have hinteger : ∀ n, decodeInteger true data n = .error .valueError := fun _ => rfl
  simp only [decodeStep, hinteger]
  split
  · rfl
  · split
    · rw [decodeLiteral_writable]
      rfl
    · split
      · rfl
      · rw [decodeLiteral_writable]
        rfl

theorem decode_writable (d : Decoder) {data : Octets} (h : data ≠ []) :
    (d.decode true data).2 = .error .valueError := by
  obtain ⟨b, data, rfl⟩ := List.exists_cons_of_ne_nil h
  have herror := d.decodeStep_writable (b :: data)
  generalize hstep : d.decodeStep true (b :: data) = r at herror
  obtain ⟨d', r⟩ := r
  obtain rfl : r = .error .valueError := herror
  simp only [decode, List.length_cons, decodeLoop, hstep]

end Decoder

section Parse

variable (parseInt : Octets → Option Int)

/-- The dictionary of a response whose headers were parsed: the status alone. -/
def statusOnly (code : Option Int) : HeaderDict :=
  Dict.empty.set (.str ['s', 't', 'a', 't', 'u', 's']) (.status code)

@[simp] theorem fields_statusOnly (code : Option Int) :
    HeaderDict.fields (statusOnly code) = [] := rfl

theorem statusOnly_ne_nil (code : Option Int) : (statusOnly code).items ≠ [] :=
  List.cons_ne_nil _ _

theorem parse_eq (h : DeferredHeaders) (d : Decoder) :
    ∃ code, (h.parse parseInt d).2 = some (code, Dict.empty) := by
  by_cases hraw : h.rawHeaders = []
  · refine ⟨none, ?_⟩
    rw [DeferredHeaders.parse, hraw]
    rfl
  · have herror := (d.setHeaderTableSize d.headerTable.maxsize).decode_writable hraw
    refine ⟨some 400, ?_⟩
    rw [DeferredHeaders.parse]
    generalize (d.setHeaderTableSize d.headerTable.maxsize).decode true h.rawHeaders = r at herror ⊢
    obtain ⟨d', r⟩ := r
    obtain rfl : r = .error .valueError := herror
    rfl

/-- A result whose headers were not read, or show nothing but the code of the parse. -/
structure Blind (r : HTTP2Result) : Prop where
  deferred : r.deferredHeaders.isSome
  headers : r.headers = Dict.empty ∨ ∃ code, r.headers = statusOnly code
  status : r.status = none

theorem parseHeaders_eq {r : HTTP2Result} (h : Blind r) (d : Decoder) :
    ∃ code, (r.parseHeaders parseInt d).2 = statusOnly code := by
  obtain ⟨raw, hraw⟩ := Option.isSome_iff_exists.mp h.deferred
  obtain ⟨code, hcode⟩ := parse_eq parseInt raw d
  refine ⟨code, ?_⟩
  generalize hparse : raw.parse parseInt d = p at hcode
  obtain ⟨d', p⟩ := p
  obtain rfl : p = some (code, Dict.empty) := hcode
  simp only [HTTP2Result.parseHeaders, hraw, hparse, statusOnly]

theorem readHeaders_eq {r : HTTP2Result} (h : Blind r) (d : Decoder) :
    ∃ code, (r.readHeaders parseInt d).2 = { r with headers := statusOnly code } := by
  by_cases hitems : r.headers.items = []
  · obtain ⟨code, hcode⟩ := parseHeaders_eq parseInt h d
    exact ⟨code, by simp only [HTTP2Result.readHeaders, hitems, if_true, hcode]⟩
  · obtain hempty | ⟨code, hcode⟩ := h.headers
    · exact absurd (congrArg Dict.items hempty) hitems
    · refine ⟨code, ?_⟩
      simp only [HTTP2Result.readHeaders, hitems, if_false, ← hcode]

/-- `status` finds the headers there, and leaves what it looks for as it is. -/
theorem readStatus_eq {r : HTTP2Result} (h : Blind r) (d : Decoder) :
    ∃ code, (r.readStatus parseInt d).2 = { r with headers := statusOnly code } := by
  obtain ⟨code, hcode⟩ := readHeaders_eq parseInt h d
  refine ⟨code, ?_⟩
  simp only [HTTP2Result.readStatus, h.status, if_true, hcode, statusOnly_ne_nil, false_and,
    if_false]

theorem Blind.read {r : HTTP2Result} (h : Blind r) (code : Option Int) :
    Blind { r with headers := statusOnly code } := ⟨h.deferred, .inr ⟨code, rfl⟩, h.status⟩

end Parse

/-! ## 5. What is expected -/

theorem length_decodeAll (T : Lib.Hpack.Table) (blocks : List Octets) :
    (decodeAll T blocks).length = blocks.length := by
  induction blocks generalizing T with
  | nil => rfl
  | cons block blocks ih =>
    rw [decodeAll]
    cases Lib.Hpack.decode staticTable standardHuffman 4096 T block with
    | none => rw [List.length_map]
    | some r => exact congrArg (· + 1) (ih r.2)

/-- A later response changes nothing about the earlier ones. -/
theorem decodeAll_append (T : Lib.Hpack.Table) (blocks : List Octets) (block : Octets) :
    ∃ fs, decodeAll T (blocks ++ [block]) = decodeAll T blocks ++ [fs] := by
  induction blocks generalizing T with
  | nil =>
    cases hdec : Lib.Hpack.decode staticTable standardHuffman 4096 T block with
    | none => exact ⟨[], by simp [decodeAll, hdec]⟩
    | some r => exact ⟨r.1, by simp [decodeAll, hdec]⟩
  | cons b blocks ih =>
    rw [List.cons_append, decodeAll, decodeAll]
    cases Lib.Hpack.decode staticTable standardHuffman 4096 T b with
    | none => exact ⟨[], by simp⟩
    | some r =>
      obtain ⟨fs, hfs⟩ := ih r.2
      exact ⟨fs, congrArg (r.1 :: ·) hfs⟩

/-- The dictionary of some headers has a header. -/
theorem fields_dictOf_eq_nil_iff (fs : List Field) :
    HeaderDict.fields (dictOf fs) = [] ↔ fs = [] := by
  refine ⟨fun h => ?_, fun h => by rw [h]; rfl⟩
  rcases List.eq_nil_or_concat fs with rfl | ⟨fs, f, rfl⟩
  · rfl
  · rw [List.concat_eq_append, dictOf, List.foldl_concat] at h
    generalize fs.foldl _ _ = headers at h
    generalize (if (ascii ":").isPrefixOf f.1 then stripColons f.1 else f.1) = k at h
    have hget := Dict.get?_set_self headers (Text.bytes k) (HeaderValue.bytes f.2)
    have hmem := (Dict.mem_items_iff _ _ _).mpr hget
    have hfield : (k, f.2) ∈ HeaderDict.fields (headers.set (.bytes k) (.bytes f.2)) :=
      List.mem_filterMap.mpr ⟨_, hmem, rfl⟩
    rw [h] at hfield
    exact absurd hfield List.not_mem_nil

namespace Responses

variable (parseInt : Octets → Option Int)

/-! ## 6. Runs -/

/-- What holds of every state: one result for each block, none of them ever shows a header, and a
reading is of a response that is there. -/
structure Inv (s : Responses) : Prop where
  length : s.results.length = s.blocks.length
  blind : ∀ r ∈ s.results, Blind r
  read : ∀ r ∈ s.readings, r.response < s.blocks.length

theorem inv_init : Inv init :=
  ⟨rfl, fun _ h => absurd h List.not_mem_nil, fun _ h => absurd h List.not_mem_nil⟩

/-- What a step can do: nothing that shows, a response, or a reading that shows no header. -/
theorem step_cases {s s' : Responses} {e : Event} (hs : Inv s) (h : step parseInt s e = some s') :
    (s'.blocks = s.blocks ∧ s'.results = s.results ∧ s'.readings = s.readings ∧
      ∃ action headers, e = .encode action headers) ∨
    (∃ action block, e = .respond action block ∧ s'.blocks = s.blocks ++ [block] ∧
      s'.results = s.results ++ [⟨some ⟨action, block⟩, Dict.empty, none⟩] ∧
      s'.readings = s.readings) ∨
    (∃ i r code, s.results[i]? = some r ∧ s'.blocks = s.blocks ∧
      s'.results = s.results.set i { r with headers := statusOnly code } ∧
      ((e = .readHeaders i ∧ s'.readings = s.readings ++ [.headers i (statusOnly code)]) ∨
       (e = .readStatus i ∧ s'.readings = s.readings ++ [.status i none]))) := by
  cases e with
  | encode action headers =>
    obtain rfl := Option.some.inj h
    exact .inl ⟨rfl, rfl, rfl, action, headers, rfl⟩
  | respond action block =>
    obtain rfl := Option.some.inj h
    exact .inr (.inl ⟨action, block, rfl, rfl, rfl, rfl⟩)
  | readHeaders i =>
    obtain ⟨r, hr, rfl⟩ := Option.map_eq_some_iff.mp h
    have hblind := hs.blind r (List.mem_of_getElem? hr)
    obtain ⟨code, hcode⟩ := readHeaders_eq parseInt hblind (s.decoderOf (actionOf r))
    exact .inr (.inr ⟨i, r, code, hr, rfl, by simp only [putBack, hcode],
      .inl ⟨rfl, by simp only [hcode]⟩⟩)
  | readStatus i =>
    obtain ⟨r, hr, rfl⟩ := Option.map_eq_some_iff.mp h
    have hblind := hs.blind r (List.mem_of_getElem? hr)
    obtain ⟨code, hcode⟩ := readStatus_eq parseInt hblind (s.decoderOf (actionOf r))
    exact .inr (.inr ⟨i, r, code, hr, rfl, by simp only [putBack, hcode],
      .inr ⟨rfl, by simp only [hcode, hblind.status]⟩⟩)

theorem Inv.step {s s' : Responses} {e : Event} (hs : Inv s) (h : step parseInt s e = some s') :
    Inv s' := by
  obtain ⟨hblocks, hresults, hreadings, -⟩ | ⟨action, block, -, hblocks, hresults, hreadings⟩ |
    ⟨i, r, code, hr, hblocks, hresults, hreadings⟩ := step_cases parseInt hs h
  · exact ⟨by rw [hresults, hblocks, hs.length], by rw [hresults]; exact hs.blind,
      by rw [hreadings, hblocks]; exact hs.read⟩
  · refine ⟨by rw [hresults, hblocks, List.length_append, List.length_append, hs.length]; rfl, ?_,
      ?_⟩
    · rw [hresults]
      intro r hr
      obtain hr | hr := List.mem_append.mp hr
      · exact hs.blind r hr
      · rw [List.mem_singleton.mp hr]
        exact ⟨rfl, .inl rfl, rfl⟩
    · rw [hreadings, hblocks, List.length_append]
      exact fun r hr => Nat.lt_add_right _ (hs.read r hr)
  · refine ⟨by rw [hresults, hblocks, List.length_set, hs.length], ?_, ?_⟩
    · rw [hresults]
      intro r' hr'
      obtain hr' | rfl := List.mem_or_eq_of_mem_set hr'
      · exact hs.blind r' hr'
      · exact (hs.blind r (List.mem_of_getElem? hr)).read code
    · have hi : i < s.blocks.length := by
        rw [← hs.length]
        exact (List.getElem?_eq_some_iff.mp hr).1
      obtain ⟨reading, hreading, rfl⟩ :
          ∃ reading, s'.readings = s.readings ++ [reading] ∧ reading.response = i := by
        obtain ⟨-, hreadings⟩ | ⟨-, hreadings⟩ := hreadings
        · exact ⟨_, hreadings, rfl⟩
        · exact ⟨_, hreadings, rfl⟩
      rw [hreading, hblocks]
      intro r' hr'
      obtain hr' | hr' := List.mem_append.mp hr'
      · exact hs.read r' hr'
      · rwa [List.mem_singleton.mp hr']

/-- What is expected of a response that is there stays. -/
theorem expected_append {s s' : Responses} {block : Octets} (h : s'.blocks = s.blocks ++ [block])
    {i : Nat} (hi : i < s.blocks.length) : s'.expected i = s.expected i := by
  obtain ⟨fs, hfs⟩ := decodeAll_append ⟨[], 4096⟩ s.blocks block
  rw [expected, h, hfs, List.getD_append _ _ _ _ (by rwa [length_decodeAll]), expected]

theorem right_congr {s s' : Responses} {r : Reading}
    (h : s'.expected r.response = s.expected r.response) :
    s'.Right parseInt r ↔ s.Right parseInt r := by
  cases r <;> exact iff_of_eq (by simp only [Right] at h ⊢; simp only [Reading.response] at h; rw [h])

theorem right_headers_iff (s : Responses) (i : Nat) (code : Option Int) :
    s.Right parseInt (.headers i (statusOnly code)) ↔ othersOf (s.expected i) = [] := by
  rw [Right, fields_statusOnly, eq_comm, fields_dictOf_eq_nil_iff]

theorem right_status_iff (s : Responses) (i : Nat) :
    s.Right parseInt (.status i none) ↔ statusOf (s.expected i) = none := by
  rw [Right]
  cases statusOf (s.expected i) <;> simp

theorem correct_congr {s s' : Responses} (hreadings : s'.readings = s.readings)
    (h : ∀ r ∈ s.readings, s'.expected r.response = s.expected r.response) :
    s'.Correct parseInt ↔ s.Correct parseInt := by
  rw [Correct, Correct, hreadings]
  exact forall₂_congr fun r hr => right_congr parseInt (h r hr)

theorem correct_concat {s s' : Responses} {r : Reading} (hblocks : s'.blocks = s.blocks)
    (hreadings : s'.readings = s.readings ++ [r]) (hs : s.Correct parseInt) :
    s'.Correct parseInt ↔ s.Right parseInt r := by
  have hexpected : ∀ i, s'.expected i = s.expected i := fun i => by rw [expected, hblocks, expected]
  rw [Correct, hreadings]
  constructor
  · exact fun h => (right_congr parseInt (hexpected _)).mp (h r (by simp))
  · intro h r' hr'
    rw [right_congr parseInt (hexpected _)]
    obtain hr' | hr' := List.mem_append.mp hr'
    · exact hs r' hr'
    · rwa [List.mem_singleton.mp hr']

/-- A step keeps the readings right if and only if it reads nothing that is there. -/
theorem correct_step_iff {s s' : Responses} {e : Event} (hs : Inv s) (hc : s.Correct parseInt)
    (h : step parseInt s e = some s') : s'.Correct parseInt ↔ s.ReadsNothing e s' := by
  obtain ⟨hblocks, -, hreadings, action, headers, rfl⟩ |
    ⟨action, block, rfl, hblocks, -, hreadings⟩ |
    ⟨i, r, code, hr, hblocks, -, ⟨rfl, hreadings⟩ | ⟨rfl, hreadings⟩⟩ := step_cases parseInt hs h
  · refine (correct_congr parseInt hreadings fun r _ => ?_).trans (iff_of_true hc trivial)
    rw [expected, hblocks, expected]
  · refine (correct_congr parseInt hreadings fun r hr => ?_).trans (iff_of_true hc trivial)
    exact expected_append hblocks (hs.read r hr)
  · rw [correct_concat parseInt hblocks hreadings hc, right_headers_iff]
    rfl
  · rw [correct_concat parseInt hblocks hreadings hc, right_status_iff]
    rfl

/-- **Headers that are read later.** -/
theorem always_correct_iff (events : List Event) :
    Always (step parseInt) (Correct parseInt) init events ↔
      Along (step parseInt) ReadsNothing init events := by
  have hinit : init.Correct parseInt := fun _ h => absurd h List.not_mem_nil
  refine Lib.Machine.always_iff_along_of_invariant (fun s e s' hs hc h => ?_) inv_init hinit
  exact ⟨Inv.step parseInt hs h, correct_step_iff parseInt hs hc h⟩

/-- A response of the status 200 alone: its status is not found. -/
theorem not_correct_status : ¬ Always (step fun _ => some 200) (Correct fun _ => some 200) init
    [.respond 0 [0x88], .readStatus 0] := by
  intro h
  have hresponse : step (fun _ => some 200) init (.respond 0 [0x88]) = some
      ⟨fun _ => Encoder.init, Lib.LruCache.empty, [[0x88]],
        [⟨some ⟨0, [0x88]⟩, Dict.empty, none⟩], []⟩ := rfl
  have hrest := h.2 _ hresponse
  obtain ⟨s, hs⟩ : ∃ s, step (fun _ => some 200) ⟨fun _ => Encoder.init, Lib.LruCache.empty, [[0x88]],
    [⟨some ⟨0, [0x88]⟩, Dict.empty, none⟩], []⟩ (.readStatus 0) = some s := ⟨_, rfl⟩
  have hread : statusOf ((decodeAll ⟨[], 4096⟩ [[0x88]]).getD 0 []) = none :=
    (correct_step_iff _ (inv_init.step _ hresponse) hrest.1 hs).mp (hrest.2 s hs)
  exact absurd hread (by decide +kernel)

end Responses

end Http2
end Hedra
