/-
# Request headers that are encoded ahead

`HTTP2Action` (`core/engines/types/http2/action.py`) encodes its headers once, with an encoder that
it keeps, and the pipe sends the block on every connection the action is sent on.  A peer reads it
with a decoder of the standard whose table is empty at first.

The block of a new encoder refers to nothing but its own entries, so every peer reads it
(`always_received`).  A block that the same encoder makes later refers to entries of the first, which
no new peer has; and the pipe sends the first frame's worth of a block only, and when the peer asked
for another table size, the block from before.
-/
import Hedra.Lib.Machine
import Hedra.Http2.Pipe
import Hedra.Http2.HeaderCodec

namespace Hedra
namespace Http2

open Lib.Hpack (Octets Field Rep)
open Lib.Machine (run Along Always)

/-! ## 1. `HTTP2Action` -/

/-- A `str`. -/
abbrev Str := List Char

/-- `s.encode('utf-8')` -/
def Str.encode (s : Str) : Octets := s.flatMap String.utf8EncodeChar

/-- A `str` or `bytes`.  The two are never equal. -/
inductive Text
  | str (s : Str)
  | bytes (b : Octets)
  deriving DecidableEq

/-- The fields of an action that the header block is made of, and the block. -/
structure HTTP2Action where
  method : Str
  authority : Str
  scheme : Str
  path : Str
  /-- `_header_items` -/
  headerItems : List (Str × Str)
  /-- `encoded_headers`, cut into frames. -/
  encodedHeaders : Option (List Octets)
  hpackEncoder : Encoder

/-- `[block[i:i+size] for i in range(0, len(block), size)]` -/
def chunks (size : Nat) (block : Octets) : List Octets :=
  (List.range ((block.length + size - 1) / size)).map fun i => (block.drop (i * size)).take size

namespace HTTP2Action

section Setup

variable (lower : Str → Str)

/-- The list that is encoded.  The names that are left out are written as `bytes`, and the keys are
of type `str`. -/
def headers (a : HTTP2Action) : List Header :=
  [⟨ascii ":method", a.method.encode, false⟩, ⟨ascii ":authority", a.authority.encode, false⟩,
    ⟨ascii ":scheme", a.scheme.encode, false⟩, ⟨ascii ":path", a.path.encode, false⟩] ++
  (a.headerItems.filter fun item => Text.str (lower item.1) ∉
    [Text.bytes (ascii "host"), Text.bytes (ascii "transfer-encoding")]).map fun item =>
      ⟨(lower item.1).encode, item.2.encode, false⟩

/-- `_setup_headers` -/
def setupHeaders (a : HTTP2Action) : HTTP2Action :=
  let r := a.hpackEncoder.encode (a.headers lower) true
  { a with
    encodedHeaders := some (chunks (Settings.init false []).maxFrameSize r.1)
    hpackEncoder := r.2 }

/-- `setup`, its part for the headers. -/
def setup (a : HTTP2Action) : HTTP2Action :=
  match a.encodedHeaders with
  | none => a.setupHeaders lower
  | some _ => a

/-- The setter of `headers`. -/
def setHeaders (a : HTTP2Action) (items : List (Str × Str)) : HTTP2Action :=
  { a with headerItems := items, encodedHeaders := none }

/-- `send_request_headers` of a pipe whose encoder has this table size: the action after it, and
the block, or nothing where it raises. -/
def sendRequestHeaders (a : HTTP2Action) (pipeSize : Nat) : HTTP2Action × Option Octets :=
  let encodedHeaders := a.encodedHeaders
  let a' := if a.hpackEncoder.headerTable.maxsize ≠ pipeSize then
    setupHeaders lower { a with hpackEncoder := a.hpackEncoder.setHeaderTableSize pipeSize } else a
  (a', encodedHeaders.bind List.head?)

/-- What the peer should read. -/
def fields (a : HTTP2Action) : List Field :=
  [(ascii ":method", a.method.encode), (ascii ":authority", a.authority.encode),
    (ascii ":scheme", a.scheme.encode), (ascii ":path", a.path.encode)] ++
  a.headerItems.map fun item => ((lower item.1).encode, item.2.encode)

end Setup

end HTTP2Action

/-! ## 2. The machine -/

/-- An action, the table size the pipe was told, the peer's table on the current connection, and for
each block that was sent what the peer should have read and what it read. -/
structure Sending where
  action : HTTP2Action
  pipeSize : Nat
  peer : Lib.Hpack.Table
  received : List (List Field × Option (List Field))

namespace Sending

/-- The table of a new connection's peer. -/
def newPeer : Lib.Hpack.Table := ⟨[], 4096⟩

/-- A new action, and a pipe. -/
def init (method authority scheme path : Str) (items : List (Str × Str)) : Sending where
  action := ⟨method, authority, scheme, path, items, none, Encoder.init⟩
  pipeSize := 4096
  peer := newPeer
  received := []

inductive Event
  | setHeaders (items : List (Str × Str))
  | setup
  | connect
  /-- The peer's settings give this size for its table. -/
  | tableSize (size : Nat)
  | send

section Step

variable (lower : Str → Str)

/-- The peer reads a block.  It accepts tables up to the size it gave. -/
def receive (s : Sending) (block : Octets) : Sending :=
  let r := Lib.Hpack.decode staticTable standardHuffman s.pipeSize s.peer block
  { s with
    peer := (r.map Prod.snd).getD s.peer
    received := s.received ++ [(s.action.fields lower, r.map Prod.fst)] }

def step (s : Sending) : Event → Option Sending
  | .setHeaders items => some { s with action := s.action.setHeaders items }
  | .setup => some { s with action := s.action.setup lower }
  | .connect => some { s with peer := newPeer }
  | .tableSize size => some { s with pipeSize := size }
  | .send =>
    match s.action.sendRequestHeaders lower s.pipeSize with
    | (a, none) => some { s with action := a }
    | (a, some block) => some { s.receive lower block with action := a }

end Step

/-- Every block was read as the headers of the action. -/
def Received (s : Sending) : Prop := ∀ r ∈ s.received, r.2 = some r.1

/-- The encoder is as it was made. -/
def Unused (e : Encoder) : Prop :=
  e.headerTable.dynamicEntries = [] ∧ e.headerTable.maxsize = 4096 ∧
  e.headerTable.resized = false ∧ e.tableSizeChanges = []

/-- Headers are encoded with a new encoder only, and are sent in one frame to a peer with the same
table size. -/
def StepOnce (s : Sending) : Event → Sending → Prop
  | .setup, _ => s.action.encodedHeaders = none → Unused s.action.hpackEncoder
  | .send, _ => s.action.hpackEncoder.headerTable.maxsize = s.pipeSize ∧
      ∀ blocks ∈ s.action.encodedHeaders, blocks.length ≤ 1
  | _, _ => True

end Sending

/-! ## 3. The block of a new encoder -/

namespace HTTP2Action

variable {lower : Str → Str}

/-- No `str` is one of the names that are left out. -/
theorem map_field_headers (a : HTTP2Action) :
    (a.headers lower).map Header.field = a.fields lower := by
  simp [headers, fields, Header.field]

theorem headers_ne_nil (a : HTTP2Action) : a.headers lower ≠ [] := List.cons_ne_nil _ _

end HTTP2Action

theorem chunks_eq_singleton {size : Nat} {block : Octets} (hsize : 0 < size) (hne : block ≠ [])
    (h : (chunks size block).length ≤ 1) : chunks size block = [block] := by
  have hpos : 0 < block.length := List.length_pos_iff.mpr hne
  rw [chunks, List.length_map, List.length_range] at h
  have hle : block.length ≤ size := by
    by_contra hlt
    have htwo : 2 ≤ (block.length + size - 1) / size :=
      (Nat.le_div_iff_mul_le hsize).mpr (by omega)
    omega
  have hone : (block.length + size - 1) / size = 1 :=
    Nat.div_eq_of_lt_le (by omega) (by omega)
  rw [chunks, hone]
  simp [List.take_of_length_le hle]

namespace Sending

variable {lower : Str → Str}

/-- Any peer whose table is large enough reads the block of a new encoder. -/
theorem decode_unused {e : Encoder} (he : Unused e) (headers : List Header) {T : Lib.Hpack.Table}
    (hT : 4096 ≤ T.limit) (max : Nat) : ∃ T',
    Lib.Hpack.decode staticTable standardHuffman max T (e.encode headers true).1
      = some (headers.map Header.field, T') ∧ 4096 ≤ T'.limit := by
  obtain ⟨hentries, hmaxsize, hresized, -⟩ := he
  obtain ⟨reps, hreps, hkinds, hinterpret⟩ := @Encoder.addAll_spec max e true headers
  obtain ⟨T', hdecode, hF⟩ := hinterpret T
    ⟨by rw [hentries]; exact List.nil_prefix, by rw [hmaxsize]; exact hT⟩
  have hflush : e.flushSizes = ([], e) := by simp [Encoder.flushSizes, hresized]
  have hblock : (e.encode headers true).1 = reps.flatMap Rep.serialize := by
    rw [Encoder.encode, hflush]
    exact hreps
  refine ⟨T', ?_, ?_⟩
  · rw [hblock, Lib.Hpack.decode_serialize (Lib.Hpack.sizesFirst_of_forall hkinds), hdecode]
  · rw [← hmaxsize, ← Encoder.maxsize_addAll e true headers]
    exact hF.limit

/-- A block is never empty: there are headers in it. -/
theorem encode_ne_nil (e : Encoder) {headers : List Header} (h : headers ≠ []) :
    (e.encode headers true).1 ≠ [] := by
  have hlen := e.flushSizes.2.length_le_addAll true headers
  have hpos := List.length_pos_iff.mpr h
  intro hnil
  rw [(List.append_eq_nil_iff.mp hnil).2, List.length_nil] at hlen
  omega

/-! ## 4. A run -/

/-- What was encoded is the block of a new encoder. -/
structure Wf (lower : Str → Str) (s : Sending) : Prop where
  received : s.Received
  peer : 4096 ≤ s.peer.limit
  encoded : ∀ blocks, s.action.encodedHeaders = some blocks → ∃ e, Unused e ∧
    blocks = chunks (Settings.init false []).maxFrameSize (e.encode (s.action.headers lower) true).1

theorem wf_init (method authority scheme path : Str) (items : List (Str × Str)) :
    Wf lower (init method authority scheme path items) where
  received := fun r hr => by cases hr
  peer := Nat.le_refl _
  encoded := fun blocks hblocks => by cases hblocks

theorem wf_setup {s : Sending} (h : Wf lower s)
    (hunused : s.action.encodedHeaders = none → Unused s.action.hpackEncoder) :
    Wf lower { s with action := s.action.setup lower } := by
  rw [HTTP2Action.setup]
  cases hencoded : s.action.encodedHeaders with
  | some blocks => exact h
  | none =>
    refine ⟨h.received, h.peer, fun blocks hblocks => ?_⟩
    exact ⟨s.action.hpackEncoder, hunused hencoded, (Option.some.inj hblocks).symm⟩

theorem wf_receive {s : Sending} (h : Wf lower s) {block : Octets} {e : Encoder} (he : Unused e)
    (hblock : block = (e.encode (s.action.headers lower) true).1) : Wf lower (s.receive lower block) := by
  obtain ⟨T', hdecode, hlimit⟩ := decode_unused he (s.action.headers lower) h.peer s.pipeSize
  rw [← hblock, HTTP2Action.map_field_headers] at hdecode
  have hafter : s.receive lower block = { s with
      peer := T'
      received := s.received ++ [(s.action.fields lower, some (s.action.fields lower))] } := by
    rw [receive, hdecode]
    rfl
  rw [hafter]
  refine ⟨fun r hr => ?_, hlimit, h.encoded⟩
  rcases List.mem_append.mp hr with hr | hr
  · exact h.received r hr
  · rw [List.mem_singleton.mp hr]

theorem wf_send {s s' : Sending} (h : Wf lower s) (hstep : step lower s .send = some s')
    (hsize : s.action.hpackEncoder.headerTable.maxsize = s.pipeSize)
    (hone : ∀ blocks ∈ s.action.encodedHeaders, blocks.length ≤ 1) : Wf lower s' := by
  have hsend : s.action.sendRequestHeaders lower s.pipeSize
      = (s.action, s.action.encodedHeaders.bind List.head?) := by
    simp [HTTP2Action.sendRequestHeaders, hsize]
  rw [step, hsend] at hstep
  cases hencoded : s.action.encodedHeaders with
  | none =>
    rw [hencoded] at hstep
    obtain rfl := Option.some.inj hstep
    exact h
  | some blocks =>
    obtain ⟨e, he, rfl⟩ := h.encoded blocks hencoded
    have hblocks := chunks_eq_singleton (by decide)
      (encode_ne_nil e s.action.headers_ne_nil) (hone _ hencoded)
    rw [hencoded, hblocks] at hstep
    obtain rfl := Option.some.inj hstep
    exact wf_receive h he rfl

/-- **Pre-encoded headers arrive.**  In a run in which each block comes from a new encoder and is
sent in one frame, to peers with the table size it was made for, every peer reads the action's
headers. -/
theorem always_received (lower : Str → Str) (method authority scheme path : Str)
    (items : List (Str × Str)) (events : List Event)
    (h : Along (step lower) StepOnce (init method authority scheme path items) events) :
    Always (step lower) Received (init method authority scheme path items) events := by
  refine Always.mono (fun s hs => Wf.received hs) (Along.always (I := Wf lower) ?_
    (wf_init method authority scheme path items) h)
  intro s ev s' hs hstep hone
  cases ev with
  | setHeaders items =>
    obtain rfl := Option.some.inj hstep
    exact ⟨hs.received, hs.peer, fun blocks hblocks => by cases hblocks⟩
  | setup =>
    obtain rfl := Option.some.inj hstep
    exact wf_setup hs hone
  | connect =>
    obtain rfl := Option.some.inj hstep
    exact ⟨hs.received, Nat.le_refl _, hs.encoded⟩
  | tableSize size =>
    obtain rfl := Option.some.inj hstep
    exact ⟨hs.received, hs.peer, hs.encoded⟩
  | send => exact wf_send hs hstep hone.1 hone.2

instance (e : Encoder) : Decidable (Unused e) := inferInstanceAs (Decidable (_ ∧ _ ∧ _ ∧ _))

instance (s : Sending) (ev : Event) (s' : Sending) : Decidable (StepOnce s ev s') :=
  match ev with
  | .setup => inferInstanceAs (Decidable (s.action.encodedHeaders = none → _))
  | .send => inferInstanceAs (Decidable (_ ∧ ∀ blocks ∈ s.action.encodedHeaders, _))
  | .setHeaders _ => isTrue trivial
  | .connect => isTrue trivial
  | .tableSize _ => isTrue trivial

instance (s : Sending) : Decidable s.Received :=
  inferInstanceAs (Decidable (∀ r ∈ s.received, r.2 = some r.1))

/-- Lower case, of ASCII letters. -/
def asciiLower (s : Str) : Str := s.map Char.toLower

/-- One action on two connections. -/
theorem received_twice : Always (step asciiLower) Received
    (init ['G', 'E', 'T'] ['a'] ['h', 't', 't', 'p', 's'] ['/'] [(['X'], ['1'])])
    [.setup, .connect, .send, .setup, .connect, .send] :=
  always_received asciiLower _ _ _ _ _ _ (by decide +kernel)

/-- New headers are set up with the encoder of the old ones: a new peer has no entry 62. -/
theorem not_received_again : ¬ ∀ (method authority scheme path : Str) (items : List (Str × Str))
    (events : List Event),
    Always (step asciiLower) Received (init method authority scheme path items) events := by
  intro h
  have hlast := (h ['G', 'E', 'T'] ['a'] ['h', 't', 't', 'p', 's'] ['/'] []
    [.setup, .connect, .setHeaders [(['x'], ['1'])], .setup, .send]).last rfl
  revert hlast
  decide +kernel

end Sending

end Http2
end Hedra
