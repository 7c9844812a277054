/-
# Actions that are mutated

A mutation edits an action that is already encoded: it writes headers or data, and has the action
encode its headers, or its data, once more.  How it does that is up to its type.  What the types
have in common is that `_setup_headers` fails or not whatever the data and the encoder are, and
that data which was encoded is encoded the same way again.

The six types are instances: HTTP, HTTP/2, HTTP/3, gRPC and the two of GraphQL, whose
`_setup_data` assigns a property that cannot be assigned.

They are the `action.py` of `http`, `http2`, `http3`, `grpc`, `graphql` and `graphql_http2`
(`core/engines/types`).  What a mutation may rely on is a field of `ActionType`, and so each
instance has the proof that the type keeps to it.
-/
import Hedra.Lib.Dict
import Hedra.Engines.RequestEncoding
import Hedra.Engines.Grpc
import Hedra.Http2.RequestHeaders

namespace Hedra
namespace Experiments
namespace Mutations

open Lib (Dict)
open Lib.Utf8 (encode)
open Engines.RequestEncoding (Str URL Data Codecs Encoded HTTPAction)

abbrev Bytes := List UInt8

/-! ## 1. Values of headers -/

/-- A `str`, `bytes` or an `int`, none of which is equal to one of the others. -/
inductive Value
  | text (s : Str)
  | bytes (b : Bytes)
  | number (n : ℕ)
  deriving DecidableEq

/-- A byte as `repr` writes it between two quotes. -/
def reprByte (quote b : UInt8) : Str :=
  let backslash := Char.ofNat 92
  if b = 92 ∨ b = quote then [backslash, Char.ofNat b.toNat]
  else if b = 9 then [backslash, 't']
  else if b = 10 then [backslash, 'n']
  else if b = 13 then [backslash, 'r']
  else if 32 ≤ b ∧ b < 127 then [Char.ofNat b.toNat]
  else [backslash, 'x', Nat.digitChar (b.toNat / 16), Nat.digitChar (b.toNat % 16)]

/-- `repr(b)` -/
def reprBytes (b : Bytes) : Str :=
  let quote : UInt8 := if 39 ∈ b ∧ 34 ∉ b then 34 else 39
  'b' :: Char.ofNat quote.toNat :: (b.flatMap (reprByte quote) ++ [Char.ofNat quote.toNat])

namespace Value

/-- `f'{value}'` -/
def format : Value → Str
  | text s => s
  | bytes b => reprBytes b
  | number n => Lib.Numerals.decimal n

/-- `_to_bytes` -/
def toBytes : Value → Bytes
  | text s => encode s
  | bytes b => b
  | number n => encode (Lib.Numerals.decimal n)

/-- `value.encode()`, which only a `str` has. -/
def encoded : Value → Option Bytes
  | text s => some (encode s)
  | _ => none

end Value

/-! ## 2. Actions and their types -/

/-- What the actions of all types have.  `source` is what `_setup_data` reads, `encoder` what
`_setup_headers` keeps from one call to the next. -/
structure Action (D S E : Type) where
  method : Str
  /-- `_headers` -/
  headers : Dict Str Value
  /-- `_header_items` -/
  headerItems : List (Str × Value)
  source : D
  encodedData : Option Encoded
  encoder : S
  encodedHeaders : Option E

/-- A type of actions. -/
structure ActionType (D S E : Type) where
  /-- What `_setup_headers` writes into `_headers`. -/
  own : Dict Str Value
  /-- The headers that it encodes, and the encoder after that, unless it raises. -/
  encode : Action D S E → Option (E × S)
  /-- The data that `_setup_data` encodes, if any, and what is left of the source, unless it
  raises. -/
  encodeData : D → Option (Option Encoded × D)
  encode_isSome : ∀ a b : Action D S E, a.method = b.method → a.headers = b.headers →
    a.headerItems = b.headerItems → a.source = b.source → (encode a).isSome = (encode b).isSome
  encodeData_again : ∀ d e d', encodeData d = some (e, d') → encodeData d' = some (e, d')

namespace ActionType

variable {D S E : Type} (t : ActionType D S E)

/-- `_setup_headers` -/
def setupHeaders (a : Action D S E) : Option (Action D S E) :=
  let headers := a.headers.update t.own
  (t.encode { a with headers := headers }).map fun r =>
    { a with headers := headers, encodedHeaders := some r.1, encoder := r.2 }

/-- `_setup_data` -/
def setupData (a : Action D S E) : Option (Action D S E) :=
  (t.encodeData a.source).map fun r =>
    { a with encodedData := r.1.or a.encodedData, source := r.2 }

/-- **Settled**: encoding the headers once more changes nothing. -/
def Settled (a : Action D S E) : Prop := t.setupHeaders a = some a

variable {t} {a a' b : Action D S E}

/-- What `_setup_headers` writes, and what it leaves as it was. -/
structure HeadersSet (t : ActionType D S E) (a a' : Action D S E) : Prop where
  method : a'.method = a.method
  headers : a'.headers = a.headers.update t.own
  headerItems : a'.headerItems = a.headerItems
  source : a'.source = a.source
  encodedData : a'.encodedData = a.encodedData

theorem headersSet (h : t.setupHeaders a = some a') : HeadersSet t a a' := by
  obtain ⟨r, -, rfl⟩ := Option.map_eq_some_iff.mp h
  exact ⟨rfl, rfl, rfl, rfl, rfl⟩

/-- Whether it raises is up to neither the data nor the encoder. -/
theorem setupHeaders_isSome (hmethod : a.method = b.method)
    (hheaders : a.headers.update t.own = b.headers.update t.own)
    (hitems : a.headerItems = b.headerItems) (hsource : a.source = b.source) :
    (t.setupHeaders a).isSome = (t.setupHeaders b).isSome := by
  rw [setupHeaders, setupHeaders, Option.isSome_map, Option.isSome_map]
  exact t.encode_isSome _ _ hmethod hheaders hitems hsource

/-- The headers of its own are not read before they are written. -/
theorem setupHeaders_congr (h : a.headers.update t.own = b.headers.update t.own)
    (hb : b = { a with headers := b.headers }) : t.setupHeaders b = t.setupHeaders a := by
  rw [hb, setupHeaders, setupHeaders, h]

end ActionType

/-! ## 3. HTTP -/

/-- What the actions of HTTP keep beside their headers. -/
structure Source (V T : Type) where
  url : URL
  /-- `url.full` -/
  full : Str
  data : Data V T
  isStream : Bool

section Http

variable {V T S E : Type} (codecs : Codecs V T)

/-- The action as `_setup_headers` of `HTTPAction` sees it. -/
def asHTTP (a : Action (Source V T) S E) : HTTPAction V T where
  method := a.method
  url := a.source.url
  headerItems := a.headerItems.map fun item => (item.1, item.2.format)
  data := a.source.data
  encodedData := a.encodedData
  encodedHeaders := none
  isStream := a.source.isStream

/-- `_setup_data` of `HTTPAction` and `HTTP2Action`. -/
def encodeSource (d : Source V T) : Option (Option Encoded × Source V T) :=
  let r := HTTPAction.setupData codecs ⟨[], d.url, [], d.data, none, none, d.isStream⟩
  if r.2 then some (r.1.encodedData, { d with data := r.1.data, isStream := r.1.isStream }) else none

theorem encodeSource_again {d d' : Source V T} {e : Option Encoded}
    (h : encodeSource codecs d = some (e, d')) : encodeSource codecs d' = some (e, d') := by
  obtain ⟨url, full, data, isStream⟩ := d
  -- only an iterator that yields nothing leaves a trace, the mark of a stream
  by_cases hstream : data = .iterator []
  · subst hstream
    cases h
    rfl
  · have hsame : ∀ r : HTTPAction V T × Bool,
        HTTPAction.setupData codecs ⟨[], url, [], data, none, none, isStream⟩ = r → r.2 = true →
          r.1.data = data ∧ r.1.isStream = isStream := by
      rintro r rfl hr
      unfold HTTPAction.setupData at hr ⊢
      split
      · split
        · next heq => exact absurd heq hstream
        · next heq => simp_all
        all_goals first | exact ⟨rfl, rfl⟩ | (split <;> exact ⟨rfl, rfl⟩)
      · exact ⟨rfl, rfl⟩
    unfold encodeSource at h
    dsimp only at h
    split at h
    · next hr =>
      obtain ⟨hdata, hisStream⟩ := hsame _ rfl hr
      obtain ⟨rfl, rfl⟩ := Prod.mk.inj (Option.some.inj h)
      unfold encodeSource
      dsimp only
      rw [hdata, hisStream, if_pos hr]
      rw [hdata, hisStream]
    · cases h

/-- `HTTPAction` -/
def http : ActionType (Source V T) Unit Bytes where
  own := Dict.empty
  encode a := (HTTPAction.head codecs (asHTTP a) (asHTTP a).size).map fun h => (h, ())
  encodeData := encodeSource codecs
  encode_isSome a b _ _ _ hsource := by
    simp only [Option.isSome_map, HTTPAction.head]
    rw [asHTTP, asHTTP, hsource]
  encodeData_again _ _ _ := encodeSource_again codecs

/-- Nothing is settled but a head that belongs to the headers and the data. -/
theorem settled_http_iff (a : Action (Source V T) Unit Bytes) :
    (http codecs).Settled a ↔ a.encodedHeaders.isSome ∧
      a.encodedHeaders = HTTPAction.head codecs (asHTTP a) (asHTTP a).size := by
  have hsetup : (http codecs).setupHeaders a =
      (HTTPAction.head codecs (asHTTP a) (asHTTP a).size).map fun h =>
        { a with encodedHeaders := some h } := by
    rw [ActionType.setupHeaders]
    exact Option.map_map _ _ _
  rw [ActionType.Settled, hsetup]
  obtain ⟨method, headers, headerItems, source, encodedData, encoder, encodedHeaders⟩ := a
  cases hhead : HTTPAction.head codecs _ _ with
  | none => cases encodedHeaders <;> simp
  | some h =>
    rw [Option.map_some, Option.some.injEq]
    constructor
    · intro heq
      have hheaders : some h = encodedHeaders := congrArg Action.encodedHeaders heq
      subst hheaders
      exact ⟨rfl, rfl⟩
    · rintro ⟨-, rfl⟩
      rfl

/-- `HTTP3Action`, which encodes `_headers` where the others encode `_header_items`. -/
def http3 : ActionType (Source V T) Unit (List (Bytes × Bytes)) where
  own := Dict.empty
  encode a := do
    let authority ← a.source.url.parsed.hostname
    let items ← a.headers.items.mapM fun item => item.2.encoded.map fun v => (encode item.1, v)
    some ([(encode ":method".toList, encode a.method),
      (encode ":scheme".toList, encode a.source.url.parsed.scheme),
      (encode ":authority".toList, encode authority),
      (encode ":path".toList, encode a.source.full),
      (encode "user-agent".toList, encode "hedra/client".toList)] ++ items, ())
  encodeData := encodeSource codecs
  encode_isSome a b _ hheaders _ hsource := by
    rw [hheaders, hsource]
    cases b.source.url.parsed.hostname with
    | none => rfl
    | some authority =>
      cases hitems : b.headers.items.mapM fun item =>
          item.2.encoded.map fun v => (encode item.1, v) with
      | none => rfl
      | some items => rfl
  encodeData_again _ _ _ := encodeSource_again codecs

/-- `GraphQLAction` assigns its `size`, which has no setter, whatever the data is. -/
def graphql : ActionType (Source V T) Unit Bytes where
  own := (http codecs).own
  encode := (http codecs).encode
  encodeData _ := none
  encode_isSome := (http codecs).encode_isSome
  encodeData_again _ _ _ h := by cases h

end Http

/-! ## 4. HTTP/2 -/

section Http2

open Http2 (Encoder Header)

variable {V T : Type} (codecs : Codecs V T) (lower : Str → Str)

/-- The headers that `HTTP2Action` encodes.  A name is a `str`, which is none of the `bytes` that
are to be left out; and `_to_bytes` makes text of a host that is `None`. -/
def http2Headers (url : URL) (method : Str) (headerItems : List (Str × Value)) : List Header :=
  [⟨encode ":method".toList, encode method, false⟩,
    ⟨encode ":authority".toList, encode (url.parsed.hostname.getD "None".toList), false⟩,
    ⟨encode ":scheme".toList, encode url.parsed.scheme, false⟩,
    ⟨encode ":path".toList, encode url.path, false⟩] ++
  headerItems.map fun item => ⟨encode (lower item.1), item.2.toBytes, false⟩

/-- The block, cut into frames, and the encoder with the entries it has added. -/
def encodeHttp2 {D E : Type} (url : D → URL) (a : Action D Encoder E) :
    Option (List Bytes × Encoder) :=
  let r := a.encoder.encode (http2Headers lower (url a.source) a.method a.headerItems) true
  some (Http2.chunks (Http2.Settings.init false []).maxFrameSize r.1, r.2)

theorem encodeHttp2_isSome {D E : Type} (url : D → URL) (a : Action D Encoder E) :
    (encodeHttp2 lower url a).isSome := by
  unfold encodeHttp2
  exact Option.isSome_some

/-- `HTTP2Action` -/
def http2 : ActionType (Source V T) Encoder (List Bytes) where
  own := Dict.empty
  encode := encodeHttp2 lower Source.url
  encodeData := encodeSource codecs
  encode_isSome a b _ _ _ _ :=
    (encodeHttp2_isSome lower _ a).trans (encodeHttp2_isSome lower _ b).symm
  encodeData_again _ _ _ := encodeSource_again codecs

/-- `GraphQLHTTP2Action` -/
def graphqlHttp2 : ActionType (Source V T) Encoder (List Bytes) where
  own := (http2 codecs lower).own
  encode := (http2 codecs lower).encode
  encodeData _ := none
  encode_isSome := (http2 codecs lower).encode_isSome
  encodeData_again _ _ _ h := by cases h

/-- What a gRPC action sends: a message, and what `SerializeToString` makes of it. -/
structure Message where
  url : URL
  serialized : Option Bytes

/-- `grpc_headers`, with the timeout that every action has. -/
def grpcHeaders : Dict Str Value :=
  Dict.ofList [("Content-Type".toList, .text "application/grpc".toList),
    ("Grpc-Timeout".toList, .text "60S".toList), ("TE".toList, .text "trailers".toList)]

/-- `GRPCAction` -/
def grpc : ActionType Message Encoder (List Bytes) where
  own := grpcHeaders
  encode := encodeHttp2 lower Message.url
  encodeData m := (m.serialized.bind Engines.Grpc.setupData).map fun b => (some (.bytes b), m)
  encode_isSome a b _ _ _ _ :=
    (encodeHttp2_isSome lower _ a).trans (encodeHttp2_isSome lower _ b).symm
  encodeData_again m e m' h := by
    obtain ⟨b, hb, heq⟩ := Option.map_eq_some_iff.mp h
    obtain ⟨rfl, rfl⟩ := Prod.mk.inj heq
    rw [hb]
    rfl

end Http2

end Mutations
end Experiments
end Hedra
