/-
# Serialized actions and results

Actions and results go to and from worker processes as dictionaries.  Each engine has its own lists of
keys, in two directions (`data/serializers/serializer_types`), and `Serializer`
(`data/serializers/serializer.py`) picks the engine by the type that is written.  What comes back of an
action is a hook with the action, which has been set up, and with a new client of the engine.

An action comes back as it was from HTTP/2 and gRPC, and from HTTP and HTTP/3 when its method is the
default one.  None comes back from UDP, since the client of UDP assigns an attribute that its slots do not
have.  A result comes back only if it has an error and no headers, and then for some of the engines.

Main result: `restores_iff`.
-/
import Mathlib.Data.Rat.Defs
import Hedra.Lib.Dict
import Hedra.Engines.RequestEncoding

namespace Hedra
namespace Serializers

open Lib Utf8
open Lib.HttpGrammar (Bytes)
open Engines.RequestEncoding (Str Codecs Data URL HTTPAction)

/-! ## 1. Actions -/

/-- The engines whose actions are read back with a method and headers. -/
inductive Engine
  | http
  | http2
  | http3
  | graphql
  | graphqlHttp2
  | grpc
deriving DecidableEq

/-- The classes that are an `HTTPAction` have a limit of redirects. -/
def Engine.hasRedirects : Engine → Bool
  | http | http3 | graphql => true
  | http2 | graphqlHttp2 | grpc => false

/-- What is used of libraries.  `V` is what there is of plain values, `M` of protobuf messages, and
`E` of exceptions; what may raise gives nothing then. -/
structure Python (V T M E : Type) where
  codecs : Codecs V T
  /-- What `URL` makes of a text. -/
  urlparse : Str → URL
  upper : Str → Str
  upper_get : upper "GET".toList = "GET".toList
  serializeToString : M → Option Bytes
  str : E → Str
  exception : Str → E
  gunzip : Bytes → Option Bytes
  inflate : Bytes → Option Bytes
  loads : Bytes → Option V

variable {V T M E : Type}

/-- The data of an action.  The iterators of `Data` are those of bytes, and `texts` is one of texts. -/
inductive Payload (V T M : Type)
  | plain (d : Data V T)
  | texts (chunks : List Str)
  | message (m : M)

/-- A `URL`, with what a look-up has set. -/
structure Address (V : Type) where
  full : Str
  url : URL
  ipAddr : V
  socketConfig : V
  hasIpAddr : V

/-- What actions with a method and headers have in common. -/
structure RequestFields (V T M : Type) where
  name : V
  user : V
  tags : V
  url : Address V
  method : Str
  headers : Dict Str Str
  data : Payload V T M

structure RequestAction (V T M : Type) extends RequestFields V T M where
  engine : Engine
  redirects : Option ℤ
  redirects_isSome : redirects.isSome = engine.hasRedirects

structure WebsocketAction (V T M : Type) extends RequestFields V T M where
  redirects : ℤ

structure UDPAction (V T M : Type) where
  name : V
  user : V
  tags : V
  url : Address V
  data : Payload V T M
  waitForResponse : V

structure Task (V : Type) where
  name : V
  source : V
  user : V
  tags : V

structure PlaywrightCommand (V : Type) where
  name : V
  command : V
  user : V
  tags : V

inductive Action (V T M : Type)
  | request (a : RequestAction V T M)
  | websocket (a : WebsocketAction V T M)
  | udp (a : UDPAction V T M)
  | task (t : Task V)
  | playwright (c : PlaywrightCommand V)

variable (p : Python V T M E)

/-- `_setup_data` of `HTTPAction` and `HTTP2Action` does not raise. -/
def setupData (url : URL) : Payload V T M → Bool
  | .plain d => ((HTTPAction.new [] url [] d).setupData p.codecs).2
  -- a text cannot be added to bytes
  | .texts chunks => chunks.isEmpty
  | .message _ => true

/-- That of `UDPAction` does not raise.  It encodes each chunk of an iterator, which only texts can be. -/
def setupUDPData : Payload V T M → Bool
  | .plain .none | .plain (.text _) | .plain (.bytes _) => true
  | .plain (.mapping items) => items.isEmpty || (p.codecs.dumps items).isSome
  | .plain (.tuple items) => items.isEmpty || (p.codecs.urlencode items).isSome
  | .plain (.iterator chunks) => chunks.isEmpty
  | .texts _ => true
  | .message _ => true

/-- What `GRPCAction` adds to the headers. -/
def grpcHeaders : Dict Str Str where
  items := [("Content-Type".toList, "application/grpc".toList),
    ("Grpc-Timeout".toList, "60S".toList), ("TE".toList, "trailers".toList)]
  nodup := by decide

/-- `setup` of a new action, or nothing where it raises. -/
def setup (a : RequestAction V T M) : Option (RequestAction V T M) :=
  match a.engine with
  | .http =>
    if setupData p a.url.url a.data && (HTTPAction.hostname p.codecs a.url.url).isSome then some a
    else none
  | .http2 => if setupData p a.url.url a.data then some a else none
  | .http3 =>
    if setupData p a.url.url a.data && a.url.url.parsed.hostname.isSome then some a else none
  -- `self.size = len(query_string)`, and `size` is a property that cannot be assigned
  | .graphql | .graphqlHttp2 => none
  | .grpc =>
    match a.data with
    | .plain _ | .texts _ => none
    | .message m =>
      (p.serializeToString m).map fun _ => { a with headers := a.headers.update grpcHeaders }

/-! ## 2. The dictionaries of actions -/

/-- The types that actions are written with. -/
inductive WrittenType
  | request (engine : Engine)
  | udp
deriving DecidableEq

/-- A serialized action: the keys that are read back, and `none` where one is not written. -/
structure SerializedAction (V T M : Type) where
  type : WrittenType
  name : V
  user : V
  tags : V
  full : Str
  ipAddr : V
  socketConfig : V
  hasIpAddr : V
  method : Option Str
  headers : Option (Dict Str Str)
  data : Payload V T M
  redirects : Option ℤ
  waitForResponse : Option V

/-- `redirects` is a key of the engine's dictionary. -/
def Engine.writesRedirects : Engine → Bool
  | .http | .http3 => true
  | .http2 | .graphql | .graphqlHttp2 | .grpc => false

/-- `method` is passed on by the engine's `deserialize_action`. -/
def Engine.readsMethod : Engine → Bool
  | .http2 | .graphql | .graphqlHttp2 | .grpc => true
  | .http | .http3 => false

/-- The keys that every `action_to_serializable` writes for actions with a method and headers. -/
def fieldsToSerializable (type : WrittenType) (a : RequestFields V T M) (redirects : Option ℤ) :
    SerializedAction V T M where
  type := type
  name := a.name
  user := a.user
  tags := a.tags
  full := a.url.full
  ipAddr := a.url.ipAddr
  socketConfig := a.url.socketConfig
  hasIpAddr := a.url.hasIpAddr
  method := some a.method
  headers := some a.headers
  data := a.data
  redirects := redirects
  waitForResponse := none

/-- `action_to_serializable` of the engine's serializer. -/
def requestToSerializable (a : RequestAction V T M) : SerializedAction V T M :=
  fieldsToSerializable (.request a.engine) a.toRequestFields
    (if a.engine.writesRedirects then a.redirects else none)

/-- `WebsocketSerializer.action_to_serializable`, which writes the type of HTTP. -/
def websocketToSerializable (a : WebsocketAction V T M) : SerializedAction V T M :=
  fieldsToSerializable (.request .http) a.toRequestFields none

def udpToSerializable (a : UDPAction V T M) : SerializedAction V T M where
  type := .udp
  name := a.name
  user := a.user
  tags := a.tags
  full := a.url.full
  ipAddr := a.url.ipAddr
  socketConfig := a.url.socketConfig
  hasIpAddr := a.url.hasIpAddr
  method := none
  headers := none
  data := a.data
  redirects := none
  waitForResponse := some a.waitForResponse

/-- `Serializer.serialize_action` -/
def serializeAction : Action V T M → Option (SerializedAction V T M)
  | .request a => some (requestToSerializable a)
  | .websocket a => some (websocketToSerializable a)
  | .udp a => some (udpToSerializable a)
  -- a `TaskHook` has no `to_dict`
  | .task _ => none
  -- a `PlaywrightCommand` has no `type`
  | .playwright _ => none

/-- The URL of an action that is created, with what is assigned to it then. -/
def address (s : SerializedAction V T M) : Address V where
  full := s.full
  url := p.urlparse s.full
  ipAddr := s.ipAddr
  socketConfig := s.socketConfig
  hasIpAddr := s.hasIpAddr

/-- The action that the engine's `deserialize_action` creates. -/
def newAction (engine : Engine) (s : SerializedAction V T M) : RequestAction V T M where
  engine := engine
  name := s.name
  user := s.user
  tags := s.tags
  url := address p s
  method := p.upper (if engine.readsMethod then s.method.getD [] else "GET".toList)
  headers := s.headers.getD Dict.empty
  data := s.data
  redirects := if engine.hasRedirects then some (s.redirects.getD 3) else none
  redirects_isSome := by split <;> simp [*]

def newUDPAction (default : V) (s : SerializedAction V T M) : UDPAction V T M where
  name := s.name
  user := s.user
  tags := s.tags
  url := address p s
  data := s.data
  waitForResponse := s.waitForResponse.getD default

/-- An object of a class with these slots takes the attributes. -/
def holds (slots attributes : List String) : Bool := attributes.all (· ∈ slots)

/-- `__slots__` of the engine's client.  Classes that have none of their own have a dictionary. -/
def clientSlots : WrittenType → Option (List String)
  | .request .http | .request .http3 =>
    some ["session_id", "timeouts", "registered", "_hosts", "closed", "sem", "pool", "active", "waiter",
      "ssl_context", "logger", "tracing_session"]
  | .request .http2 =>
    some ["session_id", "timeouts", "_hosts", "registered", "closed", "sem", "pool", "active", "waiter",
      "ssl_context", "tracing_session"]
  | .udp =>
    some ["session_id", "timeouts", "_hosts", "closed", "sem", "pool", "active", "waiter", "ssl_context"]
  | .request .graphql | .request .graphqlHttp2 | .request .grpc => none

/-- The attributes that its `__init__` assigns. -/
def clientAttributes : WrittenType → List String
  | .request .http | .request .http3 | .request .graphql =>
    ["waiter", "session_id", "timeouts", "registered", "_hosts", "closed", "sem", "pool", "tracing_session",
      "logger", "active", "ssl_context"]
  | .request .http2 | .request .graphqlHttp2 | .request .grpc =>
    ["waiter", "session_id", "timeouts", "_hosts", "registered", "closed", "sem", "pool", "tracing_session",
      "active", "ssl_context"]
  | .udp =>
    ["waiter", "session_id", "timeouts", "registered", "_hosts", "closed", "sem", "pool", "active",
      "ssl_context"]

/-- `deserialize_client_config` does not raise. -/
def deserializeClientConfig (type : WrittenType) : Bool :=
  match clientSlots type with
  | some slots => holds slots (clientAttributes type)
  | none => true

/-- `deserialize_action` of the engine's serializer. -/
def deserializeEngineAction (default : V) (s : SerializedAction V T M) : Option (Action V T M) :=
  match s.type with
  | .request engine => (setup p (newAction p engine s)).map .request
  | .udp => if setupUDPData p s.data then some (.udp (newUDPAction p default s)) else none

/-- `Serializer.deserialize_action`, of which the action is read; `default` is `False`. -/
def deserializeAction (default : V) (s : SerializedAction V T M) : Option (Action V T M) := do
  let action ← deserializeEngineAction p default s
  if deserializeClientConfig s.type then some action else none

/-- The same engine, name, metadata, URL, method, headers, data, limit of redirects and options. -/
def Same : Action V T M → Action V T M → Prop
  | .request a, .request b =>
    b.engine = a.engine ∧ b.name = a.name ∧ b.user = a.user ∧ b.tags = a.tags ∧ b.url = a.url ∧
      b.method = a.method ∧ (∀ k, b.headers.get? k = a.headers.get? k) ∧ b.data = a.data ∧
      b.redirects = a.redirects
  | .udp a, .udp b => b = a
  | .websocket a, .websocket b => b = a
  | .task a, .task b => b = a
  | .playwright a, .playwright b => b = a
  | _, _ => False

/-- The action comes back as it was. -/
def ReadsAction (default : V) (a : Action V T M) : Prop :=
  ∃ b, (serializeAction a).bind (deserializeAction p default) = some b ∧ Same a b

/-- The URL is what its text says, and setting the action up again does not raise. -/
def Fresh (url : Address V) (data : Payload V T M) : Prop :=
  url.url = p.urlparse url.full ∧ setupData p url.url data = true

/-- When an action comes back as it was. -/
def Restored : Action V T M → Prop
  | .request a =>
    match a.engine with
    | .http =>
      a.method = "GET".toList ∧ Fresh p a.url a.data ∧
        (HTTPAction.hostname p.codecs a.url.url).isSome
    | .http3 =>
      a.method = "GET".toList ∧ Fresh p a.url a.data ∧ a.url.url.parsed.hostname.isSome
    | .http2 => p.upper a.method = a.method ∧ Fresh p a.url a.data
    | .grpc =>
      p.upper a.method = a.method ∧ a.url.url = p.urlparse a.url.full ∧
        (∀ k v, grpcHeaders.get? k = some v → a.headers.get? k = some v) ∧
        ∃ m, a.data = .message m ∧ (p.serializeToString m).isSome
    | .graphql | .graphqlHttp2 => False
  -- `registered` is not among the slots of the client
  | .udp _ => False
  | .websocket _ | .task _ | .playwright _ => False

theorem address_eq_iff (type : WrittenType) (a : RequestFields V T M) (redirects : Option ℤ) :
    address p (fieldsToSerializable type a redirects) = a.url ↔
      a.url.url = p.urlparse a.url.full := by
  obtain ⟨name, user, tags, ⟨full, url, ip, config, has⟩, method, headers, data⟩ := a
  simp [address, fieldsToSerializable, eq_comm]

/-- Clients of all engines but UDP can be made. -/
theorem deserializeClientConfig_eq (type : WrittenType) : deserializeClientConfig type = (type ≠ .udp) := by
  cases type with
  | udp => simp [deserializeClientConfig, clientSlots, holds, clientAttributes]
  | request engine => cases engine <;> simp [deserializeClientConfig, clientSlots, holds, clientAttributes]

theorem deserializeAction_request (default : V) (engine : Engine) {s : SerializedAction V T M}
    (h : s.type = .request engine) :
    deserializeAction p default s = (setup p (newAction p engine s)).map .request := by
  have hclient : deserializeClientConfig (.request engine) = true := by
    rw [deserializeClientConfig_eq]
    exact nofun
  unfold deserializeAction deserializeEngineAction
  simp only [h, hclient, if_true]
  exact Option.bind_fun_some _

theorem deserializeAction_udp (default : V) {s : SerializedAction V T M} (h : s.type = .udp) :
    deserializeAction p default s = none := by
  have hclient : ¬ deserializeClientConfig s.type = true := by
    rw [deserializeClientConfig_eq, h]
    exact fun hne => hne rfl
  unfold deserializeAction
  simp only [hclient]
  exact Option.bind_fun_none _

theorem readsAction_request_iff (default : V) (a : RequestAction V T M) :
    ReadsAction p default (.request a) ↔
      ∃ b, setup p (newAction p a.engine (requestToSerializable a)) = some b ∧
        Same (.request a) (.request b) := by
  have hread : (serializeAction (.request a)).bind (deserializeAction p default) =
      (setup p (newAction p a.engine (requestToSerializable a))).map .request :=
    deserializeAction_request p default a.engine rfl
  rw [ReadsAction, hread]
  constructor
  · rintro ⟨b, hread, hsame⟩
    obtain ⟨b', hset, rfl⟩ := Option.map_eq_some_iff.mp hread
    exact ⟨b', hset, hsame⟩
  · rintro ⟨b, hset, hsame⟩
    exact ⟨.request b, Option.map_eq_some_iff.mpr ⟨b, hset, rfl⟩, hsame⟩

theorem redirects_eq_none {a : RequestAction V T M} (h : a.engine.hasRedirects = false) :
    a.redirects = none := by
  have := a.redirects_isSome
  rw [h] at this
  exact Option.not_isSome_iff_eq_none.mp (by rw [this]; exact Bool.false_ne_true)

/-- The new action has the limit of redirects, where it is written. -/
theorem newAction_redirects {a : RequestAction V T M}
    (h : a.engine.hasRedirects = true → a.engine.writesRedirects = true) :
    (newAction p a.engine (requestToSerializable a)).redirects = a.redirects := by
  cases hhas : a.engine.hasRedirects with
  | false => simp [newAction, hhas, redirects_eq_none hhas]
  | true =>
    have hsome := a.redirects_isSome
    rw [hhas] at hsome
    obtain ⟨n, hn⟩ := Option.isSome_iff_exists.mp hsome
    simp [newAction, requestToSerializable, fieldsToSerializable, hhas, h hhas, hn]

/-- When an action that was set up without a change of its headers is the same. -/
theorem same_newAction_iff {a : RequestAction V T M}
    (h : a.engine.hasRedirects = true → a.engine.writesRedirects = true) :
    Same (.request a) (.request (newAction p a.engine (requestToSerializable a))) ↔
      a.url.url = p.urlparse a.url.full ∧
        p.upper (if a.engine.readsMethod then a.method else "GET".toList) = a.method := by
  rw [Same, newAction_redirects p h, ← address_eq_iff p (.request a.engine) a.toRequestFields
    (if a.engine.writesRedirects then a.redirects else none)]
  constructor
  · rintro ⟨-, -, -, -, hurl, hmethod, -⟩
    exact ⟨hurl, hmethod⟩
  · rintro ⟨hurl, hmethod⟩
    exact ⟨rfl, rfl, rfl, rfl, hurl, hmethod, fun _ => rfl, rfl, rfl⟩

theorem exists_ite_iff {α : Type} {c : Prop} [Decidable c] {x : α} {q : α → Prop} :
    (∃ b, (if c then some x else none) = some b ∧ q b) ↔ c ∧ q x := by
  by_cases hc : c <;> simp [hc]

/-- `setup` leaves an action with this URL and data as it is. -/
def SetsUp (engine : Engine) (url : URL) (data : Payload V T M) : Prop :=
  match engine with
  | .http => setupData p url data = true ∧ (HTTPAction.hostname p.codecs url).isSome = true
  | .http2 => setupData p url data = true
  | .http3 => setupData p url data = true ∧ url.parsed.hostname.isSome = true
  | .graphql | .graphqlHttp2 | .grpc => False

theorem exists_setup_iff {a : RequestAction V T M} (h : a.engine ≠ .grpc)
    {q : RequestAction V T M → Prop} :
    (∃ b, setup p a = some b ∧ q b) ↔ SetsUp p a.engine a.url.url a.data ∧ q a := by
  obtain ⟨fields, engine, redirects, hsome⟩ := a
  cases engine with
  | grpc => exact absurd rfl h
  | http | http3 =>
    rw [setup, exists_ite_iff, Bool.and_eq_true]
    rfl
  | http2 =>
    rw [setup, exists_ite_iff]
    rfl
  | graphql | graphqlHttp2 => simp [setup, SetsUp]

theorem restored_iff_of_ne {a : RequestAction V T M} (hg : a.engine ≠ .grpc) :
    (∃ b, setup p (newAction p a.engine (requestToSerializable a)) = some b ∧
      Same (.request a) (.request b)) ↔ Restored p (.request a) := by
  have hsetup : SetsUp p (newAction p a.engine (requestToSerializable a)).engine
      (newAction p a.engine (requestToSerializable a)).url.url
      (newAction p a.engine (requestToSerializable a)).data =
        SetsUp p a.engine (p.urlparse a.url.full) a.data := rfl
  have hsame := @same_newAction_iff V T M E p a
  have hg' : (newAction p a.engine (requestToSerializable a)).engine ≠ .grpc := hg
  rw [exists_setup_iff p hg', hsetup, SetsUp.eq_def, Restored]
  cases h : a.engine with
  | grpc => exact absurd h hg
  | graphql | graphqlHttp2 => simp
  | http | http3 =>
    rw [h] at hsame
    rw [hsame fun h => h, Fresh]
    simp only [Engine.readsMethod, Bool.false_eq_true, if_false, p.upper_get]
    constructor
    · rintro ⟨⟨hset, hhost⟩, hparse, hmethod⟩
      rw [← hparse] at hset hhost
      exact ⟨hmethod.symm, ⟨hparse, hset⟩, hhost⟩
    · rintro ⟨hmethod, ⟨hparse, hset⟩, hhost⟩
      rw [← hparse]
      exact ⟨⟨hset, hhost⟩, rfl, hmethod.symm⟩
  | http2 =>
    rw [h] at hsame
    rw [hsame fun h => h, Fresh]
    simp only [Engine.readsMethod, if_true]
    constructor
    · rintro ⟨hset, hparse, hmethod⟩
      rw [← hparse] at hset
      exact ⟨hmethod, hparse, hset⟩
    · rintro ⟨hmethod, hparse, hset⟩
      rw [← hparse]
      exact ⟨hset, rfl, hmethod⟩

/-- The headers of gRPC are there already exactly when adding them changes nothing. -/
theorem update_same_iff (d d' : Dict Str Str) :
    (∀ k, (d.update d').get? k = d.get? k) ↔ ∀ k v, d'.get? k = some v → d.get? k = some v := by
  constructor
  · intro h k v hv
    rw [← h k, Dict.get?_update, hv, Option.some_or]
  · intro h k
    rw [Dict.get?_update]
    cases hk : d'.get? k with
    | none => rw [Option.none_or]
    | some v => rw [Option.some_or, h k v hk]

theorem restored_iff_of_grpc {a : RequestAction V T M} (hg : a.engine = .grpc) :
    (∃ b, setup p (newAction p a.engine (requestToSerializable a)) = some b ∧
      Same (.request a) (.request b)) ↔ Restored p (.request a) := by
  obtain ⟨⟨name, user, tags, url, method, headers, data⟩, engine, redirects, hsome⟩ := a
  obtain rfl : engine = .grpc := hg
  obtain rfl : redirects = none := by simpa [Engine.hasRedirects] using hsome
  cases data with
  | plain d | texts chunks => simp [setup, newAction, requestToSerializable, fieldsToSerializable, Restored]
  | message m =>
    set a : RequestAction V T M :=
      ⟨⟨name, user, tags, url, method, headers, .message m⟩, .grpc, none, hsome⟩
    have hset : setup p (newAction p .grpc (requestToSerializable a)) =
        (p.serializeToString m).map fun _ => { newAction p .grpc (requestToSerializable a) with
          headers := headers.update grpcHeaders } := rfl
    have haddress := address_eq_iff p (.request .grpc) a.toRequestFields none
    rw [hset]
    constructor
    · rintro ⟨b, hb, -, -, -, -, hurl, hmethod, hheaders, -⟩
      obtain ⟨bytes, hm, rfl⟩ := Option.map_eq_some_iff.mp hb
      exact ⟨hmethod, haddress.mp hurl, (update_same_iff _ _).mp hheaders, m, rfl, by rw [hm]; rfl⟩
    · rintro ⟨hmethod, hparse, hheaders, m', hdata, hm⟩
      obtain rfl : m = m' := by injection hdata
      obtain ⟨bytes, hm⟩ := Option.isSome_iff_exists.mp hm
      exact ⟨_, Option.map_eq_some_iff.mpr ⟨bytes, hm, rfl⟩, rfl, rfl, rfl, rfl, haddress.mpr hparse,
        hmethod, (update_same_iff _ _).mpr hheaders, rfl, rfl⟩

theorem readsAction_iff (default : V) (a : Action V T M) :
    ReadsAction p default a ↔ Restored p a := by
  cases a with
  | task t => simp [ReadsAction, Restored, serializeAction]
  | playwright c => simp [ReadsAction, Restored, serializeAction]
  | websocket a =>
    rw [ReadsAction, Restored, iff_false]
    rintro ⟨b, hread, hsame⟩
    have hrequest : deserializeAction p default (websocketToSerializable a) = _ :=
      deserializeAction_request p default .http rfl
    obtain ⟨b', -, rfl⟩ := Option.map_eq_some_iff.mp (hrequest.symm.trans hread)
    exact hsame
  | udp a =>
    rw [ReadsAction, Restored, iff_false]
    rintro ⟨b, hread, -⟩
    have hnone : deserializeAction p default (udpToSerializable a) = none := deserializeAction_udp p default rfl
    exact absurd (hnone.symm.trans hread) nofun
  | request a =>
    rw [readsAction_request_iff]
    by_cases hg : a.engine = .grpc
    · exact restored_iff_of_grpc p hg
    · exact restored_iff_of_ne p hg

/-! ## 3. Results -/

inductive RequestTypes
  | request (engine : Engine)
  | websocket
  | udp
  | task
  | playwright
deriving DecidableEq

/-- A name or a value of a header.  Only `bytes` can be decoded. -/
inductive HeaderText
  | bytes (b : Bytes)
  | other
deriving DecidableEq

/-- A result, whose attribute `checks` may not have been set.  The texts `params`, `query` and
`reason` are plain values. -/
structure Result (V E : Type) where
  type : RequestTypes
  name : V
  user : V
  tags : V
  checks : Option V
  error : Option E
  waitStart : ℚ
  start : ℚ
  connectEnd : ℚ
  writeEnd : ℚ
  complete : ℚ
  url : Str
  method : Str
  params : V
  query : V
  reason : V
  status : Option ℤ
  headers : List (HeaderText × HeaderText)
  body : Option Bytes

/-- A serialized result: the keys that are read back, with the text of `error`. -/
structure SerializedResult (V : Type) where
  type : RequestTypes
  name : V
  user : V
  tags : V
  checks : V
  error : Str
  waitStart : ℚ
  start : ℚ
  connectEnd : ℚ
  writeEnd : ℚ
  complete : ℚ
  url : Str
  method : Str
  params : V
  query : V
  reason : V
  status : Option ℤ
  headers : List (Str × Str)
  body : Option Str

/-- `headers.get` of a name in bytes. -/
def header (name : String) (headers : List (HeaderText × HeaderText)) : Option HeaderText :=
  (headers.find? fun h => h.1 = .bytes (encode name.toList)).map Prod.snd

def HeaderText.decode : HeaderText → Option Str
  | .bytes b => Utf8.decode b
  | .other => none

/-- `{k.decode(): v.decode() for k, v in headers.items()}` -/
def decodeHeaders (headers : List (HeaderText × HeaderText)) : Option (List (Str × Str)) :=
  headers.mapM fun h => do return (← h.1.decode, ← h.2.decode)

/-- `HTTP2Result.data`, where it is bytes: what it has when something raised. -/
def http2Data (headers : List (HeaderText × HeaderText)) (body : Bytes) : Option Bytes :=
  let encoding := header "content-encoding" headers
  let data :=
    if encoding = some (.bytes (encode "gzip".toList)) then p.gunzip body
    else if encoding = some (.bytes (encode "deflate".toList)) then p.inflate body
    else some body
  match data with
  | none => some body
  | some data =>
    if header "content-type" headers = some (.bytes (encode "application/json".toList)) then
      if (p.loads body).isSome then none else some data
    else if (Utf8.decode body).isSome then none else some data

/-- `GRPCResult.data`, from the hexadecimal text of the body: the length is that of three bytes behind
the second, and empty text is no number. -/
def grpcData (body : Bytes) : Option Bytes :=
  let messageLength := (body.drop 2).take 3
  if messageLength = [] then none
  else some ((body.drop 5).take (messageLength.foldl (fun n b => n * 256 + b.toNat) 0))

/-- The body that the engine's `result_to_serializable` writes under the key that is read back, or
nothing where what it reads or decodes raises. -/
def serializedBody (r : Result V E) : Option (Option Str) :=
  match r.type with
  -- `if result.body: body = str(result.body.decode())`
  | .request .http | .request .http3 | .request .graphql | .request .graphqlHttp2
  | .websocket | .udp =>
    match r.body with
    | none | some [] => some none
    | some body => (Utf8.decode body).map some
  -- under the key `data`, which only the new action gets
  | .request .http2 =>
    match http2Data p r.headers (r.body.getD []) with
    | none => some none
    | some data => (Utf8.decode data).map fun _ => none
  | .request .grpc =>
    match grpcData (r.body.getD []) with
    | none => none
    | some data => (Utf8.decode data).map fun _ => none
  | .task | .playwright => some none

/-- `str(result.error)` -/
def errorText : Option E → Str
  | none => "None".toList
  | some e => p.str e

/-- The headers that are written. -/
def serializedHeaders (r : Result V E) : Option (List (Str × Str)) :=
  match r.type with
  | .udp | .task | .playwright => some []
  | _ => decodeHeaders r.headers

/-- The keys that every `result_to_serializable` writes. -/
def fieldsOfResult (r : Result V E) (checks : V) (headers : List (Str × Str)) (body : Option Str) :
    SerializedResult V where
  type := r.type
  name := r.name
  user := r.user
  tags := r.tags
  checks := checks
  error := errorText p r.error
  waitStart := r.waitStart
  start := r.start
  connectEnd := r.connectEnd
  writeEnd := r.writeEnd
  complete := r.complete
  url := r.url
  method := r.method
  params := r.params
  query := r.query
  reason := r.reason
  status := r.status
  headers := headers
  body := body

/-- `Serializer.serialize_result` -/
def serializeResult (r : Result V E) : Option (SerializedResult V) := do
  -- `result.checks`
  let checks ← r.checks
  let headers ← serializedHeaders r
  let body ← serializedBody p r
  return fieldsOfResult p r checks headers body

/-- A call with these keywords binds. -/
def binds (parameters keywords : List String) : Bool := keywords.all (· ∈ parameters)

/-- The keywords that every `deserialize_result` creates the action with, apart from tasks and
commands. -/
def actionKeywords : List String := ["name", "url", "method", "headers", "data", "user", "tags"]

/-- The parameters of the action's class, or of `WebsocketResult`, which is called instead. -/
def parameters : RequestTypes → List String
  | .request .http | .request .http3 | .request .graphql =>
    ["name", "url", "method", "headers", "data", "user", "tags", "redirects"]
  | .request .http2 | .request .graphqlHttp2 | .request .grpc =>
    ["name", "url", "method", "headers", "data", "user", "tags"]
  | .websocket => ["action", "error"]
  | .udp => ["name", "url", "wait_for_response", "data", "user", "tags"]
  | .task => ["name", "task_action", "source", "user", "tags"]
  | .playwright => ["name", "command", "page", "url", "input", "options", "user", "tags"]

/-- `PlaywrightCommand.__slots__`, where a comma is missing behind the first name. -/
def commandSlots : List String :=
  ["action_idname", "command", "page", "url", "input", "options", "metadata", "hooks", "event",
    "command_args", "mutations"]

/-- The attributes that its `__init__` assigns. -/
def commandAttributes : List String :=
  ["action_id", "name", "command", "page", "url", "input", "options", "metadata", "hooks", "event",
    "command_args"]

/-- The result that a `deserialize_result` fills in.  Its headers are those of a new result. -/
def newResult (type : RequestTypes) (body : Option Bytes) (s : SerializedResult V) : Result V E where
  type := type
  name := s.name
  user := s.user
  tags := s.tags
  checks := some s.checks
  error := some (p.exception s.error)
  waitStart := s.waitStart
  start := s.start
  connectEnd := s.connectEnd
  writeEnd := s.writeEnd
  complete := s.complete
  url := s.url
  method := p.upper s.method
  params := s.params
  query := s.query
  reason := s.reason
  status := s.status
  headers := []
  body := body

/-- `Serializer.deserialize_result` -/
def deserializeResult (s : SerializedResult V) : Option (Result V E) :=
  match s.type with
  | .request .http | .request .graphql | .request .graphqlHttp2 =>
    if binds (parameters s.type) actionKeywords then
      some (newResult p s.type (s.body.map encode) s)
    else none
  | .request .http2 | .request .grpc =>
    if binds (parameters s.type) actionKeywords then
      some (newResult p (.request .http2) (some []) s)
    else none
  -- `HTTP3Result.status` has no setter
  | .request .http3 => none
  | .websocket | .udp =>
    if binds (parameters s.type) actionKeywords then
      some (newResult p s.type (s.body.map encode) s)
    else none
  -- `inspect.signature(None)`
  | .task => none
  | .playwright =>
    if holds commandSlots commandAttributes then some (newResult p .playwright none s) else none

/-- The same status, headers, body and times, and an error in both or in none. -/
structure SameResult (r r' : Result V E) : Prop where
  status : r'.status = r.status
  headers : r'.headers = r.headers
  body : r'.body = r.body
  waitStart : r'.waitStart = r.waitStart
  start : r'.start = r.start
  connectEnd : r'.connectEnd = r.connectEnd
  writeEnd : r'.writeEnd = r.writeEnd
  complete : r'.complete = r.complete
  error : r'.error.isSome = r.error.isSome

def ReadsResult (r : Result V E) : Prop :=
  ∃ r', (serializeResult p r).bind (deserializeResult p) = some r' ∧ SameResult r r'

/-- When a result comes back as it was. -/
def RestoredResult (r : Result V E) : Prop :=
  match r.type with
  | .request .http | .request .graphql | .request .graphqlHttp2 =>
    r.checks.isSome ∧ r.error.isSome ∧ r.headers = [] ∧
      (r.body = none ∨ ∃ text, text ≠ [] ∧ r.body = some (encode text))
  | .request .http2 => r.checks.isSome ∧ r.error.isSome ∧ r.headers = [] ∧ r.body = some []
  | _ => False

/-- What is filled in is the same but for the headers and the error, and for the body. -/
theorem sameResult_newResult_iff (r : Result V E) (type : RequestTypes) (checks : V)
    (headers : List (Str × Str)) (text : Option Str) (body : Option Bytes) :
    SameResult r (newResult p type body (fieldsOfResult p r checks headers text)) ↔
      r.error.isSome ∧ r.headers = [] ∧ r.body = body := by
  constructor
  · intro h
    exact ⟨h.error.symm, h.headers.symm, h.body.symm⟩
  · rintro ⟨herror, hheaders, hbody⟩
    exact ⟨rfl, hheaders.symm, hbody.symm, rfl, rfl, rfl, rfl, rfl, herror.symm⟩

theorem serializeResult_eq_some_iff (r : Result V E) (s : SerializedResult V) :
    serializeResult p r = some s ↔ ∃ checks headers text, r.checks = some checks ∧
      serializedHeaders r = some headers ∧ serializedBody p r = some text ∧
      s = fieldsOfResult p r checks headers text := by
  simp only [serializeResult, Option.bind_eq_bind, Option.bind_eq_some_iff, Option.pure_def,
    Option.some.injEq]
  constructor
  · rintro ⟨checks, hchecks, headers, hheaders, text, htext, rfl⟩
    exact ⟨checks, headers, text, hchecks, hheaders, htext, rfl⟩
  · rintro ⟨checks, headers, text, hchecks, hheaders, htext, rfl⟩
    exact ⟨checks, hchecks, headers, hheaders, text, htext, rfl⟩

theorem readsResult_iff_exists (r : Result V E) :
    ReadsResult p r ↔ ∃ checks headers text, r.checks = some checks ∧
      serializedHeaders r = some headers ∧ serializedBody p r = some text ∧
      ∃ r', deserializeResult p (fieldsOfResult p r checks headers text) = some r' ∧
        SameResult r r' := by
  rw [ReadsResult]
  constructor
  · rintro ⟨r', hread, hsame⟩
    obtain ⟨s, hs, hread⟩ := Option.bind_eq_some_iff.mp hread
    obtain ⟨checks, headers, text, hchecks, hheaders, htext, rfl⟩ :=
      (serializeResult_eq_some_iff p r s).mp hs
    exact ⟨checks, headers, text, hchecks, hheaders, htext, r', hread, hsame⟩
  · rintro ⟨checks, headers, text, hchecks, hheaders, htext, r', hread, hsame⟩
    refine ⟨r', Option.bind_eq_some_iff.mpr ⟨_, ?_, hread⟩, hsame⟩
    exact (serializeResult_eq_some_iff p r _).mpr ⟨_, _, _, hchecks, hheaders, htext, rfl⟩

theorem not_readsResult {r : Result V E} (h : ∀ s : SerializedResult V, s.type = r.type →
    deserializeResult p s = none) : ¬ ReadsResult p r := by
  rw [readsResult_iff_exists]
  rintro ⟨checks, headers, text, -, -, -, r', hread, -⟩
  rw [h _ rfl] at hread
  cases hread

/-- A result that is filled in, with a body that is made of the text that was written. -/
theorem readsResult_iff_of_read {r : Result V E} {type : RequestTypes} (bodyOf : Option Str → Option Bytes)
    (hheaders : serializedHeaders r = decodeHeaders r.headers)
    (hread : ∀ s : SerializedResult V, s.type = r.type →
      deserializeResult p s = some (newResult p type (bodyOf s.body) s)) :
    ReadsResult p r ↔ r.checks.isSome ∧ r.error.isSome ∧ r.headers = [] ∧
      ∃ text, serializedBody p r = some text ∧ r.body = bodyOf text := by
  rw [readsResult_iff_exists]
  constructor
  · rintro ⟨checks, headers, text, hchecks, -, htext, r', hr', hsame⟩
    rw [hread _ rfl] at hr'
    obtain rfl := Option.some.inj hr'
    obtain ⟨herror, hempty, hbody⟩ := (sameResult_newResult_iff p r _ _ _ _ _).mp hsame
    exact ⟨by rw [hchecks]; rfl, herror, hempty, text, htext, hbody⟩
  · rintro ⟨hchecks, herror, hempty, text, htext, hbody⟩
    obtain ⟨checks, hchecks⟩ := Option.isSome_iff_exists.mp hchecks
    refine ⟨checks, [], text, hchecks, by rw [hheaders, hempty]; rfl, htext, _, hread _ rfl, ?_⟩
    exact (sameResult_newResult_iff p r _ _ _ _ _).mpr ⟨herror, hempty, hbody⟩

/-- Where the text that is written is that of the body, it gives the body if there is none or text in it. -/
theorem exists_text_iff {r : Result V E}
    (hwritten : serializedBody p r = match r.body with
      | none | some [] => some none
      | some body => (decode body).map some) :
    (∃ text, serializedBody p r = some text ∧ r.body = text.map encode) ↔
      r.body = none ∨ ∃ text, text ≠ [] ∧ r.body = some (encode text) := by
  rw [hwritten]
  constructor
  · rintro ⟨text, htext, hbody⟩
    cases text with
    | none => exact .inl hbody
    | some text =>
      refine .inr ⟨text, ?_, hbody⟩
      rintro rfl
      rw [hbody] at htext
      cases htext
  · rintro (hnone | ⟨text, hne, hbody⟩)
    · exact ⟨none, by rw [hnone], hnone⟩
    · refine ⟨some text, ?_, hbody⟩
      rw [hbody]
      have hdecode := decode_encode text
      cases hbytes : encode text with
      | nil =>
        rw [hbytes] at hdecode
        exact absurd (Option.some.inj (hdecode.symm.trans (decode_encode []))) hne
      | cons b bs =>
        rw [hbytes] at hdecode
        simp [hdecode]

theorem binds_request (engine : Engine) :
    binds (parameters (.request engine)) actionKeywords = true := by
  cases engine <;> decide

theorem readsResult_iff (r : Result V E) : ReadsResult p r ↔ RestoredResult r := by
  cases htype : r.type with
  | websocket | udp | playwright =>
    rw [RestoredResult, htype, iff_false]
    refine not_readsResult p fun s hs => ?_
    rw [deserializeResult, hs, htype]
    rfl
  | task =>
    rw [RestoredResult, htype, iff_false]
    refine not_readsResult p fun s hs => ?_
    rw [deserializeResult, hs, htype]
  | request engine =>
    cases engine with
    | http | graphql | graphqlHttp2 =>
      have hheaders : serializedHeaders r = decodeHeaders r.headers := by
        rw [serializedHeaders, htype]
      rw [RestoredResult, htype, readsResult_iff_of_read p (Option.map encode) hheaders fun s hs => by
        rw [deserializeResult, hs, htype]
        exact if_pos (binds_request _), exists_text_iff p (by rw [serializedBody, htype])]
    | http3 =>
      rw [RestoredResult, htype, iff_false]
      refine not_readsResult p fun s hs => ?_
      rw [deserializeResult, hs, htype]
    | grpc =>
      have hheaders : serializedHeaders r = decodeHeaders r.headers := by
        rw [serializedHeaders, htype]
      rw [RestoredResult, htype, readsResult_iff_of_read p (fun _ => some []) hheaders fun s hs => by
        rw [deserializeResult, hs, htype]
        exact if_pos (binds_request _)]
      rw [iff_false]
      rintro ⟨-, -, -, text, htext, hbody⟩
      -- the length of a message is read from an empty text
      rw [serializedBody, htype, hbody] at htext
      cases htext
    | http2 =>
      have hheaders : serializedHeaders r = decodeHeaders r.headers := by
        rw [serializedHeaders, htype]
      rw [RestoredResult, htype, readsResult_iff_of_read p (fun _ => some []) hheaders fun s hs => by
        rw [deserializeResult, hs, htype]
        exact if_pos (binds_request _)]
      constructor
      · rintro ⟨hchecks, herror, hempty, text, -, hbody⟩
        exact ⟨hchecks, herror, hempty, hbody⟩
      · rintro ⟨hchecks, herror, hempty, hbody⟩
        refine ⟨hchecks, herror, hempty, none, ?_, hbody⟩
        have hdata : http2Data p [] [] = none := rfl
        rw [serializedBody, htype, hbody, hempty]
        dsimp only [Option.getD_some]
        rw [hdata]

/-- When an action, and when a result, comes back as it was. -/
theorem restores_iff :
    (∀ (default : V) (a : Action V T M), ReadsAction p default a ↔ Restored p a) ∧
      ∀ r : Result V E, ReadsResult p r ↔ RestoredResult r :=
  ⟨readsAction_iff p, readsResult_iff p⟩

/-- Plain values that are all alike, exceptions that are their texts, and one address. -/
def plainPython : Python Unit Unit Unit Str where
  codecs := Engines.RequestEncoding.asciiCodecs
  urlparse _ := Engines.RequestEncoding.localhost
  upper := List.map Char.toUpper
  upper_get := by decide
  serializeToString _ := some []
  str := id
  exception := id
  gunzip := some
  inflate := some
  loads _ := none

/-- A `POST` of nothing to `http://localhost`. -/
def post : RequestAction Unit Unit Unit where
  engine := .http
  name := ()
  user := ()
  tags := ()
  url := ⟨"http://localhost".toList, Engines.RequestEncoding.localhost, (), (), ()⟩
  method := "POST".toList
  headers := Dict.empty
  data := .plain .none
  redirects := some 3
  redirects_isSome := rfl

/-- A response with status 200, without headers and without an error. -/
def okResult : Result Unit Str where
  type := .request .http
  name := ()
  user := ()
  tags := ()
  checks := some ()
  error := none
  waitStart := 0
  start := 0
  connectEnd := 0
  writeEnd := 0
  complete := 0
  url := "http://localhost".toList
  method := "POST".toList
  params := ()
  query := ()
  reason := ()
  status := some 200
  headers := []
  body := some (encode "ok".toList)

/-- A `POST` comes back as a `GET`, and a result without an error with one. -/
theorem not_restores :
    ((serializeAction (.request post)).bind (deserializeAction plainPython ()) =
        some (.request { post with method := "GET".toList }) ∧
      ¬ ReadsAction plainPython () (.request post)) ∧
    ((serializeResult plainPython okResult).bind (deserializeResult plainPython)).map Result.error =
        some (some "None".toList) ∧
      ¬ ReadsResult plainPython okResult := by
  refine ⟨⟨rfl, fun h => ?_⟩, ?_, fun h => ?_⟩
  · obtain ⟨hmethod, -⟩ := (readsAction_iff plainPython () _).mp h
    revert hmethod
    decide
  · rfl
  · obtain ⟨-, herror, -⟩ := (readsResult_iff plainPython _).mp h
    cases herror

end Serializers
end Hedra
