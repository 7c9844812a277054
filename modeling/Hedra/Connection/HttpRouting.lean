/-
# Routing of HTTP requests

A `Controller` files each of its server methods under its name, and each endpoint, for each of its
HTTP methods, under the method and the path with an underscore between them.  `_route_request` looks
the request up under its own method and its whole target.  It does so before it cuts the query off,
so a request with a query string is not found; and the table of the methods of each path, by which it
would tell a wrong method from a wrong path, is never filled, so both are answered `404`.

The controller is `distributed/service/controller.py`, the routing `_route_request` of
`distributed/connection/tcp/mercury_sync_http_connection.py`.  An error is answered with an
`HTTPMessage` of the method of the request, and there are seven methods that it can have: for any
other one this raises, and nothing is answered.

* `route_text`: where a request goes that is not encrypted;
* `routes_iff`: when it is routed as it should be, for any controller;
* `routes_iff_of_ordinary`: the same where the names are names, and paths and methods are plain.
-/
import Hedra.Connection.HttpTransport
import Hedra.Lib.LastWrite

namespace Hedra
namespace Http

open Lib Separated Utf8

/-! ## 1. The tables -/

/-- What `endpoint` marks a method with. -/
structure Endpoint where
  path : Str
  methods : List Str
  deriving DecidableEq

/-- A method of a controller that `server` or `endpoint` has marked. -/
structure ServerMethod where
  name : Str
  hasParameters : Bool
  endpoint : Option Endpoint
  deriving DecidableEq

namespace ServerMethod

/-- It is an endpoint of `path` for the HTTP method `httpMethod`. -/
def Serves (httpMethod path : Str) (method : ServerMethod) : Prop :=
  ∃ e ∈ method.endpoint, e.path = path ∧ httpMethod ∈ e.methods

/-- It is an endpoint of `path`. -/
def HasPath (path : Str) (method : ServerMethod) : Prop := ∃ e ∈ method.endpoint, e.path = path

end ServerMethod

/-- `reserved_methods` -/
def reservedMethods : List Str :=
  ["connect".toList, "send".toList, "send_tcp".toList, "stream".toList, "stream_tcp".toList,
    "close".toList]

/-- `not_internal and not_reserved` -/
def isApplied (method : ServerMethod) : Bool :=
  !("__".toList).isPrefixOf method.name && method.name ∉ reservedMethods

/-- `f'{event_http_method}_{path}'` -/
def eventKey (httpMethod path : Str) : Str := httpMethod ++ '_' :: path

/-- What `apply_method` files of a method, in this order.  Its name is filed in a loop over its
parameters. -/
def applyMethod (method : ServerMethod) : List (Str × ServerMethod) :=
  if isApplied method then
    (if method.hasParameters then [(method.name, method)] else []) ++
      match method.endpoint with
      | none => []
      | some e => e.methods.map fun httpMethod => (eventKey httpMethod e.path, method)
  else []

/-- The tables of a server: `events` and `_supported_handlers`. -/
structure Server where
  events : Dict Str ServerMethod
  supportedHandlers : Dict Str (Dict Str Str)

/-- All that is filed, for the methods in the order of `inspect.getmembers`. -/
def registrations (methods : List ServerMethod) : List (Str × ServerMethod) :=
  methods.flatMap applyMethod

/-- `Controller.setup`.  Nothing is ever written to `supported_http_handlers`. -/
def setup (methods : List ServerMethod) : Server where
  events := Dict.ofList (registrations methods)
  supportedHandlers := Dict.empty

/-! ## 2. `_route_request` -/

/-- What becomes of a request. -/
inductive Outcome where
  /-- The handler is called, with the path and the query. -/
  | handled
      (handler : ServerMethod)
      (path : Str)
      (query : Option Str)
  | tooManyRequests
  | notFound
  | methodNotAllowed
  | internalError
  /-- The task ends with an exception, and nothing is answered. -/
  | raised
      (error : Transport.RouteError)
  | unanswered
  deriving DecidableEq

/-- `path, query = path.split('?')`, if there is a `'?'`. -/
def cutQuery (target : Str) : Option (Str × Option Str) :=
  match target.splitOn '?' with
  | [path] => some (path, none)
  | [path, query] => some (path, some query)
  | _ => none

/-- An error is answered with an `HTTPMessage` of the method, if that is one of its `Literal`.  Else making
the message raises; and where the `try` is around it, so does making that of the internal error. -/
def answerError (method : Str) (outcome : Outcome) : Outcome :=
  if Method.ofValue method = none then .raised .validationError else outcome

/-- The branch for the `KeyError` of `self.events[handler_key]`.  A method that is supported is
answered nothing. -/
def answerKeyError (s : Server) (method path : Str) : Outcome :=
  match s.supportedHandlers.get? path with
  | none => answerError method .notFound
  | some handlers =>
    match handlers.get? method with
    | none => answerError method .methodNotAllowed
    | some _ => .unanswered

/-- `_route_request` from where it looks for the handler.  `rejected` says, where rate limiting is
enabled, whether the limiter rejects the request; a method that is no endpoint has no limit to read,
which raises. -/
def dispatch (s : Server) (rejected : Option Bool) (method target : Str) : Outcome :=
  match s.events.get? (eventKey method target) with
  | none => answerKeyError s method target
  | some handler =>
    match cutQuery target with
    | none => answerError method .internalError
    | some (path, query) =>
      match rejected, handler.endpoint with
      | some _, none => answerError method .internalError
      | some true, some _ => answerError method .tooManyRequests
      | _, _ => .handled handler path query

/-- `_route_request` -/
def Transport.route (t : Transport) (s : Server) (useEncryption : Bool) (tokens : Tokens)
    (rejected : Option Bool) (data : Bytes) : Outcome :=
  match t.routeRequest useEncryption tokens data with
  | .error e => .raised e
  | .ok (_, method, target, _) => dispatch s rejected method target

/-! ## 3. Requests -/

/-- A request: what stands in its first line, and what follows. -/
structure RoutedRequest where
  method : Str
  path : Str
  query : Option Str
  requestType : Str
  rest : Str
  method_plain : ' ' ∉ method ∧ '\r' ∉ method
  path_plain : ' ' ∉ path ∧ '\r' ∉ path ∧ '?' ∉ path
  query_plain : ∀ q ∈ query, ' ' ∉ q ∧ '\r' ∉ q
  requestType_plain : ' ' ∉ requestType ∧ '\r' ∉ requestType

namespace RoutedRequest

/-- The path, with the query if there is one. -/
def target (r : RoutedRequest) : Str :=
  match r.query with
  | none => r.path
  | some q => r.path ++ '?' :: q

/-- The first line. -/
def line (r : RoutedRequest) : Str :=
  r.method ++ ' ' :: (r.target ++ ' ' :: r.requestType)

/-- The text of the request. -/
def text (r : RoutedRequest) : Str := r.line ++ '\r' :: '\n' :: r.rest

end RoutedRequest

/-- What a server gets of the request: with encryption, what `send` writes. -/
def Transport.received (t : Transport) (useEncryption : Bool) (sent : Tokens) (r : RoutedRequest) :
    Bytes :=
  if useEncryption then t.send sent (encode r.text) else encode r.text

/-- A method of the controller that can be registered. -/
def Applied (methods : List ServerMethod) (method : ServerMethod) : Prop :=
  method ∈ methods ∧ isApplied method = true

/-- Some endpoint serves the path by the method. -/
def Registered (methods : List ServerMethod) (httpMethod path : Str) : Prop :=
  ∃ method, Applied methods method ∧ method.Serves httpMethod path

/-- Some endpoint has the path. -/
def PathRegistered (methods : List ServerMethod) (path : Str) : Prop :=
  ∃ method, Applied methods method ∧ method.HasPath path

/-- **A request is routed as it should be**: to an endpoint for its method and path, or it is
answered `405` if there are only endpoints for other methods, and `404` if there are none. -/
def Routes (t : Transport) (methods : List ServerMethod) (useEncryption : Bool)
    (sent routed : Tokens) (rejected : Option Bool) (r : RoutedRequest) : Prop :=
  let outcome := t.route (setup methods) useEncryption routed rejected
    (t.received useEncryption sent r)
  (Registered methods r.method r.path →
      ∃ method, Applied methods method ∧ method.Serves r.method r.path ∧
        outcome = .handled method r.path r.query) ∧
    (PathRegistered methods r.path → ¬ Registered methods r.method r.path →
      outcome = .methodNotAllowed) ∧
    (¬ PathRegistered methods r.path → outcome = .notFound)

/-- What is filed last under the method and the target. -/
def filed (methods : List ServerMethod) (r : RoutedRequest) : Option ServerMethod :=
  (lastWith Prod.fst (registrations methods) (eventKey r.method r.target)).map Prod.snd

/-! ## 4. Where a request goes -/

theorem Registered.pathRegistered {methods : List ServerMethod} {httpMethod path : Str}
    (h : Registered methods httpMethod path) : PathRegistered methods path := by
  obtain ⟨method, happ, e, he, hpath, -⟩ := h
  exact ⟨method, happ, e, he, hpath⟩

theorem applied_of_filed {methods : List ServerMethod} {r : RoutedRequest} {method : ServerMethod}
    (h : filed methods r = some method) : Applied methods method := by
  obtain ⟨i, hi, rfl⟩ := Option.map_eq_some_iff.mp h
  obtain ⟨method, hmem, hi⟩ := List.mem_flatMap.mp (mem_of_lastWith hi)
  unfold applyMethod at hi
  split at hi
  · rename_i happ
    rcases List.mem_append.mp hi with hi | hi
    · split at hi
      · rw [List.mem_singleton.mp hi]
        exact ⟨hmem, happ⟩
      · cases hi
    · split at hi
      · cases hi
      · obtain ⟨httpMethod, -, rfl⟩ := List.mem_map.mp hi
        exact ⟨hmem, happ⟩
  · cases hi

theorem cutQuery_target (r : RoutedRequest) : cutQuery r.target =
    if ∀ q ∈ r.query, '?' ∉ q then some (r.path, r.query) else none := by
  unfold cutQuery RoutedRequest.target
  cases hq : r.query with
  | none =>
    rw [List.splitOn_eq_singleton r.path_plain.2.2]
    simp
  | some q =>
    have hsplit : (r.path ++ '?' :: q).splitOn '?' = r.path :: q.splitOn '?' := by
      rw [List.splitOn_append_cons_self, List.splitOn_eq_singleton r.path_plain.2.2]
      rfl
    dsimp only
    rw [hsplit]
    by_cases hmark : '?' ∈ q
    · rw [if_neg (by simpa using hmark)]
      split
      · rename_i hone
        exact absurd (List.cons.inj hone).2 (List.splitOn_ne_nil _ _)
      · rename_i hone
        exact absurd hmark (not_mem_of_splitOn (List.cons.inj hone).2)
      · rfl
    · rw [List.splitOn_eq_singleton hmark, if_pos (by simpa using hmark)]

/-- The first line of a request is read. -/
theorem routeRequest_text (t : Transport) (routed : Tokens) (r : RoutedRequest) :
    ∃ lines, t.routeRequest false routed (encode r.text) =
      .ok (lines, r.method, r.target, r.requestType) := by
  have htarget : ' ' ∉ r.target ∧ '\r' ∉ r.target := by
    unfold RoutedRequest.target
    cases hq : r.query with
    | none => exact ⟨r.path_plain.1, r.path_plain.2.1⟩
    | some q =>
      obtain ⟨hspace, hcr⟩ := r.query_plain q hq
      simp [r.path_plain.1, r.path_plain.2.1, hspace, hcr]
  have hcr : '\r' ∉ r.line := by
    unfold RoutedRequest.line
    simp [r.method_plain.2, htarget.2, r.requestType_plain.2]
  have hlines : splitLines r.text = r.line :: splitLines r.rest := by
    unfold splitLines RoutedRequest.text
    rw [split_append (by decide), split_of_whole (whole_of_not_mem hcr)]
    rfl
  have hsplit : split (byte '\r') (byte '\n') (encode r.text) = (splitLines r.text).map encode :=
    split_encode (by decide) (by decide) r.text
  refine ⟨(splitLines r.text).map encode, ?_⟩
  unfold Transport.routeRequest Transport.requestBytes
  rw [if_neg Bool.false_ne_true]
  dsimp only
  rw [hsplit, hlines, List.map_cons, List.headD_cons, decode_encode]
  dsimp only
  rw [RoutedRequest.line, splitOn_space r.method_plain.1, splitOn_space htarget.1,
    List.splitOn_eq_singleton r.requestType_plain.1]

/-- **Where a request goes** that is not encrypted. -/
theorem route_text (t : Transport) (methods : List ServerMethod) (sent routed : Tokens)
    (rejected : Option Bool) (r : RoutedRequest) :
    t.route (setup methods) false routed rejected (t.received false sent r) =
      dispatch (setup methods) rejected r.method r.target := by
  obtain ⟨lines, hlines⟩ := routeRequest_text t routed r
  unfold Transport.route Transport.received
  rw [if_neg Bool.false_ne_true, hlines]

/-- With encryption it goes nowhere. -/
theorem route_encrypted (t : Transport) (methods : List ServerMethod) (sent routed : Tokens)
    (rejected : Option Bool) (r : RoutedRequest) :
    t.route (setup methods) true routed rejected (t.received true sent r) =
      .raised .unicodeDecodeError := by
  unfold Transport.route Transport.routeRequest Transport.requestBytes
  rw [if_pos rfl]
  dsimp only
  rw [Transport.decode_first_line]

/-- An answer that is made is that of the error, or of none. -/
theorem answerError_eq_iff {method : Str} {outcome outcome' : Outcome} (h : outcome' ≠ .raised .validationError) :
    answerError method outcome = outcome' ↔ outcome = outcome' ∧ Method.ofValue method ≠ none := by
  unfold answerError
  split
  · next hnone => exact iff_of_false (fun heq => h heq.symm) fun hand => hand.2 hnone
  · next hsome => exact (and_iff_left hsome).symm

theorem answerError_ne {method : Str} {outcome outcome' : Outcome} (h : outcome' ≠ .raised .validationError)
    (hne : outcome ≠ outcome') : answerError method outcome ≠ outcome' :=
  fun heq => hne ((answerError_eq_iff h).mp heq).1

theorem dispatch_setup (methods : List ServerMethod) (rejected : Option Bool) (r : RoutedRequest) :
    dispatch (setup methods) rejected r.method r.target =
      match filed methods r with
      | none => answerError r.method .notFound
      | some handler =>
        if ∀ q ∈ r.query, '?' ∉ q then
          match rejected, handler.endpoint with
          | some _, none => answerError r.method .internalError
          | some true, some _ => answerError r.method .tooManyRequests
          | _, _ => .handled handler r.path r.query
        else answerError r.method .internalError := by
  unfold dispatch
  have hevents : (setup methods).events.get? (eventKey r.method r.target) = filed methods r :=
    Dict.get?_ofList _ _
  rw [hevents]
  cases filed methods r with
  | none => rfl
  | some handler =>
    dsimp only
    rw [cutQuery_target]
    by_cases hquery : ∀ q ∈ r.query, '?' ∉ q
    · rw [if_pos hquery, if_pos hquery]
    · rw [if_neg hquery, if_neg hquery]

/-- The handler that is found is called unless the limiter rejects the request, or the query has a
question mark in it. -/
theorem dispatch_eq_handled_iff {methods : List ServerMethod} {rejected : Option Bool}
    {r : RoutedRequest} {method : ServerMethod} {path : Str} (hserves : method.HasPath path) :
    dispatch (setup methods) rejected r.method r.target = .handled method r.path r.query ↔
      filed methods r = some method ∧ rejected ≠ some true ∧ ∀ q ∈ r.query, '?' ∉ q := by
  obtain ⟨e, he, -⟩ := hserves
  rw [dispatch_setup]
  cases hfiled : filed methods r with
  | none => exact iff_of_false (answerError_ne (by nofun) (by nofun)) nofun
  | some handler =>
    dsimp only
    by_cases hquery : ∀ q ∈ r.query, '?' ∉ q
    · rw [if_pos hquery]
      constructor
      · intro h
        split at h
        · exact absurd h (answerError_ne (by nofun) (by nofun))
        · exact absurd h (answerError_ne (by nofun) (by nofun))
        · rename_i hnone htrue
          have hhandler : handler = method := by
            injection h
          subst hhandler
          refine ⟨rfl, fun hrej => ?_, hquery⟩
          exact htrue e hrej he
      · rintro ⟨hsame, hrej, -⟩
        obtain rfl := Option.some.inj hsame
        split
        · rename_i hnone
          rw [hnone] at he
          cases he
        · exact absurd rfl hrej
        · rfl
    · rw [if_neg hquery]
      exact iff_of_false (answerError_ne (by nofun) (by nofun)) fun h => hquery h.2.2

theorem dispatch_eq_notFound_iff {methods : List ServerMethod} {rejected : Option Bool}
    {r : RoutedRequest} :
    dispatch (setup methods) rejected r.method r.target = .notFound ↔
      filed methods r = none ∧ Method.ofValue r.method ≠ none := by
  rw [dispatch_setup]
  cases hfiled : filed methods r with
  | none => exact (answerError_eq_iff (by nofun)).trans (and_congr_left' (iff_of_true rfl rfl))
  | some handler =>
    refine iff_of_false (fun h => ?_) nofun
    dsimp only at h
    split at h
    · split at h
      · exact answerError_ne (by nofun) (by nofun) h
      · exact answerError_ne (by nofun) (by nofun) h
      · cases h
    · exact answerError_ne (by nofun) (by nofun) h

/-- Nothing is answered `405`, since the table of supported methods is empty. -/
theorem dispatch_ne_methodNotAllowed {methods : List ServerMethod} {rejected : Option Bool}
    {r : RoutedRequest} :
    dispatch (setup methods) rejected r.method r.target ≠ .methodNotAllowed := by
  intro h
  rw [dispatch_setup] at h
  split at h
  · exact answerError_ne (by nofun) (by nofun) h
  · split at h
    · split at h
      · exact answerError_ne (by nofun) (by nofun) h
      · exact answerError_ne (by nofun) (by nofun) h
      · cases h
    · exact answerError_ne (by nofun) (by nofun) h

/-- A request that is encrypted is not even read. -/
theorem not_routes_encrypted (t : Transport) (methods : List ServerMethod) (sent routed : Tokens)
    (rejected : Option Bool) (r : RoutedRequest) :
    ¬ Routes t methods true sent routed rejected r := by
  unfold Routes
  rw [route_encrypted]
  rintro ⟨hreg, hpath, hnone⟩
  by_cases hp : PathRegistered methods r.path
  · by_cases hr : Registered methods r.method r.path
    · obtain ⟨method, -, -, h⟩ := hreg hr
      cases h
    · cases hpath hp hr
  · cases hnone hp

/-- What is asked of a request that is not encrypted, by what is filed for it. -/
theorem routes_plain_iff {t : Transport} {methods : List ServerMethod} {sent routed : Tokens}
    {rejected : Option Bool} {r : RoutedRequest} :
    Routes t methods false sent routed rejected r ↔
      (∃ method ∈ filed methods r, method.Serves r.method r.path ∧ rejected ≠ some true ∧
          ∀ q ∈ r.query, '?' ∉ q) ∨
        (filed methods r = none ∧ ¬ PathRegistered methods r.path ∧ Method.ofValue r.method ≠ none) := by
  unfold Routes
  rw [route_text]
  dsimp only
  constructor
  · rintro ⟨hreg, hpath, hnone⟩
    by_cases hp : PathRegistered methods r.path
    · by_cases hr : Registered methods r.method r.path
      · obtain ⟨method, -, hserves, h⟩ := hreg hr
        obtain ⟨e, he, hsame, -⟩ := id hserves
        obtain ⟨hfiled, hrej, hquery⟩ := (dispatch_eq_handled_iff ⟨e, he, hsame⟩).mp h
        exact Or.inl ⟨method, hfiled, hserves, hrej, hquery⟩
      · exact absurd (hpath hp hr) dispatch_ne_methodNotAllowed
    · obtain ⟨hfiled, hmethod⟩ := dispatch_eq_notFound_iff.mp (hnone hp)
      exact Or.inr ⟨hfiled, hp, hmethod⟩
  · rintro (⟨method, hfiled, hserves, hrej, hquery⟩ | ⟨hfiled, hp, hmethod⟩)
    · have happ := applied_of_filed hfiled
      have hreg : Registered methods r.method r.path := ⟨method, happ, hserves⟩
      obtain ⟨e, he, hsame, -⟩ := id hserves
      refine ⟨fun _ => ⟨method, happ, hserves, ?_⟩, fun _ hr => absurd hreg hr,
        fun hp => absurd hreg.pathRegistered hp⟩
      exact (dispatch_eq_handled_iff ⟨e, he, hsame⟩).mpr ⟨hfiled, hrej, hquery⟩
    · exact ⟨fun hr => absurd hr.pathRegistered hp, fun hp' => absurd hp' hp,
        fun _ => dispatch_eq_notFound_iff.mpr ⟨hfiled, hmethod⟩⟩

/-- **When a request is routed as it should be**, if it is not encrypted: either what is filed last
under its method and target serves it, and neither the limiter nor a second question mark stops it;
or nothing is filed there, there are no endpoints for its path, and its method is one that an answer can be
made for. -/
theorem routes_iff (t : Transport) (methods : List ServerMethod) (useEncryption : Bool)
    (sent routed : Tokens) (rejected : Option Bool) (r : RoutedRequest) :
    Routes t methods useEncryption sent routed rejected r ↔ useEncryption = false ∧
      ((∃ method ∈ filed methods r, method.Serves r.method r.path ∧ rejected ≠ some true ∧
          ∀ q ∈ r.query, '?' ∉ q) ∨
        (filed methods r = none ∧ ¬ PathRegistered methods r.path ∧ Method.ofValue r.method ≠ none)) := by
  cases useEncryption with
  | true => exact iff_of_false (not_routes_encrypted t methods sent routed rejected r) (by simp)
  | false => rw [routes_plain_iff, eq_self, true_and]

/-- One endpoint, `GET /users`. -/
def usersOnly : List ServerMethod :=
  [⟨"users".toList, true, some ⟨"/users".toList, ["GET".toList]⟩⟩]

/-- `GET /users?page=2` -/
def usersPage : RoutedRequest where
  method := "GET".toList
  path := "/users".toList
  query := some "page=2".toList
  requestType := "HTTP/1.1".toList
  rest := "\r\n".toList
  method_plain := by decide
  path_plain := by decide
  query_plain := fun q hq => by
    obtain rfl := Option.some.inj hq
    decide
  requestType_plain := by decide

/-- It is not found. -/
theorem not_routes : ¬ ∀ (methods : List ServerMethod) (r : RoutedRequest),
    Routes Transport.plainTransport methods false Transport.zeroTokens Transport.zeroTokens none
      r := by
  intro h
  have hreg : Registered usersOnly usersPage.method usersPage.path :=
    ⟨_, ⟨List.mem_singleton_self _, by decide⟩, _, rfl, rfl, List.mem_singleton_self _⟩
  obtain ⟨method, -, -, hout⟩ := (h usersOnly usersPage).1 hreg
  rw [route_text] at hout
  have hfound : dispatch (setup usersOnly) none usersPage.method usersPage.target = .notFound := by
    decide +kernel
  rw [hfound] at hout
  cases hout

/-! ## 5. Ordinary controllers -/

/-- The names are names, the HTTP methods have no underscore, and the paths begin with a slash and
have no question mark. -/
def Ordinary (methods : List ServerMethod) : Prop :=
  ∀ method ∈ methods, '/' ∉ method.name ∧ ∀ e ∈ method.endpoint,
    (∃ path, e.path = '/' :: path ∧ '?' ∉ path) ∧ ∀ httpMethod ∈ e.methods, '_' ∉ httpMethod

theorem eventKey_inj {m m' p p' : Str} (hm : '_' ∉ m) (hm' : '_' ∉ m')
    (h : eventKey m p = eventKey m' p') : m = m' ∧ p = p' := by
  have hsplit : ∀ {m : Str}, '_' ∉ m → ∀ p : Str,
      (eventKey m p).splitOn '_' = m :: p.splitOn '_' := by
    intro m hm p
    rw [eventKey, List.splitOn_append_cons_self, List.splitOn_eq_singleton hm]
    rfl
  have hlists := (hsplit hm p).symm.trans ((congrArg (List.splitOn '_') h).trans (hsplit hm' p'))
  obtain ⟨rfl, -⟩ := List.cons.inj hlists
  exact ⟨rfl, (List.cons.inj (List.append_cancel_left h)).2⟩

/-- What is filed under a request's method and target serves just these. -/
theorem serves_of_mem_registrations {methods : List ServerMethod} (ho : Ordinary methods)
    {m path : Str} (hm : '_' ∉ m) {method : ServerMethod}
    (h : (eventKey m ('/' :: path), method) ∈ registrations methods) :
    method.Serves m ('/' :: path) ∧ '?' ∉ path := by
  obtain ⟨method', hmem, hi⟩ := List.mem_flatMap.mp h
  obtain ⟨hname, hends⟩ := ho method' hmem
  unfold applyMethod at hi
  split at hi
  · rcases List.mem_append.mp hi with hi | hi
    · split at hi
      · obtain ⟨hkey, -⟩ := Prod.mk.inj (List.mem_singleton.mp hi)
        -- a name has no slash in it
        refine absurd ?_ hname
        rw [← hkey, eventKey]
        simp
      · cases hi
    · split at hi
      · cases hi
      · rename_i e he
        obtain ⟨m', hm', heq⟩ := List.mem_map.mp hi
        obtain ⟨hkey, rfl⟩ := Prod.mk.inj heq
        obtain ⟨⟨p, hpath, hmark⟩, hplain⟩ := hends e he
        obtain ⟨rfl, hsame⟩ := eventKey_inj (hplain m' hm') hm hkey
        refine ⟨⟨e, he, hsame, hm'⟩, ?_⟩
        rw [hpath] at hsame
        rwa [← (List.cons.inj hsame).2]
  · cases hi

theorem mem_registrations {methods : List ServerMethod} {method : ServerMethod} {m path : Str}
    (happ : Applied methods method) (hs : method.Serves m path) :
    (eventKey m path, method) ∈ registrations methods := by
  obtain ⟨e, he, rfl, hm⟩ := hs
  refine List.mem_flatMap.mpr ⟨method, happ.1, ?_⟩
  unfold applyMethod
  rw [if_pos happ.2, he]
  exact List.mem_append_right _ (List.mem_map.mpr ⟨m, hm, rfl⟩)

/-- What is filed for a request serves its path without the query, so there is none. -/
theorem filed_of_ordinary {methods : List ServerMethod} (ho : Ordinary methods) {r : RoutedRequest}
    {path : Str} (hpath : r.path = '/' :: path) (hmethod : '_' ∉ r.method) {method : ServerMethod}
    (h : filed methods r = some method) : r.query = none ∧ method.Serves r.method r.path := by
  obtain ⟨⟨k, method'⟩, hi, rfl⟩ := Option.map_eq_some_iff.mp h
  have hkey := key_of_lastWith hi
  have hmem := mem_of_lastWith hi
  dsimp only at hkey
  unfold RoutedRequest.target at hkey
  rw [hkey, hpath] at hmem
  cases hq : r.query with
  | none =>
    rw [hq] at hmem
    rw [hpath]
    exact ⟨rfl, (serves_of_mem_registrations ho hmethod hmem).1⟩
  | some q =>
    rw [hq] at hmem
    have hnot := (serves_of_mem_registrations ho hmethod hmem).2
    exact absurd (List.mem_append_right path List.mem_cons_self) hnot

theorem exists_filed {methods : List ServerMethod} {r : RoutedRequest} (hq : r.query = none)
    (h : Registered methods r.method r.path) : ∃ method, filed methods r = some method := by
  obtain ⟨method, happ, hs⟩ := h
  obtain ⟨i, hi⟩ := @exists_lastWith _ _ _ Prod.fst _ _ (mem_registrations happ hs)
  refine ⟨i.2, ?_⟩
  unfold filed RoutedRequest.target
  rw [hq, hi]
  rfl

/-- **In an ordinary controller** a request without encryption is routed as it should be if it has
no query and is not rejected, and is registered; or if its path is not registered at all, and its method is
one that an answer can be made for. -/
theorem routes_iff_of_ordinary {t : Transport} {methods : List ServerMethod}
    (ho : Ordinary methods) {sent routed : Tokens} {rejected : Option Bool} {r : RoutedRequest}
    {path : Str} (hpath : r.path = '/' :: path) (hmethod : '_' ∉ r.method) :
    Routes t methods false sent routed rejected r ↔
      (Registered methods r.method r.path ∧ r.query = none ∧ rejected ≠ some true) ∨
        ¬ PathRegistered methods r.path ∧ Method.ofValue r.method ≠ none := by
  rw [routes_plain_iff]
  constructor
  · rintro (⟨method, hfiled, hs, hrej, -⟩ | ⟨-, hp⟩)
    · exact Or.inl ⟨⟨method, applied_of_filed hfiled, hs⟩,
        (filed_of_ordinary ho hpath hmethod hfiled).1, hrej⟩
    · exact Or.inr hp
  · rintro (⟨hreg, hq, hrej⟩ | ⟨hp, hknown⟩)
    · obtain ⟨method, hfiled⟩ := exists_filed hq hreg
      refine Or.inl ⟨method, hfiled, (filed_of_ordinary ho hpath hmethod hfiled).2, hrej, ?_⟩
      rw [hq]
      exact fun q hq' => nomatch hq'
    · refine Or.inr ⟨?_, hp, hknown⟩
      cases hfiled : filed methods r with
      | none => rfl
      | some method =>
        have hreg : Registered methods r.method r.path :=
          ⟨method, applied_of_filed hfiled, (filed_of_ordinary ho hpath hmethod hfiled).2⟩
        exact absurd hreg.pathRegistered hp

end Http
end Hedra
