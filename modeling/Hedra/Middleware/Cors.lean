/-
# Requests of other origins

`Cors` (`distributed/middleware/cors/cors.py`) refuses a preflight with a list of what is not
allowed, and lets other requests through with a header for their origin.  `CorsHeaders`
(`cors_headers.py`) is its configuration.

An origin that is allowed by name makes a preflight fail, since the header for it is written to what
is no mapping.  Headers are compared in lower case with what was configured in any, and the header of
a wildcard and of an origin have names that differ in case alone.

* `decides_preflight_iff`: which preflights are decided right;
* `decides_simple_iff`: which other requests;
* `decides_iff_served`: both: those that are served at all.
-/
import Mathlib.Data.List.Dedup
import Mathlib.Data.String.Basic
import Hedra.Connection.HttpMessage

namespace Hedra
namespace Cors

open Lib
open Http (Str strip isSpace)

local instance : LawfulBEq Str := inferInstance

/-- Header names, as they are written, with what they are set to. -/
abbrev Headers := Dict Str (Option Str)

/-- What the middleware rests on: `N` is what there is of numbers, `D` of results of handlers. -/
structure Stdlib (N D : Type) where
  lower : Str → Str
  str : Option N → Str
  nonzero : N → Bool
  truthy : D → Bool
  lower_infix : ∀ s t, t <:+: lower s → lower t = t
  lower_ascii : ∀ s, (∀ c ∈ s, c.toNat < 128) → lower s = s.map Char.toLower

inductive CorsError
  | typeError
  | attributeError
deriving DecidableEq

/-! ## 1. The configuration -/

def methodNames : List Str :=
  ["GET", "HEAD", "OPTIONS", "POST", "PUT", "PATCH", "DELETE", "TRACE"].map String.toList

structure CorsHeaders (N : Type) where
  allowOrigin : List Str
  exposeHeaders : Option (List Str)
  maxAge : Option N
  allowCredentials : Option Bool
  allowMethods : List Str
  allowHeaders : Option (List Str)
  allowOrigin_ne_nil : allowOrigin ≠ []
  allowMethods_ne_nil : allowMethods ≠ []
  allowMethods_names : ∀ m ∈ allowMethods, m ∈ methodNames

def star : Str := ['*']

/-- `', '.join(values)` -/
def commas (values : List Str) : Str := ", ".toList.intercalate values

def allowOriginKey : Str := "Access-Control-Allow-Origin".toList

def allowMethodsKey : Str := "Access-Control-Allow-Methods".toList

def allowHeadersKey : Str := "Access-Control-Allow-Headers".toList

def allowCredentialsKey : Str := "Access-Control-Allow-Credentials".toList

def exposeHeadersKey : Str := "Access-Control-Expose-Headers".toList

def maxAgeKey : Str := "Access-Control-Max-Age".toList

def safeHeaders : List Str :=
  ["Accept", "Accept-Language", "Content-Language", "Content-Type"].map String.toList

variable {N D : Type} (lib : Stdlib N D)

namespace CorsHeaders

/-- `to_headers`: a `bool` cannot be joined. -/
def toHeaders (h : CorsHeaders N) : Except CorsError Headers := do
  let headers := Dict.empty.set allowOriginKey (some (" | ".toList.intercalate h.allowOrigin))
  let headers := match h.exposeHeaders with
    | some values => headers.set exposeHeadersKey (some (commas values))
    | none => headers
  let headers := match h.maxAge with
    | some age => headers.set maxAgeKey (some (if lib.nonzero age then "true".toList else "false".toList))
    | none => headers
  if h.allowCredentials.isSome then throw .typeError
  let headers := headers.set allowMethodsKey (some (commas h.allowMethods))
  match h.allowHeaders with
  | some values => pure (headers.set allowHeadersKey (some (commas values)))
  | none => pure headers

def toSimpleHeaders (h : CorsHeaders N) : Headers :=
  let headers := if star ∈ h.allowOrigin then Dict.empty.set allowOriginKey (some star) else .empty
  let headers :=
    if h.allowCredentials = some true then headers.set allowCredentialsKey (some "true".toList)
    else headers
  match h.exposeHeaders.getD [] with
  | [] => headers
  | values => headers.set exposeHeadersKey (some (commas values))

def toPreflightHeaders (h : CorsHeaders N) : Headers :=
  let headers :=
    if star ∉ h.allowOrigin ∨ h.allowCredentials = some true then
      Dict.empty.set "Vary".toList (some "Origin".toList)
    else Dict.empty.set allowOriginKey (some star)
  let headers := (headers.set allowMethodsKey (some (commas h.allowMethods))).set maxAgeKey
    (some (lib.str h.maxAge))
  let allowHeaders := (safeHeaders ++ h.allowHeaders.getD []).dedup.mergeSort fun a b => decide (a ≤ b)
  let headers :=
    if star ∈ h.allowHeaders.getD [] then headers
    else headers.set allowHeadersKey (some (commas allowHeaders))
  if h.allowCredentials = some true then headers.set allowCredentialsKey (some "true".toList)
  else headers

end CorsHeaders

/-! ## 2. The middleware -/

structure Request where
  method : Str
  headers : Dict Str Str

/-- `headers.get('origin')` -/
def Request.origin (q : Request) : Option Str := q.headers.get? "origin".toList

def Request.requestMethod (q : Request) : Str :=
  (q.headers.get? "access-control-request-method".toList).getD []

def Request.requestHeaders (q : Request) : Option Str :=
  q.headers.get? "access-control-request-headers".toList

def Request.cookie (q : Request) : Str := (q.headers.get? "cookie".toList).getD []

/-- `OPTIONS`, which asks for a method. -/
def Request.Preflight (q : Request) : Prop := q.method = "OPTIONS".toList ∧ q.requestMethod ≠ []

instance Request.instDecidablePreflight (q : Request) : Decidable q.Preflight :=
  inferInstanceAs (Decidable (_ ∧ _))

/-- The data of a response. -/
inductive Data (D : Type)
  | none
  | text (s : Str)
  | result (d : D)

structure Response (D : Type) where
  headers : Headers
  data : Data D

/-- What a handler has given: nothing, a response, or something else. -/
inductive Result (D : Type)
  | none
  | response (r : Response D)
  | raw (d : D)

/-- What becomes of a request. -/
inductive Outcome (D : Type)
  | refused (r : Response D)
  | answered (r : Response D) (status : ℤ)
  | passed (r : Response D) (status : ℤ)

/-- `(response, status), run_next` -/
def Outcome.reply : Outcome D → (Response D × ℤ) × Bool
  | refused r => ((r, 401), false)
  | answered r status => ((r, status), false)
  | passed r status => ((r, status), true)

/-- `Cors`, as `__init__` leaves it. -/
structure Middleware where
  origins : List Str
  corsMethods : List Str
  corsHeaders : Option (List Str)
  allowAllOrigins : Bool
  allowAllHeaders : Bool
  simpleHeaders : Headers
  preflightHeaders : Headers
  preflightExplicitAllowOrigin : Bool
  responseHeaders : Headers

/-- The middleware of a configuration, with the headers that go to the wrapper. -/
def made (h : CorsHeaders N) (responseHeaders : Headers) : Middleware where
  origins := h.allowOrigin
  corsMethods := h.allowMethods
  corsHeaders := h.allowHeaders
  allowAllOrigins := decide (star ∈ h.allowOrigin)
  allowAllHeaders := decide (star ∈ h.allowHeaders.getD [])
  simpleHeaders := h.toSimpleHeaders
  preflightHeaders := h.toPreflightHeaders lib
  preflightExplicitAllowOrigin :=
    !decide (star ∈ h.allowOrigin) || decide (h.allowCredentials = some true)
  responseHeaders := responseHeaders

/-- `__init__` -/
def Middleware.new (h : CorsHeaders N) : Except CorsError Middleware :=
  (h.toHeaders lib).map (made lib h)

/-- `if response and status` -/
def given (response : Result D) (status : Option ℤ) : Except CorsError (Option (Response D × ℤ)) :=
  match response, status with
  | .response r, some status => if status ≠ 0 then .ok (some (r, status)) else .ok none
  | .raw d, some status =>
    -- there are no `headers` to update
    if lib.truthy d ∧ status ≠ 0 then .error .attributeError else .ok none
  | _, _ => .ok none

namespace Middleware

def originFailures (c : Middleware) (origin : Option Str) : Except CorsError (List Str) :=
  if ¬ c.allowAllOrigins ∧ ¬ ∃ o ∈ origin, o ∈ c.origins then .ok ["origin".toList]
  -- `response['Access-Control-Allow-Origin'] = origin`: no result takes an item
  else if c.preflightExplicitAllowOrigin then .error .typeError
  else .ok []

/-- The elements of a list of headers, as they are compared. -/
def elements (requestHeaders : Str) : List Str :=
  (requestHeaders.splitOn ',').map fun header => strip isSpace (lib.lower header)

def headerFailures (c : Middleware) (headers : Headers) (requestHeaders : Option Str) :
    Except CorsError (List Str × Headers) :=
  match c.allowAllHeaders, requestHeaders with
  | _, none => .ok ([], headers)
  | true, some requestHeaders => .ok ([], headers.set allowHeadersKey (some requestHeaders))
  | false, some requestHeaders =>
    if requestHeaders = [] then .ok ([], headers)
    else
      match c.corsHeaders with
      | none => .error .typeError
      | some corsHeaders =>
        if ∀ header ∈ elements lib requestHeaders, header ∈ corsHeaders then .ok ([], headers)
        else .ok (["headers".toList], headers)

def simpleResponseHeaders (c : Middleware) (q : Request) : Headers :=
  if c.allowAllOrigins ∧ q.cookie ≠ [] then
    c.simpleHeaders.set "access-control-allow-origin".toList q.origin
  else if ∃ o ∈ q.origin, o ∈ c.origins then
    c.simpleHeaders.set "access-control-allow-origin".toList q.origin
  else c.simpleHeaders

/-- What a preflight without failures is answered. -/
def answer (headers : Headers) : Option (Response D × ℤ) → Outcome D
  | some (r, status) => .answered { r with headers := r.headers.update headers } status
  | none => .answered ⟨headers, .none⟩ 204

/-- What comes of a request that is passed on. -/
def pass (headers : Headers) : Option (Response D × ℤ) → Outcome D
  | some (r, status) => .passed { r with headers := r.headers.update headers } status
  | none => .passed ⟨headers, .none⟩ 200

/-- `__run__` of a preflight. -/
def preflight (c : Middleware) (q : Request) (response : Result D) (status : Option ℤ) :
    Except CorsError (Outcome D) := do
  let badOrigin ← c.originFailures q.origin
  let badMethod := if q.requestMethod ∈ c.corsMethods then [] else ["method".toList]
  let (badHeaders, headers) ← c.headerFailures lib c.preflightHeaders q.requestHeaders
  let failures := badOrigin ++ badMethod ++ badHeaders
  if failures ≠ [] then
    pure (.refused ⟨headers, .text ("Disallowed CORS ".toList ++ commas failures)⟩)
  else (given lib response status).map (answer headers)

/-- `__run__` -/
def run (c : Middleware) (q : Request) (response : Result D) (status : Option ℤ) :
    Except CorsError (Outcome D) :=
  if q.Preflight then c.preflight lib q response status
  else (given lib response status).map (pass (c.simpleResponseHeaders q))

end Middleware

/-! ## 3. What is decided -/

/-- The headers that are asked for. -/
def requested (q : Request) : List Str :=
  match q.requestHeaders.getD [] with
  | [] => []
  | list => Middleware.elements lib list

def OriginAllowed (h : CorsHeaders N) (q : Request) : Prop :=
  star ∈ h.allowOrigin ∨ ∃ o ∈ q.origin, o ∈ h.allowOrigin

/-- All headers are allowed, or these are safe or configured, in any case. -/
def HeadersAllowed (h : CorsHeaders N) (q : Request) : Prop :=
  star ∈ h.allowHeaders.getD [] ∨
    ∀ header ∈ requested lib q, header ∈ (safeHeaders ++ h.allowHeaders.getD []).map lib.lower

structure Allowed (h : CorsHeaders N) (q : Request) : Prop where
  origin : OriginAllowed h q
  method : q.requestMethod ∈ h.allowMethods
  headers : HeadersAllowed lib h q

/-- `access-control-allow-origin` -/
def allowOriginName : Str := "access-control-allow-origin".toList

/-- There is one header of that name, in any case, and it is set to the origin, or to a wildcard where
every origin is allowed. -/
def Matches (h : CorsHeaders N) (o : Str) (headers : Headers) : Prop :=
  ∃ key value, headers.get? key = some (some value) ∧ lib.lower key = allowOriginName ∧
    (∀ key' value', headers.get? key' = some value' → lib.lower key' = allowOriginName → key' = key) ∧
    (value = o ∨ (star ∈ h.allowOrigin ∧ value = star))

def Outcome.Accepted : Outcome D → Prop
  | answered _ _ => True
  | _ => False

/-- The middleware is made and returns; a preflight is accepted where it is allowed, and a simple
request of an allowed origin is passed on with the header for that origin. -/
def Decides (h : CorsHeaders N) (q : Request) (response : Result D) (status : Option ℤ) : Prop :=
  ∃ c out, Middleware.new lib h = .ok c ∧ c.run lib q response status = .ok out ∧
    (q.Preflight → (out.Accepted ↔ Allowed lib h q)) ∧
    (¬ q.Preflight → ∀ o, q.origin = some o → OriginAllowed h q →
      ∃ r s, out = .passed r s ∧ Matches lib h o r.headers)

/-- What has no headers, with a status. -/
def Headless (response : Result D) (status : Option ℤ) : Prop :=
  ∃ d s, response = .raw d ∧ status = some s ∧ lib.truthy d = true ∧ s ≠ 0

/-- A preflight names no origin that is allowed by name; headers are configured where some are asked
for, and in lower case where they are allowed; and what is answered has headers. -/
structure PreflightServed (h : CorsHeaders N) (q : Request) (response : Result D) (status : Option ℤ) :
    Prop where
  origin : star ∈ h.allowOrigin ∨ ¬ OriginAllowed h q
  configured : requested lib q ≠ [] → star ∉ h.allowHeaders.getD [] → h.allowHeaders.isSome
  lowerCase : Allowed lib h q → star ∉ h.allowHeaders.getD [] →
    ∀ header ∈ requested lib q, header ∈ h.allowHeaders.getD []
  result : Allowed lib h q → ¬ Headless lib response status

/-- The key of the header for an origin. -/
def writtenKey (h : CorsHeaders N) : Str :=
  if star ∈ h.allowOrigin then allowOriginKey else allowOriginName

/-- Under a wildcard an origin is not named too, and comes without a cookie; and a response has no
header for an origin under another key than the one that is written. -/
structure SimpleServed (h : CorsHeaders N) (q : Request) (response : Result D) (status : Option ℤ) :
    Prop where
  result : ¬ Headless lib response status
  wildcard : ∀ o, q.origin = some o → star ∈ h.allowOrigin → q.cookie = [] ∧ o ∉ h.allowOrigin
  response : ∀ o, q.origin = some o → OriginAllowed h q → ∀ r s, response = .response r →
    status = some s → s ≠ 0 → ∀ key value, r.headers.get? key = some value →
      lib.lower key = allowOriginName → key = writtenKey h

/-- No credentials are configured, and the request is one of those. -/
structure Served (h : CorsHeaders N) (q : Request) (response : Result D) (status : Option ℤ) : Prop where
  credentials : h.allowCredentials = none
  preflight : q.Preflight → PreflightServed lib h q response status
  simple : ¬ q.Preflight → SimpleServed lib h q response status

/-! ## 4. Making the middleware -/

variable {lib} {h : CorsHeaders N} {q : Request} {response : Result D} {status : Option ℤ}

theorem toHeaders_of_credentials {b : Bool} (hcred : h.allowCredentials = some b) :
    h.toHeaders lib = .error .typeError := by
  unfold CorsHeaders.toHeaders
  rw [hcred]
  rfl

variable (lib) in
theorem exists_toHeaders (hcred : h.allowCredentials = none) :
    ∃ headers, h.toHeaders lib = .ok headers := by
  unfold CorsHeaders.toHeaders
  rw [hcred]
  cases h.allowHeaders with
  | none => exact ⟨_, rfl⟩
  | some values => exact ⟨_, rfl⟩

variable (lib) in
/-- **Configured credentials cannot be written into a header, and nothing else fails.** -/
theorem exists_new_iff : (∃ c, Middleware.new lib h = .ok c) ↔ h.allowCredentials = none := by
  constructor
  · rintro ⟨c, hc⟩
    cases hcred : h.allowCredentials with
    | none => rfl
    | some b =>
      rw [Middleware.new, toHeaders_of_credentials hcred] at hc
      cases hc
  · intro hcred
    obtain ⟨headers, hheaders⟩ := exists_toHeaders lib hcred
    exact ⟨made lib h headers, by rw [Middleware.new, hheaders]; rfl⟩

theorem made_of_new {c : Middleware} (hc : Middleware.new lib h = .ok c) :
    ∃ headers, c = made lib h headers := by
  cases hheaders : h.toHeaders lib with
  | error e =>
    rw [Middleware.new, hheaders] at hc
    cases hc
  | ok headers =>
    rw [Middleware.new, hheaders] at hc
    exact ⟨headers, (Except.ok.inj hc).symm⟩

/-! ## 5. Preflights -/

/-- All headers are allowed, or these are configured as they are compared. -/
def Verbatim (lib : Stdlib N D) (h : CorsHeaders N) (q : Request) : Prop :=
  star ∈ h.allowHeaders.getD [] ∨ ∀ header ∈ requested lib q, header ∈ h.allowHeaders.getD []

theorem lower_of_mem_elements {header list : Str} (hheader : header ∈ Middleware.elements lib list) :
    ∃ s, header = strip isSpace (lib.lower s) := by
  obtain ⟨s, -, rfl⟩ := List.mem_map.mp hheader
  exact ⟨s, rfl⟩

variable {headers : Headers}

variable (lib headers) in
theorem originFailures_made (hcred : h.allowCredentials = none) (horigin : star ∈ h.allowOrigin ∨
    ¬ OriginAllowed h q) : (OriginAllowed h q → (made lib h headers).originFailures q.origin = .ok []) ∧
      (¬ OriginAllowed h q → (made lib h headers).originFailures q.origin = .ok ["origin".toList]) := by
  constructor
  · intro hallowed
    have hstar := horigin.resolve_right (not_not_intro hallowed)
    simp [Middleware.originFailures, made, hstar, hcred]
  · intro hnot
    rw [OriginAllowed, not_or] at hnot
    rw [Middleware.originFailures, if_pos ⟨by simpa [made] using hnot.1, hnot.2⟩]

theorem originFailures_error (horigin : ¬ (star ∈ h.allowOrigin ∨ ¬ OriginAllowed h q)) :
    (made lib h headers).originFailures q.origin = .error .typeError := by
  rw [not_or, not_not] at horigin
  obtain ⟨hstar, hallowed⟩ := horigin
  have hnamed := hallowed.resolve_left hstar
  have hfirst : ¬ (¬ (made lib h headers).allowAllOrigins = true ∧
      ¬ ∃ o ∈ q.origin, o ∈ (made lib h headers).origins) := fun hboth => hboth.2 hnamed
  have hexplicit : (made lib h headers).preflightExplicitAllowOrigin = true := by simp [made, hstar]
  rw [Middleware.originFailures, if_neg hfirst, if_pos hexplicit]

/-- The headers are configured where some are asked for. -/
def Configured (lib : Stdlib N D) (h : CorsHeaders N) (q : Request) : Prop :=
  requested lib q ≠ [] → star ∉ h.allowHeaders.getD [] → h.allowHeaders.isSome

theorem requested_of_ne {list : Str} (hget : q.requestHeaders = some list) (hne : list ≠ []) :
    requested lib q = Middleware.elements lib list := by
  obtain ⟨c, rest, rfl⟩ := List.exists_cons_of_ne_nil hne
  rw [requested, hget]
  rfl

theorem requested_ne_nil {list : Str} (hget : q.requestHeaders = some list) (hne : list ≠ []) :
    requested lib q ≠ [] := by
  rw [requested_of_ne hget hne]
  exact fun hnil => List.splitOn_ne_nil _ _ (List.map_eq_nil_iff.mp hnil)

theorem requested_eq_nil (h : q.requestHeaders.getD [] = []) : requested lib q = [] := by
  rw [requested, h]

variable (headers) in
theorem headerFailures_made (hconf : Configured lib h q) (pre : Headers) : ∃ after,
    (Verbatim lib h q →
      (made lib h headers).headerFailures lib pre q.requestHeaders = .ok ([], after)) ∧
    (¬ Verbatim lib h q →
      (made lib h headers).headerFailures lib pre q.requestHeaders = .ok (["headers".toList], after)) := by
  cases hget : q.requestHeaders with
  | none =>
    have hnil : requested lib q = [] := requested_eq_nil (by rw [hget]; rfl)
    have hall : Verbatim lib h q := Or.inr fun x hx => absurd (hnil ▸ hx) List.not_mem_nil
    refine ⟨pre, fun _ => ?_, fun hnot => absurd hall hnot⟩
    unfold Middleware.headerFailures
    cases (made lib h headers).allowAllHeaders <;> rfl
  | some list =>
    by_cases hstar : star ∈ h.allowHeaders.getD []
    · refine ⟨pre.set allowHeadersKey (some list), fun _ => ?_, fun hnot => absurd (Or.inl hstar) hnot⟩
      have hall : (made lib h headers).allowAllHeaders = true := decide_eq_true hstar
      unfold Middleware.headerFailures
      rw [hall]
    have hall : (made lib h headers).allowAllHeaders = false := decide_eq_false hstar
    by_cases hnil : list = []
    · have hverbatim : Verbatim lib h q := Or.inr fun x hx => by
        rw [requested_eq_nil (by rw [hget, hnil]; rfl)] at hx
        exact absurd hx List.not_mem_nil
      refine ⟨pre, fun _ => ?_, fun hnot => absurd hverbatim hnot⟩
      unfold Middleware.headerFailures
      rw [hall]
      exact if_pos hnil
    · obtain ⟨configured, hsome⟩ :=
        Option.isSome_iff_exists.mp (hconf (requested_ne_nil hget hnil) hstar)
      have hcors : (made lib h headers).corsHeaders = some configured := hsome
      have hverbatim : Verbatim lib h q ↔
          ∀ header ∈ Middleware.elements lib list, header ∈ configured := by
        rw [Verbatim, or_iff_right hstar, requested_of_ne hget hnil, hsome]
        rfl
      refine ⟨pre, fun hv => ?_, fun hnot => ?_⟩
      · unfold Middleware.headerFailures
        rw [hall]
        simp only [if_neg hnil, hcors]
        exact if_pos (hverbatim.mp hv)
      · unfold Middleware.headerFailures
        rw [hall]
        simp only [if_neg hnil, hcors]
        exact if_neg fun hv => hnot (hverbatim.mpr hv)

theorem headerFailures_error (hconf : ¬ Configured lib h q) (pre : Headers) :
    (made lib h headers).headerFailures lib pre q.requestHeaders = .error .typeError := by
  obtain ⟨hne, hrest⟩ := not_forall.mp hconf
  obtain ⟨hstar, hnone⟩ := not_forall.mp hrest
  have hcors : (made lib h headers).corsHeaders = none := Option.not_isSome_iff_eq_none.mp hnone
  have hall : (made lib h headers).allowAllHeaders = false := decide_eq_false hstar
  cases hget : q.requestHeaders with
  | none => exact absurd (requested_eq_nil (by rw [hget]; rfl)) hne
  | some list =>
    have hnil : list ≠ [] := fun hnil => hne (requested_eq_nil (by rw [hget, hnil]; rfl))
    unfold Middleware.headerFailures
    rw [hall]
    simp only [if_neg hnil, hcors]

theorem given_of_headless (hraw : Headless lib response status) :
    given lib response status = .error .attributeError := by
  obtain ⟨d, s, rfl, rfl, htruthy, hs⟩ := hraw
  exact if_pos ⟨htruthy, hs⟩

/-- What is given is a response with a status. -/
theorem given_of_not_headless (hraw : ¬ Headless lib response status) :
    ∃ r, given lib response status = .ok r ∧ ∀ p, r = some p →
      response = .response p.1 ∧ status = some p.2 ∧ p.2 ≠ 0 := by
  cases status with
  | none => cases response <;> exact ⟨none, rfl, fun _ hp => (nomatch hp)⟩
  | some s =>
    cases response with
    | none => exact ⟨none, rfl, fun _ hp => (nomatch hp)⟩
    | response r =>
      by_cases hs : s ≠ 0
      · refine ⟨some (r, s), if_pos hs, ?_⟩
        rintro _ ⟨⟩
        exact ⟨rfl, rfl, hs⟩
      · exact ⟨none, if_neg hs, fun _ hp => (nomatch hp)⟩
    | raw d =>
      have hnot : ¬ (lib.truthy d = true ∧ s ≠ 0) := fun hboth =>
        hraw ⟨d, s, rfl, rfl, hboth.1, hboth.2⟩
      exact ⟨none, if_neg hnot, fun _ hp => (nomatch hp)⟩

theorem accepted_answer (headers : Headers) (r : Option (Response D × ℤ)) :
    (Middleware.answer headers r).Accepted := by
  cases r <;> trivial

variable (headers response status) in
/-- **What becomes of a preflight.** -/
theorem preflight_made (hcred : h.allowCredentials = none)
    (horigin : star ∈ h.allowOrigin ∨ ¬ OriginAllowed h q) (hconf : Configured lib h q) :
    (OriginAllowed h q ∧ q.requestMethod ∈ h.allowMethods ∧ Verbatim lib h q →
      ∃ after, (made lib h headers).preflight lib q response status =
        (given lib response status).map (Middleware.answer after)) ∧
    (¬ (OriginAllowed h q ∧ q.requestMethod ∈ h.allowMethods ∧ Verbatim lib h q) →
      ∃ r, (made lib h headers).preflight lib q response status = .ok (.refused r)) := by
  have ⟨hallowed, hnot⟩ := originFailures_made lib headers hcred horigin
  obtain ⟨after, hverbatim, hother⟩ := headerFailures_made headers hconf
    (made lib h headers).preflightHeaders
  have hmethods : (made lib h headers).corsMethods = h.allowMethods := rfl
  constructor
  · rintro ⟨ho, hm, hv⟩
    refine ⟨after, ?_⟩
    rw [Middleware.preflight, hallowed ho, hverbatim hv, hmethods, if_pos hm]
    rfl
  · intro hfail
    by_cases ho : OriginAllowed h q
    · by_cases hm : q.requestMethod ∈ h.allowMethods
      · have hv : ¬ Verbatim lib h q := fun hv => hfail ⟨ho, hm, hv⟩
        rw [Middleware.preflight, hallowed ho, hother hv, hmethods, if_pos hm]
        exact ⟨_, rfl⟩
      · by_cases hv : Verbatim lib h q
        · rw [Middleware.preflight, hallowed ho, hverbatim hv, hmethods, if_neg hm]
          exact ⟨_, rfl⟩
        · rw [Middleware.preflight, hallowed ho, hother hv, hmethods, if_neg hm]
          exact ⟨_, rfl⟩
    · by_cases hv : Verbatim lib h q
      · rw [Middleware.preflight, hnot ho, hverbatim hv]
        exact ⟨_, rfl⟩
      · rw [Middleware.preflight, hnot ho, hother hv]
        exact ⟨_, rfl⟩

/-- A preflight fails where one of its parts does. -/
theorem preflight_eq_ok {out : Outcome D}
    (hout : (made lib h headers).preflight lib q response status = .ok out) :
    (star ∈ h.allowOrigin ∨ ¬ OriginAllowed h q) ∧ Configured lib h q := by
  have horigin : star ∈ h.allowOrigin ∨ ¬ OriginAllowed h q := by
    by_contra hnot
    rw [Middleware.preflight, originFailures_error hnot] at hout
    cases hout
  refine ⟨horigin, ?_⟩
  by_contra hnot
  unfold Middleware.preflight at hout
  rw [headerFailures_error hnot] at hout
  cases hfailures : (made lib h headers).originFailures q.origin with
  | error e =>
    rw [hfailures] at hout
    cases hout
  | ok failures =>
    rw [hfailures] at hout
    cases hout

/-- What is configured as it is compared is allowed. -/
theorem headersAllowed_of_verbatim (hv : Verbatim lib h q) : HeadersAllowed lib h q := by
  refine hv.imp id fun hall header hheader => ?_
  have hlower : lib.lower header = header := by
    unfold requested at hheader
    split at hheader
    · exact absurd hheader List.not_mem_nil
    · obtain ⟨s, rfl⟩ := lower_of_mem_elements hheader
      exact lib.lower_infix s _ (Http.strip_isInfix isSpace _)
  rw [← hlower]
  exact List.mem_map_of_mem (List.mem_append_right _ (hall header hheader))

/-- **The preflights that are decided right.** -/
theorem decides_preflight_iff (hcred : h.allowCredentials = none) (hq : q.Preflight) :
    Decides lib h q response status ↔ PreflightServed lib h q response status := by
  have hrun : ∀ headers, (made lib h headers).run lib q response status =
      (made lib h headers).preflight lib q response status := fun _ => if_pos hq
  constructor
  · rintro ⟨c, out, hc, hout, hpreflight, -⟩
    obtain ⟨headers, rfl⟩ := made_of_new hc
    rw [hrun] at hout
    obtain ⟨horigin, hconf⟩ := preflight_eq_ok hout
    have ⟨hanswered, hrefused⟩ := preflight_made response status headers hcred horigin hconf
    have hverbatim : Allowed lib h q →
        OriginAllowed h q ∧ q.requestMethod ∈ h.allowMethods ∧ Verbatim lib h q := by
      intro hallowed
      by_contra hnot
      obtain ⟨r, hr⟩ := hrefused hnot
      rw [hr] at hout
      obtain rfl := Except.ok.inj hout
      exact (hpreflight hq).mpr hallowed
    refine ⟨horigin, hconf, fun hallowed hstar => (hverbatim hallowed).2.2.resolve_left hstar, ?_⟩
    intro hallowed hraw
    obtain ⟨after, hafter⟩ := hanswered (hverbatim hallowed)
    rw [hafter, given_of_headless hraw] at hout
    cases hout
  · rintro ⟨horigin, hconf, hlower, hresult⟩
    obtain ⟨c, hc⟩ := (exists_new_iff lib).mpr hcred
    obtain ⟨headers, rfl⟩ := made_of_new hc
    have ⟨hanswered, hrefused⟩ := preflight_made response status headers hcred horigin hconf
    by_cases hallowed : Allowed lib h q
    · have hverbatim : Verbatim lib h q := by
        by_cases hstar : star ∈ h.allowHeaders.getD []
        · exact Or.inl hstar
        · exact Or.inr (hlower hallowed hstar)
      obtain ⟨after, hafter⟩ := hanswered ⟨hallowed.origin, hallowed.method, hverbatim⟩
      obtain ⟨r, hr, -⟩ := given_of_not_headless (hresult hallowed)
      refine ⟨_, Middleware.answer after r, hc, ?_, fun _ => ?_, fun hnot => absurd hq hnot⟩
      · rw [hrun, hafter, hr]
        rfl
      · exact iff_of_true (accepted_answer after r) hallowed
    · have hfail : ¬ (OriginAllowed h q ∧ q.requestMethod ∈ h.allowMethods ∧ Verbatim lib h q) :=
        fun hall => hallowed ⟨hall.1, hall.2.1, headersAllowed_of_verbatim hall.2.2⟩
      obtain ⟨r, hr⟩ := hrefused hfail
      exact ⟨_, .refused r, hc, (hrun headers).trans hr, fun _ => iff_of_false id hallowed,
        fun hnot => absurd hq hnot⟩

/-! ## 6. Simple requests -/

variable (lib) in
theorem lower_allowOriginKey : lib.lower allowOriginKey = allowOriginName := by
  rw [lib.lower_ascii _ (Http.forall_of_all (by decide))]
  decide

theorem lower_allowOriginName : lib.lower allowOriginName = allowOriginName := by
  rw [lib.lower_ascii _ (Http.forall_of_all (by decide))]
  decide

theorem ne_of_lower {key other : Str} (hascii : ∀ c ∈ other, c.toNat < 128)
    (hother : other.map Char.toLower ≠ allowOriginName) (hkey : lib.lower key = allowOriginName) :
    key ≠ other := by
  rintro rfl
  exact hother ((lib.lower_ascii key hascii).symm.trans hkey)

theorem lower_writtenKey (h : CorsHeaders N) : lib.lower (writtenKey h) = allowOriginName := by
  unfold writtenKey
  split
  · exact lower_allowOriginKey lib
  · exact lower_allowOriginName

/-- Of the configured headers, the wildcard alone is for an origin. -/
theorem get?_toSimpleHeaders (hcred : h.allowCredentials = none) {key : Str}
    (hkey : lib.lower key = allowOriginName) : h.toSimpleHeaders.get? key =
      if star ∈ h.allowOrigin ∧ key = allowOriginKey then some (some star) else none := by
  have hexpose : key ≠ exposeHeadersKey := ne_of_lower (Http.forall_of_all (by decide)) (by decide) hkey
  have hbase : (if star ∈ h.allowOrigin then Dict.empty.set allowOriginKey (some star)
      else (.empty : Headers)).get? key =
        if star ∈ h.allowOrigin ∧ key = allowOriginKey then some (some star) else none := by
    by_cases hstar : star ∈ h.allowOrigin
    · by_cases heq : key = allowOriginKey
      · rw [if_pos hstar, if_pos ⟨hstar, heq⟩, heq, Dict.get?_set_self]
      · rw [if_pos hstar, if_neg fun hboth => heq hboth.2, Dict.get?_set_ne _ _ heq, Dict.get?_empty]
    · rw [if_neg hstar, if_neg fun hboth => hstar hboth.1, Dict.get?_empty]
  have hnone : ¬ h.allowCredentials = some true := by simp [hcred]
  unfold CorsHeaders.toSimpleHeaders
  dsimp only
  rw [if_neg hnone]
  split
  · exact hbase
  · rw [Dict.get?_set_ne _ _ hexpose, hbase]

/-- The origin is written behind the configured headers. -/
def Written (h : CorsHeaders N) (q : Request) : Prop :=
  (star ∈ h.allowOrigin ∧ q.cookie ≠ []) ∨ ∃ o ∈ q.origin, o ∈ h.allowOrigin

theorem simpleResponseHeaders_of_written (hw : Written h q) :
    (made lib h headers).simpleResponseHeaders q =
      h.toSimpleHeaders.set allowOriginName q.origin := by
  unfold Middleware.simpleResponseHeaders
  split
  · rfl
  · next hcookie =>
    have hstar : ¬ (star ∈ h.allowOrigin ∧ q.cookie ≠ []) := fun hboth =>
      hcookie ⟨decide_eq_true hboth.1, hboth.2⟩
    exact if_pos (hw.resolve_left hstar)

theorem simpleResponseHeaders_of_not_written (hw : ¬ Written h q) :
    (made lib h headers).simpleResponseHeaders q = h.toSimpleHeaders := by
  rw [Written, not_or] at hw
  unfold Middleware.simpleResponseHeaders
  rw [if_neg fun hboth => hw.1 ⟨of_decide_eq_true hboth.1, hboth.2⟩]
  exact if_neg hw.2

/-- What the header for an origin is set to, where there is one. -/
def writtenValue (h : CorsHeaders N) (o : Str) : Str := if star ∈ h.allowOrigin then star else o

variable (headers) in
/-- Apart from a wildcard with a name or a cookie, there is one header for an allowed origin. -/
theorem get?_simpleResponseHeaders (hcred : h.allowCredentials = none) {o key : Str}
    (horigin : q.origin = some o) (hallowed : OriginAllowed h q)
    (hwild : star ∈ h.allowOrigin → q.cookie = [] ∧ o ∉ h.allowOrigin)
    (hkey : lib.lower key = allowOriginName) :
    ((made lib h headers).simpleResponseHeaders q).get? key =
      if key = writtenKey h then some (some (writtenValue h o)) else none := by
  have hsimple := get?_toSimpleHeaders hcred hkey
  unfold writtenKey writtenValue
  by_cases hstar : star ∈ h.allowOrigin
  · obtain ⟨hcookie, hname⟩ := hwild hstar
    have hnot : ¬ Written h q := by
      rintro (⟨-, hc⟩ | ⟨o', ho', hmem⟩)
      · exact hc hcookie
      · rw [horigin] at ho'
        obtain rfl := Option.some.inj ho'
        exact hname hmem
    rw [simpleResponseHeaders_of_not_written hnot, hsimple, if_pos hstar, if_pos hstar]
    by_cases heq : key = allowOriginKey
    · rw [if_pos heq, if_pos ⟨hstar, heq⟩]
    · rw [if_neg heq, if_neg fun hboth => heq hboth.2]
  · have hw : Written h q := Or.inr (hallowed.resolve_left hstar)
    rw [simpleResponseHeaders_of_written hw, Dict.get?_set, hsimple, if_neg hstar, if_neg hstar,
      horigin, if_neg (c := star ∈ h.allowOrigin ∧ key = allowOriginKey) fun hboth => hstar hboth.1]

variable (lib headers) in
/-- A wildcard with a name or a cookie makes two headers. -/
theorem two_headers (hcred : h.allowCredentials = none) (hstar : star ∈ h.allowOrigin)
    (hw : Written h q) :
    ((made lib h headers).simpleResponseHeaders q).get? allowOriginKey = some (some star) ∧
      ((made lib h headers).simpleResponseHeaders q).get? allowOriginName = some q.origin := by
  have hne : allowOriginKey ≠ allowOriginName := by decide
  rw [simpleResponseHeaders_of_written hw]
  constructor
  · rw [Dict.get?_set_ne _ _ hne,
      get?_toSimpleHeaders hcred (lower_allowOriginKey lib), if_pos ⟨hstar, rfl⟩]
  · exact Dict.get?_set_self _ _ _

/-- What is written is in the headers that are passed on. -/
theorem get?_of_pass {hs : Headers} {given : Option (Response D × ℤ)} {r : Response D} {s : ℤ}
    (hpass : Middleware.pass hs given = .passed r s) {key : Str} {value : Option Str}
    (hkey : hs.get? key = some value) : r.headers.get? key = some value := by
  cases given with
  | none =>
    obtain ⟨rfl, -⟩ := Outcome.passed.inj hpass
    exact hkey
  | some p =>
    obtain ⟨rfl, -⟩ := Outcome.passed.inj hpass
    rw [Dict.get?_update, hkey, Option.some_or]

theorem run_of_simple (hq : ¬ q.Preflight) (headers : Headers) :
    (made lib h headers).run lib q response status = (given lib response status).map
      (Middleware.pass ((made lib h headers).simpleResponseHeaders q)) :=
  if_neg hq

/-- A simple request that is decided right has one header that allows it. -/
theorem simpleServed_of_decides (hcred : h.allowCredentials = none) (hq : ¬ q.Preflight)
    (hdecides : Decides lib h q response status) : SimpleServed lib h q response status := by
  obtain ⟨c, out, hc, hout, -, hsimple⟩ := hdecides
  obtain ⟨headers, rfl⟩ := made_of_new hc
  rw [run_of_simple hq] at hout
  have hresult : ¬ Headless lib response status := by
    intro hraw
    rw [given_of_headless hraw] at hout
    cases hout
  obtain ⟨r₀, hgiven, hr₀⟩ := given_of_not_headless hresult
  rw [hgiven] at hout
  obtain rfl := Except.ok.inj hout
  have hwild : ∀ o, q.origin = some o → star ∈ h.allowOrigin → q.cookie = [] ∧ o ∉ h.allowOrigin := by
    intro o ho hstar
    obtain ⟨r, s, hpass, key, value, -, -, hone, -⟩ := hsimple hq o ho (Or.inl hstar)
    by_contra hnot
    have hw : Written h q := by
      by_cases hcookie : q.cookie = []
      · exact Or.inr ⟨o, ho, not_not.mp fun hmem => hnot ⟨hcookie, hmem⟩⟩
      · exact Or.inl ⟨hstar, hcookie⟩
    obtain ⟨hfirst, hsecond⟩ := two_headers lib headers hcred hstar hw
    have h1 := hone _ _ (get?_of_pass hpass hfirst) (lower_allowOriginKey lib)
    have h2 := hone _ _ (get?_of_pass hpass hsecond) lower_allowOriginName
    exact absurd (h1.trans h2.symm) (by decide)
  refine ⟨hresult, hwild, ?_⟩
  intro o ho hallowed r s hresponse hstatus hs key value hget hlower
  obtain ⟨r', s', hpass, key', value', -, -, hone, -⟩ := hsimple hq o ho hallowed
  have hwritten := get?_simpleResponseHeaders headers hcred ho hallowed (hwild o ho)
    (lower_writtenKey h : lib.lower _ = _)
  rw [if_pos rfl] at hwritten
  have h1 := hone _ _ (get?_of_pass hpass hwritten) (lower_writtenKey h)
  have hkept : ∃ w, r'.headers.get? key = some w := by
    subst hresponse hstatus
    have hgiven' : given lib (.response r) (some s) = .ok (some (r, s)) := if_pos hs
    obtain rfl := Except.ok.inj (hgiven'.symm.trans hgiven)
    obtain ⟨rfl, -⟩ := Outcome.passed.inj hpass
    rw [Dict.get?_update, hget]
    cases ((made lib h headers).simpleResponseHeaders q).get? key with
    | none => exact ⟨value, rfl⟩
    | some w => exact ⟨w, rfl⟩
  obtain ⟨w, hw⟩ := hkept
  exact (hone _ _ hw hlower).trans h1.symm

theorem decides_of_simpleServed (hcred : h.allowCredentials = none) (hq : ¬ q.Preflight)
    (hserved : SimpleServed lib h q response status) : Decides lib h q response status := by
  obtain ⟨hresult, hwild, hresponse⟩ := hserved
  obtain ⟨c, hc⟩ := (exists_new_iff lib).mpr hcred
  obtain ⟨headers, rfl⟩ := made_of_new hc
  obtain ⟨r₀, hgiven, hr₀⟩ := given_of_not_headless hresult
  refine ⟨_, _, hc, by rw [run_of_simple hq, hgiven]; rfl, fun hp => absurd hp hq, fun _ o ho hallowed => ?_⟩
  have hget : ∀ key, lib.lower key = allowOriginName → _ := fun key =>
    @get?_simpleResponseHeaders N D lib h q headers hcred o key ho hallowed (hwild o ho)
  have hwritten := hget _ (lower_writtenKey h)
  rw [if_pos rfl] at hwritten
  have hvalue : writtenValue h o = o ∨ (star ∈ h.allowOrigin ∧ writtenValue h o = star) := by
    unfold writtenValue
    split
    · next hstar => exact Or.inr ⟨hstar, rfl⟩
    · exact Or.inl rfl
  cases r₀ with
  | none =>
    refine ⟨_, _, rfl, _, _, hwritten, lower_writtenKey h, fun key value hkey hlower => ?_, hvalue⟩
    by_contra hne
    have hnone := hget key hlower
    rw [if_neg hne] at hnone
    exact (nomatch hkey.symm.trans hnone)
  | some p =>
    obtain ⟨hr, hstatus, hs⟩ := hr₀ p rfl
    refine ⟨_, _, rfl, writtenKey h, writtenValue h o, ?_, lower_writtenKey h,
      fun key value hkey hlower => ?_, hvalue⟩
    · rw [Dict.get?_update, hwritten, Option.some_or]
    · by_contra hne
      have hnone := hget key hlower
      rw [if_neg hne] at hnone
      rw [Dict.get?_update, hnone, Option.none_or] at hkey
      exact hne (hresponse o ho hallowed _ _ hr hstatus hs key value hkey hlower)

/-- **The simple requests that are decided right.** -/
theorem decides_simple_iff (hcred : h.allowCredentials = none) (hq : ¬ q.Preflight) :
    Decides lib h q response status ↔ SimpleServed lib h q response status :=
  ⟨simpleServed_of_decides hcred hq, decides_of_simpleServed hcred hq⟩

/-! ## 7. What is decided right -/

/-- **Requests are decided by what is allowed exactly where they are served.** -/
theorem decides_iff_served (lib : Stdlib N D) (h : CorsHeaders N) (q : Request)
    (response : Result D) (status : Option ℤ) :
    Decides lib h q response status ↔ Served lib h q response status := by
  have hcred : Decides lib h q response status → h.allowCredentials = none := by
    rintro ⟨c, -, hc, -⟩
    exact (exists_new_iff lib).mp ⟨c, hc⟩
  by_cases hq : q.Preflight
  · constructor
    · intro hdecides
      exact ⟨hcred hdecides, fun _ => (decides_preflight_iff (hcred hdecides) hq).mp hdecides,
        fun hnot => absurd hq hnot⟩
    · rintro ⟨hnone, hpreflight, -⟩
      exact (decides_preflight_iff hnone hq).mpr (hpreflight hq)
  · constructor
    · intro hdecides
      exact ⟨hcred hdecides, fun hpre => absurd hpre hq,
        fun _ => (decides_simple_iff (hcred hdecides) hq).mp hdecides⟩
    · rintro ⟨hnone, -, hsimple⟩
      exact (decides_simple_iff hnone hq).mpr (hsimple hq)

/-- ASCII. -/
def asciiStdlib : Stdlib ℕ Str where
  lower s := s.map Char.toLower
  str n := match n with
    | some n => Http.natStr n
    | none => "None".toList
  nonzero n := n != 0
  truthy s := s != []
  lower_infix s t ht := by
    have hlower : ∀ c ∈ t, c.toLower = c := fun c hc => by
      obtain ⟨d, -, rfl⟩ := List.mem_map.mp (ht.subset hc)
      exact Lib.Ascii.toLower_eq (Lib.Ascii.isUpper_toLower d)
    exact (List.map_congr_left hlower).trans (List.map_id t)
  lower_ascii _ _ := rfl

/-- One origin and one method are allowed by name. -/
def oneOrigin : CorsHeaders ℕ where
  allowOrigin := ["https://a".toList]
  exposeHeaders := none
  maxAge := none
  allowCredentials := none
  allowMethods := ["GET".toList]
  allowHeaders := none
  allowOrigin_ne_nil := List.cons_ne_nil _ _
  allowMethods_ne_nil := List.cons_ne_nil _ _
  allowMethods_names := by decide

/-- The preflight of a browser at that origin. -/
def browserPreflight : Request where
  method := "OPTIONS".toList
  headers := .ofList [("origin".toList, "https://a".toList),
    ("access-control-request-method".toList, "GET".toList)]

/-- What is allowed in every part fails, before there is a result of a handler. -/
theorem not_decides : Allowed asciiStdlib oneOrigin browserPreflight ∧
    (Middleware.new asciiStdlib oneOrigin).map
      (fun c => (c.run asciiStdlib browserPreflight .none none).isOk) = .ok false ∧
    ¬ Decides asciiStdlib oneOrigin browserPreflight .none none := by
  have hpreflight : browserPreflight.Preflight := by decide +kernel
  have hallowed : Allowed asciiStdlib oneOrigin browserPreflight := by
    refine ⟨Or.inr ⟨_, rfl, by decide⟩, by decide, Or.inr ?_⟩
    have hnone : requested asciiStdlib browserPreflight = [] := by decide +kernel
    rw [hnone]
    exact fun _ hx => absurd hx List.not_mem_nil
  have hfails : ∀ c, Middleware.new asciiStdlib oneOrigin = .ok c →
      c.run asciiStdlib browserPreflight .none none = .error .typeError := by
    intro c hc
    obtain ⟨headers, rfl⟩ := made_of_new hc
    have hnot : ¬ (star ∈ oneOrigin.allowOrigin ∨ ¬ OriginAllowed oneOrigin browserPreflight) := by
      rintro (hstar | hnot)
      · exact absurd hstar (by decide)
      · exact hnot hallowed.origin
    rw [Middleware.run, if_pos hpreflight, Middleware.preflight, originFailures_error hnot]
    rfl
  refine ⟨hallowed, ?_, ?_⟩
  · obtain ⟨c, hc⟩ := (exists_new_iff asciiStdlib).mpr (rfl : oneOrigin.allowCredentials = none)
    rw [hc]
    change Except.ok (c.run asciiStdlib browserPreflight .none none).isOk = _
    rw [hfails c hc]
    rfl
  · rintro ⟨c, out, hc, hout, -⟩
    rw [hfails c hc] at hout
    cases hout

end Cors
end Hedra
