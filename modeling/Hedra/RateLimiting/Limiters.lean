/-
# The limiters of a server

`Limiter.limit` (`distributed/rate_limiting/limiter.py`) finds a key for each request, by the
strategy that is configured and by the limit of the endpoint, and asks the limiter under this key;
the first request with a key has it made, of its own limit.  Where the strategy wants the limit of
an endpoint that has none, the request is not limited at all.

The requests with one key are limited as if there were no others (`filed_alone`).  So what is known of one
limiter alone is known of each one of a server, as is shown here for leaky buckets.

Amounts and times are exact rationals, as in the modules of the limiters.

* `filed_alone`: a limiter has been asked by the requests with its key, and by no others;
* `leakyBucket_conforms`: what `LeakyBucket.lean` says of one bucket holds for each key of a server.
-/
import Hedra.Lib.Keyed
import Hedra.RateLimiting.LeakyBucket
import Hedra.RateLimiting.SlidingWindow
import Hedra.RateLimiting.TokenBucket

namespace Hedra
namespace RateLimiting

namespace Limiters

open Lib Machine

/-! ## 1. The classes of limiters -/

inductive LimiterType
  | adaptive
  | cpuAdaptive
  | leakyBucket
  | rateAdaptive
  | slidingWindow
  | tokenBucket
deriving DecidableEq

/-- A class of limiters: how one is made, and what the calls of `acquire` do to it. -/
structure Limiting where
  State : Type
  make : Limit → Clock → State
  step : Limit → Clock → State → Limiter.Event → Option State

/-- A subclass of `BaseLimiter` that has the `acquire` of this one, or one like it. -/
def limiting {φ : Type} (cls : LimiterClass φ) (init : Limit → Clock → Limiter φ) : Limiting where
  State := Limiter φ
  make := init
  step := Limiter.step cls

/-- `_rate_limiter_types`, given the classes that adapt themselves. -/
def limiterTypes (others : LimiterType → Limiting) : LimiterType → Limiting
  | .leakyBucket => limiting LeakyBucket.limiterClass fun _ _ => LeakyBucket.init
  | .slidingWindow => limiting SlidingWindow.limiterClass SlidingWindow.init
  | .tokenBucket => limiting TokenBucket.limiterClass TokenBucket.init
  | .adaptive => others .adaptive
  | .cpuAdaptive => others .cpuAdaptive
  | .rateAdaptive => others .rateAdaptive

/-! ## 2. Keys -/

section Keys

variable (A : Type)

/-- What limiters are filed under: an address, which is no `str`, or a text. -/
inductive Key
  | address (ip : A)
  | text (s : String)
deriving DecidableEq

/-- A `Request`, as far as it is limited. -/
structure Request where
  path : String
  method : String

/-- `Limit`, with what tells the requests that it is for. -/
structure HttpLimit extends Limit where
  limiterType : Option LimiterType
  limitKey : Option (Request → A → String)
  rules : Option (List (Request → A → Bool))

variable {A}

/-- `bool(limit_key)` -/
def Key.truthy : Key A → Bool
  | .address _ => true
  | .text s => s ≠ ""

/-- `get_key` -/
def HttpLimit.getKey (limit : HttpLimit A) (request : Request) (ip : A) (default : Key A) : Key A :=
  match limit.limitKey with
  | none => default
  | some limitKey => .text (limitKey request ip)

/-- The last rule decides. -/
def HttpLimit.matches (limit : HttpLimit A) (request : Request) (ip : A) : Bool :=
  match limit.rules with
  | none => true
  | some rules => rules.foldl (fun _ rule => rule request ip) false

end Keys

/-- `MERCURY_SYNC_HTTP_RATE_LIMIT_STRATEGY` -/
inductive Strategy
  | none
  | ip
  | endpoint
  | global
  | ipEndpoint
  | custom
deriving DecidableEq

/-- What a `Limiter` is made of. -/
structure LimiterEnv where
  strategy : Strategy
  defaultLimit : Limit
  defaultLimiterType : LimiterType

variable {A : Type}

/-- `_default_limit` -/
def LimiterEnv.default (env : LimiterEnv) : HttpLimit A := ⟨env.defaultLimit, none, none, none⟩

/-- `limit_key`, with the limit that goes with it.  The connection does not ask where there is no strategy. -/
def LimiterEnv.keyed [ToString A] (env : LimiterEnv) (ip : A) (request : Request)
    (limit : Option (HttpLimit A)) : Option (Key A × HttpLimit A) :=
  match env.strategy, limit with
  | .none, _ => none
  | .ip, limit =>
    let limit := limit.getD env.default
    some (limit.getKey request ip (.address ip), limit)
  | .endpoint, some limit => some (limit.getKey request ip (.text request.path), limit)
  | .global, _ => some (env.default.getKey request ip (.text "default"), env.default)
  | .ipEndpoint, some limit => some (limit.getKey request ip (.text s!"{request.path}_{ip}"), limit)
  | .custom, some limit => some (limit.getKey request ip (.text "default"), limit)
  | _, none => none

/-- The key and the limit of a request that is limited. -/
def LimiterEnv.limited [ToString A] (env : LimiterEnv) (ip : A) (request : Request)
    (limit : Option (HttpLimit A)) : Option (Key A × HttpLimit A) :=
  (env.keyed ip request limit).filter fun (key, limit) => key.truthy && limit.matches request ip

/-! ## 3. The limiters of a run -/

/-- A limiter under its key. -/
structure Filed (classes : LimiterType → Limiting) where
  type : LimiterType
  limit : Limit
  clock : Clock
  state : (classes type).State

/-- What happens to a limiter. -/
inductive Ask (A : Type)
  /-- `acquire`, with the limit and the clock that a new limiter would be made of. -/
  | acquire (limit : HttpLimit A) (clock : Clock)
  | wake (task : ℕ)
  | cancel (task : ℕ)

def Ask.event : Ask A → Limiter.Event
  | .acquire _ _ => .acquire 1
  | .wake task => .wake task
  | .cancel task => .cancel task

/-- `_check_limiter`, and what follows where the call waits. -/
def LimiterEnv.kind (env : LimiterEnv) (classes : LimiterType → Limiting) :
    Keyed.Kind (Filed classes) (Ask A) where
  make
    | .acquire limit clock =>
      let type := limit.limiterType.getD env.defaultLimiterType
      some ⟨type, limit.toLimit, clock, (classes type).make limit.toLimit clock⟩
    | .wake _ | .cancel _ => none
  step filed call :=
    ((classes filed.type).step filed.limit filed.clock filed.state call.event).map fun state =>
      { filed with state := state }

/-- What happens to the limiters of a server, in any order. -/
inductive Happens (A : Type)
  | request (ip : A) (request : Request) (limit : Option (HttpLimit A)) (clock : Clock)
  | wake (key : Key A) (task : ℕ)
  | cancel (key : Key A) (task : ℕ)

section Runs

variable [ToString A] [DecidableEq A] (env : LimiterEnv) (classes : LimiterType → Limiting)

/-- The call of a limiter, and its key. -/
def LimiterEnv.call : Happens A → Option (Key A × Ask A)
  | .request ip request limit clock =>
    (env.limited ip request limit).map fun (key, limit) => (key, .acquire limit clock)
  | .wake key task => some (key, .wake task)
  | .cancel key task => some (key, .cancel task)

/-- The limiters of the server, by their keys.  A request that is not limited leaves them alone. -/
def LimiterEnv.step (limiters : Dict (Key A) (Filed classes)) (h : Happens A) :
    Option (Dict (Key A) (Filed classes)) :=
  match env.call h with
  | none => some limiters
  | some call => Keyed.step (env.kind classes) limiters call

/-- The calls of the limiter under a key. -/
def LimiterEnv.callsOf (key : Key A) (hs : List (Happens A)) : List (Ask A) :=
  Keyed.part key (hs.filterMap env.call)

variable {env classes} {limiters limiters' : Dict (Key A) (Filed classes)} {hs hs' : List (Happens A)}
  {key : Key A} {filed filed' : Filed classes}

theorem run_eq_keyed : run (env.step classes) limiters hs =
    run (Keyed.step (env.kind classes)) limiters (hs.filterMap env.call) := by
  induction hs generalizing limiters with
  | nil => rfl
  | cons h hs ih =>
    rw [run_cons, LimiterEnv.step]
    cases hcall : env.call h with
    | none =>
      rw [List.filterMap_cons_none hcall]
      exact ih
    | some call =>
      rw [List.filterMap_cons_some hcall, run_cons]
      dsimp only
      cases Keyed.step (env.kind classes) limiters call with
      | none => rfl
      | some limiters' => exact ih

omit [ToString A] [DecidableEq A] in
/-- A limiter stays what it was made as. -/
theorem run_kind (asks : List (Ask A)) (h : run (env.kind classes).step filed asks = some filed') :
    ∃ state, filed' = { filed with state := state } ∧
      run ((classes filed.type).step filed.limit filed.clock) filed.state (asks.map Ask.event) =
        some state := by
  induction asks generalizing filed with
  | nil =>
    cases h
    exact ⟨_, rfl, rfl⟩
  | cons ask asks ih =>
    obtain ⟨t, ht, hrest⟩ := run_cons_eq_some.mp h
    obtain ⟨state, hstep, rfl⟩ := Option.map_eq_some_iff.mp ht
    obtain ⟨state', rfl, hrun⟩ := ih hrest
    exact ⟨state', rfl, run_cons_eq_some.mpr ⟨state, hstep, hrun⟩⟩

/-- **A limiter is made of the limit of the first request with its key**, and has been asked by the requests
with its key, and by no others. -/
theorem filed_alone (h : run (env.step classes) Dict.empty hs = some limiters)
    (hget : limiters.get? key = some filed) :
    ∃ limit clock later, env.callsOf key hs = .acquire limit clock :: later ∧
      filed.type = limit.limiterType.getD env.defaultLimiterType ∧ filed.limit = limit.toLimit ∧
      run ((classes filed.type).step filed.limit filed.clock)
        ((classes filed.type).make filed.limit filed.clock) ((env.callsOf key hs).map Ask.event) =
          some filed.state := by
  rw [run_eq_keyed] at h
  obtain ⟨a, rest, s₀, hpart, hmake, hrun⟩ := Keyed.exists_of_run h hget
  obtain ⟨state, rfl, hstate⟩ := run_kind _ hrun
  cases a with
  | acquire limit clock =>
    cases hmake
    exact ⟨limit, clock, rest, hpart, rfl, rfl, hstate⟩
  | wake task => cases hmake
  | cancel task => cases hmake

/-- **What happens under other keys does not matter.** -/
theorem get?_eq_of_callsOf_eq (h : run (env.step classes) Dict.empty hs = some limiters)
    (h' : run (env.step classes) Dict.empty hs' = some limiters')
    (hsame : env.callsOf key hs = env.callsOf key hs') : limiters.get? key = limiters'.get? key := by
  rw [run_eq_keyed] at h h'
  exact Keyed.get?_eq_of_part_eq h h' hsame

/-- **A server with leaky buckets** admits, of the requests with one key, no more in any interval than the
limit of the first of them allows. -/
theorem leakyBucket_conforms {others : LimiterType → Limiting}
    {limiters : Dict (Key A) (Filed (limiterTypes others))}
    (h : run (env.step (limiterTypes others)) Dict.empty hs = some limiters) {limit : Limit} {clock : Clock}
    {s : Limiter LeakyBucket} (hget : limiters.get? key = some ⟨.leakyBucket, limit, clock, s⟩) :
    (∃ first clock later, env.callsOf key hs = .acquire first clock :: later ∧ first.toLimit = limit) ∧
      s.meter.level ≤ limit.maxRequests ∧
      s.meter.admitted.Conforms (limit.maxRequests : ℚ) limit.ratePerSec := by
  obtain ⟨first, clock', later, hcalls, -, hlimit, hrun⟩ := filed_alone h hget
  have hcovers : LeakyBucket.Covers limit clock s.meter :=
    invariant_of_run (I := fun s : Limiter LeakyBucket => LeakyBucket.Covers limit clock s.meter)
      (fun s ev s' => LeakyBucket.covers_step) (LeakyBucket.covers_init limit clock) hrun
  exact ⟨⟨first, clock', later, hcalls, hlimit.symm⟩, hcovers.fits, hcovers.conforms⟩

end Runs

/-- Two requests in a second, of each address. -/
def perAddress : LimiterEnv where
  strategy := .ip
  defaultLimit := SlidingWindow.twoPerSecond
  defaultLimiterType := .leakyBucket

/-- Other classes, that are not used. -/
def unused (_ : LimiterType) : Limiting := limiting LeakyBucket.limiterClass fun _ _ => LeakyBucket.init

/-- Requests from two addresses. -/
def fromTwo : List (Happens ℕ) :=
  [.request 1 ⟨"/", "GET"⟩ none TokenBucket.still, .request 2 ⟨"/", "GET"⟩ none TokenBucket.still,
    .request 1 ⟨"/", "GET"⟩ none TokenBucket.still]

theorem filed_alone_fromTwo : ∃ limiters filed,
    run (perAddress.step (limiterTypes unused)) Dict.empty fromTwo = some limiters ∧
    limiters.get? (.address 1) = some filed ∧
    ∃ limit clock later, perAddress.callsOf (.address 1) fromTwo = .acquire limit clock :: later ∧
      filed.type = limit.limiterType.getD perAddress.defaultLimiterType ∧ filed.limit = limit.toLimit ∧
      run ((limiterTypes unused filed.type).step filed.limit filed.clock)
        ((limiterTypes unused filed.type).make filed.limit filed.clock)
        ((perAddress.callsOf (.address 1) fromTwo).map Ask.event) = some filed.state :=
  ⟨_, _, rfl, rfl, filed_alone rfl rfl⟩

theorem leakyBucket_conforms_fromTwo : ∃ limiters s,
    run (perAddress.step (limiterTypes unused)) Dict.empty fromTwo = some limiters ∧
    limiters.get? (.address 1) = some ⟨.leakyBucket, perAddress.defaultLimit, TokenBucket.still, s⟩ ∧
    (∃ first clock later, perAddress.callsOf (.address 1) fromTwo = .acquire first clock :: later ∧
      first.toLimit = perAddress.defaultLimit) ∧
    s.meter.level ≤ perAddress.defaultLimit.maxRequests ∧
    s.meter.admitted.Conforms (perAddress.defaultLimit.maxRequests : ℚ) perAddress.defaultLimit.ratePerSec :=
  ⟨_, _, rfl, rfl, leakyBucket_conforms rfl rfl⟩

end Limiters
end RateLimiting
end Hedra
