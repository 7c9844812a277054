/-
# Mutations

A mutation (`core/experiments/mutations/types/base/mutation.py`) draws a number before each request
of the actions it targets, and lets the action pass if the number is within its chance: it is the
other requests that are altered.  What it alters, it alters in the action itself, so that every
request after that is altered too.

There are five kinds.  One sends a ping, and alters nothing.  One adds a header that it finds there
the second time, and one deforms a header that it does not find the second time.  The other two put
a payload behind the data that their first request had, after the headers are encoded in one of them,
and before the data is encoded again in the other.

Each kind is the class of the same name in `core/experiments/mutations/types`.  `edit_eq_self_iff`
says which mutations have nothing to change on an action (`Idle`); what runs of them do is in
`MutationRuns.lean`.
-/
import Hedra.Lib.Settling
import Hedra.Experiments.Actions

namespace Hedra
namespace Experiments
namespace Mutations

open Lib (Dict)
open Lib.Utf8 (encode)
open Lib.Machine (run Along)
open Engines.RequestEncoding (Str Encoded Codecs)

/-! ## 1. The kinds -/

/-- `string.ascii_letters` and what else the payloads are drawn from. -/
def characterPool : Str :=
  let letters := "abcdefghijklmnopqrstuvwxyzABCDEFGHIJKLMNOPQRSTUVWXYZ".toList
  let punctuation := [(33, 15), (58, 7), (91, 6), (123, 4)].flatMap fun (r : ℕ × ℕ) =>
    (List.range r.2).map fun i => Char.ofNat (r.1 + i)
  let whitespace := [32, 9, 10, 13, 11, 12].map Char.ofNat
  letters ++ "0123456789".toList ++ "0123456789abcdefABCDEF".toList ++ "01234567".toList ++
    punctuation ++ whitespace

/-- `random.choices(pool, k=k)`, by the numbers that are drawn for it. -/
def choices (pool : Str) (k : ℤ) (draws : ℕ → ℕ) : Str :=
  (List.range k.toNat).filterMap fun i => pool[draws i % pool.length]?

/-- The methods whose requests get a payload. -/
def bodyMethods : List Str := ["POST".toList, "PUT".toList, "PATCH".toList]

theorem contains_bodyMethods_iff (method : Str) :
    bodyMethods.contains method = true ↔ method ∈ bodyMethods := List.contains_iff_mem

instance (method : Str) : Decidable (method ∈ bodyMethods) :=
  decidable_of_iff _ (contains_bodyMethods_iff method)

section Kinds

variable {D S E : Type} (t : ActionType D S E)

/-! ### `DeformHeader` -/

structure DeformHeader where
  headerName : Str
  headerValue : Option Str
  deformationLength : ℤ
  characterPool : Str
  headerMutation : Str

/-- What is given for `character_pool`: a list, or a text, which is no list. -/
inductive Pool
  | strings (strings : List Str)
  | text (s : Str)

namespace DeformHeader

/-- `__init__` -/
def new (headerName : Str) (headerValue : Option Str) (deformationLength : ℤ) (pool : Option Pool)
    (draws : ℕ → ℕ) : Option DeformHeader :=
  let made (pool : Str) : Option DeformHeader :=
    -- nothing can be drawn from nothing
    if pool = [] ∧ 0 < deformationLength then none
    else some ⟨headerName, headerValue, deformationLength, pool, choices pool deformationLength draws⟩
  match pool with
  | some (.text _) => none
  | some (.strings (s :: strings)) => made (s :: strings).flatten
  | some (.strings []) | none => made Mutations.characterPool

/-- `f'{self.header_name} {self.header_mutation}'` -/
def mutatedHeaderName (x : DeformHeader) : Str := x.headerName ++ ' ' :: x.headerMutation

/-- The headers with the deformed one, unless there is none to delete. -/
def deformed (x : DeformHeader) (headers : Dict Str Value) : Option (Dict Str Value) :=
  (headers.get? x.headerName).map fun value =>
    let headerValue := match x.headerValue with
      | some (c :: s) => .text (c :: s)
      | _ => value
    (headers.erase x.headerName).set x.mutatedHeaderName headerValue

/-- `mutate`, behind the roll. -/
def mutate (x : DeformHeader) (a : Action D S E) : Option (Action D S E) :=
  (x.deformed a.headers).bind fun headers =>
    t.setupHeaders { a with headers := headers, headerItems := headers.items }

/-- `copy` -/
def copy (x : DeformHeader) (draws : ℕ → ℕ) : Option DeformHeader :=
  new x.headerName (some x.headerName) x.deformationLength (some (.text x.characterPool)) draws

end DeformHeader

/-! ### `SmuggleRequest` -/

/-- A `str` or `bytes`; a `dict` is none of what the validator takes. -/
inductive Smuggled
  | text (s : Str)
  | bytes (b : Bytes)

def Smuggled.encoded : Smuggled → Bytes
  | .text s => encode s
  | .bytes b => b

structure SmuggleRequest where
  requestSize : Option ℤ
  smuggledRequest : Option Smuggled
  originalData : Option Encoded

/-- `len(encoded_data)` -/
def Encoded.size : Encoded → ℕ
  | .bytes b => b.length
  | .chunks cs => cs.length

/-- `original_data + payload`, which chunks do not allow. -/
def Encoded.join : Encoded → Bytes → Option Encoded
  | .bytes b, payload => some (.bytes (b ++ payload))
  | .chunks _, _ => none

/-- `{header_name.lower(): header_value ...}`.  It is asked for two names in ASCII. -/
def loweredHeaders (headers : Dict Str Value) : Dict Str Value :=
  Dict.ofList (headers.items.map fun item => (item.1.map Char.toLower, item.2))

namespace SmuggleRequest

/-- `__init__`.  Each of the two validators looks the other field up on the class, which has none,
when its own is `None`. -/
def new (requestSize : Option ℤ) (smuggledRequest : Option Smuggled) : Option SmuggleRequest :=
  if requestSize.isSome ∧ smuggledRequest.isSome then some ⟨requestSize, smuggledRequest, none⟩
  else none

/-- `update_headers`, unless there is no data to measure. -/
def updateHeaders (a : Action D S E) : Option (Dict Str Value) :=
  let lowered := loweredHeaders a.headers
  let transferEncoding : List (Str × Value) :=
    if lowered.get? "transfer-encoding".toList = none then
      [("Transfer-Encoding".toList, .text "chunked".toList)] else []
  if lowered.get? "content-type".toList = none then
    a.encodedData.map fun data =>
      Dict.ofList (("Content-Type".toList, .number (Encoded.size data)) :: transferEncoding)
  else some (Dict.ofList transferEncoding)

/-- `_encoded_smuggled_request` -/
def payload (x : SmuggleRequest) (draws : ℕ → ℕ) : Option Bytes :=
  match x.smuggledRequest with
  | some smuggled => some smuggled.encoded
  | none => x.requestSize.map fun k => encode (choices characterPool k draws)

/-- The action with the headers of a request that smuggles. -/
def marked (a : Action D S E) : Option (Action D S E) :=
  (updateHeaders a).map fun update =>
    let headers := a.headers.update update
    { a with headers := headers, headerItems := headers.items }

/-- `mutate`, behind the roll. -/
def mutate (x : SmuggleRequest) (draws : ℕ → ℕ) (a : Action D S E) :
    Option (SmuggleRequest × Action D S E) :=
  if a.method ∉ bodyMethods then some (x, a)
  else do
    let marked ← marked a
    let a' ← t.setupHeaders marked
    let payload ← x.payload draws
    let originalData ← x.originalData.or a'.encodedData
    let encodedData ← Encoded.join originalData payload
    some ({ x with originalData := some originalData }, { a' with encodedData := some encodedData })

/-- `copy` -/
def copy (x : SmuggleRequest) : Option SmuggleRequest := new x.requestSize x.smuggledRequest

end SmuggleRequest

/-! ### `InjectHeader` -/

structure InjectHeader where
  headerName : Str
  headerValue : Value

namespace InjectHeader

/-- `mutate`, behind the roll. -/
def mutate (x : InjectHeader) (a : Action D S E) : Option (Action D S E) :=
  let mutationHeader := (x.headerName, x.headerValue)
  (if mutationHeader ∉ a.headerItems then
      t.setupHeaders { a with headerItems := a.headerItems ++ [mutationHeader] }
    else some a).map fun a => { a with headers := a.headers.set x.headerName x.headerValue }

end InjectHeader

/-! ### `InjectJunkData` -/

structure InjectJunkData where
  junkSize : ℤ
  junkData : Bytes
  originalData : Option Encoded
  junk_drawn : ∃ draws, junkData = encode (choices characterPool junkSize draws)

namespace InjectJunkData

/-- `__init__` -/
def new (junkSize : ℤ) (draws : ℕ → ℕ) : InjectJunkData :=
  ⟨junkSize, encode (choices characterPool junkSize draws), none, draws, rfl⟩

/-- `mutate`, behind the roll. -/
def mutate (x : InjectJunkData) (a : Action D S E) :
    Option (InjectJunkData × Action D S E) :=
  if a.method ∉ bodyMethods then some (x, a)
  else do
    let originalData ← x.originalData.or a.encodedData
    let encodedData ← Encoded.join originalData x.junkData
    let a' ← t.setupData { a with encodedData := some encodedData }
    let a'' ← t.setupHeaders a'
    some ({ x with originalData := some originalData }, a'')

end InjectJunkData

/-! ### `InjectPing` -/

inductive PingType
  | icmp
  | tcp
  | udp
  deriving DecidableEq

namespace PingTypesMap

def get (pingTypeName : Str) : Option PingType :=
  if pingTypeName = "icmp".toList then some .icmp
  else if pingTypeName = "tcp".toList then some .tcp
  else if pingTypeName = "udp".toList then some .udp
  else none

def getName : PingType → Str
  | .icmp => "icmp".toList
  | .tcp => "tcp".toList
  | .udp => "udp".toList

theorem get_getName (p : PingType) : get (getName p) = some p := by
  cases p <;> decide

end PingTypesMap

structure InjectPing where
  pingType : PingType
  timeout : ℤ

namespace InjectPing

/-- `__init__` -/
def new (pingType : Str) (timeout : ℤ) : Option InjectPing :=
  (PingTypesMap.get pingType).map fun p => ⟨p, timeout⟩

/-- `mutate`, behind the roll: what the ping raises is caught, and what it tells is dropped. -/
def mutate (_ : InjectPing) (a : Action D S E) : Action D S E := a

/-- `copy` -/
def copy (x : InjectPing) : Option InjectPing := new (PingTypesMap.getName x.pingType) x.timeout

end InjectPing

end Kinds

/-! ## 2. Rolls and runs -/

inductive Kind
  | deformHeader (x : DeformHeader)
  | smuggleRequest (x : SmuggleRequest)
  | injectHeader (x : InjectHeader)
  | injectJunkData (x : InjectJunkData)
  | injectPing (x : InjectPing)

structure Mutation where
  name : Str
  chance : ℚ
  targets : List Str
  kind : Kind

/-- The random numbers of one call: `random.uniform(0, 1)`, and the ones for a payload. -/
structure Rolls where
  chanceRoll : ℚ
  nonneg : 0 ≤ chanceRoll
  le_one : chanceRoll ≤ 1
  draws : ℕ → ℕ

/-- The payload is the same in every call. -/
def Kind.Fixed : Kind → Prop
  | .smuggleRequest x => x.smuggledRequest.isSome
  | _ => True

section Runs

variable {D S E : Type} (t : ActionType D S E)

/-- What follows the roll: the mutation after it, and the action. -/
def Kind.edit (k : Kind) (draws : ℕ → ℕ) (a : Action D S E) : Option (Kind × Action D S E) :=
  match k with
  | .deformHeader x => (x.mutate t a).map fun a => (.deformHeader x, a)
  | .smuggleRequest x => (x.mutate t draws a).map fun r => (.smuggleRequest r.1, r.2)
  | .injectHeader x => (x.mutate t a).map fun a => (.injectHeader x, a)
  | .injectJunkData x => (x.mutate t a).map fun r => (.injectJunkData r.1, r.2)
  | .injectPing x => some (.injectPing x, x.mutate a)

/-- `mutate`, which begins with the roll in every kind. -/
def mutate (s : Mutation × Action D S E) (rolls : Rolls) : Option (Mutation × Action D S E) :=
  if rolls.chanceRoll ≤ s.1.chance then some s
  else (s.1.kind.edit t rolls.draws s.2).map fun r => ({ s.1 with kind := r.1 }, r.2)

/-- `copy` of each kind. -/
def Kind.copy (draws : ℕ → ℕ) : Kind → Option Kind
  | .deformHeader x => (x.copy draws).map .deformHeader
  | .smuggleRequest x => x.copy.map .smuggleRequest
  | .injectHeader x => some (.injectHeader x)
  | .injectJunkData x => some (.injectJunkData (.new x.junkSize draws))
  | .injectPing x => x.copy.map .injectPing

/-- `copy`, with the name, the chance and the targets of the original. -/
def Mutation.copy (m : Mutation) (draws : ℕ → ℕ) : Option Mutation :=
  (m.kind.copy draws).map fun k => { m with kind := k }

/-- The actions that the calls return, unless one raises. -/
def outputs (m : Mutation) : List (Action D S E × Rolls) → Option (List (Action D S E))
  | [] => some []
  | (a, rolls) :: calls =>
    (mutate t (m, a) rolls).bind fun s => (outputs s.1 calls).map (s.2 :: ·)

/-- **Altered by the roll**: no call of the run raises, and a request is not the action as it was
before the run if and only if its roll is within the chance. -/
def Honest (m : Mutation) (a : Action D S E) (calls : List Rolls) : Prop :=
  (run (mutate t) (m, a) calls).isSome ∧
    Along (mutate t) (fun _ rolls s' => s'.2 ≠ a ↔ rolls.chanceRoll ≤ m.chance) (m, a) calls

/-- **Repeated**: no calls raise, and where the payload is fixed, they leave what any of those that
mutate would have left alone. -/
def Repeats (m : Mutation) (a : Action D S E) : Prop :=
  ∀ calls : List Rolls, ∃ s, run (mutate t) (m, a) calls = some s ∧
    (m.kind.Fixed → ∀ rolls ∈ calls, m.chance < rolls.chanceRoll →
      (mutate t (m, a) rolls).map Prod.snd = some s.2)

end Runs

/-- Two mutations that do the same to every sequence of actions of every type. -/
def Alike (m m' : Mutation) : Prop :=
  ∀ (D S E : Type) (t : ActionType D S E) (calls : List (Action D S E × Rolls)),
    outputs t m calls = outputs t m' calls

/-- **Copied**: every copy is made, and is like its original. -/
def CopiesAlike (m : Mutation) : Prop :=
  ∀ draws, ∃ m', m.copy draws = some m' ∧ Alike m m'

/-! ## 3. What an action carries already -/

/-- A type of its content and a coding are among the headers. -/
def Marked (headers : Dict Str Value) : Prop :=
  (loweredHeaders headers).get? "content-type".toList ≠ none ∧
    (loweredHeaders headers).get? "transfer-encoding".toList ≠ none

theorem lowered_ne_none {headers : Dict Str Value} {name lowered : Str} {value : Value}
    (h : headers.get? name = some value) (hname : name.map Char.toLower = lowered) :
    (loweredHeaders headers).get? lowered ≠ none := by
  refine Option.isSome_iff_ne_none.mp (Dict.isSome_get?_foldl_set (.inl ?_))
  rw [List.map_map, List.mem_map]
  exact ⟨(name, value), (Dict.mem_items_iff _ _ _).mpr h, hname⟩

/-- Headers that are added take nothing away. -/
theorem lowered_update {headers update : Dict Str Value} {lowered : Str}
    (h : (loweredHeaders headers).get? lowered ≠ none) :
    (loweredHeaders (headers.update update)).get? lowered ≠ none := by
  obtain ⟨value, hvalue⟩ := Option.ne_none_iff_exists'.mp h
  obtain ⟨item, hitem, heq⟩ := List.mem_map.mp (Dict.mem_of_get?_ofList hvalue)
  have hget : headers.get? item.1 = some item.2 := (Dict.mem_items_iff _ _ _).mp hitem
  obtain ⟨value', hvalue'⟩ : ∃ value', (headers.update update).get? item.1 = some value' := by
    rw [Dict.get?_update, hget]
    cases update.get? item.1 with
    | none => exact ⟨_, rfl⟩
    | some value' => exact ⟨value', rfl⟩
  exact lowered_ne_none hvalue' (congrArg Prod.fst heq)

theorem Marked.update {headers : Dict Str Value} (h : Marked headers) (update : Dict Str Value) :
    Marked (headers.update update) :=
  ⟨lowered_update h.1, lowered_update h.2⟩

section Idle

variable {D S E : Type} {t : ActionType D S E} {a b : Action D S E}

open SmuggleRequest (updateHeaders marked)

/-- **A smuggled request is marked.** -/
theorem marked_headers (h : marked a = some b) : Marked b.headers := by
  obtain ⟨update, hupdate, rfl⟩ := Option.map_eq_some_iff.mp h
  change Marked (a.headers.update update)
  have hget : ∀ name lowered : Str, name.map Char.toLower = lowered →
      ((loweredHeaders a.headers).get? lowered = none → (update.get? name).isSome) →
      (loweredHeaders (a.headers.update update)).get? lowered ≠ none := by
    intro name lowered hname hnew
    by_cases hold : (loweredHeaders a.headers).get? lowered = none
    · obtain ⟨value, hvalue⟩ := Option.isSome_iff_exists.mp (hnew hold)
      have hupdated : (a.headers.update update).get? name = some value := by
        rw [Dict.get?_update, hvalue]
        rfl
      exact lowered_ne_none hupdated hname
    · exact lowered_update hold
  refine ⟨hget "Content-Type".toList _ (by decide) fun hold => ?_,
    hget "Transfer-Encoding".toList _ (by decide) fun hold => ?_⟩
  · unfold updateHeaders at hupdate
    dsimp only at hupdate
    rw [if_pos hold] at hupdate
    obtain ⟨data, -, rfl⟩ := Option.map_eq_some_iff.mp hupdate
    exact Dict.isSome_get?_foldl_set (.inl List.mem_cons_self)
  · unfold updateHeaders at hupdate
    dsimp only at hupdate
    rw [if_pos hold] at hupdate
    split at hupdate
    · obtain ⟨data, -, rfl⟩ := Option.map_eq_some_iff.mp hupdate
      exact Dict.isSome_get?_foldl_set (.inl (List.mem_cons_of_mem _ List.mem_cons_self))
    · obtain rfl := Option.some.inj hupdate
      exact Dict.isSome_get?_foldl_set (.inl List.mem_cons_self)

/-- Nothing is marked twice. -/
theorem marked_of_marked (h : Marked a.headers) :
    marked a = some { a with headerItems := a.headers.items } := by
  have hupdate : updateHeaders a = some Dict.empty := by
    unfold updateHeaders
    dsimp only
    rw [if_neg h.1, if_neg h.2]
    rfl
  rw [marked, hupdate]
  rfl

/-- The marks are headers, and no data. -/
theorem encodedData_of_marked {a' : Action D S E} (hb : marked a = some b)
    (ha' : t.setupHeaders b = some a') : a'.encodedData = a.encodedData := by
  obtain ⟨update, -, rfl⟩ := Option.map_eq_some_iff.mp hb
  exact (ActionType.headersSet ha').encodedData

theorem method_of_marked {a' : Action D S E} (hb : marked a = some b)
    (ha' : t.setupHeaders b = some a') : a'.method = a.method := by
  obtain ⟨update, -, rfl⟩ := Option.map_eq_some_iff.mp hb
  exact (ActionType.headersSet ha').method

theorem marked_setup {a' : Action D S E} (hb : marked a = some b)
    (ha' : t.setupHeaders b = some a') : Marked a'.headers := by
  rw [(ActionType.headersSet ha').headers]
  exact (marked_headers hb).update t.own

/-- What smuggling takes, step by step. -/
theorem smuggleRequest_mutate_iff {x x' : SmuggleRequest} {draws : ℕ → ℕ} {a₁ : Action D S E}
    (hmethod : a.method ∈ bodyMethods) : x.mutate t draws a = some (x', a₁) ↔
      ∃ b a' originalData payload data, marked a = some b ∧ t.setupHeaders b = some a' ∧
        x.originalData.or a.encodedData = some originalData ∧ x.payload draws = some payload ∧
        Encoded.join originalData payload = some data ∧
        x' = { x with originalData := some originalData } ∧
        a₁ = { a' with encodedData := some data } := by
  rw [SmuggleRequest.mutate, if_neg (not_not.mpr hmethod)]
  simp only [Option.bind_eq_bind, Option.bind_eq_some_iff, Option.some.injEq, Prod.mk.injEq]
  constructor
  · rintro ⟨b, hb, a', ha', payload, hpayload, originalData, horiginal, data, hdata, hx, ha⟩
    rw [encodedData_of_marked hb ha'] at horiginal
    exact ⟨b, a', originalData, payload, data, hb, ha', horiginal, hpayload, hdata, hx.symm, ha.symm⟩
  · rintro ⟨b, a', originalData, payload, data, hb, ha', horiginal, hpayload, hdata, hx, ha⟩
    rw [← encodedData_of_marked hb ha'] at horiginal
    exact ⟨b, hb, a', ha', payload, hpayload, originalData, horiginal, data, hdata, hx.symm, ha.symm⟩

/-- What injecting junk takes. -/
theorem injectJunkData_mutate_iff {x x' : InjectJunkData} {a₁ : Action D S E}
    (hmethod : a.method ∈ bodyMethods) : x.mutate t a = some (x', a₁) ↔
      ∃ b originalData data, x.originalData.or a.encodedData = some originalData ∧
        Encoded.join originalData x.junkData = some data ∧
        t.setupData { a with encodedData := some data } = some b ∧ t.setupHeaders b = some a₁ ∧
        x' = { x with originalData := some originalData } := by
  rw [InjectJunkData.mutate, if_neg (not_not.mpr hmethod)]
  simp only [Option.bind_eq_bind, Option.bind_eq_some_iff, Option.some.injEq, Prod.mk.injEq]
  constructor
  · rintro ⟨originalData, horiginal, data, hdata, b, hb, a', ha', hx, rfl⟩
    exact ⟨b, originalData, data, horiginal, hdata, hb, ha', hx.symm⟩
  · rintro ⟨b, originalData, data, horiginal, hdata, hb, ha', hx⟩
    exact ⟨originalData, horiginal, data, hdata, b, hb, a₁, ha', hx.symm, rfl⟩

/-- The headers written once more are the ones that are there. -/
theorem setupHeaders_eq_self_iff {headers : Dict Str Value} {items : List (Str × Value)} :
    t.setupHeaders { a with headers := headers, headerItems := items } = some a ↔
      items = a.headerItems ∧ headers.update t.own = a.headers ∧ t.Settled a := by
  have hcongr : headers.update t.own = a.headers → items = a.headerItems →
      t.setupHeaders { a with headers := headers, headerItems := items } = t.setupHeaders a := by
    rintro hheaders rfl
    refine (ActionType.setupHeaders_congr ?_ rfl).symm
    change headers.update t.own = a.headers.update t.own
    rw [← hheaders, Dict.update_update]
  constructor
  · intro h
    have hset := ActionType.headersSet h
    have hitems : items = a.headerItems := hset.headerItems.symm
    have hheaders : headers.update t.own = a.headers := hset.headers.symm
    exact ⟨hitems, hheaders, (hcongr hheaders hitems).symm.trans h⟩
  · rintro ⟨hitems, hheaders, hsettled⟩
    exact (hcongr hheaders hitems).trans hsettled

variable (t)

/-- **Idle**: there is nothing that the mutation would change. -/
def Idle (k : Kind) (draws : ℕ → ℕ) (a : Action D S E) : Prop :=
  match k with
  -- only a type that writes the header back itself has it to deform again
  | .deformHeader x => ∃ headers, x.deformed a.headers = some headers ∧
      headers.items = a.headerItems ∧ headers.update t.own = a.headers ∧ t.Settled a
  | .smuggleRequest x => a.method ∈ bodyMethods → Marked a.headers ∧
      a.headerItems = a.headers.items ∧ t.Settled a ∧ ∃ originalData payload data,
        x.originalData.or a.encodedData = some originalData ∧ x.payload draws = some payload ∧
        Encoded.join originalData payload = some data ∧ a.encodedData = some data
  | .injectHeader x =>
    (x.headerName, x.headerValue) ∈ a.headerItems ∧ a.headers.get? x.headerName = some x.headerValue
  | .injectJunkData x => a.method ∈ bodyMethods → t.Settled a ∧ ∃ originalData data e,
      x.originalData.or a.encodedData = some originalData ∧
      Encoded.join originalData x.junkData = some data ∧
      t.encodeData a.source = some (e, a.source) ∧ e.or (some data) = a.encodedData
  | .injectPing _ => True

variable {t}

theorem deformHeader_idle_iff {x : DeformHeader} :
    x.mutate t a = some a ↔ Idle t (.deformHeader x) (fun _ => 0) a := by
  rw [DeformHeader.mutate, Option.bind_eq_some_iff]
  simp only [setupHeaders_eq_self_iff]
  rfl

theorem injectHeader_idle_iff {x : InjectHeader} :
    x.mutate t a = some a ↔ Idle t (.injectHeader x) (fun _ => 0) a := by
  rw [InjectHeader.mutate, Option.map_eq_some_iff]
  dsimp only [Idle]
  split
  · next hnot =>
    constructor
    · rintro ⟨a', ha', heq⟩
      have hitems : a'.headerItems = a.headerItems ++ [(x.headerName, x.headerValue)] :=
        (ActionType.headersSet ha').headerItems
      rw [← heq] at hnot
      change _ ∉ a'.headerItems at hnot
      rw [hitems] at hnot
      exact absurd (List.mem_append_right _ List.mem_cons_self) hnot
    · exact fun h => absurd h.1 hnot
  · next hmem =>
    rw [not_not] at hmem
    constructor
    · rintro ⟨a', ha', heq⟩
      obtain rfl := Option.some.inj ha'
      exact ⟨hmem, (Dict.set_eq_self_iff _ _ _).mp (congrArg Action.headers heq)⟩
    · rintro ⟨-, hget⟩
      refine ⟨a, rfl, ?_⟩
      rw [(Dict.set_eq_self_iff _ _ _).mpr hget]

theorem smuggleRequest_idle_iff {x : SmuggleRequest} {draws : ℕ → ℕ} :
    (∃ x', x.mutate t draws a = some (x', a)) ↔ Idle t (.smuggleRequest x) draws a := by
  by_cases hmethod : a.method ∈ bodyMethods
  · simp only [smuggleRequest_mutate_iff hmethod, Idle, hmethod, true_imp_iff]
    constructor
    · rintro ⟨x', b, a', originalData, payload, data, hb, ha', horiginal, hpayload, hdata, -, heq⟩
      have hself : a.encodedData = some data := congrArg Action.encodedData heq
      have haa : a' = a := by
        rw [heq, ← (encodedData_of_marked hb ha').trans hself]
      obtain ⟨update, -, hb'⟩ := Option.map_eq_some_iff.mp hb
      rw [haa, ← hb', setupHeaders_eq_self_iff] at ha'
      obtain ⟨hitems, hheaders, hsettled⟩ := ha'
      have hmarked : Marked a.headers := hheaders ▸ (hb' ▸ marked_headers hb).update t.own
      rw [marked_of_marked hmarked] at hb
      have hsame := (congrArg Action.headerItems (Option.some.inj hb)).trans
        (congrArg Action.headerItems hb').symm
      exact ⟨hmarked, (hsame.trans hitems).symm, hsettled, originalData, payload, data, horiginal,
        hpayload, hdata, hself⟩
    · rintro ⟨hmarked, hitems, hsettled, originalData, payload, data, horiginal, hpayload, hdata,
        hself⟩
      refine ⟨_, a, a, originalData, payload, data, ?_, hsettled, horiginal, hpayload, hdata, rfl, ?_⟩
      · rw [marked_of_marked hmarked, ← hitems]
      · rw [← hself]
  · unfold SmuggleRequest.mutate
    rw [if_pos hmethod]
    exact ⟨fun _ h => absurd h hmethod, fun _ => ⟨x, rfl⟩⟩

theorem injectJunkData_idle_iff {x : InjectJunkData} :
    (∃ x', x.mutate t a = some (x', a)) ↔ Idle t (.injectJunkData x) (fun _ => 0) a := by
  by_cases hmethod : a.method ∈ bodyMethods
  · simp only [injectJunkData_mutate_iff hmethod, Idle, hmethod, true_imp_iff]
    constructor
    · rintro ⟨x', b, originalData, data, horiginal, hdata, hb, ha, -⟩
      obtain ⟨⟨e, d⟩, he, rfl⟩ := Option.map_eq_some_iff.mp hb
      have hset := ActionType.headersSet ha
      have hsource : d = a.source := hset.source.symm
      have hencoded : e.or (some data) = a.encodedData := hset.encodedData.symm
      subst hsource
      rw [hencoded] at ha
      exact ⟨ha, originalData, data, e, horiginal, hdata, he, hencoded⟩
    · rintro ⟨hsettled, originalData, data, e, horiginal, hdata, he, hencoded⟩
      refine ⟨_, a, originalData, data, horiginal, hdata, ?_, hsettled, rfl⟩
      rw [ActionType.setupData]
      dsimp only
      rw [he, Option.map_some, hencoded]
  · unfold InjectJunkData.mutate
    rw [if_pos hmethod]
    exact ⟨fun _ h => absurd h hmethod, fun _ => ⟨x, rfl⟩⟩

/-! ### The kinds, by what they are made of -/

variable {k' : Kind} {a' : Action D S E} {draws : ℕ → ℕ}

theorem edit_deformHeader {x : DeformHeader} :
    (Kind.deformHeader x).edit t draws a = some (k', a') ↔
      .deformHeader x = k' ∧ x.mutate t a = some a' := by
  simp only [Kind.edit, Option.map_eq_some_iff, Prod.mk.injEq]
  exact ⟨fun ⟨_, h, hk, heq⟩ => ⟨hk, heq ▸ h⟩, fun ⟨hk, h⟩ => ⟨a', h, hk, rfl⟩⟩

theorem edit_injectHeader {x : InjectHeader} :
    (Kind.injectHeader x).edit t draws a = some (k', a') ↔
      .injectHeader x = k' ∧ x.mutate t a = some a' := by
  simp only [Kind.edit, Option.map_eq_some_iff, Prod.mk.injEq]
  exact ⟨fun ⟨_, h, hk, heq⟩ => ⟨hk, heq ▸ h⟩, fun ⟨hk, h⟩ => ⟨a', h, hk, rfl⟩⟩

theorem edit_smuggleRequest {x : SmuggleRequest} :
    (Kind.smuggleRequest x).edit t draws a = some (k', a') ↔
      ∃ x', .smuggleRequest x' = k' ∧ x.mutate t draws a = some (x', a') := by
  simp only [Kind.edit, Option.map_eq_some_iff, Prod.mk.injEq]
  exact ⟨fun ⟨r, h, hk, heq⟩ => ⟨r.1, hk, heq ▸ h⟩, fun ⟨x', hk, h⟩ => ⟨(x', a'), h, hk, rfl⟩⟩

theorem edit_injectJunkData {x : InjectJunkData} :
    (Kind.injectJunkData x).edit t draws a = some (k', a') ↔
      ∃ x', .injectJunkData x' = k' ∧ x.mutate t a = some (x', a') := by
  simp only [Kind.edit, Option.map_eq_some_iff, Prod.mk.injEq]
  exact ⟨fun ⟨r, h, hk, heq⟩ => ⟨r.1, hk, heq ▸ h⟩, fun ⟨x', hk, h⟩ => ⟨(x', a'), h, hk, rfl⟩⟩

/-- **A mutation leaves an action as it is where it is idle.** -/
theorem edit_eq_self_iff {k : Kind} : (∃ k', k.edit t draws a = some (k', a)) ↔ Idle t k draws a := by
  cases k with
  | deformHeader x =>
    simp only [edit_deformHeader, exists_eq_left']
    exact deformHeader_idle_iff
  | smuggleRequest x =>
    rw [← smuggleRequest_idle_iff]
    simp only [edit_smuggleRequest]
    exact ⟨fun ⟨_, x', _, h⟩ => ⟨x', h⟩, fun ⟨x', h⟩ => ⟨_, x', rfl, h⟩⟩
  | injectHeader x =>
    simp only [edit_injectHeader, exists_eq_left']
    exact injectHeader_idle_iff
  | injectJunkData x =>
    refine Iff.trans ?_ injectJunkData_idle_iff
    simp only [edit_injectJunkData]
    exact ⟨fun ⟨_, x', _, h⟩ => ⟨x', h⟩, fun ⟨x', h⟩ => ⟨_, x', rfl, h⟩⟩
  | injectPing x => exact ⟨fun _ => trivial, fun _ => ⟨_, rfl⟩⟩

end Idle

end Mutations
end Experiments
end Hedra
