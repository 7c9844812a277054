/-
# What a handler sees of a request

A `Request` keeps the lines it came in, and computes its views when a handler, a middleware or the
rule of a limit asks for them.  The views share what they keep: the headers find the line at which
the content begins, and the content is taken from the last line as long as nobody read the headers.

A request is steady where the lines of its content are its last line, where JSON is announced of
what is JSON, and where its parameters are pairs.  `Limit.matches` goes by the last of its rules, and
is the conjunction of them where they agree.

Views and their state are those of `distributed/models/http/request.py`; the rules are those of
`distributed/models/http/limit.py`.

* `steady_iff_settled`: which requests are steady;
* `Limit.orderFree_iff_agreed`: of a steady request, which limits do not go by the order of their
  rules;
* `orderFree_iff`: both together, over every order of reading.
-/
import Hedra.Lib.LastWrite
import Hedra.Lib.Utf8
import Hedra.Lib.Views
import Hedra.Connection.HttpMessage

namespace Hedra
namespace RequestViews

open Lib
open Http (Str splitColon strip isSpace)
open Views (after Steady Reader)

abbrev Bytes := List UInt8

/-! ## 1. The request -/

/-- What requests rest on: `V` is what there is in JSON besides `null`, `E` what is raised. -/
structure Stdlib (V E : Type) where
  lower : Str → Str
  /-- `json.loads`, with `none` for `None` -/
  loads : Bytes → Except E (Option V)
  isDict : V → Bool
  /-- names and values of `SimpleCookie.load` -/
  cookies : Str → Except E (Dict Str Str)

inductive ViewError (E : Type)
  | valueError
  | unicodeDecodeError
  | attributeError
  | raised (e : E)
deriving DecidableEq

/-- `_data`, where it is not `None`. -/
inductive Datum (V : Type)
  | bytes (b : Bytes)
  | value (v : V)
deriving DecidableEq

/-- What the views keep in a request. -/
structure Kept (V : Type) where
  headers : Dict Str Str := .empty
  params : Dict Str Str := .empty
  content : Option Bytes := none
  data : Option (Datum V) := none
  dataLineIdx : ℤ := -1
  cookies : Option (Dict Str Str) := none

/-- A request, with models `M`. -/
structure Request (V M E : Type) where
  query : Option Str
  raw : List Bytes
  model : Option (V → Except E M)
  kept : Kept V := {}

/-- What a view gives. -/
inductive Seen (V M : Type)
  | fields (d : Dict Str Str)
  | content (b : Bytes)
  | body (d : Option (Datum V))
  | model (m : M)
deriving DecidableEq

inductive View
  | headers
  | cookies
  | params
  | content
  | body
  | data
deriving DecidableEq

def cookie : Str := "cookie".toList

def contentType : Str := "content-type".toList

def applicationJson : Str := "application/json".toList

/-- `bytes.strip` -/
def stripBytes (b : Bytes) : Bytes :=
  let space (x : UInt8) : Bool := x.toNat ∈ [9, 10, 11, 12, 13, 32]
  (b.dropWhile space).rdropWhile space

/-- `raw[idx:]` -/
def linesFrom (raw : List Bytes) (idx : ℤ) : List Bytes :=
  raw.drop (if idx < 0 then (raw.length + idx).toNat else idx.toNat)

variable {V M E A : Type}

/-- The loop over the header lines: the headers so far, and how many lines there were. -/
def readHeaders (lib : Stdlib V E) (headers : Dict Str Str) (dataLineIdx : ℕ) :
    List Bytes → Dict Str Str × Except (ViewError E) ℕ
  | [] => (headers, .ok dataLineIdx)
  | line :: lines =>
    if line = [] then (headers, .ok (dataLineIdx + 1))
    else
      match Utf8.decode line with
      | none => (headers, .error .unicodeDecodeError)
      | some text =>
        match splitColon text with
        | none => (headers, .error .valueError)
        | some (key, value) =>
          readHeaders lib (headers.set (lib.lower key) (strip isSpace value)) (dataLineIdx + 1) lines

/-- The loop over the parameters. -/
def readParams (params : Dict Str Str) : List Str → Dict Str Str × Except (ViewError E) Unit
  | [] => (params, .ok ())
  | param :: rest =>
    match param.splitOn '=' with
    | [key, value] => readParams (params.set key value) rest
    | _ => (params, .error .valueError)

namespace Request

def headers (lib : Stdlib V E) (r : Request V M E) :
    Except (ViewError E) (Dict Str Str) × Request V M E :=
  if r.kept.dataLineIdx = -1 then
    match readHeaders lib r.kept.headers 0 r.raw.tail with
    | (d, .ok dataLineIdx) =>
      (.ok d, { r with kept := { r.kept with headers := d, dataLineIdx := dataLineIdx + 1 } })
    | (d, .error e) => (.error e, { r with kept := { r.kept with headers := d } })
  else (.ok r.kept.headers, r)

def cookies (lib : Stdlib V E) (r : Request V M E) :
    Except (ViewError E) (Dict Str Str) × Request V M E :=
  match r.headers lib with
  | (.error e, r) => (.error e, r)
  | (.ok headers, r) =>
    match r.kept.cookies with
    | some d => (.ok d, r)
    | none =>
      match (headers.get? cookie).getD [] with
      | [] => (.ok .empty, { r with kept := { r.kept with cookies := some .empty } })
      | c :: cs =>
        match lib.cookies (c :: cs) with
        | .ok d => (.ok d, { r with kept := { r.kept with cookies := some d } })
        -- `_cookies` was set before
        | .error e => (.error (.raised e), { r with kept := { r.kept with cookies := some .empty } })

def params (r : Request V M E) : Except (ViewError E) (Dict Str Str) × Request V M E :=
  if r.kept.params.items.length < 1 then
    match r.query with
    | none => (.error .attributeError, r)
    | some query =>
      let (d, result) := readParams r.kept.params (query.splitOn '&')
      (result.map fun _ => d, { r with kept := { r.kept with params := d } })
  else (.ok r.kept.params, r)

def content (r : Request V M E) : Bytes × Request V M E :=
  match r.kept.content with
  | some b => (b, r)
  | none =>
    let b := stripBytes (linesFrom r.raw r.kept.dataLineIdx).flatten
    (b, { r with kept := { r.kept with content := some b } })

def body (lib : Stdlib V E) (r : Request V M E) :
    Except (ViewError E) (Option (Datum V)) × Request V M E :=
  match r.headers lib with
  | (.error e, r) => (.error e, r)
  | (.ok headers, r) =>
    match r.kept.data with
    | some d => (.ok (some d), r)
    | none =>
      let (b, r) := r.content
      if headers.get? contentType = some applicationJson then
        match lib.loads b with
        | .ok v =>
          (.ok (v.map .value), { r with kept := { r.kept with data := v.map .value } })
        -- `_data` is the content by then
        | .error e =>
          (.error (.raised e), { r with kept := { r.kept with data := some (.bytes b) } })
      else (.ok (some (.bytes b)), { r with kept := { r.kept with data := some (.bytes b) } })

/-- What `data` makes of the body. -/
def shaped (lib : Stdlib V E) (model : Option (V → Except E M)) (d : Option (Datum V)) :
    Except (ViewError E) (Seen V M) :=
  match d, model with
  | some (.value v), some m =>
    if lib.isDict v then ((m v).map .model).mapError .raised else .ok (.body d)
  | _, _ => .ok (.body d)

def data (lib : Stdlib V E) (r : Request V M E) :
    Except (ViewError E) (Seen V M) × Request V M E :=
  match r.body lib with
  | (.error e, r) => (.error e, r)
  | (.ok d, r) => (shaped lib r.model d, r)

def access (lib : Stdlib V E) : View → Request V M E → Except (ViewError E) (Seen V M) × Request V M E
  | .headers, r => (r.headers lib).map (·.map .fields) id
  | .cookies, r => (r.cookies lib).map (·.map .fields) id
  | .params, r => r.params.map (·.map .fields) id
  | .content, r => r.content.map (fun b => .ok (.content b)) id
  | .body, r => (r.body lib).map (·.map .body) id
  | .data, r => r.data lib

end Request

/-- What the rules of a limit ask, and answer. -/
abbrev Rule (V M E A : Type) := A → Reader View (Except (ViewError E) (Seen V M)) Bool

structure Limit (V M E A : Type) where
  rules : Option (List (Rule V M E A))

/-- The loop over the rules. -/
def runRules (lib : Stdlib V E) (ip : A) (matchesRules : Bool) :
    List (Rule V M E A) → Request V M E → Bool × Request V M E
  | [], r => (matchesRules, r)
  | rule :: rules, r =>
    let (matchesRules, r) := (rule ip).run (Request.access lib) r
    runRules lib ip matchesRules rules r

def Limit.matches (lib : Stdlib V E) (l : Limit V M E A) (r : Request V M E) (ip : A) :
    Bool × Request V M E :=
  match l.rules with
  | none => (true, r)
  | some rules => runRules lib ip false rules r

/-! ## 2. What is asked of them -/

/-- What a rule says of a request that nobody has looked at. -/
def verdict (lib : Stdlib V E) (r : Request V M E) (ip : A) (rule : Rule V M E A) : Bool :=
  ((rule ip).run (Request.access lib) r).1

/-- However the rules are listed, the decision is the same, and none of them fails where the limit
matches. -/
structure Limit.OrderFree (lib : Stdlib V E) (l : Limit V M E A) (r : Request V M E) (ip : A) :
    Prop where
  perm : ∀ rules rules', l.rules = some rules → rules'.Perm rules →
    (Limit.matches lib ⟨some rules'⟩ r ip).1 = (l.matches lib r ip).1
  fails : ∀ rules, l.rules = some rules → (∃ rule ∈ rules, verdict lib r ip rule = false) →
    (l.matches lib r ip).1 = false

/-- The views of a request and the decision of a limit about it do not depend on an order. -/
structure OrderFree (lib : Stdlib V E) (l : Limit V M E A) (r : Request V M E) (ip : A) : Prop where
  views : Steady (Request.access lib) r
  rules : l.OrderFree lib r ip

/-- The lines of the headers. -/
def headLines (raw : List Bytes) : List Bytes := raw.tail.takeWhile (· ≠ [])

/-- The lines behind the headers. -/
def bodyLines (raw : List Bytes) : List Bytes := (raw.tail.dropWhile (· ≠ [])).tail

/-- The name and the value of a header line. -/
def field (line : Bytes) : Option (Str × Str) := (Utf8.decode line).bind splitColon

/-- The value of the last header of that name. -/
def given (lib : Stdlib V E) (name : Str) (lines : List Bytes) : Option Str :=
  (lastWith (fun f => lib.lower f.1) (lines.filterMap field) name).map fun f => strip isSpace f.2

/-- `key=value` -/
def IsPair (param : Str) : Prop := (param.splitOn '=').length = 2

/-- If the first parameter is a pair, every one is. -/
def PairsOrNone (query : Str) : Prop :=
  (∀ param ∈ (query.splitOn '&').head?, IsPair param) → ∀ param ∈ query.splitOn '&', IsPair param

/-- The content is the last line, and what its headers announce can be read. -/
structure AsAnnounced (lib : Stdlib V E) (raw : List Bytes) : Prop where
  content : stripBytes (bodyLines raw).flatten = stripBytes (raw.getLast?.getD [])
  json : given lib contentType (headLines raw) = some applicationJson →
    ∃ v, lib.loads (stripBytes (bodyLines raw).flatten) = .ok v
  cookies : ∀ c, given lib cookie (headLines raw) = some c → c ≠ [] → ∃ d, lib.cookies c = .ok d

/-- A request whose views share nothing that differs. -/
structure Settled (lib : Stdlib V E) (query : Option Str) (raw : List Bytes) : Prop where
  params : ∀ q, query = some q → PairsOrNone q
  announced : (∀ line ∈ headLines raw, (field line).isSome) → AsAnnounced lib raw

/-- The rules say the same of the request. -/
def Limit.Agreed (lib : Stdlib V E) (l : Limit V M E A) (r : Request V M E) (ip : A) : Prop :=
  ∀ rules, l.rules = some rules → ∀ rule ∈ rules, ∀ rule' ∈ rules,
    verdict lib r ip rule = verdict lib r ip rule'

/-! ## 3. Rules -/

variable {lib : Stdlib V E} {r : Request V M E} {ip : A}

/-- The last rule decides. -/
theorem runRules_eq (h : Steady (Request.access lib) r) (b : Bool) (rules : List (Rule V M E A))
    (vs : List View) : (runRules lib ip b rules (after (Request.access lib) r vs)).1 =
      ((rules.getLast?).map (verdict lib r ip)).getD b := by
  induction rules generalizing b vs with
  | nil => rfl
  | cons rule rules ih =>
    obtain ⟨us, hus⟩ : ∃ us, ((rule ip).run (Request.access lib)
        (after (Request.access lib) r vs)).2 =
          after (Request.access lib) (after (Request.access lib) r vs) us := (rule ip).exists_after _
    have hrun : runRules lib ip b (rule :: rules) (after (Request.access lib) r vs) =
        runRules lib ip (((rule ip).run (Request.access lib) (after (Request.access lib) r vs)).1)
          rules (after (Request.access lib) r (vs ++ us)) := by
      rw [Views.after_append, ← hus]
      rfl
    rw [hrun, ih, (rule ip).run_after h vs]
    cases rules with
    | nil => rfl
    | cons rule' rules => rw [List.getLast?_cons_cons]; rfl

theorem Limit.matches_eq (h : Steady (Request.access lib) r) (rules : List (Rule V M E A)) :
    (Limit.matches lib ⟨some rules⟩ r ip).1 = ((rules.getLast?).map (verdict lib r ip)).getD false :=
  runRules_eq h false rules []

/-- **A limit is order-free of a steady request where its rules agree.** -/
theorem Limit.orderFree_iff_agreed (h : Steady (Request.access lib) r) (l : Limit V M E A) :
    l.OrderFree lib r ip ↔ l.Agreed lib r ip := by
  obtain ⟨_ | rules⟩ := l
  · exact ⟨fun _ _ hnone => (nomatch hnone), fun _ => ⟨fun _ _ hnone => (nomatch hnone),
      fun _ hnone => (nomatch hnone)⟩⟩
  constructor
  · -- each rule can be the last one
    rintro ⟨hperm, -⟩ _ ⟨⟩
    have hlast : ∀ rule ∈ rules, verdict lib r ip rule = (Limit.matches lib ⟨some rules⟩ r ip).1 := by
      intro rule hrule
      obtain ⟨s, t, rfl⟩ := List.append_of_mem hrule
      have hmoved : (s ++ t ++ [rule]).Perm (s ++ rule :: t) := by
        rw [List.append_assoc]
        exact List.Perm.append_left s List.perm_append_comm
      rw [← hperm _ _ rfl hmoved, matches_eq h, List.getLast?_concat]
      rfl
    intro rule hrule rule' hrule'
    rw [hlast rule hrule, hlast rule' hrule']
  · intro hagreed
    have hany : ∀ rules', List.Perm rules' rules → ∀ rule ∈ rules,
        (Limit.matches lib ⟨some rules'⟩ r ip).1 = verdict lib r ip rule := by
      intro rules' hperm rule hrule
      obtain ⟨rule', hrule'⟩ : ∃ rule', rules'.getLast? = some rule' :=
        Option.ne_none_iff_exists'.mp fun hnil =>
          List.ne_nil_of_mem (hperm.mem_iff.mpr hrule) (List.getLast?_eq_none_iff.mp hnil)
      have hmem : rule' ∈ rules := hperm.mem_iff.mp (List.mem_of_getLast? hrule')
      rw [matches_eq h, hrule']
      exact hagreed rules rfl rule' hmem rule hrule
    constructor
    · rintro _ rules' ⟨⟩ hperm
      cases hrules : rules with
      | nil =>
        subst hrules
        rw [List.perm_nil.mp hperm]
      | cons rule rest =>
        have hrule : rule ∈ rules := hrules ▸ List.mem_cons_self
        rw [hany rules' hperm rule hrule, ← hrules, hany rules (List.Perm.refl rules) rule hrule]
    · rintro _ ⟨⟩ ⟨rule, hrule, hfalse⟩
      rw [hany rules (List.Perm.refl rules) rule hrule, hfalse]

/-! ## 4. The lines of a request -/

theorem given_cons (lib : Stdlib V E) (name : Str) {line : Bytes} {f : Str × Str} (h : field line = some f)
    (lines : List Bytes) : given lib name (line :: lines) =
      (given lib name lines).or (if lib.lower f.1 = name then some (strip isSpace f.2) else none) := by
  rw [given, List.filterMap_cons_some h, lastWith_cons, given]
  cases lastWith (fun f => lib.lower f.1) (lines.filterMap field) name with
  | some g => rfl
  | none => split <;> rfl

variable (lib) in
/-- Where every line is a header line, the loop finds the content, and the last value of each
name. -/
theorem readHeaders_ok {lines : List Bytes}
    (h : ∀ line ∈ lines.takeWhile (· ≠ []), (field line).isSome) (d : Dict Str Str) (k : ℕ) :
    ∃ d' n, readHeaders lib d k lines = (d', .ok (k + n)) ∧
      lines.drop n = (lines.dropWhile (· ≠ [])).tail ∧
      ∀ name, d'.get? name = (given lib name (lines.takeWhile (· ≠ []))).or (d.get? name) := by
  induction lines generalizing d k with
  | nil => exact ⟨d, 0, rfl, rfl, fun name => rfl⟩
  | cons line lines ih =>
    by_cases hline : line = []
    · subst hline
      exact ⟨d, 1, by rw [readHeaders, if_pos rfl], by simp, fun name => by simp [given]⟩
    · have htake : (line :: lines).takeWhile (· ≠ []) = line :: lines.takeWhile (· ≠ []) :=
        List.takeWhile_cons_of_pos (by simpa using hline)
      have hdrop : (line :: lines).dropWhile (· ≠ []) = lines.dropWhile (· ≠ []) :=
        List.dropWhile_cons_of_pos (by simpa using hline)
      rw [htake] at h ⊢
      obtain ⟨⟨key, value⟩, hfield⟩ := Option.isSome_iff_exists.mp (h line List.mem_cons_self)
      obtain ⟨text, htext, hcolon⟩ := Option.bind_eq_some_iff.mp hfield
      obtain ⟨d', n, hread, hbehind, hget⟩ := ih (fun l hl => h l (List.mem_cons_of_mem _ hl))
        (d.set (lib.lower key) (strip isSpace value)) (k + 1)
      refine ⟨d', n + 1, ?_, ?_, fun name => ?_⟩
      · rw [readHeaders, if_neg hline, htext]
        simp only [hcolon, hread]
        rw [Nat.add_assoc, Nat.add_comm 1 n]
      · rw [List.drop_succ_cons, hbehind, hdrop]
      · rw [hget, given_cons lib name hfield, Dict.get?_set, Option.or_assoc]
        by_cases hname : name = lib.lower key
        · rw [if_pos hname, if_pos hname.symm]
          rfl
        · rw [if_neg hname, if_neg (Ne.symm hname)]
          rfl

variable (lib) in
/-- Where some line is not, the loop raises the same from any headers. -/
theorem readHeaders_error {lines : List Bytes}
    (h : ¬ ∀ line ∈ lines.takeWhile (· ≠ []), (field line).isSome) :
    ∃ e, ∀ (d : Dict Str Str) (k : ℕ), (readHeaders lib d k lines).2 = .error e := by
  induction lines with
  | nil => exact absurd (fun _ hl => absurd hl List.not_mem_nil) h
  | cons line lines ih =>
    by_cases hline : line = []
    · subst hline
      exact absurd (by simp) h
    have htake : (line :: lines).takeWhile (· ≠ []) = line :: lines.takeWhile (· ≠ []) :=
      List.takeWhile_cons_of_pos (by simpa using hline)
    rw [htake, List.forall_mem_cons] at h
    cases htext : Utf8.decode line with
    | none => exact ⟨.unicodeDecodeError, fun d k => by rw [readHeaders, if_neg hline, htext]⟩
    | some text =>
      cases hcolon : splitColon text with
      | none =>
        exact ⟨.valueError, fun d k => by rw [readHeaders, if_neg hline, htext]; simp only [hcolon]⟩
      | some f =>
        have hfield : field line = some f := by rw [field, htext, Option.bind_some, hcolon]
        obtain ⟨e, he⟩ := ih fun hrest => h ⟨by rw [hfield]; rfl, hrest⟩
        refine ⟨e, fun d k => ?_⟩
        rw [readHeaders, if_neg hline, htext]
        simp only [hcolon]
        exact he _ _

theorem linesFrom_succ (raw : List Bytes) (n : ℕ) : linesFrom raw (n + 1) = raw.tail.drop n := by
  rw [linesFrom, if_neg (by omega), ← List.drop_one, List.drop_drop]
  congr 1
  omega

/-- The last line, where the headers were not read. -/
theorem linesFrom_last (raw : List Bytes) : (linesFrom raw (-1)).flatten = raw.getLast?.getD [] := by
  rw [linesFrom, if_pos (by omega)]
  rcases List.eq_nil_or_concat' raw with rfl | ⟨lines, last, rfl⟩
  · rfl
  · have hlen : (((lines ++ [last]).length : ℤ) + -1).toNat = lines.length := by
      rw [List.length_append, List.length_singleton]
      omega
    rw [hlen, List.drop_left, List.getLast?_concat]
    simp

/-! ## 5. Parameters -/

theorem isPair_iff {param : Str} : IsPair param ↔ ∃ key value, param.splitOn '=' = [key, value] := by
  rw [IsPair, List.length_eq_two]

theorem readParams_cons {param : Str} {key value : Str} (h : param.splitOn '=' = [key, value])
    (d : Dict Str Str) (rest : List Str) : (readParams d (param :: rest) : _ × Except (ViewError E) Unit) =
      readParams (d.set key value) rest := by
  rw [readParams, h]

theorem readParams_cons_error {param : Str} (h : ¬ IsPair param) (d : Dict Str Str) (rest : List Str) :
    (readParams d (param :: rest) : _ × Except (ViewError E) Unit) = (d, .error .valueError) := by
  unfold readParams
  split
  · next key value heq => exact absurd (isPair_iff.mpr ⟨key, value, heq⟩) h
  · rfl

theorem readParams_ok {params : List Str} (h : ∀ param ∈ params, IsPair param) (d : Dict Str Str) :
    (readParams d params : _ × Except (ViewError E) Unit).2 = .ok () := by
  induction params generalizing d with
  | nil => rfl
  | cons param rest ih =>
    obtain ⟨key, value, hpair⟩ := isPair_iff.mp (h param List.mem_cons_self)
    rw [readParams_cons hpair]
    exact ih (fun p hp => h p (List.mem_cons_of_mem _ hp)) _

theorem readParams_error {params : List Str} (h : ¬ ∀ param ∈ params, IsPair param) (d : Dict Str Str) :
    (readParams d params : _ × Except (ViewError E) Unit).2 = .error .valueError := by
  induction params generalizing d with
  | nil => exact absurd (fun _ hp => absurd hp List.not_mem_nil) h
  | cons param rest ih =>
    by_cases hparam : IsPair param
    · obtain ⟨key, value, hpair⟩ := isPair_iff.mp hparam
      rw [readParams_cons hpair]
      exact ih (fun hrest => h (List.forall_mem_cons.mpr ⟨hparam, hrest⟩)) _
    · rw [readParams_cons_error hparam]

theorem one_le_set (key value : Str) (d : Dict Str Str) : 1 ≤ (d.set key value).items.length := by
  have hget : (d.set key value).get? key = some value := Dict.get?_set_self d key value
  exact List.length_pos_of_mem ((Dict.mem_items_iff _ _ _).mpr hget)

/-- The loop drops no parameter. -/
theorem readParams_nonempty {d : Dict Str Str} (h : 1 ≤ d.items.length) (params : List Str) :
    1 ≤ (readParams d params : _ × Except (ViewError E) Unit).1.items.length := by
  induction params generalizing d with
  | nil => exact h
  | cons param rest ih =>
    by_cases hparam : IsPair param
    · obtain ⟨key, value, hpair⟩ := isPair_iff.mp hparam
      rw [readParams_cons hpair]
      exact ih (one_le_set key value d)
    · rwa [readParams_cons_error hparam]

/-- What is kept of the parameters is nothing, or all of them. -/
def ParamsFit (E : Type) (query : Option Str) (d : Dict Str Str) : Prop :=
  d = .empty ∨ ∃ q, query = some q ∧
    readParams .empty (q.splitOn '&') = (d, (.ok () : Except (ViewError E) Unit))

variable {query : Option Str} {raw : List Bytes} {model : Option (V → Except E M)} {k : Kept V}

theorem params_none (hk : k.params = .empty) :
    Request.params (⟨none, raw, model, k⟩ : Request V M E) =
      (.error .attributeError, ⟨none, raw, model, k⟩) := by
  have hlen : k.params.items.length < 1 := by rw [hk]; exact Nat.one_pos
  rw [Request.params, if_pos hlen]

variable (raw model) in
theorem params_some {q : Str} {d : Dict Str Str} {result : Except (ViewError E) Unit}
    (hk : k.params = .empty) (hread : readParams .empty (q.splitOn '&') = (d, result)) :
    Request.params (⟨some q, raw, model, k⟩ : Request V M E) =
      (result.map fun _ => d, ⟨some q, raw, model, { k with params := d }⟩) := by
  have hlen : k.params.items.length < 1 := by rw [hk]; exact Nat.one_pos
  rw [Request.params, if_pos hlen]
  simp only [hk, hread]

variable (query raw model) in
theorem params_kept (hk : 1 ≤ k.params.items.length) :
    Request.params (⟨query, raw, model, k⟩ : Request V M E) =
      (.ok k.params, ⟨query, raw, model, k⟩) := by
  rw [Request.params, if_neg (Nat.not_lt.mpr hk)]

variable (raw model) in
/-- Of pairs, or of parameters that begin with none, the view is always the same. -/
theorem params_fit (hpairs : ∀ q, query = some q → PairsOrNone q) (hfit : ParamsFit E query k.params) :
    ∃ d, ParamsFit E query d ∧
      Request.params (⟨query, raw, model, k⟩ : Request V M E) =
        ((Request.params (⟨query, raw, model, {}⟩ : Request V M E)).1,
          ⟨query, raw, model, { k with params := d }⟩) := by
  cases query with
  | none =>
    obtain hk | ⟨q, ⟨⟩, -⟩ := hfit
    exact ⟨k.params, Or.inl hk, by rw [params_none hk, params_none rfl]⟩
  | some q =>
    cases hread : (readParams .empty (q.splitOn '&') : _ × Except (ViewError E) Unit) with
    | mk d result =>
      rw [params_some raw model (k := {}) rfl hread]
      by_cases hk : k.params = .empty
      · refine ⟨d, ?_, params_some raw model hk hread⟩
        by_cases hall : ∀ param ∈ q.splitOn '&', IsPair param
        · have hok := readParams_ok (E := E) hall .empty
          rw [hread] at hok
          exact Or.inr ⟨q, rfl, by rw [hread, ← hok]⟩
        · -- the first one is no pair, and nothing is kept
          refine Or.inl ?_
          cases hsplit : q.splitOn '&' with
          | nil =>
            rw [hsplit] at hread
            exact (congrArg Prod.fst hread).symm
          | cons param rest =>
            have hfirst : ¬ IsPair param := fun hpair =>
              hall (hpairs q rfl (by rw [hsplit]; rintro _ ⟨⟩; exact hpair))
            rw [hsplit, readParams_cons_error hfirst] at hread
            exact (congrArg Prod.fst hread).symm
      · obtain ⟨q', ⟨⟩, hkept⟩ := hfit.resolve_left hk
        obtain ⟨rfl, rfl⟩ := Prod.mk.inj (hread.symm.trans hkept)
        have hlen : 1 ≤ k.params.items.length :=
          Nat.one_le_iff_ne_zero.mpr fun hzero =>
            hk (Dict.ext_items (List.length_eq_zero_iff.mp hzero))
        exact ⟨k.params, Or.inr ⟨q, rfl, hread⟩, params_kept _ raw model hlen⟩

/-- Steady parameters are pairs, or begin with none: what is kept of them is seen later. -/
theorem pairs_of_steady (h : Steady (Request.access lib) (⟨query, raw, model, {}⟩ : Request V M E)) (q : Str)
    (hq : query = some q) : PairsOrNone q := by
  subst hq
  intro hfirst
  by_contra hall
  cases hread : (readParams .empty (q.splitOn '&') : _ × Except (ViewError E) Unit) with
  | mk d result =>
    have herror : result = .error .valueError := by
      have hresult := readParams_error (E := E) hall .empty
      rwa [hread] at hresult
    have hlen : 1 ≤ d.items.length := by
      cases hsplit : q.splitOn '&' with
      | nil => exact absurd (fun _ hp => absurd (hsplit ▸ hp) List.not_mem_nil) hall
      | cons param rest =>
        obtain ⟨key, value, hpair⟩ :=
          isPair_iff.mp (hfirst param (by rw [hsplit]; exact rfl))
        rw [hsplit, readParams_cons hpair] at hread
        have hkeep := readParams_nonempty (E := E) (one_le_set key value .empty) rest
        rwa [hread] at hkeep
    have hnow := h [] [.params] .params
    have hfresh := params_some raw model (k := {}) rfl hread
    have hlater := params_kept (some q) raw model (k := { params := d }) hlen
    simp only [after, Request.access, Prod.map, id, hfresh, hlater, herror] at hnow
    cases hnow

/-! ## 6. Headers that cannot be read -/

/-- What is kept where the headers cannot be read. -/
structure FitsBroken (E : Type) (query : Option Str) (raw : List Bytes) (k : Kept V) : Prop where
  unread : k.dataLineIdx = -1
  params : ParamsFit E query k.params
  content : ∀ b, k.content = some b → b = stripBytes (raw.getLast?.getD [])

/-- What is seen then. -/
def seenBroken (e : ViewError E) (r : Request V M E) : View → Except (ViewError E) (Seen V M)
  | .params => r.params.1.map .fields
  | .content => .ok (.content (stripBytes (r.raw.getLast?.getD [])))
  | _ => .error e

variable (query model) in
theorem headers_broken {e : ViewError E}
    (he : ∀ (d : Dict Str Str) (i : ℕ), (readHeaders lib d i raw.tail).2 = .error e)
    (hk : k.dataLineIdx = -1) : ∃ d, Request.headers lib (⟨query, raw, model, k⟩ : Request V M E) =
      (.error e, ⟨query, raw, model, { k with headers := d }⟩) := by
  cases hread : readHeaders lib k.headers 0 raw.tail with
  | mk d result =>
    have hresult := he k.headers 0
    rw [hread] at hresult
    obtain rfl : result = .error e := hresult
    exact ⟨d, by rw [Request.headers, if_pos hk]; simp only [hread]⟩

theorem content_broken (hk : k.dataLineIdx = -1)
    (hcontent : ∀ b, k.content = some b → b = stripBytes (raw.getLast?.getD [])) :
    Request.content (⟨query, raw, model, k⟩ : Request V M E) = (stripBytes (raw.getLast?.getD []),
      ⟨query, raw, model, { k with content := some (stripBytes (raw.getLast?.getD [])) }⟩) := by
  obtain ⟨_, _, content, _, _, _⟩ := k
  cases content with
  | some b =>
    obtain rfl := hcontent b rfl
    rfl
  | none =>
    obtain rfl : _ = (-1 : ℤ) := hk
    rw [← linesFrom_last]
    rfl

/-- **Steady, without headers.** -/
theorem steady_broken (hpairs : ∀ q, query = some q → PairsOrNone q)
    (hbroken : ¬ ∀ line ∈ headLines raw, (field line).isSome) :
    Steady (Request.access lib) (⟨query, raw, model, {}⟩ : Request V M E) := by
  obtain ⟨e, he⟩ := readHeaders_error lib hbroken
  refine Views.steady_of_invariant
    (I := fun r => ∃ k, r = ⟨query, raw, model, k⟩ ∧ FitsBroken E query raw k)
    (seenBroken e ⟨query, raw, model, {}⟩)
    ⟨{}, rfl, rfl, Or.inl rfl, fun _ hb => (nomatch hb)⟩ ?_
  rintro _ v ⟨k, rfl, hunread, hparams, hcontent⟩
  obtain ⟨d, hheaders⟩ := headers_broken query model he hunread
  have hkeep : FitsBroken E query raw { k with headers := d } := ⟨hunread, hparams, hcontent⟩
  cases v with
  | headers =>
    rw [Request.access, hheaders]
    exact ⟨rfl, _, rfl, hkeep⟩
  | cookies =>
    rw [Request.access, Request.cookies, hheaders]
    exact ⟨rfl, _, rfl, hkeep⟩
  | params =>
    obtain ⟨d', hfit, hview⟩ := params_fit raw model hpairs hparams
    rw [Request.access, hview]
    exact ⟨rfl, _, rfl, hunread, hfit, hcontent⟩
  | content =>
    rw [Request.access, content_broken hunread hcontent]
    exact ⟨rfl, _, rfl, hunread, hparams, fun b hb => (Option.some.inj hb).symm⟩
  | body =>
    rw [Request.access, Request.body, hheaders]
    exact ⟨rfl, _, rfl, hkeep⟩
  | data =>
    rw [Request.access, Request.data, Request.body, hheaders]
    exact ⟨rfl, _, rfl, hkeep⟩

/-! ## 7. Headers that can be read -/

section Readable

variable {d : Dict Str Str} {n : ℕ}

/-- The content of a request with headers. -/
def contentOf (raw : List Bytes) : Bytes := stripBytes (bodyLines raw).flatten

/-- What is kept of the headers is nothing, or all of them. -/
def HeadersFit (d : Dict Str Str) (n : ℕ) (k : Kept V) : Prop :=
  (k.dataLineIdx = -1 ∧ k.headers = .empty) ∨ (k.dataLineIdx = n + 1 ∧ k.headers = d)

variable (query model) in
theorem headers_read (hread : readHeaders lib .empty 0 raw.tail = (d, .ok n)) (hk : HeadersFit d n k) :
    Request.headers lib (⟨query, raw, model, k⟩ : Request V M E) =
      (.ok d, ⟨query, raw, model, { k with headers := d, dataLineIdx := n + 1 }⟩) := by
  obtain ⟨hidx, hheaders⟩ | ⟨hidx, hheaders⟩ := hk
  · rw [Request.headers, if_pos hidx]
    simp only [hheaders, hread]
  · have hne : k.dataLineIdx ≠ -1 := by omega
    rw [Request.headers, if_neg hne, ← hidx, ← hheaders]

variable (query model) in
/-- Behind the headers the content is the lines behind them. -/
theorem content_behind (hdrop : raw.tail.drop n = (raw.tail.dropWhile (· ≠ [])).tail)
    (hidx : k.dataLineIdx = n + 1) (hk : ∀ b, k.content = some b → b = contentOf raw) :
    Request.content (⟨query, raw, model, k⟩ : Request V M E) =
      (contentOf raw, ⟨query, raw, model, { k with content := some (contentOf raw) }⟩) := by
  obtain ⟨_, _, content, _, _, _⟩ := k
  cases content with
  | some b =>
    obtain rfl := hk b rfl
    rfl
  | none =>
    obtain rfl : _ = (n : ℤ) + 1 := hidx
    rw [Request.content, linesFrom_succ, hdrop]
    rfl

variable (query raw model) in
/-- Before the headers were read, the content is the last line. -/
theorem content_before (hidx : k.dataLineIdx = -1) (hk : k.content = none) :
    Request.content (⟨query, raw, model, k⟩ : Request V M E) = (stripBytes (raw.getLast?.getD []),
      ⟨query, raw, model, { k with content := some (stripBytes (raw.getLast?.getD [])) }⟩) :=
  content_broken hidx fun _ hb => (nomatch hk.symm.trans hb)

/-- What the cookies are, where they can be loaded. -/
def cookiesOf (lib : Stdlib V E) (c : Str) : Dict Str Str :=
  if c = [] then .empty
  else
    match lib.cookies c with
    | .ok d => d
    | .error _ => .empty

/-- What the body is, where it can be loaded. -/
def bodyOf (lib : Stdlib V E) (json : Bool) (b : Bytes) : Option (Datum V) :=
  if json then
    match lib.loads b with
    | .ok v => v.map .value
    | .error _ => none
  else some (.bytes b)

/-- What is kept where the headers can be read. -/
structure FitsRead (lib : Stdlib V E) (query : Option Str) (raw : List Bytes) (d : Dict Str Str)
    (n : ℕ) (k : Kept V) : Prop where
  headers : HeadersFit d n k
  params : ParamsFit E query k.params
  content : ∀ b, k.content = some b → b = contentOf raw
  data : ∀ x, k.data = some x →
    bodyOf lib (d.get? contentType = some applicationJson) (contentOf raw) = some x
  cookies : ∀ c, k.cookies = some c → c = cookiesOf lib ((d.get? cookie).getD [])

variable (model) in
theorem FitsRead.read (hread : readHeaders lib .empty 0 raw.tail = (d, .ok n))
    (hk : FitsRead lib query raw d n k) : ∃ k', FitsRead lib query raw d n k' ∧
      k'.dataLineIdx = n + 1 ∧ Request.headers lib (⟨query, raw, model, k⟩ : Request V M E) =
        (.ok d, ⟨query, raw, model, k'⟩) :=
  ⟨{ k with headers := d, dataLineIdx := n + 1 },
    ⟨Or.inr ⟨rfl, rfl⟩, hk.params, hk.content, hk.data, hk.cookies⟩, rfl,
    headers_read query model hread hk.headers⟩

/-- What is seen then. -/
def seenRead (lib : Stdlib V E) (d : Dict Str Str) (r : Request V M E) :
    View → Except (ViewError E) (Seen V M)
  | .headers => .ok (.fields d)
  | .cookies => .ok (.fields (cookiesOf lib ((d.get? cookie).getD [])))
  | .params => r.params.1.map .fields
  | .content => .ok (.content (contentOf r.raw))
  | .body => .ok (.body (bodyOf lib (d.get? contentType = some applicationJson) (contentOf r.raw)))
  | .data => Request.shaped lib r.model
      (bodyOf lib (d.get? contentType = some applicationJson) (contentOf r.raw))

variable (model) in
theorem cookies_read (hread : readHeaders lib .empty 0 raw.tail = (d, .ok n))
    (hk : FitsRead lib query raw d n k)
    (hload : ∀ c, d.get? cookie = some c → c ≠ [] → ∃ x, lib.cookies c = .ok x) :
    ∃ k', FitsRead lib query raw d n k' ∧
      Request.cookies lib (⟨query, raw, model, k⟩ : Request V M E) =
        (.ok (cookiesOf lib ((d.get? cookie).getD [])), ⟨query, raw, model, k'⟩) := by
  obtain ⟨k, hk, -, hheaders⟩ := hk.read model hread
  rw [Request.cookies, hheaders]
  dsimp only
  cases hcookies : k.cookies with
  | some c =>
    obtain rfl := hk.cookies c hcookies
    exact ⟨k, hk, rfl⟩
  | none =>
    cases hgiven : (d.get? cookie).getD [] with
    | nil =>
      refine ⟨{ k with cookies := some .empty },
        ⟨hk.headers, hk.params, hk.content, hk.data, ?_⟩, rfl⟩
      rintro c ⟨⟩
      rw [hgiven]
      rfl
    | cons c cs =>
      have hsome : d.get? cookie = some (c :: cs) := by
        cases hget : d.get? cookie with
        | none => rw [hget] at hgiven; cases hgiven
        | some x => rw [hget] at hgiven; exact congrArg some hgiven
      obtain ⟨x, hx⟩ := hload _ hsome (List.cons_ne_nil c cs)
      have hof : cookiesOf lib (c :: cs) = x := by
        rw [cookiesOf, if_neg (List.cons_ne_nil c cs)]
        simp only [hx]
      refine ⟨{ k with cookies := some x }, ⟨hk.headers, hk.params, hk.content, hk.data, ?_⟩, ?_⟩
      · rintro y ⟨⟩
        rw [hgiven, hof]
      · simp only [hx, hof]

variable (model) in
theorem body_read (hread : readHeaders lib .empty 0 raw.tail = (d, .ok n))
    (hdrop : raw.tail.drop n = (raw.tail.dropWhile (· ≠ [])).tail)
    (hk : FitsRead lib query raw d n k)
    (hload : d.get? contentType = some applicationJson → ∃ v, lib.loads (contentOf raw) = .ok v) :
    ∃ k', FitsRead lib query raw d n k' ∧
      Request.body lib (⟨query, raw, model, k⟩ : Request V M E) =
        (.ok (bodyOf lib (d.get? contentType = some applicationJson) (contentOf raw)),
          ⟨query, raw, model, k'⟩) := by
  obtain ⟨k, hk, hidx, hheaders⟩ := hk.read model hread
  have hcontent := content_behind query model hdrop hidx hk.content
  have hnow : ∀ b, some (contentOf raw) = some b → b = contentOf raw :=
    fun b hb => (Option.some.inj hb).symm
  rw [Request.body, hheaders]
  dsimp only
  cases hdata : k.data with
  | some x =>
    rw [hk.data x hdata]
    exact ⟨k, hk, rfl⟩
  | none =>
    dsimp only
    rw [hcontent]
    by_cases hjson : d.get? contentType = some applicationJson
    · obtain ⟨v, hv⟩ := hload hjson
      have hof : bodyOf lib (d.get? contentType = some applicationJson) (contentOf raw) =
          v.map .value := by
        rw [bodyOf, if_pos (decide_eq_true hjson)]
        simp only [hv]
      rw [hof]
      simp only [if_pos hjson, hv]
      exact ⟨{ k with content := some (contentOf raw), data := v.map .value },
        ⟨hk.headers, hk.params, hnow, fun x hx => hof.trans hx, hk.cookies⟩, rfl⟩
    · have hof : bodyOf lib (d.get? contentType = some applicationJson) (contentOf raw) =
          some (.bytes (contentOf raw)) := by
        rw [bodyOf, if_neg (by simpa using hjson)]
      rw [hof]
      simp only [if_neg hjson]
      exact ⟨{ k with content := some (contentOf raw), data := some (.bytes (contentOf raw)) },
        ⟨hk.headers, hk.params, hnow, fun x hx => hof.trans hx, hk.cookies⟩, rfl⟩

/-- **Steady, with headers.** -/
theorem steady_read (hpairs : ∀ q, query = some q → PairsOrNone q)
    (hread : readHeaders lib .empty 0 raw.tail = (d, .ok n))
    (hdrop : raw.tail.drop n = (raw.tail.dropWhile (· ≠ [])).tail)
    (hsame : contentOf raw = stripBytes (raw.getLast?.getD []))
    (hjson : d.get? contentType = some applicationJson → ∃ v, lib.loads (contentOf raw) = .ok v)
    (hcookies : ∀ c, d.get? cookie = some c → c ≠ [] → ∃ x, lib.cookies c = .ok x) :
    Steady (Request.access lib) (⟨query, raw, model, {}⟩ : Request V M E) := by
  refine Views.steady_of_invariant
    (I := fun r => ∃ k, r = ⟨query, raw, model, k⟩ ∧ FitsRead lib query raw d n k)
    (seenRead lib d ⟨query, raw, model, {}⟩)
    ⟨{}, rfl, Or.inl ⟨rfl, rfl⟩, Or.inl rfl, fun _ hb => (nomatch hb), fun _ hx => (nomatch hx),
      fun _ hc => (nomatch hc)⟩ ?_
  rintro _ v ⟨k, rfl, hk⟩
  cases v with
  | headers =>
    obtain ⟨k', hk', -, hview⟩ := hk.read model hread
    rw [Request.access, hview]
    exact ⟨rfl, k', rfl, hk'⟩
  | cookies =>
    obtain ⟨k', hk', hview⟩ := cookies_read model hread hk hcookies
    rw [Request.access, hview]
    exact ⟨rfl, k', rfl, hk'⟩
  | params =>
    obtain ⟨d', hfit, hview⟩ := params_fit raw model hpairs hk.params
    rw [Request.access, hview]
    exact ⟨rfl, _, rfl, hk.headers, hfit, hk.content, hk.data, hk.cookies⟩
  | content =>
    have hview : Request.content (⟨query, raw, model, k⟩ : Request V M E) =
        (contentOf raw, ⟨query, raw, model, { k with content := some (contentOf raw) }⟩) := by
      obtain ⟨hidx, -⟩ | ⟨hidx, -⟩ := hk.headers
      · rw [content_broken hidx fun b hb => (hk.content b hb).trans hsame, hsame]
      · exact content_behind query model hdrop hidx hk.content
    rw [Request.access, hview]
    exact ⟨rfl, _, rfl, hk.headers, hk.params, fun b hb => (Option.some.inj hb).symm, hk.data,
      hk.cookies⟩
  | body =>
    obtain ⟨k', hk', hview⟩ := body_read model hread hdrop hk hjson
    rw [Request.access, hview]
    exact ⟨rfl, k', rfl, hk'⟩
  | data =>
    obtain ⟨k', hk', hview⟩ := body_read model hread hdrop hk hjson
    rw [Request.access, Request.data, hview]
    exact ⟨rfl, k', rfl, hk'⟩

end Readable

/-! ## 8. When the order does not matter -/

/-- What is kept where a body was not loaded. -/
def unloaded (d : Dict Str Str) (n : ℕ) (b : Bytes) : Kept V where
  headers := d
  content := some b
  data := some (.bytes b)
  dataLineIdx := n + 1

section Steadiness

variable {d : Dict Str Str} {n : ℕ}
  (hsteady : Steady (Request.access lib) (⟨query, raw, model, {}⟩ : Request V M E))
  (hread : readHeaders lib .empty 0 raw.tail = (d, .ok n))

include hsteady hread

/-- Reading the headers leaves the content of a steady request. -/
theorem content_of_steady (hdrop : raw.tail.drop n = (raw.tail.dropWhile (· ≠ [])).tail) :
    contentOf raw = stripBytes (raw.getLast?.getD []) := by
  have hnow := hsteady [.headers] [] .content
  have hheaders := headers_read query model (k := {}) hread (Or.inl ⟨rfl, rfl⟩)
  have hbehind := content_behind query model
    (k := { headers := d, dataLineIdx := n + 1 }) hdrop rfl fun _ hb => (nomatch hb)
  have hbefore := content_before query raw model (k := {}) rfl rfl
  simp only [after, Request.access, Prod.map, id, hheaders, hbehind, hbefore, Except.ok.injEq,
    Seen.content.injEq] at hnow
  exact hnow

/-- The body of a steady request is loaded at once, or never announced. -/
theorem json_of_steady (hdrop : raw.tail.drop n = (raw.tail.dropWhile (· ≠ [])).tail)
    (hjson : d.get? contentType = some applicationJson) : ∃ v, lib.loads (contentOf raw) = .ok v := by
  cases hload : lib.loads (contentOf raw) with
  | ok v => exact ⟨v, rfl⟩
  | error e =>
    have hnow := hsteady [] [.body] .body
    have hheaders := headers_read query model (k := {}) hread
      (Or.inl ⟨rfl, rfl⟩)
    have hbehind := content_behind query model
      (k := { headers := d, dataLineIdx := n + 1 }) hdrop rfl fun _ hb => (nomatch hb)
    have hfirst : Request.body lib (⟨query, raw, model, {}⟩ : Request V M E) =
        (.error (.raised e), ⟨query, raw, model, unloaded d n (contentOf raw)⟩) := by
      rw [Request.body, hheaders]
      dsimp only
      rw [hbehind]
      simp only [if_pos hjson, hload]
      rfl
    have hagain := headers_read query model
      (k := unloaded d n (contentOf raw)) hread (Or.inr ⟨rfl, rfl⟩)
    have hsecond : (Request.body lib (⟨query, raw, model, unloaded d n (contentOf raw)⟩ :
        Request V M E)).1 = .ok (some (.bytes (contentOf raw))) := by
      rw [Request.body, hagain]
      rfl
    simp only [after, Request.access, Prod.map, id, hfirst, hsecond] at hnow
    cases hnow

/-- The cookies of a steady request are loaded at once. -/
theorem cookies_of_steady {c : Str} (hcookie : d.get? cookie = some c) (hne : c ≠ []) :
    ∃ x, lib.cookies c = .ok x := by
  obtain ⟨c, cs, rfl⟩ := List.exists_cons_of_ne_nil hne
  cases hload : lib.cookies (c :: cs) with
  | ok x => exact ⟨x, rfl⟩
  | error e =>
    have hnow := hsteady [] [.cookies] .cookies
    have hheaders := headers_read query model (k := {}) hread
      (Or.inl ⟨rfl, rfl⟩)
    have hfirst : Request.cookies lib (⟨query, raw, model, {}⟩ : Request V M E) =
        (.error (.raised e), ⟨query, raw, model,
          { headers := d, dataLineIdx := n + 1, cookies := some .empty }⟩) := by
      rw [Request.cookies, hheaders]
      simp only [hcookie, Option.getD_some, hload]
    have hagain := headers_read query model
      (k := { headers := d, dataLineIdx := n + 1, cookies := some .empty }) hread
      (Or.inr ⟨rfl, rfl⟩)
    have hsecond : (Request.cookies lib (⟨query, raw, model,
        { headers := d, dataLineIdx := n + 1, cookies := some .empty }⟩ : Request V M E)).1 =
          .ok .empty := by
      rw [Request.cookies, hagain]
    simp only [after, Request.access, Prod.map, id, hfirst, hsecond] at hnow
    cases hnow

end Steadiness

/-- **The requests whose views do not depend on an order.** -/
theorem steady_iff_settled (lib : Stdlib V E) (query : Option Str) (raw : List Bytes)
    (model : Option (V → Except E M)) :
    Steady (Request.access lib) (⟨query, raw, model, {}⟩ : Request V M E) ↔ Settled lib query raw := by
  by_cases hlines : ∀ line ∈ headLines raw, (field line).isSome
  · obtain ⟨d, n, hread, hdrop, hget⟩ := readHeaders_ok lib hlines .empty 0
    rw [Nat.zero_add] at hread
    have hgiven : ∀ name, d.get? name = given lib name (headLines raw) := fun name => by
      rw [hget, Dict.get?_empty, Option.or_none]
      rfl
    constructor
    · intro hsteady
      refine ⟨pairs_of_steady hsteady, fun _ => ⟨content_of_steady hsteady hread hdrop, ?_, ?_⟩⟩
      · intro hjson
        exact json_of_steady hsteady hread hdrop ((hgiven _).trans hjson)
      · intro c hcookie hne
        exact cookies_of_steady hsteady hread ((hgiven _).trans hcookie) hne
    · rintro ⟨hpairs, hannounced⟩
      obtain ⟨hsame, hjson, hcookies⟩ := hannounced hlines
      refine steady_read hpairs hread hdrop hsame (fun h => hjson ((hgiven _).symm.trans h)) ?_
      exact fun c hc => hcookies c ((hgiven _).symm.trans hc)
  · constructor
    · exact fun hsteady => ⟨pairs_of_steady hsteady, fun hall => absurd hall hlines⟩
    · exact fun hsettled => steady_broken hsettled.params hlines

/-- **What is seen of a request and what a limit says of it do not depend on an order exactly where
the request is settled and the rules agree.** -/
theorem orderFree_iff (lib : Stdlib V E) (query : Option Str) (raw : List Bytes)
    (model : Option (V → Except E M)) (l : Limit V M E A) (ip : A) :
    OrderFree lib l (⟨query, raw, model, {}⟩ : Request V M E) ip ↔
      Settled lib query raw ∧ l.Agreed lib (⟨query, raw, model, {}⟩ : Request V M E) ip := by
  constructor
  · rintro ⟨hviews, hrules⟩
    exact ⟨(steady_iff_settled lib query raw model).mp hviews,
      (l.orderFree_iff_agreed hviews).mp hrules⟩
  · rintro ⟨hsettled, hagreed⟩
    have hviews := (steady_iff_settled lib query raw model).mpr hsettled
    exact ⟨hviews, (l.orderFree_iff_agreed hviews).mpr hagreed⟩

/-! ## 9. A request of which the order matters -/

/-- ASCII, and JSON without a value. -/
def plainStdlib : Stdlib Empty Unit where
  lower s := s.map Char.toLower
  loads _ := .error ()
  isDict v := nomatch v
  cookies _ := .ok .empty

/-- A request with two lines of content. -/
def twoLines : Request Empty Empty Unit where
  query := none
  raw := ["POST / HTTP/1.1", "host: a", "", "x", "y"].map fun line => Utf8.encode line.toList
  model := none

/-- A rule that fails, and one that does not. -/
def failing : Limit Empty Empty Unit Unit where
  rules := some [fun _ => .done false, fun _ => .done true]

/-- The content is one line before the headers were read, and two behind them; a limit matches with
its last rule. -/
theorem not_orderFree :
    (Request.access plainStdlib .content twoLines).1 = .ok (.content [121]) ∧
    (Request.access plainStdlib .content (after (Request.access plainStdlib) twoLines [.headers])).1 =
      .ok (.content [120, 121]) ∧
    (failing.matches plainStdlib twoLines ()).1 = true ∧
    ¬ OrderFree plainStdlib failing twoLines () := by
  have hbefore : (Request.access plainStdlib .content twoLines).1 = .ok (.content [121]) := by
    decide +kernel
  have hbehind : (Request.access plainStdlib .content
      (after (Request.access plainStdlib) twoLines [.headers])).1 = .ok (.content [120, 121]) := by
    decide +kernel
  refine ⟨hbefore, hbehind, rfl, fun hfree => ?_⟩
  have hsame := hfree.views [] [.headers] .content
  rw [hbehind] at hsame
  exact absurd (hbefore.symm.trans hsame) (by decide)

end RequestViews
end Hedra
