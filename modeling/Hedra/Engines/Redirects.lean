/-
# Redirects

A response with a status in the three hundreds sends `execute_prepared_request`
(`core/engines/types/http/client.py`) into a loop with as many turns as the action has redirects.
The location is a `bytes` there, so that the URL of a turn is its `repr`, `b'…'`: none begins with
`http`, each becomes the path of the action's URL, and the last one stays there.  The status is the
one that was read first, and no turn breaks the loop; what a response has behind its head is left to
the next turn.

So redirects are followed as they should be exactly when there are none to follow.

* `not_http`: no location is absolute, as the loop has it;
* `mangled_follow`: what the loop leaves in the URL, and `status_follow` in the status;
* `Call.followed_iff`: which calls follow their chain: those that make no turn.
-/
import Hedra.Engines.RequestEncoding
import Hedra.Engines.ResponseBody

namespace Hedra
namespace Engines
namespace Redirects

open Lib
open RequestEncoding (Str Codecs URL HTTPAction asciiCodecs localhost)
open ResponseBody (Input Stop look readBody ascii)
open Reader (Bytes colon takeChunk readlineFast addHeader)

variable {V T : Type}

/-! ## 1. The connection -/

/-- Where a connection is made to. -/
structure Endpoint where
  scheme : Str
  hostname : Option Str
  port : ℕ

def endpoint (url : URL) : Endpoint := ⟨url.parsed.scheme, url.parsed.hostname, url.port⟩

/-- A connection, with what has been sent so far during the call, on this one and on others. -/
structure Connection where
  peer : Endpoint
  sent : List (Endpoint × Bytes)
  input : Input

/-- `make_connection` of one that is not connected. -/
def Connection.make (url : URL) (sent : List (Endpoint × Bytes)) : Connection :=
  ⟨endpoint url, sent, ⟨[], []⟩⟩

/-- What the client meets. -/
structure World (V T : Type) where
  /-- The blocks in which the last of the requests is answered; an empty one is a look at the buffer
  that brings nothing. -/
  serve : List (Endpoint × Bytes) → List Bytes
  /-- What a location means, seen from a URL. -/
  resolve : URL → Bytes → URL
  totalTimeout : ℕ
  /-- `elapsed_time` at the end of each turn -/
  elapsed : ℕ → ℕ
  /-- `replace`, `prepare` and `make_connection`, for an absolute location -/
  replace : HTTPAction V T → Connection → Str → HTTPAction V T × Option Connection

variable (codecs : Codecs V T) (w : World V T)

def Connection.write (c : Connection) (request : Bytes) : Connection :=
  { c with
    sent := c.sent ++ [(c.peer, request)]
    input := { c.input with later := c.input.later ++ w.serve (c.sent ++ [(c.peer, request)]) } }

/-- `if not self._buffer: await self._waiter` -/
def wait (i : Input) : Option Input := if i.buffer = [] then look [] i.later else some i

theorem bytes_of_wait {i j : Input} (h : wait i = some j) : j.buffer ≠ [] ∧ j.bytes = i.bytes := by
  rw [wait] at h
  split at h
  · next hnil =>
    obtain ⟨hne, hbytes⟩ := ResponseBody.bytes_of_look h
    exact ⟨hne, by rw [hbytes, Input.bytes, hnil]⟩
  · next hne =>
    obtain rfl := Option.some.inj h
    exact ⟨hne, rfl⟩

/-- The loop of `read_headers`. -/
def readHeaders (headers : Dict Bytes Bytes) (i : Input) :
    Except Stop (Dict Bytes Bytes × Input) :=
  match _h : wait i with
  | none => .error .waits
  | some j =>
    if _hc : colon ∈ (takeChunk j.buffer).1 then
      readHeaders (addHeader headers (takeChunk j.buffer).1) ⟨(takeChunk j.buffer).2, j.later⟩
    else .ok (headers, ⟨(takeChunk j.buffer).2, j.later⟩)
termination_by i.bytes.length
decreasing_by
  obtain ⟨hne, hbytes⟩ := bytes_of_wait _h
  rw [← hbytes, Reader.takeChunk_eq, Input.bytes, Input.bytes, List.length_append,
    List.length_append]
  exact Nat.add_lt_add_right (Lines.length_takeLine_lt hne) _

theorem readHeaders_of_wait {headers : Dict Bytes Bytes} {i j : Input} (h : wait i = some j) :
    readHeaders headers i =
      if colon ∈ (takeChunk j.buffer).1 then
        readHeaders (addHeader headers (takeChunk j.buffer).1) ⟨(takeChunk j.buffer).2, j.later⟩
      else .ok (headers, ⟨(takeChunk j.buffer).2, j.later⟩) := by
  rw [readHeaders]
  split
  · next hnone => rw [h] at hnone; cases hnone
  · next j' hj =>
    obtain rfl := Option.some.inj (h.symm.trans hj)
    rfl

/-- `readline_fast` and `read_headers`; an error comes with the status line where that has been
read. -/
def readHead (i : Input) : Except (Option Bytes × Stop) (Bytes × Dict Bytes Bytes × Input) :=
  match look i.buffer i.later with
  | none => .error (none, .waits)
  | some j =>
    let line := readlineFast j.buffer
    match look line.2 j.later with
    | none => .error (some line.1, .waits)
    | some k =>
      match readHeaders Dict.empty k with
      | .error stop => .error (some line.1, stop)
      | .ok r => .ok (line.1, r)

/-! ## 2. The call -/

inductive Failure where
  | typeError
  /-- `setup` or the preparation of an absolute URL raises. -/
  | setup
  | read (stop : Stop)
  | timedOut

/-- An `HTTPResult`, with the value of its property `status`. -/
structure Result where
  responseCode : Option Bytes
  status : Option ℤ
  headers : Dict Bytes Bytes
  body : Bytes
  error : Option Failure

/-- How a call ends. -/
structure Outcome (V T : Type) where
  /-- None where the call does not return. -/
  result : Option Result
  action : HTTPAction V T
  /-- The connection that is put back into the pool, or none for a new one. -/
  connection : Option Connection

/-- The head of a response, and the connection then. -/
structure Reply where
  line : Bytes
  headers : Dict Bytes Bytes
  connection : Connection

/-- `split()` -/
def words (text : Bytes) : List Bytes := (text.splitOnP Numerals.isSpace).filter (· ≠ [])

/-- `int(status_string[1])` -/
def statusOf (line : Bytes) : Option ℤ :=
  match words line with
  | _ :: status :: _ => Numerals.int 10 status
  | _ => none

/-- `status >= 300 and status < 400` -/
abbrev IsRedirect (status : ℤ) : Prop := 300 ≤ status ∧ status < 400

/-- The branch for an exception; a loop that awaits nothing does not get there. -/
def failed (a : HTTPAction V T) (code : Option Bytes) (status : Option ℤ) (f : Failure) :
    Outcome V T where
  result := match f with
    | .read .spins => none
    | f => some ⟨code, status, Dict.empty, [], some f⟩
  action := a
  connection := none

/-- The part from the body on. -/
def finish (a : HTTPAction V T) (r : Reply) (status : ℤ) : Outcome V T :=
  match readBody r.headers r.connection.input with
  | .error stop => failed a (some r.line) (some status) (.read stop)
  | .ok (body, i) =>
    ⟨some ⟨some r.line, some status, r.headers, body, none⟩, a,
      some { r.connection with input := i }⟩

/-- A request is written, and the head of a response is read. -/
def exchange (a : HTTPAction V T) (c : Connection) : Except (Option Bytes × Failure) Reply :=
  match a.written with
  | none => .error (none, .typeError)
  | some request =>
    match readHead (c.write w request).input with
    | .error (code, stop) => .error (code, .read stop)
    | .ok (line, headers, i) => .ok ⟨line, headers, { c.write w request with input := i }⟩

/-- The first request, and what is done with the response when its status has been read. -/
def request (a : HTTPAction V T) (c : Connection) (next : Reply → ℤ → Outcome V T) : Outcome V T :=
  match exchange w a c with
  | .error (code, f) => failed a code (code.bind statusOf) f
  | .ok r =>
    match statusOf r.line with
    | none => failed a (some r.line) none .typeError
    | some status => next r status

def location : Bytes := ascii "location"

def hexDigits (b : UInt8) : Str := [Nat.digitChar (b.toNat / 16), Nat.digitChar (b.toNat % 16)]

/-- A byte in the `repr` of a `bytes`. -/
def reprByte (quote : Char) (b : UInt8) : Str :=
  if b = 9 then ['\\', 't']
  else if b = 10 then ['\\', 'n']
  else if b = 13 then ['\\', 'r']
  else if b = 92 ∨ b.toNat = quote.toNat then ['\\', Char.ofNat b.toNat]
  else if 32 ≤ b ∧ b < 127 then [Char.ofNat b.toNat]
  else '\\' :: 'x' :: hexDigits b

/-- `str(headers.get(b'location'))` -/
def redirectUrl (headers : Dict Bytes Bytes) : Str :=
  match headers.get? location with
  | none => "None".toList
  | some l =>
    let quote := if 39 ∈ l ∧ 34 ∉ l then '"' else '\''
    'b' :: quote :: (l.flatMap (reprByte quote) ++ [quote])

/-- `path.setter` -/
def setPath (url : URL) (value : Str) : URL :=
  { url with parsed := { url.parsed with path := value } }

/-- The action and the connection for the next turn, or no connection where this raises. -/
def redirect (a : HTTPAction V T) (r : Reply) : HTTPAction V T × Option Connection :=
  if "http".toList.isPrefixOf (redirectUrl r.headers) = false then
    let s := HTTPAction.setup codecs
      { a with url := setPath a.url (redirectUrl r.headers), encodedHeaders := none }
    (s.1, if s.2 then some r.connection else none)
  else w.replace a r.connection (redirectUrl r.headers)

/-- The loop, with the turns that are left and those that have been made. -/
def follow (status : ℤ) : ℕ → ℕ → ℕ → HTTPAction V T → Reply → Outcome V T
  | 0, _, _, a, r => finish a r status
  | turns + 1, made, elapsed, a, r =>
    if w.totalTimeout < elapsed then failed a (some r.line) (some 408) .timedOut
    else
      match redirect codecs w a r with
      | (a, none) => failed a (some r.line) (some status) .setup
      | (a, some c) =>
        match exchange w a c with
        | .error (code, f) => failed a (code.or (some r.line)) (some status) f
        | .ok r =>
          -- `response.status` keeps what it has parsed first
          if 200 ≤ status ∧ status < 300 then finish a r status
          else follow status turns (made + 1) (w.elapsed made) a r

/-- `execute_prepared_request` -/
def execute (a : HTTPAction V T) (redirects : ℕ) : Outcome V T :=
  request w a (.make a.url []) fun r status =>
    if IsRedirect status then follow codecs w status redirects 0 0 a r else finish a r status

/-! ## 3. Following redirects -/

/-- The response to an action itself, asked for when that has been sent. -/
def ask (sent : List (Endpoint × Bytes)) (a : HTTPAction V T) : Outcome V T :=
  request w a (.make a.url sent) (finish a)

/-- The action at another URL. -/
def moved (a : HTTPAction V T) (url : URL) : HTTPAction V T :=
  (HTTPAction.setup codecs { a with url := url, encodedHeaders := none }).1

/-- The response to an action redirects to a location. -/
structure RedirectsTo (sent : List (Endpoint × Bytes)) (a : HTTPAction V T) (r : Reply)
    (l : Bytes) : Prop where
  exchange_eq : exchange w a (.make a.url sent) = .ok r
  status : ∃ s, statusOf r.line = some s ∧ IsRedirect s
  location : r.headers.get? location = some l

/-- A chain of redirects from an action, with its length and the response of its last location. -/
inductive Chain : List (Endpoint × Bytes) → HTTPAction V T → ℕ → Outcome V T → Prop
  | last {sent a} (h : ∀ r l, ¬RedirectsTo w sent a r l) : Chain sent a 0 (ask w sent a)
  | hop {sent a r l n o} (h : RedirectsTo w sent a r l)
      (next : Chain r.connection.sent (moved codecs a (w.resolve a.url l)) n o) :
      Chain sent a (n + 1) o

/-- A call, and the chain that it should follow. -/
structure Call where
  action : HTTPAction V T
  redirects : ℕ
  length : ℕ
  last : Outcome V T
  chain : Chain codecs w [] action length last
  length_le : length ≤ redirects
  /-- The path that `urlparse` finds in a URL with a host. -/
  path_eq : action.url.parsed.path = [] ∨ ∃ rest, action.url.parsed.path = '/' :: rest

namespace Call

variable {codecs w}

def outcome (x : Call codecs w) : Outcome V T := execute codecs w x.action x.redirects

/-- What the call should do. -/
structure Followed (x : Call codecs w) : Prop where
  /-- The result is the response of the last location. -/
  result : x.outcome.result = x.last.result
  /-- What stays on the connection is what that response leaves there. -/
  consumed : x.outcome.connection.map Connection.input = x.last.connection.map Connection.input
  action : x.outcome.action = x.action

/-- The response to the action has a status in the three hundreds. -/
def Redirected (x : Call codecs w) : Prop :=
  ∃ r s, exchange w x.action (.make x.action.url []) = .ok r ∧ statusOf r.line = some s ∧
    IsRedirect s

end Call

/-! ## 4. The path of a turn -/

/-- The first letter of `b'…'`, or of `None`. -/
def Mangled (path : Str) : Prop := ∃ rest, path = 'b' :: rest ∨ path = 'N' :: rest

theorem mangled_redirectUrl (headers : Dict Bytes Bytes) : Mangled (redirectUrl headers) := by
  rw [redirectUrl]
  split
  · exact ⟨_, .inr rfl⟩
  · exact ⟨_, .inl rfl⟩

/-- **No location is absolute.** -/
theorem not_http (headers : Dict Bytes Bytes) :
    "http".toList.isPrefixOf (redirectUrl headers) = false := by
  obtain ⟨rest, h | h⟩ := mangled_redirectUrl headers
  · rw [h]
    rfl
  · rw [h]
    rfl

theorem setupData_url (a : HTTPAction V T) : (a.setupData codecs).1.url = a.url := by
  rw [HTTPAction.setupData]
  split
  · split
    · rfl
    · rfl
    · split <;> rfl
    · split <;> rfl
    · rfl
    · rfl
  · rfl

theorem setupHeaders_url (a : HTTPAction V T) : (a.setupHeaders codecs).1.url = a.url := by
  rw [HTTPAction.setupHeaders]
  split <;> rfl

theorem setup_url (a : HTTPAction V T) : (a.setup codecs).1.url = a.url := by
  have hdata : (RequestEncoding.encodeData codecs a).1.url = a.url := by
    rw [RequestEncoding.encodeData]
    split
    · exact setupData_url codecs a
    · rfl
  rw [RequestEncoding.setup_eq]
  split
  · exact (setupHeaders_url codecs _).trans hdata
  · exact hdata

theorem redirect_eq (a : HTTPAction V T) (r : Reply) :
    redirect codecs w a r =
      let s := HTTPAction.setup codecs
        { a with url := setPath a.url (redirectUrl r.headers), encodedHeaders := none }
      (s.1, if s.2 then some r.connection else none) := by
  rw [redirect, if_pos (not_http _)]

/-- A turn asks for what no URL has for a path. -/
theorem mangled_redirect (a : HTTPAction V T) (r : Reply) :
    Mangled (redirect codecs w a r).1.url.parsed.path := by
  rw [redirect_eq]
  dsimp only
  rw [setup_url]
  exact mangled_redirectUrl _

@[simp] theorem finish_action (a : HTTPAction V T) (r : Reply) (status : ℤ) :
    (finish a r status).action = a := by
  rw [finish]
  split <;> rfl

/-- What one turn leaves, given what the turns after it do. -/
theorem mangled_turn {status : ℤ} {turns made elapsed : ℕ} {r : Reply}
    (hnext : ∀ made elapsed (a : HTTPAction V T) r, Mangled a.url.parsed.path →
      Mangled (follow codecs w status turns made elapsed a r).action.url.parsed.path)
    (a : HTTPAction V T) (htime : ¬w.totalTimeout < elapsed) :
    Mangled (follow codecs w status (turns + 1) made elapsed a r).action.url.parsed.path := by
  have hpath := mangled_redirect codecs w a r
  rw [follow, if_neg htime]
  generalize redirect codecs w a r = q at hpath ⊢
  obtain ⟨a', c⟩ := q
  cases c with
  | none => exact hpath
  | some c =>
    dsimp only
    split
    · exact hpath
    · split
      · rw [finish_action]
        exact hpath
      · exact hnext _ _ _ _ hpath

theorem mangled_of_mangled (status : ℤ) (turns made elapsed : ℕ) (a : HTTPAction V T) (r : Reply)
    (h : Mangled a.url.parsed.path) :
    Mangled (follow codecs w status turns made elapsed a r).action.url.parsed.path := by
  induction turns generalizing made elapsed a r with
  | zero =>
    rw [follow, finish_action]
    exact h
  | succ turns ih =>
    by_cases htime : w.totalTimeout < elapsed
    · rw [follow, if_pos htime]
      exact h
    · exact mangled_turn codecs w (fun made elapsed a r => ih made elapsed a r) a htime

/-- **The loop leaves the path of its last turn**; the first turn is always made. -/
theorem mangled_follow (status : ℤ) {turns : ℕ} (hturns : turns ≠ 0) (a : HTTPAction V T)
    (r : Reply) : Mangled (follow codecs w status turns 0 0 a r).action.url.parsed.path := by
  obtain ⟨n, rfl⟩ := Nat.exists_eq_succ_of_ne_zero hturns
  exact mangled_turn codecs w (mangled_of_mangled codecs w status n) a (Nat.not_lt_zero _)

/-! ## 5. The status of the result -/

theorem status_failed {a : HTTPAction V T} {code : Option Bytes} {status : Option ℤ} {f : Failure}
    {r : Result} (h : (failed a code status f).result = some r) : r.status = status := by
  unfold failed at h
  dsimp only at h
  split at h
  · cases h
  · obtain rfl := Option.some.inj h
    rfl

theorem status_finish {a : HTTPAction V T} {reply : Reply} {status : ℤ} {r : Result}
    (h : (finish a reply status).result = some r) : r.status = some status := by
  rw [finish] at h
  split at h
  · exact status_failed h
  · obtain rfl := Option.some.inj h
    rfl

/-- **The loop does not change the status**, unless it is to the one of a time-out. -/
theorem status_follow {status : ℤ} {turns made elapsed : ℕ} {a : HTTPAction V T} {reply : Reply}
    {r : Result} (h : (follow codecs w status turns made elapsed a reply).result = some r) :
    r.status = some status ∨ r.status = some 408 := by
  induction turns generalizing made elapsed a reply with
  | zero => exact .inl (status_finish h)
  | succ turns ih =>
    rw [follow] at h
    split at h
    · exact .inr (status_failed h)
    · split at h
      · exact .inl (status_failed h)
      · split at h
        · exact .inl (status_failed h)
        · split at h
          · exact .inl (status_finish h)
          · exact ih h

/-! ## 6. Every chain -/

namespace Call

variable {codecs w}

/-- A call whose first response is a redirect leaves another action behind. -/
theorem action_ne_of_redirected {x : Call codecs w} (hredirects : x.redirects ≠ 0)
    (h : x.Redirected) : x.outcome.action ≠ x.action := by
  obtain ⟨r, s, hr, hs, hredirect⟩ := h
  have hout : x.outcome = follow codecs w s x.redirects 0 0 x.action r := by
    rw [outcome, execute, request, hr]
    simp only [hs, if_pos hredirect]
  obtain ⟨rest, hpath⟩ := mangled_follow codecs w s hredirects x.action r
  intro haction
  rw [← hout, haction] at hpath
  rcases x.path_eq with hnil | ⟨rest', hslash⟩
  · rw [hnil] at hpath
    rcases hpath with h | h <;> cases h
  · rw [hslash] at hpath
    rcases hpath with h | h <;> cases h

/-- Where no turn is made, the call is the one request. -/
theorem outcome_eq_ask {x : Call codecs w} (h : x.redirects = 0 ∨ ¬x.Redirected) :
    x.outcome = ask w [] x.action := by
  rw [outcome, execute, ask, request, request]
  cases hr : exchange w x.action (.make x.action.url []) with
  | error e => rfl
  | ok r =>
    dsimp only
    cases hs : statusOf r.line with
    | none => rfl
    | some s =>
      dsimp only
      split
      · next hredirect =>
        rcases h with hzero | hnot
        · rw [hzero]
          rfl
        · exact absurd ⟨r, s, hr, hs, hredirect⟩ hnot
      · rfl

/-- The chain has no hop then. -/
theorem last_eq_ask {x : Call codecs w} (h : x.redirects = 0 ∨ ¬x.Redirected) :
    x.last = ask w [] x.action := by
  obtain ⟨action, redirects, length, last, chain, length_le, path_eq⟩ := x
  cases chain with
  | last _ => rfl
  | hop hop next =>
    rcases h with hzero | hnot
    · dsimp only at hzero
      omega
    · obtain ⟨s, hs, hredirect⟩ := hop.status
      exact absurd ⟨_, s, hop.exchange_eq, hs, hredirect⟩ hnot

theorem ask_action (a : HTTPAction V T) : (ask w [] a).action = a := by
  rw [ask, request]
  split
  · rfl
  · split
    · rfl
    · exact finish_action _ _ _

/-- **Which calls follow their chain**: those that make no turn of the loop. -/
theorem followed_iff (x : Call codecs w) : x.Followed ↔ x.redirects = 0 ∨ ¬x.Redirected := by
  constructor
  · intro h
    by_contra hnot
    rw [not_or, not_not] at hnot
    exact action_ne_of_redirected hnot.1 hnot.2 h.action
  · intro h
    have hout := outcome_eq_ask h
    refine ⟨?_, ?_, ?_⟩
    · rw [hout, last_eq_ask h]
    · rw [hout, last_eq_ask h]
    · rw [hout]
      exact ask_action x.action

end Call

/-- `http://localhost/` -/
def root : URL := setPath localhost ['/']

def found : Bytes := ascii "HTTP/1.1 302 Found\nLocation: /b\n\n"

/-- A server that sends everyone to `/b` at first. -/
def detour : World Unit Unit where
  serve sent := [if sent.length = 1 then found else ascii "HTTP/1.1 200 OK\n\n"]
  resolve url l := setPath url (l.map fun b => Char.ofNat b.toNat)
  totalTimeout := 60
  elapsed _ := 0
  replace a c _ := (a, some c)

def visit : HTTPAction Unit Unit :=
  moved asciiCodecs (HTTPAction.new "GET".toList root [] .none) root

theorem readHead_found :
    readHead ⟨[], [found]⟩ =
      .ok (ascii "HTTP/1.1 302 Found\n", Dict.empty.set location (ascii "/b"), ⟨[], []⟩) := by
  have hline : readlineFast found = (ascii "HTTP/1.1 302 Found\n", ascii "Location: /b\n\n") := by
    decide +kernel
  have hlook : look [] [found] = some ⟨found, []⟩ := rfl
  have hlook' : look (ascii "Location: /b\n\n") [] = some ⟨ascii "Location: /b\n\n", []⟩ := rfl
  have hheaders : readHeaders Dict.empty ⟨ascii "Location: /b\n\n", []⟩ =
      .ok (Dict.empty.set location (ascii "/b"), ⟨[], []⟩) := by
    have htake : takeChunk (ascii "Location: /b\n\n") = (ascii "Location: /b\n", [10]) := by
      decide +kernel
    have hadd : addHeader Dict.empty (ascii "Location: /b\n") =
        Dict.empty.set location (ascii "/b") := by
      decide +kernel
    rw [readHeaders_of_wait (j := ⟨ascii "Location: /b\n\n", []⟩) rfl]
    simp only [htake, hadd]
    rw [if_pos (by decide +kernel), readHeaders_of_wait (j := ⟨[10], []⟩) rfl]
    rfl
  rw [readHead, hlook]
  simp only [hline, hlook', hheaders]

/-- The line that is read from one block. -/
theorem exchange_line (block : Bytes) {a : HTTPAction V T} {c : Connection} {r : Reply}
    (hinput : c.input = ⟨[], []⟩)
    (hserve : ∀ request, w.serve (c.sent ++ [(c.peer, request)]) = [block]) (hblock : block ≠ [])
    (h : exchange w a c = .ok r) : r.line = (readlineFast block).1 := by
  rw [exchange] at h
  split at h
  · cases h
  · next request _ =>
    have hi : (c.write w request).input = ⟨[], [block]⟩ := by
      rw [Connection.write, hinput, hserve]
      rfl
    have hlook : look [] [block] = some ⟨block, []⟩ := by
      rw [look, List.nil_append, if_neg hblock]
    rw [hi, readHead, hlook] at h
    dsimp only at h
    split at h
    · cases h
    · next hhead =>
      obtain rfl := Except.ok.inj h
      split at hhead
      · cases hhead
      · split at hhead
        · cases hhead
        · exact (Prod.mk.inj (Except.ok.inj hhead)).1.symm

theorem not_followed : ¬∀ x : Call asciiCodecs detour, x.Followed := by
  intro h
  have hwritten : visit.written.isSome := by decide +kernel
  obtain ⟨request, hrequest⟩ := Option.isSome_iff_exists.mp hwritten
  have hexchange : exchange detour visit (.make root []) =
      .ok ⟨ascii "HTTP/1.1 302 Found\n", Dict.empty.set location (ascii "/b"),
        ⟨endpoint root, [(endpoint root, request)], ⟨[], []⟩⟩⟩ := by
    rw [exchange, hrequest]
    have hinput : ((Connection.make root []).write detour request).input = ⟨[], [found]⟩ := rfl
    dsimp only
    rw [hinput, readHead_found]
    rfl
  have hstatus : statusOf (ascii "HTTP/1.1 302 Found\n") = some 302 := by decide +kernel
  have hchain : Chain asciiCodecs detour [] visit 1 _ :=
    .hop ⟨hexchange, ⟨302, hstatus, by decide⟩, Dict.get?_set_self _ _ _⟩ <| .last fun r l hto => by
      obtain ⟨s, hs, hredirect⟩ := hto.status
      rw [exchange_line detour (ascii "HTTP/1.1 200 OK\n\n") rfl (fun _ => rfl) (by decide)
        hto.exchange_eq] at hs
      have hok : statusOf (readlineFast (ascii "HTTP/1.1 200 OK\n\n")).1 = some 200 := by
        decide +kernel
      obtain rfl := Option.some.inj (hok.symm.trans hs)
      exact absurd hredirect (by decide)
  exact Call.action_ne_of_redirected (x := ⟨visit, 1, 1, _, hchain, le_refl 1, .inr ⟨[], rfl⟩⟩)
    Nat.one_ne_zero ⟨_, 302, hexchange, hstatus, by decide⟩ (h _).action

end Redirects
end Engines
end Hedra
