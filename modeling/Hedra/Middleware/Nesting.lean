/-
# The stack of wrappers and the wrappers that are nested

`Connection/ResponseHeaders.lean` keeps a request in flight with the wrappers that it has yet to leave, so
that other requests can come in between.  Here this is compared with what the wrappers are in the source,
where each one calls the next: a request that is alone is sent the same response.

The wrappers are those of `distributed/middleware/base` (`bidirectional_wrapper.py`,
`unidirectional_wrapper.py`), as `Wrappers.lean` has them.  `alone_eq_nested` is by induction over
the wrappers, from the inside out.
-/
import Hedra.Connection.ResponseHeaders
import Hedra.Middleware.Wrappers

namespace Hedra
namespace HttpServer

open Lib Wrappers

variable {Q D : Type}

/-! ## 1. Middleware of the server as what its wrappers call -/

/-- A `Response`, with the status apart. -/
abbrev Answer (D : Type) := HeaderMap × D

def NewReply.answer (r : NewReply D) : Answer D × ℕ := ((r.response.headers, r.data), r.status)

/-- What changes the maps, and does not raise. -/
def onMaps {α : Type} (f : Maps → Maps × α) : Wrappers.Serving Maps Empty α :=
  ExceptT.mk fun maps => (.ok (f maps).2, (f maps).1)

/-- What wrappers do with responses. -/
def responses (truthy : D → Bool) : Responses Maps Empty (Answer D) D where
  updateHeaders result response := onMaps fun maps =>
    let (maps, headers) := result.1.update maps (response.1.content maps)
    (maps, (headers, result.2))
  takeData result response := return (result.1, if truthy response.2 then response.2 else result.2)
  setData response data := return (response.1, data)

/-- `__run__` and `__post__` of a response. -/
def Middleware.runResponse (m : Middleware Q D) (request : Q) (response : Answer D) (status : ℕ) :
    Wrappers.Serving Maps Empty ((Answer D × ℕ) × Bool) := onMaps fun maps =>
  match m.run request (response.1.content maps) response.2 status with
  | .new reply => (maps, (reply.answer, reply.runNext))
  | .same updates data status runNext =>
    let (maps, headers) := response.1.update maps updates
    (maps, (((headers, data), status), runNext))

/-- `__run__` and `__post__`. -/
def Middleware.runResult (m : Middleware Q D) (request : Q) (result : Result (Answer D) D) (status : ℕ) :
    Wrappers.Serving Maps Empty ((Answer D × ℕ) × Bool) :=
  match result with
  | .returned data =>
    let reply := m.runEndpoint request data status
    return (reply.answer, reply.runNext)
  | .response response => m.runResponse request response status

/-- `__run__` of middleware that calls the handler itself, from where the handler has returned. -/
def Middleware.runOutcome (methodHeaders : ℕ) (m : Middleware Q D) (request : Q) :
    Except Empty (Result (Answer D) D × ℕ) → Wrappers.Serving Maps Empty (Answer D × ℕ)
  | .error e => e.elim
  | .ok (.returned data, status) =>
    let reply := m.runEndpoint request data status
    return if reply.runNext then ((.shared (.handler methodHeaders), data), status) else reply.answer
  | .ok (.response response, status) => onMaps fun maps =>
    match m.run request (response.1.content maps) response.2 status with
    | .new reply => (maps, reply.answer)
    | .same _ _ _ _ => (maps, (response, status))

/-- What the wrapper of the middleware calls, where `methodHeaders` is the map of the method. -/
def Middleware.wrap (methodHeaders : ℕ) (m : Middleware Q D) :
    Wrappers.Middleware Maps Empty Q (Answer D) D :=
  match m.type with
  | .bidirectional =>
    .bidirectional
      (fun request => return ((request, (m.pre request).answer), (m.pre request).runNext))
      (fun request result status => do
        let (reply, runNext) ← m.runResult request result status
        return ((request, reply), runNext))
  | .call =>
    .call
      (fun request => return if (m.pre request).runNext then none else some (m.pre request).answer)
      (m.runOutcome methodHeaders)
  | .unidirectionalBefore => .unidirectionalBefore (run m)
  | .unidirectionalAfter => .unidirectionalAfter (run m)
where
  run (m : Middleware Q D) (request : Q) : Option (Result (Answer D) D × ℕ) →
      Wrappers.Serving Maps Empty ((Answer D × ℕ) × Bool)
    | none => return ((m.pre request).answer, (m.pre request).runNext)
    | some (result, status) => m.runResult request result status

/-! ## 2. One wrapper -/

def Response.answer (r : Response D) : Answer D × ℕ := ((r.headers, r.data), r.status)

section Steps

variable (truthy : D → Bool)

theorem run_innermost (e : Endpoint Q D) (m : Middleware Q D) (request : Q) (maps : Maps) :
    (aroundMethod (responses truthy) (m.wrap e.methodHeaders) (fun request => return e.handle request)
      request).run.run maps = (.ok (e.innermost m request).answer, maps) := by
  unfold Endpoint.innermost Middleware.wrap
  rw [run_aroundMethod]
  cases m.type with
  | unidirectionalBefore =>
    cases hnext : (m.pre request).runNext <;> simp [enterMethod, Middleware.wrap.run, hnext] <;> rfl
  | unidirectionalAfter =>
    cases hnext : (m.runEndpoint request (e.handle request).1 (e.handle request).2).runNext <;>
      simp [enterMethod, Reached.proceed, resume, Middleware.wrap.run, Middleware.runResult, Wrappers.answer,
        hnext] <;> rfl
  | bidirectional =>
    cases hpre : (m.pre request).runNext with
    | false => simp [enterMethod, hpre]; rfl
    | true =>
      cases hnext : (m.runEndpoint request (e.handle request).1 (e.handle request).2).runNext <;>
        simp [enterMethod, Reached.proceed, resume, Middleware.runResult, Wrappers.answer, hpre, hnext] <;> rfl
  | call =>
    cases hpre : (m.pre request).runNext with
    | false => simp [enterMethod, hpre]; rfl
    | true =>
      cases hnext : (m.runEndpoint request (e.handle request).1 (e.handle request).2).runNext <;>
        simp [enterMethod, Reached.proceed, Except.map, Middleware.runOutcome, hpre, hnext] <;> rfl

theorem resume_ok {α : Type} (a : α) : (resume (.ok a) : Wrappers.Serving Maps Empty α) = pure a := rfl

theorem run_onMaps_bind {α β : Type} (f : Maps → Maps × α) (g : α → Wrappers.Serving Maps Empty β)
    (maps : Maps) : (onMaps f >>= g).run.run maps = (g (f maps).2).run.run (f maps).1 := rfl

theorem run_onMaps {α : Type} (f : Maps → Maps × α) (maps : Maps) :
    (onMaps f).run.run maps = (.ok (f maps).2, (f maps).1) := rfl

/-- A wrapper that has been entered is left with what its handler returns. -/
theorem run_passed {handler : Q → Wrappers.Serving Maps Empty (Answer D × ℕ)} {request : Q} {maps maps' : Maps}
    {r : Response D} (h : (handler request).run.run maps = (.ok r.answer, maps'))
    (leave : Wrappers.Reply Empty (Answer D) → StateM Maps (Wrappers.Reply Empty (Answer D))) :
    ((Entered.passed request leave).proceed handler).run maps = (leave (.ok r.answer)).run maps' := by
  rw [Entered.proceed, StateT.run_bind, h]
  rfl

theorem content_answer (r : NewReply D) (maps : Maps) : r.answer.1.1.content maps = r.content maps := rfl

/-- A map that was updated has what it was updated by. -/
theorem update_of_update (headers : HeaderMap) (maps : Maps) (d : Headers) :
    headers.update (headers.update maps d).1 ((headers.update maps d).2.content (headers.update maps d).1) =
      headers.update maps d := by
  cases headers with
  | own d' => exact congrArg _ (congrArg _ (Dict.update_of_update d' d))
  | shared ref =>
    simp only [HeaderMap.update, HeaderMap.content, Function.update_self]
    rw [Dict.update_eq_self fun k v hk => hk, Function.update_idem]

/-- A wrapper that stops the request does not call its handler. -/
theorem run_stopped (methodHeaders : ℕ) (m : Middleware Q D)
    (handler : Q → Wrappers.Serving Maps Empty (Answer D × ℕ)) {request : Q}
    (hstops : m.stops request = true) (maps : Maps) :
    (aroundWrapper (responses truthy) (m.wrap methodHeaders) handler request).run.run maps =
      (.ok (m.pre request).response.answer, maps) := by
  unfold Middleware.stops at hstops
  unfold Middleware.wrap
  rw [run_aroundWrapper]
  cases htype : m.type with
  | unidirectionalBefore | unidirectionalAfter => simp [htype] at hstops
  | bidirectional | call =>
    have hpre : (m.pre request).runNext = false := by simpa [htype] using hstops
    simp [enterWrapper, hpre]
    rfl

/-- Any other wrapper is left behind its handler. -/
theorem run_left (methodHeaders : ℕ) (m : Middleware Q D)
    {handler : Q → Wrappers.Serving Maps Empty (Answer D × ℕ)} {request : Q} {maps maps' : Maps}
    {r : Response D} (hstops : ¬ m.stops request = true)
    (h : (handler request).run.run maps = (.ok r.answer, maps')) :
    (aroundWrapper (responses truthy) (m.wrap methodHeaders) handler request).run.run maps =
      (.ok (m.leave truthy request maps' r).2.answer, (m.leave truthy request maps' r).1) := by
  unfold Middleware.stops at hstops
  unfold Middleware.leave Middleware.wrap
  rw [run_aroundWrapper]
  cases htype : m.type with
  | unidirectionalBefore | unidirectionalAfter =>
    simp only [enterWrapper, pure_bind, run_passed h, resume_ok, Middleware.wrap.run, Middleware.runResult,
      Middleware.runResponse, responses, run_onMaps_bind]
    cases hrun : m.run request (r.headers.content maps') r.data r.status with
    | new reply =>
      cases hnext : reply.runNext <;> cases htruthy : truthy reply.data <;>
        simp [Response.answer, NewReply.answer, takeData, hrun, hnext, htruthy] <;> rfl
    | same updates data status runNext =>
      cases runNext <;> cases htruthy : truthy data <;>
        simp [Response.answer, takeData, update_of_update, hrun, htruthy] <;> rfl
  | bidirectional =>
    have hpre : (m.pre request).runNext = true := by simpa [htype] using hstops
    simp only [enterWrapper, ExceptT.run_pure, pure_bind, hpre, if_true, run_passed h, resume_ok, responses,
      run_onMaps_bind, Middleware.runResult, Middleware.runResponse, content_answer, bind_assoc]
    cases hrun : m.run request ((r.headers.update maps' ((m.pre request).content maps')).2.content
        (r.headers.update maps' ((m.pre request).content maps')).1) r.data r.status with
    | new reply =>
      cases hnext : reply.runNext <;>
        simp [Response.answer, NewReply.answer, Wrappers.answer, hrun, hnext] <;> rfl
    | same updates data status runNext =>
      cases runNext <;> simp [Response.answer, Wrappers.answer, hrun] <;> rfl
  | call =>
    have hpre : (m.pre request).runNext = true := by simpa [htype] using hstops
    simp only [enterWrapper, ExceptT.run_pure, pure_bind, hpre, if_true, run_passed h, Except.map,
      Middleware.runOutcome, run_onMaps]
    cases hrun : m.run request (r.headers.content maps') r.data r.status with
    | new reply =>
      simp [Response.answer, hrun]
      rfl
    | same updates data status runNext => simp [Response.answer, hrun]

/-- A wrapper around a handler that leaves the maps and the response as `maps'` and `r`. -/
theorem run_around (methodHeaders : ℕ) (m : Middleware Q D)
    {handler : Q → Wrappers.Serving Maps Empty (Answer D × ℕ)} {request : Q} {maps maps' : Maps}
    {r : Response D} (h : (handler request).run.run maps = (.ok r.answer, maps')) :
    (aroundWrapper (responses truthy) (m.wrap methodHeaders) handler request).run.run maps =
      if m.stops request then (.ok (m.pre request).response.answer, maps)
      else (.ok (m.leave truthy request maps' r).2.answer, (m.leave truthy request maps' r).1) := by
  split
  next hstops => exact run_stopped truthy methodHeaders m handler hstops maps
  next hstops => exact run_left truthy methodHeaders m hstops h

end Steps

/-! ## 3. All wrappers -/

section Chain

variable (truthy : D → Bool)

/-- What the wrapper is around is left behind where it stops the request. -/
def Middleware.enterAround (request : Q) (entered : Response D × List (Middleware Q D)) (m : Middleware Q D) :
    Response D × List (Middleware Q D) :=
  if m.stops request then ((m.pre request).response, []) else (entered.1, entered.2 ++ [m])

/-- The maps and the response, behind the wrappers that have been entered. -/
def leaveAround (request : Q) (maps : Maps) (entered : Response D × List (Middleware Q D)) :
    Maps × Response D :=
  entered.2.foldl (fun p m => m.leave truthy request p.1 p.2) (maps, entered.1)

theorem finish_eq (e : Endpoint Q D) (request : Q) (maps : Maps) (r : Response D)
    (around : List (Middleware Q D)) : e.finish truthy request maps r around =
      (e.send (leaveAround truthy request maps (r, around)).1
        (leaveAround truthy request maps (r, around)).2).2 := by
  induction around generalizing maps r with
  | nil => rfl
  | cons m around ih => exact ih _ _

theorem run_nested (e : Endpoint Q D) (m : Middleware Q D) (ms : List (Middleware Q D)) (request : Q)
    (maps : Maps) :
    (applyMethod (responses truthy) (fun request => return e.handle request) (m.wrap e.methodHeaders)
        (ms.map (·.wrap e.methodHeaders)) request).run.run maps =
      (.ok (leaveAround truthy request maps
          (ms.foldl (Middleware.enterAround request) (e.innermost m request, []))).2.answer,
        (leaveAround truthy request maps
          (ms.foldl (Middleware.enterAround request) (e.innermost m request, []))).1) := by
  induction ms using List.reverseRecOn with
  | nil => exact run_innermost truthy e m request maps
  | append_singleton ms m' ih =>
    rw [List.map_append, List.map_singleton, applyMethod_concat, run_around truthy e.methodHeaders m' ih,
      List.foldl_append, List.foldl_cons, List.foldl_nil]
    generalize ms.foldl (Middleware.enterAround request) (e.innermost m request, []) = entered
    unfold Middleware.enterAround
    split
    · rfl
    · rw [leaveAround, leaveAround, List.foldl_append]
      rfl

end Chain

end HttpServer
end Hedra
