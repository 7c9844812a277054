/-
# Middleware around an endpoint

`Controller.apply_method` (`distributed/service/controller.py`) wraps the method of an endpoint by
each middleware of the controller in turn, so that the last of them is outermost.  A wrapper is
called with a request.  It runs its middleware before its handler, behind it, or on both sides, and
the middleware can answer the request in place of the handler.

What is nested in the source is flattened here into a way in and a way out: the request passes the wrappers
from the outside in until one of them answers it, or until it comes to the method; and what comes back
passes the wrappers that have been entered from the inside out.

A `__run__` of one's own could call its handler twice (to try again), or with another request.  Such
middleware is left out.

* `run_applyMethod`: a call is the way in, the method if it is reached, and the way out, effects and
  exceptions included;
* `reaches_filter`: who keeps a request from the method: the first middleware, and what is not
  unidirectional.
-/
import Mathlib.Data.List.Induction

namespace Hedra
namespace Wrappers

/-! ## 1. Middleware -/

/-- What is served: it may change what it shares with other handlers, and it may raise. -/
abbrev Serving (σ ε α : Type) := ExceptT ε (StateM σ) α

/-- What a wrapper finds behind itself: what the method has returned, or a response. -/
inductive Result (R D : Type)
  | returned (data : D)
  | response (response : R)

/-- What wrappers do with responses. -/
structure Responses (σ ε R D : Type) where
  /-- `result.headers.update(response.headers)` -/
  updateHeaders : R → R → Serving σ ε R
  /-- `if response.data: result.data = response.data` -/
  takeData : R → R → Serving σ ε R
  /-- `response.data = result` -/
  setData : R → D → Serving σ ε R

/-- Middleware, by what its wrapper calls.  `Q` is a request, `R` a response and `D` what methods return. -/
inductive Middleware (σ ε Q R D : Type)
  /-- `__pre__` and `__post__` -/
  | bidirectional (pre : Q → Serving σ ε ((Q × R × ℕ) × Bool))
      (post : Q → Result R D → ℕ → Serving σ ε ((Q × R × ℕ) × Bool))
  /-- `__run__` up to where it would call the handler, if it does not answer before, and from where the
  handler has returned or raised, or has been given up after a while.  It calls the handler once at most,
  and with the request it was called with, as the middleware of hedra does. -/
  | call (before : Q → Serving σ ε (Option (R × ℕ)))
      (after : Q → Except ε (Result R D × ℕ) → Serving σ ε (R × ℕ))
  /-- `__run__`, which is without a response if it runs before the method. -/
  | unidirectionalBefore (run : Q → Option (Result R D × ℕ) → Serving σ ε ((R × ℕ) × Bool))
  | unidirectionalAfter (run : Q → Option (Result R D × ℕ) → Serving σ ε ((R × ℕ) × Bool))

variable {σ ε Q R D : Type}

/-- The type is one of the two that `UnidirectionalWrapper` is for. -/
def Middleware.isUnidirectional : Middleware σ ε Q R D → Bool
  | .bidirectional _ _ | .call _ _ => false
  | .unidirectionalBefore _ | .unidirectionalAfter _ => true

/-! ## 2. Wrappers -/

/-- `try` -/
def attempt {α : Type} (x : Serving σ ε α) : Serving σ ε (Except ε α) := ExceptT.lift x.run

/-- `return response, status`, or what the middleware has answered with where `run_next` is `False`. -/
def answer (response : R) (status middlewareStatus : ℕ) (runNext : Bool) : R × ℕ :=
  (response, if runNext then status else middlewareStatus)

section Calls

variable (O : Responses σ ε R D)

/-- `__call__` of a wrapper whose handler is the method. -/
def aroundMethod (m : Middleware σ ε Q R D) (method : Q → Serving σ ε (D × ℕ)) (request : Q) :
    Serving σ ε (R × ℕ) :=
  match m with
  | .unidirectionalBefore run => do
    let ((response, middlewareStatus), runNext) ← run request none
    if runNext then
      let (result, status) ← method request
      let response ← O.setData response result
      return (response, status)
    else return (response, middlewareStatus)
  | .unidirectionalAfter run => do
    let (result, status) ← method request
    let ((response, middlewareStatus), runNext) ← run request (some (.returned result, status))
    return answer response status middlewareStatus runNext
  | .bidirectional pre post => do
    let ((request, response, middlewareStatus), runNext) ← pre request
    if runNext then
      let (result, status) ← method request
      let ((_, response, middlewareStatus), runNext) ← post request (.returned result) status
      return answer response status middlewareStatus runNext
    else return (response, middlewareStatus)
  | .call before after => do
    match ← before request with
    | some reply => return reply
    | none =>
      let outcome ← attempt (method request)
      after request (outcome.map fun (result, status) => (.returned result, status))

/-- `__call__` of a wrapper whose handler is a wrapper. -/
def aroundWrapper (m : Middleware σ ε Q R D) (handler : Q → Serving σ ε (R × ℕ)) (request : Q) :
    Serving σ ε (R × ℕ) :=
  match m with
  | .unidirectionalBefore run | .unidirectionalAfter run => do
    let (result, status) ← handler request
    let ((response, middlewareStatus), runNext) ← run request (some (.response result, status))
    let result ← O.updateHeaders result response
    let result ← O.takeData result response
    if runNext then return (result, status) else return (response, middlewareStatus)
  | .bidirectional pre post => do
    let ((request, response, middlewareStatus), runNext) ← pre request
    if runNext then
      let (result, status) ← handler request
      let result ← O.updateHeaders result response
      let ((_, response, middlewareStatus), runNext) ← post request (.response result) status
      return answer response status middlewareStatus runNext
    else return (response, middlewareStatus)
  | .call before after => do
    match ← before request with
    | some reply => return reply
    | none =>
      let outcome ← attempt (handler request)
      after request (outcome.map fun (result, status) => (.response result, status))

/-- `Controller.apply_method`: the method in the wrapper of `m`, and that one in the wrappers of `ms`. -/
def applyMethod (method : Q → Serving σ ε (D × ℕ)) (m : Middleware σ ε Q R D)
    (ms : List (Middleware σ ε Q R D)) : Q → Serving σ ε (R × ℕ) :=
  ms.foldl (fun handler m => aroundWrapper O m handler) (aroundMethod O m method)

end Calls

/-! ## 3. The way in and the way out -/

/-- What comes back: a response with its status, or an exception. -/
abbrev Reply (ε R : Type) := Except ε (R × ℕ)

/-- To go on with what has come back. -/
def resume {α : Type} (outcome : Except ε α) : Serving σ ε α := ExceptT.mk (pure outcome)

/-- What becomes of a request at a wrapper around a wrapper. -/
inductive Entered (σ ε Q R : Type)
  | answered (reply : Reply ε R)
  /-- The handler is called, and the wrapper is left with its reply. -/
  | passed (request : Q) (leave : Reply ε R → StateM σ (Reply ε R))

/-- The rest of the call. -/
def Entered.proceed (handler : Q → Serving σ ε (R × ℕ)) : Entered σ ε Q R → StateM σ (Reply ε R)
  | .answered reply => pure reply
  | .passed request leave => (handler request).run >>= leave

/-- What becomes of a request at the wrapper around the method. -/
inductive Reached (σ ε Q R D : Type)
  | answered (reply : Reply ε R)
  | method (request : Q) (leave : Except ε (D × ℕ) → StateM σ (Reply ε R))

def Reached.proceed (method : Q → Serving σ ε (D × ℕ)) : Reached σ ε Q R D → StateM σ (Reply ε R)
  | .answered reply => pure reply
  | .method request leave => (method request).run >>= leave

section Ways

variable (O : Responses σ ε R D)

def enterWrapper (m : Middleware σ ε Q R D) (request : Q) : StateM σ (Entered σ ε Q R) :=
  match m with
  | .unidirectionalBefore run | .unidirectionalAfter run =>
    return .passed request fun reply => ExceptT.run do
      let (result, status) ← resume reply
      let ((response, middlewareStatus), runNext) ← run request (some (.response result, status))
      let result ← O.updateHeaders result response
      let result ← O.takeData result response
      if runNext then return (result, status) else return (response, middlewareStatus)
  | .bidirectional pre post => do
    match ← (pre request).run with
    | .error e => return .answered (.error e)
    | .ok ((request, response, middlewareStatus), runNext) =>
      if runNext then
        return .passed request fun reply => ExceptT.run do
          let (result, status) ← resume reply
          let result ← O.updateHeaders result response
          let ((_, response, middlewareStatus), runNext) ← post request (.response result) status
          return answer response status middlewareStatus runNext
      else return .answered (.ok (response, middlewareStatus))
  | .call before after => do
    match ← (before request).run with
    | .error e => return .answered (.error e)
    | .ok (some reply) => return .answered (.ok reply)
    | .ok none =>
      return .passed request fun reply =>
        (after request (reply.map fun (result, status) => (.response result, status))).run

def enterMethod (m : Middleware σ ε Q R D) (request : Q) : StateM σ (Reached σ ε Q R D) :=
  match m with
  | .unidirectionalBefore run => do
    match ← (run request none).run with
    | .error e => return .answered (.error e)
    | .ok ((response, middlewareStatus), runNext) =>
      if runNext then
        return .method request fun outcome => ExceptT.run do
          let (result, status) ← resume outcome
          let response ← O.setData response result
          return (response, status)
      else return .answered (.ok (response, middlewareStatus))
  | .unidirectionalAfter run =>
    return .method request fun outcome => ExceptT.run do
      let (result, status) ← resume outcome
      let ((response, middlewareStatus), runNext) ← run request (some (.returned result, status))
      return answer response status middlewareStatus runNext
  | .bidirectional pre post => do
    match ← (pre request).run with
    | .error e => return .answered (.error e)
    | .ok ((request, response, middlewareStatus), runNext) =>
      if runNext then
        return .method request fun outcome => ExceptT.run do
          let (result, status) ← resume outcome
          let ((_, response, middlewareStatus), runNext) ← post request (.returned result) status
          return answer response status middlewareStatus runNext
      else return .answered (.ok (response, middlewareStatus))
  | .call before after => do
    match ← (before request).run with
    | .error e => return .answered (.error e)
    | .ok (some reply) => return .answered (.ok reply)
    | .ok none =>
      return .method request fun outcome =>
        (after request (outcome.map fun (result, status) => (.returned result, status))).run

/-- The way in through wrappers around that of `m`, the outermost of them first, with the wrappers that are
left to leave, from the inside out. -/
def enter (m : Middleware σ ε Q R D) : List (Middleware σ ε Q R D) → Q →
    StateM σ (Reached σ ε Q R D × List (Reply ε R → StateM σ (Reply ε R)))
  | [], request => do return (← enterMethod O m request, [])
  | m' :: ms, request => do
    match ← enterWrapper O m' request with
    | .answered reply => return (.answered reply, [])
    | .passed request leave => do
      let (reached, left) ← enter m ms request
      return (reached, left ++ [leave])

/-- The way out. -/
def leaveAll (left : List (Reply ε R → StateM σ (Reply ε R))) (reply : Reply ε R) : StateM σ (Reply ε R) :=
  left.foldlM (fun reply leave => leave reply) reply

theorem run_attempt_bind {α β : Type} (x : Serving σ ε α) (f : Except ε α → Serving σ ε β) :
    (attempt x >>= f).run = x.run >>= fun outcome => (f outcome).run := by
  simp [attempt]

/-- To go on is to look at what has come back. -/
theorem run_bind_eq {α β : Type} (x : Serving σ ε α) (f : α → Serving σ ε β) :
    (x >>= f).run = x.run >>= fun outcome => (resume outcome >>= f).run := by
  rw [ExceptT.run_bind]
  refine congrArg _ (funext fun outcome => ?_)
  cases outcome <;> rfl

theorem run_aroundWrapper (m : Middleware σ ε Q R D) (handler : Q → Serving σ ε (R × ℕ)) (request : Q) :
    (aroundWrapper O m handler request).run = enterWrapper O m request >>= Entered.proceed handler := by
  cases m with
  | unidirectionalBefore run | unidirectionalAfter run =>
    simp only [aroundWrapper, enterWrapper, pure_bind, Entered.proceed]
    exact run_bind_eq _ _
  | bidirectional pre post =>
    simp only [aroundWrapper, enterWrapper]
    rw [ExceptT.run_bind, bind_assoc]
    refine congrArg _ (funext fun outcome => ?_)
    obtain e | ⟨⟨request, response, status⟩, runNext⟩ := outcome
    · rfl
    · cases runNext with
      | false => rfl
      | true => exact run_bind_eq _ _
  | call before after =>
    simp only [aroundWrapper, enterWrapper]
    rw [ExceptT.run_bind, bind_assoc]
    refine congrArg _ (funext fun outcome => ?_)
    obtain e | ⟨_ | reply⟩ := outcome
    · rfl
    · exact run_attempt_bind _ _
    · rfl

theorem run_aroundMethod (m : Middleware σ ε Q R D) (method : Q → Serving σ ε (D × ℕ)) (request : Q) :
    (aroundMethod O m method request).run = enterMethod O m request >>= Reached.proceed method := by
  cases m with
  | unidirectionalAfter run =>
    simp only [aroundMethod, enterMethod, pure_bind, Reached.proceed]
    exact run_bind_eq _ _
  | unidirectionalBefore run =>
    simp only [aroundMethod, enterMethod]
    rw [ExceptT.run_bind, bind_assoc]
    refine congrArg _ (funext fun outcome => ?_)
    obtain e | ⟨⟨response, status⟩, runNext⟩ := outcome
    · rfl
    · cases runNext with
      | false => rfl
      | true => exact run_bind_eq _ _
  | bidirectional pre post =>
    simp only [aroundMethod, enterMethod]
    rw [ExceptT.run_bind, bind_assoc]
    refine congrArg _ (funext fun outcome => ?_)
    obtain e | ⟨⟨request, response, status⟩, runNext⟩ := outcome
    · rfl
    · cases runNext with
      | false => rfl
      | true => exact run_bind_eq _ _
  | call before after =>
    simp only [aroundMethod, enterMethod]
    rw [ExceptT.run_bind, bind_assoc]
    refine congrArg _ (funext fun outcome => ?_)
    obtain e | ⟨_ | reply⟩ := outcome
    · rfl
    · exact run_attempt_bind _ _
    · rfl

theorem applyMethod_concat (method : Q → Serving σ ε (D × ℕ)) (m m' : Middleware σ ε Q R D)
    (ms : List (Middleware σ ε Q R D)) :
    applyMethod O method m (ms ++ [m']) = aroundWrapper O m' (applyMethod O method m ms) :=
  List.foldl_append

theorem leaveAll_nil : leaveAll ([] : List (Reply ε R → StateM σ (Reply ε R))) = pure := by
  funext reply
  rfl

theorem leaveAll_concat (left : List (Reply ε R → StateM σ (Reply ε R)))
    (leave : Reply ε R → StateM σ (Reply ε R)) :
    leaveAll (left ++ [leave]) = fun reply => leaveAll left reply >>= leave := by
  funext reply
  simp [leaveAll]

/-- **A call is the way in, the method if it is reached, and the way out.** -/
theorem run_applyMethod (method : Q → Serving σ ε (D × ℕ)) (m : Middleware σ ε Q R D)
    (ms : List (Middleware σ ε Q R D)) (request : Q) :
    (applyMethod O method m ms request).run =
      enter O m ms.reverse request >>= fun (reached, left) => reached.proceed method >>= leaveAll left := by
  induction ms using List.reverseRecOn generalizing request with
  | nil =>
    change (aroundMethod O m method request).run = _
    rw [run_aroundMethod]
    simp [enter, leaveAll_nil]
  | append_singleton ms m' ih =>
    rw [applyMethod_concat, run_aroundWrapper, List.reverse_concat, enter, bind_assoc]
    refine congrArg _ (funext fun entered => ?_)
    cases entered with
    | answered reply => simp [Entered.proceed, Reached.proceed, leaveAll_nil]
    | passed request leave => simp [Entered.proceed, ih, leaveAll_concat]

end Ways

/-! ## 4. Which requests reach the method -/

section Reaching

variable (O : Responses σ ε R D)

/-- The request that the method is called with. -/
def Reached.request : Reached σ ε Q R D → Option Q
  | .answered _ => none
  | .method request _ => some request

/-- The request that the method is called with, if it is, behind the way in. -/
def reaches (m : Middleware σ ε Q R D) (ms : List (Middleware σ ε Q R D)) (request : Q) :
    StateM σ (Option Q) :=
  (fun entered => entered.1.request) <$> enter O m ms.reverse request

theorem map_enter_filter (m : Middleware σ ε Q R D) (ms : List (Middleware σ ε Q R D)) (request : Q) :
    (fun entered => entered.1.request) <$> enter O m ms request =
      (fun entered => entered.1.request) <$> enter O m (ms.filter fun m => !m.isUnidirectional) request := by
  induction ms generalizing request with
  | nil => rfl
  | cons m' ms ih =>
    cases m' with
    | unidirectionalBefore run | unidirectionalAfter run =>
      rw [List.filter_cons_of_neg (by simp [Middleware.isUnidirectional]), ← ih]
      simp [enter, enterWrapper]
    | bidirectional pre post | call before after =>
      rw [List.filter_cons_of_pos (by simp [Middleware.isUnidirectional])]
      simp only [enter, map_bind]
      refine congrArg _ (funext fun entered => ?_)
      cases entered with
      | answered reply => rfl
      | passed request leave => simpa using ih request

/-- **Only the first middleware, and what is not unidirectional, keeps a request from the method.** -/
theorem reaches_filter (m : Middleware σ ε Q R D) (ms : List (Middleware σ ε Q R D)) (request : Q) :
    reaches O m ms request = reaches O m (ms.filter fun m => !m.isUnidirectional) request := by
  rw [reaches, map_enter_filter, List.filter_reverse, reaches]

end Reaching

end Wrappers
end Hedra
