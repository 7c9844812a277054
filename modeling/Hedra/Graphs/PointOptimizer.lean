/-
# The point optimizer

`PointOptimizer.optimize`
(`core/graphs/stages/optimize/optimization/algorithms/types/point_optimizer.py`) looks for the value
of each parameter at which an objective is off its target the least: it evaluates the objective at
one value, and the error it gets decides the next one, for as many turns as there are iterations.
In the end it takes the value with the smallest mean of the absolute errors.

An error of zero is taken for none, so that nothing is recorded of a hit.  A value below one becomes
one, whatever the bounds are.  And where nothing has been recorded of a parameter the minimum of no
values is taken.  In all other runs the optimizer does what it should.

The floats are exact rationals, and the objective is any function of the number of the evaluation and
the values.

* `inv_iterate`: one iteration keeps the invariant;
* `optimize_isSome_iff`: exactly when the optimizer does not fail;
* `point_optimizer_runs`: what a regular run does, and that.
-/
import Mathlib.Algebra.Order.Field.Rat
import Mathlib.Data.List.Induction
import Mathlib.Data.Rat.Floor
import Hedra.Lib.Dict
import Hedra.Lib.HalfEven
import Hedra.Lib.Smoothing

namespace Hedra
namespace Graphs
namespace PointOptimizer

open Lib Lib.HalfEven
open Lib.Smoothing (mean)

/-! ## 1. Parameters and their bounds -/

inductive ParamType
  | float
  | integer
deriving DecidableEq

/-- A parameter with the value it has in the batch.  `Parameter` asserts that the maximum is greater
than the minimum. -/
structure Parameter where
  name : String
  type : ParamType
  value : ℚ
  minimum : ℚ
  maximum : ℚ
  feedForward : Bool
  lt : minimum < maximum
  value_nonneg : 0 ≤ value

namespace Parameter

/-- `_boundaries_by_param_name[param_name]` -/
def boundaries (p : Parameter) : ℚ × ℚ :=
  if p.feedForward then
    match p.type with
    | .integer => (⌊p.minimum * p.value⌋, ⌈p.maximum * p.value⌉)
    | .float => (p.minimum * p.value, p.maximum * p.value)
  else (p.minimum, p.maximum)

/-- `mean([boundary[0], boundary[1]])` -/
def middle (p : Parameter) : ℚ := (p.boundaries.1 + p.boundaries.2) / 2

/-- `int(…)`, which the objective applies to the values of such parameters as well, or `float(…)`. -/
def convert (p : Parameter) (v : ℚ) : ℚ :=
  match p.type with
  | .integer => if 0 ≤ v then ⌊v⌋ else ⌈v⌉
  | .float => v

def clamped (p : Parameter) (v : ℚ) : ℚ :=
  if v < p.boundaries.1 then p.boundaries.1 else if p.boundaries.2 < v then p.boundaries.2 else v

/-- What the next value is set to. -/
def bounded (p : Parameter) (v : ℚ) : ℚ := if p.clamped v < 1 then 1 else p.clamped v

def InBounds (p : Parameter) (v : ℚ) : Prop := p.boundaries.1 ≤ v ∧ v ≤ p.boundaries.2

end Parameter

/-- What an optimization is about.  There is a parameter at least: without one the constructor takes
`batch_size`, of which it has no `Parameter`, and raises. -/
structure Job where
  params : List Parameter
  iterations : Option ℤ
  nodup : (params.map Parameter.name).Nodup
  ne_nil : params ≠ []

/-- `max_iter` -/
def Job.maxIter (job : Job) : ℕ :=
  match job.iterations with
  | none => 10
  | some iterations => if iterations ≤ 0 then 10 else iterations.toNat

/-! ## 2. `optimize` -/

/-- What the objective returns: no error if it fails, and the target. -/
structure Measured where
  error : Option ℚ
  target : ℚ

/-- An evaluation: in whose turn it was, the values of all parameters, and what came out. -/
structure Evaluation where
  turn : String
  values : String → ℚ
  measured : Measured

structure State where
  nextParams : String → ℚ
  paramsHistory : String → List ℚ
  paramErrors : String → Dict ℚ (List ℚ)
  evaluations : List Evaluation
  raised : Bool

/-- Where the objective and the noise come from. -/
structure World where
  func : ℕ → List ℚ → Measured
  noise : ℕ → ℚ

/-- The first loop of `optimize`. -/
def init (job : Job) : State where
  nextParams := fun name => ((job.params.find? (·.name = name)).map Parameter.middle).getD 0
  paramsHistory := fun name => ((job.params.find? (·.name = name)).map Parameter.middle).toList
  paramErrors := fun _ => Dict.empty
  evaluations := []
  raised := false

/-- The next value before it is bounded; a target of zero may be divided by. -/
def nextParamValue (error target last noise : ℚ) : Option ℚ :=
  if 0 < error then
    let adjustmentRatio := if |error| < target then |error| / target else target / |error|
    some (last * |roundTo (adjustmentRatio + noise) 2|)
  else if target = 0 then none
  else some (last * (1 + |roundTo (|error| / target + noise) 2|))

/-- `_compute_next_params` -/
def computeNextParams (p : Parameter) (error target noise : ℚ) (s : State) : State :=
  match (s.paramsHistory p.name).getLast? with
  | none => { s with raised := true }
  | some last =>
    match nextParamValue error target last noise with
    | none => { s with raised := true }
    | some v =>
      if 0 < error + target then
        let errors := s.paramErrors p.name
        { s with
          nextParams := Function.update s.nextParams p.name (p.bounded v)
          paramsHistory := Function.update s.paramsHistory p.name
            (s.paramsHistory p.name ++ [p.bounded v])
          paramErrors := Function.update s.paramErrors p.name
            (errors.set last ((errors.get? last).getD [] ++ [|error|])) }
      else s

/-- The `else` of the loop: back to the middle. -/
def reset (p : Parameter) (s : State) : State :=
  { s with
    nextParams := Function.update s.nextParams p.name p.middle
    paramsHistory := Function.update s.paramsHistory p.name (s.paramsHistory p.name ++ [p.middle]) }

/-- One iteration in the turn of a parameter. -/
def iterate (job : Job) (world : World) (s : State) (p : Parameter) : State :=
  if s.raised then s
  else
    let measured := world.func s.evaluations.length (job.params.map fun q => s.nextParams q.name)
    let evaluated := { s with
      evaluations := s.evaluations ++ [⟨p.name, s.nextParams, measured⟩] }
    match measured.error.filter (· ≠ 0) with
    | some error =>
      computeNextParams p error measured.target (world.noise s.evaluations.length) evaluated
    | none => reset p evaluated

/-- The turns of the two loops. -/
def schedule (job : Job) : List Parameter :=
  job.params.flatMap fun p => List.replicate job.maxIter p

/-- The state behind them. -/
def run (job : Job) (world : World) : State :=
  (schedule job).foldl (iterate job world) (init job)

/-- What a parameter gets in the end. -/
structure Final where
  minimizedDistributionValue : ℚ
  minimizedErrorMean : ℚ

/-- The last loop.  Where there are no errors the minimum is that of no values, and raises. -/
def finalParam (s : State) (p : Parameter) : Option Final :=
  let errorMeans := (s.paramErrors p.name).items.map fun item => (item.1, mean item.2)
  let minimizedErrorMean := (errorMeans.map Prod.snd).min?.getD 0
  let paramValues := (errorMeans.filter fun item => item.2 = minimizedErrorMean).map Prod.fst
  paramValues.min?.map fun v => ⟨p.convert v, minimizedErrorMean⟩

def optimize (job : Job) (world : World) : Option (List (String × Final)) :=
  let s := run job world
  if s.raised then none
  else job.params.mapM fun p => (finalParam s p).map fun final => (p.name, final)

/-! ## 3. What should hold -/

/-- The absolute error of an evaluation in which something was completed. -/
def Evaluation.succeeded (ev : Evaluation) : Option ℚ :=
  match ev.measured.error with
  | some error => if 0 < error + ev.measured.target then some |error| else none
  | none => none

/-- The errors of a value in the turn of a parameter. -/
def errorsAt (evaluations : List Evaluation) (name : String) (v : ℚ) : List ℚ :=
  (evaluations.filter fun ev => ev.turn = name ∧ ev.values name = v).filterMap Evaluation.succeeded

/-- No value has a smaller mean of its errors. -/
def Best (evaluations : List Evaluation) (name : String) (v : ℚ) : Prop :=
  errorsAt evaluations name v ≠ [] ∧ ∀ u, errorsAt evaluations name u ≠ [] →
    mean (errorsAt evaluations name v) ≤ mean (errorsAt evaluations name u)

/-- **The optimizer, as it should be.** -/
structure Optimizes (job : Job) (s : State) (result : Option (List (String × Final))) : Prop where
  limit : ∀ p ∈ job.params, (s.evaluations.filter (·.turn = p.name)).length ≤ job.maxIter
  bounds : ∀ ev ∈ s.evaluations, ∀ p ∈ job.params, p.InBounds (ev.values p.name)
  returns : result.isSome
  best : ∀ finals, result = some finals → ∀ p ∈ job.params,
    (∃ ev ∈ s.evaluations, ev.turn = p.name ∧ ev.succeeded.isSome) →
      ∃ final v, (p.name, final) ∈ finals ∧ Best s.evaluations p.name v ∧
        final.minimizedDistributionValue = p.convert v ∧
        final.minimizedErrorMean = mean (errorsAt s.evaluations p.name v)

/-- A target of zero is divided by. -/
def Evaluation.Divides (ev : Evaluation) : Prop :=
  ev.measured.target = 0 ∧ ∃ error, ev.measured.error = some error ∧ error < 0

/-- The runs that the optimizer is right for: nothing is hit, no target of zero is divided by, every
parameter has an evaluation that succeeds, and bounds that reach to one. -/
structure Regular (job : Job) (s : State) : Prop where
  hits : ∀ ev ∈ s.evaluations, ev.succeeded ≠ some 0
  divides : ∀ ev ∈ s.evaluations, ¬ ev.Divides
  succeeds : ∀ p ∈ job.params, ∃ ev ∈ s.evaluations, ev.turn = p.name ∧ ev.succeeded.isSome
  reaches : ∀ p ∈ job.params, 1 ≤ p.boundaries.2

/-! ## 4. Bounds -/

namespace Parameter

theorem boundaries_le (p : Parameter) : p.boundaries.1 ≤ p.boundaries.2 := by
  have hle := mul_le_mul_of_nonneg_right p.lt.le p.value_nonneg
  unfold boundaries
  split
  · split
    · exact (Int.floor_le _).trans (hle.trans (Int.le_ceil _))
    · exact hle
  · exact p.lt.le

theorem middle_inBounds (p : Parameter) : p.InBounds p.middle := by
  have hle := p.boundaries_le
  constructor
  · rw [middle]
    linarith
  · rw [middle]
    linarith

theorem clamped_inBounds (p : Parameter) (v : ℚ) : p.InBounds (p.clamped v) := by
  have hle := p.boundaries_le
  unfold clamped
  split_ifs with hlow hhigh
  · exact ⟨le_refl _, hle⟩
  · exact ⟨hle, le_refl _⟩
  · exact ⟨not_lt.mp hlow, not_lt.mp hhigh⟩

/-- A value is set into the bounds, if they reach to one. -/
theorem bounded_inBounds {p : Parameter} (h : 1 ≤ p.boundaries.2) (v : ℚ) :
    p.InBounds (p.bounded v) := by
  obtain ⟨hlow, hhigh⟩ := p.clamped_inBounds v
  unfold bounded
  split
  · next hlt => exact ⟨hlow.trans hlt.le, h⟩
  · exact ⟨hlow, hhigh⟩

end Parameter

variable {job : Job} {world : World} {s : State} {p : Parameter}

theorem eq_of_name (hp : p ∈ job.params) {q : Parameter} (hq : q ∈ job.params)
    (h : q.name = p.name) : q = p :=
  List.inj_on_of_nodup_map job.nodup hq hp h

/-! ## 5. One iteration -/

/-- The absolute error that is recorded of an evaluation. -/
def Evaluation.recorded (ev : Evaluation) : Option ℚ :=
  match ev.measured.error with
  | some error => if error ≠ 0 ∧ 0 < error + ev.measured.target then some |error| else none
  | none => none

/-- What is recorded of a value. -/
def recordedAt (evaluations : List Evaluation) (name : String) (v : ℚ) : List ℚ :=
  (evaluations.filter fun ev => ev.turn = name ∧ ev.values name = v).filterMap Evaluation.recorded

theorem recordedAt_append (evaluations : List Evaluation) (ev : Evaluation) (name : String) (v : ℚ) :
    recordedAt (evaluations ++ [ev]) name v = recordedAt evaluations name v ++
      if ev.turn = name ∧ ev.values name = v then ev.recorded.toList else [] := by
  rw [recordedAt, List.filter_append, List.filterMap_append, ← recordedAt]
  refine congrArg _ ?_
  by_cases h : ev.turn = name ∧ ev.values name = v
  · rw [if_pos h, List.filter_cons_of_pos (by simpa using h), List.filter_nil]
    cases hrec : ev.recorded with
    | none => rw [List.filterMap_cons_none hrec]; rfl
    | some e => rw [List.filterMap_cons_some hrec]; rfl
  · rw [if_neg h, List.filter_cons_of_neg (by simpa using h)]
    rfl

/-- What every state has: the last value of a parameter's history is its next one, the errors are
those that are recorded, and it has been raised where a target of zero was divided by. -/
structure Inv (job : Job) (s : State) : Prop where
  last : ∀ p ∈ job.params, (s.paramsHistory p.name).getLast? = some (s.nextParams p.name)
  errors : ∀ name v, (s.paramErrors name).get? v =
    if recordedAt s.evaluations name v = [] then none else some (recordedAt s.evaluations name v)
  raised : s.raised = true ↔ ∃ ev ∈ s.evaluations, ev.Divides

/-- An evaluation of which nothing is recorded, and a new value. -/
theorem inv_unrecorded (h : Inv job s) {ev : Evaluation} (hrec : ev.recorded = none) {raised : Bool}
    (hraised : raised = true ↔ s.raised = true ∨ ev.Divides) {nextParams : String → ℚ}
    {paramsHistory : String → List ℚ}
    (hlast : ∀ p ∈ job.params, (paramsHistory p.name).getLast? = some (nextParams p.name)) :
    Inv job ⟨nextParams, paramsHistory, s.paramErrors, s.evaluations ++ [ev], raised⟩ := by
  refine ⟨hlast, fun name v => ?_, ?_⟩
  · rw [h.errors, recordedAt_append, hrec, Option.toList_none, ite_self, List.append_nil]
  · rw [hraised, h.raised]
    simp only [List.mem_append, List.mem_singleton, or_and_right, exists_or, exists_eq_left]

/-- A value is appended to the history of a parameter, and is its next one. -/
theorem last_update (h : Inv job s) (name : String) (v : ℚ) : ∀ p ∈ job.params,
    (Function.update s.paramsHistory name (s.paramsHistory name ++ [v]) p.name).getLast? =
      some (Function.update s.nextParams name v p.name) := by
  intro p hp
  by_cases hname : p.name = name
  · rw [hname, Function.update_self, Function.update_self, List.getLast?_concat]
  · rw [Function.update_of_ne hname, Function.update_of_ne hname]
    exact h.last p hp

/-- An error is recorded at the value that was evaluated. -/
theorem inv_recorded (h : Inv job s) {ev : Evaluation} {e : ℚ} (hrec : ev.recorded = some e)
    (hdivides : ¬ ev.Divides) (hvalues : ev.values = s.nextParams) {nextParams : String → ℚ}
    {paramsHistory : String → List ℚ}
    (hlast : ∀ p ∈ job.params, (paramsHistory p.name).getLast? = some (nextParams p.name)) :
    Inv job ⟨nextParams, paramsHistory,
      Function.update s.paramErrors ev.turn ((s.paramErrors ev.turn).set (s.nextParams ev.turn)
        (((s.paramErrors ev.turn).get? (s.nextParams ev.turn)).getD [] ++ [e])),
      s.evaluations ++ [ev], s.raised⟩ := by
  refine ⟨hlast, fun name v => ?_, ?_⟩
  · have hold := h.errors name v
    have hafter := recordedAt_append s.evaluations ev name v
    rw [hrec, Option.toList_some, hvalues] at hafter
    dsimp only
    by_cases hname : name = ev.turn
    · subst hname
      rw [Function.update_self, Dict.get?_set]
      by_cases hv : v = s.nextParams ev.turn
      · rw [if_pos ⟨rfl, hv.symm⟩] at hafter
        have hne : recordedAt s.evaluations ev.turn v ++ [e] ≠ [] := by simp
        rw [if_pos hv, ← hv, hold, hafter, if_neg hne]
        split
        · next hnil => rw [hnil]; rfl
        · rfl
      · rw [if_neg fun hand => hv hand.2.symm, List.append_nil] at hafter
        rw [if_neg hv, hafter]
        exact hold
    · rw [if_neg fun hand => hname hand.1.symm, List.append_nil] at hafter
      rw [Function.update_of_ne hname, hafter]
      exact hold
  · rw [h.raised]
    simp only [List.mem_append, List.mem_singleton, or_and_right, exists_or, exists_eq_left, hdivides,
      or_false]

/-- The adjustment divides by the target only where the error is not above zero. -/
theorem nextParamValue_eq_none_iff {error target last noise : ℚ} :
    nextParamValue error target last noise = none ↔ ¬ 0 < error ∧ target = 0 := by
  unfold nextParamValue
  split
  · next hpos => exact iff_of_false nofun fun h => h.1 hpos
  · next hneg =>
    split
    · next htarget => exact iff_of_true rfl ⟨hneg, htarget⟩
    · next htarget => exact iff_of_false nofun fun h => htarget h.2

/-- **One iteration** keeps the invariant. -/
theorem inv_iterate (h : Inv job s) (hp : p ∈ job.params) : Inv job (iterate job world s p) := by
  unfold iterate
  split
  · exact h
  · next hraised =>
    dsimp only
    have hfalse : s.raised = false := Bool.eq_false_iff.mpr hraised
    generalize hmeasured : world.func s.evaluations.length
      (job.params.map fun q => s.nextParams q.name) = measured
    let ev : Evaluation := ⟨p.name, s.nextParams, measured⟩
    cases herror : measured.error.filter (· ≠ 0) with
    | none =>
      have hzero : ∀ error, measured.error = some error → error = 0 := by
        intro error he
        rw [he] at herror
        by_contra hne
        simp [Option.filter, hne] at herror
      refine @inv_unrecorded _ _ h ev ?_ _ ?_ _ _ (last_update h p.name p.middle)
      · unfold Evaluation.recorded
        split
        · next error he => rw [if_neg fun hand => hand.1 (hzero error he)]
        · rfl
      · refine (or_iff_left ?_).symm
        rintro ⟨-, error, he, hlt⟩
        exact absurd hlt (by rw [hzero error he]; exact lt_irrefl 0)
    | some error =>
      obtain ⟨herr, hne⟩ := Option.filter_eq_some_iff.mp herror
      have hne : error ≠ 0 := by simpa using hne
      have hev : ev.measured.error = some error := herr
      have hrec : ev.recorded =
          if 0 < error + measured.target then some |error| else none := by
        simp only [Evaluation.recorded, hev, hne, ne_eq, not_false_eq_true, true_and]
        rfl
      dsimp only
      unfold computeNextParams
      dsimp only
      rw [h.last p hp]
      dsimp only
      cases hnext : nextParamValue error measured.target (s.nextParams p.name)
          (world.noise s.evaluations.length) with
      | none =>
        obtain ⟨hneg, htarget⟩ := nextParamValue_eq_none_iff.mp hnext
        have hlt : error < 0 := lt_of_le_of_ne (not_lt.mp hneg) hne
        refine @inv_unrecorded _ _ h ev ?_ _ ?_ _ _ h.last
        · rw [hrec, htarget, add_zero, if_neg hneg]
        · exact iff_of_true rfl (.inr ⟨htarget, error, hev, hlt⟩)
      | some v =>
        have hdivides : ¬ ev.Divides := by
          rintro ⟨htarget, e, he, hlt⟩
          obtain rfl := Option.some.inj (hev.symm.trans he)
          rw [nextParamValue_eq_none_iff.mpr ⟨hlt.not_gt, htarget⟩] at hnext
          cases hnext
        dsimp only
        split
        · next hcompleted =>
          rw [if_pos hcompleted] at hrec
          exact inv_recorded h hrec hdivides rfl (last_update h p.name (p.bounded v))
        · next hcompleted =>
          rw [if_neg hcompleted] at hrec
          exact inv_unrecorded h hrec (or_iff_left hdivides).symm h.last

/-- What an iteration evaluates, and what it may make of the values. -/
theorem iterate_cases (job : Job) (world : World) (s : State) (p : Parameter) :
    iterate job world s p = s ∨ ∃ ev, ev.turn = p.name ∧ ev.values = s.nextParams ∧
      (iterate job world s p).evaluations = s.evaluations ++ [ev] ∧
      ((iterate job world s p).nextParams = s.nextParams ∨ ∃ v, (v = p.middle ∨ ∃ w, v = p.bounded w) ∧
        (iterate job world s p).nextParams = Function.update s.nextParams p.name v) := by
  unfold iterate
  split
  · exact .inl rfl
  · right
    dsimp only
    generalize world.func s.evaluations.length (job.params.map fun q => s.nextParams q.name) = measured
    split
    · unfold computeNextParams
      dsimp only
      split
      · exact ⟨_, rfl, rfl, rfl, .inl rfl⟩
      · split
        · exact ⟨_, rfl, rfl, rfl, .inl rfl⟩
        · next v _ =>
          split
          · exact ⟨_, rfl, rfl, rfl, .inr ⟨_, .inr ⟨v, rfl⟩, rfl⟩⟩
          · exact ⟨_, rfl, rfl, rfl, .inl rfl⟩
    · exact ⟨_, rfl, rfl, rfl, .inr ⟨_, .inl rfl, rfl⟩⟩

/-! ## 6. Whole runs -/

/-- Values within the bounds: the next ones, and those that have been evaluated. -/
structure InRange (job : Job) (s : State) : Prop where
  next : ∀ q ∈ job.params, q.InBounds (s.nextParams q.name)
  evaluated : ∀ ev ∈ s.evaluations, ∀ q ∈ job.params, q.InBounds (ev.values q.name)

theorem inRange_iterate (hreaches : ∀ q ∈ job.params, 1 ≤ q.boundaries.2) (h : InRange job s)
    (hp : p ∈ job.params) : InRange job (iterate job world s p) := by
  rcases iterate_cases job world s p with hsame | ⟨ev, -, hvalues, hevaluations, hnext⟩
  · rw [hsame]
    exact h
  · refine ⟨fun q hq => ?_, fun ev' hev' => ?_⟩
    · rcases hnext with hnext | ⟨v, hv, hnext⟩
      · rw [hnext]
        exact h.next q hq
      · rw [hnext]
        by_cases hname : q.name = p.name
        · rw [eq_of_name hp hq hname, Function.update_self]
          rcases hv with rfl | ⟨w, rfl⟩
          · exact p.middle_inBounds
          · exact Parameter.bounded_inBounds (hreaches p hp) w
        · rw [Function.update_of_ne hname]
          exact h.next q hq
    · rw [hevaluations] at hev'
      rcases List.mem_append.mp hev' with hev' | hev'
      · exact h.evaluated ev' hev'
      · rw [List.mem_singleton.mp hev', hvalues]
        exact h.next

/-- An invariant of the iterations is one of the run. -/
theorem run_invariant {I : State → Prop} (hinit : I (init job))
    (hstep : ∀ s p, p ∈ job.params → I s → I (iterate job world s p)) : I (run job world) := by
  have hfold : ∀ turns : List Parameter, (∀ p ∈ turns, p ∈ job.params) → ∀ s, I s →
      I (turns.foldl (iterate job world) s) := by
    intro turns
    induction turns with
    | nil => exact fun _ s hs => hs
    | cons p turns ih =>
      intro hturns s hs
      obtain ⟨hp, hrest⟩ := List.forall_mem_cons.mp hturns
      exact ih hrest _ (hstep s p hp hs)
  refine hfold _ (fun p hp => ?_) _ hinit
  obtain ⟨q, hq, hmem⟩ := List.mem_flatMap.mp hp
  exact (List.eq_of_mem_replicate hmem) ▸ hq

theorem find?_eq (hp : p ∈ job.params) : job.params.find? (·.name = p.name) = some p := by
  cases hfind : job.params.find? (·.name = p.name) with
  | none => exact absurd (List.find?_eq_none.mp hfind p hp) (by simp)
  | some q =>
    have hname : q.name = p.name := by simpa using List.find?_some hfind
    rw [eq_of_name hp (List.mem_of_find?_eq_some hfind) hname]

theorem inv_run (job : Job) (world : World) : Inv job (run job world) := by
  refine run_invariant ⟨fun p hp => ?_, fun name v => rfl, ?_⟩ fun s p hp h => inv_iterate h hp
  · simp only [init]
    rw [find?_eq hp]
    rfl
  · exact iff_of_false Bool.false_ne_true fun ⟨ev, hev, _⟩ => List.not_mem_nil hev

theorem inRange_run (hreaches : ∀ q ∈ job.params, 1 ≤ q.boundaries.2) (world : World) :
    InRange job (run job world) := by
  refine run_invariant ⟨fun p hp => ?_, fun ev hev => absurd hev List.not_mem_nil⟩
    fun s p hp h => inRange_iterate hreaches h hp
  simp only [init]
  rw [find?_eq hp]
  exact p.middle_inBounds

/-- The turns of a parameter among those of parameters with names of their own. -/
theorem filter_turns (n : ℕ) {params : List Parameter} (hnodup : (params.map Parameter.name).Nodup)
    (hp : p ∈ params) :
    (params.flatMap fun q => List.replicate n q).filter (·.name = p.name) = List.replicate n p := by
  induction params with
  | nil => exact absurd hp List.not_mem_nil
  | cons q params ih =>
    obtain ⟨hq, hrest⟩ := List.nodup_cons.mp hnodup
    rw [List.flatMap_cons, List.filter_append, List.filter_replicate]
    rcases List.mem_cons.mp hp with rfl | hmem
    · have hnone : (params.flatMap fun q => List.replicate n q).filter (·.name = p.name) = [] := by
        rw [List.filter_eq_nil_iff]
        intro r hr hname
        obtain ⟨r', hr', hmem⟩ := List.mem_flatMap.mp hr
        rw [List.eq_of_mem_replicate hmem] at hname
        exact hq (of_decide_eq_true hname ▸ List.mem_map_of_mem hr')
      rw [hnone, List.append_nil, if_pos (decide_eq_true rfl)]
    · have hne : ¬ q.name = p.name := fun hname => hq (hname ▸ List.mem_map_of_mem hmem)
      rw [if_neg (by simpa using hne), List.nil_append]
      exact ih hrest hmem

/-- An iteration is one evaluation at most, in the turn of its parameter. -/
theorem evaluations_foldl_le (job : Job) (world : World) (name : String) (turns : List Parameter)
    (s : State) :
    ((turns.foldl (iterate job world) s).evaluations.filter (·.turn = name)).length ≤
      (s.evaluations.filter (·.turn = name)).length + (turns.filter (·.name = name)).length := by
  induction turns generalizing s with
  | nil => exact Nat.le_refl _
  | cons q turns ih =>
    rw [List.foldl_cons]
    refine (ih _).trans ?_
    rcases iterate_cases job world s q with hsame | ⟨ev, hturn, -, hevaluations, -⟩
    · rw [hsame, List.filter_cons]
      split
      · rw [List.length_cons]
        omega
      · exact Nat.le_refl _
    · rw [hevaluations, List.filter_append, List.length_append, List.filter_cons, List.filter_cons,
        hturn]
      split
      · rw [List.length_cons, List.length_cons, List.filter_nil, List.length_nil]
        omega
      · rw [List.filter_nil, List.length_nil]
        omega

/-- **No more evaluations in the turn of a parameter than iterations.** -/
theorem evaluations_le (world : World) (hp : p ∈ job.params) :
    ((run job world).evaluations.filter (·.turn = p.name)).length ≤ job.maxIter := by
  have hle := evaluations_foldl_le job world p.name (schedule job) (init job)
  rw [schedule, filter_turns job.maxIter job.nodup hp, List.length_replicate] at hle
  exact hle.trans_eq (Nat.zero_add _)

/-! ## 7. The value that is chosen -/

/-- **The smallest of the values with the smallest mean**, where there are any. -/
theorem finalParam_spec (s : State) (p : Parameter) :
    (finalParam s p = none ↔ ∀ v, (s.paramErrors p.name).get? v = none) ∧
      ∀ final, finalParam s p = some final → ∃ v errors, (s.paramErrors p.name).get? v = some errors ∧
        final = ⟨p.convert v, mean errors⟩ ∧
        ∀ u errors', (s.paramErrors p.name).get? u = some errors' → mean errors ≤ mean errors' := by
  generalize hd : s.paramErrors p.name = d
  simp only [finalParam, hd]
  have hitems := d.mem_items_iff
  cases hmin : ((d.items.map fun item => (item.1, mean item.2)).map Prod.snd).min? with
  | none =>
    have hnil : d.items = [] := by simpa using List.min?_eq_none_iff.mp hmin
    rw [hnil]
    refine ⟨iff_of_true rfl fun v => ?_, fun final hfinal => by cases hfinal⟩
    by_contra hne
    obtain ⟨errors, herrors⟩ := Option.ne_none_iff_exists'.mp hne
    have hmem := (hitems v errors).mpr herrors
    rw [hnil] at hmem
    exact List.not_mem_nil hmem
  | some m =>
    obtain ⟨hmem, hle⟩ := List.min?_eq_some_iff.mp hmin
    obtain ⟨pair, hpair, hm⟩ := List.mem_map.mp hmem
    have hne : (((d.items.map fun item => (item.1, mean item.2)).filter fun item =>
        decide (item.2 = m)).map Prod.fst) ≠ [] :=
      List.ne_nil_of_mem (List.mem_map_of_mem (List.mem_filter.mpr ⟨hpair, decide_eq_true hm⟩))
    obtain ⟨v, hv⟩ := Option.ne_none_iff_exists'.mp (mt List.min?_eq_none_iff.mp hne)
    obtain ⟨pair', hpair', hfst⟩ := List.mem_map.mp (List.min?_eq_some_iff.mp hv).1
    obtain ⟨hmem', hmean⟩ := List.mem_filter.mp hpair'
    obtain ⟨⟨v', errors⟩, hitem, rfl⟩ := List.mem_map.mp hmem'
    obtain rfl : v' = v := hfst
    have hmean : mean errors = m := of_decide_eq_true hmean
    have hget := (hitems v' errors).mp hitem
    rw [Option.getD_some, hv]
    refine ⟨iff_of_false (by simp) fun hnone => ?_, fun final hfinal => ?_⟩
    · rw [hnone v'] at hget
      cases hget
    · refine ⟨v', errors, hget, ?_, fun u errors' hu => ?_⟩
      · rw [hmean]
        exact (Option.some.inj hfinal).symm
      · rw [hmean]
        refine hle _ (List.mem_map.mpr ⟨(u, mean errors'), ?_, rfl⟩)
        exact List.mem_map.mpr ⟨(u, errors'), (hitems u errors').mpr hu, rfl⟩

/-! ## 8. The result -/

/-- Something is recorded of a parameter. -/
def Recorded (s : State) (p : Parameter) : Prop :=
  ∃ ev ∈ s.evaluations, ev.turn = p.name ∧ ev.recorded.isSome

theorem recordedAt_ne_nil_iff {evaluations : List Evaluation} {name : String} {v : ℚ} :
    recordedAt evaluations name v ≠ [] ↔
      ∃ ev ∈ evaluations, ev.turn = name ∧ ev.values name = v ∧ ev.recorded.isSome := by
  constructor
  · intro hne
    obtain ⟨e, he⟩ := List.exists_mem_of_ne_nil _ hne
    obtain ⟨ev, hev, hrec⟩ := List.mem_filterMap.mp he
    obtain ⟨hmem, hturn⟩ := List.mem_filter.mp hev
    obtain ⟨hturn, hvalue⟩ := of_decide_eq_true hturn
    exact ⟨ev, hmem, hturn, hvalue, by rw [hrec]; rfl⟩
  · rintro ⟨ev, hev, hturn, hvalue, hrec⟩
    obtain ⟨e, he⟩ := Option.isSome_iff_exists.mp hrec
    refine List.ne_nil_of_mem (List.mem_filterMap.mpr ⟨ev, List.mem_filter.mpr ⟨hev, ?_⟩, he⟩)
    exact decide_eq_true ⟨hturn, hvalue⟩

theorem finalParam_isSome_iff (h : Inv job s) (p : Parameter) :
    (finalParam s p).isSome ↔ Recorded s p := by
  rw [Option.isSome_iff_ne_none, ne_eq, (finalParam_spec s p).1, not_forall]
  constructor
  · rintro ⟨v, hv⟩
    rw [h.errors] at hv
    have hne : recordedAt s.evaluations p.name v ≠ [] := fun hnil => hv (if_pos hnil)
    obtain ⟨ev, hev, hturn, -, hrec⟩ := recordedAt_ne_nil_iff.mp hne
    exact ⟨ev, hev, hturn, hrec⟩
  · rintro ⟨ev, hev, hturn, hrec⟩
    have hne := recordedAt_ne_nil_iff.mpr ⟨ev, hev, hturn, rfl, hrec⟩
    refine ⟨ev.values p.name, ?_⟩
    rw [h.errors, if_neg hne]
    exact Option.some_ne_none _

/-- The results of all elements, if all have one. -/
theorem mapM_isSome_iff {α β : Type} {f : α → Option β} {l : List α} :
    (l.mapM f).isSome ↔ ∀ a ∈ l, (f a).isSome := by
  induction l with
  | nil => exact iff_of_true rfl nofun
  | cons a l ih =>
    rw [List.mapM_cons, List.forall_mem_cons, ← ih]
    cases f a with
    | none => simp
    | some b => cases l.mapM f with
      | none => simp
      | some bs => simp

theorem mem_of_mapM {α β : Type} {f : α → Option β} {l : List α} {bs : List β}
    (h : l.mapM f = some bs) {a : α} (ha : a ∈ l) : ∃ b ∈ bs, f a = some b := by
  induction l generalizing bs with
  | nil => exact absurd ha List.not_mem_nil
  | cons x l ih =>
    rw [List.mapM_cons] at h
    obtain ⟨b, hb, h⟩ := Option.bind_eq_some_iff.mp h
    obtain ⟨bs', hbs', h⟩ := Option.bind_eq_some_iff.mp h
    obtain rfl := Option.some.inj h
    rcases List.mem_cons.mp ha with rfl | ha
    · exact ⟨b, List.mem_cons_self, hb⟩
    · obtain ⟨b', hb', hfa⟩ := ih hbs' ha
      exact ⟨b', List.mem_cons_of_mem _ hb', hfa⟩

/-- **The optimizer does not fail** exactly when no target of zero is divided by, and something is
recorded of every parameter. -/
theorem optimize_isSome_iff (job : Job) (world : World) :
    (optimize job world).isSome ↔ (∀ ev ∈ (run job world).evaluations, ¬ ev.Divides) ∧
      ∀ p ∈ job.params, Recorded (run job world) p := by
  have hinv := inv_run job world
  simp only [optimize]
  by_cases hraised : (run job world).raised = true
  · rw [if_pos hraised]
    obtain ⟨ev, hev, hdivides⟩ := hinv.raised.mp hraised
    exact iff_of_false Bool.false_ne_true fun hall => hall.1 ev hev hdivides
  · rw [if_neg hraised, mapM_isSome_iff, and_iff_right]
    · simp only [Option.isSome_map, finalParam_isSome_iff hinv]
    · exact fun ev hev hdivides => hraised (hinv.raised.mpr ⟨ev, hev, hdivides⟩)

/-- Where nothing is hit, what succeeds is recorded. -/
theorem recorded_eq {ev : Evaluation} (h : ev.succeeded ≠ some 0) : ev.recorded = ev.succeeded := by
  unfold Evaluation.recorded
  unfold Evaluation.succeeded at h ⊢
  split
  · next error he =>
    rw [he] at h
    dsimp only at h
    by_cases hcompleted : 0 < error + ev.measured.target
    · rw [if_pos hcompleted] at h ⊢
      have hne : error ≠ 0 := by
        rintro rfl
        exact h (by rw [abs_zero])
      rw [if_pos ⟨hne, hcompleted⟩]
    · rw [if_neg hcompleted, if_neg fun hand => hcompleted hand.2]
  · rfl

theorem recordedAt_eq {evaluations : List Evaluation} (h : ∀ ev ∈ evaluations, ev.succeeded ≠ some 0)
    (name : String) (v : ℚ) : recordedAt evaluations name v = errorsAt evaluations name v :=
  List.filterMap_congr fun _ hev => recorded_eq (h _ (List.mem_of_mem_filter hev))

theorem best_of_finalParam (h : Inv job s) (hhits : ∀ ev ∈ s.evaluations, ev.succeeded ≠ some 0)
    {final : Final} (hfinal : finalParam s p = some final) :
    ∃ v, Best s.evaluations p.name v ∧ final.minimizedDistributionValue = p.convert v ∧
      final.minimizedErrorMean = mean (errorsAt s.evaluations p.name v) := by
  obtain ⟨v, errors, hget, rfl, hle⟩ := (finalParam_spec s p).2 final hfinal
  have hrecord : ∀ u, errorsAt s.evaluations p.name u ≠ [] →
      (s.paramErrors p.name).get? u = some (errorsAt s.evaluations p.name u) := by
    intro u hu
    rw [h.errors, recordedAt_eq hhits, if_neg hu]
  have hne : errorsAt s.evaluations p.name v ≠ [] := by
    intro hnil
    rw [h.errors, recordedAt_eq hhits, if_pos hnil] at hget
    cases hget
  obtain rfl := Option.some.inj (hget.symm.trans (hrecord v hne))
  exact ⟨v, ⟨hne, fun u hu => hle u _ (hrecord u hu)⟩, rfl, rfl⟩

/-- **In a regular run the optimizer does what it should**; and it does not fail exactly when no
target of zero is divided by and something is recorded of every parameter. -/
theorem point_optimizer_runs (job : Job) (world : World) :
    (Regular job (run job world) → Optimizes job (run job world) (optimize job world)) ∧
      ((optimize job world).isSome ↔ (∀ ev ∈ (run job world).evaluations, ¬ ev.Divides) ∧
        ∀ p ∈ job.params, Recorded (run job world) p) := by
  refine ⟨fun h => ?_, optimize_isSome_iff job world⟩
  have hinv := inv_run job world
  have hreturns : (optimize job world).isSome := by
    refine (optimize_isSome_iff job world).mpr ⟨h.divides, fun p hp => ?_⟩
    obtain ⟨ev, hev, hturn, hsome⟩ := h.succeeds p hp
    exact ⟨ev, hev, hturn, (recorded_eq (h.hits ev hev)).symm ▸ hsome⟩
  refine ⟨fun p hp => evaluations_le world hp, (inRange_run h.reaches world).evaluated, hreturns,
    fun finals hfinals p hp _ => ?_⟩
  simp only [optimize] at hfinals
  split at hfinals
  · cases hfinals
  · obtain ⟨⟨name, final⟩, hmem, hpair⟩ := mem_of_mapM hfinals hp
    obtain ⟨final', hfinal, hpair⟩ := Option.map_eq_some_iff.mp hpair
    obtain ⟨rfl, rfl⟩ := Prod.mk.inj hpair
    obtain ⟨v, hbest, hvalue, hmean⟩ := best_of_finalParam hinv h.hits hfinal
    exact ⟨final', v, hmem, hbest, hvalue, hmean⟩

/-- One parameter between one and nine, and one iteration. -/
def oneIteration : Job where
  params := [⟨"batch_size", .float, 5, 1, 9, false, by norm_num, by norm_num⟩]
  iterations := some 1
  nodup := by decide
  ne_nil := by simp

/-- An objective that is always on its target. -/
def onTarget : World where
  func := fun _ _ => ⟨some 0, 5⟩
  noise := fun _ => 0

/-- The only evaluation hits the target, and then there is no value to take the minimum of. -/
theorem not_point_optimizer_runs :
    ¬ Optimizes oneIteration (run oneIteration onTarget) (optimize oneIteration onTarget) := by
  intro h
  have hreturns := h.returns
  revert hreturns
  decide +kernel

end PointOptimizer
end Graphs
end Hedra
