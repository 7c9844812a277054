/-
# The weights of an experiment

`assign_weights` (`core/experiments/experiment.py`) gives a weight to each participant that has
none.  Where the experiment is not random they share what the others leave.  Where it is, each but
the last participant gets a draw of its own, and the last one what is left, which may be nothing or
less: nothing keeps the draws together.  And where the last participant has a weight already, nobody
takes what is left.

The floats are exact rationals here.

* `weights_random`: the weights of a random experiment, and `exists_weights_shared` those of another
  one;
* `Weighs.divides`: weights that sum to one divide any batch size;
* `assigned_weights_iff`: when the weights come out.
-/
import Mathlib.Data.List.Induction
import Mathlib.Data.List.Nodup
import Mathlib.Algebra.Order.BigOperators.Group.List
import Hedra.Lib.HalfEven

namespace Hedra
namespace Experiments

open Lib.HalfEven

/-! ## 1. `assign_weights` -/

structure Variant where
  stageName : String
  weight : Option ℚ

/-- `if participant.weight` -/
def Variant.given (participant : Variant) : Option ℚ := participant.weight.filter (· ≠ 0)

/-- `random.uniform(0.1, 0.9)` -/
structure Draw where
  value : ℚ
  low : 1 / 10 ≤ value
  high : value ≤ 9 / 10

/-- `round(random.uniform(0.1, 0.9), 2)` -/
def Draw.weight (draw : Draw) : ℚ := roundTo draw.value 2

/-- Where the first loop is. -/
structure Pass where
  participants : List Variant
  totalWeight : ℚ
  missing : List String

/-- One turn of it. -/
def turn (random : Bool) (participantsCount : ℕ) (draws : ℕ → Draw) (s : Pass)
    (item : Variant × ℕ) : Pass :=
  let (participant, participantIdx) := item
  match participant.given with
  | some weight => { s with
      participants := s.participants ++ [participant]
      totalWeight := s.totalWeight - weight }
  | none =>
    if random then
      let weight := (draws participantIdx).weight
      if participantIdx + 1 < participantsCount then
        { s with
          participants := s.participants ++ [{ participant with weight := some weight }]
          totalWeight := s.totalWeight - weight }
      else
        { s with
          participants := s.participants ++
            [{ participant with weight := some (roundTo s.totalWeight 2) }] }
    else
      { s with
        participants := s.participants ++ [participant]
        missing := s.missing ++ [participant.stageName] }

/-- The first loop. -/
def pass (random : Bool) (participantsCount : ℕ) (draws : ℕ → Draw) (participants : List Variant) :
    Pass :=
  participants.zipIdx.foldl (turn random participantsCount draws) ⟨[], 1, []⟩

/-- The second loop, over the participants of the dictionary. -/
def share (s : Pass) : List Variant :=
  let perParticipantWeight := if 0 < s.missing.length then s.totalWeight / s.missing.length else 0
  s.participants.map fun participant =>
    if participant.stageName ∈ s.missing then { participant with weight := some perParticipantWeight }
    else participant

/-- An experiment whose participants have names of their own, and whose explicit weights leave
something to those that have none. -/
structure Experiment where
  participants : List Variant
  random : Bool
  nodup : (participants.map Variant.stageName).Nodup
  weight_pos : ∀ participant ∈ participants, ∀ w, participant.weight = some w → 0 < w
  decimals : ∀ participant ∈ participants, ∀ w, participant.weight = some w → Decimals w 2
  leaves : (∃ participant ∈ participants, participant.weight = none) →
    (participants.map fun participant => participant.weight.getD 0).sum < 1

/-- `assign_weights`.  The draw of a turn has the number of the turn. -/
def assignWeights (e : Experiment) (draws : ℕ → Draw) : List Variant :=
  share (pass e.random e.participants.length draws e.participants)

def weights (e : Experiment) (draws : ℕ → Draw) : List ℚ :=
  (assignWeights e draws).map fun participant => participant.weight.getD 0

/-- `get_variant_batch_size` -/
def variantBatchSize (sourceBatchSize : ℕ) (weight : ℚ) : ℤ := ⌈weight * sourceBatchSize⌉

/-! ## 2. What should hold -/

/-- Weights between zero and one that sum to one. -/
structure Weighs (ws : List ℚ) : Prop where
  pos : ∀ w ∈ ws, 0 < w
  le_one : ∀ w ∈ ws, w ≤ 1
  sum : ws.sum = 1

/-- The batch sizes of the variants are positive, and together less than one for each of them off the
batch size of the stage. -/
structure Divides (ws : List ℚ) : Prop where
  pos : ∀ sourceBatchSize, 0 < sourceBatchSize → ∀ w ∈ ws, 0 < variantBatchSize sourceBatchSize w
  close : ∀ sourceBatchSize : ℕ, 0 < sourceBatchSize →
    |(ws.map (variantBatchSize sourceBatchSize)).sum - sourceBatchSize| < ws.length

/-- The explicit weights and the draws. -/
def drawn (draws : ℕ → Draw) (participants : List Variant) : List ℚ :=
  participants.zipIdx.map fun item => item.1.weight.getD (draws item.2).weight

/-- The explicit weights and the draws come out: without draws, when somebody has no weight or the
weights sum to one; with them, when they leave something to a last participant that has no weight, or
sum to one if it has one. -/
def ComesOut (e : Experiment) (draws : ℕ → Draw) : Prop :=
  if e.random then
    if (e.participants.getLast?.any fun last => last.weight.isNone) then
      (drawn draws e.participants.dropLast).sum < 1
    else (drawn draws e.participants).sum = 1
  else
    (∃ participant ∈ e.participants, participant.weight = none) ∨
      (e.participants.map fun participant => participant.weight.getD 0).sum = 1

/-! ## 3. Batch sizes -/

variable {ws : List ℚ}

/-- A sum of ceilings is less than one for each of them above the sum. -/
theorem sum_ceil (ws : List ℚ) (n : ℕ) :
    ws.sum * n ≤ ((ws.map (variantBatchSize n)).sum : ℚ) ∧
      ((ws.map (variantBatchSize n)).sum : ℚ) ≤ ws.sum * n + ws.length ∧
      (ws ≠ [] → ((ws.map (variantBatchSize n)).sum : ℚ) < ws.sum * n + ws.length) := by
  induction ws with
  | nil => simp
  | cons w ws ih =>
    obtain ⟨hlow, hhigh, -⟩ := ih
    have hle : w * n ≤ (variantBatchSize n w : ℚ) := Int.le_ceil _
    have hlt : (variantBatchSize n w : ℚ) < w * n + 1 := Int.ceil_lt_add_one _
    rw [List.map_cons, List.sum_cons, List.sum_cons, List.length_cons, Int.cast_add,
      Nat.cast_add_one]
    refine ⟨by linarith, by linarith, fun _ => by linarith⟩

/-- **Weights that sum to one divide any batch size.** -/
theorem Weighs.divides (h : Weighs ws) : Divides ws := by
  refine ⟨fun n hn w hw => ?_, fun n _ => ?_⟩
  · have hpos : (0 : ℚ) < n := by exact_mod_cast hn
    exact Int.ceil_pos.mpr (mul_pos (h.pos w hw) hpos)
  · have hne : ws ≠ [] := by
      rintro rfl
      exact absurd h.sum (by norm_num)
    obtain ⟨hlow, -, hhigh⟩ := sum_ceil ws n
    have hhigh := hhigh hne
    rw [h.sum, one_mul] at hlow hhigh
    have hlow : (n : ℤ) ≤ (ws.map (variantBatchSize n)).sum := by exact_mod_cast hlow
    have hhigh : (ws.map (variantBatchSize n)).sum < (n : ℤ) + ws.length := by exact_mod_cast hhigh
    rw [abs_of_nonneg (by omega)]
    omega

/-! ## 4. Draws -/

theorem Draw.decimals (draw : Draw) : Decimals draw.weight 2 := decimals_roundTo _ 2

theorem Draw.weight_pos (draw : Draw) : 0 < draw.weight := by
  have hdec : Decimals (1 / 10) 2 := ⟨10, by norm_num⟩
  have hle := le_roundTo hdec draw.low
  have hweight : draw.weight = roundTo draw.value 2 := rfl
  rw [hweight]
  linarith

variable {e : Experiment} {draws : ℕ → Draw} {participants : List Variant} {participant : Variant}

theorem given_eq (h : ∀ w, participant.weight = some w → 0 < w) :
    participant.given = participant.weight := by
  rw [Variant.given]
  cases hw : participant.weight with
  | none => rfl
  | some w => simp [Option.filter, (h w hw).ne']

theorem drawn_append (draws : ℕ → Draw) (participants : List Variant) (participant : Variant) :
    drawn draws (participants ++ [participant]) = drawn draws participants ++
      [participant.weight.getD (draws participants.length).weight] := by
  rw [drawn, List.zipIdx_append, List.map_append, Nat.zero_add, List.zipIdx_singleton,
    List.map_singleton, ← drawn]

/-- What is explicit or drawn is positive, and has two decimals. -/
theorem drawn_spec (draws : ℕ → Draw)
    (hpos : ∀ p ∈ participants, ∀ w, p.weight = some w → 0 < w)
    (hdec : ∀ p ∈ participants, ∀ w, p.weight = some w → Decimals w 2) :
    ∀ w ∈ drawn draws participants, 0 < w ∧ Decimals w 2 := by
  intro w hw
  obtain ⟨⟨p, idx⟩, hmem, rfl⟩ := List.mem_map.mp hw
  have hp : p ∈ participants := List.fst_mem_of_mem_zipIdx hmem
  dsimp only
  cases hweight : p.weight with
  | none => exact ⟨(draws idx).weight_pos, (draws idx).decimals⟩
  | some w => exact ⟨hpos p hp w hweight, hdec p hp w hweight⟩

theorem decimals_sum (h : ∀ w ∈ ws, Decimals w 2) : Decimals ws.sum 2 := by
  induction ws with
  | nil => exact ⟨0, by simp⟩
  | cons w ws ih =>
    obtain ⟨hw, hrest⟩ := List.forall_mem_cons.mp h
    rw [List.sum_cons]
    exact hw.add (ih hrest)

/-- Positive numbers are no more than their sum. -/
theorem le_sum (h : ∀ w ∈ ws, 0 < w) {w : ℚ} (hw : w ∈ ws) : w ≤ ws.sum :=
  List.single_le_sum (fun x hx => (h x hx).le) w hw

theorem weighs_iff_sum (h : ∀ w ∈ ws, 0 < w) : Weighs ws ↔ ws.sum = 1 :=
  ⟨Weighs.sum, fun hsum => ⟨h, fun _ hw => (le_sum h hw).trans_eq hsum, hsum⟩⟩

/-! ## 5. A random experiment -/

/-- The first loop takes the last participant in its last turn. -/
theorem pass_append (random : Bool) (participantsCount : ℕ) (draws : ℕ → Draw)
    (front : List Variant) (p : Variant) :
    pass random participantsCount draws (front ++ [p]) =
      turn random participantsCount draws (pass random participantsCount draws front)
        (p, front.length) := by
  rw [pass, List.zipIdx_append, List.foldl_append, Nat.zero_add, List.zipIdx_singleton]
  rfl

/-- **The first loop, before the last participant**: the total is what the weights leave. -/
theorem pass_random (participantsCount : ℕ) (draws : ℕ → Draw)
    (hpos : ∀ p ∈ participants, ∀ w, p.weight = some w → 0 < w)
    (hlen : participants.length < participantsCount) :
    (pass true participantsCount draws participants).participants.map (fun p => p.weight.getD 0) =
        drawn draws participants ∧
      (pass true participantsCount draws participants).totalWeight =
        1 - (drawn draws participants).sum ∧
      (pass true participantsCount draws participants).missing = [] := by
  induction participants using List.reverseRecOn with
  | nil => exact ⟨rfl, (sub_zero 1).symm, rfl⟩
  | append_singleton front p ih =>
    rw [List.length_append, List.length_singleton] at hlen
    obtain ⟨hweights, htotal, hmissing⟩ :=
      ih (fun q hq => hpos q (List.mem_append_left _ hq)) (by omega)
    have hgiven := given_eq (hpos p (List.mem_append_right _ (List.mem_singleton_self p)))
    rw [pass_append, drawn_append, List.sum_append, List.sum_singleton]
    unfold turn
    dsimp only
    rw [hgiven]
    cases hw : p.weight with
    | none =>
      simp only [if_true, hlen]
      rw [List.map_append, hweights, htotal, hmissing]
      exact ⟨rfl, by rw [Option.getD_none]; ring, rfl⟩
    | some w =>
      dsimp only
      rw [List.map_append, hweights, htotal, hmissing, List.map_singleton, hw]
      exact ⟨rfl, by rw [Option.getD_some]; ring, rfl⟩

/-- **The weights of a random experiment**: the explicit ones and the draws, and for a last
participant that has none what they leave. -/
theorem weights_random (hrandom : e.random = true) {front : List Variant} {last : Variant}
    (hsplit : e.participants = front ++ [last]) :
    weights e draws = drawn draws front ++
      [last.weight.getD (1 - (drawn draws front).sum)] := by
  have hfront : ∀ p ∈ front, p ∈ e.participants := fun p hp => by
    rw [hsplit]
    exact List.mem_append_left _ hp
  have hlast : last ∈ e.participants := by
    rw [hsplit]
    exact List.mem_append_right _ (List.mem_singleton_self last)
  have hlen : e.participants.length = front.length + 1 := by rw [hsplit]; simp
  have hpos : ∀ p ∈ front, ∀ w, p.weight = some w → 0 < w := fun p hp => e.weight_pos p (hfront p hp)
  obtain ⟨hweights, htotal, hmissing⟩ := pass_random e.participants.length draws hpos (by omega)
  have hgiven := given_eq (e.weight_pos last hlast)
  -- what is left has two decimals already
  have hdec : Decimals (1 - (drawn draws front).sum) 2 := by
    refine Decimals.sub ⟨100, by norm_num⟩ (decimals_sum fun w hw => ?_)
    exact (drawn_spec draws (fun p hp => e.weight_pos p (hfront p hp))
      (fun p hp => e.decimals p (hfront p hp)) w hw).2
  have hround := roundTo_eq_iff.mpr hdec
  have hstep : pass true e.participants.length draws e.participants =
      turn true e.participants.length draws (pass true e.participants.length draws front)
        (last, front.length) := by
    nth_rewrite 2 [hsplit]
    exact pass_append ..
  rw [weights, assignWeights, hrandom, hstep]
  unfold turn
  dsimp only
  rw [hgiven]
  cases hw : last.weight with
  | none =>
    simp only [if_true, hlen, Nat.lt_irrefl, if_false]
    rw [share]
    simp only [← hlen, hmissing, htotal, hround, List.not_mem_nil, if_false, List.map_id',
      List.map_append, hweights, List.map_singleton, Option.getD_some, Option.getD_none]
  | some w =>
    simp only [share, hmissing, List.not_mem_nil, if_false, List.map_id', List.map_append, hweights,
      List.map_singleton, hw, Option.getD_some]

theorem weighs_random_iff (hrandom : e.random = true) :
    Weighs (weights e draws) ↔ ComesOut e draws := by
  rw [ComesOut, if_pos hrandom]
  have hspec := drawn_spec draws e.weight_pos e.decimals
  rcases List.eq_nil_or_concat' e.participants with hnil | ⟨front, last, hsplit⟩
  · have hweights : weights e draws = drawn draws e.participants := by
      rw [weights, assignWeights, hrandom, hnil]
      rfl
    have hlast : e.participants.getLast? = none := by rw [hnil]; rfl
    rw [hlast, hweights, weighs_iff_sum fun w hw => (hspec w hw).1]
    rfl
  · have hlast : e.participants.getLast? = some last := by rw [hsplit]; simp
    have hdrop : e.participants.dropLast = front := by rw [hsplit]; simp
    have hweights : weights e draws = drawn draws front ++
        [last.weight.getD (1 - (drawn draws front).sum)] := weights_random hrandom hsplit
    have hall := hspec
    rw [hsplit, drawn_append] at hall
    rw [hlast, hdrop, Option.any_some, hsplit, drawn_append]
    cases hw : last.weight with
    | none =>
      rw [hw, Option.getD_none] at hweights
      have hfront : ∀ w ∈ drawn draws front, 0 < w := fun w hw =>
        (hall w (List.mem_append_left _ hw)).1
      have hsum : (weights e draws).sum = 1 := by
        rw [hweights, List.sum_append, List.sum_singleton]
        ring
      rw [if_pos Option.isNone_none]
      constructor
      · intro h
        have hpos := h.pos (1 - (drawn draws front).sum) (by
          rw [hweights]
          exact List.mem_append_right _ (List.mem_singleton_self _))
        linarith
      · intro hlt
        refine (weighs_iff_sum fun w hw => ?_).mpr hsum
        rw [hweights] at hw
        rcases List.mem_append.mp hw with hw | hw
        · exact hfront w hw
        · rw [List.mem_singleton.mp hw]
          linarith
    | some w =>
      rw [hw, Option.getD_some] at hweights hall
      rw [if_neg (by simp), hweights, Option.getD_some]
      exact weighs_iff_sum fun w hw => (hall w hw).1

/-! ## 6. An experiment that is not random -/

/-- The names of those that have no weight. -/
def unweighted (participants : List Variant) : List String :=
  (participants.filter fun p => p.weight.isNone).map Variant.stageName

theorem pass_shared (participantsCount : ℕ) (draws : ℕ → Draw)
    (hpos : ∀ p ∈ participants, ∀ w, p.weight = some w → 0 < w) :
    pass false participantsCount draws participants =
      ⟨participants, 1 - (participants.map fun p => p.weight.getD 0).sum, unweighted participants⟩ := by
  induction participants using List.reverseRecOn with
  | nil => simp [pass, unweighted]
  | append_singleton front p ih =>
    have hgiven := given_eq (hpos p (List.mem_append_right _ (List.mem_singleton_self p)))
    rw [pass_append, ih fun q hq => hpos q (List.mem_append_left _ hq)]
    unfold turn
    dsimp only
    rw [hgiven]
    cases hw : p.weight with
    | none => simp [unweighted, hw]
    | some w =>
      simp only [unweighted, List.map_append, List.map_singleton, List.sum_append,
        List.sum_singleton, hw, Option.getD_some, List.filter_append]
      rw [sub_sub]
      simp [hw]

/-- A share for each of those that have no weight. -/
theorem sum_shared (participants : List Variant) (c : ℚ) :
    (participants.map fun p => p.weight.getD c).sum =
      (participants.map fun p => p.weight.getD 0).sum + (unweighted participants).length * c := by
  induction participants with
  | nil => simp [unweighted]
  | cons p participants ih =>
    rw [List.map_cons, List.sum_cons, ih, List.map_cons, List.sum_cons]
    cases hw : p.weight with
    | none =>
      simp only [unweighted, hw, List.filter_cons, Option.isNone_none, if_true, List.map_cons,
        List.length_cons, Option.getD_none]
      push_cast
      ring
    | some w =>
      simp only [unweighted, hw, List.filter_cons, Option.isNone_some, Bool.false_eq_true, if_false,
        Option.getD_some]
      ring

theorem mem_unweighted_iff (hnodup : (participants.map Variant.stageName).Nodup)
    (h : participant ∈ participants) :
    participant.stageName ∈ unweighted participants ↔ participant.weight = none := by
  constructor
  · intro hmem
    obtain ⟨p, hp, hname⟩ := List.mem_map.mp hmem
    obtain ⟨hp, hnone⟩ := List.mem_filter.mp hp
    rw [← List.inj_on_of_nodup_map hnodup hp h hname]
    exact Option.isNone_iff_eq_none.mp hnone
  · intro hnone
    exact List.mem_map_of_mem (List.mem_filter.mpr ⟨h, Option.isNone_iff_eq_none.mpr hnone⟩)

/-- **The weights of an experiment that is not random**: the explicit ones and the shares. -/
theorem exists_weights_shared (draws : ℕ → Draw) (hrandom : e.random = false) :
    ∃ c, weights e draws = e.participants.map (fun p => p.weight.getD c) ∧
      ((∃ p ∈ e.participants, p.weight = none) → 0 < c ∧ (weights e draws).sum = 1) := by
  have hpass := pass_shared e.participants.length draws e.weight_pos
  let c : ℚ := if 0 < (unweighted e.participants).length then
    (1 - (e.participants.map fun p => p.weight.getD 0).sum) / (unweighted e.participants).length else 0
  have hweights : weights e draws = e.participants.map fun p => p.weight.getD c := by
    rw [weights, assignWeights, hrandom, hpass, share, List.map_map]
    refine List.map_congr_left fun p hp => ?_
    rw [Function.comp_apply]
    by_cases hnone : p.weight = none
    · rw [if_pos ((mem_unweighted_iff e.nodup hp).mpr hnone), hnone]
      rfl
    · rw [if_neg fun hmem => hnone ((mem_unweighted_iff e.nodup hp).mp hmem)]
      obtain ⟨w, hw⟩ := Option.ne_none_iff_exists'.mp hnone
      rw [hw]
      rfl
  refine ⟨c, hweights, fun hmissing => ?_⟩
  obtain ⟨p, hp, hnone⟩ := hmissing
  have hlen : 0 < (unweighted e.participants).length :=
    List.length_pos_of_mem ((mem_unweighted_iff e.nodup hp).mpr hnone)
  have hlen' : (0 : ℚ) < (unweighted e.participants).length := by exact_mod_cast hlen
  have hc : c = (1 - (e.participants.map fun p => p.weight.getD 0).sum) /
      (unweighted e.participants).length := if_pos hlen
  have hleft := e.leaves ⟨p, hp, hnone⟩
  refine ⟨?_, ?_⟩
  · rw [hc]
    exact div_pos (by linarith) hlen'
  · rw [hweights, sum_shared, hc, mul_div_cancel₀ _ hlen'.ne']
    ring

theorem weighs_shared_iff (hrandom : e.random = false) :
    Weighs (weights e draws) ↔ ComesOut e draws := by
  rw [ComesOut, hrandom, if_neg Bool.false_ne_true]
  obtain ⟨c, hweights, hmissing⟩ := exists_weights_shared draws hrandom
  by_cases hnone : ∃ p ∈ e.participants, p.weight = none
  · obtain ⟨hc, hsum⟩ := hmissing hnone
    refine iff_of_true ((weighs_iff_sum fun w hw => ?_).mpr hsum) (.inl hnone)
    rw [hweights] at hw
    obtain ⟨p, hp, rfl⟩ := List.mem_map.mp hw
    cases hw : p.weight with
    | none => exact hc
    | some w => exact e.weight_pos p hp w hw
  · have hexplicit : weights e draws = e.participants.map fun p => p.weight.getD 0 := by
      rw [hweights]
      refine List.map_congr_left fun p hp => ?_
      obtain ⟨w, hw⟩ := Option.ne_none_iff_exists'.mp fun hp' => hnone ⟨p, hp, hp'⟩
      rw [hw]
      rfl
    rw [or_iff_right hnone, hexplicit]
    refine weighs_iff_sum fun w hw => ?_
    obtain ⟨p, hp, rfl⟩ := List.mem_map.mp hw
    obtain ⟨w, hw⟩ := Option.ne_none_iff_exists'.mp fun hp' => hnone ⟨p, hp, hp'⟩
    rw [hw]
    exact e.weight_pos p hp w hw

/-- **The weights are as they should be, and divide any batch size, exactly when the explicit weights
and the draws come out.** -/
theorem assigned_weights_iff (e : Experiment) (draws : ℕ → Draw) :
    (Weighs (weights e draws) ∧ Divides (weights e draws)) ↔ ComesOut e draws := by
  rw [and_iff_left_of_imp Weighs.divides]
  cases hrandom : e.random with
  | false => exact weighs_shared_iff hrandom
  | true => exact weighs_random_iff hrandom

/-- Three participants without weights, and two draws of nine tenths. -/
theorem not_assigned_weights :
    ¬ Weighs (weights
      ⟨[⟨"a", none⟩, ⟨"b", none⟩, ⟨"c", none⟩], true, by decide, by simp, by simp, by simp⟩
      fun _ => ⟨9 / 10, by norm_num, le_refl _⟩) := by
  intro h
  have hlast : weights
      ⟨[⟨"a", none⟩, ⟨"b", none⟩, ⟨"c", none⟩], true, by decide, by simp, by simp, by simp⟩
      (fun _ => ⟨9 / 10, by norm_num, le_refl _⟩) = [9 / 10, 9 / 10, - 4 / 5] := by
    decide +kernel
  have hpos := h.pos (- 4 / 5) (by rw [hlast]; simp)
  norm_num at hpos

end Experiments
end Hedra
