/-
# The ramped persona

`RampedPersona.generator` (`core/personas/types/ramped_persona/ramped_persona.py`) starts with a
part of the batch size, `int(size * gradient)`, and adds as much again each time that it has called
on the hooks as often as its generation is large.  It shrinks the pool of its first hook to begin
with, and extends the pool of the hook whose turn it is.

Where all hooks share one pool the generation keeps pace with it.  It reaches the batch size when it
would overshoot, and only then: when the next generation would be of exactly the batch size, neither
branch is taken, now and from then on.

Floats are rationals here, and `round` what the machine makes of the one product.

* `rising_step`: where all hooks share a pool, a turn keeps the generation with it;
* `falls_short`: where the increase divides the batch size, no generation reaches it;
* `rampsUp_iff`: from both, which ramps keep their promises.
-/
import Mathlib.Algebra.Order.Floor.Ring
import Mathlib.Data.Rat.Floor
import Mathlib.Data.PNat.Basic
import Hedra.Lib.Machine
import Hedra.Personas.Sessions

namespace Hedra
namespace Personas

open Lib Machine

namespace Ramped

/-! ## 1. The generator -/

/-- A persona with its gradient.  A product of floats is rounded, which keeps the order and the
whole numbers that it can be compared with. -/
structure Ramp (σ : Type*) extends Persona σ where
  gradient : ℚ
  round : ℚ → ℚ
  totalTime_pos : 0 < totalTime
  gradient_pos : 0 < gradient
  gradient_le_one : gradient ≤ 1
  round_mono : Monotone round
  round_zero : round 0 = 0
  round_batchSize : round (batchSize : ℕ) = (batchSize : ℕ)

/-- The variables of the generator, the pools, and how many generations have been completed. -/
structure State (σ : Type*) where
  elapsed : ℚ
  idx : ℤ
  actionIdx : ℕ
  generationBatchSize : ℤ
  pools : σ → ℤ
  generations : ℕ

variable {σ : Type*} [DecidableEq σ] (p : Ramp σ)

/-- `int(self.batch.gradient * self.batch.size)` -/
def Ramp.increaseAmount (p : Ramp σ) : ℤ := ⌊p.round (p.gradient * (p.batchSize : ℕ))⌋

/-- What comes before the loop; it raises without a hook. -/
def start : Option (State σ) :=
  p.hooks.head?.map fun session => {
    elapsed := 0
    idx := 0
    actionIdx := 0
    generationBatchSize := p.increaseAmount
    pools := p.shrinkPool p.setUp session (p.batchSize - p.increaseAmount)
    generations := 0 }

/-- What is done when the index is a multiple of the size of the generation. -/
def complete (s : State σ) (session : σ) : State σ :=
  let nextBatchSize := s.generationBatchSize + p.increaseAmount
  if nextBatchSize < p.batchSize then
    { s with
      pools := p.extendPool s.pools session p.increaseAmount
      generationBatchSize := nextBatchSize
      generations := s.generations + 1 }
  else if p.batchSize < nextBatchSize then
    let increaseAmount := p.batchSize - s.generationBatchSize
    { s with
      pools := p.extendPool s.pools session increaseAmount
      generationBatchSize := s.generationBatchSize + increaseAmount
      generations := s.generations + 1 }
  else
    { s with generations := s.generations + 1 }

/-- The rest of a turn, after the clock has been read. -/
def turn (s : State σ) (session : σ) : State σ :=
  if s.idx % s.generationBatchSize = 0 then complete p s session else s

/-- A turn of the loop, with what the clock reads in it.  There is none when the time is over, and
the modulo raises for a generation of none. -/
def step (s : State σ) (elapsed : ℚ) : Option (State σ) :=
  if p.totalTime ≤ s.elapsed ∨ s.generationBatchSize = 0 then none
  else p.hooks[s.actionIdx]?.map fun session =>
    { turn p { s with elapsed := elapsed, idx := s.idx + 1 } session with
      actionIdx := p.nextAction s.actionIdx }

/-! ## 2. What is asked of it -/

/-- The generation has a size within the batch size, and the pool of every hook is of that size. -/
structure Sound (s : State σ) : Prop where
  pos : 1 ≤ s.generationBatchSize
  le : s.generationBatchSize ≤ p.batchSize
  pools : ∀ session ∈ p.hooks, s.pools session = s.generationBatchSize

/-- The generation is sound in every state and never decreases, whatever the clock reads, and it is
of the batch size once enough generations have been completed. -/
def RampsUp : Prop :=
  ∃ s₀, start p = some s₀ ∧
    (∀ clock, Always (step p) (Sound p) s₀ clock) ∧
    (∀ clock, NeverDecreases (step p) State.generationBatchSize s₀ clock) ∧
    ∃ n, ∀ clock s, run (step p) s₀ clock = some s → n ≤ s.generations →
      s.generationBatchSize = p.batchSize

/-- All hooks execute with the one session, which has connections. -/
def Ramp.SharesPool (p : Ramp σ) : Prop :=
  ∃ session, p.runsTasks session = false ∧ ∀ other ∈ p.hooks, other = session

/-! ## 3. The increase, and a turn -/

omit [DecidableEq σ] in
theorem increaseAmount_nonneg : 0 ≤ p.increaseAmount := by
  have hproduct : 0 ≤ p.gradient * (p.batchSize : ℕ) :=
    mul_nonneg p.gradient_pos.le (Nat.cast_nonneg _)
  have hround : 0 ≤ p.round (p.gradient * (p.batchSize : ℕ)) := p.round_zero ▸ p.round_mono hproduct
  exact Int.floor_nonneg.mpr hround

omit [DecidableEq σ] in
theorem increaseAmount_le : p.increaseAmount ≤ p.batchSize := by
  have hproduct : p.gradient * (p.batchSize : ℕ) ≤ (p.batchSize : ℕ) :=
    mul_le_of_le_one_left (Nat.cast_nonneg _) p.gradient_le_one
  have hround : p.round (p.gradient * (p.batchSize : ℕ)) ≤ (p.batchSize : ℕ) :=
    (p.round_mono hproduct).trans_eq p.round_batchSize
  exact (Int.floor_le_floor hround).trans_eq (Int.floor_natCast _)

variable {p}

theorem complete_of_lt {s : State σ} (session : σ)
    (h : s.generationBatchSize + p.increaseAmount < p.batchSize) :
    complete p s session = { s with
      pools := p.extendPool s.pools session p.increaseAmount
      generationBatchSize := s.generationBatchSize + p.increaseAmount
      generations := s.generations + 1 } :=
  if_pos h

theorem complete_of_gt {s : State σ} (session : σ)
    (h : p.batchSize < s.generationBatchSize + p.increaseAmount) :
    complete p s session = { s with
      pools := p.extendPool s.pools session (p.batchSize - s.generationBatchSize)
      generationBatchSize := p.batchSize
      generations := s.generations + 1 } := by
  rw [complete, if_neg (not_lt.mpr h.le), if_pos h]
  dsimp only
  rw [add_sub_cancel]

/-- Exactly the batch size is neither less nor more. -/
theorem complete_of_eq {s : State σ} (session : σ)
    (h : s.generationBatchSize + p.increaseAmount = p.batchSize) :
    complete p s session = { s with generations := s.generations + 1 } := by
  rw [complete, if_neg (not_lt.mpr h.ge), if_neg (not_lt.mpr h.le)]

theorem step_eq_some {s s' : State σ} {t : ℚ} :
    step p s t = some s' ↔ (s.elapsed < p.totalTime ∧ s.generationBatchSize ≠ 0) ∧
      ∃ session, p.hooks[s.actionIdx]? = some session ∧
        { turn p { s with elapsed := t, idx := s.idx + 1 } session with
          actionIdx := p.nextAction s.actionIdx } = s' := by
  rw [step]
  split
  · rename_i hend
    refine iff_of_false nofun fun h => ?_
    exact hend.elim (not_le.mpr h.1.1) h.1.2
  · rename_i hend
    rw [not_or, not_le] at hend
    rw [Option.map_eq_some_iff, and_iff_right hend]

/-! ## 4. Where it keeps pace -/

/-- A state on the way: the generation is sound, and it is of the batch size, or it will be, since it
is a multiple of the increase and has grown with every generation. -/
structure Rising (p : Ramp σ) (s : State σ) : Prop extends Sound p s where
  rises : s.generationBatchSize = p.batchSize ∨
    (p.SharesPool ∧ ¬ p.increaseAmount ∣ p.batchSize) ∧
      p.increaseAmount ∣ s.generationBatchSize ∧ s.generations < s.generationBatchSize

/-- Extending the pool of one hook extends that of all, where they share it. -/
theorem extendPool_eq {s : State σ} (h : Sound p s) (hshare : p.SharesPool) {session : σ}
    (hmem : session ∈ p.hooks) (n : ℤ) :
    ∀ other ∈ p.hooks, p.extendPool s.pools session n other = s.generationBatchSize + n := by
  intro other hother
  obtain ⟨shared, htasks, hall⟩ := hshare
  obtain rfl := hall session hmem
  obtain rfl := hall other hother
  rw [p.extendPool_self s.pools htasks, h.pools _ hmem]

/-- A generation is completed, and is larger by one at least until it is of the batch size. -/
theorem rising_complete {s : State σ} (h : Rising p s) (hinc : 1 ≤ p.increaseAmount) {session : σ}
    (hmem : session ∈ p.hooks) :
    Rising p (complete p s session) ∧
      s.generationBatchSize ≤ (complete p s session).generationBatchSize := by
  rcases h.rises with hfull | ⟨hgood, hdvd, hgrown⟩
  · have hgt : p.batchSize < s.generationBatchSize + p.increaseAmount := by omega
    rw [complete_of_gt session hgt, hfull, sub_self, p.extendPool_zero]
    refine ⟨⟨⟨hfull ▸ h.pos, le_refl _, fun other hother => ?_⟩, Or.inl rfl⟩, le_refl _⟩
    exact (h.pools other hother).trans hfull
  · have hpools := extendPool_eq h.toSound hgood.1 hmem
    rcases lt_trichotomy (s.generationBatchSize + p.increaseAmount) p.batchSize with hlt | heq | hgt
    · rw [complete_of_lt session hlt]
      have hpos := h.pos
      have hpos' : 1 ≤ s.generationBatchSize + p.increaseAmount := by omega
      have hgrown' : ((s.generations + 1 : ℕ) : ℤ) < s.generationBatchSize + p.increaseAmount := by
        omega
      exact ⟨⟨⟨hpos', hlt.le, hpools _⟩,
        Or.inr ⟨hgood, dvd_add hdvd (dvd_refl _), hgrown'⟩⟩, by dsimp only; omega⟩
    · -- the sizes are multiples of the increase, and the batch size is none
      exact absurd (heq ▸ dvd_add hdvd (dvd_refl _)) hgood.2
    · rw [complete_of_gt session hgt]
      refine ⟨⟨⟨h.pos.trans h.le, le_refl _, fun other hother => ?_⟩, Or.inl rfl⟩, h.le⟩
      exact (hpools _ other hother).trans (add_sub_cancel _ _)

theorem rising_step (hinc : 1 ≤ p.increaseAmount) {s s' : State σ} {t : ℚ} (h : Rising p s)
    (hs : step p s t = some s') :
    Rising p s' ∧ s.generationBatchSize ≤ s'.generationBatchSize := by
  obtain ⟨-, session, hsession, rfl⟩ := step_eq_some.mp hs
  have hread : Rising p { s with elapsed := t, idx := s.idx + 1 } := ⟨⟨h.pos, h.le, h.pools⟩, h.rises⟩
  rw [turn]
  split
  · obtain ⟨hrising, hle⟩ := rising_complete hread hinc (List.mem_of_getElem? hsession)
    exact ⟨⟨⟨hrising.pos, hrising.le, hrising.pools⟩, hrising.rises⟩, hle⟩
  · exact ⟨⟨⟨h.pos, h.le, h.pools⟩, h.rises⟩, le_refl _⟩

/-- What is enough for it. -/
theorem rampsUp_of (hhooks : p.hooks ≠ [])
    (hgood : p.increaseAmount = p.batchSize ∨
      p.SharesPool ∧ 1 ≤ p.increaseAmount ∧ ¬ p.increaseAmount ∣ p.batchSize) : RampsUp p := by
  obtain ⟨session, rest, hcons⟩ := List.exists_cons_of_ne_nil hhooks
  have hmem : session ∈ p.hooks := hcons ▸ List.mem_cons_self
  have hsize : (1 : ℤ) ≤ p.batchSize := by exact_mod_cast p.batchSize.pos
  have hinc : 1 ≤ p.increaseAmount := hgood.elim (fun h => h ▸ hsize) fun h => h.2.1
  obtain ⟨s₀, hs₀, hrising⟩ : ∃ s₀, start p = some s₀ ∧ Rising p s₀ := by
    refine ⟨_, by rw [start, hcons]; rfl, ⟨hinc, increaseAmount_le p, ?_⟩, ?_⟩
    · intro other hother
      dsimp only
      rw [Persona.shrinkPool_eq]
      rcases hgood with hfull | ⟨⟨shared, htasks, hall⟩, -, -⟩
      · rw [hfull, sub_self, neg_zero, Persona.extendPool_zero]
        rfl
      · obtain rfl := hall session hmem
        obtain rfl := hall other hother
        rw [Persona.extendPool_self _ _ htasks, Persona.setUp]
        omega
    · rcases hgood with hfull | ⟨hshare, -, hdvd⟩
      · exact Or.inl hfull
      · exact Or.inr ⟨⟨hshare, hdvd⟩, dvd_refl _, by dsimp only; omega⟩
  refine ⟨s₀, hs₀, fun clock => ?_, fun clock => ?_, p.batchSize, fun clock s hrun hn => ?_⟩
  · exact (always_of_step (fun s t s' h hs => (rising_step hinc h hs).1) hrising).mono
      fun s h => h.toSound
  · rw [neverDecreases_iff]
    exact along_of_step (fun s t s' => rising_step hinc) hrising
  · have h : Rising p s :=
      invariant_of_run (fun s t s' h hs => (rising_step hinc h hs).1) hrising hrun
    have hle := h.le
    exact h.rises.elim id fun hrises => by omega

/-! ## 5. Where it gets stuck -/

/-- The loop goes on, whose generation is not empty. -/
structure Turning (p : Ramp σ) (s : State σ) : Prop where
  elapsed_lt : s.elapsed < p.totalTime
  actionIdx_lt : s.actionIdx < p.hooks.length
  pos : 0 < s.generationBatchSize

theorem complete_elapsed (s : State σ) (session : σ) :
    (complete p s session).elapsed = s.elapsed := by
  rw [complete]
  split
  · rfl
  · split <;> rfl

theorem complete_generations (s : State σ) (session : σ) :
    (complete p s session).generations = s.generations + 1 := by
  rw [complete]
  split
  · rfl
  · split <;> rfl

theorem complete_pos {s : State σ} (h : 0 < s.generationBatchSize) (session : σ) :
    0 < (complete p s session).generationBatchSize := by
  have hinc := increaseAmount_nonneg p
  rcases lt_trichotomy (s.generationBatchSize + p.increaseAmount) p.batchSize with hlt | heq | hgt
  · rw [complete_of_lt session hlt]
    exact add_pos_of_pos_of_nonneg h hinc
  · rw [complete_of_eq session heq]
    exact h
  · rw [complete_of_gt session hgt]
    exact Int.natCast_pos.mpr p.batchSize.pos

/-- A turn in which the clock still reads nought completes a generation, or only counts on. -/
theorem step_of_turning {s : State σ} (h : Turning p s) :
    ∃ s', step p s 0 = some s' ∧ Turning p s' ∧
      if (s.idx + 1) % s.generationBatchSize = 0 then s'.generations = s.generations + 1
      else s'.idx = s.idx + 1 ∧ s'.generationBatchSize = s.generationBatchSize ∧
        s'.generations = s.generations := by
  have hidx : p.nextAction s.actionIdx < p.hooks.length :=
    p.nextAction_lt (List.ne_nil_of_length_pos (Nat.zero_lt_of_lt h.actionIdx_lt)) _
  refine ⟨_, step_eq_some.mpr ⟨⟨h.elapsed_lt, h.pos.ne'⟩, _, List.getElem?_eq_getElem h.actionIdx_lt,
    rfl⟩, ?_⟩
  rw [turn]
  dsimp only
  split
  · refine ⟨⟨?_, hidx, ?_⟩, complete_generations _ _⟩
    · dsimp only
      rw [complete_elapsed]
      exact p.totalTime_pos
    · exact complete_pos (s := { s with elapsed := 0, idx := s.idx + 1 }) h.pos _
  · exact ⟨⟨p.totalTime_pos, hidx, h.pos⟩, rfl, rfl, rfl⟩

/-- The generation is completed that is `n` turns from it. -/
theorem completes_after (n : ℕ) {s : State σ} (h : Turning p s)
    (hn : (s.idx + 1 + n) % s.generationBatchSize = 0) :
    ∃ clock s', run (step p) s clock = some s' ∧ Turning p s' ∧
      s'.generations = s.generations + 1 := by
  induction n generalizing s with
  | zero =>
    obtain ⟨s', hs', hturning, hcases⟩ := step_of_turning h
    rw [Nat.cast_zero, add_zero] at hn
    rw [if_pos hn] at hcases
    exact ⟨[0], s', run_cons_eq_some.mpr ⟨s', hs', rfl⟩, hturning, hcases⟩
  | succ n ih =>
    obtain ⟨s', hs', hturning, hcases⟩ := step_of_turning h
    split at hcases
    · exact ⟨[0], s', run_cons_eq_some.mpr ⟨s', hs', rfl⟩, hturning, hcases⟩
    · obtain ⟨hidx, hsize, hgenerations⟩ := hcases
      have hn' : (s'.idx + 1 + n) % s'.generationBatchSize = 0 := by
        rw [hidx, hsize, ← hn, Nat.cast_add_one]
        ring_nf
      obtain ⟨clock, t, hrun, ht, hdone⟩ := ih hturning hn'
      exact ⟨0 :: clock, t, run_cons_eq_some.mpr ⟨s', hs', hrun⟩, ht, hgenerations ▸ hdone⟩

/-- One of the next indexes is a multiple of the size, and so a generation is completed. -/
theorem completes {s : State σ} (h : Turning p s) :
    ∃ clock s', run (step p) s clock = some s' ∧ Turning p s' ∧
      s'.generations = s.generations + 1 := by
  refine completes_after (-(s.idx + 1) % s.generationBatchSize).toNat h ?_
  have hsum : s.idx + 1 + -(s.idx + 1) % s.generationBatchSize =
      s.generationBatchSize * -(-(s.idx + 1) / s.generationBatchSize) := by
    rw [Int.emod_def]
    ring
  rw [Int.toNat_of_nonneg (Int.emod_nonneg _ h.pos.ne'), hsum, Int.mul_emod_right]

/-- Any number of generations is, if the clock lets them. -/
theorem completes_many (n : ℕ) {s : State σ} (h : Turning p s) :
    ∃ clock s', run (step p) s clock = some s' ∧ n ≤ s'.generations := by
  suffices h : ∃ clock s', run (step p) s clock = some s' ∧ Turning p s' ∧ n ≤ s'.generations by
    obtain ⟨clock, s', hrun, -, hn⟩ := h
    exact ⟨clock, s', hrun, hn⟩
  induction n with
  | zero => exact ⟨[], s, rfl, h, Nat.zero_le _⟩
  | succ n ih =>
    obtain ⟨clock, t, hrun, ht, hn⟩ := ih
    obtain ⟨clock', s', hrun', hs', hdone⟩ := completes ht
    refine ⟨clock ++ clock', s', ?_, hs', by omega⟩
    rw [run_append, hrun, Option.bind_some, hrun']

/-- The size is a multiple of the increase, and less than the batch size. -/
def Short (p : Ramp σ) (s : State σ) : Prop :=
  p.increaseAmount ∣ s.generationBatchSize ∧ s.generationBatchSize < p.batchSize

/-- Where the batch size is a multiple as well, the next size is one of at most the batch size. -/
theorem short_complete (hdvd : p.increaseAmount ∣ p.batchSize) {s : State σ} (h : Short p s)
    (session : σ) : Short p (complete p s session) := by
  have hle : p.increaseAmount ≤ p.batchSize - s.generationBatchSize :=
    Int.le_of_dvd (sub_pos.mpr h.2) (dvd_sub hdvd h.1)
  have hnext : s.generationBatchSize + p.increaseAmount ≤ p.batchSize := by omega
  rcases lt_or_eq_of_le hnext with hlt | heq
  · rw [complete_of_lt session hlt]
    exact ⟨dvd_add h.1 (dvd_refl _), hlt⟩
  · rw [complete_of_eq session heq]
    exact h

theorem short_step (hdvd : p.increaseAmount ∣ p.batchSize) {s s' : State σ} {t : ℚ}
    (h : Short p s) (hs : step p s t = some s') : Short p s' := by
  obtain ⟨-, session, -, rfl⟩ := step_eq_some.mp hs
  rw [turn]
  split
  · exact short_complete (s := { s with elapsed := t, idx := s.idx + 1 }) hdvd h session
  · exact h

theorem turning_of_start {s₀ : State σ} (hs₀ : start p = some s₀) (hinc : 1 ≤ p.increaseAmount) :
    Turning p s₀ := by
  obtain ⟨session, hsession, rfl⟩ := Option.map_eq_some_iff.mp hs₀
  rw [List.head?_eq_getElem?, List.getElem?_eq_some_iff] at hsession
  exact ⟨p.totalTime_pos, hsession.1, hinc⟩

theorem size_of_start {s₀ : State σ} (hs₀ : start p = some s₀) :
    s₀.generationBatchSize = p.increaseAmount := by
  obtain ⟨session, -, rfl⟩ := Option.map_eq_some_iff.mp hs₀
  rfl

/-- **It then falls short for ever.** -/
theorem falls_short {s₀ : State σ} (hs₀ : start p = some s₀) (hinc : 1 ≤ p.increaseAmount)
    (hlt : p.increaseAmount < p.batchSize) (hdvd : p.increaseAmount ∣ p.batchSize) (n : ℕ) :
    ∃ clock s, run (step p) s₀ clock = some s ∧ n ≤ s.generations ∧
      s.generationBatchSize < p.batchSize := by
  obtain ⟨clock, s, hrun, hn⟩ := completes_many n (turning_of_start hs₀ hinc)
  have hfirst : Short p s₀ := by
    rw [Short, size_of_start hs₀]
    exact ⟨dvd_refl _, hlt⟩
  have hshort : Short p s := invariant_of_run (fun s t s' => short_step hdvd) hfirst hrun
  exact ⟨clock, s, hrun, hn, hshort.2⟩

/-! ## 6. When it ramps up -/

/-- The pools are of the size of the first generation only if that is the batch size, or all hooks
share the one that has been shrunk. -/
theorem sharesPool_of_sound {s₀ : State σ} (hs₀ : start p = some s₀) (h : Sound p s₀)
    (hne : p.increaseAmount ≠ p.batchSize) : p.SharesPool := by
  obtain ⟨session, hsession, rfl⟩ := Option.map_eq_some_iff.mp hs₀
  have hpools := h.pools
  dsimp only at hpools
  rw [Persona.shrinkPool_eq] at hpools
  refine ⟨session, ?_, fun other hother => ?_⟩
  · by_contra htasks
    have hsize := hpools session (List.mem_of_head? hsession)
    rw [Persona.extendPool_tasks _ _ (Bool.not_eq_false _ ▸ htasks)] at hsize
    exact hne hsize.symm
  · by_contra hother'
    have hsize := hpools other hother
    rw [Persona.extendPool_of_ne _ _ hother'] at hsize
    exact hne hsize.symm

/-- **The ramp keeps its promises for a gradient that gives the whole batch size at once, and else if
all hooks share a pool, the increase is one at least, and it does not divide the batch size.** -/
theorem rampsUp_iff (p : Ramp σ) :
    RampsUp p ↔ p.hooks ≠ [] ∧ (p.increaseAmount = p.batchSize ∨
      p.SharesPool ∧ 1 ≤ p.increaseAmount ∧ ¬ p.increaseAmount ∣ p.batchSize) := by
  refine ⟨?_, fun h => rampsUp_of h.1 h.2⟩
  rintro ⟨s₀, hs₀, hsound, -, n, hreaches⟩
  have hfirst : Sound p s₀ := hsound []
  have hinc : 1 ≤ p.increaseAmount := size_of_start hs₀ ▸ hfirst.pos
  have hhooks : p.hooks ≠ [] :=
    List.ne_nil_of_length_pos (Nat.zero_lt_of_lt (turning_of_start hs₀ hinc).actionIdx_lt)
  refine ⟨hhooks, or_iff_not_imp_left.mpr fun hne => ?_⟩
  have hlt : p.increaseAmount < p.batchSize := lt_of_le_of_ne (increaseAmount_le p) hne
  refine ⟨sharesPool_of_sound hs₀ hfirst hne, hinc, fun hdvd => ?_⟩
  obtain ⟨clock, s, hrun, hn, hshort⟩ := falls_short hs₀ hinc hlt hdvd n
  exact hshort.ne (hreaches clock s hrun hn)

/-- Ten at a time, a fifth of them to begin with, by a single hook. -/
def fifthOfTen : Ramp Unit where
  batchSize := Nat.succPNat 9
  totalTime := 60
  hooks := [()]
  runsTasks := fun _ => false
  gradient := 1 / 5
  round := id
  totalTime_pos := by norm_num
  gradient_pos := by norm_num
  gradient_le_one := by norm_num
  round_mono := monotone_id
  round_zero := rfl
  round_batchSize := rfl

/-- Eight and two would be ten, and eight it stays. -/
theorem not_rampsUp_fifthOfTen : ¬ RampsUp fifthOfTen := by
  rintro ⟨s₀, hs₀, -, -, n, hreaches⟩
  have hincrease : fifthOfTen.increaseAmount = 2 := by decide +kernel
  obtain ⟨clock, s, hrun, hn, hshort⟩ := falls_short hs₀ (by rw [hincrease]; decide)
    (by rw [hincrease]; decide) (by rw [hincrease]; decide) n
  exact hshort.ne (hreaches clock s hrun hn)

end Ramped
end Personas
end Hedra
