/-
# Runs of mutations

Three things are asked of a mutation (`mutation.py` of each directory of
`core/experiments/mutations/types`): that a request is altered if and only if its roll is within the
chance, that calls can be repeated, and that a copy does what its original does.

The first is true of the runs that alter nothing (`honest_iff`).  The second is a matter of what the
first call leaves: where that has nothing to be changed, every run settles there (`repeats_iff`).
The third is true of what has kept nothing of its first action and draws nothing of its own
(`copies_iff`).

`mutations_iff` puts the three together, for every kind of mutation and every type of action.
-/
import Mathlib.Tactic.NormNum
import Hedra.Experiments.Mutations

namespace Hedra
namespace Experiments
namespace Mutations

open Lib (Dict)
open Lib.Utf8 (encode)
open Lib.Machine (run Along)
open SmuggleRequest (marked)
open Engines.RequestEncoding (Str Encoded asciiCodecs localhost)

section Idle

variable {D S E : Type} {t : ActionType D S E} {a b : Action D S E}

/-! ## 1. Requests that are altered -/

/-- What a mutation keeps of its first action is what it would take again. -/
theorem idle_edit {k k' : Kind} {draws draws' : ℕ → ℕ} (h : k.edit t draws a = some (k', a)) :
    Idle t k' draws' a ↔ Idle t k draws' a := by
  cases k with
  | deformHeader x =>
    obtain ⟨rfl, -⟩ := edit_deformHeader.mp h
    exact Iff.rfl
  | smuggleRequest x =>
    obtain ⟨x', rfl, hmutate⟩ := edit_smuggleRequest.mp h
    refine imp_congr_right fun hmethod => ?_
    obtain ⟨-, -, originalData, -, -, -, -, horiginal, -, -, rfl, -⟩ :=
      (smuggleRequest_mutate_iff hmethod).mp hmutate
    dsimp only
    rw [horiginal]
    rfl
  | injectHeader x =>
    obtain ⟨rfl, -⟩ := edit_injectHeader.mp h
    exact Iff.rfl
  | injectJunkData x =>
    obtain ⟨x', rfl, hmutate⟩ := edit_injectJunkData.mp h
    refine imp_congr_right fun hmethod => ?_
    obtain ⟨-, originalData, -, horiginal, -, -, -, rfl⟩ :=
      (injectJunkData_mutate_iff hmethod).mp hmutate
    dsimp only
    rw [horiginal]
    rfl
  | injectPing x =>
    obtain ⟨rfl, -⟩ := Prod.mk.inj (Option.some.inj h)
    exact Iff.rfl

theorem mutate_of_le {m : Mutation} {rolls : Rolls} (h : rolls.chanceRoll ≤ m.chance) :
    mutate t (m, a) rolls = some (m, a) := if_pos h

theorem mutate_of_lt {m : Mutation} {rolls : Rolls} (h : m.chance < rolls.chanceRoll) :
    mutate t (m, a) rolls =
      (m.kind.edit t rolls.draws a).map fun r => ({ m with kind := r.1 }, r.2) :=
  if_neg (not_le.mpr h)

/-- One call is honest if the roll is outside of the chance and there is nothing to change. -/
theorem honest_step_iff {m : Mutation} {rolls : Rolls} :
    (∃ s', mutate t (m, a) rolls = some s' ∧ (s'.2 ≠ a ↔ rolls.chanceRoll ≤ m.chance)) ↔
      m.chance < rolls.chanceRoll ∧ Idle t m.kind rolls.draws a := by
  rw [← edit_eq_self_iff]
  by_cases hroll : rolls.chanceRoll ≤ m.chance
  · rw [mutate_of_le hroll]
    constructor
    · rintro ⟨s', hs', halter⟩
      obtain rfl := Option.some.inj hs'
      exact absurd rfl (halter.mpr hroll)
    · exact fun h => absurd hroll (not_le.mpr h.1)
  · rw [mutate_of_lt (not_le.mp hroll)]
    constructor
    · rintro ⟨s', hs', halter⟩
      obtain ⟨⟨k', a'⟩, hedit, rfl⟩ := Option.map_eq_some_iff.mp hs'
      obtain rfl : a' = a := not_ne_iff.mp fun hne => hroll (halter.mp hne)
      exact ⟨not_le.mp hroll, k', hedit⟩
    · rintro ⟨-, k', hedit⟩
      refine ⟨_, Option.map_eq_some_iff.mpr ⟨_, hedit, rfl⟩, ?_⟩
      exact ⟨fun hne => absurd rfl hne, fun hle => absurd hle hroll⟩

/-- **Requests are altered as they should be in the runs that alter none.** -/
theorem honest_iff (m : Mutation) (calls : List Rolls) : Honest t m a calls ↔
    ∀ rolls ∈ calls, m.chance < rolls.chanceRoll ∧ Idle t m.kind rolls.draws a := by
  induction calls generalizing m with
  | nil => exact ⟨fun _ _ h => absurd h List.not_mem_nil, fun _ => ⟨rfl, trivial⟩⟩
  | cons rolls calls ih =>
    rw [List.forall_mem_cons, ← honest_step_iff]
    -- after a call that changes nothing the run begins again
    have hrest : ∀ s', mutate t (m, a) rolls = some s' → (s'.2 ≠ a ↔ rolls.chanceRoll ≤ m.chance) →
        (Honest t m a (rolls :: calls) ↔
          ∀ rolls' ∈ calls, m.chance < rolls'.chanceRoll ∧ Idle t m.kind rolls'.draws a) := by
      intro s' hs' halter
      obtain ⟨hlt, k', hedit⟩ := (honest_step_iff.mp ⟨s', hs', halter⟩).imp_right edit_eq_self_iff.mpr
      rw [mutate_of_lt hlt, hedit] at hs'
      obtain rfl := Option.some.inj hs'
      have hmutate : mutate t (m, a) rolls = some ({ m with kind := k' }, a) := by
        rw [mutate_of_lt hlt, hedit]
        rfl
      have hbegin : Honest t m a (rolls :: calls) ↔ Honest t { m with kind := k' } a calls := by
        unfold Honest
        rw [Lib.Machine.run_cons, hmutate, Option.bind_some]
        refine and_congr_right fun _ => ⟨fun h => (h _ hmutate).2, fun h s' hs' => ?_⟩
        obtain rfl := Option.some.inj (hmutate.symm.trans hs')
        exact ⟨halter, h⟩
      rw [hbegin, ih]
      refine forall₂_congr fun rolls' _ => and_congr_right fun _ => idle_edit hedit
    constructor
    · intro h
      obtain ⟨s', hs', -⟩ := Option.bind_eq_some_iff.mp (Option.isSome_iff_exists.mp h.1).choose_spec
      have halter := (h.2 s' hs').1
      exact ⟨⟨s', hs', halter⟩, (hrest s' hs' halter).mp h⟩
    · rintro ⟨⟨s', hs', halter⟩, h⟩
      exact (hrest s' hs' halter).mpr h

/-! ## 2. Calls that are repeated -/

theorem Encoded.join_eq_some {e data : Encoded} {payload : Bytes} :
    Encoded.join e payload = some data ↔
      ∃ b, e = .bytes b ∧ data = .bytes (b ++ payload) := by
  cases e with
  | bytes b =>
    constructor
    · intro h
      exact ⟨b, rfl, (Option.some.inj h).symm⟩
    · rintro ⟨b', hb, rfl⟩
      obtain rfl := Engines.RequestEncoding.Encoded.bytes.inj hb
      rfl
  | chunks cs =>
    constructor
    · intro h
      cases h
    · rintro ⟨b, hb, -⟩
      cases hb

variable (t)

/-- **Repeatable**: the action can be mutated, and what that leaves has nothing to be changed. -/
def Repeatable (k : Kind) (a : Action D S E) : Prop :=
  match k with
  | .deformHeader x => ∃ headers a', x.deformed a.headers = some headers ∧
      t.setupHeaders { a with headers := headers, headerItems := headers.items } = some a' ∧
      x.deformed (headers.update t.own) = some headers ∧ t.Settled a'
  | .smuggleRequest x => a.method ∈ bodyMethods → ∃ b a' originalData, marked a = some b ∧
      t.setupHeaders b = some a' ∧ x.originalData.or a.encodedData = some (.bytes originalData) ∧
      match x.smuggledRequest with
      | some smuggled => a'.headerItems = a'.headers.items ∧
        t.Settled { a' with encodedData := some (.bytes (originalData ++ smuggled.encoded)) }
      | none => x.requestSize.isSome ∧
        (t.setupHeaders { a' with headerItems := a'.headers.items }).isSome
  | .injectHeader x => (x.headerName, x.headerValue) ∈ a.headerItems ∨
      (t.setupHeaders
        { a with headerItems := a.headerItems ++ [(x.headerName, x.headerValue)] }).isSome
  | .injectJunkData x => a.method ∈ bodyMethods → ∃ originalData b a',
      x.originalData.or a.encodedData = some (.bytes originalData) ∧
      t.setupData { a with encodedData := some (.bytes (originalData ++ x.junkData)) } = some b ∧
      t.setupHeaders b = some a' ∧ t.Settled a'
  | .injectPing _ => True

/-- The mutation leaves an action that it would leave as it is. -/
def Settles (k : Kind) (a : Action D S E) : Prop :=
  ∃ k' a', k.edit t (fun _ => 0) a = some (k', a') ∧ Idle t k' (fun _ => 0) a'

variable {t}

theorem deformHeader_settles_iff {x : DeformHeader} :
    Settles t (.deformHeader x) a ↔ Repeatable t (.deformHeader x) a := by
  constructor
  · rintro ⟨k', a', hedit, hidle⟩
    obtain ⟨rfl, hmutate⟩ := edit_deformHeader.mp hedit
    obtain ⟨headers, hheaders, hsetup⟩ := Option.bind_eq_some_iff.mp hmutate
    obtain ⟨again, hagain, hitems, -, hsettled⟩ := hidle
    have hset := ActionType.headersSet hsetup
    obtain rfl : again = headers := Dict.ext_items (hitems.trans hset.headerItems)
    rw [hset.headers] at hagain
    exact ⟨again, a', hheaders, hsetup, hagain, hsettled⟩
  · rintro ⟨headers, a', hheaders, hsetup, hagain, hsettled⟩
    have hset := ActionType.headersSet hsetup
    refine ⟨.deformHeader x, a', ?_, headers, ?_, hset.headerItems.symm, hset.headers.symm, hsettled⟩
    · exact edit_deformHeader.mpr ⟨rfl, Option.bind_eq_some_iff.mpr ⟨_, hheaders, hsetup⟩⟩
    · rw [hset.headers]
      exact hagain

theorem injectHeader_settles_iff {x : InjectHeader} :
    Settles t (.injectHeader x) a ↔ Repeatable t (.injectHeader x) a := by
  dsimp only [Settles, Repeatable, Kind.edit, InjectHeader.mutate]
  by_cases hmem : (x.headerName, x.headerValue) ∈ a.headerItems
  · rw [if_neg (not_not.mpr hmem)]
    exact ⟨fun _ => .inl hmem, fun _ => ⟨_, _, rfl, hmem, Dict.get?_set_self _ _ _⟩⟩
  · rw [if_pos hmem]
    constructor
    · rintro ⟨k', a', hedit, -⟩
      obtain ⟨a'', ha'', -⟩ := Option.map_eq_some_iff.mp hedit
      obtain ⟨b, hb, -⟩ := Option.map_eq_some_iff.mp ha''
      exact .inr (Option.isSome_iff_exists.mpr ⟨b, hb⟩)
    · intro h
      obtain ⟨b, hb⟩ := Option.isSome_iff_exists.mp (h.resolve_left hmem)
      rw [hb]
      refine ⟨_, _, rfl, ?_, Dict.get?_set_self _ _ _⟩
      change _ ∈ b.headerItems
      rw [(ActionType.headersSet hb).headerItems]
      exact List.mem_append_right _ List.mem_cons_self

theorem smuggleRequest_settles_iff {x : SmuggleRequest} (hfixed : x.smuggledRequest.isSome) :
    Settles t (.smuggleRequest x) a ↔ Repeatable t (.smuggleRequest x) a := by
  obtain ⟨smuggled, hsmuggled⟩ := Option.isSome_iff_exists.mp hfixed
  have hpayload : ∀ o draws, ({ x with originalData := o } : SmuggleRequest).payload draws =
      some smuggled.encoded := by
    intro o draws
    rw [SmuggleRequest.payload, hsmuggled]
  by_cases hmethod : a.method ∈ bodyMethods
  · simp only [Settles, Repeatable, hmethod, true_imp_iff, hsmuggled]
    constructor
    · rintro ⟨k', a₁, hedit, hidle⟩
      obtain ⟨x', rfl, hmutate⟩ := edit_smuggleRequest.mp hedit
      obtain ⟨b, a', e, payload, data, hb, ha', horiginal, hp, hjoin, rfl, rfl⟩ :=
        (smuggleRequest_mutate_iff hmethod).mp hmutate
      obtain rfl := Option.some.inj ((hpayload x.originalData _).symm.trans hp)
      obtain ⟨originalData, rfl, rfl⟩ := Encoded.join_eq_some.mp hjoin
      obtain ⟨-, hitems, hsettled, -⟩ := hidle (method_of_marked hb ha' ▸ hmethod)
      exact ⟨b, a', originalData, hb, ha', horiginal, hitems, hsettled⟩
    · rintro ⟨b, a', originalData, hb, ha', horiginal, hitems, hsettled⟩
      refine ⟨_, _, edit_smuggleRequest.mpr ⟨_, rfl, (smuggleRequest_mutate_iff hmethod).mpr
        ⟨b, a', _, _, _, hb, ha', horiginal, hpayload _ _, rfl, rfl, rfl⟩⟩, fun _ => ?_⟩
      have hmarked : Marked a'.headers := marked_setup hb ha'
      exact ⟨hmarked, hitems, hsettled, _, _, _, rfl, hpayload _ _, rfl, rfl⟩
  · refine ⟨fun _ h => absurd h hmethod,
      fun _ => ⟨.smuggleRequest x, a, ?_, fun h => absurd h hmethod⟩⟩
    dsimp only [Kind.edit, SmuggleRequest.mutate]
    rw [if_pos hmethod]
    rfl

theorem injectJunkData_settles_iff {x : InjectJunkData} :
    Settles t (.injectJunkData x) a ↔ Repeatable t (.injectJunkData x) a := by
  by_cases hmethod : a.method ∈ bodyMethods
  · simp only [Settles, Repeatable, hmethod, true_imp_iff]
    constructor
    · rintro ⟨k', a₁, hedit, hidle⟩
      obtain ⟨x', rfl, hmutate⟩ := edit_injectJunkData.mp hedit
      obtain ⟨b, e, data, horiginal, hjoin, hb, ha', rfl⟩ :=
        (injectJunkData_mutate_iff hmethod).mp hmutate
      obtain ⟨originalData, rfl, rfl⟩ := Encoded.join_eq_some.mp hjoin
      obtain ⟨r, -, rfl⟩ := Option.map_eq_some_iff.mp hb
      have hmethod' : a₁.method = a.method := (ActionType.headersSet ha').method
      exact ⟨originalData, _, a₁, horiginal, hb, ha', (hidle (hmethod' ▸ hmethod)).1⟩
    · rintro ⟨originalData, b, a', horiginal, hb, ha', hsettled⟩
      refine ⟨_, _, edit_injectJunkData.mpr ⟨_, rfl, (injectJunkData_mutate_iff hmethod).mpr
        ⟨b, _, _, horiginal, rfl, hb, ha', rfl⟩⟩, fun _ => ?_⟩
      obtain ⟨⟨e, d⟩, he, rfl⟩ := Option.map_eq_some_iff.mp hb
      have hset := ActionType.headersSet ha'
      refine ⟨hsettled, _, _, e, rfl, rfl, ?_, hset.encodedData.symm⟩
      rw [hset.source]
      exact t.encodeData_again _ _ _ he
  · refine ⟨fun _ h => absurd h hmethod,
      fun _ => ⟨.injectJunkData x, a, ?_, fun h => absurd h hmethod⟩⟩
    dsimp only [Kind.edit, InjectJunkData.mutate]
    rw [if_pos hmethod]
    rfl

/-- **With a fixed payload the first call settles the rest exactly where the mutation is
repeatable.** -/
theorem settles_iff {k : Kind} (hfixed : k.Fixed) : Settles t k a ↔ Repeatable t k a := by
  cases k with
  | deformHeader x => exact deformHeader_settles_iff
  | smuggleRequest x => exact smuggleRequest_settles_iff hfixed
  | injectHeader x => exact injectHeader_settles_iff
  | injectJunkData x => exact injectJunkData_settles_iff
  | injectPing x => exact ⟨fun _ => trivial, fun _ => ⟨_, _, rfl, trivial⟩⟩

/-- Where the payload is fixed, what is drawn does not matter. -/
theorem edit_draws {k : Kind} (hfixed : k.Fixed) (draws draws' : ℕ → ℕ) :
    k.edit t draws a = k.edit t draws' a := by
  cases k with
  | smuggleRequest x =>
    obtain ⟨smuggled, hsmuggled⟩ := Option.isSome_iff_exists.mp hfixed
    have hpayload : x.payload draws = x.payload draws' := by
      rw [SmuggleRequest.payload, SmuggleRequest.payload, hsmuggled]
    dsimp only [Kind.edit, SmuggleRequest.mutate]
    rw [hpayload]
  | _ => rfl

theorem idle_draws {k : Kind} (hfixed : k.Fixed) (draws draws' : ℕ → ℕ) :
    Idle t k draws a ↔ Idle t k draws' a := by
  rw [← edit_eq_self_iff, ← edit_eq_self_iff, edit_draws hfixed draws draws']

theorem fixed_edit {k k' : Kind} {draws : ℕ → ℕ} {a' : Action D S E}
    (h : k.edit t draws a = some (k', a')) : k'.Fixed ↔ k.Fixed := by
  cases k with
  | deformHeader x =>
    obtain ⟨rfl, -⟩ := edit_deformHeader.mp h
    exact Iff.rfl
  | smuggleRequest x =>
    obtain ⟨x', rfl, hmutate⟩ := edit_smuggleRequest.mp h
    by_cases hmethod : a.method ∈ bodyMethods
    · obtain ⟨-, -, originalData, -, -, -, -, -, -, -, rfl, -⟩ :=
        (smuggleRequest_mutate_iff hmethod).mp hmutate
      exact Iff.rfl
    · rw [SmuggleRequest.mutate, if_pos hmethod] at hmutate
      obtain ⟨rfl, -⟩ := Prod.mk.inj (Option.some.inj hmutate)
      exact Iff.rfl
  | injectHeader x =>
    obtain ⟨rfl, -⟩ := edit_injectHeader.mp h
    exact Iff.rfl
  | injectJunkData x =>
    obtain ⟨x', rfl, -⟩ := edit_injectJunkData.mp h
    exact Iff.rfl
  | injectPing x =>
    obtain ⟨rfl, -⟩ := Prod.mk.inj (Option.some.inj h)
    exact Iff.rfl

theorem top_nonneg : (0 : ℚ) ≤ 1 := zero_le_one

theorem top_le_one : (1 : ℚ) ≤ 1 := le_rfl

/-- A roll that is outside of every chance that leaves one out. -/
def Rolls.top : Rolls := ⟨1, top_nonneg, top_le_one, fun _ => 0⟩

theorem mutate_top {m : Mutation} (hchance : m.chance < 1) : mutate t (m, a) .top =
    (m.kind.edit t (fun _ => 0) a).map fun r => ({ m with kind := r.1 }, r.2) :=
  mutate_of_lt (show m.chance < Rolls.top.chanceRoll from hchance)

/-- A state in which no call changes the action. -/
def Still (chance : ℚ) (a : Action D S E) (s : Mutation × Action D S E) : Prop :=
  s.2 = a ∧ s.1.chance = chance ∧ ∀ draws, Idle t s.1.kind draws a

theorem still_step {chance : ℚ} (s : Mutation × Action D S E) (rolls : Rolls)
    (h : Still (t := t) chance a s) :
    ∃ s', mutate t s rolls = some s' ∧ Still (t := t) chance a s' := by
  obtain ⟨m, b⟩ := s
  obtain ⟨rfl, hchance, hidle⟩ := h
  dsimp only at hchance hidle
  by_cases hroll : rolls.chanceRoll ≤ m.chance
  · exact ⟨_, mutate_of_le hroll, rfl, hchance, hidle⟩
  · obtain ⟨k', hedit⟩ := edit_eq_self_iff.mpr (hidle rolls.draws)
    refine ⟨({ m with kind := k' }, b), ?_, rfl, hchance, fun draws => ?_⟩
    · rw [mutate_of_lt (not_le.mp hroll), hedit]
      rfl
    · exact (idle_edit hedit).mpr (hidle draws)

/-- Calls that do not mutate, or leave a state of an invariant that they keep. -/
theorem exists_run {m : Mutation} {I : Mutation × Action D S E → Prop}
    (hfirst : ∀ rolls : Rolls, m.chance < rolls.chanceRoll →
      ∃ s', mutate t (m, a) rolls = some s' ∧ I s')
    (hkeep : ∀ s rolls, I s → ∃ s', mutate t s rolls = some s' ∧ I s') (calls : List Rolls) :
    ∃ s, run (mutate t) (m, a) calls = some s ∧
      ((∃ rolls ∈ calls, m.chance < rolls.chanceRoll) → I s) :=
  Lib.Machine.exists_run_of_settles (fun _ h => mutate_of_le (not_lt.mp h)) hfirst hkeep calls

/-- A mutation that always rolls within its chance is never seen. -/
theorem repeats_of_certain {m : Mutation} (h : 1 ≤ m.chance) : Repeats t m a := by
  intro calls
  have hwithin : ∀ rolls : Rolls, ¬m.chance < rolls.chanceRoll := fun rolls =>
    not_lt.mpr (rolls.le_one.trans h)
  obtain ⟨s, hrun, -⟩ := exists_run (I := fun _ => False)
    (fun rolls hlt => absurd hlt (hwithin rolls)) (fun _ _ hI => hI.elim) calls
  exact ⟨s, hrun, fun _ rolls _ hlt => absurd hlt (hwithin rolls)⟩

/-- **Calls that settle.** -/
theorem repeats_of_settles {m : Mutation} (hfixed : m.kind.Fixed) (h : Settles t m.kind a) :
    Repeats t m a := by
  obtain ⟨k', a', hedit, hidle⟩ := h
  have hfirst : ∀ rolls : Rolls, m.chance < rolls.chanceRoll →
      mutate t (m, a) rolls = some ({ m with kind := k' }, a') := by
    intro rolls hlt
    rw [mutate_of_lt hlt, edit_draws hfixed _ fun _ => 0, hedit]
    rfl
  have hstill : Still (t := t) m.chance a' ({ m with kind := k' }, a') :=
    ⟨rfl, rfl, fun draws => (idle_draws ((fixed_edit hedit).mpr hfixed) _ _).mp hidle⟩
  intro calls
  obtain ⟨s, hrun, hlast⟩ :=
    exists_run (fun rolls hlt => ⟨_, hfirst rolls hlt, hstill⟩) still_step calls
  refine ⟨s, hrun, fun _ rolls hmem hlt => ?_⟩
  rw [hfirst rolls hlt, (hlast ⟨rolls, hmem, hlt⟩).1]
  rfl

theorem settles_of_repeats {m : Mutation} (hfixed : m.kind.Fixed) (hchance : m.chance < 1)
    (h : Repeats t m a) : Settles t m.kind a := by
  obtain ⟨s, hrun, hsame⟩ := h [.top, .top]
  obtain ⟨⟨m₁, a₁⟩, hs₁, hrun⟩ := Lib.Machine.run_cons_eq_some.mp hrun
  obtain ⟨s₂, hs₂, hrun⟩ := Lib.Machine.run_cons_eq_some.mp hrun
  obtain rfl := Option.some.inj hrun
  have hlast := hsame hfixed .top List.mem_cons_self hchance
  rw [hs₁] at hlast
  rw [mutate_top hchance] at hs₁
  obtain ⟨⟨k', a'⟩, hedit, heq⟩ := Option.map_eq_some_iff.mp hs₁
  obtain ⟨hm₁, rfl⟩ := Prod.mk.inj heq
  rw [mutate_top (hm₁ ▸ hchance)] at hs₂
  obtain ⟨⟨k'', a''⟩, hagain, rfl⟩ := Option.map_eq_some_iff.mp hs₂
  obtain rfl : a' = a'' := Option.some.inj hlast
  rw [← hm₁] at hagain
  exact ⟨k', a', hedit, edit_eq_self_iff.mp ⟨k'', hagain⟩⟩

/-- A state in which a payload can be drawn for every call. -/
structure Supplied (x : SmuggleRequest) (originalData : Bytes) (s : Mutation × Action D S E) :
    Prop where
  kind : s.1.kind = .smuggleRequest x
  random : x.smuggledRequest = none
  size : x.requestSize.isSome
  original : x.originalData = some (.bytes originalData)
  method : s.2.method ∈ bodyMethods
  marked : Marked s.2.headers
  own : s.2.headers.update t.own = s.2.headers
  setup : (t.setupHeaders { s.2 with headerItems := s.2.headers.items }).isSome

theorem payload_isSome {x : SmuggleRequest} (hrandom : x.smuggledRequest = none)
    (draws : ℕ → ℕ) : (x.payload draws).isSome = x.requestSize.isSome := by
  rw [SmuggleRequest.payload, hrandom]
  exact Option.isSome_map

theorem supplied_step {x : SmuggleRequest} {originalData : Bytes} (s : Mutation × Action D S E)
    (rolls : Rolls) (h : Supplied (t := t) x originalData s) :
    ∃ s', mutate t s rolls = some s' ∧ Supplied (t := t) x originalData s' := by
  obtain ⟨m, b⟩ := s
  obtain ⟨hkind, hrandom, hsize, horiginal, hmethod, hmarked, hown, hsetup⟩ := h
  dsimp only at hkind hmethod hmarked hown hsetup
  by_cases hroll : rolls.chanceRoll ≤ m.chance
  · exact ⟨_, mutate_of_le hroll, hkind, hrandom, hsize, horiginal, hmethod, hmarked, hown, hsetup⟩
  · obtain ⟨a', ha'⟩ := Option.isSome_iff_exists.mp hsetup
    obtain ⟨payload, hpayload⟩ := Option.isSome_iff_exists.mp
      ((payload_isSome hrandom rolls.draws).trans hsize)
    have hset := ActionType.headersSet ha'
    have hheaders : a'.headers = b.headers := hset.headers.trans hown
    have hmutate := (smuggleRequest_mutate_iff (t := t) hmethod).mpr
      ⟨_, a', _, payload, _, marked_of_marked hmarked, ha', by rw [horiginal, Option.some_or], hpayload,
        rfl, rfl, rfl⟩
    refine ⟨({ m with kind := .smuggleRequest x },
      { a' with encodedData := some (.bytes (originalData ++ payload)) }), ?_, rfl, hrandom, hsize,
      horiginal, ?_, ?_, ?_, ?_⟩
    · rw [mutate_of_lt (not_le.mp hroll), hkind]
      dsimp only [Kind.edit]
      rw [hmutate, ← horiginal]
      rfl
    · exact hset.method ▸ hmethod
    · exact hheaders ▸ hmarked
    · dsimp only
      rw [hheaders, hown]
    · refine (ActionType.setupHeaders_isSome (b := { b with headerItems := b.headers.items }) ?_ ?_ ?_
        ?_).trans hsetup
      · exact hset.method
      · exact congrArg (·.update t.own) hheaders
      · exact congrArg Dict.items hheaders
      · exact hset.source

/-- What two calls with random payloads need. -/
theorem repeatable_of_random {m : Mutation} {x : SmuggleRequest} (hkind : m.kind = .smuggleRequest x)
    (hrandom : x.smuggledRequest = none) (hchance : m.chance < 1) (h : Repeats t m a) :
    Repeatable t (.smuggleRequest x) a := by
  intro hmethod
  obtain ⟨s, hrun, -⟩ := h [.top, .top]
  obtain ⟨⟨m₁, c⟩, hs₁, hrun⟩ := Lib.Machine.run_cons_eq_some.mp hrun
  obtain ⟨s₂, hs₂, -⟩ := Lib.Machine.run_cons_eq_some.mp hrun
  rw [mutate_top hchance, hkind] at hs₁
  obtain ⟨⟨k₁, a₁⟩, hedit, heq⟩ := Option.map_eq_some_iff.mp hs₁
  obtain ⟨hm₁, rfl⟩ := Prod.mk.inj heq
  obtain ⟨x', rfl, hmutate⟩ := edit_smuggleRequest.mp hedit
  obtain ⟨b, a', e, payload, data, hb, ha', horiginal, hpayload, hjoin, -, ha₁⟩ :=
    (smuggleRequest_mutate_iff hmethod).mp hmutate
  obtain ⟨originalData, rfl, -⟩ := Encoded.join_eq_some.mp hjoin
  rw [mutate_top (hm₁ ▸ hchance), ← hm₁] at hs₂
  obtain ⟨⟨k₂, a₂'⟩, hagain, -⟩ := Option.map_eq_some_iff.mp hs₂
  obtain ⟨x'', -, hmutate'⟩ := edit_smuggleRequest.mp hagain
  have hmethod' : a₁.method ∈ bodyMethods := by
    rw [ha₁]
    exact method_of_marked hb ha' ▸ hmethod
  have hheaders : Marked a'.headers := marked_setup hb ha'
  have hmarked : Marked a₁.headers := by
    rw [ha₁]
    exact hheaders
  obtain ⟨b₂, a₂, -, -, -, hb₂, ha₂, -⟩ := (smuggleRequest_mutate_iff hmethod').mp hmutate'
  rw [marked_of_marked hmarked] at hb₂
  obtain rfl := Option.some.inj hb₂
  refine ⟨b, a', originalData, hb, ha', horiginal, ?_⟩
  rw [hrandom]
  refine ⟨?_, ?_⟩
  · rw [← payload_isSome hrandom, hpayload]
    rfl
  · rw [← Option.isSome_iff_exists.mpr ⟨a₂, ha₂⟩, ha₁]
    exact ActionType.setupHeaders_isSome rfl rfl rfl rfl

/-- **Random payloads**: what the first call needs, and the headers that it has written, are enough
for all. -/
theorem repeats_of_random {m : Mutation} {x : SmuggleRequest} (hkind : m.kind = .smuggleRequest x)
    (hrandom : x.smuggledRequest = none) (h : Repeatable t (.smuggleRequest x) a) :
    Repeats t m a := by
  have hunfixed : ¬m.kind.Fixed := by
    rw [hkind]
    dsimp only [Kind.Fixed]
    rw [hrandom]
    exact Bool.false_ne_true
  intro calls
  by_cases hmethod : a.method ∈ bodyMethods
  · obtain ⟨b, a', originalData, hb, ha', horiginal, hrest⟩ := h hmethod
    rw [hrandom] at hrest
    obtain ⟨hsize, hsetup⟩ := hrest
    have hmarked : Marked a'.headers := marked_setup hb ha'
    have hfirst : ∀ rolls : Rolls, m.chance < rolls.chanceRoll →
        ∃ s', mutate t (m, a) rolls = some s' ∧
        Supplied (t := t) { x with originalData := some (.bytes originalData) } originalData s' := by
      intro rolls hlt
      obtain ⟨payload, hpayload⟩ := Option.isSome_iff_exists.mp
        ((payload_isSome hrandom rolls.draws).trans hsize)
      have hmutate := (smuggleRequest_mutate_iff (t := t) hmethod).mpr
        ⟨b, a', _, payload, _, hb, ha', horiginal, hpayload, rfl, rfl, rfl⟩
      refine ⟨({ m with kind := .smuggleRequest { x with originalData := some (.bytes originalData) } },
        { a' with encodedData := some (.bytes (originalData ++ payload)) }), ?_, rfl, hrandom, hsize,
        rfl, method_of_marked hb ha' ▸ hmethod, hmarked, ?_, ?_⟩
      · rw [mutate_of_lt hlt, hkind]
        dsimp only [Kind.edit]
        rw [hmutate]
        rfl
      · dsimp only
        rw [(ActionType.headersSet ha').headers, Dict.update_update]
      · rw [← hsetup]
        exact ActionType.setupHeaders_isSome rfl rfl rfl rfl
    obtain ⟨s, hrun, -⟩ := exists_run hfirst supplied_step calls
    exact ⟨s, hrun, fun hfixed => absurd hfixed hunfixed⟩
  · have hstill : Still (t := t) m.chance a (m, a) := by
      refine ⟨rfl, rfl, fun _ => ?_⟩
      rw [hkind]
      exact fun h => absurd h hmethod
    obtain ⟨s, hrun, -⟩ := Lib.Machine.exists_run_of_invariant still_step hstill calls
    exact ⟨s, hrun, fun hfixed => absurd hfixed hunfixed⟩

/-- **Repeated calls raise nothing and leave what one would exactly where the mutation is
repeatable**, unless it always rolls within its chance. -/
theorem repeats_iff (m : Mutation) : Repeats t m a ↔ 1 ≤ m.chance ∨ Repeatable t m.kind a := by
  by_cases hchance : 1 ≤ m.chance
  · exact iff_of_true (repeats_of_certain hchance) (.inl hchance)
  · rw [or_iff_right hchance]
    rw [not_le] at hchance
    by_cases hfixed : m.kind.Fixed
    · rw [← settles_iff hfixed]
      exact ⟨settles_of_repeats hfixed hchance, repeats_of_settles hfixed⟩
    · cases hkind : m.kind with
      | smuggleRequest x =>
        rw [hkind] at hfixed
        have hrandom : x.smuggledRequest = none := Option.not_isSome_iff_eq_none.mp hfixed
        exact ⟨repeatable_of_random hkind hrandom hchance, repeats_of_random hkind hrandom⟩
      | _ =>
        rw [hkind] at hfixed
        exact absurd trivial hfixed

end Idle

/-! ## 3. Copies -/

/-- A copy behaves as its original did before its first action, with a payload of its own. -/
def Copyable (m : Mutation) : Prop :=
  match m.kind with
  -- the characters of the original are given as one text, where a list is asked for
  | .deformHeader _ => False
  | .smuggleRequest x => x.requestSize.isSome ∧ x.smuggledRequest.isSome ∧
      (1 ≤ m.chance ∨ x.originalData = none)
  | .injectHeader _ => True
  | .injectJunkData x => 1 ≤ m.chance ∨ x.originalData = none ∧ x.junkSize ≤ 0
  | .injectPing _ => True

theorem Alike.refl (m : Mutation) : Alike m m := fun _ _ _ _ _ => rfl

theorem outputs_of_certain {D S E : Type} (t : ActionType D S E) {m : Mutation} (h : 1 ≤ m.chance)
    (calls : List (Action D S E × Rolls)) : outputs t m calls = some (calls.map Prod.fst) := by
  induction calls with
  | nil => rfl
  | cons call calls ih =>
    obtain ⟨a, rolls⟩ := call
    rw [outputs, mutate_of_le (rolls.le_one.trans h), Option.bind_some]
    dsimp only
    rw [ih]
    rfl

/-- Two mutations that are never seen. -/
theorem alike_of_certain {m m' : Mutation} (h : 1 ≤ m.chance) (h' : 1 ≤ m'.chance) : Alike m m' := by
  intro D S E t calls
  rw [outputs_of_certain t h, outputs_of_certain t h']

/-! ### What tells two mutations apart -/

/-- A type of actions that encodes nothing. -/
def plain : ActionType Unit Unit Unit where
  own := Dict.empty
  encode _ := some ((), ())
  encodeData d := some (none, d)
  encode_isSome _ _ _ _ _ _ := rfl
  encodeData_again _ _ _ h := h

/-- A `POST` with its data. -/
def post (data : Bytes) : Action Unit Unit Unit where
  method := "POST".toList
  headers := Dict.empty
  headerItems := []
  source := ()
  encodedData := some (.bytes data)
  encoder := ()
  encodedHeaders := none

/-- The data of that action, after it. -/
def Kind.sent (k : Kind) (data : Bytes) : Option Encoded :=
  (k.edit plain (fun _ => 0) (post data)).bind fun r => r.2.encodedData

theorem sent_of_alike {m m' : Mutation} (h : Alike m m') (hchance : m.chance < 1)
    (hchance' : m'.chance < 1) (data : Bytes) : m.kind.sent data = m'.kind.sent data := by
  have hout : ∀ {m : Mutation}, m.chance < 1 → m.kind.sent data =
      (outputs plain m [(post data, .top)]).bind fun as => as.head?.bind Action.encodedData := by
    intro m hm
    rw [outputs, mutate_top hm, Kind.sent]
    cases m.kind.edit plain (fun _ => 0) (post data) with
    | none => rfl
    | some r => rfl
  rw [hout hchance, hout hchance', h]

theorem sent_smuggleRequest {x : SmuggleRequest} {smuggled : Smuggled}
    (h : x.smuggledRequest = some smuggled) (data : Bytes) : (Kind.smuggleRequest x).sent data =
      (x.originalData.or (some (.bytes data))).bind fun e => Encoded.join e smuggled.encoded := by
  have hpayload : x.payload (fun _ => 0) = some smuggled.encoded := by
    rw [SmuggleRequest.payload, h]
  have hmethod : (post data).method ∈ bodyMethods := List.mem_cons_self
  obtain ⟨b, hb, hdata⟩ : ∃ b, SmuggleRequest.marked (post data) = some b ∧
      b.encodedData = some (.bytes data) := ⟨_, rfl, rfl⟩
  have hset : plain.setupHeaders b = some { b with encodedHeaders := some () } := rfl
  unfold Kind.sent Kind.edit SmuggleRequest.mutate
  dsimp only
  rw [if_neg (not_not.mpr hmethod)]
  simp only [Option.bind_eq_bind, hb, hset, hpayload, hdata, Option.bind_some]
  cases x.originalData.or (some (.bytes data)) with
  | none => rfl
  | some e => cases hjoin : Encoded.join e smuggled.encoded <;> simp only [hjoin, Option.bind_some,
      Option.bind_none, Option.map_some, Option.map_none]

theorem sent_injectJunkData {x : InjectJunkData} (data : Bytes) : (Kind.injectJunkData x).sent data =
    (x.originalData.or (some (.bytes data))).bind fun e => Encoded.join e x.junkData := by
  have hmethod : (post data).method ∈ bodyMethods := List.mem_cons_self
  have hdata : (post data).encodedData = some (.bytes data) := rfl
  have hsetupData : ∀ e, plain.setupData { post data with encodedData := some e } =
      some { post data with encodedData := some e } := fun _ => rfl
  have hset : ∀ e, plain.setupHeaders { post data with encodedData := some e } =
      some { post data with encodedData := some e, encodedHeaders := some () } := fun _ => rfl
  unfold Kind.sent Kind.edit InjectJunkData.mutate
  dsimp only
  rw [if_neg (not_not.mpr hmethod), hdata]
  simp only [Option.bind_eq_bind]
  cases x.originalData.or (some (.bytes data)) with
  | none => rfl
  | some e => cases hjoin : Encoded.join e x.junkData <;> simp only [hjoin, hsetupData, hset,
      Option.bind_some, Option.bind_none, Option.map_some, Option.map_none]

/-- Data that is longer than what comes out of the data before it. -/
theorem exists_join_ne (e : Encoded) (payload payload' : Bytes) :
    ∃ data, Encoded.join e payload ≠ some (.bytes (data ++ payload')) := by
  cases e with
  | bytes b =>
    refine ⟨List.replicate (b.length + payload.length + 1) 0, fun h => ?_⟩
    have hlength := congrArg List.length
      (Engines.RequestEncoding.Encoded.bytes.inj (Option.some.inj h))
    rw [List.length_append, List.length_append, List.length_replicate] at hlength
    omega
  | chunks cs => exact ⟨[], fun h => by cases h⟩

theorem characterPool_eq : ∃ pool, characterPool = 'a' :: 'b' :: pool := ⟨_, rfl⟩

/-- The first character of a payload, if it has one. -/
theorem choices_eq_cons {k : ℤ} (hk : 0 < k) (draw : ℕ) {c : Char}
    (hc : characterPool[draw]? = some c) :
    ∃ s, choices characterPool k (fun _ => draw) = c :: s := by
  obtain ⟨n, hn⟩ : ∃ n, k.toNat = n + 1 := ⟨k.toNat - 1, by omega⟩
  obtain ⟨hlt, -⟩ := List.getElem?_eq_some_iff.mp hc
  rw [choices, hn, List.range_succ_eq_map, List.filterMap_cons]
  simp only [Nat.mod_eq_of_lt hlt, hc]
  exact ⟨_, rfl⟩

/-- **A copy can draw other junk**, if it draws any. -/
theorem exists_choices_ne {k : ℤ} (hk : 0 < k) (junk : Bytes) :
    ∃ draws, encode (choices characterPool k draws) ≠ junk := by
  by_contra hall
  push Not at hall
  have hsame := (hall fun _ => 0).trans (hall fun _ => 1).symm
  obtain ⟨pool, hpool⟩ := characterPool_eq
  obtain ⟨s, hs⟩ := choices_eq_cons hk 0 (by rw [hpool]; rfl)
  obtain ⟨s', hs'⟩ := choices_eq_cons hk 1 (by rw [hpool]; rfl)
  rw [hs, hs', Lib.Utf8.encode_cons, Lib.Utf8.encode_cons] at hsame
  have hhead : (some 97 : Option UInt8) = some 98 := congrArg List.head? hsame
  exact absurd hhead (by decide)

theorem choices_of_nonpos {k : ℤ} (hk : k ≤ 0) (draws : ℕ → ℕ) :
    choices characterPool k draws = [] := by
  rw [choices, Int.toNat_of_nonpos hk]
  rfl

theorem smuggleRequest_copies_iff {m : Mutation} {x : SmuggleRequest}
    (hkind : m.kind = .smuggleRequest x) {smuggled : Smuggled}
    (hsmuggled : x.smuggledRequest = some smuggled) :
    Alike m { m with kind := .smuggleRequest { x with originalData := none } } ↔
      1 ≤ m.chance ∨ x.originalData = none := by
  constructor
  · intro h
    by_contra hnot
    rw [not_or, not_le] at hnot
    obtain ⟨hchance, hne⟩ := hnot
    obtain ⟨e, he⟩ := Option.ne_none_iff_exists'.mp hne
    obtain ⟨data, hdata⟩ := exists_join_ne e smuggled.encoded smuggled.encoded
    have hsent := sent_of_alike h hchance hchance data
    have hcopy := sent_smuggleRequest (x := { x with originalData := none }) hsmuggled data
    rw [hkind, hcopy, sent_smuggleRequest hsmuggled, he] at hsent
    exact hdata hsent
  · rintro (hchance | hnone)
    · exact alike_of_certain hchance hchance
    · have hsame : ({ x with originalData := none } : SmuggleRequest) = x := by rw [← hnone]
      rw [hsame, ← hkind]
      exact Alike.refl m

theorem injectJunkData_copies_iff {m : Mutation} {x : InjectJunkData}
    (hkind : m.kind = .injectJunkData x) :
    (∀ draws, Alike m { m with kind := .injectJunkData (.new x.junkSize draws) }) ↔
      1 ≤ m.chance ∨ x.originalData = none ∧ x.junkSize ≤ 0 := by
  constructor
  · intro h
    by_contra hnot
    rw [not_or, not_le] at hnot
    obtain ⟨hchance, hdiffer⟩ := hnot
    have hsent := fun draws data => sent_of_alike (h draws) hchance hchance data
    simp only [hkind, sent_injectJunkData] at hsent
    cases he : x.originalData with
    | some e =>
      obtain ⟨data, hdata⟩ := exists_join_ne e x.junkData
        (encode (choices characterPool x.junkSize fun _ => 0))
      have hjoin := hsent (fun _ => 0) data
      rw [he] at hjoin
      exact hdata hjoin
    | none =>
      have hk : 0 < x.junkSize := not_le.mp fun hle => hdiffer ⟨he, hle⟩
      obtain ⟨draws, hne⟩ := exists_choices_ne hk x.junkData
      have hjoin := hsent draws []
      rw [he] at hjoin
      exact hne (Engines.RequestEncoding.Encoded.bytes.inj (Option.some.inj hjoin)).symm
  · rintro (hchance | ⟨hnone, hk⟩) draws
    · exact alike_of_certain hchance hchance
    · have hsame : InjectJunkData.new x.junkSize draws = x := by
        obtain ⟨junkSize, junkData, originalData, draws', hdrawn⟩ := x
        dsimp only at hnone hk
        subst hnone hdrawn
        simp only [InjectJunkData.new, choices_of_nonpos hk]
      rw [hsame, ← hkind]
      exact Alike.refl m

/-- **Copies are like their originals exactly where they can be.** -/
theorem copies_iff (m : Mutation) : CopiesAlike m ↔ Copyable m := by
  unfold CopiesAlike Copyable Mutation.copy
  cases hkind : m.kind with
  | deformHeader x =>
    refine ⟨fun h => ?_, fun h => h.elim⟩
    obtain ⟨m', hm', -⟩ := h fun _ => 0
    cases hm'
  | smuggleRequest x =>
    dsimp only [Kind.copy, SmuggleRequest.copy, SmuggleRequest.new]
    by_cases hgiven : x.requestSize.isSome ∧ x.smuggledRequest.isSome
    · obtain ⟨smuggled, hsmuggled⟩ := Option.isSome_iff_exists.mp hgiven.2
      rw [if_pos hgiven, ← smuggleRequest_copies_iff hkind hsmuggled]
      constructor
      · intro h
        obtain ⟨m', hm', halike⟩ := h fun _ => 0
        obtain rfl := Option.some.inj hm'
        exact ⟨hgiven.1, hgiven.2, halike⟩
      · exact fun h _ => ⟨_, rfl, h.2.2⟩
    · rw [if_neg hgiven]
      refine ⟨fun h => ?_, fun h => absurd ⟨h.1, h.2.1⟩ hgiven⟩
      obtain ⟨m', hm', -⟩ := h fun _ => 0
      cases hm'
  | injectHeader x =>
    refine ⟨fun _ => trivial, fun _ _ => ⟨m, ?_, Alike.refl m⟩⟩
    dsimp only [Kind.copy]
    rw [Option.map_some, ← hkind]
  | injectJunkData x =>
    refine Iff.trans ?_ (injectJunkData_copies_iff hkind)
    constructor
    · intro h draws
      obtain ⟨m', hm', halike⟩ := h draws
      obtain rfl := Option.some.inj hm'
      exact halike
    · exact fun h draws => ⟨_, rfl, h draws⟩
  | injectPing x =>
    refine ⟨fun _ => trivial, fun _ _ => ⟨m, ?_, Alike.refl m⟩⟩
    dsimp only [Kind.copy, InjectPing.copy, InjectPing.new]
    rw [PingTypesMap.get_getName, Option.map_some, Option.map_some, Option.map_some, ← hkind]

/-! ## 4. Mutations -/

section Deformed

variable {D S E : Type} {t : ActionType D S E} {a : Action D S E} {x : DeformHeader}

/-- A header that has been deformed is gone, unless the type of the action writes it itself. -/
theorem get?_deformed {headers deformed : Dict Str Value} (hown : t.own.get? x.headerName = none)
    (h : x.deformed headers = some deformed) : (deformed.update t.own).get? x.headerName = none := by
  obtain ⟨value, -, rfl⟩ := Option.map_eq_some_iff.mp h
  have hne : x.headerName ≠ x.mutatedHeaderName := by
    intro heq
    have hlength := congrArg List.length heq
    rw [DeformHeader.mutatedHeaderName, List.length_append, List.length_cons] at hlength
    omega
  rw [Dict.get?_update, hown, Option.none_or, Dict.get?_set_ne _ _ hne, Dict.get?_erase, if_pos rfl]

/-- There is always something to deform, or nothing that can be. -/
theorem not_idle_deformHeader (hown : t.own.get? x.headerName = none) (draws : ℕ → ℕ) :
    ¬Idle t (.deformHeader x) draws a := by
  rintro ⟨headers, hheaders, -, hsame, -⟩
  obtain ⟨value, hvalue, -⟩ := Option.map_eq_some_iff.mp hheaders
  rw [← hsame, get?_deformed hown hheaders] at hvalue
  cases hvalue

/-- **The second time the header is not there.** -/
theorem not_repeatable_deformHeader (hown : t.own.get? x.headerName = none) :
    ¬Repeatable t (.deformHeader x) a := by
  rintro ⟨headers, -, hheaders, -, hagain, -⟩
  obtain ⟨value, hvalue, -⟩ := Option.map_eq_some_iff.mp hagain
  rw [get?_deformed hown hheaders] at hvalue
  cases hvalue

end Deformed

/-- **Junk does not get through**: what the source is encoded to once more takes its place. -/
theorem idle_injectJunkData {D S E : Type} {t : ActionType D S E} {a : Action D S E}
    {x : InjectJunkData} {data : Bytes} (hfresh : x.originalData = none)
    (hdata : a.encodedData = some (.bytes data))
    (hsource : t.encodeData a.source = some (some (.bytes data), a.source)) (hsettled : t.Settled a)
    (draws : ℕ → ℕ) : Idle t (.injectJunkData x) draws a := by
  refine fun _ => ⟨hsettled, .bytes data, .bytes (data ++ x.junkData), some (.bytes data), ?_, rfl,
    hsource, ?_⟩
  · rw [hfresh, Option.none_or, hdata]
  · rw [Option.some_or, hdata]

/-- **Mutations**, of every kind, for every action of every type: requests are altered as the rolls
say in the runs that roll outside of the chance and have nothing to alter; calls can be repeated
where the action that the first one leaves is settled; and a copy is like its original where that has
kept nothing and draws nothing. -/
theorem mutations_iff {D S E : Type} (t : ActionType D S E) (m : Mutation) (a : Action D S E) :
    (∀ calls, Honest t m a calls ↔
      ∀ rolls ∈ calls, m.chance < rolls.chanceRoll ∧ Idle t m.kind rolls.draws a) ∧
    (Repeats t m a ↔ 1 ≤ m.chance ∨ Repeatable t m.kind a) ∧
    (CopiesAlike m ↔ Copyable m) :=
  ⟨honest_iff m, repeats_iff m, copies_iff m⟩

/-! ### A deformed header -/

/-- A roll within every chance that is not negative. -/
def Rolls.bottom : Rolls := ⟨0, le_refl 0, zero_le_one, fun _ => 0⟩

/-- Every second time, `X-A` shall be deformed. -/
def deformXA : Mutation where
  name := "deform".toList
  chance := 1 / 2
  targets := ["get".toList]
  kind := .deformHeader ⟨"X-A".toList, none, 1, characterPool, "z".toList⟩

/-- `GET`, with one header. -/
def getXA : Action (Source Unit Unit) Unit Bytes where
  method := "GET".toList
  headers := Dict.ofList [("X-A".toList, .text "1".toList)]
  headerItems := [("X-A".toList, .text "1".toList)]
  source := ⟨localhost, "http://localhost".toList, .none, false⟩
  encodedData := none
  encoder := ()
  encodedHeaders := none

/-- The roll is within the chance and nothing is altered, two calls that mutate raise, and there is
no copy. -/
theorem within_chance_unaltered : ¬Honest (http asciiCodecs) deformXA getXA [.bottom] ∧
    ¬Repeats (http asciiCodecs) deformXA getXA ∧ ¬CopiesAlike deformXA := by
  have hchance : (0 : ℚ) < 1 / 2 := by norm_num
  refine ⟨?_, ?_, ?_⟩
  · rw [honest_iff]
    intro h
    exact absurd (h .bottom List.mem_cons_self).1 (not_lt.mpr hchance.le)
  · rw [repeats_iff]
    rintro (hcertain | hrepeatable)
    · exact absurd hcertain (not_le.mpr (show (1 / 2 : ℚ) < 1 by norm_num))
    · exact not_repeatable_deformHeader rfl hrepeatable
  · rw [copies_iff]
    exact id

end Mutations
end Experiments
end Hedra
