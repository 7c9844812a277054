/-
# Snowflake ids

`distributed/snowflake` packs a millisecond timestamp, an instance id and a sequence number
into one integer: `ts << 22 | instance << 12 | seq`.  `SnowflakeGenerator.generate` stamps
the ids from the wall clock, which may stall or step back, and returns `None` when it
cannot; `Snowflake.parse` takes an id apart again.

The layout leaves ten bits to the instance (`MAX_INSTANCE`), while
`service/controller.py` draws `_instance_id` from `0 .. 2 ** 16`.  A larger instance runs
over into the timestamp: the ids of two generators are ordered, decodable and apart if and only
if each generator that issues an id at all has an instance that fits.
-/
import Mathlib.Data.Int.Bitwise
import Mathlib.Data.List.Basic
import Hedra.Lib.BitField

namespace Hedra

open Lib

/-! ## 1. `snowflake/constants.py` and `snowflake/snowflake.py` -/

/-- `MAX_INSTANCE` -/
def maxInstance : Nat := 0b1111111111

/-- `MAX_SEQ` -/
def maxSeq : Nat := 0b111111111111

/-- `Snowflake`, with `instanceId` for the field `instance`. -/
structure Snowflake where
  timestamp : Int
  instanceId : Int
  epoch : Int
  seq : Int
deriving DecidableEq

/-- `Snowflake.parse` at the default `epoch=0`. -/
def Snowflake.parse (snowflake : Int) : Snowflake where
  timestamp := snowflake >>> 22
  instanceId := Int.land (snowflake >>> 12) maxInstance
  epoch := 0
  seq := Int.land snowflake maxSeq

/-- The `repr` that `@dataclass` gives a `Snowflake`. -/
def Snowflake.repr (s : Snowflake) : String :=
  "Snowflake(timestamp=" ++ toString s.timestamp ++ ", instance=" ++ toString s.instanceId ++
    ", epoch=" ++ toString s.epoch ++ ", seq=" ++ toString s.seq ++ ")"

/-! ## 2. `snowflake/snowflake_generator.py` -/

/-- `SnowflakeGenerator`: `_ts`, `_inf` and `_seq`. -/
structure SnowflakeGenerator where
  ts : Nat
  inf : Nat
  seq : Nat
deriving DecidableEq

namespace SnowflakeGenerator

/-- `SnowflakeGenerator(instance)`, created when the clock reads `current`. -/
def ofInstance (inst current : Nat) : SnowflakeGenerator where
  ts := current
  inf := inst <<< 12
  seq := 0

/-- The last two statements of `generate`. -/
def issue (g : SnowflakeGenerator) (current : Nat) : SnowflakeGenerator × Option Nat :=
  ({ g with ts := current }, some (current <<< 22 ||| g.inf ||| g.seq))

/-- `generate`, when the clock reads `current` milliseconds. -/
def generate (g : SnowflakeGenerator) (current : Nat) : SnowflakeGenerator × Option Nat :=
  if g.ts = current then
    if g.seq = maxSeq then (g, none)
    else issue { g with seq := g.seq + 1 } current
  else if g.ts > current then (g, none)
  else issue { g with seq := 0 } current

end SnowflakeGenerator

/-- An id that was returned, with the reading and the sequence number it was made from. -/
structure Issued where
  current : Nat
  seq : Nat
  id : Nat
deriving DecidableEq

/-- What a generator returns over a sequence of clock readings, the `None`s left out. -/
def SnowflakeGenerator.issued (g : SnowflakeGenerator) : List Nat → List Issued
  | [] => []
  | c :: cs =>
    match g.generate c with
    | (g', some id) => ⟨c, g'.seq, id⟩ :: g'.issued cs
    | (g', none) => g'.issued cs

/-! ## 3. The word, when the fields fit -/

/-- The three fields of an id, side by side. -/
def word (ts inst seq : Nat) : Nat := pack ts 22 (pack inst 12 seq)

theorem word_eq_or (ts inst seq : Nat) : word ts inst seq = ts <<< 22 ||| inst <<< 12 ||| seq :=
  (Nat.or_assoc _ _ _).symm

theorem low_lt {inst seq : Nat} (hi : inst ≤ maxInstance) (hs : seq ≤ maxSeq) :
    pack inst 12 seq < 2 ^ 22 :=
  pack_lt (v := 10) (Nat.lt_succ_of_le hi) (Nat.lt_succ_of_le hs)

/-- The same word, cut at the boundary of the sequence number. -/
theorem word_eq_pack (ts : Nat) {inst seq : Nat} (hi : inst ≤ maxInstance) (hs : seq ≤ maxSeq) :
    word ts inst seq = pack (pack ts 10 inst) 12 seq := by
  have hi' : inst < 2 ^ 10 := Nat.lt_succ_of_le hi
  have hs' : seq < 2 ^ 12 := Nat.lt_succ_of_le hs
  rw [word, pack_eq_add ts (low_lt hi hs), pack_eq_add inst hs', pack_eq_add _ hs',
    pack_eq_add ts hi']
  ring

/-- **`parse` inverts the packing** of an instance and a sequence number that fit. -/
theorem parse_word (ts : Nat) {inst seq : Nat} (hi : inst ≤ maxInstance) (hs : seq ≤ maxSeq) :
    Snowflake.parse (word ts inst seq) = ⟨ts, inst, 0, seq⟩ := by
  have hi' : inst < 2 ^ 10 := Nat.lt_succ_of_le hi
  have hs' : seq < 2 ^ 12 := Nat.lt_succ_of_le hs
  have hts : word ts inst seq >>> 22 = ts := pack_shiftRight ts (low_lt hi hs)
  have hmid : word ts inst seq >>> 12 = pack ts 10 inst := by
    rw [word_eq_pack ts hi hs, pack_shiftRight _ hs']
  have hinst : pack ts 10 inst &&& maxInstance = inst := pack_and_mask ts hi'
  have hseq : word ts inst seq &&& maxSeq = seq := by
    rw [word_eq_pack ts hi hs]
    exact pack_and_mask _ hs'
  change Snowflake.mk ((word ts inst seq >>> 22 : Nat) : Int)
    ((word ts inst seq >>> 12 &&& maxInstance : Nat) : Int) 0
    ((word ts inst seq &&& maxSeq : Nat) : Int) = ⟨ts, inst, 0, seq⟩
  rw [hts, hmid, hinst, hseq]

/-- The instance `parse` reports always fits its field, whatever was packed. -/
theorem parse_instanceId_le (id : Nat) : (Snowflake.parse id).instanceId ≤ maxInstance := by
  change ((id >>> 12 &&& maxInstance : Nat) : Int) ≤ maxInstance
  exact Int.ofNat_le.mpr Nat.and_le_right

/-! ## 4. One generator -/

namespace SnowflakeGenerator

/-- What `generate` keeps true of a generator whose instance `inst` fits its field. -/
structure Fits (inst : Nat) (g : SnowflakeGenerator) : Prop where
  inst_le : inst ≤ maxInstance
  inf_eq : g.inf = inst <<< 12
  seq_le : g.seq ≤ maxSeq

theorem fits_ofInstance {inst : Nat} (h : inst ≤ maxInstance) (current : Nat) :
    Fits inst (ofInstance inst current) := ⟨h, rfl, Nat.zero_le _⟩

/-- What one call of `generate` can do: refuse and leave the generator alone, count on
within the same millisecond, or start again in a later one. -/
theorem generate_cases {g g' : SnowflakeGenerator} {c : Nat} {r : Option Nat}
    (h : g.generate c = (g', r)) :
    (r = none ∧ g' = g ∧ (g.ts = c ∧ g.seq = maxSeq ∨ c < g.ts)) ∨
      (r = some (c <<< 22 ||| g.inf ||| g'.seq) ∧ g'.inf = g.inf ∧ g'.ts = c ∧
        (g.ts = c ∧ g.seq ≠ maxSeq ∧ g'.seq = g.seq + 1 ∨ g.ts < c ∧ g'.seq = 0)) := by
  unfold generate at h
  split at h
  · next heq =>
    split at h
    · next hfull =>
      obtain ⟨rfl, rfl⟩ := Prod.mk.inj h
      exact Or.inl ⟨rfl, rfl, Or.inl ⟨heq, hfull⟩⟩
    · next hfree =>
      obtain ⟨rfl, rfl⟩ := Prod.mk.inj h
      exact Or.inr ⟨rfl, rfl, rfl, Or.inl ⟨heq, hfree, rfl⟩⟩
  · next hne =>
    split at h
    · next hlt =>
      obtain ⟨rfl, rfl⟩ := Prod.mk.inj h
      exact Or.inl ⟨rfl, rfl, Or.inr hlt⟩
    · next hge =>
      obtain ⟨rfl, rfl⟩ := Prod.mk.inj h
      exact Or.inr ⟨rfl, rfl, rfl, Or.inr ⟨by omega, rfl⟩⟩

/-- **A returned id is the word of the new state, and above the word of the old one.** -/
theorem Fits.generate {inst : Nat} {g g' : SnowflakeGenerator} {c id : Nat} (hg : Fits inst g)
    (h : g.generate c = (g', some id)) :
    Fits inst g' ∧ g'.ts = c ∧ id = word c inst g'.seq ∧ word g.ts inst g.seq < id := by
  rcases generate_cases h with ⟨hr, -, -⟩ | ⟨hr, hinf, hts, hseq⟩
  · exact absurd hr (by simp)
  have hid : id = word c inst g'.seq := by
    rw [word_eq_or, ← hg.inf_eq]
    exact Option.some.inj hr
  rcases hseq with ⟨hsame, hfree, hnext⟩ | ⟨hlater, hreset⟩
  · -- the same millisecond: only the sequence number moves
    have hle : g'.seq ≤ maxSeq := hnext ▸ lt_of_le_of_ne hg.seq_le hfree
    refine ⟨⟨hg.inst_le, hinf.trans hg.inf_eq, hle⟩, hts, hid, ?_⟩
    have hlow : pack inst 12 g.seq < pack inst 12 g'.seq :=
      pack_lt_pack_right inst (Nat.lt_succ_of_le hle) (by omega)
    rw [hid, hsame]
    exact pack_lt_pack_right c (low_lt hg.inst_le hle) hlow
  · -- a later millisecond outweighs whatever the low fields were
    refine ⟨⟨hg.inst_le, hinf.trans hg.inf_eq, hreset ▸ Nat.zero_le _⟩, hts, hid, ?_⟩
    rw [hid]
    exact pack_lt_pack_of_lt _ (low_lt hg.inst_le hg.seq_le) hlater

/-- Every id a fitting generator goes on to return is above its present word, and parses
to what it was made from. -/
theorem Fits.issued {inst : Nat} {cs : List Nat} {g : SnowflakeGenerator} (hg : Fits inst g) :
    ∀ x ∈ g.issued cs,
      word g.ts inst g.seq < x.id ∧ Snowflake.parse x.id = ⟨x.current, inst, 0, x.seq⟩ := by
  induction cs generalizing g with
  | nil => exact fun x hx => absurd hx List.not_mem_nil
  | cons c cs ih =>
    intro x hx
    rw [SnowflakeGenerator.issued] at hx
    rcases hgen : g.generate c with ⟨g', _ | id⟩
    · rw [hgen] at hx
      rcases generate_cases hgen with ⟨-, rfl, -⟩ | ⟨hr, -, -⟩
      · exact ih hg x hx
      · exact absurd hr (by simp)
    · rw [hgen] at hx
      obtain ⟨hg', hts, hid, hlt⟩ := hg.generate hgen
      rcases List.mem_cons.mp hx with rfl | hx
      · exact ⟨hlt, hid ▸ parse_word c hg.inst_le hg'.seq_le⟩
      · obtain ⟨hlt', hparse⟩ := ih hg' x hx
        rw [hts, ← hid] at hlt'
        exact ⟨hlt.trans hlt', hparse⟩

/-- **The ids of a fitting generator strictly increase.** -/
theorem Fits.issued_pairwise {inst : Nat} {cs : List Nat} {g : SnowflakeGenerator}
    (hg : Fits inst g) : (g.issued cs).Pairwise fun x y => x.id < y.id := by
  induction cs generalizing g with
  | nil => exact List.Pairwise.nil
  | cons c cs ih =>
    rw [SnowflakeGenerator.issued]
    rcases hgen : g.generate c with ⟨g', _ | id⟩
    · rcases generate_cases hgen with ⟨-, rfl, -⟩ | ⟨hr, -, -⟩
      · exact ih hg
      · exact absurd hr (by simp)
    · obtain ⟨hg', hts, hid, -⟩ := hg.generate hgen
      refine List.pairwise_cons.mpr ⟨fun y hy => ?_, ih hg'⟩
      have hlt := (hg'.issued y hy).1
      rwa [hts, ← hid] at hlt

/-- A generator issues nothing exactly when no reading reaches the millisecond it holds.
Before the first id its sequence number is still below `MAX_SEQ`. -/
theorem issued_eq_nil_iff {g : SnowflakeGenerator} (hs : g.seq ≠ maxSeq) (cs : List Nat) :
    g.issued cs = [] ↔ ∀ c ∈ cs, c < g.ts := by
  induction cs with
  | nil => simp [issued]
  | cons c cs ih =>
    rw [issued]
    rcases hgen : g.generate c with ⟨g', _ | id⟩
    · rcases generate_cases hgen with ⟨-, rfl, ⟨-, hfull⟩ | hlt⟩ | ⟨hr, -, -⟩
      · exact absurd hfull hs
      · rw [List.forall_mem_cons, ih]
        simp [hlt]
      · exact absurd hr (by simp)
    · have hle : g.ts ≤ c := by
        rcases generate_cases hgen with ⟨hr, -, -⟩ | ⟨-, -, -, ⟨heq, -, -⟩ | ⟨hlt, -⟩⟩
        · exact absurd hr (by simp)
        · exact heq.le
        · exact hlt.le
      simp only [reduceCtorEq, false_iff]
      intro h
      exact absurd (h c List.mem_cons_self) (by omega)

end SnowflakeGenerator

/-! ## 5. Two generators -/

/-- What is expected of the ids one generator returned. -/
structure SoundIds (inst : Nat) (xs : List Issued) : Prop where
  increasing : xs.Pairwise fun x y => x.id < y.id
  decodable : ∀ x ∈ xs, Snowflake.parse x.id = ⟨x.current, inst, 0, x.seq⟩

theorem SnowflakeGenerator.soundIds_iff (inst current : Nat) (cs : List Nat) :
    SoundIds inst ((ofInstance inst current).issued cs) ↔
      inst ≤ maxInstance ∨ ∀ c ∈ cs, c < current := by
  have hnil := issued_eq_nil_iff (g := ofInstance inst current) (by decide : (0 : Nat) ≠ maxSeq) cs
  constructor
  · intro h
    rcases hxs : (ofInstance inst current).issued cs with _ | ⟨x, xs⟩
    · exact Or.inr (hnil.mp hxs)
    · -- one issued id is enough: what `parse` reports fits the field
      have hparse := h.decodable x (hxs ▸ List.mem_cons_self)
      have hle := parse_instanceId_le x.id
      rw [hparse] at hle
      exact Or.inl (Int.ofNat_le.mp hle)
  · rintro (hfit | hlate)
    · have hg := fits_ofInstance hfit current
      exact ⟨hg.issued_pairwise, fun x hx => (hg.issued x hx).2⟩
    · rw [hnil.mpr hlate]
      exact ⟨List.Pairwise.nil, fun x hx => absurd hx List.not_mem_nil⟩

/-- **When the ids of two generators can be relied on.**  Whatever the clocks do, they are
ordered, decodable and -- for different instances -- apart exactly when each of the two
instances fits its ten bits, or its generator issues nothing because its clock never
reaches the millisecond it was created in. -/
theorem ids_sound_iff (i j t u : Nat) (cs ds : List Nat) :
    (SoundIds i ((SnowflakeGenerator.ofInstance i t).issued cs) ∧
      SoundIds j ((SnowflakeGenerator.ofInstance j u).issued ds) ∧
      (i ≠ j → ∀ x ∈ (SnowflakeGenerator.ofInstance i t).issued cs,
        ∀ y ∈ (SnowflakeGenerator.ofInstance j u).issued ds, x.id ≠ y.id)) ↔
      (i ≤ maxInstance ∨ ∀ c ∈ cs, c < t) ∧ (j ≤ maxInstance ∨ ∀ d ∈ ds, d < u) := by
  rw [← SnowflakeGenerator.soundIds_iff i t cs, ← SnowflakeGenerator.soundIds_iff j u ds]
  refine ⟨fun h => ⟨h.1, h.2.1⟩, fun h => ⟨h.1, h.2, fun hij x hx y hy hid => hij ?_⟩⟩
  -- one id cannot parse to two instances
  have hx' := h.1.decodable x hx
  have hy' := h.2.decodable y hy
  rw [hid, hy'] at hx'
  exact Int.ofNat_inj.mp (congrArg Snowflake.instanceId hx').symm

/-- Instances `0` and `1024` are both within what the controller draws.  At two neighbouring
milliseconds their generators return one and the same id, and `1024` reads back as `0`. -/
theorem ids_collide :
    ¬ ∀ (i j t u : Nat) (cs ds : List Nat), i ≤ 2 ^ 16 → j ≤ 2 ^ 16 →
      SoundIds i ((SnowflakeGenerator.ofInstance i t).issued cs) ∧
      SoundIds j ((SnowflakeGenerator.ofInstance j u).issued ds) ∧
      (i ≠ j → ∀ x ∈ (SnowflakeGenerator.ofInstance i t).issued cs,
        ∀ y ∈ (SnowflakeGenerator.ofInstance j u).issued ds, x.id ≠ y.id) := by
  intro h
  have hne := (h 0 1024 1700000000000 1699999999999 [1700000000001] [1700000000000]
    (by decide) (by decide)).2.2 (by decide)
  exact hne ⟨1700000000001, 0, 1700000000001 <<< 22⟩ (by decide)
    ⟨1700000000000, 0, 1700000000001 <<< 22⟩ (by decide) rfl

end Hedra
