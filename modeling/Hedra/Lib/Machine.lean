/-
# Deterministic labelled machines and their runs

A machine is a partial step function `step : σ → α → Option σ`.  It is deterministic
because every source of nondeterminism -- which message arrives, which suspended call goes
on, what a clock reads -- is part of the label.  A run is then a list of labels, so a
concrete run can be evaluated, and a statement about every run is a statement about every
list of labels.

Three ways of speaking about a run are used by the developments over this file:

* `run`: the state it ends in, if every label was enabled;
* `Occurs`: a transition the run performs, with the states on both sides;
* `Along` and `Always`: a property of every transition, or of every state, of the run.

The two rules a development needs are `Along.always` (a state property preserved by every
transition of a kind holds all along a run made of such transitions) and
`always_iff_along` (the same as an equivalence, when the transitions of that kind are
exactly the ones that preserve the property).
-/
import Mathlib.Data.List.Basic
import Mathlib.Order.Basic

namespace Lib.Machine

variable {σ α : Type*} {step : σ → α → Option σ}

/-! ## 1. Runs -/

/-- Perform the labels in order; `none` when one of them is not enabled. -/
def run (step : σ → α → Option σ) : σ → List α → Option σ
  | s, [] => some s
  | s, a :: as => (step s a).bind fun s' => run step s' as

@[simp] theorem run_nil (s : σ) : run step s [] = some s := rfl

theorem run_cons (s : σ) (a : α) (as : List α) :
    run step s (a :: as) = (step s a).bind fun s' => run step s' as := rfl

theorem run_cons_eq_some {s s' : σ} {a : α} {as : List α} :
    run step s (a :: as) = some s' ↔ ∃ t, step s a = some t ∧ run step t as = some s' := by
  rw [run_cons, Option.bind_eq_some_iff]

theorem run_append (s : σ) (as bs : List α) :
    run step s (as ++ bs) = (run step s as).bind fun s' => run step s' bs := by
  induction as generalizing s with
  | nil => rfl
  | cons a as ih =>
    rw [List.cons_append, run_cons, run_cons]
    cases step s a with
    | none => rfl
    | some t => exact ih t

/-- `s` is reached by some run from a state satisfying `init`. -/
def Reachable (step : σ → α → Option σ) (init : σ → Prop) (s : σ) : Prop :=
  ∃ s₀ as, init s₀ ∧ run step s₀ as = some s

/-- **Invariant rule for a run.** -/
theorem invariant_of_run {I : σ → Prop} (hstep : ∀ s a s', I s → step s a = some s' → I s')
    {as : List α} {s s' : σ} (hI : I s) (hr : run step s as = some s') : I s' := by
  induction as generalizing s with
  | nil =>
    rw [run_nil, Option.some.injEq] at hr
    exact hr ▸ hI
  | cons a as ih =>
    obtain ⟨t, ht, hr⟩ := run_cons_eq_some.mp hr
    exact ih (hstep s a t hI ht) hr

/-- **Invariant rule for the reachable states.** -/
theorem Reachable.invariant {init I : σ → Prop} {s : σ} (h : Reachable step init s)
    (h₀ : ∀ s, init s → I s) (hstep : ∀ s a s', I s → step s a = some s' → I s') : I s := by
  obtain ⟨s₀, as, hi, hr⟩ := h
  exact invariant_of_run hstep (h₀ s₀ hi) hr

/-! ## 2. The transitions of a run -/

/-- The run from `s` along `as` performs the transition from `c` to `c'` labelled `a`. -/
def Occurs (step : σ → α → Option σ) (s : σ) (as : List α) (c : σ) (a : α) (c' : σ) : Prop :=
  ∃ l r, as = l ++ a :: r ∧ run step s l = some c ∧ step c a = some c'

theorem Occurs.head {s t : σ} {a : α} (as : List α) (h : step s a = some t) :
    Occurs step s (a :: as) s a t := ⟨[], as, rfl, rfl, h⟩

theorem Occurs.tail {s t c c' : σ} {a b : α} {as : List α} (h : step s a = some t)
    (ho : Occurs step t as c b c') : Occurs step s (a :: as) c b c' := by
  obtain ⟨l, r, rfl, hl, hc⟩ := ho
  exact ⟨a :: l, r, rfl, run_cons_eq_some.mpr ⟨t, h, hl⟩, hc⟩

/-- A transition of a run is its first one, or one of the rest. -/
theorem occurs_cons {s c c' : σ} {a b : α} {as : List α} :
    Occurs step s (a :: as) c b c' ↔
      (c = s ∧ b = a ∧ step s a = some c') ∨ ∃ t, step s a = some t ∧ Occurs step t as c b c' := by
  constructor
  · rintro ⟨l, r, hlr, hl, hc⟩
    cases l with
    | nil =>
      obtain ⟨rfl, rfl⟩ := List.cons.inj hlr
      rw [run_nil, Option.some.injEq] at hl
      exact Or.inl ⟨hl.symm, rfl, hl ▸ hc⟩
    | cons x l =>
      obtain ⟨rfl, rfl⟩ := List.cons.inj hlr
      obtain ⟨t, ht, hl⟩ := run_cons_eq_some.mp hl
      exact Or.inr ⟨t, ht, l, r, rfl, hl, hc⟩
  · rintro (⟨rfl, rfl, h⟩ | ⟨t, ht, ho⟩)
    · exact Occurs.head as h
    · exact ho.tail ht

/-! ## 3. Properties of every transition, and of every state -/

/-- Every transition of the run from `s` along `as` satisfies `P`. -/
def Along (step : σ → α → Option σ) (P : σ → α → σ → Prop) : σ → List α → Prop
  | _, [] => True
  | s, a :: as => ∀ s', step s a = some s' → P s a s' ∧ Along step P s' as

instance Along.instDecidable {P : σ → α → σ → Prop} [∀ s a s', Decidable (P s a s')] :
    ∀ (s : σ) (as : List α), Decidable (Along step P s as)
  | _, [] => isTrue trivial
  | s, a :: as =>
    match h : step s a with
    | none => isTrue fun s' hs' => absurd (h.symm.trans hs') (by simp)
    | some t =>
      have : Decidable (Along step P t as) := Along.instDecidable t as
      decidable_of_iff (P s a t ∧ Along step P t as)
        ⟨fun ht s' hs' => Option.some.inj (h.symm.trans hs') ▸ ht, fun hall => hall t h⟩

/-- Every state of the run from `s` along `as` satisfies `I`, the first included. -/
def Always (step : σ → α → Option σ) (I : σ → Prop) : σ → List α → Prop
  | s, [] => I s
  | s, a :: as => I s ∧ ∀ s', step s a = some s' → Always step I s' as

theorem along_iff_occurs {P : σ → α → σ → Prop} {s : σ} {as : List α} :
    Along step P s as ↔ ∀ c a c', Occurs step s as c a c' → P c a c' := by
  induction as generalizing s with
  | nil =>
    refine ⟨fun _ c a c' ho => ?_, fun _ => trivial⟩
    obtain ⟨l, r, hlr, -, -⟩ := ho
    cases l <;> cases hlr
  | cons a as ih =>
    constructor
    · intro h c b c' ho
      rcases occurs_cons.mp ho with ⟨rfl, rfl, hs⟩ | ⟨t, ht, ho⟩
      · exact (h c' hs).1
      · exact ih.mp (h t ht).2 c b c' ho
    · intro h t ht
      exact ⟨h s a t (Occurs.head as ht), ih.mpr fun c b c' ho => h c b c' (ho.tail ht)⟩

theorem Always.self {I : σ → Prop} {s : σ} {as : List α} (h : Always step I s as) : I s := by
  cases as with
  | nil => exact h
  | cons a as => exact h.1

theorem Always.mono {I J : σ → Prop} (hIJ : ∀ s, I s → J s) :
    ∀ {as : List α} {s : σ}, Always step I s as → Always step J s as
  | [], s, h => hIJ s h
  | _ :: _, s, h => ⟨hIJ s h.1, fun s' hs' => (h.2 s' hs').mono hIJ⟩

theorem always_iff_run {I : σ → Prop} {s : σ} {as : List α} :
    Always step I s as ↔ ∀ l r s', as = l ++ r → run step s l = some s' → I s' := by
  induction as generalizing s with
  | nil =>
    constructor
    · intro h l r s' hlr hr
      obtain ⟨rfl, rfl⟩ := List.append_eq_nil_iff.mp hlr.symm
      rw [run_nil, Option.some.injEq] at hr
      exact hr ▸ h
    · exact fun h => h [] [] s rfl rfl
  | cons a as ih =>
    constructor
    · intro h l r s' hlr hr
      cases l with
      | nil =>
        rw [run_nil, Option.some.injEq] at hr
        exact hr ▸ h.1
      | cons x l =>
        obtain ⟨rfl, rfl⟩ := List.cons.inj hlr
        obtain ⟨t, ht, hr⟩ := run_cons_eq_some.mp hr
        exact ih.mp (h.2 t ht) l r s' rfl hr
    · intro h
      refine ⟨h [] (a :: as) s rfl rfl, fun t ht => ih.mpr ?_⟩
      rintro l r s' rfl hr
      exact h (a :: l) r s' rfl (run_cons_eq_some.mpr ⟨t, ht, hr⟩)

/-- The last state of a run is one of its states. -/
theorem Always.last {I : σ → Prop} {s s' : σ} {as : List α} (h : Always step I s as)
    (hr : run step s as = some s') : I s' :=
  always_iff_run.mp h as [] s' (List.append_nil as).symm hr

/-- The same, by what there is to see of it. -/
theorem Always.exists_last {β : Type*} {I : σ → Prop} {s : σ} {as : List α} {f : σ → β} {b : β}
    (h : Always step I s as) (hr : (run step s as).map f = some b) : ∃ s', I s' ∧ f s' = b := by
  obtain ⟨s', hs', hb⟩ := Option.map_eq_some_iff.mp hr
  exact ⟨s', h.last hs', hb⟩

/-- **Runs of good transitions keep the invariant.** -/
theorem Along.always {I : σ → Prop} {P : σ → α → σ → Prop}
    (hstep : ∀ s a s', I s → step s a = some s' → P s a s' → I s') :
    ∀ {as : List α} {s : σ}, I s → Along step P s as → Always step I s as
  | [], _, hI, _ => hI
  | a :: _, s, hI, h => ⟨hI, fun s' hs' =>
      Along.always hstep (hstep s a s' hI hs' (h s' hs').1) (h s' hs').2⟩

/-- What every transition keeps holds all along every run. -/
theorem always_of_step {I : σ → Prop} (hstep : ∀ s a s', I s → step s a = some s' → I s') :
    ∀ {as : List α} {s : σ}, I s → Always step I s as
  | [], _, hI => hI
  | a :: _, s, hI => ⟨hI, fun s' hs' => always_of_step hstep (hstep s a s' hI hs')⟩

/-- What every transition from a state of the invariant has, every transition of a run has. -/
theorem along_of_step {I : σ → Prop} {P : σ → α → σ → Prop}
    (hstep : ∀ s a s', I s → step s a = some s' → I s' ∧ P s a s') :
    ∀ {as : List α} {s : σ}, I s → Along step P s as
  | [], _, _ => trivial
  | a :: _, s, hI => fun s' hs' =>
    have hgood := hstep s a s' hI hs'
    ⟨hgood.2, along_of_step hstep hgood.1⟩

/-- Runs of transitions that keep an invariant, and have another property where it holds. -/
theorem Along.of_invariant {J : σ → Prop} {P Q : σ → α → σ → Prop}
    (hstep : ∀ s a s', J s → step s a = some s' → Q s a s' → J s' ∧ P s a s') :
    ∀ {as : List α} {s : σ}, J s → Along step Q s as → Along step P s as
  | [], _, _, _ => trivial
  | a :: _, s, hJ, h => fun s' hs' =>
    have hgood := hstep s a s' hJ hs' (h s' hs').1
    ⟨hgood.2, Along.of_invariant hstep hgood.1 (h s' hs').2⟩

/-- **... and exactly those runs do**, when from a state of the invariant the good
transitions are the ones that keep it. -/
theorem always_iff_along {I : σ → Prop} {P : σ → α → σ → Prop}
    (hstep : ∀ s a s', I s → step s a = some s' → (I s' ↔ P s a s')) {as : List α} {s : σ}
    (hI : I s) : Always step I s as ↔ Along step P s as := by
  constructor
  · induction as generalizing s with
    | nil => exact fun _ => trivial
    | cons a as ih =>
      intro h s' hs'
      have hI' : I s' := (h.2 s' hs').self
      exact ⟨(hstep s a s' hI hs').mp hI', ih hI' (h.2 s' hs')⟩
  · exact Along.always (fun s a s' hI hs hP => (hstep s a s' hI hs).mpr hP) hI

/-- The same for a property of the states and one of the transitions, over an invariant `J` that
every transition keeps. -/
theorem always_and_along_iff {J I : σ → Prop} {P Q : σ → α → σ → Prop}
    (hJ : ∀ s a s', J s → step s a = some s' → J s')
    (hstep : ∀ s a s', J s → I s → step s a = some s' → (I s' ∧ P s a s' ↔ Q s a s'))
    {as : List α} {s : σ} (hs : J s) (hI : I s) :
    Always step I s as ∧ Along step P s as ↔ Along step Q s as := by
  induction as generalizing s with
  | nil => exact ⟨fun _ => trivial, fun _ => ⟨hI, trivial⟩⟩
  | cons a as ih =>
    constructor
    · intro h s' hs'
      have hI' : I s' := (h.1.2 s' hs').self
      exact ⟨(hstep s a s' hs hI hs').mp ⟨hI', (h.2 s' hs').1⟩,
        (ih (hJ s a s' hs hs') hI').mp ⟨h.1.2 s' hs', (h.2 s' hs').2⟩⟩
    · intro h
      have hrest : ∀ s', step s a = some s' → (I s' ∧ P s a s') ∧
          (Always step I s' as ∧ Along step P s' as) := by
        intro s' hs'
        have hgood := (hstep s a s' hs hI hs').mpr (h s' hs').1
        exact ⟨hgood, (ih (hJ s a s' hs hs') hgood.1).mpr (h s' hs').2⟩
      exact ⟨⟨hI, fun s' hs' => (hrest s' hs').2.1⟩,
        fun s' hs' => ⟨(hrest s' hs').1.2, (hrest s' hs').2.2⟩⟩

/-- The same for a property of the states alone. -/
theorem always_iff_along_of_invariant {J I : σ → Prop} {Q : σ → α → σ → Prop}
    (hstep : ∀ s a s', J s → I s → step s a = some s' → J s' ∧ (I s' ↔ Q s a s'))
    {as : List α} {s : σ} (hs : J s) (hI : I s) : Always step I s as ↔ Along step Q s as := by
  induction as generalizing s with
  | nil => exact iff_of_true hI trivial
  | cons a as ih =>
    constructor
    · intro h s' hs'
      have hI' : I s' := (h.2 s' hs').self
      obtain ⟨hJ', hiff⟩ := hstep s a s' hs hI hs'
      exact ⟨hiff.mp hI', (ih hJ' hI').mp (h.2 s' hs')⟩
    · intro h
      refine ⟨hI, fun s' hs' => ?_⟩
      obtain ⟨hJ', hiff⟩ := hstep s a s' hs hI hs'
      exact (ih hJ' (hiff.mpr (h s' hs').1)).mpr (h s' hs').2

/-- The same over an invariant that the good transitions keep. -/
theorem always_iff_along_of_good {J I : σ → Prop} {Q : σ → α → σ → Prop} (hJI : ∀ s, J s → I s)
    (hgood : ∀ s a s', J s → step s a = some s' → I s' → Q s a s')
    (hkeep : ∀ s a s', J s → step s a = some s' → Q s a s' → J s') {as : List α} {s : σ} (hs : J s) :
    Always step I s as ↔ Along step Q s as := by
  refine ⟨fun h => ?_, fun h => (Along.always hkeep hs h).mono hJI⟩
  induction as generalizing s with
  | nil => exact trivial
  | cons a as ih =>
    intro s' hs'
    have hQ : Q s a s' := hgood s a s' hs hs' (h.2 s' hs').self
    exact ⟨hQ, ih (hkeep s a s' hs hs' hQ) (h.2 s' hs')⟩

/-- The same for a property of the transitions alone. -/
theorem along_iff_of_invariant {J : σ → Prop} {P Q : σ → α → σ → Prop}
    (hstep : ∀ s a s', J s → step s a = some s' → J s' ∧ (P s a s' ↔ Q s a s'))
    {as : List α} {s : σ} (hs : J s) : Along step P s as ↔ Along step Q s as :=
  ⟨fun h => h.of_invariant (J := J) (fun s a s' hs hs' hP =>
      ⟨(hstep s a s' hs hs').1, (hstep s a s' hs hs').2.mp hP⟩) hs,
    fun h => h.of_invariant (J := J) (fun s a s' hs hs' hQ =>
      ⟨(hstep s a s' hs hs').1, (hstep s a s' hs hs').2.mpr hQ⟩) hs⟩

theorem Along.of_forall_mem {P : σ → α → σ → Prop} :
    ∀ {as : List α} {s : σ}, (∀ a ∈ as, ∀ s s', P s a s') → Along step P s as
  | [], _, _ => trivial
  | a :: _, s, h => fun s' _ => ⟨h a List.mem_cons_self s s',
      of_forall_mem fun b hb => h b (List.mem_cons_of_mem _ hb)⟩

/-- A quantity that no transition of the run lowers is at the end at least what it was at
the start. -/
theorem Along.le_of_run {β : Type*} [Preorder β] {f : σ → β} {as : List α} {s s' : σ}
    (h : Along step (fun c _ c' => f c ≤ f c') s as) (hr : run step s as = some s') :
    f s ≤ f s' := by
  induction as generalizing s with
  | nil =>
    rw [run_nil, Option.some.injEq] at hr
    exact hr ▸ le_refl _
  | cons a as ih =>
    obtain ⟨t, ht, hr⟩ := run_cons_eq_some.mp hr
    exact le_trans (h t ht).1 (ih (h t ht).2 hr)

/-- Two properties that agree on every transition agree on every run. -/
theorem along_congr {P Q : σ → α → σ → Prop}
    (h : ∀ s a s', step s a = some s' → (P s a s' ↔ Q s a s')) {as : List α} {s : σ} :
    Along step P s as ↔ Along step Q s as := by
  rw [along_iff_occurs, along_iff_occurs]
  have hocc : ∀ c a c', Occurs step s as c a c' → (P c a c' ↔ Q c a c') := by
    rintro c a c' ⟨-, -, -, -, hc⟩
    exact h c a c' hc
  exact ⟨fun hP c a c' ho => (hocc c a c' ho).mp (hP c a c' ho),
    fun hQ c a c' ho => (hocc c a c' ho).mpr (hQ c a c' ho)⟩

/-- The rest of a run, after a part of it. -/
theorem Along.drop {P : σ → α → σ → Prop} {l r : List α} {s c : σ}
    (h : Along step P s (l ++ r)) (hr : run step s l = some c) : Along step P c r := by
  induction l generalizing s with
  | nil =>
    rw [run_nil, Option.some.injEq] at hr
    exact hr ▸ h
  | cons a l ih =>
    obtain ⟨t, ht, hr⟩ := run_cons_eq_some.mp hr
    exact ih (h t ht).2 hr

/-- The beginning of a run. -/
theorem Along.take {P : σ → α → σ → Prop} :
    ∀ {l r : List α} {s : σ}, Along step P s (l ++ r) → Along step P s l
  | [], _, _, _ => trivial
  | _ :: _, _, _, h => fun s' hs' => ⟨(h s' hs').1, (h s' hs').2.take⟩

/-- Between any two points of the run from `s` along `as`, `f` does not go down. -/
def NeverDecreases {β : Type*} [LE β] (step : σ → α → Option σ) (f : σ → β) (s : σ)
    (as : List α) : Prop :=
  ∀ l m r c c', as = l ++ (m ++ r) → run step s l = some c → run step c m = some c' → f c ≤ f c'

theorem neverDecreases_iff {β : Type*} [Preorder β] {f : σ → β} {s : σ} {as : List α} :
    NeverDecreases step f s as ↔ Along step (fun c _ c' => f c ≤ f c') s as := by
  constructor
  · intro h
    rw [along_iff_occurs]
    rintro c a c' ⟨l, r, rfl, hl, hc⟩
    exact h l [a] r c c' rfl hl (run_cons_eq_some.mpr ⟨c', hc, rfl⟩)
  · rintro h l m r c c' rfl hl hm
    exact (h.drop hl).take.le_of_run hm

end Lib.Machine
