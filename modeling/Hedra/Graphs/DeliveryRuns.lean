/-
# Histories over a run

The generations of a graph are executed one after the other, and the transitions of one of them in
any order (`Transition.execute`, `core/graphs/transitions/transition.py`).  From when a stage has been
run and its transition is passed on until its generation ends, the edges that leave its destinations
have its history, with the keys that they require.

A transition all of whose attempts raise passes nothing on, nor does one that leads to the end.  A copy
of a Setup stage has an empty history of the stage for those it is updated for, and puts it in the place
of the real one; and what a stage hands on replaces what the neighbour has under the same name.

* `Known`: histories are those of stages that have been executed, over all generations that are done;
* `Apart`, `Untold`: during a generation only the edge that runs the stage has its history to hand on,
  because the copies are silent (`skipStage_of_ne`), and no neighbour has it before;
* `delivers`: what both make of one execution at any moment of any run.  Nothing is said there of a
  transition whose first attempt raises and a later one does not.
-/
import Hedra.Graphs.Delivery

namespace Hedra
namespace Graphs
namespace Delivery

open Lib

variable {Ω : Type}

/-! ## 1. Runs -/

inductive Event (Ω : Type)
  /-- An attempt that is not the last one. -/
  | retried (name : Names) (a : Attempt Ω)
  | executed (name : Names) (a : Attempt Ω)

namespace Event

def name : Event Ω → Names
  | retried name _ => name
  | executed name _ => name

def raises : Event Ω → Bool
  | retried _ a | executed _ a => a.raises

/-- The transition that an event completes. -/
def completes : Event Ω → Option Names
  | retried _ _ => none
  | executed name _ => some name

end Event

section Generation

variable (G : StageGraph) (skip : String → Bool) (generation : List String)

def step (st : State Ω) : Event Ω → State Ω
  | .retried name a => attempt G skip generation name a st
  | .executed name a => execute G skip generation name a st

def runGroup (st : State Ω) (events : List (Event Ω)) : State Ω :=
  events.foldl (step G skip generation) st

theorem mem_groupEdges {name : Names} :
    name ∈ groupEdges G generation ↔ name.1 ∈ generation ∧ name.2 ∈ G.graph.succ name.1 := by
  obtain ⟨s, d⟩ := name
  simp only [groupEdges, List.mem_flatMap, List.mem_map, Prod.mk.injEq]
  constructor
  · rintro ⟨s, hs, d, hd, rfl, rfl⟩
    exact ⟨hs, hd⟩
  · rintro ⟨hs, hd⟩
    exact ⟨s, hs, d, hd, rfl, rfl⟩

theorem selectedEdge_mem {name : Names} (h : name ∈ groupEdges G generation) :
    selectedEdge G skip generation name ∈ groupEdges G generation := by
  rw [selectedEdge]
  split
  · split
    · exact h
    · next i hi =>
      obtain ⟨t, ht, rfl⟩ := List.mem_map.mp (List.min?_mem hi)
      have hlt := List.idxOf_lt_length_of_mem ht
      rw [transitionIdx, List.getD_eq_getElem?_getD, List.getElem?_eq_getElem hlt]
      exact List.getElem_mem hlt
  · exact h

theorem splits_of_silent {type : StageType} (h : Silent type) : splits type = true := by
  cases type <;> first | rfl | exact h.elim

/-- Where one edge of a stage runs it, the others are copies. -/
theorem skipStage_of_ne {name other : Names} (hname : name ∈ groupEdges G generation)
    (hother : other ∈ groupEdges G generation) (hsource : other.1 = name.1) (hne : other ≠ name)
    (htype : Silent (G.stageType name.1)) (hruns : skipStage G skip generation name = false) :
    skipStage G skip generation other = true := by
  obtain ⟨s, d⟩ := name
  obtain ⟨s', d'⟩ := other
  obtain rfl : s' = s := hsource
  have hd : d ∈ G.graph.succ s' := ((mem_groupEdges G generation).mp hname).2
  have hd' : d' ∈ G.graph.succ s' := ((mem_groupEdges G generation).mp hother).2
  have hlen : 1 < (G.graph.succ s').length := by
    by_contra hlen
    have hpos := List.length_pos_of_mem hd
    obtain ⟨x, hx⟩ := List.length_eq_one_iff.mp (by omega : (G.graph.succ s').length = 1)
    rw [hx, List.mem_singleton] at hd hd'
    exact hne (by rw [hd, hd'])
  have hsplits : splits (G.stageType s') = true := splits_of_silent htype
  obtain ⟨i, hi⟩ : ∃ i, ((((G.graph.succ s').map fun d => (s', d)).map
      (transitionIdx G generation)).min?) = some i := by
    refine Option.isSome_iff_exists.mp ?_
    rw [List.isSome_min?_iff]
    exact List.ne_nil_of_mem (List.mem_map_of_mem (List.mem_map_of_mem hd))
  have hle : ∀ x ∈ G.graph.succ s', i ≤ transitionIdx G generation (s', x) := fun x hx =>
    (List.min?_eq_some_iff.mp hi).2 _ (List.mem_map_of_mem (List.mem_map_of_mem hx))
  have hskip : ∀ x, i < transitionIdx G generation (s', x) →
      skipStage G skip generation (s', x) = true := fun x hlt => by
    simp only [skipStage, List.length_map, hlen, hsplits, hi, Option.any_some, hlt, decide_true,
      Bool.and_true, Bool.or_true]
  have hrun : ¬i < transitionIdx G generation (s', d) := fun hlt => by
    rw [hskip d hlt] at hruns
    cases hruns
  have hidx : transitionIdx G generation (s', d') ≠ transitionIdx G generation (s', d) := fun heq =>
    hne (List.idxOf_inj hother |>.mp heq)
  have hlt : i < transitionIdx G generation (s', d') := by
    have := hle d hd
    have := hle d' hd'
    omega
  exact hskip d' hlt

/-! ## 2. What a step leaves alone -/

theorem attempt_self (name : Names) (a : Attempt Ω) (st : State Ω) :
    attempt G skip generation name a st name =
      (st name).transition (G.stageType name.1) (skipStage G skip generation name) name a :=
  Function.update_self _ _ _

theorem attempt_of_ne {name n : Names} (a : Attempt Ω) (st : State Ω) (h : n ≠ name) :
    attempt G skip generation name a st n = st n := Function.update_of_ne h _ _

@[simp] theorem attempt_history (name n : Names) (a : Attempt Ω) (st : State Ω) :
    (attempt G skip generation name a st n).history = (st n).history := by
  by_cases h : n = name
  · rw [h, attempt_self, Edge.transition_history]
  · rw [attempt_of_ne G skip generation a st h]

@[simp] theorem attempt_fromStageNames (name n : Names) (a : Attempt Ω) (st : State Ω) :
    (attempt G skip generation name a st n).fromStageNames = (st n).fromStageNames := by
  by_cases h : n = name
  · rw [h, attempt_self, Edge.transition_fromStageNames]
  · rw [attempt_of_ne G skip generation a st h]

@[simp] theorem deliver_nextHistory (name n : Names) (st : State Ω) :
    (deliver G skip generation name st n).nextHistory = (st n).nextHistory :=
  deliver_invariant G skip generation (P := fun e => e.nextHistory = (st n).nextHistory)
    (fun _ h => h) rfl

@[simp] theorem deliver_exception (name n : Names) (st : State Ω) :
    (deliver G skip generation name st n).exception = (st n).exception :=
  deliver_invariant G skip generation (P := fun e => e.exception = (st n).exception)
    (fun _ h => h) rfl

/-- `execute` is the attempt, and the delivery if it is passed on. -/
theorem execute_cases (name : Names) (a : Attempt Ω) (st : State Ω) :
    execute G skip generation name a st = attempt G skip generation name a st ∨
      execute G skip generation name a st =
        deliver G skip generation name (attempt G skip generation name a st) := by
  rw [execute]
  split
  · exact .inr rfl
  · exact .inl rfl

/-- What holds after every attempt, and which deliveries keep, holds after every step. -/
theorem step_cases {P : State Ω → Prop} (st : State Ω) (event : Event Ω)
    (hattempt : ∀ a, P (attempt G skip generation event.name a st))
    (hdeliver : ∀ a, P (attempt G skip generation event.name a st) →
      P (deliver G skip generation event.name (attempt G skip generation event.name a st))) :
    P (step G skip generation st event) := by
  cases event with
  | retried name a => exact hattempt _
  | executed name a =>
    rw [step]
    rcases execute_cases G skip generation name a st with h | h
    · rw [h]
      exact hattempt a
    · rw [h]
      exact hdeliver a (hattempt a)

/-! ## 3. Who has been executed -/

/-- The histories are those of stages that have been executed; the other edges are as they were. -/
structure Known (P : String → Prop) (st : State Ω) : Prop where
  history : ∀ n k, ((st n).history.get? k).isSome → P k.1
  next : ∀ n k, ((st n).nextHistory.get? k).isSome → P k.1
  nodup : ∀ n, (st n).fromStageNames.Nodup
  fresh : ∀ n, ¬P n.1 → (st n).nextHistory = .empty ∧ (st n).exception = false

theorem known_initial (P : String → Prop) : Known P (State.initial : State Ω) where
  history _ _ h := by cases h
  next _ _ h := by cases h
  nodup _ := List.nodup_nil
  fresh _ _ := ⟨rfl, rfl⟩

variable {G skip generation}

theorem Known.mono {P Q : String → Prop} {st : State Ω} (h : Known P st) (hPQ : ∀ s, P s → Q s) :
    Known Q st where
  history n k hk := hPQ _ (h.history n k hk)
  next n k hk := hPQ _ (h.next n k hk)
  nodup := h.nodup
  fresh n hn := h.fresh n fun hP => hn (hPQ _ hP)

theorem Known.attempt {P : String → Prop} {st : State Ω} (h : Known P st) {name : Names}
    (hname : P name.1) (a : Attempt Ω) : Known P (attempt G skip generation name a st) where
  history n k hk := by
    rw [attempt_history] at hk
    exact h.history n k hk
  next n k hk := by
    by_cases hn : n = name
    · subst hn
      by_contra hP
      have hnone : (st n).history.get? k = none :=
        Option.not_isSome_iff_eq_none.mp fun hsome => hP (h.history n k hsome)
      have hother : k.1 ≠ n.1 := fun heq => hP (by rw [heq]; exact hname)
      rw [attempt_self, Edge.get?_transition a hnone (.inl hother)] at hk
      exact hP (h.next n k hk)
    · rw [attempt_of_ne _ _ _ _ _ hn] at hk
      exact h.next n k hk
  nodup n := by
    rw [attempt_fromStageNames]
    exact h.nodup n
  fresh n hn := by
    have hne : n ≠ name := fun heq => hn (by rw [heq]; exact hname)
    rw [attempt_of_ne _ _ _ _ _ hne]
    exact h.fresh n hn

theorem Known.deliver {P : String → Prop} {st : State Ω} (h : Known P st)
    (hgeneration : ∀ s ∈ generation, P s) {name : Names} (hname : name ∈ groupEdges G generation) :
    Known P (deliver G skip generation name st) where
  history n := by
    have hsource := hgeneration _
      ((mem_groupEdges G generation).mp (selectedEdge_mem G skip generation hname)).1
    refine deliver_invariant G skip generation
      (P := fun e => ∀ k, (e.history.get? k).isSome → P k.1) (fun e he k hk => ?_) (h.history n)
    by_contra hP
    have hnext : (st name).nextHistory.get? k = none :=
      Option.not_isSome_iff_eq_none.mp fun hsome => hP (h.next name k hsome)
    have hnone : e.history.get? k = none :=
      Option.not_isSome_iff_eq_none.mp fun hsome => hP (he k hsome)
    rw [received, Edge.get?_receive_none hnext hnone (.inl fun heq => hP ?_)] at hk
    · cases hk
    · rw [heq]
      exact hsource
  next n k hk := by
    rw [deliver_nextHistory] at hk
    exact h.next n k hk
  nodup n := deliver_invariant G skip generation (P := fun e => e.fromStageNames.Nodup)
    (fun _ he => Edge.nodup_receive he) (h.nodup n)
  fresh n hn := by
    rw [deliver_nextHistory, deliver_exception]
    exact h.fresh n hn

theorem Known.step {P : String → Prop} {st : State Ω} (h : Known P st)
    (hgeneration : ∀ s ∈ generation, P s) {event : Event Ω}
    (hname : event.name ∈ groupEdges G generation) : Known P (step G skip generation st event) :=
  step_cases G skip generation st event
    (fun a => h.attempt (hgeneration _ ((mem_groupEdges G generation).mp hname).1) a)
    fun _ h' => h'.deliver hgeneration hname

theorem Known.runGroup {P : String → Prop} {st : State Ω} (h : Known P st)
    (hgeneration : ∀ s ∈ generation, P s) {events : List (Event Ω)}
    (hevents : ∀ event ∈ events, event.name ∈ groupEdges G generation) :
    Known P (runGroup G skip generation st events) := by
  induction events generalizing st with
  | nil => exact h
  | cons event events ih =>
    exact ih (h.step hgeneration (hevents event List.mem_cons_self))
      fun event' hmem => hevents event' (List.mem_cons_of_mem _ hmem)

/-! ## 4. During a generation -/

/-- No stage of the generation follows another one of it. -/
def Level (G : StageGraph) (generation : List String) : Prop :=
  ∀ s ∈ generation, ∀ d ∈ G.graph.succ s, d ∉ generation

theorem not_mem_of_neighbor (hlevel : Level G generation) {name n : Names}
    (hname : name ∈ groupEdges G generation) (hn : n ∈ neighbors G name) : n.1 ∉ generation := by
  obtain ⟨hs, hd⟩ := (mem_groupEdges G generation).mp hname
  exact hlevel _ hs _ ((mem_destinations G hd).mp ((mem_neighbors G).mp hn).1)

/-- A delivery does not go to the edges of the generation. -/
theorem deliver_of_mem (hlevel : Level G generation) {name t : Names} (st : State Ω)
    (hname : name ∈ groupEdges G generation) (ht : t ∈ groupEdges G generation) :
    deliver G skip generation name st t = st t :=
  deliver_of_not_mem G skip generation st fun hn =>
    not_mem_of_neighbor hlevel hname hn ((mem_groupEdges G generation).mp ht).1

/-- A step does not change the other edges of the generation. -/
theorem step_of_ne (hlevel : Level G generation) {st : State Ω} {event : Event Ω} {t : Names}
    (hevent : event.name ∈ groupEdges G generation) (ht : t ∈ groupEdges G generation)
    (hne : t ≠ event.name) : step G skip generation st event t = st t :=
  step_cases G skip generation (P := fun st' => st' t = st t) st event
    (fun a => attempt_of_ne G skip generation a st hne)
    fun _ h => (deliver_of_mem hlevel _ hevent ht).trans h

/-- No edge of the generation but this one has a history of its stage to hand on; of a stage whose
copies are not silent, that is said of the edges of the others. -/
structure Apart (G : StageGraph) (generation : List String) (edge : Names) (st : State Ω) :
    Prop where
  history : ∀ t ∈ groupEdges G generation, ∀ k, ((st t).history.get? k).isSome → k.1 ∉ generation
  next : ∀ t ∈ groupEdges G generation, t ≠ edge → (t.1 = edge.1 → Silent (G.stageType edge.1)) →
    ∀ d, (st t).nextHistory.get? (edge.1, d) = none

/-- No neighbour has a history of the stage yet. -/
structure Untold (generation : List String) (edge : Names) (st : State Ω) : Prop where
  next : ∀ d, (st edge).nextHistory.get? (edge.1, d) = none
  history : ∀ n, n.1 ∉ generation → (st n).history.get? (edge.1, n.1) = none

section Stage

variable {edge : Names} (hlevel : Level G generation) (hedge : edge ∈ groupEdges G generation)
  (hruns : skipStage G skip generation edge = false)
include hlevel hedge hruns

omit hlevel in
theorem Apart.attempt {st : State Ω} (h : Apart G generation edge st) {name : Names}
    (hname : name ∈ groupEdges G generation) (a : Attempt Ω) :
    Apart G generation edge (attempt G skip generation name a st) where
  history t ht k hk := by
    rw [attempt_history] at hk
    exact h.history t ht k hk
  next t ht hne hsilent d := by
    by_cases heq : t = name
    · subst heq
      have hnone : (st t).history.get? (edge.1, d) = none := by
        refine Option.not_isSome_iff_eq_none.mp fun hsome => h.history t ht _ hsome ?_
        exact ((mem_groupEdges G generation).mp hedge).1
      have hown : edge.1 ≠ t.1 ∨
          Silent (G.stageType t.1) ∧ skipStage G skip generation t = true := by
        by_cases hsource : t.1 = edge.1
        · right
          refine ⟨hsource ▸ hsilent hsource, ?_⟩
          exact skipStage_of_ne G skip generation hedge ht hsource hne (hsilent hsource) hruns
        · exact .inl (Ne.symm hsource)
      rw [attempt_self, Edge.get?_transition a hnone hown]
      exact h.next t ht hne hsilent d
    · rw [attempt_of_ne G skip generation a st heq]
      exact h.next t ht hne hsilent d

omit hedge hruns in
theorem Apart.deliver {st : State Ω} (h : Apart G generation edge st) {name : Names}
    (hname : name ∈ groupEdges G generation) :
    Apart G generation edge (deliver G skip generation name st) where
  history t ht := by
    rw [deliver_of_mem hlevel st hname ht]
    exact h.history t ht
  next t ht := by
    rw [deliver_of_mem hlevel st hname ht]
    exact h.next t ht

theorem Apart.step {st : State Ω} (h : Apart G generation edge st) {event : Event Ω}
    (hevent : event.name ∈ groupEdges G generation) :
    Apart G generation edge (step G skip generation st event) :=
  step_cases G skip generation st event (fun a => h.attempt hedge hruns hevent a)
    fun _ h' => h'.deliver hlevel hevent

omit hlevel hedge hruns in
theorem Untold.deliver {st : State Ω} (h : Untold generation edge st)
    (hapart : Apart G generation edge st) (hsilent : Silent (G.stageType edge.1)) {name : Names}
    (hname : name ∈ groupEdges G generation) (hne : name ≠ edge) :
    Untold generation edge (deliver G skip generation name st) where
  next d := by
    rw [deliver_nextHistory]
    exact h.next d
  history n hn := by
    have hnext : (st name).nextHistory.get? (edge.1, n.1) = none :=
      hapart.next name hname hne (fun _ => hsilent) n.1
    refine deliver_invariant G skip generation (P := fun e => e.history.get? (edge.1, n.1) = none)
      (fun e he => ?_) (h.history n hn)
    refine Edge.get?_receive_none hnext he ?_
    by_cases hsource : edge.1 = (selectedEdge G skip generation name).1
    · -- the history that would be filled in is that of an edge which has none
      right
      intro h' hmem
      have hselected : (st (selectedEdge G skip generation name)).nextHistory.get?
          (edge.1, name.2) = none := by
        by_cases hself : selectedEdge G skip generation name = edge
        · rw [hself]
          exact h.next name.2
        · exact hapart.next _ (selectedEdge_mem G skip generation hname) hself (fun _ => hsilent) _
      rw [eq_of_mem_histories hmem, entry, ← hsource, hselected]
      rfl
    · exact .inl fun heq => hsource (Prod.mk.inj heq).1

omit hlevel in
theorem Untold.step {st : State Ω} (h : Untold generation edge st)
    (hapart : Apart G generation edge st) (hsilent : Silent (G.stageType edge.1)) {event : Event Ω}
    (hevent : event.name ∈ groupEdges G generation) (hne : event.name ≠ edge) :
    Untold generation edge (step G skip generation st event) := by
  have hattempt : ∀ a,
      Untold generation edge (Delivery.attempt G skip generation event.name a st) := by
    refine fun a => ⟨fun d => ?_, fun n hn => ?_⟩
    · rw [attempt_of_ne G skip generation a st (Ne.symm hne)]
      exact h.next d
    · rw [attempt_history]
      exact h.history n hn
  refine step_cases G skip generation st event hattempt fun a h' => ?_
  exact h'.deliver (hapart.attempt hedge hruns hevent a) hsilent hevent hne

omit hlevel in
/-- A history of the stage stays at a neighbour. -/
theorem told_step {st : State Ω} (hapart : Apart G generation edge st) {event : Event Ω}
    (hevent : event.name ∈ groupEdges G generation) (hne : event.completes ≠ some edge)
    (hsilent : ∀ t, event.completes = some t → t.1 = edge.1 → Silent (G.stageType edge.1))
    {n : Names} {u : Update Ω} (h : (st n).history.get? (edge.1, n.1) = some u) :
    (step G skip generation st event n).history.get? (edge.1, n.1) = some u := by
  cases event with
  | retried name a =>
    rw [step, attempt_history]
    exact h
  | executed name a =>
    have hname : name ≠ edge := fun heq => hne (congrArg some heq)
    have hnext : (Delivery.attempt G skip generation name a st name).nextHistory.get?
        (edge.1, n.1) = none :=
      (hapart.attempt hedge hruns hevent a).next name hevent hname (hsilent name rfl) n.1
    rw [step]
    rcases execute_cases G skip generation name a st with heq | heq
    · rw [heq, attempt_history]
      exact h
    · rw [heq]
      refine deliver_invariant G skip generation
        (P := fun e => e.history.get? (edge.1, n.1) = some u) (fun e he => ?_) (by
          rw [attempt_history]
          exact h)
      exact (Edge.get?_receive_keeps hnext (.inr (by rw [he]; rfl))).trans he

end Stage

theorem fromStageNames_step {st : State Ω} (event : Event Ω) (n : Names) :
    (st n).fromStageNames ⊆ (step G skip generation st event n).fromStageNames := by
  refine step_cases G skip generation
    (P := fun st' => (st n).fromStageNames ⊆ (st' n).fromStageNames) st event (fun a => ?_)
    fun a h => ?_
  · rw [attempt_fromStageNames]
    exact List.Subset.refl _
  · exact deliver_invariant G skip generation
      (P := fun e => (st n).fromStageNames ⊆ e.fromStageNames)
      (fun e he => List.Subset.trans he Edge.subset_receive) h

end Generation

/-! ## 5. The execution of a stage -/

/-- The execution of the transition that runs a stage, in a run of the graph: the generations that are
done, with what happened in them, and what happens before and after it in its own. -/
structure Moment (G : StageGraph) (Ω : Type) where
  skip : String → Bool
  done : List (List String × List (Event Ω))
  generation : List String
  before : List (Event Ω)
  edge : Names
  result : Attempt Ω
  after : List (Event Ω)
  apart : ∀ s ∈ generation, s ∉ (done.map Prod.fst).flatten
  level : Level G generation
  done_mem : ∀ x ∈ done, ∀ event ∈ x.2, event.name ∈ groupEdges G x.1
  mem : ∀ event ∈ before ++ .executed edge result :: after, event.name ∈ groupEdges G generation
  once : ∀ event ∈ before ++ after, event.completes ≠ some edge
  runs : skipStage G skip generation edge = false

namespace Moment

variable {G : StageGraph} (m : Moment G Ω)

def start : State Ω := m.done.foldl (fun st x => runGroup G m.skip x.1 st x.2) State.initial

/-- Before the transition is executed. -/
def now : State Ω := runGroup G m.skip m.generation m.start m.before

/-- When it has been. -/
def next : State Ω := step G m.skip m.generation m.now (.executed m.edge m.result)

/-- At the end of what happens after it. -/
def final : State Ω := runGroup G m.skip m.generation m.next m.after

/-- The history that the stage has for one of its destinations, or else for that of its transition. -/
def own (d : String) : Option (Update Ω) :=
  ((m.next m.edge).nextHistory.get? (m.edge.1, d)).or
    ((m.next m.edge).nextHistory.get? (m.edge.1, m.edge.2))

/-- **The history of the stage reaches its neighbours**, but for histories under some of the names. -/
structure Intact (replaced : Names → Prop) : Prop where
  /-- What there is of it, each neighbour has from then on, with the keys that it requires. -/
  available : ∀ d ∈ G.graph.succ m.edge.1, ∀ x ∈ G.graph.succ d, ∀ u, m.own d = some u →
    u.items ≠ [] →
    (m.final (d, x)).history.get? (m.edge.1, d) = some (u.restrict (requires (G.stageType d)))
  once : ∀ d ∈ G.graph.succ m.edge.1, ∀ x ∈ G.graph.succ d,
    (m.final (d, x)).fromStageNames.count m.edge.1 = 1
  /-- What has been delivered before stays. -/
  kept : ∀ n k u, k.1 ≠ m.edge.1 → ¬replaced k → (m.now n).history.get? k = some u →
    (m.next n).history.get? k = some u

/-- The transition does not lead to the end, and its first attempt succeeds. -/
structure PassedOn : Prop where
  complete : G.stageType m.edge.2 ≠ .complete
  error : G.stageType m.edge.2 ≠ .error
  raises : m.result.raises = false
  first : ∀ event ∈ m.before, event.name ≠ m.edge

/-- Every attempt raises, or the transition leads to the end. -/
def KeptBack : Prop :=
  (m.result.raises = true ∧ ∀ event ∈ m.before, event.name = m.edge → event.raises = true) ∨
    G.stageType m.edge.2 = .complete ∨ G.stageType m.edge.2 = .error

/-- A Setup stage has a history for each of its destinations, and none of its copies comes later. -/
def Spared : Prop :=
  G.stageType m.edge.1 = .setup →
    (∀ d ∈ G.graph.succ m.edge.1, d ∈ m.result.updated m.edge.2) ∧
      ∀ event ∈ m.after, ∀ t, event.completes = some t → t.1 ≠ m.edge.1

/-! ## 6. Every execution -/

theorem edge_mem : m.edge ∈ groupEdges G m.generation :=
  m.mem (.executed m.edge m.result) (List.mem_append_right _ List.mem_cons_self)

theorem known_foldl {skip : String → Bool} {done : List (List String × List (Event Ω))}
    (hmem : ∀ x ∈ done, ∀ event ∈ x.2, event.name ∈ groupEdges G x.1) {P : String → Prop}
    {st : State Ω} (h : Known P st) :
    Known (fun s => P s ∨ s ∈ (done.map Prod.fst).flatten)
      (done.foldl (fun st x => runGroup G skip x.1 st x.2) st) := by
  induction done generalizing P st with
  | nil => exact h.mono fun _ hs => .inl hs
  | cons x done ih =>
    have hx : Known (fun s => P s ∨ s ∈ x.1) (runGroup G skip x.1 st x.2) :=
      (h.mono fun _ hs => .inl hs).runGroup (fun _ hs => .inr hs) (hmem x List.mem_cons_self)
    refine (ih (fun y hy => hmem y (List.mem_cons_of_mem _ hy)) hx).mono fun s hs => ?_
    rw [List.map_cons, List.flatten_cons, List.mem_append]
    rcases hs with (hs | hs) | hs
    · exact .inl hs
    · exact .inr (.inl hs)
    · exact .inr (.inr hs)

theorem known_start : Known (· ∈ (m.done.map Prod.fst).flatten) m.start :=
  (known_foldl m.done_mem (known_initial fun _ => False)).mono fun _ hs => hs.resolve_left id

theorem not_mem_done {t : Names} (ht : t ∈ groupEdges G m.generation) :
    t.1 ∉ (m.done.map Prod.fst).flatten :=
  m.apart _ ((mem_groupEdges G m.generation).mp ht).1

theorem apart_start : Apart G m.generation m.edge m.start where
  history t _ k hk hmem := m.apart _ hmem (m.known_start.history t k hk)
  next t ht _ _ d := by
    rw [(m.known_start.fresh t (m.not_mem_done ht)).1]
    rfl

theorem untold_start : Untold m.generation m.edge m.start where
  next d := by
    rw [(m.known_start.fresh m.edge (m.not_mem_done m.edge_mem)).1]
    rfl
  history n _ := Option.not_isSome_iff_eq_none.mp fun hsome =>
    m.not_mem_done m.edge_mem (m.known_start.history n (m.edge.1, n.1) hsome)

/-- What a step keeps, on a part of the run. -/
theorem runGroup_invariant {P : State Ω → Prop} {l : List (Event Ω)}
    (hstep : ∀ st, ∀ event ∈ l, P st → P (step G m.skip m.generation st event)) {st : State Ω}
    (h : P st) : P (runGroup G m.skip m.generation st l) := by
  induction l generalizing st with
  | nil => exact h
  | cons event l ih =>
    exact ih (fun st' event' hmem => hstep st' event' (List.mem_cons_of_mem _ hmem))
      (hstep st event List.mem_cons_self h)

theorem mem_before {event : Event Ω} (h : event ∈ m.before) :
    event.name ∈ groupEdges G m.generation := m.mem event (List.mem_append_left _ h)

theorem mem_after {event : Event Ω} (h : event ∈ m.after) :
    event.name ∈ groupEdges G m.generation :=
  m.mem event (List.mem_append_right _ (List.mem_cons_of_mem _ h))

theorem apart_now : Apart G m.generation m.edge m.now :=
  m.runGroup_invariant (fun _ _ hmem h => h.step m.level m.edge_mem m.runs (m.mem_before hmem))
    m.apart_start

theorem apart_next : Apart G m.generation m.edge m.next :=
  m.apart_now.step m.level m.edge_mem m.runs m.edge_mem

/-- The transition itself is the first event about its edge. -/
theorem now_edge (h : m.PassedOn) : m.now m.edge = m.start m.edge :=
  m.runGroup_invariant (P := fun st => st m.edge = m.start m.edge)
    (fun _ event hmem hst => (step_of_ne m.level (m.mem_before hmem) m.edge_mem
      (Ne.symm (h.first event hmem))).trans hst) rfl

theorem untold_now (h : m.PassedOn) (hsilent : Silent (G.stageType m.edge.1)) :
    Untold m.generation m.edge m.now :=
  (m.runGroup_invariant
    (P := fun st => Apart G m.generation m.edge st ∧ Untold m.generation m.edge st)
    (fun _ event hmem hst => ⟨hst.1.step m.level m.edge_mem m.runs (m.mem_before hmem),
      hst.2.step m.edge_mem m.runs hst.1 hsilent (m.mem_before hmem)
        (h.first event hmem)⟩)
    ⟨m.apart_start, m.untold_start⟩).2

/-- After the last attempt. -/
def tried : State Ω := attempt G m.skip m.generation m.edge m.result m.now

theorem passToNext_iff (e : Edge Ω) :
    passToNext G m.skip m.generation m.edge e = true ↔
      G.stageType m.edge.2 ≠ .complete ∧ G.stageType m.edge.2 ≠ .error ∧ e.exception = false := by
  have hskip : m.skip m.edge.1 = false := by
    have hruns := m.runs
    rw [skipStage, Bool.or_eq_false_iff] at hruns
    exact hruns.1
  have hvalid := G.valid _ _ ((mem_groupEdges G m.generation).mp m.edge_mem).2
  simp [passToNext, hskip, hvalid, and_assoc]

theorem next_of_passedOn (h : m.PassedOn) :
    m.next = deliver G m.skip m.generation m.edge m.tried := by
  have hexception : (m.tried m.edge).exception = false := by
    rw [tried, attempt_self, Edge.transition_exception, m.now_edge h,
      (m.known_start.fresh m.edge (m.not_mem_done m.edge_mem)).2, h.raises]
    rfl
  exact if_pos ((m.passToNext_iff _).mpr ⟨h.complete, h.error, hexception⟩)

theorem next_of_keptBack (h : m.KeptBack) : m.next = m.tried := by
  refine if_neg fun hpass => ?_
  obtain ⟨hcomplete, herror, hexception⟩ := (m.passToNext_iff _).mp hpass
  rw [attempt_self, Edge.transition_exception, Bool.or_eq_false_iff] at hexception
  rcases h with ⟨hraises, -⟩ | hend | hend
  · exact absurd (hraises.symm.trans hexception.2) nofun
  · exact hcomplete hend
  · exact herror hend

/-- A stage with nothing of its own has no history, or an empty one. -/
theorem own_of_plain (h : m.PassedOn) (hplain : Plain (G.stageType m.edge.1)) {d : String} {u : Update Ω}
    (hu : m.own d = some u) : u.items = [] := by
  have hedge : (m.next m.edge).nextHistory = ((m.start m.edge).transition (G.stageType m.edge.1)
      (skipStage G m.skip m.generation m.edge) m.edge m.result).nextHistory := by
    rw [m.next_of_passedOn h, deliver_nextHistory, tried, attempt_self, m.now_edge h]
  have hempty : ∀ x, (m.start m.edge).history.get? (m.edge.1, x) = none := fun x =>
    Option.not_isSome_iff_eq_none.mp fun hsome =>
      m.not_mem_done m.edge_mem (m.known_start.history m.edge (m.edge.1, x) hsome)
  have hnone : ∀ x w, (m.start m.edge).nextHistory.get? (m.edge.1, x) = some w → w.items = [] := by
    intro x w hw
    rw [(m.known_start.fresh m.edge (m.not_mem_done m.edge_mem)).1] at hw
    cases hw
  rw [own, hedge, Option.or_eq_some_iff] at hu
  rcases hu with hu | ⟨-, hu⟩
  · exact Edge.items_transition hplain m.result (hempty _) (hnone _) hu
  · exact Edge.items_transition hplain m.result (hempty _) (hnone _) hu

/-- A stage that has something of its own is one whose copies have nothing, or a Setup stage. -/
theorem silent_or_setup (h : m.PassedOn) {d : String} {u : Update Ω} (hu : m.own d = some u)
    (hne : u.items ≠ []) : Silent (G.stageType m.edge.1) ∨ G.stageType m.edge.1 = .setup := by
  have hplain : ¬Plain (G.stageType m.edge.1) := fun hplain => hne (m.own_of_plain h hplain hu)
  cases htype : G.stageType m.edge.1 with
  | idle | complete | error => exact absurd (by rw [htype]; trivial) hplain
  | setup => exact .inr rfl
  | optimize | act | execute | analyze | submit => exact .inl trivial

/-- A transition that runs its stage delivers the histories of its own edge. -/
theorem selectedEdge_eq : selectedEdge G m.skip m.generation m.edge = m.edge := by
  rw [selectedEdge, m.runs]
  rfl

theorem neighbor_mem {d x : String} (hd : d ∈ G.graph.succ m.edge.1) (hx : x ∈ G.graph.succ d) :
    (d, x) ∈ neighbors G m.edge :=
  (mem_neighbors G).mpr ⟨(mem_destinations G
    ((mem_groupEdges G m.generation).mp m.edge_mem).2).mpr hd, hx⟩

/-- What each neighbour has of the stage when its transition has been passed on. -/
theorem available_next (h : m.PassedOn) (hspared : m.Spared) {d x : String}
    (hd : d ∈ G.graph.succ m.edge.1) (hx : x ∈ G.graph.succ d) {u : Update Ω}
    (hu : m.own d = some u) (hne : u.items ≠ []) :
    (m.next (d, x)).history.get? (m.edge.1, d) = some (u.restrict (requires (G.stageType d))) := by
  have htype := m.silent_or_setup h hu hne
  have hown : m.own d = ((m.tried m.edge).nextHistory.get? (m.edge.1, d)).or
      ((m.tried m.edge).nextHistory.get? (m.edge.1, m.edge.2)) := by
    rw [own, m.next_of_passedOn h, deliver_nextHistory]
  rw [hown] at hu
  rw [m.next_of_passedOn h]
  cases hnext : (m.tried m.edge).nextHistory.get? (m.edge.1, d) with
  | some u' =>
    rw [hnext] at hu
    obtain rfl : u' = u := Option.some.inj hu
    exact deliver_establishes G m.skip m.generation
      (P := fun e => e.history.get? (m.edge.1, d) = some (u'.restrict (requires (G.stageType d))))
      (m.neighbor_mem hd hx) (Edge.get?_receive_of_next hnext)
      fun _ _ => Edge.get?_receive_of_next hnext
  | none =>
    rw [hnext, Option.none_or] at hu
    rcases htype with hsilent | hsetup
    · have huntold := (m.untold_now h hsilent).history (d, x)
        (m.level _ ((mem_groupEdges G m.generation).mp m.edge_mem).1 d hd)
      have hnone : (m.tried (d, x)).history.get? (m.edge.1, d) = none := by
        rw [tried, attempt_history]
        exact huntold
      have hreceived : ∀ e, received G m.skip m.generation m.edge m.tried (d, x) e =
          e.receive (requires (G.stageType d)) (m.tried m.edge).nextHistory m.edge.1 (m.edge.1, d)
            (Dict.ofList ((neighbors G m.edge).map fun n => (n, u))).values := by
        intro e
        rw [received, m.selectedEdge_eq]
        dsimp only
        rw [entry, hu]
        rfl
      have hneighbor := m.neighbor_mem hd hx
      refine deliver_establishes G m.skip m.generation
        (P := fun e => e.history.get? (m.edge.1, d) = some (u.restrict (requires (G.stageType d))))
        hneighbor ?_ fun e he => ?_
      · rw [hreceived]
        exact Edge.get?_receive_fills hnext hnone hne (histories_ne_nil hneighbor)
          fun _ hmem => eq_of_mem_histories hmem
      · rw [hreceived]
        exact (Edge.get?_receive_keeps hnext (.inr (by rw [he]; rfl))).trans he
    · -- a Setup stage is updated for each of its destinations
      have hsome := @Edge.isSome_transition_setup Ω (skipStage G m.skip m.generation m.edge) m.edge
        (m.now m.edge) m.result d ((hspared hsetup).1 d hd)
      rw [tried, attempt_self, hsetup] at hnext
      rw [hnext] at hsome
      cases hsome

/-- What the stage has, it has from then on. -/
theorem available (h : m.PassedOn) (hspared : m.Spared) {d x : String}
    (hd : d ∈ G.graph.succ m.edge.1) (hx : x ∈ G.graph.succ d) {u : Update Ω}
    (hu : m.own d = some u) (hne : u.items ≠ []) :
    (m.final (d, x)).history.get? (m.edge.1, d) = some (u.restrict (requires (G.stageType d))) := by
  refine (m.runGroup_invariant (l := m.after)
    (P := fun st => Apart G m.generation m.edge st ∧
      (st (d, x)).history.get? (m.edge.1, d) = some (u.restrict (requires (G.stageType d))))
    (fun st event hmem hst => ⟨hst.1.step m.level m.edge_mem m.runs (m.mem_after hmem), ?_⟩)
    ⟨m.apart_next, m.available_next h hspared hd hx hu hne⟩).2
  refine told_step m.edge_mem m.runs hst.1 (m.mem_after hmem)
    (m.once event (List.mem_append_right _ hmem)) (fun t ht hsource => ?_) hst.2
  rcases m.silent_or_setup h hu hne with hsilent | hsetup
  · exact hsilent
  · exact absurd hsource ((hspared hsetup).2 event hmem t ht)

theorem known_final :
    Known (fun s => s ∈ (m.done.map Prod.fst).flatten ∨ s ∈ m.generation) m.final := by
  have hstart : Known (fun s => s ∈ (m.done.map Prod.fst).flatten ∨ s ∈ m.generation) m.start :=
    m.known_start.mono fun _ hs => .inl hs
  have hnow : Known _ m.now :=
    hstart.runGroup (fun _ hs => .inr hs) fun _ hmem => m.mem_before hmem
  exact (hnow.step (fun _ hs => .inr hs) m.edge_mem).runGroup (fun _ hs => .inr hs)
    fun _ hmem => m.mem_after hmem

/-- Each neighbour has the name of the stage once. -/
theorem count_eq_one (h : m.PassedOn) {d x : String} (hd : d ∈ G.graph.succ m.edge.1)
    (hx : x ∈ G.graph.succ d) : (m.final (d, x)).fromStageNames.count m.edge.1 = 1 := by
  refine List.count_eq_one_of_mem (m.known_final.nodup _) ?_
  have hnext : m.edge.1 ∈ (m.next (d, x)).fromStageNames := by
    rw [m.next_of_passedOn h]
    have hmem : ∀ e, m.edge.1 ∈
        (received G m.skip m.generation m.edge m.tried (d, x) e).fromStageNames := fun e => by
      rw [received, m.selectedEdge_eq]
      exact Edge.mem_receive
    exact deliver_establishes G m.skip m.generation (P := fun e => m.edge.1 ∈ e.fromStageNames)
      (m.neighbor_mem hd hx) (hmem _) fun e _ => hmem e
  exact m.runGroup_invariant (l := m.after)
    (P := fun st => m.edge.1 ∈ (st (d, x)).fromStageNames)
    (fun _ event _ hst => fromStageNames_step event _ hst) hnext

/-- A history that the stage has not itself been given stays at the neighbours. -/
theorem kept (h : m.PassedOn) {n k : Names} {u : Update Ω} (hk : k.1 ≠ m.edge.1)
    (hown : ((m.now m.edge).history.get? k).isSome = false)
    (hu : (m.now n).history.get? k = some u) : (m.next n).history.get? k = some u := by
  have hnext : (m.tried m.edge).nextHistory.get? k = none := by
    rw [tried, attempt_self, Edge.get?_transition m.result (Option.not_isSome_iff_eq_none.mp
      (Bool.eq_false_iff.mp hown)) (.inl hk), m.now_edge h,
      (m.known_start.fresh m.edge (m.not_mem_done m.edge_mem)).1]
    rfl
  rw [m.next_of_passedOn h]
  refine deliver_invariant G m.skip m.generation (P := fun e => e.history.get? k = some u)
    (fun e he => ?_) ?_
  · exact (Edge.get?_receive_keeps hnext (.inr (by rw [he]; rfl))).trans he
  · rw [tried, attempt_history]
    exact hu

end Moment

/-- **What reaches the neighbours of a stage.**  A transition whose first attempt succeeds delivers the
history of its stage, and keeps what it has no version of; one that only fails, or leads to the end,
leaves every history as it is. -/
theorem delivers (G : StageGraph) (m : Moment G Ω) :
    (m.PassedOn → m.Spared → m.Intact fun k => ((m.now m.edge).history.get? k).isSome) ∧
      (m.KeptBack → ∀ n, (m.next n).history = (m.now n).history) := by
  refine ⟨fun h hspared => ⟨?_, ?_, ?_⟩, fun h n => ?_⟩
  · exact fun d hd x hx u hu hne => m.available h hspared hd hx hu hne
  · exact fun d hd x hx => m.count_eq_one h hd hx
  · exact fun n k u hk hown hu => m.kept h hk (Bool.eq_false_iff.mpr hown) hu
  · rw [m.next_of_keptBack h, Moment.tried, attempt_history]

theorem listed_chain : StageGraph.Listed
    [("Setup", .setup), ("Login", .execute), ("Analyze", .analyze), ("Submit", .submit),
      ("Complete", .complete)]
    [("Setup", "Login"), ("Login", "Analyze"), ("Analyze", "Submit"), ("Submit", "Complete")]
    "Complete" := by
  constructor <;> decide +kernel

/-- One stage of each type. -/
def chain : StageGraph := .ofLists _ _ _ listed_chain

/-- The Setup stage of the chain is run, with this result. -/
def setupRun (result : Attempt Unit) : Moment chain Unit where
  skip _ := false
  done := []
  generation := ["Setup"]
  before := []
  edge := ("Setup", "Login")
  result
  after := []
  apart _ _ := List.not_mem_nil
  level := by
    unfold Level
    decide +kernel
  done_mem _ h := absurd h List.not_mem_nil
  mem event h := by
    obtain rfl := List.mem_singleton.mp h
    exact (mem_groupEdges chain _).mpr
      ⟨List.mem_singleton.mpr rfl, (by decide +kernel : "Login" ∈ chain.graph.succ "Setup")⟩
  once _ h := absurd h List.not_mem_nil
  runs := by decide +kernel

def configured : Attempt Unit where
  others := some []
  results _ := Dict.empty.set "setup_stage_configs" ()
  raises := false

theorem delivers_setup : (setupRun configured).Intact fun k =>
    (((setupRun configured).now (setupRun configured).edge).history.get? k).isSome :=
  (delivers chain (setupRun configured)).1
    ⟨by decide +kernel, by decide +kernel, rfl, fun _ h => absurd h List.not_mem_nil⟩
    fun _ => ⟨by decide +kernel, fun _ h => absurd h List.not_mem_nil⟩

def failing : Attempt Unit where
  others := none
  results _ := .empty
  raises := true

/-- A stage that fails reaches no neighbour. -/
theorem not_delivers : ¬∀ (G : StageGraph) (m : Moment G Unit), m.Intact fun _ => False := by
  intro h
  have honce := (h chain (setupRun failing)).once "Login" (by decide +kernel) "Analyze"
    (by decide +kernel)
  have hnone : ((setupRun failing).final ("Login", "Analyze")).fromStageNames.count "Setup" = 0 := by
    decide +kernel
  cases hnone.symm.trans honce

end Delivery
end Graphs
end Hedra
