/-
# Finite acyclic graphs

A graph is given by its nodes and, for each of them, the nodes that its edges lead to.  A walk is the
list of the nodes it visits after its first one.  In an acyclic graph no walk visits a node twice, so
there are finitely many, and they can be listed.

`PathFunctions` is what a program may ask of a library of graph algorithms: the distances from a node,
and the simple paths between two nodes.  Every finite acyclic graph has them, `Dag.pathFunctions`.

* `nodup_of_walk`: a walk visits no node twice;
* `mem_paths`: the paths that are listed are the walks;
* `distance_eq_some`: and the distance is the length of a shortest one.
-/
import Mathlib.Data.List.Dedup
import Mathlib.Data.List.Perm.Subperm
import Mathlib.Logic.Relation
import Mathlib.Order.Bounds.Basic
import Mathlib.Order.Nat

namespace Lib

variable {V : Type*}

/-! ## 1. Walks -/

/-- From `a` along `l` to `b`. -/
inductive Walk (r : V → V → Prop) : V → List V → V → Prop
  | nil
      (a : V) :
      Walk r a [] a
  | cons
      {a b c : V} {l : List V}
      (h : r a b) (rest : Walk r b l c) :
      Walk r a (b :: l) c

namespace Walk

variable {r : V → V → Prop} {a b c v : V} {l l' : List V}

theorem nil_iff : Walk r a [] b ↔ a = b := by
  constructor
  · rintro ⟨⟩
    rfl
  · rintro rfl
    exact .nil a

theorem append (h : Walk r a l b) (h' : Walk r b l' c) : Walk r a (l ++ l') c := by
  induction h with
  | nil => exact h'
  | cons hr _ ih => exact .cons hr (ih h')

theorem single (h : r a b) : Walk r a [b] b := .cons h (.nil b)

/-- A walk can be cut at a node it visits. -/
theorem split (h : Walk r a l b) (hv : v ∈ l) :
    ∃ l₁ l₂, l = l₁ ++ l₂ ∧ l₁ ≠ [] ∧ Walk r a l₁ v ∧ Walk r v l₂ b := by
  induction h with
  | nil => cases hv
  | @cons a w b l hr hrest ih =>
    rcases List.mem_cons.mp hv with rfl | hv
    · exact ⟨[v], l, rfl, List.cons_ne_nil _ _, single hr, hrest⟩
    · obtain ⟨l₁, l₂, rfl, -, h₁, h₂⟩ := ih hv
      exact ⟨w :: l₁, l₂, rfl, List.cons_ne_nil _ _, .cons hr h₁, h₂⟩

theorem transGen (h : Walk r a l b) (hl : l ≠ []) : Relation.TransGen r a b := by
  induction h with
  | nil => exact absurd rfl hl
  | @cons a w b l hr hrest ih =>
    cases l with
    | nil =>
      obtain rfl := nil_iff.mp hrest
      exact .single hr
    | cons x l => exact .head hr (ih (List.cons_ne_nil _ _))

theorem exists_of_transGen (h : Relation.TransGen r a b) : ∃ l, l ≠ [] ∧ Walk r a l b := by
  induction h with
  | single hr => exact ⟨_, List.cons_ne_nil _ _, single hr⟩
  | tail _ hr ih =>
    obtain ⟨l, hl, hw⟩ := ih
    exact ⟨_, List.append_ne_nil_of_left_ne_nil hl _, hw.append (single hr)⟩

theorem getLast? (h : Walk r a l b) : (a :: l).getLast? = some b := by
  induction h with
  | nil => rfl
  | cons _ _ ih => rw [List.getLast?_cons_cons, ih]

end Walk

/-- The length of a shortest walk. -/
def Distance (r : V → V → Prop) (a b : V) (n : ℕ) : Prop :=
  IsLeast {n | ∃ l, l.length = n ∧ Walk r a l b} n

/-- `b` is reached from `a` on a walk that meets only nodes of `P` on the way. -/
def Clear (r : V → V → Prop) (P : V → Prop) (a b : V) : Prop :=
  ∃ l, l ≠ [] ∧ Walk r a l b ∧ ∀ v ∈ l.dropLast, P v

/-- On a walk there is a last node of `P` before the end, or there is none. -/
theorem Walk.exists_clear_or {r : V → V → Prop} {P : V → Prop} {a b : V} {l : List V}
    (h : Walk r a l b) :
    (∃ v, P v ∧ Clear r (fun w => ¬ P w) v b) ∨ ∀ v ∈ (a :: l).dropLast, ¬ P v := by
  induction h with
  | nil => exact Or.inr (List.forall_mem_nil _)
  | @cons a w b l hr hrest ih =>
    rcases ih with hex | hnone
    · exact Or.inl hex
    · by_cases ha : P a
      · exact Or.inl ⟨a, ha, w :: l, List.cons_ne_nil _ _, .cons hr hrest, hnone⟩
      · exact Or.inr (List.forall_mem_cons.mpr ⟨ha, hnone⟩)

theorem Walk.exists_clear {r : V → V → Prop} {P : V → Prop} {a b : V} {l : List V} (h : Walk r a l b)
    (hl : l ≠ []) (ha : P a) : ∃ v, P v ∧ Clear r (fun w => ¬ P w) v b := by
  refine h.exists_clear_or.resolve_right fun hnone => ?_
  obtain ⟨w, l, rfl⟩ := List.exists_cons_of_ne_nil hl
  exact hnone a List.mem_cons_self ha

/-! ## 2. Graphs -/

/-- A finite acyclic graph. -/
structure Dag (V : Type*) where
  nodes : List V
  succ : V → List V
  nodup : nodes.Nodup
  closed : ∀ a b, b ∈ succ a → a ∈ nodes ∧ b ∈ nodes
  acyclic : ∀ a, ¬ Relation.TransGen (fun a b => b ∈ succ a) a a

/-- A graph whose edges lead upwards is acyclic. -/
theorem acyclic_of_rank {r : V → V → Prop} (rank : V → ℕ) (h : ∀ a b, r a b → rank a < rank b) (a : V) :
    ¬ Relation.TransGen r a a := by
  have hlt : ∀ b, Relation.TransGen r a b → rank a < rank b := by
    intro b hb
    induction hb with
    | single hr => exact h _ _ hr
    | tail _ hr ih => exact ih.trans (h _ _ hr)
  exact fun ha => lt_irrefl _ (hlt a ha)

namespace Dag

variable (G : Dag V)

def Edge (a b : V) : Prop := b ∈ G.succ a

variable {G} {a b v : V} {l : List V}

theorem ne_of_walk (h : Walk G.Edge a l b) (hl : l ≠ []) : a ≠ b := by
  rintro rfl
  exact G.acyclic a (h.transGen hl)

/-- No walk comes back. -/
theorem not_mem_of_walk (h : Walk G.Edge a l b) : a ∉ l := by
  intro ha
  obtain ⟨l₁, l₂, -, hne, hback, -⟩ := h.split ha
  exact ne_of_walk hback hne rfl

theorem nodup_of_walk (h : Walk G.Edge a l b) : (a :: l).Nodup := by
  induction h with
  | nil => exact List.nodup_singleton _
  | @cons a w b l hr hrest ih =>
    exact List.nodup_cons.mpr ⟨not_mem_of_walk (.cons hr hrest), ih⟩

theorem subset_of_walk (h : Walk G.Edge a l b) : l ⊆ G.nodes := by
  induction h with
  | nil => exact List.nil_subset _
  | @cons a w b l hr _ ih => exact List.cons_subset.mpr ⟨(G.closed a w hr).2, ih⟩

theorem mem_of_start (h : Walk G.Edge a l b) (hl : l ≠ []) : a ∈ G.nodes := by
  cases h with
  | nil => exact absurd rfl hl
  | cons hr _ => exact (G.closed _ _ hr).1

theorem mem_of_walk (h : Walk G.Edge a l b) (hl : l ≠ []) : b ∈ G.nodes := by
  cases h with
  | nil => exact absurd rfl hl
  | cons hr hrest => exact subset_of_walk (.cons hr hrest) (List.mem_of_getLast? hrest.getLast?)

/-- A walk visits each node once at most. -/
theorem length_lt_of_walk (h : Walk G.Edge a l b) (ha : a ∈ G.nodes) : l.length < G.nodes.length := by
  have hsub : a :: l ⊆ G.nodes := List.cons_subset.mpr ⟨ha, subset_of_walk h⟩
  exact (List.subperm_of_subset (nodup_of_walk h) hsub).length_le

/-- The end of a walk is not one of the nodes on the way. -/
theorem not_mem_dropLast (h : Walk G.Edge a l b) : b ∉ l.dropLast := by
  intro hb
  have hlast : l.getLast? = some b := by
    have := h.getLast?
    rcases l with - | ⟨x, l⟩
    · cases hb
    · rwa [List.getLast?_cons_cons] at this
  have hl : l.dropLast ++ [b] = l := List.dropLast_append_getLast? b hlast
  have hnodup := (List.nodup_cons.mp (nodup_of_walk h)).2
  rw [← hl, List.nodup_append] at hnodup
  exact hnodup.2.2 b hb b (List.mem_singleton_self b) rfl

/-- A walk that is not longer than those to the other nodes of `P` meets none of them on the way. -/
theorem clear_of_nearest {P : V → Prop} (h : Walk G.Edge a l b)
    (hnear : ∀ v, P v → v ≠ a → ∀ l', Walk G.Edge a l' v → l.length ≤ l'.length) :
    ∀ v ∈ l.dropLast, ¬ P v := by
  intro v hv hP
  obtain ⟨l₁, l₂, rfl, hne, h₁, h₂⟩ := h.split ((List.dropLast_sublist l).subset hv)
  have hl₂ : l₂ ≠ [] := by
    rintro rfl
    obtain rfl := Walk.nil_iff.mp h₂
    exact not_mem_dropLast h hv
  have hle := hnear v hP (ne_of_walk h₁ hne).symm l₁ h₁
  rw [List.length_append] at hle
  have hpos := List.length_pos_iff.mpr hl₂
  omega

end Dag

/-! ## 3. Distances and simple paths -/

/-- What a library of graph algorithms says of a graph: which other nodes are reached from a node, and
how far they are, and the simple paths from a node to another one. -/
structure PathFunctions (G : Dag V) where
  pathLengths : V → List (V × ℕ)
  simplePaths : V → V → List (List V)
  mem_pathLengths : ∀ {a b n}, a ∈ G.nodes →
    ((b, n) ∈ pathLengths a ↔ a ≠ b ∧ Distance G.Edge a b n)
  mem_simplePaths : ∀ {a b p}, a ∈ G.nodes → a ≠ b →
    (p ∈ simplePaths a b ↔ ∃ l, p = a :: l ∧ p.Nodup ∧ Walk G.Edge a l b)

namespace Dag

variable [DecidableEq V] (G : Dag V)

/-- The ends of the walks with `n` edges. -/
def layer : ℕ → V → List V
  | 0, a => [a]
  | n + 1, a => ((G.succ a).flatMap (layer n)).dedup

def distance (a b : V) : Option ℕ := (List.range G.nodes.length).find? fun n => b ∈ G.layer n a

/-- The walks with `n` edges at most. -/
def paths : ℕ → V → V → List (List V)
  | 0, a, b => if a = b then [[a]] else []
  | n + 1, a, b =>
    (if a = b then [[a]] else []) ++ (G.succ a).flatMap fun c => (paths n c b).map (a :: ·)

variable {G} {a b : V} {n : ℕ} {p : List V}

theorem mem_layer : b ∈ G.layer n a ↔ ∃ l, l.length = n ∧ Walk G.Edge a l b := by
  induction n generalizing a with
  | zero =>
    rw [layer, List.mem_singleton]
    constructor
    · rintro rfl
      exact ⟨[], rfl, .nil b⟩
    · rintro ⟨l, hl, hw⟩
      obtain rfl := List.length_eq_zero_iff.mp hl
      exact (Walk.nil_iff.mp hw).symm
  | succ n ih =>
    rw [layer, List.mem_dedup, List.mem_flatMap]
    constructor
    · rintro ⟨c, hc, hb⟩
      obtain ⟨l, rfl, hw⟩ := ih.mp hb
      exact ⟨c :: l, rfl, .cons hc hw⟩
    · rintro ⟨l, hl, hw⟩
      cases hw with
      | nil => cases hl
      | cons hc hw => exact ⟨_, hc, ih.mpr ⟨_, Nat.succ.inj hl, hw⟩⟩

theorem distance_eq_some (ha : a ∈ G.nodes) : G.distance a b = some n ↔ Distance G.Edge a b n := by
  rw [distance, List.find?_range_eq_some]
  simp only [decide_eq_true_eq, List.mem_range, Bool.not_eq_eq_eq_not, Bool.not_true,
    decide_eq_false_iff_not, mem_layer]
  constructor
  · rintro ⟨hn, -, hmin⟩
    exact ⟨hn, fun m hm => not_lt.mp fun hlt => hmin m hlt hm⟩
  · rintro ⟨⟨l, hl, hw⟩, hmin⟩
    exact ⟨⟨l, hl, hw⟩, hl ▸ length_lt_of_walk hw ha, fun m hlt hm => absurd (hmin hm) (not_le.mpr hlt)⟩

theorem mem_paths : p ∈ G.paths n a b ↔ ∃ l, p = a :: l ∧ l.length ≤ n ∧ Walk G.Edge a l b := by
  induction n generalizing a p with
  | zero =>
    rw [paths]
    constructor
    · intro hp
      split at hp
      case isTrue hab =>
        exact ⟨[], List.mem_singleton.mp hp, le_rfl, Walk.nil_iff.mpr hab⟩
      case isFalse => cases hp
    · rintro ⟨l, rfl, hl, hw⟩
      obtain rfl := List.length_eq_zero_iff.mp (Nat.le_zero.mp hl)
      rw [if_pos (Walk.nil_iff.mp hw)]
      exact List.mem_singleton_self _
  | succ n ih =>
    rw [paths, List.mem_append, List.mem_flatMap]
    constructor
    · rintro (hp | ⟨c, hc, hp⟩)
      · split at hp
        case isTrue hab =>
          exact ⟨[], List.mem_singleton.mp hp, Nat.zero_le _, Walk.nil_iff.mpr hab⟩
        case isFalse => cases hp
      · obtain ⟨q, hq, rfl⟩ := List.mem_map.mp hp
        obtain ⟨l, rfl, hl, hw⟩ := ih.mp hq
        exact ⟨c :: l, rfl, Nat.succ_le_succ hl, .cons hc hw⟩
    · rintro ⟨l, rfl, hl, hw⟩
      cases hw with
      | nil =>
        rw [if_pos rfl]
        exact Or.inl (List.mem_singleton_self _)
      | cons hc hw =>
        exact Or.inr ⟨_, hc, List.mem_map.mpr ⟨_, ih.mpr ⟨_, rfl, Nat.le_of_succ_le_succ hl, hw⟩, rfl⟩⟩

/-- A graph of a list of edges; the nodes are listed in an order that the edges keep. -/
def ofEdges (nodes : List V) (edges : List (V × V)) (hnodup : nodes.Nodup)
    (hclosed : ∀ e ∈ edges, e.1 ∈ nodes ∧ e.2 ∈ nodes)
    (horder : ∀ e ∈ edges, nodes.idxOf e.1 < nodes.idxOf e.2) : Dag V where
  nodes
  succ a := (edges.filter fun e => e.1 = a).map Prod.snd
  nodup := hnodup
  closed := by
    intro a b hb
    obtain ⟨e, he, rfl⟩ := List.mem_map.mp hb
    obtain ⟨he, ha⟩ := List.mem_filter.mp he
    exact of_decide_eq_true ha ▸ hclosed e he
  acyclic := by
    refine acyclic_of_rank (fun a => nodes.idxOf a) fun a b hb => ?_
    obtain ⟨e, he, rfl⟩ := List.mem_map.mp hb
    obtain ⟨he, ha⟩ := List.mem_filter.mp he
    exact of_decide_eq_true ha ▸ horder e he

theorem mem_succ_ofEdges {nodes : List V} {edges : List (V × V)} {hnodup hclosed horder} :
    b ∈ (ofEdges nodes edges hnodup hclosed horder).succ a ↔ (a, b) ∈ edges := by
  change b ∈ (edges.filter fun e => e.1 = a).map Prod.snd ↔ _
  rw [List.mem_map]
  constructor
  · rintro ⟨⟨x, y⟩, hmem, rfl⟩
    obtain ⟨he, ha⟩ := List.mem_filter.mp hmem
    exact of_decide_eq_true ha ▸ he
  · exact fun he => ⟨(a, b), List.mem_filter.mpr ⟨he, decide_eq_true rfl⟩, rfl⟩

variable (G) in
/-- Every finite acyclic graph has its path functions. -/
def pathFunctions : PathFunctions G where
  pathLengths a := G.nodes.filterMap fun b => if a = b then none else (G.distance a b).map (b, ·)
  simplePaths := G.paths G.nodes.length
  mem_pathLengths := by
    intro a b n ha
    rw [List.mem_filterMap]
    constructor
    · rintro ⟨c, -, hc⟩
      split at hc
      case isTrue => cases hc
      case isFalse hne =>
        obtain ⟨m, hm, heq⟩ := Option.map_eq_some_iff.mp hc
        obtain ⟨rfl, rfl⟩ := Prod.mk.inj heq
        exact ⟨hne, (distance_eq_some ha).mp hm⟩
    · rintro ⟨hne, hn⟩
      obtain ⟨l, hl, hw⟩ := hn.1
      have hlast : b ∈ l := by
        cases hw with
        | nil => exact absurd rfl hne
        | cons hr hrest => exact List.mem_of_getLast? hrest.getLast?
      refine ⟨b, subset_of_walk hw hlast, ?_⟩
      rw [if_neg hne, (distance_eq_some ha).mpr hn]
      rfl
  mem_simplePaths := by
    intro a b p ha _
    rw [mem_paths]
    constructor
    · rintro ⟨l, rfl, -, hw⟩
      exact ⟨l, rfl, nodup_of_walk hw, hw⟩
    · rintro ⟨l, rfl, -, hw⟩
      exact ⟨l, rfl, (length_lt_of_walk hw ha).le, hw⟩

end Dag

end Lib
