/-
# Topological generations

The depth of a node is the length of a longest walk to it.  The nodes of an acyclic graph are
stratified by their depths, so that each generation comes after those that its edges come from.

`GenerationFunction` is what a program may ask of a library of graph algorithms.  Every finite graph
has its generations exactly where it is acyclic, `DiGraph.generationFunction`.

A node that is put before the first generation, or after the last one, is a generation of its own.

* `lt_of_edge`: edges lead forwards;
* `addSource`: a source before the first generation, and `addSink` a sink after the last, is a
  generation.
-/
import Hedra.Lib.Dag
import Mathlib.Data.List.Forall2
import Mathlib.Data.List.GetD
import Mathlib.Data.List.Perm.Basic
import Mathlib.Data.Nat.Find

namespace Lib

variable {V : Type*}

/-! ## 1. Depths -/

/-- The length of a longest walk to a node. -/
def Depth (r : V → V → Prop) (v : V) (n : ℕ) : Prop :=
  IsGreatest {n | ∃ a l, l.length = n ∧ Walk r a l v} n

section Depth

variable {r r' : V → V → Prop} {P : V → Prop} {a b s t v : V} {l : List V} {m n : ℕ}

theorem Walk.mono (hr : ∀ a b, r a b → r' a b) (h : Walk r a l b) : Walk r' a l b := by
  induction h with
  | nil a => exact .nil a
  | cons hab _ ih => exact .cons (hr _ _ hab) ih

/-- The last step of a walk. -/
theorem Walk.exists_last (h : Walk r a l b) (hl : l ≠ []) :
    ∃ u l', l = l' ++ [b] ∧ Walk r a l' u ∧ r u b := by
  induction h with
  | nil => exact absurd rfl hl
  | @cons a w b l hr hrest ih =>
    cases l with
    | nil =>
      obtain rfl := Walk.nil_iff.mp hrest
      exact ⟨a, [], rfl, .nil a, hr⟩
    | cons x l =>
      obtain ⟨u, l', hl', hw, hu⟩ := ih (List.cons_ne_nil x l)
      exact ⟨u, w :: l', by rw [hl', List.cons_append], .cons hr hw, hu⟩

theorem Depth.unique (h : Depth r v m) (h' : Depth r v n) : m = n := IsGreatest.unique h h'

theorem Depth.length_le (h : Depth r v n) (hw : Walk r a l v) : l.length ≤ n := h.2 ⟨a, l, rfl, hw⟩

theorem Depth.lt_of_edge (ha : Depth r a m) (hb : Depth r b n) (hr : r a b) : m < n := by
  obtain ⟨u, l, rfl, hw⟩ := ha.1
  have hle := hb.length_le (hw.append (.single hr))
  rw [List.length_append, List.length_singleton] at hle
  exact hle

/-- A longest walk starts where no edge leads to. -/
theorem Depth.exists_walk (h : Depth r v n) : ∃ a l, l.length = n ∧ Walk r a l v ∧ ∀ u, ¬ r u a := by
  obtain ⟨a, l, hl, hw⟩ := h.1
  refine ⟨a, l, hl, hw, fun u hu => ?_⟩
  have hle := h.length_le (Walk.cons hu hw)
  rw [List.length_cons, hl] at hle
  exact Nat.not_succ_le_self n hle

/-- Where the walks to a node are bounded, it has a depth. -/
theorem exists_depth (h : ∀ a l, Walk r a l v → l.length ≤ n) : ∃ m ≤ n, Depth r v m := by
  classical
  have hzero : ∃ a l, l.length = 0 ∧ Walk r a l v := ⟨v, [], rfl, .nil v⟩
  have hspec := Nat.findGreatest_spec (P := fun m => ∃ a l, l.length = m ∧ Walk r a l v)
    (Nat.zero_le n) hzero
  refine ⟨_, Nat.findGreatest_le n, hspec, ?_⟩
  rintro m ⟨a, l, rfl, hw⟩
  exact Nat.le_findGreatest (h a l hw) ⟨a, l, rfl, hw⟩

theorem Depth.exists_of_edge (h : Depth r b n) (hr : r a b) : ∃ m < n, Depth r a m := by
  have hbound : ∀ u l, Walk r u l a → l.length + 1 ≤ n := by
    intro u l hw
    have hle := h.length_le (hw.append (.single hr))
    rwa [List.length_append, List.length_singleton] at hle
  have hpos : 0 < n := (Nat.zero_le 0).trans_lt (hbound a [] (.nil a))
  obtain ⟨m, hm, hdepth⟩ := exists_depth (n := n - 1) fun u l hw => Nat.le_sub_of_add_le (hbound u l hw)
  exact ⟨m, by omega, hdepth⟩

/-- A node is below a bound where those before it are. -/
theorem exists_depth_le (h : ∀ u, r u v → ∃ m < n, Depth r u m) : ∃ m ≤ n, Depth r v m := by
  refine exists_depth fun a l hw => ?_
  rcases eq_or_ne l [] with rfl | hl
  · exact Nat.zero_le n
  · obtain ⟨u, l', rfl, hw', hu⟩ := hw.exists_last hl
    obtain ⟨m, hm, hdepth⟩ := h u hu
    have hle := hdepth.length_le hw'
    rw [List.length_append, List.length_singleton]
    omega

/-- No cycle leads to a node that has a depth. -/
theorem Depth.not_transGen (h : Depth r v n) : ¬ Relation.TransGen r v v := by
  intro hcycle
  obtain ⟨l, hl, hw⟩ := Walk.exists_of_transGen hcycle
  obtain ⟨a, l', hl', hw'⟩ := h.1
  have hle := h.length_le (hw'.append hw)
  have hpos := List.length_pos_iff.mpr hl
  rw [List.length_append] at hle
  omega

/-! A node `t` that edges lead to, and none leave. -/

theorem walk_sink (hr' : ∀ a b, r' a b ↔ r a b ∨ (P a ∧ b = t)) (ht : ∀ b, ¬ r t b) (hv : v ≠ t) :
    Walk r' a l v ↔ Walk r a l v := by
  constructor
  · intro h
    induction h with
    | nil a => exact .nil a
    | @cons a w v l hr hrest ih =>
      have hw := ih hv
      rcases (hr' a w).mp hr with hr | ⟨-, rfl⟩
      · exact .cons hr hw
      · cases hw with
        | nil => exact absurd rfl hv
        | cons hr _ => exact absurd hr (ht _)
  · exact Walk.mono fun a b hr => (hr' a b).mpr (Or.inl hr)

theorem depth_sink (hr' : ∀ a b, r' a b ↔ r a b ∨ (P a ∧ b = t)) (ht : ∀ b, ¬ r t b) (hv : v ≠ t) :
    Depth r' v n ↔ Depth r v n := by
  have hset : {n | ∃ a l, l.length = n ∧ Walk r' a l v} = {n | ∃ a l, l.length = n ∧ Walk r a l v} := by
    simp only [walk_sink hr' ht hv]
  rw [Depth, hset, Depth]

theorem depth_sink_self (hr' : ∀ a b, r' a b ↔ r a b ∨ (P a ∧ b = t)) (ht : ∀ b, ¬ r t b)
    (ht' : ∀ a, ¬ r a t) (hP : ∀ a, P a → a ≠ t ∧ Depth r a n) (hne : ∃ a, P a) :
    Depth r' t (n + 1) := by
  constructor
  · obtain ⟨a, ha⟩ := hne
    obtain ⟨hat, ⟨u, l, hl, hw⟩, -⟩ := hP a ha
    refine ⟨u, l ++ [t], by rw [List.length_append, hl, List.length_singleton], ?_⟩
    exact ((walk_sink hr' ht hat).mpr hw).append (.single ((hr' a t).mpr (Or.inr ⟨ha, rfl⟩)))
  · rintro m ⟨u, l, rfl, hw⟩
    rcases eq_or_ne l [] with rfl | hl
    · exact Nat.zero_le _
    · obtain ⟨a, l', rfl, hw', hat⟩ := hw.exists_last hl
      rw [List.length_append, List.length_singleton]
      rcases (hr' a t).mp hat with hr | ⟨ha, -⟩
      · exact absurd hr (ht' a)
      · obtain ⟨hat, hdepth⟩ := hP a ha
        exact Nat.succ_le_succ (hdepth.length_le ((walk_sink hr' ht hat).mp hw'))

/-- What leads to the sink are the nodes that lead to one of those before it. -/
theorem exists_walk_sink_iff (hr' : ∀ a b, r' a b ↔ r a b ∨ (P a ∧ b = t)) (ht : ∀ b, ¬ r t b)
    (ht' : ∀ a, ¬ r a t) (hP : ¬ P t) (ha : a ≠ t) :
    (∃ l, Walk r' a l t) ↔ ∃ c, P c ∧ ∃ l, Walk r a l c := by
  constructor
  · rintro ⟨l, hw⟩
    rcases eq_or_ne l [] with rfl | hl
    · exact absurd (Walk.nil_iff.mp hw) ha
    · obtain ⟨c, l', rfl, hw', hct⟩ := hw.exists_last hl
      rcases (hr' c t).mp hct with hr | ⟨hc, -⟩
      · exact absurd hr (ht' c)
      · have hct : c ≠ t := fun heq => hP (heq ▸ hc)
        exact ⟨c, hc, l', (walk_sink hr' ht hct).mp hw'⟩
  · rintro ⟨c, hc, l, hw⟩
    have hw' : Walk r' a l c := hw.mono fun x y hr => (hr' x y).mpr (Or.inl hr)
    exact ⟨l ++ [t], hw'.append (.single ((hr' c t).mpr (Or.inr ⟨hc, rfl⟩)))⟩

/-! A node `s` that leads to all nodes of a graph that no edge leads to. -/

theorem walk_source (hr' : ∀ a b, r' a b ↔ r a b ∨ (a = s ∧ P b)) (hs : ∀ a, ¬ r a s) (hP : ¬ P s)
    (ha : a ≠ s) : Walk r' a l v ↔ Walk r a l v := by
  constructor
  · intro h
    induction h with
    | nil a => exact .nil a
    | @cons a w v l hr _ ih =>
      rcases (hr' a w).mp hr with hr | ⟨rfl, -⟩
      · refine .cons hr (ih ?_)
        rintro rfl
        exact hs a hr
      · exact absurd rfl ha
  · exact Walk.mono fun a b hr => (hr' a b).mpr (Or.inl hr)

theorem depth_source_self (hr' : ∀ a b, r' a b ↔ r a b ∨ (a = s ∧ P b)) (hs : ∀ a, ¬ r a s)
    (hP : ¬ P s) : Depth r' s 0 := by
  refine ⟨⟨s, [], rfl, .nil s⟩, ?_⟩
  rintro m ⟨u, l, rfl, hw⟩
  rcases eq_or_ne l [] with rfl | hl
  · exact le_rfl
  · obtain ⟨a, -, -, -, hr⟩ := hw.exists_last hl
    rcases (hr' a s).mp hr with hr | ⟨-, hPs⟩
    · exact absurd hr (hs a)
    · exact absurd hPs hP

theorem depth_source (hr' : ∀ a b, r' a b ↔ r a b ∨ (a = s ∧ P b)) (hs : ∀ a, ¬ r a s)
    (hs' : ∀ b, ¬ r s b) (hP : ¬ P s) (hroot : ∀ a l, Walk r a l v → (∀ u, ¬ r u a) → P a)
    (hv : v ≠ s) (h : Depth r v n) : Depth r' v (n + 1) := by
  constructor
  · obtain ⟨a, l, hl, hw, ha⟩ := h.exists_walk
    refine ⟨s, a :: l, by rw [List.length_cons, hl], ?_⟩
    refine .cons ((hr' s a).mpr (Or.inr ⟨rfl, hroot a l hw ha⟩)) ?_
    exact hw.mono fun a b hr => (hr' a b).mpr (Or.inl hr)
  · rintro m ⟨u, l, rfl, hw⟩
    rcases eq_or_ne u s with rfl | hu
    · cases hw with
      | nil => exact absurd rfl hv
      | @cons _ w _ l hr hrest =>
        rcases (hr' u w).mp hr with hr | ⟨-, hPw⟩
        · exact absurd hr (hs' w)
        · have hw : w ≠ u := by
            rintro rfl
            exact hP hPw
          exact Nat.succ_le_succ (h.length_le ((walk_source hr' hs hP hw).mp hrest))
    · exact (h.length_le ((walk_source hr' hs hP hu).mp hw)).trans (Nat.le_succ n)

end Depth

/-! ## 2. Graphs of nodes and edges -/

section AppendNew

variable [DecidableEq V] {l : List V} {a b : V}

/-- A list with an element at its end, unless it is there. -/
def appendNew (l : List V) (a : V) : List V := if a ∈ l then l else l ++ [a]

@[simp] theorem mem_appendNew : b ∈ appendNew l a ↔ b ∈ l ∨ b = a := by
  unfold appendNew
  split
  case isTrue h =>
    constructor
    · exact Or.inl
    · rintro (hb | rfl)
      · exact hb
      · exact h
  case isFalse => simp

theorem nodup_appendNew (h : l.Nodup) : (appendNew l a).Nodup := by
  unfold appendNew
  split
  case isTrue => exact h
  case isFalse ha =>
    refine List.nodup_append.mpr ⟨h, List.nodup_singleton a, ?_⟩
    rintro x hx y hy rfl
    exact ha (List.mem_singleton.mp hy ▸ hx)

end AppendNew

/-- A graph as a list of nodes and one of edges. -/
structure DiGraph (V : Type*) where
  nodes : List V
  edges : List (V × V)
  nodup : nodes.Nodup
  nodup_edges : edges.Nodup
  closed : ∀ e ∈ edges, e.1 ∈ nodes ∧ e.2 ∈ nodes

namespace DiGraph

variable (G : DiGraph V)

def Edge (a b : V) : Prop := (a, b) ∈ G.edges

def Acyclic : Prop := ∀ a, ¬ Relation.TransGen G.Edge a a

/-- The graph without nodes. -/
def empty : DiGraph V := ⟨[], [], List.nodup_nil, List.nodup_nil, List.forall_mem_nil _⟩

variable [DecidableEq V]

theorem closed_addNode (v : V) : ∀ e ∈ G.edges, e.1 ∈ appendNew G.nodes v ∧ e.2 ∈ appendNew G.nodes v :=
  fun e he => ⟨mem_appendNew.mpr (Or.inl (G.closed e he).1), mem_appendNew.mpr (Or.inl (G.closed e he).2)⟩

/-- `add_node` -/
def addNode (v : V) : DiGraph V where
  nodes := appendNew G.nodes v
  edges := G.edges
  nodup := nodup_appendNew G.nodup
  nodup_edges := G.nodup_edges
  closed := G.closed_addNode v

theorem closed_addEdge (e : V × V) : ∀ x ∈ appendNew G.edges e,
    x.1 ∈ appendNew (appendNew G.nodes e.1) e.2 ∧ x.2 ∈ appendNew (appendNew G.nodes e.1) e.2 := by
  intro x hx
  rcases mem_appendNew.mp hx with hx | rfl
  · obtain ⟨h₁, h₂⟩ := G.closed x hx
    simp [h₁, h₂]
  · simp

/-- `add_edge`; the nodes that it joins are added where they are not there. -/
def addEdge (e : V × V) : DiGraph V where
  nodes := appendNew (appendNew G.nodes e.1) e.2
  edges := appendNew G.edges e
  nodup := nodup_appendNew (nodup_appendNew G.nodup)
  nodup_edges := nodup_appendNew G.nodup_edges
  closed := G.closed_addEdge e

/-- `neighbors`: the nodes that the edges of a node lead to, in the order of the edges. -/
def neighbors (a : V) : List V := (G.edges.filter fun e => e.1 = a).map Prod.snd

/-- `isolates`: the nodes without edges. -/
def isolates : List V := G.nodes.filter fun v => G.edges.all fun e => e.1 ≠ v && e.2 ≠ v

variable {G} {a b v : V} {e : V × V}

@[simp] theorem mem_neighbors : b ∈ G.neighbors a ↔ G.Edge a b := by
  rw [neighbors, List.mem_map]
  constructor
  · rintro ⟨⟨x, y⟩, he, rfl⟩
    obtain ⟨he, hx⟩ := List.mem_filter.mp he
    exact of_decide_eq_true hx ▸ he
  · intro h
    exact ⟨(a, b), List.mem_filter.mpr ⟨h, decide_eq_true rfl⟩, rfl⟩

theorem mem_isolates : v ∈ G.isolates ↔ v ∈ G.nodes ∧ ∀ u, ¬ G.Edge v u ∧ ¬ G.Edge u v := by
  simp only [isolates, List.mem_filter, List.all_eq_true, Bool.and_eq_true, decide_eq_true_eq, Edge]
  refine and_congr_right fun _ => ?_
  constructor
  · intro h u
    exact ⟨fun he => (h _ he).1 rfl, fun he => (h _ he).2 rfl⟩
  · rintro h ⟨x, y⟩ he
    constructor
    · rintro rfl
      exact (h y).1 he
    · rintro rfl
      exact (h x).2 he

theorem mem_nodes_addNode : b ∈ (G.addNode v).nodes ↔ b ∈ G.nodes ∨ b = v := mem_appendNew

theorem edge_addNode : (G.addNode v).Edge a b ↔ G.Edge a b := Iff.rfl

theorem mem_nodes_foldl_addNode {l : List V} :
    v ∈ (l.foldl (fun G v => G.addNode v) G).nodes ↔ v ∈ G.nodes ∨ v ∈ l := by
  induction l generalizing G with
  | nil => simp
  | cons u l ih => rw [List.foldl_cons, ih, mem_nodes_addNode, List.mem_cons, or_assoc]

theorem edge_foldl_addNode {l : List V} :
    (l.foldl (fun G v => G.addNode v) G).Edge a b ↔ G.Edge a b := by
  induction l generalizing G with
  | nil => rfl
  | cons u l ih => rw [List.foldl_cons, ih, edge_addNode]

theorem edge_addEdge : (G.addEdge e).Edge a b ↔ G.Edge a b ∨ (a, b) = e := mem_appendNew

theorem edge_foldl_addEdge {es : List (V × V)} :
    (es.foldl (fun G e => G.addEdge e) G).Edge a b ↔ G.Edge a b ∨ (a, b) ∈ es := by
  induction es generalizing G with
  | nil => simp
  | cons e es ih => rw [List.foldl_cons, ih, edge_addEdge, List.mem_cons, or_assoc]

theorem subset_nodes_foldl_addEdge {es : List (V × V)} (hv : v ∈ G.nodes) :
    v ∈ (es.foldl (fun G e => G.addEdge e) G).nodes := by
  induction es generalizing G with
  | nil => exact hv
  | cons e es ih => exact ih (mem_appendNew.mpr (Or.inl (mem_appendNew.mpr (Or.inl hv))))

theorem mem_nodes_foldl_addEdge {es : List (V × V)} (hes : ∀ e ∈ es, e.1 ∈ G.nodes ∧ e.2 ∈ G.nodes) :
    v ∈ (es.foldl (fun G e => G.addEdge e) G).nodes ↔ v ∈ G.nodes := by
  induction es generalizing G with
  | nil => rfl
  | cons e es ih =>
    have hmem : ∀ v, v ∈ (G.addEdge e).nodes ↔ v ∈ G.nodes := by
      intro v
      obtain ⟨h₁, h₂⟩ := hes e List.mem_cons_self
      change v ∈ appendNew (appendNew G.nodes e.1) e.2 ↔ _
      rw [mem_appendNew, mem_appendNew]
      constructor
      · rintro ((hv | rfl) | rfl)
        exacts [hv, h₁, h₂]
      · exact fun hv => Or.inl (Or.inl hv)
    rw [List.foldl_cons, ih, hmem]
    intro e' he'
    rw [hmem, hmem]
    exact hes e' (List.mem_cons_of_mem e he')

theorem closed_toDag : ∀ a b, b ∈ G.neighbors a → a ∈ G.nodes ∧ b ∈ G.nodes :=
  fun _ _ h => G.closed _ (mem_neighbors.mp h)

theorem acyclic_toDag (h : G.Acyclic) : ∀ a, ¬ Relation.TransGen (fun a b => b ∈ G.neighbors a) a a := by
  simp only [mem_neighbors]
  exact h

variable (G) in
def toDag (h : G.Acyclic) : Dag V where
  nodes := G.nodes
  succ := G.neighbors
  nodup := G.nodup
  closed := closed_toDag
  acyclic := acyclic_toDag h

theorem edge_toDag (h : G.Acyclic) : (G.toDag h).Edge = G.Edge := by
  funext a b
  exact propext mem_neighbors

omit [DecidableEq V] in
/-- In an acyclic graph every node has a depth. -/
theorem Acyclic.exists_depth (h : G.Acyclic) (v : V) : ∃ n, Depth G.Edge v n := by
  classical
  obtain ⟨n, -, hn⟩ := Lib.exists_depth (r := G.Edge) (v := v) (n := G.nodes.length) fun a l hw => by
    rcases eq_or_ne l [] with rfl | hl
    · exact Nat.zero_le _
    · rw [← edge_toDag h] at hw
      exact (Dag.length_lt_of_walk hw (Dag.mem_of_start hw hl)).le
  exact ⟨n, hn⟩

end DiGraph

/-! ## 3. Generations -/

/-- Lists of generations that differ in the order in each of them only. -/
def SameGenerations (gens gens' : List (List V)) : Prop := List.Forall₂ List.Perm gens gens'

namespace SameGenerations

variable {gens gens' gens'' : List (List V)} {v : V}

theorem refl (gens : List (List V)) : SameGenerations gens gens := List.forall₂_same.mpr fun g _ => .refl g

theorem trans (h : SameGenerations gens gens') (h' : SameGenerations gens' gens'') :
    SameGenerations gens gens'' := by
  induction h generalizing gens'' with
  | nil => exact h'
  | cons hg _ ih =>
    obtain ⟨g, l, hg', hrest, rfl⟩ := List.forall₂_cons_left_iff.mp h'
    exact .cons (hg.trans hg') (ih hrest)

/-- What does not depend on the order of a generation holds of both. -/
theorem forall_iff {P : List V → Prop} (hP : ∀ g g', g.Perm g' → (P g ↔ P g'))
    (h : SameGenerations gens gens') : (∀ g ∈ gens, P g) ↔ ∀ g ∈ gens', P g := by
  induction h with
  | nil => exact Iff.rfl
  | cons hperm _ ih => rw [List.forall_mem_cons, List.forall_mem_cons, hP _ _ hperm, ih]

theorem append_right (h : SameGenerations gens gens') (l : List (List V)) :
    SameGenerations (gens ++ l) (gens' ++ l) := List.rel_append h (refl l)

theorem getLast?_eq (h : SameGenerations gens (gens' ++ [[v]])) : gens.getLast? = some [v] := by
  have hrev := List.forall₂_reverse_iff.mpr h
  rw [List.reverse_append, List.reverse_singleton, List.singleton_append] at hrev
  obtain ⟨g, l, hg, -, hl⟩ := List.forall₂_cons_right_iff.mp hrev
  rw [List.getLast?_eq_head?_reverse, hl, List.head?_cons, List.perm_singleton.mp hg]

theorem getLast? (h : SameGenerations gens gens') {g : List V} (hg : gens'.getLast? = some g) :
    ∃ g', gens.getLast? = some g' ∧ g'.Perm g := by
  have hrev := List.forall₂_reverse_iff.mpr h
  rw [List.getLast?_eq_head?_reverse] at hg ⊢
  obtain ⟨l, hl⟩ := List.head?_eq_some_iff.mp hg
  rw [hl] at hrev
  obtain ⟨g', l', hg', -, hl'⟩ := List.forall₂_cons_right_iff.mp hrev
  exact ⟨g', by rw [hl', List.head?_cons], hg'⟩

end SameGenerations

/-- The nodes of a graph, stratified by their depths. -/
structure Generations (G : DiGraph V) (gens : List (List V)) : Prop where
  mem_iff : ∀ i v, v ∈ gens.getD i [] ↔ v ∈ G.nodes ∧ Depth G.Edge v i
  cover : ∀ v ∈ G.nodes, ∃ i, v ∈ gens.getD i []
  nodup : ∀ g ∈ gens, g.Nodup
  nonempty : ∀ g ∈ gens, g ≠ []

namespace Generations

variable {G G' : DiGraph V} {gens gens' : List (List V)} {a b s t v : V} {i j : ℕ}

theorem lt_length_of_mem (h : v ∈ gens.getD i []) : i < gens.length := by
  by_contra hi
  rw [List.getD_eq_default _ _ (not_lt.mp hi)] at h
  cases h

theorem acyclic (h : Generations G gens) : G.Acyclic := by
  intro a hcycle
  have ha : a ∈ G.nodes := by
    obtain ⟨b, hab, -⟩ := (Relation.TransGen.head'_iff).mp hcycle
    exact (G.closed _ hab).1
  obtain ⟨i, hi⟩ := h.cover a ha
  exact ((h.mem_iff i a).mp hi).2.not_transGen hcycle

theorem unique_index (h : Generations G gens) (hi : v ∈ gens.getD i []) (hj : v ∈ gens.getD j []) :
    i = j :=
  ((h.mem_iff i v).mp hi).2.unique ((h.mem_iff j v).mp hj).2

theorem mem_flatten (h : Generations G gens) : v ∈ gens.flatten ↔ v ∈ G.nodes := by
  rw [List.mem_flatten]
  constructor
  · rintro ⟨g, hg, hv⟩
    obtain ⟨i, hi, rfl⟩ := List.getElem_of_mem hg
    exact ((h.mem_iff i v).mp (by rwa [List.getD_eq_getElem _ _ hi])).1
  · intro hv
    obtain ⟨i, hi⟩ := h.cover v hv
    have hlt := lt_length_of_mem hi
    rw [List.getD_eq_getElem _ _ hlt] at hi
    exact ⟨_, List.getElem_mem hlt, hi⟩

/-- Each node is in one generation only, and there once. -/
theorem nodup_flatten (h : Generations G gens) : gens.flatten.Nodup := by
  refine List.nodup_flatten.mpr ⟨h.nodup, List.pairwise_iff_getElem.mpr ?_⟩
  intro i j hi hj hij v hvi hvj
  refine hij.ne (h.unique_index (v := v) ?_ ?_)
  · rwa [List.getD_eq_getElem _ _ hi]
  · rwa [List.getD_eq_getElem _ _ hj]

/-- **Edges lead forwards.** -/
theorem lt_of_edge (h : Generations G gens) (hab : G.Edge a b) (ha : a ∈ gens.getD i [])
    (hb : b ∈ gens.getD j []) : i < j :=
  ((h.mem_iff i a).mp ha).2.lt_of_edge ((h.mem_iff j b).mp hb).2 hab

theorem lt_of_transGen (h : Generations G gens) (hab : Relation.TransGen G.Edge a b)
    (ha : a ∈ gens.getD i []) (hb : b ∈ gens.getD j []) : i < j := by
  induction hab generalizing j with
  | single hr => exact h.lt_of_edge hr ha hb
  | @tail c b _ hr ih =>
    obtain ⟨k, hk⟩ := h.cover c (G.closed _ hr).1
    exact (ih hk).trans (h.lt_of_edge hr hk hb)

/-- The generations of a graph are determined but for the order in each of them. -/
theorem perm (h : Generations G gens) (h' : Generations G gens') : SameGenerations gens gens' := by
  have hle : ∀ {l l' : List (List V)}, Generations G l → Generations G l' → l.length ≤ l'.length := by
    intro l l' hl hl'
    by_contra hlt
    rw [not_le] at hlt
    obtain ⟨v, hv⟩ := List.exists_mem_of_ne_nil _ (hl.nonempty _ (List.getElem_mem hlt))
    have hmem : v ∈ l.getD l'.length [] := by rwa [List.getD_eq_getElem _ _ hlt]
    exact (lt_length_of_mem ((hl'.mem_iff _ v).mpr ((hl.mem_iff _ v).mp hmem))).false
  refine List.forall₂_iff_get.mpr ⟨(hle h h').antisymm (hle h' h), fun i hi hi' => ?_⟩
  refine (List.perm_ext_iff_of_nodup (h.nodup _ (List.get_mem _ _)) (h'.nodup _ (List.get_mem _ _))).mpr
    fun v => ?_
  have hg := h.mem_iff i v
  have hg' := h'.mem_iff i v
  rw [List.getD_eq_getElem _ _ hi] at hg
  rw [List.getD_eq_getElem _ _ hi'] at hg'
  exact hg.trans hg'.symm

/-- The first generation is of the nodes that no edge leads to. -/
theorem mem_head_iff (h : Generations G gens) (hv : v ∈ G.nodes) :
    v ∈ gens.getD 0 [] ↔ ∀ u, ¬ G.Edge u v := by
  rw [h.mem_iff]
  constructor
  · rintro ⟨-, hdepth⟩ u hu
    obtain ⟨m, hm, -⟩ := hdepth.exists_of_edge hu
    exact Nat.not_lt_zero m hm
  · intro hroot
    obtain ⟨m, hm, hdepth⟩ := exists_depth_le (r := G.Edge) (v := v) (n := 0)
      fun u hu => absurd hu (hroot u)
    obtain rfl := Nat.le_zero.mp hm
    exact ⟨hv, hdepth⟩

/-- Each node is reached from the first generation. -/
theorem exists_walk (h : Generations G gens) (hv : v ∈ G.nodes) :
    ∃ a ∈ gens.getD 0 [], ∃ l, Walk G.Edge a l v := by
  obtain ⟨i, hi⟩ := h.cover v hv
  obtain ⟨a, l, -, hw, hroot⟩ := ((h.mem_iff i v).mp hi).2.exists_walk
  refine ⟨a, (h.mem_head_iff ?_).mpr hroot, l, hw⟩
  cases hw with
  | nil => exact hv
  | cons hr _ => exact (G.closed _ hr).1

/-- The last generation is of the nodes of the greatest depth. -/
theorem mem_getLast_iff (h : Generations G gens) (hne : gens ≠ []) :
    v ∈ gens.getLast hne ↔
      v ∈ G.nodes ∧ ∃ n, Depth G.Edge v n ∧ ∀ u ∈ G.nodes, ∀ m, Depth G.Edge u m → m ≤ n := by
  have hpos : 0 < gens.length := List.length_pos_iff.mpr hne
  have hlast : gens.getLast hne = gens.getD (gens.length - 1) [] := by
    rw [List.getLast_eq_getElem, List.getD_eq_getElem]
  constructor
  · intro hv
    rw [hlast, h.mem_iff] at hv
    refine ⟨hv.1, _, hv.2, fun u hu m hm => ?_⟩
    exact Nat.le_sub_one_of_lt (lt_length_of_mem ((h.mem_iff m u).mpr ⟨hu, hm⟩))
  · rintro ⟨hv, n, hn, hmax⟩
    obtain ⟨u, hu⟩ := List.exists_mem_of_ne_nil _ (h.nonempty _ (List.getLast_mem hne))
    rw [hlast, h.mem_iff] at hu
    have hlt := lt_length_of_mem ((h.mem_iff n v).mpr ⟨hv, hn⟩)
    have hle := hmax u hu.1 _ hu.2
    have heq : n = gens.length - 1 := by omega
    rw [hlast, h.mem_iff, ← heq]
    exact ⟨hv, hn⟩

/-- **A source** before the nodes of the first generation is a generation before them. -/
theorem addSource (h : Generations G gens) (hs : s ∉ G.nodes)
    (hnodes : ∀ v, v ∈ G'.nodes ↔ v ∈ G.nodes ∨ v = s)
    (hedge : ∀ a b, G'.Edge a b ↔ G.Edge a b ∨ (a = s ∧ b ∈ gens.getD 0 [])) :
    Generations G' ([s] :: gens) := by
  have hin : ∀ a, ¬ G.Edge a s := fun a hr => hs (G.closed _ hr).2
  have hout : ∀ b, ¬ G.Edge s b := fun b hr => hs (G.closed _ hr).1
  have hhead : s ∉ gens.getD 0 [] := fun hmem => hs ((h.mem_iff 0 s).mp hmem).1
  have hzero : Depth G'.Edge s 0 := depth_source_self hedge hin hhead
  have hdepth : ∀ v ∈ G.nodes, ∀ n, Depth G.Edge v n → Depth G'.Edge v (n + 1) := by
    intro v hv n hn
    refine depth_source hedge hin hout hhead ?_ (fun hvs => hs (hvs ▸ hv)) hn
    intro a l hw ha
    refine (h.mem_head_iff ?_).mpr ha
    cases hw with
    | nil => exact hv
    | cons hr _ => exact (G.closed _ hr).1
  constructor
  · intro i v
    cases i with
    | zero =>
      rw [List.getD_cons_zero, List.mem_singleton]
      constructor
      · rintro rfl
        exact ⟨(hnodes v).mpr (Or.inr rfl), hzero⟩
      · rintro ⟨hv, hv0⟩
        refine ((hnodes v).mp hv).resolve_left fun hv => ?_
        obtain ⟨n, hn⟩ := h.acyclic.exists_depth v
        exact Nat.succ_ne_zero n ((hdepth v hv n hn).unique hv0)
    | succ i =>
      rw [List.getD_cons_succ, h.mem_iff]
      constructor
      · rintro ⟨hv, hvi⟩
        exact ⟨(hnodes v).mpr (Or.inl hv), hdepth v hv i hvi⟩
      · rintro ⟨hv, hvi⟩
        rcases (hnodes v).mp hv with hv | rfl
        · obtain ⟨n, hn⟩ := h.acyclic.exists_depth v
          obtain rfl := Nat.succ.inj ((hdepth v hv n hn).unique hvi)
          exact ⟨hv, hn⟩
        · exact absurd (hzero.unique hvi) (Nat.succ_ne_zero i).symm
  · intro v hv
    rcases (hnodes v).mp hv with hv | rfl
    · obtain ⟨i, hi⟩ := h.cover v hv
      exact ⟨i + 1, hi⟩
    · exact ⟨0, List.mem_singleton_self v⟩
  · exact List.forall_mem_cons.mpr ⟨List.nodup_singleton s, h.nodup⟩
  · exact List.forall_mem_cons.mpr ⟨List.cons_ne_nil s [], h.nonempty⟩

/-- **A sink** after the nodes of the last generation is a generation after them. -/
theorem addSink (h : Generations G gens) (hne : gens ≠ []) (ht : t ∉ G.nodes)
    (hnodes : ∀ v, v ∈ G'.nodes ↔ v ∈ G.nodes ∨ v = t)
    (hedge : ∀ a b, G'.Edge a b ↔ G.Edge a b ∨ (a ∈ gens.getLast hne ∧ b = t)) :
    Generations G' (gens ++ [[t]]) := by
  have hin : ∀ a, ¬ G.Edge a t := fun a hr => ht (G.closed _ hr).2
  have hout : ∀ b, ¬ G.Edge t b := fun b hr => ht (G.closed _ hr).1
  have hpos : 0 < gens.length := List.length_pos_iff.mpr hne
  have hlast : gens.getLast hne = gens.getD (gens.length - 1) [] := by
    rw [List.getLast_eq_getElem, List.getD_eq_getElem]
  have hself : Depth G'.Edge t gens.length := by
    have hdepth := depth_sink_self (n := gens.length - 1) hedge hout hin ?_ ?_
    · rwa [Nat.sub_add_cancel hpos] at hdepth
    · intro a ha
      rw [hlast, h.mem_iff] at ha
      exact ⟨fun hat => ht (hat ▸ ha.1), ha.2⟩
    · exact List.exists_mem_of_ne_nil _ (h.nonempty _ (List.getLast_mem hne))
  have hother : ∀ {v n}, v ∈ G.nodes → (Depth G'.Edge v n ↔ Depth G.Edge v n) :=
    fun hv => depth_sink hedge hout fun hvt => ht (hvt ▸ hv)
  have hget : ∀ i v, v ∈ (gens ++ [[t]]).getD i [] ↔
      v ∈ gens.getD i [] ∨ (i = gens.length ∧ v = t) := by
    intro i v
    rcases lt_trichotomy i gens.length with hi | rfl | hi
    · rw [List.getD_append _ _ _ _ hi]
      simp [hi.ne]
    · rw [List.getD_append_right _ _ _ _ le_rfl, List.getD_eq_default gens _ le_rfl]
      simp
    · have hle : (gens ++ [[t]]).length ≤ i := by
        rw [List.length_append]
        exact hi
      rw [List.getD_eq_default _ _ hle, List.getD_eq_default gens _ hi.le]
      simp [hi.ne']
  constructor
  · intro i v
    rw [hget, h.mem_iff, hnodes]
    constructor
    · rintro (⟨hv, hvi⟩ | ⟨rfl, rfl⟩)
      · exact ⟨Or.inl hv, (hother hv).mpr hvi⟩
      · exact ⟨Or.inr rfl, hself⟩
    · rintro ⟨hv | rfl, hvi⟩
      · exact Or.inl ⟨hv, (hother hv).mp hvi⟩
      · exact Or.inr ⟨hvi.unique hself, rfl⟩
  · intro v hv
    rcases (hnodes v).mp hv with hv | rfl
    · obtain ⟨i, hi⟩ := h.cover v hv
      exact ⟨i, (hget i v).mpr (Or.inl hi)⟩
    · exact ⟨gens.length, (hget _ v).mpr (Or.inr ⟨rfl, rfl⟩)⟩
  · intro g hg
    rcases List.mem_append.mp hg with hg | hg
    · exact h.nodup g hg
    · rw [List.mem_singleton.mp hg]
      exact List.nodup_singleton t
  · intro g hg
    rcases List.mem_append.mp hg with hg | hg
    · exact h.nonempty g hg
    · rw [List.mem_singleton.mp hg]
      exact List.cons_ne_nil t []

end Generations

/-! ## 4. The generations of a graph -/

/-- What a library of graph algorithms says of a graph: its generations, where it is acyclic. -/
structure GenerationFunction (V : Type*) where
  generations : DiGraph V → Option (List (List V))
  exists_of_acyclic : ∀ {G}, G.Acyclic → ∃ gens, generations G = some gens
  spec : ∀ {G gens}, generations G = some gens → Generations G gens

namespace DiGraph

variable [DecidableEq V] (G : DiGraph V)

/-- The nodes of a list that no edge leads to from one of them. -/
def ready (rest : List V) : List V := rest.filter fun v => rest.all fun u => (u, v) ∉ G.edges

/-- The nodes that are ready are taken from the list, generation by generation. -/
def peel : ℕ → List V → Option (List (List V))
  | 0, rest => if rest = [] then some [] else none
  | n + 1, rest =>
    if rest = [] then some []
    else if G.ready rest = [] then none
    else (peel n (rest.filter (· ∉ G.ready rest))).map (G.ready rest :: ·)

variable {G} {rest : List V} {gens : List (List V)} {u v : V} {i k n : ℕ}

theorem mem_ready : v ∈ G.ready rest ↔ v ∈ rest ∧ ∀ u ∈ rest, ¬ G.Edge u v := by
  rw [ready, List.mem_filter, List.all_eq_true]
  simp only [decide_eq_true_eq, Edge]

/-- In an acyclic graph a node is ready as long as one is left. -/
theorem exists_ready (hG : G.Acyclic) (hv : v ∈ rest) : ∃ u, u ∈ G.ready rest := by
  obtain ⟨n, hn⟩ := hG.exists_depth v
  induction n using Nat.strong_induction_on generalizing v with
  | _ n ih =>
    by_cases hpred : ∃ u ∈ rest, G.Edge u v
    · obtain ⟨u, hu, hedge⟩ := hpred
      obtain ⟨m, hm, hmu⟩ := hn.exists_of_edge hedge
      exact ih m hm hu hmu
    · exact ⟨v, mem_ready.mpr ⟨hv, fun u hu hedge => hpred ⟨u, hu, hedge⟩⟩⟩

/-- What is left when `k` generations are taken. -/
structure Left (G : DiGraph V) (k : ℕ) (rest : List V) : Prop where
  nodup : rest.Nodup
  mem_iff : ∀ v, v ∈ rest ↔ v ∈ G.nodes ∧ ∀ m < k, ¬ Depth G.Edge v m

omit [DecidableEq V] in
theorem left_zero : Left G 0 G.nodes := ⟨G.nodup, fun v => by simp⟩

namespace Left

theorem mem_ready_iff (h : Left G k rest) : v ∈ G.ready rest ↔ v ∈ G.nodes ∧ Depth G.Edge v k := by
  rw [mem_ready]
  constructor
  · rintro ⟨hv, hpred⟩
    obtain ⟨hnode, hdepth⟩ := (h.mem_iff v).mp hv
    -- the nodes before it are taken already
    obtain ⟨m, hm, hmdepth⟩ := exists_depth_le (r := G.Edge) (v := v) (n := k) fun u hu => by
      by_contra hnone
      refine hpred u ((h.mem_iff u).mpr ⟨(G.closed _ hu).1, fun m hm hmu => ?_⟩) hu
      exact hnone ⟨m, hm, hmu⟩
    obtain rfl := hm.eq_of_not_lt fun hlt => hdepth m hlt hmdepth
    exact ⟨hnode, hmdepth⟩
  · rintro ⟨hnode, hdepth⟩
    refine ⟨(h.mem_iff v).mpr ⟨hnode, fun m hm hmv => hm.ne (hmv.unique hdepth)⟩, fun u hu hedge => ?_⟩
    obtain ⟨m, hm, hmu⟩ := hdepth.exists_of_edge hedge
    exact ((h.mem_iff u).mp hu).2 m hm hmu

theorem next (h : Left G k rest) : Left G (k + 1) (rest.filter (· ∉ G.ready rest)) := by
  refine ⟨h.nodup.filter _, fun v => ?_⟩
  rw [List.mem_filter, decide_eq_true_eq, h.mem_ready_iff, h.mem_iff]
  constructor
  · rintro ⟨⟨hnode, hlt⟩, hk⟩
    refine ⟨hnode, fun m hm hmv => ?_⟩
    rcases Nat.lt_succ_iff_lt_or_eq.mp hm with hm | rfl
    · exact hlt m hm hmv
    · exact hk ⟨hnode, hmv⟩
  · rintro ⟨hnode, hlt⟩
    exact ⟨⟨hnode, fun m hm => hlt m (hm.trans (Nat.lt_succ_self k))⟩,
      fun hk => hlt k (Nat.lt_succ_self k) hk.2⟩

omit [DecidableEq V] in
/-- Where none is left, no node is of a later generation. -/
theorem not_depth (h : Left G k []) (hv : v ∈ G.nodes) : ¬ Depth G.Edge v (k + i) := by
  intro hvi
  refine List.not_mem_nil ((h.mem_iff v).mpr ⟨hv, fun m hm hmv => ?_⟩)
  obtain rfl := hmv.unique hvi
  omega

/-- What `peel` takes: the generations from the `k`-th one on. -/
theorem peel_eq_some (h : Left G k rest) (hpeel : G.peel n rest = some gens) :
    (∀ i v, v ∈ gens.getD i [] ↔ v ∈ G.nodes ∧ Depth G.Edge v (k + i)) ∧
      (∀ v ∈ rest, ∃ i, v ∈ gens.getD i []) ∧ ∀ g ∈ gens, g.Nodup ∧ g ≠ [] := by
  induction n generalizing k rest gens with
  | zero =>
    rw [peel] at hpeel
    split at hpeel
    case isFalse => cases hpeel
    case isTrue hrest =>
      obtain rfl := Option.some.inj hpeel
      subst hrest
      refine ⟨fun i v => ⟨fun hv => ?_, fun ⟨hv, hvi⟩ => absurd hvi (h.not_depth hv)⟩,
        List.forall_mem_nil _, List.forall_mem_nil _⟩
      rw [List.getD_nil] at hv
      exact absurd hv List.not_mem_nil
  | succ n ih =>
    rw [peel] at hpeel
    split at hpeel
    case isTrue hrest =>
      obtain rfl := Option.some.inj hpeel
      subst hrest
      refine ⟨fun i v => ⟨fun hv => ?_, fun ⟨hv, hvi⟩ => absurd hvi (h.not_depth hv)⟩,
        List.forall_mem_nil _, List.forall_mem_nil _⟩
      rw [List.getD_nil] at hv
      exact absurd hv List.not_mem_nil
    case isFalse =>
      split at hpeel
      case isTrue => cases hpeel
      case isFalse hready =>
        obtain ⟨gens, hgens, rfl⟩ := Option.map_eq_some_iff.mp hpeel
        obtain ⟨hmem, hcover, hproper⟩ := ih h.next hgens
        refine ⟨fun i v => ?_, fun v hv => ?_, List.forall_mem_cons.mpr
          ⟨⟨h.nodup.filter _, hready⟩, hproper⟩⟩
        · cases i with
          | zero => exact h.mem_ready_iff
          | succ i =>
            rw [List.getD_cons_succ, hmem, Nat.add_right_comm]
            rfl
        · by_cases hvr : v ∈ G.ready rest
          · exact ⟨0, hvr⟩
          · obtain ⟨i, hi⟩ := hcover v (List.mem_filter.mpr ⟨hv, decide_eq_true hvr⟩)
            exact ⟨i + 1, hi⟩

theorem exists_peel (h : Left G k rest) (hG : G.Acyclic) (hn : rest.length ≤ n) :
    ∃ gens, G.peel n rest = some gens := by
  induction n generalizing k rest with
  | zero =>
    obtain rfl := List.length_eq_zero_iff.mp (Nat.le_zero.mp hn)
    exact ⟨[], rfl⟩
  | succ n ih =>
    rw [peel]
    split
    case isTrue => exact ⟨[], rfl⟩
    case isFalse hrest =>
      obtain ⟨v, hv⟩ := List.exists_mem_of_ne_nil rest hrest
      obtain ⟨u, hu⟩ := exists_ready hG hv
      rw [if_neg (List.ne_nil_of_mem hu)]
      -- at least one node is taken
      have hlt : (rest.filter (· ∉ G.ready rest)).length < rest.length :=
        List.length_filter_lt_length_iff_exists.mpr ⟨u, (mem_ready.mp hu).1, by simpa using hu⟩
      obtain ⟨gens, hgens⟩ := ih h.next (Nat.le_of_lt_succ (hlt.trans_le hn))
      exact ⟨_, Option.map_eq_some_iff.mpr ⟨gens, hgens, rfl⟩⟩

end Left

variable (G) in
/-- The generations, as the nodes become ready. -/
def generations : Option (List (List V)) := G.peel G.nodes.length G.nodes

theorem generations_spec (h : G.generations = some gens) : Generations G gens := by
  obtain ⟨hmem, hcover, hproper⟩ := left_zero.peel_eq_some h
  constructor
  · intro i v
    rw [hmem, Nat.zero_add]
  · exact hcover
  · exact fun g hg => (hproper g hg).1
  · exact fun g hg => (hproper g hg).2

theorem exists_generations (h : G.Acyclic) : ∃ gens, G.generations = some gens :=
  left_zero.exists_peel h le_rfl

/-- Every finite acyclic graph has its generations. -/
def generationFunction : GenerationFunction V where
  generations := generations
  exists_of_acyclic := exists_generations
  spec := generations_spec

end DiGraph

end Lib
