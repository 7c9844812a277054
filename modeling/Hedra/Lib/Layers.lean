/-
# Layers of a search

A search from a node finds, layer by layer, the nodes that edges lead to and that it has not found before.

`LayerFunction` is what a program may ask of a library of graph algorithms.  `DiGraph.layerFunction` is one:
as each layer has a node that was not found before, there are at most as many layers as nodes.

* `closed_layersFrom`: what is found is closed under edges, where there are layers enough;
* `mem_layers`: a search finds what is reached.
-/
import Hedra.Lib.Generations

namespace Lib

variable {V : Type*}

open Relation (ReflTransGen)

/-- What a library of graph algorithms says of a graph: the nodes that are reached from one of its nodes. -/
structure LayerFunction (V : Type*) where
  layers : DiGraph V → V → List (List V)
  spec : ∀ {G : DiGraph V} {v : V}, v ∈ G.nodes → ∀ u, u ∈ (layers G v).flatten ↔ ReflTransGen G.Edge v u

theorem mem_foldl_appendNew [DecidableEq V] {l l' : List V} {a : V} :
    a ∈ l'.foldl appendNew l ↔ a ∈ l ∨ a ∈ l' := by
  induction l' generalizing l with
  | nil => simp
  | cons b l' ih => simp [ih, or_assoc]

theorem nodup_foldl_appendNew [DecidableEq V] {l l' : List V} (h : l.Nodup) : (l'.foldl appendNew l).Nodup := by
  induction l' generalizing l with
  | nil => exact h
  | cons b l' ih => exact ih (nodup_appendNew h)

namespace DiGraph

variable [DecidableEq V] (G : DiGraph V)

/-- The nodes next to the layer that have not been visited. -/
def nextLayer (visited layer : List V) : List V :=
  ((layer.flatMap G.neighbors).filter (· ∉ visited)).foldl appendNew []

/-- The layers from this one on. -/
def layersFrom : ℕ → List V → List V → List (List V)
  | 0, _, _ => []
  | n + 1, visited, layer =>
    if layer = [] then []
    else layer :: layersFrom n (visited ++ G.nextLayer visited layer) (G.nextLayer visited layer)

/-- `bfs_layers` -/
def layers (v : V) : List (List V) := G.layersFrom G.nodes.length [v] [v]

variable {G} {visited layer : List V} {u v x y : V} {n : ℕ}

theorem mem_nextLayer : y ∈ G.nextLayer visited layer ↔ (∃ x ∈ layer, G.Edge x y) ∧ y ∉ visited := by
  simp [nextLayer, mem_foldl_appendNew]

theorem nodup_nextLayer (visited layer : List V) : (G.nextLayer visited layer).Nodup :=
  nodup_foldl_appendNew List.nodup_nil

theorem layersFrom_nil (n : ℕ) (visited : List V) : G.layersFrom n visited [] = [] := by
  cases n with
  | zero => rfl
  | succ n => exact if_pos rfl

/-- What is found is reached from what the search has visited. -/
theorem reached_of_mem_layersFrom (h : ∀ x ∈ layer, ReflTransGen G.Edge v x)
    (hy : y ∈ (G.layersFrom n visited layer).flatten) : ReflTransGen G.Edge v y := by
  induction n generalizing visited layer with
  | zero => cases hy
  | succ n ih =>
    unfold layersFrom at hy
    split at hy
    · cases hy
    · rw [List.flatten_cons, List.mem_append] at hy
      rcases hy with hy | hy
      · exact h y hy
      · refine ih (fun z hz => ?_) hy
        obtain ⟨⟨x, hx, hxz⟩, -⟩ := mem_nextLayer.mp hz
        exact (h x hx).tail hxz

theorem mem_layersFrom_of_layer (hn : 0 < n) (hx : x ∈ layer) : x ∈ (G.layersFrom n visited layer).flatten := by
  obtain ⟨n, rfl⟩ := Nat.exists_eq_succ_of_ne_zero hn.ne'
  rw [layersFrom, if_neg (List.ne_nil_of_mem hx), List.flatten_cons]
  exact List.mem_append_left _ hx

/-- **What is found is closed**, where there are layers enough: edges from it lead to what is found, or has been
visited before. -/
theorem closed_layersFrom (hnodup : visited.Nodup) (hnodes : ∀ x ∈ visited, x ∈ G.nodes)
    (hlayer : ∀ x ∈ layer, x ∈ visited) (hold : ∀ x ∈ visited, x ∉ layer → ∀ y, G.Edge x y → y ∈ visited)
    (hn : G.nodes.length < n + visited.length)
    (hx : x ∈ visited ∨ x ∈ (G.layersFrom n visited layer).flatten) (hxy : G.Edge x y) :
    y ∈ visited ∨ y ∈ (G.layersFrom n visited layer).flatten := by
  induction n generalizing visited layer with
  | zero =>
    -- there are no more nodes than the graph has
    have hle := (hnodup.subperm hnodes).length_le
    omega
  | succ n ih =>
    have hnext : ∀ z ∈ layer, ∀ w, G.Edge z w → w ∈ visited ∨ w ∈ G.nextLayer visited layer := by
      intro z hz w hzw
      by_cases hw : w ∈ visited
      · exact Or.inl hw
      · exact Or.inr (mem_nextLayer.mpr ⟨⟨z, hz, hzw⟩, hw⟩)
    have hfound : ∀ z ∈ visited, ∀ w, G.Edge z w → w ∈ visited ++ G.nextLayer visited layer := by
      intro z hz w hzw
      by_cases hmem : z ∈ layer
      · exact List.mem_append.mpr (hnext z hmem w hzw)
      · exact List.mem_append_left _ (hold z hz hmem w hzw)
    unfold layersFrom at hx ⊢
    split at hx
    case isTrue hnil =>
      subst hnil
      exact Or.inl (hold x (hx.resolve_right List.not_mem_nil) List.not_mem_nil y hxy)
    case isFalse hne =>
      rw [if_neg hne, List.flatten_cons]
      rw [List.flatten_cons, List.mem_append] at hx
      rcases eq_or_ne (G.nextLayer visited layer) [] with hnil | hnil
      · rw [hnil, layersFrom_nil, List.flatten_nil] at hx
        have hmem : x ∈ visited := hx.elim id fun h => hlayer x (h.resolve_right List.not_mem_nil)
        have hy := hfound x hmem y hxy
        rw [hnil, List.append_nil] at hy
        exact Or.inl hy
      · have hnodup' : (visited ++ G.nextLayer visited layer).Nodup :=
          List.nodup_append.mpr ⟨hnodup, nodup_nextLayer _ _, fun z hz w hw hzw =>
            (mem_nextLayer.mp hw).2 (hzw ▸ hz)⟩
        have hnodes' : ∀ z ∈ visited ++ G.nextLayer visited layer, z ∈ G.nodes := by
          intro z hz
          rcases List.mem_append.mp hz with hz | hz
          · exact hnodes z hz
          · obtain ⟨⟨w, -, hwz⟩, -⟩ := mem_nextLayer.mp hz
            exact (G.closed _ hwz).2
        have hpos := List.length_pos_iff.mpr hnil
        have hle := (hnodup'.subperm hnodes').length_le
        rw [List.length_append] at hle
        have hrest := ih hnodup' hnodes' (fun z hz => List.mem_append_right _ hz)
          (fun z hz hmem => hfound z ((List.mem_append.mp hz).resolve_right hmem))
          (by rw [List.length_append]; omega)
          (hx.elim (fun h => Or.inl (List.mem_append_left _ h)) fun h => h.imp_left fun h =>
            List.mem_append_left _ (hlayer x h))
        rcases hrest with hy | hy
        · refine (List.mem_append.mp hy).imp_right fun hy => List.mem_append_right _ ?_
          exact mem_layersFrom_of_layer (by omega) hy
        · exact Or.inr (List.mem_append_right _ hy)

/-- **What a search finds is what is reached.** -/
theorem mem_layers (hv : v ∈ G.nodes) (u : V) : u ∈ (G.layers v).flatten ↔ ReflTransGen G.Edge v u := by
  have hpos : 0 < G.nodes.length := List.length_pos_of_mem hv
  have hstart : v ∈ (G.layers v).flatten := mem_layersFrom_of_layer hpos (List.mem_singleton_self v)
  constructor
  · exact reached_of_mem_layersFrom fun x hx => List.mem_singleton.mp hx ▸ .refl
  · intro h
    induction h with
    | refl => exact hstart
    | @tail x y _ hxy ih =>
      have hy := closed_layersFrom (List.nodup_singleton v) (fun z hz => List.mem_singleton.mp hz ▸ hv)
        (fun z hz => hz) (fun z hz hnot => absurd hz hnot) (Nat.lt_succ_self _) (Or.inr ih) hxy
      exact hy.elim (fun hy => List.mem_singleton.mp hy ▸ hstart) id

/-- A search as this one. -/
def layerFunction : LayerFunction V where
  layers := layers
  spec := mem_layers

end DiGraph
end Lib
