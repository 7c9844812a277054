/-
# Nodes and a lossy wire

A system of nodes, each a machine that reacts to an event by a new state and some packets.
The wire keeps every packet that was ever sent: a packet may arrive any number of times, in
any order, or never.  Which events the wire admits at a node is a parameter; the rest is
general.  A step changes one node, and the wire only grows; so a property of single nodes that
their reactions keep is an invariant of the system.

* `always_node`: a property of one node that its reactions keep holds all along a run;
* `node_of_run`: so it holds where the run ends.
-/
import Mathlib.Logic.Function.Basic
import Hedra.Lib.Machine

namespace Lib

open Machine

variable {ι ν ε π : Type*} [DecidableEq ι]

/-- The nodes of a system, and what is on the wire. -/
structure Net (ι ν π : Type*) where
  nodes : ι → ν
  wire : List π

namespace Net

variable (react : ν → ε → Option (ν × List π)) (admits : List π → ι → ε → Bool)

/-- Node `i` reacts to an event that the wire admits. -/
def step (s : Net ι ν π) (e : ι × ε) : Option (Net ι ν π) :=
  if admits s.wire e.1 e.2 then
    (react (s.nodes e.1) e.2).map fun r =>
      ⟨Function.update s.nodes e.1 r.1, s.wire ++ r.2⟩
  else none

variable {react admits}

theorem step_eq_some {s s' : Net ι ν π} {i : ι} {ev : ε} :
    step react admits s (i, ev) = some s' ↔
      admits s.wire i ev ∧ ∃ c out, react (s.nodes i) ev = some (c, out) ∧
        s' = ⟨Function.update s.nodes i c, s.wire ++ out⟩ := by
  unfold step
  by_cases h : admits s.wire i ev = true
  · simp only [h, if_true, Option.map_eq_some_iff, Prod.exists, true_and]
    exact ⟨fun ⟨c, out, hr, hs⟩ => ⟨c, out, hr, hs.symm⟩, fun ⟨c, out, hr, hs⟩ => ⟨c, out, hr, hs.symm⟩⟩
  · simp [h]

/-- A step is a reaction of one node, and all others stand still. -/
theorem nodes_step {s s' : Net ι ν π} {i : ι} {ev : ε}
    (h : step react admits s (i, ev) = some s') :
    (∃ out, react (s.nodes i) ev = some (s'.nodes i, out) ∧ s'.wire = s.wire ++ out) ∧
      ∀ j, j ≠ i → s'.nodes j = s.nodes j := by
  obtain ⟨-, c, out, hr, rfl⟩ := step_eq_some.mp h
  refine ⟨⟨out, ?_, rfl⟩, fun j hj => Function.update_of_ne hj c s.nodes⟩
  rw [hr]
  change _ = some (Function.update s.nodes i c i, out)
  rw [Function.update_self]

/-- **A property of one node that its reactions keep** holds all along a run, when the steps of
that node satisfy `P`. -/
theorem always_node {I : ν → Prop} {P : Net ι ν π → ι × ε → Net ι ν π → Prop} {i : ι}
    (hreact : ∀ s ev s' out, I (s.nodes i) → react (s.nodes i) ev = some (s'.nodes i, out) →
      P s (i, ev) s' → I (s'.nodes i))
    {s : Net ι ν π} {es : List (ι × ε)} (hI : I (s.nodes i))
    (hP : Along (step react admits) P s es) :
    Always (step react admits) (fun s => I (s.nodes i)) s es := by
  refine hP.always (fun s e s' hI hs hPs => ?_) hI
  obtain ⟨j, ev⟩ := e
  obtain ⟨⟨out, hr, -⟩, hframe⟩ := nodes_step hs
  by_cases hij : i = j
  · subst hij
    exact hreact s ev s' out hI hr hPs
  · rw [hframe i hij]
    exact hI

/-- The same for the state a run ends in, when the events of that node satisfy `Q`. -/
theorem node_of_run {I : ν → Prop} {Q : ε → Prop} {i : ι}
    (hreact : ∀ c ev c' out, I c → Q ev → react c ev = some (c', out) → I c')
    {es : List (ι × ε)} {s s' : Net ι ν π} (hQ : ∀ ev, (i, ev) ∈ es → Q ev) (hI : I (s.nodes i))
    (h : run (step react admits) s es = some s') : I (s'.nodes i) := by
  have halong : Along (step react admits) (fun _ e _ => e.1 = i → Q e.2) s es := by
    refine Along.of_forall_mem fun e he _ _ hei => ?_
    obtain ⟨j, ev⟩ := e
    exact hQ ev ((show j = i from hei) ▸ he)
  exact (always_node (fun s ev s' out hI hr hq => hreact _ ev _ out hI (hq rfl) hr) hI halong).last h

end Net

end Lib
