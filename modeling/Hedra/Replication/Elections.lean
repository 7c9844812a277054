/-
# Two leaders of one term

A node that runs an election asks nobody (`replication/replication_controller.py`,
`run_election`: `request_vote` is never called).  It selects, among the healthy nodes it knows and
itself, the one with the largest instance id (`_get_max_instance_id`), and is leader if that is
itself.  So nothing but what the nodes know of each other keeps two of them from being leaders of
one term, and two nodes that know nobody both are (`two_leaders`).

What is asked of the views is about the selections for that one term: where each of the two nodes
selects a leader for it, one of them takes the other one to be healthy and of a larger id
(`OneYields`).  Nothing is asked of selections for other terms, and nothing where only one of the
two runs an election for the term; so leadership may be handed over, back and forth.

A term number may moreover be moved under a leader: `receive_log_update` sets the number of a newer
term, and only some awaits later is the node a follower; `_cancel_election` and the end of
`run_election` set it as well.  Then `LEADER` and the term number do not belong together, and two
nodes may have both in common whatever they know of each other (the second half of `two_leaders`).
So `Leads` asks that the term number is the one of the election that made the node leader.

Main result: `one_leader_a_term`.  What carries it is `selected_of_mem_elections`, by induction over
a run: a node that has been elected has selected itself.
-/
import Hedra.Replication.Durability
import Hedra.Replication.Leaders

namespace Hedra

open Lib Lib.Machine

namespace Controller

/-! ## 1. The selection -/

/-- The last of a list sorted by a key has the largest key. -/
theorem le_getLast_insertionSort {α : Type*} (key : α → Nat) {l : List α} {x y : α}
    (hx : x ∈ l) (hy : (l.insertionSort fun a b => key a ≤ key b).getLast? = some y) :
    key x ≤ key y := by
  let r : α → α → Prop := fun a b => key a ≤ key b
  have : Std.Total r := ⟨fun a b => Nat.le_total (key a) (key b)⟩
  have : IsTrans α r := ⟨fun a b c => Nat.le_trans⟩
  have hsorted := List.pairwise_insertionSort r l
  have hx' : x ∈ l.insertionSort r := (List.mem_insertionSort r).mpr hx
  obtain ⟨ys, hys⟩ := List.getLast?_eq_some_iff.mp hy
  rw [show l.insertionSort r = ys ++ [y] from hys] at hsorted hx'
  rcases List.mem_append.mp hx' with hx' | hx'
  · exact (List.pairwise_append.mp hsorted).2.2 x hx' y List.mem_cons_self
  · exact List.mem_singleton.mp hx' ▸ Nat.le_refl _

/-- Nobody the node takes to be healthy has a larger id than the one it selects. -/
theorem le_getMaxInstanceId {c : Controller} {b : Address} (hb : b ∈ c.members) :
    c.instanceKey b ≤ c.instanceKey c.getMaxInstanceId := by
  have hb' : b ∈ c.members ++ [c.address] := List.mem_append_left _ hb
  have hne : ((c.members ++ [c.address]).insertionSort fun a b =>
      c.instanceKey a ≤ c.instanceKey b) ≠ [] := by
    intro he
    have hmem := (List.mem_insertionSort fun a b => c.instanceKey a ≤ c.instanceKey b).mpr hb'
    rw [he] at hmem
    exact absurd hmem List.not_mem_nil
  have hlast := List.getLast?_eq_some_getLast hne
  refine le_getLast_insertionSort c.instanceKey hb' ?_
  simp only [getMaxInstanceId, hlast, Option.getD_some]

theorem mem_members {c : Controller} {b : Address} (h : c.nodeStatuses.get? b = some .healthy) :
    b ∈ c.members := by
  have hitem := (Dict.mem_items_iff _ _ _).mpr h
  exact List.mem_map.mpr ⟨(b, .healthy), List.mem_filter.mpr ⟨hitem, by simp⟩, rfl⟩

/-! ## 2. Nodes that have selected themselves -/

/-- The node takes `b` to be healthy, and of a larger id than itself. -/
def Outranked (c : Controller) (b : Address) : Prop :=
  c.nodeStatuses.get? b = some .healthy ∧ c.instanceKey c.address < c.instanceKey b

instance (c : Controller) (b : Address) : Decidable (c.Outranked b) :=
  inferInstanceAs (Decidable (_ ∧ _))

/-- A node that knows of a larger id does not select itself. -/
theorem Outranked.getMaxInstanceId_ne {c : Controller} {b : Address} (h : c.Outranked b) :
    c.getMaxInstanceId ≠ c.address := by
  intro hself
  have hle := le_getMaxInstanceId (mem_members h.1)
  rw [hself] at hle
  exact Nat.not_le.mpr h.2 hle

theorem elected_take {l : Ledger} {p : Option Phase} {t : Int}
    (h : .elected t ∈ (l.take p).phases) : .elected t ∈ l.phases := by
  cases p with
  | none => exact h
  | some p => exact Multiset.mem_of_mem_erase h

theorem elected_put {l : Ledger} {p : Phase} {t : Int} (hp : p ≠ .elected t)
    (h : .elected t ∈ (l.put (some p)).phases) : .elected t ∈ l.phases :=
  (Multiset.mem_cons.mp h).resolve_left fun he => hp he.symm

/-- **Only a selection of itself gets a node elected.** -/
theorem elected_of_apply {l : Ledger} {p : Option Phase} {mv : Move} {t : Int} (hfits : Fits l p mv)
    (h : .elected t ∈ ((l.take p).apply mv).phases) :
    .elected t ∈ l.phases ∨ mv = .choose t l.address := by
  cases hfits with
  | quiet => exact Or.inl h
  | dropElecting n => exact Or.inl (elected_take (p := some (.electing n)) h)
  | dropElected n => exact Or.inl (elected_take (p := some (.elected n)) h)
  | dropEnding n => exact Or.inl (elected_take (p := some (.ending n)) h)
  | start => exact Or.inl (elected_put (by simp) h)
  | choose n a =>
    simp only [Ledger.apply] at h
    split at h
    · next hself =>
      rcases Multiset.mem_cons.mp h with he | h
      · obtain ⟨rfl⟩ := he
        exact Or.inr (by rw [hself]; rfl)
      · exact Or.inl (elected_take (p := some (.electing n)) h)
    · exact Or.inl (elected_take (p := some (.electing n)) (elected_put (by simp) h))
  | win n announces =>
    refine Or.inl (elected_take (p := some (.elected n)) ?_)
    cases announces with
    | false => exact h
    | true => exact elected_put (by simp) h
  | finish n => exact Or.inl (elected_take (p := some (.ending n)) h)
  | behind term a hlt => exact Or.inl (elected_put (by simp) (elected_put (by simp) h))
  | adopt leader => exact Or.inl (elected_take (p := some (.adopting leader)) h)
  | cancel term => exact Or.inl (elected_take (p := some (.cancelling term)) h)

theorem move_choose {c : Controller} {ev : Event} {n : Int} {a : Address}
    (h : c.move ev = .choose n a) :
    ∃ failedNode now, ev = .resume (.electing n failedNode) now ∧ a = c.getMaxInstanceId := by
  cases ev with
  | resume t now =>
    cases t with
    | electing nextTerm failedNode =>
      obtain ⟨rfl, rfl⟩ := Move.choose.inj h
      exact ⟨failedNode, now, rfl, rfl⟩
    | _ => cases h
  | logUpdate m =>
    rw [move] at h
    split at h
    · split at h <;> cases h
    · cases h
  | _ => cases h

/-- The term for which the event is the selection of a leader. -/
def selectsFor : Event → Option Int
  | .resume (.electing nextTerm _) _ => some nextTerm
  | _ => none

/-- The term for which the event makes the node leader. -/
def electedBy : Event → Option Int
  | .resume (.elected nextTerm _) _ => some nextTerm
  | _ => none

theorem electedBy_eq_some {ev : Event} {t : Int} (h : electedBy ev = some t) :
    ended ev = some (.elected t) := by
  cases ev with
  | resume task now =>
    cases task with
    | elected n failedNode =>
      obtain ⟨rfl⟩ := h
      rfl
    | _ => cases h
  | _ => cases h

theorem elected_step {c c' : Controller} {ev : Event} {t : Int} (h : c.step ev = some c')
    (helected : .elected t ∈ c'.ledger.phases) :
    .elected t ∈ c.ledger.phases ∨ selectsFor ev = some t ∧ c.getMaxInstanceId = c.address := by
  rw [ledger_step h] at helected
  refine (elected_of_apply (fits_step h).1 helected).imp id fun hmv => ?_
  obtain ⟨failedNode, now, rfl, hself⟩ := move_choose hmv
  exact ⟨rfl, hself.symm⟩

/-- A node becomes leader by the end of its election, and by nothing else. -/
theorem leader_step {c c' : Controller} {ev : Event} (h : c.step ev = some c')
    (hleader : c'.raftNodeStatus = .leader) :
    c.raftNodeStatus = .leader ∨ (electedBy ev).isSome := by
  have hrole : ((c.ledger.take (ended ev)).apply (c.move ev)).role = .leader := by
    rw [← ledger_step h]
    exact hleader
  have htake : ∀ p, (c.ledger.take p).role = c.raftNodeStatus := fun p => by cases p <;> rfl
  generalize hmv : c.move ev = mv at hrole
  obtain ⟨hfits, -⟩ := fits_step h
  rw [hmv] at hfits
  generalize hp : ended ev = p at hrole hfits
  cases hfits with
  | win n announces =>
    refine Or.inr ?_
    cases ev with
    | resume task now => cases task <;> first | rfl | cases hmv
    | logUpdate m =>
      rw [move] at hmv
      split at hmv
      · split at hmv <;> cases hmv
      · cases hmv
    | _ => cases hmv
  | start => cases hrole
  | adopt leader => cases hrole
  | choose n a =>
    simp only [Ledger.apply] at hrole
    split at hrole
    · exact Or.inl hrole
    · cases hrole
  | quiet => exact Or.inl hrole
  | dropElecting n | dropElected n | dropEnding n | finish n => exact Or.inl hrole
  | behind term a hlt | cancel term => exact Or.inl hrole

end Controller

namespace Cluster

/-! ## 3. The selections of a run -/

/-- The node `x` in the states of the run in which it selects a leader for the term `t`. -/
def selections (x : Address) (t : Int) : Cluster → List ClusterEvent → List Controller
  | _, [] => []
  | s, e :: es =>
    let later := match step s e with
      | some s' => selections x t s' es
      | none => []
    if e.1 = x ∧ Controller.selectsFor e.2 = some t then s.nodes x :: later else later

/-- The terms for which the events make `x` leader. -/
def elections (x : Address) (es : List ClusterEvent) : List Int :=
  es.filterMap fun e => if e.1 = x then Controller.electedBy e.2 else none

/-- The term of the election that made `x` leader last. -/
def electedFor (x : Address) (es : List ClusterEvent) : Option Int := (elections x es).getLast?

theorem selections_cons {x : Address} {t : Int} {s s' : Cluster} {e : ClusterEvent}
    {es : List ClusterEvent} (h : step s e = some s') : selections x t s (e :: es) =
      if e.1 = x ∧ Controller.selectsFor e.2 = some t then s.nodes x :: selections x t s' es
      else selections x t s' es := by
  rw [selections, h]

theorem selected_cons {x : Address} {t : Int} {s s' : Cluster} {e : ClusterEvent}
    {es : List ClusterEvent} (h : step s e = some s')
    (hlater : .elected t ∈ (s'.nodes x).ledger.phases ∨
      ∃ c ∈ selections x t s' es, c.getMaxInstanceId = c.address) :
    .elected t ∈ (s.nodes x).ledger.phases ∨
      ∃ c ∈ selections x t s (e :: es), c.getMaxInstanceId = c.address := by
  obtain ⟨y, ev⟩ := e
  rw [selections_cons h]
  rcases hlater with hlater | ⟨c, hc, hself⟩
  · by_cases hy : y = x
    · subst hy
      obtain ⟨out, hreact, -⟩ := step_node h
      have hstep := Controller.step_eq_some.mpr ⟨out, hreact⟩
      refine (Controller.elected_step hstep hlater).imp id fun ⟨hselects, hself⟩ => ?_
      exact ⟨s.nodes y, by simp [hselects], hself⟩
    · rw [(Net.nodes_step h).2 x (Ne.symm hy)] at hlater
      exact Or.inl hlater
  · refine Or.inr ⟨c, ?_, hself⟩
    split
    · exact List.mem_cons_of_mem _ hc
    · exact hc

/-- **A node that has become leader of a term has selected itself for it.** -/
theorem selected_of_mem_elections {x : Address} {t : Int} {s s' : Cluster} {es : List ClusterEvent}
    (hr : run step s es = some s') (h : t ∈ elections x es) :
    .elected t ∈ (s.nodes x).ledger.phases ∨
      ∃ c ∈ selections x t s es, c.getMaxInstanceId = c.address := by
  induction es generalizing s with
  | nil => exact absurd h List.not_mem_nil
  | cons e es ih =>
    obtain ⟨u, hu, hrest⟩ := run_cons_eq_some.mp hr
    obtain ⟨y, ev⟩ := e
    obtain ⟨z, hz, hzt⟩ := List.mem_filterMap.mp h
    rcases List.mem_cons.mp hz with rfl | hz
    · -- the end of an election, which has been waited for
      obtain ⟨rfl, hev⟩ : y = x ∧ Controller.electedBy ev = some t := by simpa using hzt
      obtain ⟨out, hreact, -⟩ := step_node hu
      have hfits := Controller.fits_step (Controller.step_eq_some.mpr ⟨out, hreact⟩)
      exact Or.inl (hfits.2 _ (Controller.electedBy_eq_some hev))
    · exact selected_cons hu (ih hrest (List.mem_filterMap.mpr ⟨z, hz, hzt⟩))

/-- Whoever is leader has been elected. -/
theorem elected_of_leader {x : Address} {s s' : Cluster} {es : List ClusterEvent}
    (hr : run step s es = some s') (h : (s'.nodes x).raftNodeStatus = .leader) :
    (s.nodes x).raftNodeStatus = .leader ∨ (electedFor x es).isSome := by
  induction es using List.reverseRecOn generalizing s' with
  | nil =>
    rw [run_nil, Option.some.injEq] at hr
    exact Or.inl (hr ▸ h)
  | append_singleton es e ih =>
    obtain ⟨y, ev⟩ := e
    rw [run_append, Option.bind_eq_some_iff] at hr
    obtain ⟨u, hu, hr⟩ := hr
    obtain ⟨v, hstep, hv⟩ := run_cons_eq_some.mp hr
    obtain rfl : v = s' := Option.some.inj hv
    have hkept : (u.nodes x).raftNodeStatus = .leader →
        (s.nodes x).raftNodeStatus = .leader ∨ (electedFor x (es ++ [(y, ev)])).isSome := by
      refine fun hbefore => (ih hu hbefore).imp id fun hsome => ?_
      rw [electedFor, List.getLast?_isSome] at hsome ⊢
      rw [elections, List.filterMap_append]
      exact fun hnil => hsome (List.append_eq_nil_iff.mp hnil).1
    by_cases hy : y = x
    · subst hy
      obtain ⟨out, hreact, -⟩ := step_node hstep
      rcases Controller.leader_step (Controller.step_eq_some.mpr ⟨out, hreact⟩) h with hbefore | hev
      · exact hkept hbefore
      · obtain ⟨n, hn⟩ := Option.isSome_iff_exists.mp hev
        exact Or.inr (by simp [electedFor, elections, hn])
    · rw [(Net.nodes_step hstep).2 x (Ne.symm hy)] at h
      exact hkept h

/-! ## 4. One leader a term -/

/-- After these events `x` is leader of the term `t`, and was elected for it. -/
structure Leads (s : Cluster) (es : List ClusterEvent) (x : Address) (t : Int) : Prop where
  role : (s.nodes x).raftNodeStatus = .leader
  term : (s.nodes x).termNumber = t
  election : electedFor x es = some t

instance (s : Cluster) (es : List ClusterEvent) (x : Address) (t : Int) : Decidable (Leads s es x t) :=
  decidable_of_iff (_ ∧ _ ∧ _) ⟨fun ⟨h, h', h''⟩ => ⟨h, h', h''⟩, fun h => ⟨h.role, h.term, h.election⟩⟩

/-- Where both nodes select a leader for the term, one of them knows the other one as healthy and of
a larger id than itself. -/
def OneYields (t : Int) (a b : Address) (s : Cluster) (es : List ClusterEvent) : Prop :=
  ∀ c ∈ selections a t s es, ∀ d ∈ selections b t s es, c.Outranked b ∨ d.Outranked a

instance (t : Int) (a b : Address) (s : Cluster) (es : List ClusterEvent) :
    Decidable (OneYields t a b s es) := inferInstanceAs (Decidable (∀ c ∈ _, ∀ d ∈ _, _ ∨ _))

/-- **No term has two leaders, if of two nodes that select a leader for it one yields to the
other.** -/
theorem one_leader_a_term (instanceId current : Address → Nat) (pollRetries : ℕ+) (maxAge : ℚ)
    (maxCount : Nat) (es : List ClusterEvent) (s : Cluster)
    (hr : run step (init instanceId current pollRetries maxAge maxCount) es = some s)
    (a b : Address) (t : Int)
    (hyields : OneYields t a b (init instanceId current pollRetries maxAge maxCount) es) :
    ¬ (Leads s es a t ∧ Leads s es b t) := by
  have hself : ∀ x, Leads s es x t → ∃ c ∈ selections x t
      (init instanceId current pollRetries maxAge maxCount) es, c.getMaxInstanceId = c.address := by
    intro x hx
    refine (selected_of_mem_elections hr (List.mem_of_getLast? hx.election)).resolve_left ?_
    exact Multiset.notMem_zero _
  rintro ⟨ha, hb⟩
  obtain ⟨c, hc, hself_c⟩ := hself a ha
  obtain ⟨d, hd, hself_d⟩ := hself b hb
  rcases hyields c hc d hd with hout | hout
  · exact hout.getMaxInstanceId_ne hself_c
  · exact hout.getMaxInstanceId_ne hself_d

/-- Two nodes that know each other boot; the one with the larger id becomes leader. -/
def bootTogether : List ClusterEvent :=
  [introduce 9001 9002, introduce 9002 9001, (node 9001, .boot), (node 9002, .boot),
    (node 9001, .resume (.electing 1 none) 0), (node 9002, .resume (.electing 1 none) 0),
    (node 9001, .resume (.elected 1 none) 5), (node 9002, .resume (.lost 1) 5)]

/-- The entry with which the node at port 9002 announces its election. -/
def secondAnnouncement : Entry :=
  ⟨9 * 2 ^ 22, "election_update", "Election complete! Elected - 127.0.0.1:9002", 2, "127.0.0.1", 9002⟩

/-- The update that carries it. -/
def secondUpdate : RaftMessage where
  host := some "127.0.0.1"
  port := some 9001
  error := none
  sourceHost := "127.0.0.1"
  sourcePort := 9002
  electedLeader := none
  failedNode := some (node 9001)
  voteResult := none
  raftNodeStatus := .leader
  status := .healthy
  entries := some [secondAnnouncement]
  termNumber := 2
  receivedTimestamp := none

/-- The node at port 9002 takes over from the one at port 9001, which seems to have failed and is
back when it announces itself. -/
def handOver : List ClusterEvent :=
  refused ++
  [(node 9002, .membership .healthy (Dict.empty.set (node 9001) .failed) Dict.empty []),
    (node 9002, .probed (node 9001)), (node 9002, .resume (.notifying (node 9001)) 8),
    (node 9002, .resume (.electing 2 (some (node 9001))) 8), introduce 9002 9001,
    (node 9002, .resume (.elected 2 (some (node 9001))) 9)]

theorem one_leader_together :
    (∃ s, run step (init (fun _ => 0) (fun _ => 0) 1 0 0) bootTogether = some s ∧
      Leads s bootTogether (node 9001) 1 ∧
      ¬ (Leads s bootTogether (node 9001) 1 ∧ Leads s bootTogether (node 9002) 1)) ∧
    ∃ s, run step (init (fun _ => 0) (fun _ => 0) 1 0 0) handOver = some s ∧
      Leads s handOver (node 9001) 1 ∧ Leads s handOver (node 9002) 2 ∧
      ¬ (Leads s handOver (node 9001) 2 ∧ Leads s handOver (node 9002) 2) :=
  ⟨⟨_, rfl, by decide, one_leader_a_term (fun _ => 0) (fun _ => 0) 1 0 0 bootTogether _ rfl
      (node 9001) (node 9002) 1 (by decide)⟩,
    ⟨_, rfl, by decide, by decide, one_leader_a_term (fun _ => 0) (fun _ => 0) 1 0 0 handOver _ rfl
      (node 9001) (node 9002) 2 (by decide)⟩⟩

/-- A node boots and becomes leader of term 1, when it knows nobody. -/
def bootAlone (port : Int) : List ClusterEvent :=
  [(node port, .boot), (node port, .resume (.electing 1 none) 0),
    (node port, .resume (.elected 1 none) 5)]

/-- Two nodes that do not know each other both become leader of term 1.  And a leader that is told of
the next one has its term number before it is a follower, although only that one ran for the term. -/
theorem two_leaders :
    (¬ ∀ (instanceId current : Address → Nat) (pollRetries : ℕ+) (maxAge : ℚ) (maxCount : Nat)
        (es : List ClusterEvent) (s : Cluster),
      run step (init instanceId current pollRetries maxAge maxCount) es = some s →
      ∀ a b, (s.nodes a).raftNodeStatus = .leader → (s.nodes b).raftNodeStatus = .leader →
        (s.nodes a).termNumber = (s.nodes b).termNumber → a = b) ∧
    ∃ (es : List ClusterEvent) (s : Cluster),
      run step (init (fun _ => 0) (fun _ => 0) 1 0 0) es = some s ∧
      OneYields 2 (node 9001) (node 9002) (init (fun _ => 0) (fun _ => 0) 1 0 0) es ∧
      ((s.nodes (node 9001)).raftNodeStatus = .leader ∧ (s.nodes (node 9001)).termNumber = 2) ∧
      (s.nodes (node 9002)).raftNodeStatus = .leader ∧ (s.nodes (node 9002)).termNumber = 2 := by
  constructor
  · intro h
    have hsame := h (fun _ => 0) (fun _ => 0) 1 0 0 (bootAlone 9001 ++ bootAlone 9002) _ rfl
      (node 9001) (node 9002) (by decide) (by decide) (by decide)
    exact absurd hsame (by decide)
  · exact ⟨handOver ++ [(node 9002, .update (.announcing 2
        [⟨node 9001, [secondAnnouncement], some (node 9001), 1, false, false⟩]) 0 .send),
      (node 9001, .logUpdate secondUpdate)], _, rfl, by decide, by decide, by decide⟩

end Cluster
end Hedra
