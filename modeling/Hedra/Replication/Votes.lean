/-
# Answers to vote requests

`receive_vote_request` (`distributed/replication/replication_controller.py`) records no vote.  A
candidate that is ahead is accepted by default, and among the candidates of the node's own term the
one is accepted that the node itself would select.  So what keeps a node from accepting two
candidates of its own term is only that it selects the same one as long as it knows the same of the
others.

* `accepts_iff`: when a request is accepted;
* `accepted_once`: how often one is, for a term, in a run with steady views.
-/
import Hedra.Replication.ControllerStep

namespace Hedra
namespace Controller

open Lib Lib.Machine

/-! ## 1. One answer -/

/-- The request is answered with `VoteResult.ACCEPTED`. -/
def Accepts (c : Controller) (m : RaftMessage) : Prop :=
  ∃ answer, c.receiveVoteRequest m = .ok answer ∧ answer.voteResult = some .accepted

/-- **When a request is accepted.** -/
theorem accepts_iff {c : Controller} {m : RaftMessage} :
    c.Accepts m ↔
      c.termNumber < m.termNumber ∨
        (m.termNumber = c.termNumber ∧ c.raftNodeStatus ≠ .leader ∧ c.getMaxInstanceId = m.source) := by
  unfold Accepts receiveVoteRequest
  simp only
  by_cases hahead : m.termNumber > c.termNumber
  · rw [if_pos hahead]
    exact iff_of_true ⟨_, rfl, by simp⟩ (Or.inl hahead)
  · rw [if_neg hahead]
    by_cases hsame : m.termNumber = c.termNumber ∧ c.raftNodeStatus ≠ .leader
    · rw [if_pos hsame]
      constructor
      · rintro ⟨answer, hok, hvote⟩
        obtain rfl := Except.ok.inj hok
        by_cases hmax : c.getMaxInstanceId = m.source
        · exact Or.inr ⟨hsame.1, hsame.2, hmax⟩
        · simp [hmax] at hvote
      · rintro (hlt | ⟨-, -, hmax⟩)
        · exact absurd hlt hahead
        · exact ⟨_, rfl, by simp [hmax]⟩
    · rw [if_neg hsame]
      refine iff_of_false ?_ ?_
      · rintro ⟨answer, hok, hvote⟩
        split at hok
        · cases hok
        · cases hok
        · obtain rfl := Except.ok.inj hok
          cases hvote
      · rintro (hlt | ⟨hterm, hrole, -⟩)
        · exact hahead hlt
        · exact hsame ⟨hterm, hrole⟩

/-! ## 2. The selection along a run -/

/-- A run without health checks, registrations, failure notifications or answers to updates
leaves the selection as it is. -/
theorem getMaxInstanceId_run {evs : List Event} {c c' : Controller} (h : run step c evs = some c')
    (hview : ∀ ev ∈ evs, ¬ ChangesView ev) : c'.getMaxInstanceId = c.getMaxInstanceId := by
  induction evs generalizing c with
  | nil =>
    rw [run_nil, Option.some.injEq] at h
    rw [h]
  | cons ev evs ih =>
    obtain ⟨c₁, hs, h⟩ := run_cons_eq_some.mp h
    rw [ih h fun x hx => hview x (List.mem_cons_of_mem _ hx)]
    by_cases hprune : ∃ now, ev = .prune now
    · obtain ⟨now, rfl⟩ := hprune
      cases hs
      rfl
    · have hkeep := keeps_step hs (hview ev List.mem_cons_self) fun now he => hprune ⟨now, he⟩
      unfold getMaxInstanceId members instanceKey
      rw [hkeep.nodeStatuses, hkeep.instanceIds, hkeep.instanceId, hkeep.address]

/-- **Requests that are ahead are accepted, and requests that are behind or reach a leader of
their term are not; and in a run in which nothing changes what the node knows of the others,
at most one candidate is accepted for a term that is the node's own.** -/
theorem accepted_once (c c' : Controller) (evs : List Event) (m m' : RaftMessage)
    (hrun : run step c evs = some c') (hview : ∀ ev ∈ evs, ¬ ChangesView ev) :
    (c.termNumber < m.termNumber → c.Accepts m) ∧
      (m.termNumber < c.termNumber → ¬ c.Accepts m) ∧
      (m.termNumber = c.termNumber → c.raftNodeStatus = .leader → ¬ c.Accepts m) ∧
      (m.termNumber = m'.termNumber → m.termNumber = c.termNumber →
        m'.termNumber = c'.termNumber → c.Accepts m → c'.Accepts m' → m.source = m'.source) := by
  refine ⟨fun hlt => accepts_iff.mpr (Or.inl hlt), fun hlt hacc => ?_, fun heq hrole hacc => ?_,
    fun _ heq heq' hacc hacc' => ?_⟩
  · rcases accepts_iff.mp hacc with hgt | ⟨heq, -, -⟩ <;> omega
  · rcases accepts_iff.mp hacc with hgt | ⟨-, hne, -⟩
    · omega
    · exact hne hrole
  · have hmax := getMaxInstanceId_run hrun hview
    rcases accepts_iff.mp hacc with hgt | ⟨-, -, hsel⟩
    · omega
    · rcases accepts_iff.mp hacc' with hgt | ⟨-, -, hsel'⟩
      · omega
      · rw [← hsel, ← hsel', hmax]

/-- A vote request for `term` from the node at `port`. -/
def candidacy (term port : Int) : RaftMessage where
  host := some "127.0.0.1"
  port := some 9002
  error := none
  sourceHost := "127.0.0.1"
  sourcePort := port
  electedLeader := none
  failedNode := none
  voteResult := none
  raftNodeStatus := .candidate
  status := .healthy
  entries := none
  termNumber := term
  receivedTimestamp := none

/-- A fresh node at port 9002 that knows the node at port 9001, which has the larger id. -/
def knowingOther : Controller :=
  { init ⟨"127.0.0.1", 9002⟩ 7 0 1 0 0 with
    nodeStatuses := Dict.empty.set ⟨"127.0.0.1", 9001⟩ .healthy
    instanceIds := Dict.empty.set ⟨"127.0.0.1", 9001⟩ 9 }

/-- The answers before and during an election that the node loses: the other node is accepted,
and nobody else. -/
theorem accepted_during_election :
    ∃ c', run step knowingOther [.boot, .resume (.electing 1 none) 0] = some c' ∧
      knowingOther.Accepts (candidacy 0 9001) ∧ c'.Accepts (candidacy 0 9001) ∧
      (candidacy 0 9001).source = (candidacy 0 9001).source ∧ ¬ c'.Accepts (candidacy 0 9003) := by
  have hsame := fun m' => (accepted_once knowingOther _ [.boot, .resume (.electing 1 none) 0]
    (candidacy 0 9001) m' rfl (by decide)).2.2.2
  have hbefore : knowingOther.Accepts (candidacy 0 9001) :=
    accepts_iff.mpr (Or.inr ⟨by decide, by decide, by decide⟩)
  refine ⟨_, rfl, hbefore, ?_, hsame (candidacy 0 9001) rfl (by decide) (by decide) hbefore ?_,
    fun hother => ?_⟩
  · exact accepts_iff.mpr (Or.inr ⟨by decide, by decide, by decide⟩)
  · exact accepts_iff.mpr (Or.inr ⟨by decide, by decide, by decide⟩)
  · have h := hsame (candidacy 0 9003) (by decide) (by decide) (by decide) hbefore hother
    exact absurd h (by decide)

/-- Two candidates that are both ahead of a fresh node are both accepted. -/
theorem accepts_two_candidates :
    ¬ ∀ (address : Address) (instanceId current : Nat) (pollRetries : ℕ+) (maxAge : ℚ)
        (maxCount : Nat) (evs evs' : List Event) (c c' : Controller) (m m' : RaftMessage),
      run step (init address instanceId current pollRetries maxAge maxCount) evs = some c →
      run step c evs' = some c' → c.Accepts m → c'.Accepts m' →
      m.termNumber = m'.termNumber → m.source = m'.source := by
  intro h
  have hsame := h ⟨"127.0.0.1", 9002⟩ 7 0 1 0 0 [] [.voteRequest (candidacy 5 9001)] _ _
    (candidacy 5 9001) (candidacy 5 9003) rfl rfl
    (accepts_iff.mpr (Or.inl (by decide))) (accepts_iff.mpr (Or.inl (by decide))) rfl
  exact absurd hsame (by decide)

end Controller
end Hedra
