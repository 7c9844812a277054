/-
# The list of leaders

`_term_leaders` (`distributed/replication/replication_controller.py`) gets an entry from every
selection, won or lost, and from every newer term that an update brings, where the terms that were
missed are padded with `(None, None)`.  Nothing keys the list by term.  It is meant to hold the
leader of term `t` at position `t - 1`.

A `Chronicle` is a controller together with the leader of each term it has entered, written
down when it enters it.  The list agrees with that record in runs in which selections and newer
terms do not overlap, every selection is won, and `_cancel_election` does not change the term.

* `Stage.apply`: an orderly move keeps the list and the record together;
* `leaders_agree`: so they agree in every state of an orderly run that is not in the middle of an
  election.
-/
import Mathlib.Data.Multiset.Filter
import Hedra.Replication.ControllerStep

namespace Hedra
namespace Controller

open Lib Lib.Machine

/-! ## 1. The phases an event ends -/

/-- How the move of an event goes with the phase it ends. -/
inductive Fits (l : Ledger) : Option Phase → Move → Prop
  | quiet : Fits l none .quiet
  | dropElecting (n : Int) : Fits l (some (.electing n)) .quiet
  | dropElected (n : Int) : Fits l (some (.elected n)) .quiet
  | dropEnding (n : Int) : Fits l (some (.ending n)) .quiet
  | start : Fits l none .start
  | choose (n : Int) (a : Address) : Fits l (some (.electing n)) (.choose n a)
  | win (n : Int) (announces : Bool) : Fits l (some (.elected n)) (.win n announces)
  | finish (n : Int) : Fits l (some (.ending n)) (.finish n)
  | behind (term : Int) (a : Address) (h : l.term < term) : Fits l none (.behind term (some a))
  | adopt (leader : Option Address) : Fits l (some (.adopting leader)) (.adopt leader)
  | cancel (term : Int) : Fits l (some (.cancelling term)) (.cancel term)

theorem leaderOf_of_entries {m : RaftMessage} {e : Entry} {es : List Entry}
    (h : m.entries = some (e :: es)) : ∃ a, leaderOf m = some a := by
  have hlen := (List.perm_insertionSort (fun a b : Entry => a.stamp ≤ b.stamp) (e :: es)).length_eq
  have hne : sortedEntries m ≠ [] := by
    intro he
    rw [sortedEntries, sortEntries, h, Option.getD_some] at he
    rw [he] at hlen
    cases hlen
  rw [leaderOf, List.getLast?_eq_some_getLast hne]
  exact ⟨_, rfl⟩

theorem fits_step {c c' : Controller} {ev : Event} (h : c.step ev = some c') :
    Fits c.ledger (ended ev) (c.move ev) ∧ ∀ p, ended ev = some p → p ∈ c.ledger.phases := by
  obtain ⟨out, h⟩ := step_eq_some.mp h
  cases ev with
  | boot => exact ⟨.start, by simp [ended]⟩
  | logUpdate m =>
    refine ⟨?_, by simp [ended]⟩
    rw [move]
    change Fits c.ledger none _
    split
    · next e es hm =>
      split
      · next hlt =>
        obtain ⟨a, ha⟩ := leaderOf_of_entries hm
        rw [ha]
        exact .behind _ a hlt
      · exact .quiet
    · exact .quiet
  | resume t now =>
    rw [react] at h
    split at h
    · next ht =>
      refine ⟨?_, fun p hp => mem_phases ht hp⟩
      cases t <;> simp only [ended, phase, move, resumeMove] <;> constructor
    · cases h
  | drop t =>
    rw [react] at h
    split at h
    · next ht =>
      refine ⟨?_, fun p hp => mem_phases ht.1 hp⟩
      have hdrop := ht.2
      cases t <;> first | exact absurd hdrop id | constructor
    · cases h
  | _ => exact ⟨.quiet, by simp [ended]⟩

/-! ## 2. Busy phases -/

/-- Every phase but a cancellation that is still to run. -/
def Phase.busy : Phase → Bool
  | .cancelling _ => false
  | _ => true

/-- The elections and newer terms that are going on. -/
def Ledger.busy (l : Ledger) : Multiset Phase := l.phases.filter fun p => p.busy

theorem Ledger.busy_put_of_busy (l : Ledger) {p : Phase} (hp : p.busy) :
    (l.put (some p)).busy = p ::ₘ l.busy := Multiset.filter_cons_of_pos _ hp

theorem Ledger.busy_put_cancelling (l : Ledger) (term : Int) :
    (l.put (some (.cancelling term))).busy = l.busy :=
  Multiset.filter_cons_of_neg _ (by simp [Phase.busy])

/-- When only one phase is busy, a busy phase that ends is that one, and leaves none. -/
theorem Ledger.busy_take {l : Ledger} {p x : Phase} (hmem : p ∈ l.phases) (hp : p.busy)
    (hx : l.busy = {x}) : p = x ∧ (l.take (some p)).busy = 0 := by
  obtain ⟨rest, hrest⟩ := Multiset.exists_cons_of_mem hmem
  have hbusy : p ::ₘ rest.filter (fun p => p.busy) = {x} := by
    rw [← hx, Ledger.busy, hrest]
    exact (Multiset.filter_cons_of_pos (p := fun x => x.busy = true) rest hp).symm
  have hmem' : p ∈ ({x} : Multiset Phase) := hbusy ▸ Multiset.mem_cons_self _ _
  obtain rfl := Multiset.mem_singleton.mp hmem'
  refine ⟨rfl, ?_⟩
  change (l.phases.erase p).filter (fun p => p.busy) = 0
  rw [hrest, Multiset.erase_cons_head]
  exact (Multiset.cons_inj_right p).mp hbusy

theorem Ledger.not_busy_zero {l : Ledger} {p : Phase} (hmem : p ∈ l.phases) (hp : p.busy) :
    l.busy ≠ 0 :=
  fun hz => Multiset.notMem_zero p (hz ▸ Multiset.mem_filter.mpr ⟨hmem, hp⟩)

theorem Ledger.busy_take_cancelling {l : Ledger} {term : Int}
    (hmem : .cancelling term ∈ l.phases) : (l.take (some (.cancelling term))).busy = l.busy := by
  obtain ⟨rest, hrest⟩ := Multiset.exists_cons_of_mem hmem
  have hnot : ¬ (Phase.cancelling term).busy = true := by simp [Phase.busy]
  change (l.phases.erase _).filter (fun p => p.busy) = _
  rw [Ledger.busy, hrest, Multiset.erase_cons_head]
  exact (Multiset.filter_cons_of_neg (p := fun x => x.busy = true) rest hnot).symm

/-! ## 3. The list and the record of the terms entered -/

/-- The list holds, at position `t - 1`, what the record has for term `t`, up to the current
term; nothing is recorded for a later one. -/
structure Aligned (record : Int → Option Address) (leaders : List (Option Address))
    (term : Int) : Prop where
  nonneg : 0 ≤ term
  leaders_eq : leaders = (List.range term.toNat).map fun i : Nat => record (i + 1)
  entered : 0 < term → record term ≠ none
  later : ∀ t, term < t → record t = none

/-- Entering a later term under `a`, with the terms between recorded as unknown. -/
theorem Aligned.extend {record : Int → Option Address} {leaders : List (Option Address)}
    {term next : Int} (h : Aligned record leaders term) (hlt : term < next) (a : Address) :
    Aligned (Function.update record next (some a))
      (leaders ++ List.replicate (max (next - term - 1) 0).toNat none ++ [some a]) next := by
  have hn := h.nonneg
  refine ⟨by omega, ?_, fun _ => by simp, fun t ht => ?_⟩
  · have hlen : next.toNat = term.toNat + (max (next - term - 1) 0).toNat + 1 := by omega
    rw [hlen, List.range_succ, List.map_append, List.range_add, List.map_append]
    congr 1
    · congr 1
      · rw [h.leaders_eq]
        refine List.map_congr_left fun i hi => ?_
        have hi' := List.mem_range.mp hi
        rw [Function.update_of_ne (by omega)]
      · refine (List.eq_replicate_iff.mpr ⟨by simp, fun x hx => ?_⟩).symm
        obtain ⟨i, hi, rfl⟩ := List.mem_map.mp hx
        obtain ⟨j, hj, rfl⟩ := List.mem_map.mp hi
        have hj' := List.mem_range.mp hj
        rw [Function.update_of_ne (by omega), h.later _ (by omega)]
    · have hnext : ((term.toNat + (max (next - term - 1) 0).toNat : Nat) : Int) + 1 = next := by
        omega
      simp only [List.map_cons, List.map_nil, hnext, Function.update_self]
  · rw [Function.update_of_ne (ne_of_gt ht), h.later t (hlt.trans ht)]

/-- What holds of the ledger while a coroutine is in the phase. -/
def InPhase (record : Int → Option Address) (l : Ledger) : Phase → Prop
  | .electing nextTerm => nextTerm = l.term + 1 ∧ Aligned record l.leaders l.term
  | .elected nextTerm =>
    nextTerm = l.term + 1 ∧
      ∃ leaders, l.leaders = leaders ++ [some l.address] ∧ Aligned record leaders l.term
  | .ending nextTerm => nextTerm = l.term ∧ Aligned record l.leaders l.term
  | .adopting leader => ∃ a, leader = some a ∧ Aligned record (l.leaders ++ [some a]) l.term
  | .cancelling _ => False

/-- **The invariant**: nothing is going on and the list agrees with the record, or one
election or newer term is. -/
inductive Stage (record : Int → Option Address) (l : Ledger) : Prop
  | idle (hb : l.busy = 0) (ha : Aligned record l.leaders l.term)
  | going (p : Phase) (hb : l.busy = {p}) (hp : InPhase record l p)

theorem Stage.of_mem {record : Int → Option Address} {l : Ledger} {p : Phase}
    (h : Stage record l) (hmem : p ∈ l.phases) (hp : p.busy) :
    InPhase record l p ∧ (l.take (some p)).busy = 0 := by
  cases h with
  | idle hb ha => exact absurd hb (Ledger.not_busy_zero hmem hp)
  | going x hb hx =>
    obtain ⟨rfl, hrest⟩ := Ledger.busy_take hmem hp hb
    exact ⟨hx, hrest⟩

theorem Stage.aligned {record : Int → Option Address} {l : Ledger} (h : Stage record l)
    (hb : l.busy = 0) : Aligned record l.leaders l.term := by
  cases h with
  | idle _ ha => exact ha
  | going x hx _ => exact absurd (hx.symm.trans hb) (Multiset.singleton_ne_zero x)

/-- The record after a move: a term is entered under the node itself, or under the leader that
an update names. -/
def recordMove (l : Ledger) (record : Int → Option Address) : Move → Int → Option Address
  | .win _ _ => Function.update record (l.term + 1) (some l.address)
  | .behind term leader => Function.update record term leader
  | _ => record

/-- A move that does not get in the way of another: an election or a newer term begins when
none is going on, a selection is won, a cancellation does not change the term, and an election
is not dropped between its selection and its announcement. -/
def OrderlyMove (l : Ledger) (p : Option Phase) : Move → Prop
  | .start => l.busy = 0
  | .behind _ _ => l.busy = 0
  | .choose _ leader => leader = l.address
  | .cancel term => term = l.term
  | .quiet =>
    match p with
    | some (.elected _) => False
    | _ => True
  | _ => True

instance (l : Ledger) : ∀ p mv, Decidable (OrderlyMove l p mv)
  | _, .start => inferInstanceAs (Decidable (l.busy = 0))
  | _, .behind _ _ => inferInstanceAs (Decidable (l.busy = 0))
  | _, .choose _ leader => inferInstanceAs (Decidable (leader = l.address))
  | _, .cancel term => inferInstanceAs (Decidable (term = l.term))
  | some (.elected _), .quiet => isFalse id
  | some (.electing _), .quiet => isTrue trivial
  | some (.ending _), .quiet => isTrue trivial
  | some (.adopting _), .quiet => isTrue trivial
  | some (.cancelling _), .quiet => isTrue trivial
  | none, .quiet => isTrue trivial
  | _, .win _ _ => isTrue trivial
  | _, .finish _ => isTrue trivial
  | _, .adopt _ => isTrue trivial

/-- **An orderly move keeps the invariant.** -/
theorem Stage.apply {record : Int → Option Address} {l : Ledger} {p : Option Phase} {mv : Move}
    (h : Stage record l) (hfits : Fits l p mv) (hmem : ∀ x, p = some x → x ∈ l.phases)
    (horderly : OrderlyMove l p mv) :
    Stage (recordMove l record mv) ((l.take p).apply mv) := by
  cases hfits with
  | quiet => exact h
  | dropElecting n =>
    obtain ⟨⟨-, ha⟩, hrest⟩ := h.of_mem (hmem _ rfl) rfl
    exact .idle hrest ha
  | dropElected n => exact absurd horderly id
  | dropEnding n =>
    obtain ⟨⟨-, ha⟩, hrest⟩ := h.of_mem (hmem _ rfl) rfl
    exact .idle hrest ha
  | start =>
    have ha := h.aligned horderly
    refine .going (.electing (l.term + 1)) ?_ ⟨rfl, ha⟩
    exact (Ledger.busy_put_of_busy { l with role := .candidate } rfl).trans
      (congrArg (_ ::ₘ ·) horderly)
  | choose n a =>
    obtain ⟨⟨hn, ha⟩, hrest⟩ := h.of_mem (hmem _ rfl) rfl
    have hself : a = (l.take (some (.electing n))).address := horderly
    simp only [Ledger.apply]
    rw [if_pos hself]
    refine .going (.elected n) ?_ ⟨hn, l.leaders, by rw [hself]; rfl, ha⟩
    exact (Ledger.busy_put_of_busy _ rfl).trans (congrArg (_ ::ₘ ·) hrest)
  | win n announces =>
    obtain ⟨⟨hn, leaders, hl, ha⟩, hrest⟩ := h.of_mem (hmem _ rfl) rfl
    have hext := ha.extend (Int.lt_succ l.term) l.address
    have hzero : (max (l.term + 1 - l.term - 1) 0).toNat = 0 := by omega
    rw [hzero, List.replicate_zero, List.append_nil, ← hl] at hext
    simp only [Ledger.apply]
    cases announces with
    | true =>
      refine .going (.ending n) ?_ ⟨hn, hext⟩
      exact (Ledger.busy_put_of_busy _ rfl).trans (congrArg (_ ::ₘ ·) hrest)
    | false => exact .idle hrest hext
  | finish n =>
    obtain ⟨⟨rfl, ha⟩, hrest⟩ := h.of_mem (hmem _ rfl) rfl
    refine .idle hrest ?_
    change Aligned record l.leaders (if l.term > l.term then l.term else l.term)
    rw [if_neg (lt_irrefl _)]
    exact ha
  | behind term a hlt =>
    have hext := (h.aligned horderly).extend hlt a
    refine .going (.adopting (some a)) ?_ ⟨a, rfl, hext⟩
    refine (Ledger.busy_put_of_busy _ rfl).trans (congrArg (_ ::ₘ ·) ?_)
    exact (Ledger.busy_put_cancelling _ term).trans horderly
  | adopt leader =>
    obtain ⟨⟨a, rfl, ha⟩, hrest⟩ := h.of_mem (hmem _ rfl) rfl
    exact .idle hrest ha
  | cancel term =>
    obtain rfl : term = l.term := horderly
    have hbusy := Ledger.busy_take_cancelling (hmem _ rfl)
    cases h with
    | idle hb ha => exact .idle (hbusy.trans hb) ha
    | going x hb hx =>
      refine .going x (hbusy.trans hb) ?_
      cases x <;> exact hx

/-! ## 4. Chronicles -/

/-- A controller, and the leader of each term it has entered. -/
structure Chronicle where
  controller : Controller
  record : Int → Option Address

/-- The step of the controller, with the record kept. -/
def Chronicle.step (s : Chronicle) (ev : Event) : Option Chronicle :=
  (s.controller.step ev).map fun c' =>
    ⟨c', recordMove s.controller.ledger s.record (s.controller.move ev)⟩

/-- The event does not get in the way of another one. -/
def Orderly (c : Controller) (ev : Event) : Prop := OrderlyMove c.ledger (ended ev) (c.move ev)

instance (c : Controller) (ev : Event) : Decidable (c.Orderly ev) :=
  inferInstanceAs (Decidable (OrderlyMove _ _ _))

/-- `run_election` has begun and not ended. -/
def MidElection (c : Controller) : Prop :=
  ∃ n, .electing n ∈ c.ledger.phases ∨ .elected n ∈ c.ledger.phases ∨ .ending n ∈ c.ledger.phases

/-- A newer term has been taken over, and its leader has not been recorded yet. -/
def Adopting (c : Controller) : Prop := ∃ leader, .adopting leader ∈ c.ledger.phases

/-- **The list of leaders agrees with the term.** -/
structure Agrees (s : Chronicle) : Prop where
  /-- Its last element is the leader of the current term, under which data becomes entries. -/
  last : ∃ a, s.record s.controller.termNumber = some a ∧
    s.controller.termLeaders.getLast? = some (some a) ∧
    ∀ now data c' es, s.controller.convertDataToEntries now data = (c', .ok es) →
      ∀ e ∈ es, e.leader = a ∧ e.term = s.controller.termNumber
  /-- There is one element for each term, and it is the leader if the term was entered. -/
  one_each : s.controller.termLeaders =
    (List.range s.controller.termNumber.toNat).map fun i : Nat => s.record (i + 1)
  /-- Reading the last element never fails. -/
  answers : ∀ m, ∃ answer, s.controller.receiveVoteRequest m = .ok answer

theorem fromData_ok {id : Option Nat} {leader : Option Address} {term : Int} {data : EntryData}
    {e : Entry} (h : Entry.fromData id leader term data = .ok e) :
    leader = some e.leader ∧ e.term = term := by
  unfold Entry.fromData at h
  split at h
  · split at h
    · cases h
    · cases h
      exact ⟨rfl, rfl⟩
  · cases h

/-- Entries are stamped with the leader and the term they are made under. -/
theorem convertAll_ok {now : Nat} {leader : Option Address} {data : List EntryData}
    {c c' : Controller} {es : List Entry} (h : c.convertAll now leader data = (c', .ok es)) :
    ∀ e ∈ es, leader = some e.leader ∧ e.term = c.termNumber := by
  induction data generalizing c c' es with
  | nil =>
    intro e he
    obtain ⟨-, hes⟩ := Prod.mk.inj h
    obtain rfl := Except.ok.inj hes
    exact absurd he List.not_mem_nil
  | cons d ds ih =>
    intro e he
    unfold convertAll at h
    split at h
    · exact absurd (Prod.mk.inj h).2 (by simp)
    · next c₁ x hx =>
      split at h
      · exact absurd (Prod.mk.inj h).2 (by simp)
      · next c₂ xs hxs =>
        obtain ⟨-, hes⟩ := Prod.mk.inj h
        obtain rfl := Except.ok.inj hes
        have hterm : c₁.termNumber = c.termNumber :=
          congrArg (fun p : Controller × Except PyError Entry => p.1.termNumber) hx.symm
        rcases List.mem_cons.mp he with rfl | he
        · exact fromData_ok (congrArg Prod.snd hx)
        · exact hterm ▸ ih hxs e he

theorem receiveVoteRequest_ok {c : Controller} {a : Address}
    (h : c.termLeaders.getLast? = some (some a)) (m : RaftMessage) :
    ∃ answer, c.receiveVoteRequest m = .ok answer := by
  unfold receiveVoteRequest
  simp only [h]
  split
  · exact ⟨_, rfl⟩
  · split <;> exact ⟨_, rfl⟩

/-- In a term that has been entered, an aligned list agrees with it. -/
theorem Aligned.agrees {s : Chronicle}
    (h : Aligned s.record s.controller.termLeaders s.controller.termNumber)
    (hterm : 0 < s.controller.termNumber) : Agrees s := by
  obtain ⟨a, ha⟩ := Option.ne_none_iff_exists'.mp (h.entered hterm)
  have hlast : s.controller.termLeaders.getLast? = some (some a) := by
    obtain ⟨n, hn⟩ : ∃ n : Nat, s.controller.termNumber = n + 1 :=
      ⟨(s.controller.termNumber - 1).toNat, by omega⟩
    rw [hn] at ha
    rw [h.leaders_eq, show s.controller.termNumber.toNat = n + 1 by omega, List.range_succ,
      List.map_append, List.map_singleton, List.getLast?_concat, ha]
  refine ⟨⟨a, ha, hlast, fun now data c' es hconv e he => ?_⟩, h.leaders_eq,
    receiveVoteRequest_ok hlast⟩
  unfold convertDataToEntries at hconv
  rw [hlast] at hconv
  obtain ⟨hleader, hterm⟩ := convertAll_ok hconv e he
  exact ⟨(Option.some.inj hleader).symm, hterm⟩

theorem Stage.agrees_iff {s : Chronicle} (h : Stage s.record s.controller.ledger)
    (hmid : ¬ s.controller.MidElection) :
    Agrees s ↔ 0 < s.controller.termNumber ∧ ¬ s.controller.Adopting := by
  cases h with
  | idle hb ha =>
    have ha' : Aligned s.record s.controller.termLeaders s.controller.termNumber := ha
    have hnot : ¬ s.controller.Adopting := fun ⟨_, hm⟩ => Ledger.not_busy_zero hm rfl hb
    refine ⟨fun hagree => ⟨?_, hnot⟩, fun hterm => ha'.agrees hterm.1⟩
    obtain ⟨a, -, hlast, -⟩ := hagree.last
    by_contra hle
    rw [ha'.leaders_eq, Int.toNat_of_nonpos (not_lt.mp hle)] at hlast
    cases hlast
  | going p hb hp =>
    have hmem : p ∈ s.controller.ledger.phases :=
      (Multiset.mem_filter.mp (hb ▸ Multiset.mem_singleton_self p)).1
    cases p with
    | electing n => exact absurd ⟨n, Or.inl hmem⟩ hmid
    | elected n => exact absurd ⟨n, Or.inr (Or.inl hmem)⟩ hmid
    | ending n => exact absurd ⟨n, Or.inr (Or.inr hmem)⟩ hmid
    | adopting leader =>
      -- the list is one short
      obtain ⟨a, -, ha⟩ := hp
      refine iff_of_false (fun hagree => ?_) fun hboth => hboth.2 ⟨leader, hmem⟩
      have heq : s.controller.termLeaders ++ [some a] = s.controller.termLeaders :=
        ha.leaders_eq.trans hagree.one_each.symm
      exact absurd heq (by simp)
    | cancelling term => exact absurd hp id

/-! ## 5. Runs -/

/-- A fresh controller has entered no term. -/
def Chronicle.init (address : Address) (instanceId current : Nat) (pollRetries : ℕ+) (maxAge : ℚ)
    (maxCount : Nat) : Chronicle :=
  ⟨Controller.init address instanceId current pollRetries maxAge maxCount, fun _ => none⟩

theorem Stage.step {s s' : Chronicle} {ev : Event} (h : Stage s.record s.controller.ledger)
    (hs : s.step ev = some s') (horderly : s.controller.Orderly ev) :
    Stage s'.record s'.controller.ledger := by
  obtain ⟨c', hc, rfl⟩ := Option.map_eq_some_iff.mp hs
  obtain ⟨hfits, hmem⟩ := fits_step hc
  change Stage _ c'.ledger
  rw [ledger_step hc]
  exact h.apply hfits hmem horderly

/-- **In a run of orderly steps, the list of leaders agrees with the term in every state that is
not in the middle of an election, exactly if a term has been entered and none is being taken
over.** -/
theorem leaders_agree (address : Address) (instanceId current : Nat) (pollRetries : ℕ+)
    (maxAge : ℚ) (maxCount : Nat) (evs : List Event)
    (horderly : Along Chronicle.step (fun s ev _ => s.controller.Orderly ev)
      (Chronicle.init address instanceId current pollRetries maxAge maxCount) evs) :
    Always Chronicle.step
      (fun s => ¬ s.controller.MidElection →
        (Agrees s ↔ 0 < s.controller.termNumber ∧ ¬ s.controller.Adopting))
      (Chronicle.init address instanceId current pollRetries maxAge maxCount) evs := by
  have hinit : Stage (fun _ => none)
      (Controller.init address instanceId current pollRetries maxAge maxCount).ledger :=
    .idle rfl ⟨le_refl _, rfl, fun hlt => absurd hlt (lt_irrefl _), fun _ _ => rfl⟩
  have hall : Always Chronicle.step (fun s => Stage s.record s.controller.ledger)
      (Chronicle.init address instanceId current pollRetries maxAge maxCount) evs :=
    horderly.always (fun s ev s' h hs ho => h.step hs ho) hinit
  exact hall.mono fun s h => h.agrees_iff

/-- The run in which a lone node is elected and takes over the next term from an update. -/
def loneElection : List Event :=
  [.boot, .resume (.electing 1 none) 0, .resume (.elected 1 none) 5,
    .resume (.announcing 1 []) 5, .logUpdate (leaderUpdate 2 6),
    .resume (.cancelElection (leaderUpdate 2 6)) 6,
    .resume (.adopting (leaderUpdate 2 6) (some ⟨"127.0.0.1", 9001⟩)) 6]

theorem lone_election_agrees :
    (run Chronicle.step (Chronicle.init ⟨"127.0.0.1", 9002⟩ 7 0 1 0 0) loneElection).isSome ∧
      Always Chronicle.step
        (fun s => ¬ s.controller.MidElection →
          (Agrees s ↔ 0 < s.controller.termNumber ∧ ¬ s.controller.Adopting))
        (Chronicle.init ⟨"127.0.0.1", 9002⟩ 7 0 1 0 0) loneElection := by
  refine ⟨by decide, leaders_agree ⟨"127.0.0.1", 9002⟩ 7 0 1 0 0 loneElection ?_⟩
  decide

/-- A node that loses its election has recorded a leader for a term it has not entered. -/
theorem lost_election_disagrees :
    ¬ ∀ (address : Address) (instanceId current : Nat) (pollRetries : ℕ+) (maxAge : ℚ)
        (maxCount : Nat) (evs : List Event),
      Always Chronicle.step (fun s => ¬ s.controller.MidElection → Agrees s)
        (Chronicle.init address instanceId current pollRetries maxAge maxCount) evs := by
  intro h
  have hlast := (h ⟨"127.0.0.1", 9002⟩ 7 0 1 0 0
    [.membership .healthy (Dict.empty.set ⟨"127.0.0.1", 9001⟩ .healthy)
        (Dict.empty.set ⟨"127.0.0.1", 9001⟩ 9) [],
      .boot, .resume (.electing 1 none) 0, .resume (.lost 1) 0]).last rfl
  have hnot : ∀ s : Chronicle, s.controller.tasks = [] → ¬ s.controller.MidElection := by
    rintro s htasks ⟨n, hn⟩
    have hphases : s.controller.ledger.phases = 0 := by
      simp [ledger, htasks]
    rw [hphases] at hn
    simp at hn
  have hone := (hlast (hnot _ rfl)).one_each
  exact absurd (congrArg List.length hone) (by decide)

end Controller
end Hedra
