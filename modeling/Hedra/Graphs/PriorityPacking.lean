/-
# What is packed by priority

The loops of `partion_prioritized_stage_batches`
(`core/graphs/stages/base/parallel/batch_executor.py`) are those of a greedy packing, one for each
transition that has not been seen.  All transitions are placed if and only if the batch of the first
one lacks nothing, and the batches of the others have nothing left when it is the first one's turn.

What carries this is that in front of the first there are only skipped transitions of the same
priority: what is left in front of it is known (`rest_skipped`), and a batch that gets as far as any
transition that is not skipped has the first one again (`mem_pack_first`).

* `foldlM_packOther`: the inner loop is one packing of the rest;
* `foldlM_packNext`: the outer loop is a packing for each transition not seen;
* `Split.placed_iff`: all are placed exactly in the case above;
* `placed_iff_fits`: the same as a condition on the transitions and the CPUs (`Fits`).
-/
import Hedra.Graphs.PriorityBatches
import Mathlib.Data.List.Induction

namespace Hedra
namespace Graphs
namespace PriorityBatches

open Lib Packing Shares

/-! ## 1. Ranges -/

namespace StagePriority

variable {p q : StagePriority} {n : ℕ}

theorem range_spec (p : StagePriority) (h : 0 < n) : 1 ≤ (p.getWorkerAllocationRange n).1 ∧
    (p.getWorkerAllocationRange n).1 ≤ (p.getWorkerAllocationRange n).2 ∧
    (p.getWorkerAllocationRange n).2 ≤ n := by
  cases p <;> simp only [getWorkerAllocationRange] <;> omega

/-- A later priority needs as much, or any number of workers will do. -/
theorem least_mono (h : p.value ≤ q.value) (hn : 0 < n) :
    (p.getWorkerAllocationRange n).1 ≤ (q.getWorkerAllocationRange n).1 ∨
      (q.getWorkerAllocationRange n).1 = 1 ∧ (q.getWorkerAllocationRange n).2 = n := by
  cases p <;> cases q <;> simp [getWorkerAllocationRange, value] at h ⊢ <;> omega

/-- Beside a later priority nothing is left, or any worker will do for the earlier one, or they are the
same and the first to share takes all. -/
theorem beside_cases (h : p.value ≤ q.value) (hn : 0 < n) :
    n - (q.getWorkerAllocationRange n).2 = 0 ∨ (p.getWorkerAllocationRange n).1 = 1 ∨
      p = q ∧ (p.getWorkerAllocationRange n).1 ≤ n - (q.getWorkerAllocationRange n).2 + 1 ∧
        n - (q.getWorkerAllocationRange n).2 ≤ (p.getWorkerAllocationRange n).2 := by
  cases p <;> cases q <;> simp [getWorkerAllocationRange, value] at h ⊢
  all_goals omega

end StagePriority

/-- The shares of the transitions in a pool. -/
def shares (maximum : ℕ+) : Shares Transition where
  least t := (t.range maximum).1
  most t := (t.range maximum).2
  one_le_least t := (t.source.priorityLevel.range_spec maximum.pos).1
  least_le_most t := (t.source.priorityLevel.range_spec maximum.pos).2.1

theorem most_le (maximum : ℕ+) (t : Transition) : (shares maximum).most t ≤ maximum :=
  (t.source.priorityLevel.range_spec maximum.pos).2.2

/-! ## 2. The transitions in order -/

namespace Transitions

variable {ts : Transitions} {t u : Transition}

theorem mem_sorted : t ∈ ts.sorted ↔ t ∈ ts.list := List.mem_insertionSort _

theorem nodup_sorted : (ts.sorted.map fun t => (t.source.name, t.destination)).Nodup :=
  ((List.perm_insertionSort _ ts.list).map _).nodup_iff.mpr ts.nodup

theorem pairwise_sorted :
    ts.sorted.Pairwise fun t u => t.source.priorityLevel.value ≤ u.source.priorityLevel.value := by
  have htotal : Std.Total fun t u : Transition => t.source.priorityLevel.value ≤ u.source.priorityLevel.value :=
    ⟨fun t u => le_total _ _⟩
  have htrans : IsTrans Transition fun t u => t.source.priorityLevel.value ≤ u.source.priorityLevel.value :=
    ⟨fun _ _ _ => le_trans⟩
  exact List.pairwise_insertionSort _ ts.list

/-- Transitions with the same edge are the same. -/
theorem eq_of_edge (ht : t ∈ ts.list) (hu : u ∈ ts.list)
    (h : (t.source.name, t.destination) = (u.source.name, u.destination)) : t = u :=
  List.inj_on_of_nodup_map ts.nodup ht hu h

end Transitions

/-! ## 3. The loops -/

/-- What the `while` loop leaves. -/
theorem shrink_eq {maximum allocated minWorkers w : ℕ} (hmin : 1 ≤ minWorkers) (hw : minWorkers ≤ w + 1) :
    shrink maximum allocated minWorkers w = min w (max (maximum - allocated) (minWorkers - 1)) := by
  induction w with
  | zero => exact (Nat.zero_min _).symm
  | succ w ih =>
    rw [shrink]
    split
    · next h =>
      rw [ih h.2]
      omega
    · next h => omega

/-- **A turn of the inner loop** is a step of the packing. -/
theorem packOther_eq {maximum : ℕ+} {counts : Dict String (ℕ × ℕ)} {t other : Transition} {g : Group}
    (hne : other ≠ t) (hseen : t ∉ g.seen) (hg : g.allocated ≤ maximum)
    (hkey : counts.get? other.source.name = some (other.range maximum)) :
    packOther maximum counts t g other =
      .ok (if 0 < (shares maximum).share (maximum - g.allocated) other then
        ⟨g.allocated + (shares maximum).share (maximum - g.allocated) other,
          g.entries ++ [other.entry ((shares maximum).share (maximum - g.allocated) other)],
          g.seen ++ [other]⟩
      else g) := by
  have hleast := (shares maximum).one_le_least other
  have hle := (shares maximum).least_le_most other
  have hshrink := @shrink_eq maximum g.allocated ((shares maximum).least other) ((shares maximum).most other)
    hleast (by omega)
  have hw : (g.allocated + shrink maximum g.allocated ((shares maximum).least other)
      ((shares maximum).most other) ≤ maximum ∧
      0 < shrink maximum g.allocated ((shares maximum).least other) ((shares maximum).most other)) ↔
      0 < (shares maximum).share (maximum - g.allocated) other := by
    rw [hshrink, share]
    split <;> omega
  have heq : 0 < (shares maximum).share (maximum - g.allocated) other →
      shrink maximum g.allocated ((shares maximum).least other) ((shares maximum).most other) =
        (shares maximum).share (maximum - g.allocated) other := by
    intro hpos
    rw [hshrink]
    rw [share] at hpos ⊢
    split at hpos
    · next hleft => rw [if_pos hleft]; omega
    · exact absurd hpos (Nat.lt_irrefl 0)
  rw [packOther, if_pos ⟨hne, hseen⟩, hkey]
  change (if g.allocated + shrink maximum g.allocated ((shares maximum).least other)
      ((shares maximum).most other) ≤ maximum ∧
      0 < shrink maximum g.allocated ((shares maximum).least other) ((shares maximum).most other) then
    Except.ok _ else Except.ok g) = _
  by_cases hpos : 0 < (shares maximum).share (maximum - g.allocated) other
  · rw [if_pos (hw.mpr hpos), if_pos hpos, ← heq hpos]
    rfl
  · rw [if_neg (fun h => hpos (hw.mp h)), if_neg hpos]

/-- The others in the batch of a transition. -/
def others (maximum : ℕ+) (l : List Transition) (t : Transition) : List (Transition × ℕ) :=
  (shares maximum).pack (maximum - (shares maximum).most t) (l.filter (· ≠ t))

/-- The batch of a transition. -/
def batch (maximum : ℕ+) (l : List Transition) (t : Transition) : List (Transition × ℕ) :=
  (t, (shares maximum).most t) :: others maximum l t

/-- The batches of the transitions that have not been seen. -/
def groups (maximum : ℕ+) (l : List Transition) :
    List Transition → List Transition → List (List (Transition × ℕ))
  | _, [] => []
  | seen, t :: ts =>
    if t ∈ seen then groups maximum l seen ts
    else batch maximum l t ::
      groups maximum l (seen ++ (others maximum l t).map Prod.fst ++ [t]) ts

section Loops

variable {maximum : ℕ+} {counts : Dict String (ℕ × ℕ)} {t : Transition} {l : List Transition}

/-- **The inner loop.** -/
theorem foldlM_packOther {rest : List Transition} {g : Group} (hseen : t ∉ g.seen)
    (hg : g.allocated ≤ maximum)
    (hkey : ∀ o ∈ rest, o ≠ t → counts.get? o.source.name = some (o.range maximum)) :
    ∃ allocated, rest.foldlM (packOther maximum counts t) g = .ok ⟨allocated,
      g.entries ++ ((shares maximum).pack (maximum - g.allocated) (rest.filter (· ≠ t))).map
        (fun a => a.1.entry a.2),
      g.seen ++ ((shares maximum).pack (maximum - g.allocated) (rest.filter (· ≠ t))).map Prod.fst⟩ := by
  induction rest generalizing g with
  | nil => exact ⟨g.allocated, by simp [Shares.pack, pure, Except.pure]⟩
  | cons o rest ih =>
    have hrest := fun o' ho' => hkey o' (List.mem_cons_of_mem o ho')
    rw [List.foldlM_cons]
    by_cases ho : o = t
    · obtain ⟨allocated, h⟩ := ih hseen hg hrest
      refine ⟨allocated, ?_⟩
      rw [packOther, if_neg (fun h => h.1 ho), List.filter_cons_of_neg (by simpa using ho)]
      exact h
    · have hshare := share_le (s := shares maximum) (maximum - g.allocated) o
      rw [packOther_eq ho hseen hg (hkey o List.mem_cons_self ho),
        List.filter_cons_of_pos (by simpa using ho), pack_cons]
      by_cases hpos : 0 < (shares maximum).share (maximum - g.allocated) o
      · simp only [if_pos hpos]
        obtain ⟨allocated, h⟩ := @ih ⟨g.allocated + (shares maximum).share (maximum - g.allocated) o,
          g.entries ++ [o.entry ((shares maximum).share (maximum - g.allocated) o)], g.seen ++ [o]⟩
          (by simpa using ⟨hseen, Ne.symm ho⟩) (by dsimp only; omega) hrest
        refine ⟨allocated, h.trans ?_⟩
        rw [Nat.sub_add_eq]
        simp
      · simp only [if_neg hpos]
        obtain ⟨allocated, h⟩ := ih hseen hg hrest
        refine ⟨allocated, h.trans ?_⟩
        rw [Nat.eq_zero_of_not_pos hpos, Nat.sub_zero]
        rfl

/-- It raises where another transition has no range. -/
theorem packed_keyed {rest : List Transition} {g g' : Group} (hseen : t ∉ g.seen)
    (h : rest.foldlM (packOther maximum counts t) g = .ok g') :
    ∀ o ∈ rest, o ≠ t → ∃ r, counts.get? o.source.name = some r := by
  induction rest generalizing g with
  | nil => nofun
  | cons o rest ih =>
    rw [List.foldlM_cons] at h
    have hstep : ∃ g₁, packOther maximum counts t g o = .ok g₁ ∧
        rest.foldlM (packOther maximum counts t) g₁ = .ok g' := by
      cases hp : packOther maximum counts t g o with
      | error e => rw [hp] at h; cases h
      | ok g₁ => rw [hp] at h; exact ⟨g₁, rfl, h⟩
    obtain ⟨g₁, hp, h⟩ := hstep
    have hseen₁ : t ∉ g₁.seen ∧ (o ≠ t → ∃ r, counts.get? o.source.name = some r) := by
      unfold packOther at hp
      split at hp
      · next hne =>
        split at hp
        · cases hp
        · next minWorkers maxWorkers hkey =>
          refine ⟨?_, fun _ => ⟨_, hkey⟩⟩
          dsimp only at hp
          split at hp <;> cases hp
          · simpa using ⟨hseen, Ne.symm hne.1⟩
          · exact hseen
      · next hne =>
        cases hp
        exact ⟨hseen, fun ho => absurd ⟨ho, hseen⟩ hne⟩
    intro o' ho' hne
    rcases List.mem_cons.mp ho' with rfl | ho'
    · exact hseen₁.2 hne
    · exact ih hseen₁.1 h o' ho' hne

/-- **The outer loop.** -/
theorem foldlM_packNext {rest seen : List Transition} {batches : List (List Entry)}
    (hrest : ∀ o ∈ rest, o ∈ l) (hkey : ∀ o ∈ l, counts.get? o.source.name = some (o.range maximum)) :
    ∃ seen', rest.foldlM (packNext maximum counts l) (batches, seen) =
      .ok (batches ++ (groups maximum l seen rest).map fun g => g.map fun a => a.1.entry a.2, seen') := by
  induction rest generalizing batches seen with
  | nil => exact ⟨seen, by simp [groups, pure, Except.pure]⟩
  | cons t rest ih =>
    have hrest' := fun o ho => hrest o (List.mem_cons_of_mem t ho)
    rw [List.foldlM_cons, groups, packNext]
    by_cases hseen : t ∈ seen
    · rw [if_pos hseen, if_pos hseen]
      exact ih hrest'
    · obtain ⟨allocated, hgroup⟩ := @foldlM_packOther maximum counts t l
        ⟨(shares maximum).most t, [t.entry ((shares maximum).most t)], seen⟩ hseen (most_le maximum t)
        (fun o ho _ => hkey o ho)
      have hpack : packGroup maximum counts l t seen = .ok ⟨allocated,
          (batch maximum l t).map (fun a => a.1.entry a.2), seen ++ (others maximum l t).map Prod.fst⟩ := by
        rw [packGroup, hkey t (hrest t List.mem_cons_self)]
        exact hgroup
      rw [if_neg hseen, if_neg hseen, hpack]
      obtain ⟨seen', h⟩ := @ih (seen ++ (others maximum l t).map Prod.fst ++ [t])
        (batches ++ [(batch maximum l t).map fun a => a.1.entry a.2]) hrest'
      refine ⟨seen', h.trans ?_⟩
      rw [List.map_cons, List.append_assoc]
      rfl

/-- The first that has not been seen gets its batch. -/
theorem packGroup_of_foldlM {front rest seen : List Transition} {batches : List (List Entry)}
    {b : List (List Entry) × List Transition} (hfront : ∀ o ∈ front, o ∈ seen) (ht : t ∉ seen)
    (h : (front ++ t :: rest).foldlM (packNext maximum counts l) (batches, seen) = .ok b) :
    ∃ g, packGroup maximum counts l t seen = .ok g := by
  induction front with
  | nil =>
    rw [List.nil_append, List.foldlM_cons, packNext, if_neg ht] at h
    cases hg : packGroup maximum counts l t seen with
    | error e => rw [hg] at h; cases h
    | ok g => exact ⟨g, rfl⟩
  | cons o front ih =>
    rw [List.cons_append, List.foldlM_cons, packNext, if_pos (hfront o List.mem_cons_self)] at h
    exact ih (fun o ho => hfront o (List.mem_cons_of_mem _ ho)) h

/-- What has a range is packed with it. -/
theorem get?_workersCounts {name : String} {r : ℕ × ℕ}
    (h : (workersCounts maximum l).get? name = some r) :
    ∃ u ∈ l, u.isPacked ∧ u.source.name = name ∧ u.range maximum = r := by
  induction l using List.reverseRecOn with
  | nil => cases h
  | append_singleton l t ih =>
    have hlater : (workersCounts maximum l).get? name = some r →
        ∃ u ∈ l ++ [t], u.isPacked ∧ u.source.name = name ∧ u.range maximum = r := fun h =>
      let ⟨u, hu, hr⟩ := ih h
      ⟨u, List.mem_append_left _ hu, hr⟩
    rw [workersCounts, List.foldl_append] at h
    simp only [List.foldl_cons, List.foldl_nil] at h
    split at h
    · next hpacked =>
      rw [Dict.get?_set] at h
      split at h
      · next hname =>
        exact ⟨t, List.mem_append_right _ (List.mem_singleton_self t), hpacked, hname.symm, Option.some.inj h⟩
      · exact hlater h
    · exact hlater h

theorem exists_get?_workersCounts {u : Transition} (hu : u ∈ l) (hpacked : u.isPacked) :
    ∃ r, (workersCounts maximum l).get? u.source.name = some r := by
  induction l using List.reverseRecOn with
  | nil => cases hu
  | append_singleton l t ih =>
    rw [workersCounts, List.foldl_append]
    simp only [List.foldl_cons, List.foldl_nil]
    rcases List.mem_append.mp hu with hu | hu
    · split
      · rw [Dict.get?_set]
        split
        · exact ⟨_, rfl⟩
        · exact ih hu
      · exact ih hu
    · cases List.mem_singleton.mp hu
      rw [if_pos hpacked, Dict.get?_set_self]
      exact ⟨_, rfl⟩

end Loops

/-! ## 4. The first that is packed -/

/-- The transitions in order, about the first that is packed. -/
structure Split (ts : Transitions) (front : List Transition) (first : Transition)
    (rest : List Transition) : Prop where
  sorted : ts.sorted = front ++ first :: rest
  skipped : ∀ t ∈ front, t.isPacked = false
  packed : first.isPacked = true
  keyed : ∀ t ∈ ts.list, ∃ u ∈ ts.list, u.isPacked ∧ u.source = t.source

section About

variable {maximum : ℕ+} {ts : Transitions} {l₁ l₂ : List Transition} {t o : Transition} {w : ℕ}

theorem not_mem_of_sorted (hl : ts.sorted = l₁ ++ o :: l₂) : o ∉ l₁ ∧ o ∉ l₂ := by
  have hnodup : (l₁ ++ o :: l₂).Nodup := hl ▸ ts.nodup_sorted.of_map
  have hmiddle := List.nodup_middle.mp hnodup
  rw [List.nodup_cons, List.mem_append, not_or] at hmiddle
  exact hmiddle.1

variable (maximum) in
/-- What remains, by what is in front. -/
theorem remaining_eq (hl : ts.sorted = l₁ ++ o :: l₂) (t : Transition) :
    remaining maximum ts t o =
      maximum - (shares maximum).most t - (shares maximum).total (l₁.filter (· ≠ t)) := by
  have hwhile : ts.sorted.takeWhile (· ≠ o) = l₁ := by
    have hnot := (not_mem_of_sorted hl).1
    rw [hl, List.takeWhile_append_of_pos (fun a ha => by simpa using fun h : a = o => hnot (h ▸ ha)),
      List.takeWhile_cons_of_neg (by simp), List.append_nil]
  rw [remaining, hwhile]
  rfl

/-- Another transition in a batch, by what is in front. -/
theorem mem_others_iff (hl : ts.sorted = l₁ ++ o :: l₂) (hne : o ≠ t) :
    (o, w) ∈ others maximum ts.sorted t ↔
      w = (shares maximum).share ((shares maximum).rest (maximum - (shares maximum).most t)
        (l₁.filter (· ≠ t))) o ∧ 0 < w := by
  obtain ⟨h₁, h₂⟩ := not_mem_of_sorted hl
  rw [others, hl, List.filter_append, List.filter_cons_of_pos (by simpa using hne)]
  exact mem_pack_append_iff (fun h => h₁ (List.mem_of_mem_filter h)) fun h => h₂ (List.mem_of_mem_filter h)

theorem ne_of_mem_others (h : (o, w) ∈ others maximum ts.sorted t) : o ∈ ts.list ∧ o ≠ t := by
  have hmem := List.mem_filter.mp ((pack_sublist _ _).subset (List.mem_map_of_mem (f := Prod.fst) h))
  exact ⟨Transitions.mem_sorted.mp hmem.1, by simpa using hmem.2⟩

/-- What is left for a transition is what remains; or one in front of it needs more. -/
theorem rest_eq_or (hl : ts.sorted = l₁ ++ o :: l₂) (t : Transition) :
    (shares maximum).rest (maximum - (shares maximum).most t) (l₁.filter (· ≠ t)) = remaining maximum ts t o ∨
      (shares maximum).rest (maximum - (shares maximum).most t) (l₁.filter (· ≠ t)) + 1 <
        (shares maximum).least o ∨
      (shares maximum).least o = 1 ∧ (shares maximum).most o = maximum := by
  rcases rest_cases (s := shares maximum) (maximum - (shares maximum).most t) (l₁.filter (· ≠ t))
    with hrest | ⟨⟨a, ha, hshort⟩, -⟩
  · exact .inl (hrest.trans (remaining_eq maximum hl t).symm)
  · have hpair : a.source.priorityLevel.value ≤ o.source.priorityLevel.value := by
      have hsorted := ts.pairwise_sorted
      rw [hl] at hsorted
      exact (List.pairwise_append.mp hsorted).2.2 a (List.mem_of_mem_filter ha) o List.mem_cons_self
    have hmono : (shares maximum).least a ≤ (shares maximum).least o ∨
        (shares maximum).least o = 1 ∧ (shares maximum).most o = maximum :=
      StagePriority.least_mono hpair maximum.pos
    exact .inr (hmono.imp_left fun hmono => by omega)

/-- Where none lacks a single worker, all have their share. -/
theorem least_le_of_mem_others (hlack : ∀ o ∈ ts.list, o ≠ t → 0 < remaining maximum ts t o →
    remaining maximum ts t o + 1 ≠ (shares maximum).least o) (h : (o, w) ∈ others maximum ts.sorted t) :
    (shares maximum).least o ≤ w := by
  obtain ⟨ho, hne⟩ := ne_of_mem_others h
  obtain ⟨l₁, l₂, hl⟩ := List.append_of_mem (Transitions.mem_sorted.mpr ho)
  obtain ⟨rfl, hpos⟩ := (mem_others_iff hl hne).mp h
  obtain ⟨hleft, hle⟩ := share_pos_iff.mp hpos
  rw [least_le_share_iff]
  by_contra hlt
  rcases rest_eq_or hl t with hrest | hshort | ⟨hone, -⟩
  · rw [hrest] at hleft hle hlt
    exact hlack o ho hne hleft (by omega)
  · omega
  · omega

/-- One that lacks a single worker is packed with less than its share. -/
theorem mem_others_of_lacking (ho : o ∈ ts.list) (hne : o ≠ t) (hpos : 0 < remaining maximum ts t o)
    (hlack : remaining maximum ts t o + 1 = (shares maximum).least o) :
    ∃ w, (o, w) ∈ others maximum ts.sorted t ∧ w < (shares maximum).least o := by
  obtain ⟨l₁, l₂, hl⟩ := List.append_of_mem (Transitions.mem_sorted.mpr ho)
  have hremaining := remaining_eq maximum hl t
  have hrest := rest_of_pos (hremaining ▸ hpos)
  rw [← hremaining] at hrest
  refine ⟨_, (mem_others_iff hl hne).mpr ⟨rfl, ?_⟩, ?_⟩
  · rw [hrest, share_pos_iff]
    omega
  · rw [hrest]
    have hle := share_le (s := shares maximum) (remaining maximum ts t o) o
    omega

/-- One that is packed with its share had it left, unless any number of workers will do. -/
theorem least_le_remaining (h : (o, w) ∈ others maximum ts.sorted t) (hw : (shares maximum).least o ≤ w)
    (hmost : (shares maximum).most o < maximum) : (shares maximum).least o ≤ remaining maximum ts t o := by
  obtain ⟨ho, hne⟩ := ne_of_mem_others h
  obtain ⟨l₁, l₂, hl⟩ := List.append_of_mem (Transitions.mem_sorted.mpr ho)
  obtain ⟨rfl, hpos⟩ := (mem_others_iff hl hne).mp h
  rw [least_le_share_iff] at hw
  rcases rest_eq_or hl t with hrest | hshort | ⟨-, hall⟩
  · exact hrest ▸ hw
  · omega
  · omega

/-- With its share left, a transition is packed. -/
theorem mem_others_of_least_le (ho : o ∈ ts.list) (hne : o ≠ t)
    (hle : (shares maximum).least o ≤ remaining maximum ts t o) :
    o ∈ (others maximum ts.sorted t).map Prod.fst := by
  obtain ⟨l₁, l₂, hl⟩ := List.append_of_mem (Transitions.mem_sorted.mpr ho)
  have hremaining := remaining_eq maximum hl t
  have hleast := (shares maximum).one_le_least o
  have hrest : (shares maximum).rest (maximum - (shares maximum).most t) (l₁.filter (· ≠ t)) =
      maximum - (shares maximum).most t - (shares maximum).total (l₁.filter (· ≠ t)) :=
    rest_of_pos (by omega)
  refine List.mem_map.mpr ⟨(o, _), (mem_others_iff hl hne).mpr ⟨rfl, ?_⟩, rfl⟩
  rw [share_pos_iff]
  omega

end About

namespace Split

variable {maximum : ℕ+} {ts : Transitions} {front rest : List Transition} {first t o : Transition} {w : ℕ}

theorem value_le (h : Split ts front first rest) (ht : t ∈ rest) :
    first.source.priorityLevel.value ≤ t.source.priorityLevel.value := by
  have hsorted := ts.pairwise_sorted
  rw [h.sorted] at hsorted
  exact (List.pairwise_cons.mp (List.pairwise_append.mp hsorted).2.1).1 t ht

/-- What is skipped in front of the first has its priority. -/
theorem priorityLevel_eq (h : Split ts front first rest) (ht : t ∈ front) :
    t.source.priorityLevel = first.source.priorityLevel := by
  have hsorted := ts.pairwise_sorted
  rw [h.sorted] at hsorted
  have hbefore : t.source.priorityLevel.value ≤ first.source.priorityLevel.value :=
    (List.pairwise_append.mp hsorted).2.2 t ht first List.mem_cons_self
  have hmem : t ∈ ts.sorted := h.sorted ▸ List.mem_append_left _ ht
  obtain ⟨u, hu, hpacked, hsource⟩ := h.keyed t (Transitions.mem_sorted.mp hmem)
  have hafter : first.source.priorityLevel.value ≤ u.source.priorityLevel.value := by
    rw [← Transitions.mem_sorted, h.sorted] at hu
    rcases List.mem_append.mp hu with hu | hu
    · exact absurd hpacked (by rw [h.skipped u hu]; decide)
    · rcases List.mem_cons.mp hu with rfl | hu
      · exact le_rfl
      · exact h.value_le hu
  rw [hsource] at hafter
  revert hbefore hafter
  cases t.source.priorityLevel <;> cases first.source.priorityLevel <;> simp [StagePriority.value]

theorem least_eq (h : Split ts front first rest) (ht : t ∈ front) :
    (shares maximum).least t = (shares maximum).least first := by
  simp only [shares, Transition.range, h.priorityLevel_eq ht]

theorem most_eq (h : Split ts front first rest) (ht : t ∈ front) :
    (shares maximum).most t = (shares maximum).most first := by
  simp only [shares, Transition.range, h.priorityLevel_eq ht]

variable (maximum) in
/-- What is left of the pool beside a later transition. -/
theorem beside (h : Split ts front first rest) (ht : t ∈ rest) :
    maximum - (shares maximum).most t = 0 ∨ (shares maximum).least first = 1 ∨
      (shares maximum).most first = (shares maximum).most t ∧
        (shares maximum).least first ≤ maximum - (shares maximum).most t + 1 ∧
        maximum - (shares maximum).most t ≤ (shares maximum).most first := by
  rcases StagePriority.beside_cases (h.value_le ht) maximum.pos with hnone | hone | ⟨hsame, hleast, hmost⟩
  · exact .inl hnone
  · exact .inr (.inl hone)
  · refine .inr (.inr ⟨?_, hleast, hmost⟩)
    simp only [shares, Transition.range, hsame]

/-- What is left in front of the first. -/
theorem rest_skipped (h : Split ts front first rest) (ht : t ∈ rest) :
    (shares maximum).rest (maximum - (shares maximum).most t) front =
      maximum - (shares maximum).most t - (shares maximum).total front := by
  rcases rest_cases (s := shares maximum) (maximum - (shares maximum).most t) front
    with hrest | ⟨⟨a, ha, hshort⟩, htotal⟩
  · exact hrest
  · have hzero : (shares maximum).rest (maximum - (shares maximum).most t) front = 0 := by
      rcases h.beside maximum ht with hnone | hone | ⟨-, hleast, hmost⟩
      · rw [hnone, rest_zero]
      · rw [h.least_eq ha] at hshort
        omega
      · cases front with
        | nil => cases ha
        | cons b front =>
          have hb := List.mem_cons_self (a := b) (l := front)
          rw [← h.least_eq hb] at hleast
          rw [← h.most_eq hb] at hmost
          exact rest_cons_eq_zero hleast hmost
    omega

theorem nodup (h : Split ts front first rest) : (front ++ first :: rest).Nodup :=
  h.sorted ▸ ts.nodup_sorted.of_map

theorem filter_front (h : Split ts front first rest) (ht : t ∈ first :: rest) :
    front.filter (· ≠ t) = front := by
  refine List.filter_eq_self.mpr fun a ha => ?_
  simpa using fun heq : a = t => (List.nodup_append.mp h.nodup).2.2 a ha t ht heq

theorem ne_first (h : Split ts front first rest) (ht : t ∈ rest) : first ≠ t := by
  rintro rfl
  exact (List.nodup_cons.mp (List.nodup_append.mp h.nodup).2.1).1 ht

theorem remaining_first (h : Split ts front first rest) (ht : t ∈ rest) :
    remaining maximum ts t first =
      (shares maximum).rest (maximum - (shares maximum).most t) front := by
  rw [remaining_eq maximum h.sorted t, h.filter_front (List.mem_cons_of_mem _ ht), h.rest_skipped ht]

/-- Where there is something left when it is the first one's turn, it gets something. -/
theorem mem_pack_first (h : Split ts front first rest) (ht : t ∈ rest)
    (hpos : 0 < remaining maximum ts t first) :
    first ∈ (others maximum ts.sorted t).map Prod.fst := by
  rw [h.remaining_first ht] at hpos
  refine List.mem_map.mpr ⟨(first, _), (mem_others_iff h.sorted (h.ne_first ht)).mpr ⟨rfl, ?_⟩, rfl⟩
  rw [h.filter_front (List.mem_cons_of_mem _ ht)]
  have hle := rest_le (s := shares maximum) (maximum - (shares maximum).most t) front
  refine share_pos_iff.mpr ⟨hpos, ?_⟩
  rcases h.beside maximum ht with hnone | hone | ⟨-, hleast, hmost⟩
  · omega
  · omega
  · cases front with
    | nil => exact hleast
    | cons b front =>
      have hb := List.mem_cons_self (a := b) (l := front)
      rw [← h.least_eq hb] at hleast
      rw [← h.most_eq hb] at hmost
      rw [rest_cons_eq_zero hleast hmost] at hpos
      exact absurd hpos (Nat.lt_irrefl 0)

/-- What is packed behind the first has the first in front of it. -/
theorem remaining_pos (h : Split ts front first rest) (ht : t ∈ rest) (ho : o ∈ rest)
    (hmem : o ∈ (others maximum ts.sorted t).map Prod.fst) : 0 < remaining maximum ts t first := by
  obtain ⟨⟨o', w⟩, hpacked, rfl⟩ := List.mem_map.mp hmem
  rw [h.remaining_first ht]
  by_contra hzero
  have hne := (ne_of_mem_others hpacked).2
  obtain ⟨r₁, r₂, hrest⟩ := List.append_of_mem ho
  have hl : ts.sorted = (front ++ first :: r₁) ++ o' :: r₂ := by
    rw [h.sorted, hrest, List.append_assoc, List.cons_append]
  obtain ⟨hw, hpos⟩ := (mem_others_iff hl hne).mp hpacked
  rw [List.filter_append, h.filter_front (List.mem_cons_of_mem _ ht), rest_append,
    Nat.eq_zero_of_not_pos hzero, rest_zero, share_zero] at hw
  exact absurd hpos (by rw [hw]; exact Nat.lt_irrefl 0)

/-- Where nothing is left for the first, those in front of it are all that are packed. -/
theorem others_eq (h : Split ts front first rest) (ht : t ∈ rest)
    (hzero : remaining maximum ts t first = 0) :
    others maximum ts.sorted t = (shares maximum).pack (maximum - (shares maximum).most t) front := by
  rw [h.remaining_first ht] at hzero
  rw [others, h.sorted, List.filter_append, h.filter_front (List.mem_cons_of_mem _ ht), pack_append, hzero,
    pack_zero, List.append_nil]

/-- They have their shares, if they do so in the batch of the first. -/
theorem least_le_of_mem_front (h : Split ts front first rest) (ht : t ∈ rest)
    (hlack : ∀ o ∈ ts.list, o ≠ first → 0 < remaining maximum ts first o →
      remaining maximum ts first o + 1 ≠ (shares maximum).least o)
    (hmem : (o, w) ∈ (shares maximum).pack (maximum - (shares maximum).most t) front) :
    (shares maximum).least o ≤ w := by
  have ho : o ∈ front := (pack_sublist _ _).subset (List.mem_map_of_mem (f := Prod.fst) hmem)
  rcases h.beside maximum ht with hnone | hone | ⟨hsame, -⟩
  · rw [hnone, pack_zero] at hmem
    cases hmem
  · obtain ⟨-, -, -, -, hpos⟩ := mem_pack_iff.mp hmem
    rw [h.least_eq ho, hone]
    exact hpos
  · refine least_le_of_mem_others hlack ?_
    rw [others, h.sorted, List.filter_append, h.filter_front List.mem_cons_self, pack_append, hsame]
    exact List.mem_append_left _ hmem

end Split

/-! ## 5. The batches -/

section Groups

variable {maximum : ℕ+} {l later seen : List Transition} {t a : Transition}

theorem mem_groups {g : List (Transition × ℕ)} (h : g ∈ groups maximum l seen later) :
    ∃ t ∈ later, t ∉ seen ∧ g = batch maximum l t := by
  induction later generalizing seen with
  | nil => cases h
  | cons t later ih =>
    rw [groups] at h
    split at h
    · obtain ⟨u, hu, hunseen, hg⟩ := ih h
      exact ⟨u, List.mem_cons_of_mem t hu, hunseen, hg⟩
    · next hseen =>
      rcases List.mem_cons.mp h with hg | h
      · exact ⟨t, List.mem_cons_self, hseen, hg⟩
      · obtain ⟨u, hu, hunseen, hg⟩ := ih h
        exact ⟨u, List.mem_cons_of_mem t hu,
          fun hmem => hunseen (List.mem_append_left _ (List.mem_append_left _ hmem)), hg⟩

/-- One that is not packed beside others is in a batch of its own, unless it has been seen. -/
theorem count_groups (hnodup : later.Nodup)
    (hnot : ∀ t ∈ later, t ∉ seen → a ∉ (others maximum l t).map Prod.fst) :
    ((groups maximum l seen later).flatten.map Prod.fst).count a =
      if a ∈ later ∧ a ∉ seen then 1 else 0 := by
  induction later generalizing seen with
  | nil => simp [groups]
  | cons t later ih =>
    obtain ⟨ht, hnodup⟩ := List.nodup_cons.mp hnodup
    rw [groups]
    by_cases hseen : t ∈ seen
    · rw [if_pos hseen, ih hnodup fun u hu => hnot u (List.mem_cons_of_mem t hu)]
      refine if_congr ?_ rfl rfl
      rw [List.mem_cons]
      exact ⟨fun h => ⟨.inr h.1, h.2⟩, fun h => ⟨h.1.resolve_left fun heq => h.2 (heq ▸ hseen), h.2⟩⟩
    · have hothers : a ∉ (others maximum l t).map Prod.fst := hnot t List.mem_cons_self hseen
      rw [if_neg hseen, List.flatten_cons, List.map_append, List.count_append, ih hnodup fun u hu hu' =>
        hnot u (List.mem_cons_of_mem t hu) fun hmem =>
          hu' (List.mem_append_left _ (List.mem_append_left _ hmem))]
      rw [batch, List.map_cons, List.count_cons, List.count_eq_zero_of_not_mem hothers]
      by_cases hat : a = t
      · subst hat
        simp [ht, hseen]
      · simp [hat, hothers, Ne.symm hat]

/-- Those in front have been seen. -/
theorem groups_append {front : List Transition} (hfront : ∀ o ∈ front, o ∈ seen) :
    groups maximum l seen (front ++ later) = groups maximum l seen later := by
  induction front with
  | nil => rfl
  | cons o front ih =>
    rw [List.cons_append, groups, if_pos (hfront o List.mem_cons_self)]
    exact ih fun o ho => hfront o (List.mem_cons_of_mem _ ho)

end Groups

section Iff

variable {maximum : ℕ+} {ts : Transitions} {front rest seen : List Transition} {first : Transition}

/-- Behind the batch of the first come those of the transitions that it has not packed. -/
theorem Split.groups_eq (h : Split ts front first rest)
    (hseen : ∀ t ∈ ts.list, t ∈ seen ↔ t.isPacked = false) :
    groups maximum ts.sorted seen ts.sorted = batch maximum ts.sorted first ::
      groups maximum ts.sorted (seen ++ (others maximum ts.sorted first).map Prod.fst ++ [first]) rest := by
  have hmem : ∀ {t}, t ∈ front ++ first :: rest → t ∈ ts.list := fun ht =>
    Transitions.mem_sorted.mp (h.sorted ▸ ht)
  have hfront : ∀ t ∈ front, t ∈ seen := fun t ht =>
    (hseen t (hmem (List.mem_append_left _ ht))).mpr (h.skipped t ht)
  have hfirst : first ∉ seen := fun hs => by
    have hnot := (hseen first (hmem (List.mem_append_right _ List.mem_cons_self))).mp hs
    rw [h.packed] at hnot
    cases hnot
  have hgroups : groups maximum ts.sorted seen (front ++ first :: rest) = batch maximum ts.sorted first ::
      groups maximum ts.sorted (seen ++ (others maximum ts.sorted first).map Prod.fst ++ [first]) rest := by
    rw [groups_append hfront, groups, if_neg hfirst]
  rwa [← h.sorted] at hgroups

theorem Split.mem_list (h : Split ts front first rest) {t : Transition} (ht : t ∈ front ++ first :: rest) :
    t ∈ ts.list := Transitions.mem_sorted.mp (h.sorted ▸ ht)

theorem Split.mem_rest (h : Split ts front first rest) {t : Transition} (ht : t ∈ ts.list)
    (hpacked : t.isPacked) (hne : t ≠ first) : t ∈ rest := by
  rw [← Transitions.mem_sorted, h.sorted] at ht
  rcases List.mem_append.mp ht with ht | ht
  · exact absurd hpacked (by rw [h.skipped t ht]; decide)
  · exact (List.mem_cons.mp ht).resolve_left hne

/-- What has been seen behind the batch of the first. -/
def seenThen (maximum : ℕ+) (ts : Transitions) (first : Transition) (seen : List Transition) :
    List Transition :=
  seen ++ (others maximum ts.sorted first).map Prod.fst ++ [first]

/-- Where all are placed, none lacks a single worker beside the first, and what is not packed with it
does not pack it again. -/
theorem Split.noneTwice (h : Split ts front first rest)
    (hcount : ∀ t ∈ ts.list, t.isPacked → ((batch maximum ts.sorted first ::
      groups maximum ts.sorted (seenThen maximum ts first seen) rest).flatten.map Prod.fst).count t = 1)
    (hleast : ∀ a ∈ others maximum ts.sorted first, (shares maximum).least a.1 ≤ a.2)
    {t : Transition} (ht : t ∈ ts.list) (hpacked : t.isPacked) (hne : t ≠ first) :
    (shares maximum).least t ≤ remaining maximum ts first t ∨ remaining maximum ts t first = 0 := by
  by_contra hnot
  rw [not_or] at hnot
  have ht' := h.mem_rest ht hpacked hne
  have hpos : 0 < remaining maximum ts t first := Nat.pos_of_ne_zero hnot.2
  have hothers : t ∉ (others maximum ts.sorted first).map Prod.fst := by
    intro hmem
    obtain ⟨⟨o, w⟩, how, heq⟩ := List.mem_map.mp hmem
    obtain rfl : o = t := heq
    refine hnot.1 (least_le_remaining how (hleast _ how) ?_)
    have hle := rest_le (s := shares maximum) (maximum - (shares maximum).most o) front
    rw [h.remaining_first ht'] at hpos
    omega
  -- so it is in a later batch, and with it the first once more
  have hmem := List.count_pos_iff.mp (Nat.lt_of_lt_of_eq Nat.one_pos (hcount t ht hpacked).symm)
  rw [List.flatten_cons, List.map_append, List.mem_append, batch, List.map_cons, List.mem_cons] at hmem
  obtain ⟨⟨o, w⟩, how, heq⟩ := List.mem_map.mp (hmem.resolve_left fun hm => hm.elim hne hothers)
  obtain rfl : o = t := heq
  obtain ⟨g, hg, hin⟩ := List.mem_flatten.mp how
  obtain ⟨u, hu, -, rfl⟩ := mem_groups hg
  have hagain : first ∈ (others maximum ts.sorted u).map Prod.fst := by
    rcases List.mem_cons.mp hin with heq | hin
    · cases heq
      exact h.mem_pack_first hu hpos
    · exact h.mem_pack_first hu (h.remaining_pos hu ht' (List.mem_map.mpr ⟨_, hin, rfl⟩))
  obtain ⟨e, he, heq⟩ := List.mem_map.mp hagain
  have hlater : first ∈ ((groups maximum ts.sorted (seenThen maximum ts first seen) rest).flatten).map
      Prod.fst := List.mem_map.mpr ⟨e, List.mem_flatten.mpr ⟨_, hg, List.mem_cons_of_mem _ he⟩, heq⟩
  have hone := hcount first (h.mem_list (List.mem_append_right _ List.mem_cons_self)) h.packed
  rw [List.flatten_cons, List.map_append, List.count_append, batch, List.map_cons,
    List.count_cons_self] at hone
  have htwo := List.count_pos_iff.mpr hlater
  omega

/-- What is packed behind the batch of the first has nothing left when it is the first one's turn. -/
theorem Split.remaining_eq_zero (h : Split ts front first rest)
    (hseen : ∀ t ∈ ts.list, t ∈ seen ↔ t.isPacked = false)
    (htwice : ∀ t ∈ ts.list, t.isPacked → t ≠ first →
      (shares maximum).least t ≤ remaining maximum ts first t ∨ remaining maximum ts t first = 0)
    {u : Transition} (hu : u ∈ rest) (hunseen : u ∉ seenThen maximum ts first seen) :
    remaining maximum ts u first = 0 := by
  have hlist : u ∈ ts.list := h.mem_list (List.mem_append_right _ (List.mem_cons_of_mem _ hu))
  rw [seenThen, List.mem_append, List.mem_append, not_or, not_or, hseen u hlist] at hunseen
  have hne : u ≠ first := (h.ne_first hu).symm
  exact (htwice u hlist (Bool.eq_true_of_not_eq_false hunseen.1.1) hne).resolve_left fun hle =>
    hunseen.1.2 (mem_others_of_least_le hlist hne hle)

/-- Then all are placed once. -/
theorem Split.count_eq_one (h : Split ts front first rest)
    (hseen : ∀ t ∈ ts.list, t ∈ seen ↔ t.isPacked = false)
    (htwice : ∀ t ∈ ts.list, t.isPacked → t ≠ first →
      (shares maximum).least t ≤ remaining maximum ts first t ∨ remaining maximum ts t first = 0)
    {a : Transition} (ha : a ∈ ts.list) (hpacked : a.isPacked) :
    ((batch maximum ts.sorted first ::
      groups maximum ts.sorted (seenThen maximum ts first seen) rest).flatten.map Prod.fst).count a = 1 := by
  have hrest : rest.Nodup := (List.nodup_cons.mp (List.nodup_append.mp h.nodup).2.1).2
  have hnot : ∀ u ∈ rest, u ∉ seenThen maximum ts first seen →
      a ∉ (others maximum ts.sorted u).map Prod.fst := by
    intro u hu hunseen hmem
    rw [h.others_eq hu (h.remaining_eq_zero hseen htwice hu hunseen)] at hmem
    rw [h.skipped a ((pack_sublist _ _).subset hmem)] at hpacked
    cases hpacked
  have hself : first ∉ (others maximum ts.sorted first).map Prod.fst := fun hmem => by
    obtain ⟨e, he, heq⟩ := List.mem_map.mp hmem
    exact (ne_of_mem_others he).2 heq
  rw [List.flatten_cons, List.map_append, List.count_append, count_groups hrest hnot, batch, List.map_cons]
  by_cases hne : a = first
  · subst hne
    rw [List.count_cons_self, List.count_eq_zero_of_not_mem hself,
      if_neg fun hmem => (h.ne_first hmem.1) rfl]
  · have hunseen : a ∉ seen := fun hs => by
      rw [(hseen a ha).mp hs] at hpacked
      cases hpacked
    rw [List.count_cons_of_ne (Ne.symm hne)]
    by_cases hin : a ∈ (others maximum ts.sorted first).map Prod.fst
    · have hsub : ((others maximum ts.sorted first).map Prod.fst).Nodup :=
        ((ts.nodup_sorted.of_map).filter _).sublist (pack_sublist _ _)
      rw [List.count_eq_one_of_mem hsub hin, if_neg]
      exact fun hmem => hmem.2 (List.mem_append_left _ (List.mem_append_right _ hin))
    · rw [List.count_eq_zero_of_not_mem hin, if_pos]
      refine ⟨h.mem_rest ha hpacked hne, ?_⟩
      simp only [seenThen, List.mem_append, List.mem_singleton, not_or]
      exact ⟨⟨hunseen, hin⟩, hne⟩

/-- **All are placed if and only if none lacks a single worker beside the first, and what is not packed
with it does not pack it again.** -/
theorem Split.placed_iff (h : Split ts front first rest)
    (hseen : ∀ t ∈ ts.list, t ∈ seen ↔ t.isPacked = false) :
    ((∀ t ∈ ts.list, t.isPacked →
        ((groups maximum ts.sorted seen ts.sorted).flatten.map Prod.fst).count t = 1) ∧
      ∀ g ∈ groups maximum ts.sorted seen ts.sorted, ∀ a ∈ g, (shares maximum).least a.1 ≤ a.2) ↔
    (∀ o ∈ ts.list, o ≠ first → 0 < remaining maximum ts first o →
      remaining maximum ts first o + 1 ≠ (shares maximum).least o) ∧
    ∀ t ∈ ts.list, t.isPacked → t ≠ first →
      (shares maximum).least t ≤ remaining maximum ts first t ∨ remaining maximum ts t first = 0 := by
  rw [h.groups_eq hseen]
  constructor
  · rintro ⟨hcount, hleast⟩
    refine ⟨fun o ho hne hpos hlack => ?_, fun t ht hpacked hne => ?_⟩
    · obtain ⟨w, hmem, hlt⟩ := mem_others_of_lacking ho hne hpos hlack
      exact absurd (hleast _ List.mem_cons_self _ (List.mem_cons_of_mem _ hmem)) (Nat.not_le.mpr hlt)
    · exact h.noneTwice hcount (fun a ha => hleast _ List.mem_cons_self a (List.mem_cons_of_mem _ ha))
        ht hpacked hne
  · rintro ⟨hlack, htwice⟩
    refine ⟨fun a ha hpacked => h.count_eq_one hseen htwice ha hpacked, fun g hg a hag => ?_⟩
    rcases List.mem_cons.mp hg with rfl | hg
    · rcases List.mem_cons.mp hag with rfl | hag
      · exact (shares maximum).least_le_most first
      · exact least_le_of_mem_others hlack hag
    · obtain ⟨u, hu, hunseen, rfl⟩ := mem_groups hg
      rcases List.mem_cons.mp hag with rfl | hag
      · exact (shares maximum).least_le_most u
      · rw [h.others_eq hu (h.remaining_eq_zero hseen htwice hu hunseen)] at hag
        exact h.least_le_of_mem_front hu hlack hag

end Iff

/-! ## 6. What is placed -/

section Places

variable {maximum : ℕ+} {ts : Transitions} {t : Transition}

/-- Transitions are counted by their edges. -/
theorem count_edge {l : List Transition} (hl : ∀ a ∈ l, a ∈ ts.list) (ht : t ∈ ts.list) :
    (l.map fun t => (t.source.name, t.destination)).count (t.source.name, t.destination) = l.count t := by
  induction l with
  | nil => rfl
  | cons a l ih =>
    rw [List.map_cons, List.count_cons, List.count_cons, ih fun b hb => hl b (List.mem_cons_of_mem a hb)]
    congr 1
    refine if_congr ?_ rfl rfl
    rw [beq_iff_eq, beq_iff_eq]
    exact ⟨ts.eq_of_edge (hl a List.mem_cons_self) ht, fun h => h ▸ rfl⟩

theorem mem_kept : t ∈ ts.sorted.filter (fun t => !t.skipStage) ↔ t ∈ ts.list ∧ t.skipStage = false := by
  rw [List.mem_filter, Transitions.mem_sorted, Bool.not_eq_true']

theorem nodup_kept : (ts.sorted.filter fun t => !t.skipStage).Nodup := ts.nodup_sorted.of_map.filter _

/-- With one parallel stage. -/
theorem places_last_iff {last : Transition} (hlast : last ∈ ts.sorted.filter fun t => !t.skipStage) :
    Places maximum ts [[last.entry last.source.workers]] ↔
      (ts.sorted.filter fun t => !t.skipStage) = [last] ∧ last.source.workers ≤ maximum := by
  have hlist := (mem_kept.mp hlast).1
  constructor
  · intro h
    refine ⟨?_, h.total _ List.mem_cons_self⟩
    have hall : ∀ t ∈ ts.sorted.filter (fun t => !t.skipStage), t = last := by
      intro t ht
      have hcount := h.once t (mem_kept.mp ht).1 (mem_kept.mp ht).2
      have hmem := List.count_pos_iff.mp (Nat.lt_of_lt_of_eq Nat.one_pos hcount.symm)
      exact ts.eq_of_edge (mem_kept.mp ht).1 hlist (List.mem_singleton.mp hmem)
    have hreplicate := List.eq_replicate_of_mem hall
    have hpos := List.length_pos_of_mem hlast
    have hone : (ts.sorted.filter fun t => !t.skipStage).Nodup := nodup_kept
    rw [hreplicate, List.nodup_replicate] at hone
    rw [hreplicate, Nat.le_antisymm hone hpos]
    rfl
  · rintro ⟨hkept, hworkers⟩
    refine ⟨fun t ht hskip => ?_, nofun, fun batch hbatch => ?_⟩
    · have hmem : t ∈ [last] := hkept ▸ mem_kept.mpr ⟨ht, hskip⟩
      cases List.mem_singleton.mp hmem
      exact List.count_singleton_self
    · cases List.mem_singleton.mp hbatch
      exact hworkers

/-- With no priorities. -/
theorem places_kept_iff : Places maximum ts
      [(ts.sorted.filter fun t => !t.skipStage).map fun t => t.entry t.source.workers] ↔
    ((ts.sorted.filter fun t => !t.skipStage).map fun t => t.source.workers).sum ≤ maximum := by
  have hworkers : ((ts.sorted.filter fun t => !t.skipStage).map fun t => t.entry t.source.workers).map
      Entry.workers = (ts.sorted.filter fun t => !t.skipStage).map fun t => t.source.workers := by
    rw [List.map_map]
    rfl
  constructor
  · intro h
    exact hworkers ▸ h.total _ List.mem_cons_self
  · intro h
    refine ⟨fun t ht hskip => ?_, nofun, fun batch hbatch => ?_⟩
    · rw [List.flatten_singleton, List.map_map]
      exact (count_edge (fun a ha => (mem_kept.mp ha).1) ht).trans
        (List.count_eq_one_of_mem nodup_kept (mem_kept.mpr ⟨ht, hskip⟩))
    · cases List.mem_singleton.mp hbatch
      exact hworkers ▸ h

/-- What is skipped or serial gets nothing. -/
def bypass (ts : Transitions) : List Transition :=
  ts.sorted.filter fun t => t.skipStage || !t.source.allowParallel

theorem mem_bypass (ht : t ∈ ts.list) : t ∈ bypass ts ↔ t.isPacked = false := by
  rw [bypass, List.mem_filter, Transition.isPacked]
  cases t.skipStage <;> cases t.source.allowParallel <;> simp [Transitions.mem_sorted, ht]

theorem mem_list_of_mem_bypass (ht : t ∈ bypass ts) : t ∈ ts.list :=
  Transitions.mem_sorted.mp (List.mem_of_mem_filter ht)

theorem sum_bypass : (((bypass ts).map fun t => t.entry 0).map Entry.workers).sum = 0 := by
  rw [List.map_map]
  exact List.sum_eq_zero fun w hw => by
    obtain ⟨t, -, rfl⟩ := List.mem_map.mp hw
    rfl

theorem mem_list_of_mem_batch {a : Transition × ℕ} (ht : t ∈ ts.list) (ha : a ∈ batch maximum ts.sorted t) :
    a.1 ∈ ts.list ∧ a.2 ≤ (shares maximum).most a.1 := by
  rcases List.mem_cons.mp ha with rfl | ha
  · exact ⟨ht, le_rfl⟩
  · obtain ⟨l₁, l₂, -, hw, -⟩ := mem_pack_iff.mp ha
    exact ⟨(ne_of_mem_others ha).1, hw ▸ share_le_most _ _⟩

theorem sum_batch (t : Transition) (l : List Transition) :
    (((batch maximum l t).map fun a => a.1.entry a.2).map Entry.workers).sum ≤ maximum := by
  have hsum := sum_pack_add_rest (s := shares maximum) (maximum - (shares maximum).most t) (l.filter (· ≠ t))
  have hle := most_le maximum t
  have hmap : ((batch maximum l t).map fun a => a.1.entry a.2).map Entry.workers =
      (shares maximum).most t :: (others maximum l t).map Prod.snd := by
    rw [List.map_map, batch, List.map_cons]
    rfl
  rw [hmap, List.sum_cons, others]
  omega

/-- What the groups hold are transitions, none of them with more than it may have. -/
theorem mem_list_of_mem_groups {g : List (Transition × ℕ)}
    (hg : g ∈ groups maximum ts.sorted (bypass ts) ts.sorted) {a : Transition × ℕ} (ha : a ∈ g) :
    a.1 ∈ ts.list ∧ a.2 ≤ (shares maximum).most a.1 := by
  obtain ⟨t, ht, -, rfl⟩ := mem_groups hg
  exact mem_list_of_mem_batch (Transitions.mem_sorted.mp ht) ha

/-- A packed transition is placed as often as it is in the groups. -/
theorem count_places {t : Transition} (ht : t ∈ ts.list) (hp : t.isPacked = true) :
    ((([(bypass ts).map fun t => t.entry 0] ++
      (groups maximum ts.sorted (bypass ts) ts.sorted).map fun g =>
        g.map fun a => a.1.entry a.2).flatten.map fun e => (e.source, e.destination)).count
        (t.source.name, t.destination)) =
      ((groups maximum ts.sorted (bypass ts) ts.sorted).flatten.map Prod.fst).count t := by
  have hnot : t ∉ bypass ts := fun hmem => by
    rw [(mem_bypass ht).mp hmem] at hp
    cases hp
  have hflatten : ([(bypass ts).map fun t => t.entry 0] ++
      (groups maximum ts.sorted (bypass ts) ts.sorted).map fun g =>
        g.map fun a => a.1.entry a.2).flatten.map (fun e => (e.source, e.destination)) =
      (bypass ts ++ (groups maximum ts.sorted (bypass ts) ts.sorted).flatten.map Prod.fst).map
        fun t => (t.source.name, t.destination) := by
    rw [List.singleton_append, List.flatten_cons, ← List.map_flatten]
    simp only [List.map_append, List.map_map]
    rfl
  rw [hflatten, count_edge (fun u hu => ?_) ht, List.count_append, List.count_eq_zero_of_not_mem hnot,
    Nat.zero_add]
  rcases List.mem_append.mp hu with hu | hu
  · exact mem_list_of_mem_bypass hu
  · obtain ⟨a, ha, rfl⟩ := List.mem_map.mp hu
    obtain ⟨g, hg, ha⟩ := List.mem_flatten.mp ha
    exact (mem_list_of_mem_groups hg ha).1

/-- Where all have ranges, it is the packing that places them. -/
theorem places_groups_iff (hkeyed : ∀ t ∈ ts.list, ∃ u ∈ ts.list, u.isPacked ∧ u.source = t.source) :
    Places maximum ts ([(bypass ts).map fun t => t.entry 0] ++
        (groups maximum ts.sorted (bypass ts) ts.sorted).map fun g => g.map fun a => a.1.entry a.2) ↔
      (∀ t ∈ ts.list, t.isPacked →
        ((groups maximum ts.sorted (bypass ts) ts.sorted).flatten.map Prod.fst).count t = 1) ∧
      ∀ g ∈ groups maximum ts.sorted (bypass ts) ts.sorted, ∀ a ∈ g,
        (shares maximum).least a.1 ≤ a.2 := by
  -- what is not skipped is packed
  have hpacked : ∀ t ∈ ts.list, t.skipStage = false ↔ t.isPacked = true := by
    intro t ht
    obtain ⟨u, -, hu, hsource⟩ := hkeyed t ht
    rw [Transition.isPacked, Bool.and_eq_true, hsource] at hu
    rw [Transition.isPacked, hu.2, Bool.and_true, Bool.not_eq_true']
  constructor
  · intro h
    refine ⟨fun t ht hp => (count_places ht hp).symm.trans (h.once t ht ((hpacked t ht).mpr hp)), ?_⟩
    intro g hg a ha
    exact (h.inRange a.1 (mem_list_of_mem_groups hg ha).1 _ (List.mem_map_of_mem hg) a.2 (List.mem_map_of_mem ha)).1
  · rintro ⟨honce, hleast⟩
    refine ⟨fun t ht hskip => ?_, fun t ht batch hbatch w hw => ?_, fun batch hbatch => ?_⟩
    · have hp := (hpacked t ht).mp hskip
      exact (count_places ht hp).trans (honce t ht hp)
    · obtain ⟨g, hg, rfl⟩ := List.mem_map.mp hbatch
      obtain ⟨⟨u, w'⟩, ha, heq⟩ := List.mem_map.mp hw
      obtain ⟨hu, hle⟩ := mem_list_of_mem_groups hg ha
      obtain rfl : u = t := ts.eq_of_edge hu ht (by
        simp only [Transition.entry, Entry.mk.injEq] at heq
        rw [heq.1, heq.2.1])
      obtain rfl : w' = w := congrArg Entry.workers heq
      exact ⟨hleast g hg _ ha, hle⟩
    · rcases List.mem_cons.mp hbatch with rfl | hbatch
      · rw [sum_bypass]
        exact Nat.zero_le _
      · obtain ⟨g, hg, rfl⟩ := List.mem_map.mp hbatch
        obtain ⟨t, -, -, rfl⟩ := mem_groups hg
        exact sum_batch t ts.sorted

/-- Where nothing is packed, all have been placed before. -/
theorem places_bypass (h : ∀ t ∈ ts.list, t.isPacked = false) :
    Places maximum ts [(bypass ts).map fun t => t.entry 0] := by
  refine ⟨fun t ht _ => ?_, nofun, fun batch hbatch => ?_⟩
  · have hnodup : (bypass ts).Nodup := ts.nodup_sorted.of_map.filter _
    rw [List.flatten_singleton, List.map_map]
    exact (count_edge (fun a => mem_list_of_mem_bypass) ht).trans
      (List.count_eq_one_of_mem hnodup ((mem_bypass ht).mpr (h t ht)))
  · cases List.mem_singleton.mp hbatch
    rw [sum_bypass]
    exact Nat.zero_le _

/-- The transitions all have ranges, if one of them is packed and nothing is raised. -/
theorem keyed_of_ok {front rest : List Transition} {first : Transition}
    {b : List (List Entry) × List Transition} (hsorted : ts.sorted = front ++ first :: rest)
    (hskipped : ∀ t ∈ front, t.isPacked = false) (hpacked : first.isPacked = true)
    (h : ts.sorted.foldlM (packNext maximum (workersCounts maximum ts.sorted) ts.sorted)
      ([(bypass ts).map fun t => t.entry 0], bypass ts) = .ok b) :
    ∀ t ∈ ts.list, ∃ u ∈ ts.list, u.isPacked ∧ u.source = t.source := by
  have hmem : ∀ {t}, t ∈ front ++ first :: rest → t ∈ ts.list := fun ht =>
    Transitions.mem_sorted.mp (hsorted ▸ ht)
  have hfirst : first ∈ ts.list := hmem (List.mem_append_right _ List.mem_cons_self)
  have hunseen : first ∉ bypass ts := fun hb => by
    rw [(mem_bypass hfirst).mp hb] at hpacked
    cases hpacked
  have h' : (front ++ first :: rest).foldlM (packNext maximum (workersCounts maximum ts.sorted) ts.sorted)
      ([(bypass ts).map fun t => t.entry 0], bypass ts) = .ok b := by rw [← hsorted]; exact h
  obtain ⟨g, hg⟩ := packGroup_of_foldlM (fun o ho => (mem_bypass (hmem (List.mem_append_left _ ho))).mpr
    (hskipped o ho)) hunseen h'
  rw [packGroup] at hg
  split at hg
  · cases hg
  · intro t ht
    by_cases heq : t = first
    · exact ⟨first, hfirst, hpacked, heq ▸ rfl⟩
    · obtain ⟨r, hr⟩ := packed_keyed hunseen hg t (Transitions.mem_sorted.mpr ht) heq
      obtain ⟨u, hu, hup, hname, -⟩ := get?_workersCounts hr
      have hu' := Transitions.mem_sorted.mp hu
      exact ⟨u, hu', hup, ts.sources u hu' t ht hname⟩

/-- Where they all have ranges, nothing is raised. -/
theorem foldlM_of_keyed (hkeyed : ∀ t ∈ ts.list, ∃ u ∈ ts.list, u.isPacked ∧ u.source = t.source) :
    ∃ seen, ts.sorted.foldlM (packNext maximum (workersCounts maximum ts.sorted) ts.sorted)
      ([(bypass ts).map fun t => t.entry 0], bypass ts) = .ok ([(bypass ts).map fun t => t.entry 0] ++
        (groups maximum ts.sorted (bypass ts) ts.sorted).map fun g => g.map fun a => a.1.entry a.2, seen) := by
  refine foldlM_packNext (fun o ho => ho) fun o ho => ?_
  obtain ⟨u, hu, hpacked, hsource⟩ := hkeyed o (Transitions.mem_sorted.mp ho)
  obtain ⟨r, hr⟩ := @exists_get?_workersCounts maximum _ _ (Transitions.mem_sorted.mpr hu) hpacked
  obtain ⟨v, hv, -, hname, hrange⟩ := get?_workersCounts hr
  have hsame := ts.sources v (Transitions.mem_sorted.mp hv) u hu hname
  rw [hsource] at hr hsame
  rw [hr, ← hrange, Transition.range, Transition.range, hsame]

theorem foldlM_seen {counts : Dict String (ℕ × ℕ)} {l rest seen : List Transition}
    {batches : List (List Entry)} (h : ∀ t ∈ rest, t ∈ seen) :
    rest.foldlM (packNext maximum counts l) (batches, seen) = .ok (batches, seen) := by
  induction rest with
  | nil => rfl
  | cons t rest ih =>
    rw [List.foldlM_cons, packNext, if_pos (h t List.mem_cons_self)]
    exact ih fun t ht => h t (List.mem_cons_of_mem _ ht)

/-- With priorities to pack by. -/
theorem placed_packed_iff : (∃ batches, (do
      let b ← ts.sorted.foldlM (packNext maximum (workersCounts maximum ts.sorted) ts.sorted)
        ([(bypass ts).map fun t => t.entry 0], bypass ts)
      return b.1) = (.ok batches : Except Error _) ∧ Places maximum ts batches) ↔
    ∀ first, (ts.sorted.filter Transition.isPacked).head? = some first →
      FitsTogether maximum ts first := by
  cases hfirst : (ts.sorted.filter Transition.isPacked).head? with
  | none =>
    rw [List.head?_filter, List.find?_eq_none] at hfirst
    have hnone : ∀ t ∈ ts.list, t.isPacked = false := fun t ht =>
      Bool.eq_false_iff.mpr (hfirst t (Transitions.mem_sorted.mpr ht))
    refine iff_of_true ⟨_, ?_, places_bypass hnone⟩ nofun
    rw [foldlM_seen fun t ht => (mem_bypass (Transitions.mem_sorted.mp ht)).mpr
      (hnone t (Transitions.mem_sorted.mp ht))]
    rfl
  | some first =>
    rw [List.head?_filter, List.find?_eq_some_iff_append] at hfirst
    obtain ⟨hpacked, front, rest, hsorted, hskipped⟩ := hfirst
    have hskipped' : ∀ t ∈ front, t.isPacked = false := fun t ht => by simpa using hskipped t ht
    by_cases hkeyed : ∀ t ∈ ts.list, ∃ u ∈ ts.list, u.isPacked ∧ u.source = t.source
    · have hsplit : Split ts front first rest := ⟨hsorted, hskipped', hpacked, hkeyed⟩
      have hiff := (@places_groups_iff maximum ts hkeyed).trans
        (hsplit.placed_iff fun t => mem_bypass)
      obtain ⟨seen, hok⟩ := @foldlM_of_keyed maximum ts hkeyed
      rw [hok]
      constructor
      · rintro ⟨batches, hbatches, hplaces⟩ first' hfirst'
        cases hfirst'
        cases hbatches
        obtain ⟨hlack, htwice⟩ := hiff.mp hplaces
        exact ⟨hkeyed, hlack, htwice⟩
      · intro hfits
        have h := hfits first rfl
        exact ⟨_, rfl, hiff.mpr ⟨h.noneLacking, h.noneTwice⟩⟩
    · refine iff_of_false ?_ fun hfits => hkeyed (hfits first rfl).keyed
      rintro ⟨batches, hbatches, -⟩
      cases hok : ts.sorted.foldlM (packNext maximum (workersCounts maximum ts.sorted) ts.sorted)
          ([(bypass ts).map fun t => t.entry 0], bypass ts) with
      | error e => rw [hok] at hbatches; cases hbatches
      | ok b => exact hkeyed (keyed_of_ok hsorted hskipped' hpacked hok)

end Places

/-- **The transitions are placed as they should be if and only if they fit.** -/
theorem placed_iff_fits (maximum : ℕ+) (ts : Transitions) : Placed maximum ts ↔ Fits maximum ts := by
  unfold Placed Fits Transitions.partionPrioritizedStageBatches
  dsimp only
  by_cases hone : ts.parallelStagesCount = 1
  · rw [if_pos hone, if_pos hone]
    cases hlast : (ts.sorted.filter fun t => !t.skipStage).getLast? with
    | none =>
      rw [List.getLast?_eq_none_iff] at hlast
      rw [hlast]
      exact iff_of_false (fun ⟨_, h, _⟩ => nomatch h) fun ⟨_, h, _⟩ => nomatch h
    | some last =>
      have hiff := @places_last_iff maximum ts last (List.mem_of_getLast? hlast)
      constructor
      · rintro ⟨batches, hbatches, h⟩
        cases hbatches
        exact ⟨last, hiff.mp h⟩
      · rintro ⟨t, hkept, hworkers⟩
        rw [hkept] at hlast
        cases hlast
        exact ⟨_, rfl, hiff.mpr ⟨hkept, hworkers⟩⟩
  · rw [if_neg hone, if_neg hone]
    split
    · constructor
      · rintro ⟨batches, hbatches, h⟩
        cases hbatches
        exact places_kept_iff.mp h
      · exact fun h => ⟨_, rfl, places_kept_iff.mpr h⟩
    · exact placed_packed_iff

/-- Three executing stages of low priority. -/
def threeLow : Transitions where
  list := ["first", "second", "third"].map fun name => ⟨⟨name, some "low", .low, true, 1⟩, "analyze", false⟩
  nodup := by decide
  sources := by decide

/-- With two workers for the three, the first is in the second batch once more. -/
theorem not_placed : (threeLow.partionPrioritizedStageBatches 2).toOption =
      some [[], [⟨"first", "analyze", some "low", 1⟩, ⟨"second", "analyze", some "low", 1⟩],
        [⟨"third", "analyze", some "low", 1⟩, ⟨"first", "analyze", some "low", 1⟩]] ∧
    ¬ Placed 2 threeLow := by
  have hbatches : (threeLow.partionPrioritizedStageBatches 2).toOption =
      some [[], [⟨"first", "analyze", some "low", 1⟩, ⟨"second", "analyze", some "low", 1⟩],
        [⟨"third", "analyze", some "low", 1⟩, ⟨"first", "analyze", some "low", 1⟩]] := by decide +kernel
  refine ⟨hbatches, fun ⟨batches, hok, h⟩ => ?_⟩
  rw [hok] at hbatches
  obtain rfl := Option.some.inj hbatches
  exact absurd (h.once _ List.mem_cons_self rfl) (by decide +kernel)

end PriorityBatches
end Graphs
end Hedra
