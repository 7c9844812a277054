/-
# Tasks side by side

A list of tasks, of which one at a time goes on.  What all of them have together changes by what
that one has before and after.

* `exists_filterMap_perm`: what they have is what one of them has, and a rest that does not depend
  on it;
* `countP_set`: the same of their number, and `sum_set` of a sum.
-/
import Mathlib.Algebra.BigOperators.Group.List.Basic
import Mathlib.Algebra.GroupWithZero.Nat
import Mathlib.Data.List.Perm.Basic

namespace Lib.Tasks

variable {τ β : Type*} {ts : List τ} {i : Nat} {t : τ}

theorem filterMap_cons_eq (f : τ → Option β) (t : τ) (ts : List τ) :
    (t :: ts).filterMap f = (f t).toList ++ ts.filterMap f := by
  cases h : f t with
  | none => rw [List.filterMap_cons_none h]; rfl
  | some b => rw [List.filterMap_cons_some h]; rfl

/-- **What the tasks have**: what one of them has, and the rest, which does not depend on it. -/
theorem exists_filterMap_perm (f : τ → Option β) (h : ts[i]? = some t) :
    ∃ rest, (ts.filterMap f).Perm ((f t).toList ++ rest) ∧
      ∀ t', ((ts.set i t').filterMap f).Perm ((f t').toList ++ rest) := by
  obtain ⟨hi, ht⟩ := List.getElem?_eq_some_iff.mp h
  have hset : ∀ t', ((ts.set i t').filterMap f).Perm
      ((f t').toList ++ ((ts.take i).filterMap f ++ (ts.drop (i + 1)).filterMap f)) := by
    intro t'
    rw [List.set_eq_take_append_cons_drop, if_pos hi, List.filterMap_append, filterMap_cons_eq,
      ← List.append_assoc, ← List.append_assoc]
    exact (List.perm_append_comm).append_right _
  refine ⟨_, ?_, hset⟩
  have hself := hset t
  rwa [← ht, List.set_getElem_self, ht] at hself

/-- One task goes on. -/
theorem modify_eq_set (h : ts[i]? = some t) (f : τ → τ) : ts.modify i f = ts.set i (f t) := by
  apply List.ext_getElem?
  intro j
  rw [List.getElem?_modify, List.getElem?_set]
  by_cases hj : i = j
  · subst hj
    obtain ⟨hi, ht⟩ := List.getElem?_eq_some_iff.mp h
    simp [hi, ht]
  · simp [hj]

theorem countP_set (p : τ → Bool) (h : ts[i]? = some t) (t' : τ) :
    (ts.set i t').countP p + (if p t then 1 else 0) = ts.countP p + (if p t' then 1 else 0) := by
  obtain ⟨hi, ht⟩ := List.getElem?_eq_some_iff.mp h
  have hsplit : ∀ t', (ts.set i t').countP p =
      (ts.take i).countP p + (ts.drop (i + 1)).countP p + (if p t' then 1 else 0) := by
    intro t'
    rw [List.set_eq_take_append_cons_drop, if_pos hi, List.countP_append, List.countP_cons,
      Nat.add_assoc]
  have hself := hsplit t
  rw [← ht, List.set_getElem_self, ht] at hself
  rw [hsplit t', hself]
  omega

theorem sum_set {ns : List Nat} {n : Nat} (h : ns[i]? = some n) (n' : Nat) :
    (ns.set i n').sum + n = ns.sum + n' := by
  obtain ⟨hi, hn⟩ := List.getElem?_eq_some_iff.mp h
  have hsplit : ∀ n', (ns.set i n').sum = (ns.take i).sum + (ns.drop (i + 1)).sum + n' := by
    intro n'
    rw [List.set_eq_take_append_cons_drop, if_pos hi, List.sum_append, List.sum_cons]
    omega
  have hself := hsplit n
  rw [← hn, List.set_getElem_self, hn] at hself
  rw [hsplit n', hself]
  omega

/-- What no two tasks have tells which task it is. -/
theorem eq_of_filterMap_nodup {f : τ → Option β} (hn : (ts.filterMap f).Nodup) {x y : τ} {b : β}
    (hx : x ∈ ts) (hy : y ∈ ts) (hxb : f x = some b) (hyb : f y = some b) : x = y := by
  induction ts with
  | nil => exact absurd hx List.not_mem_nil
  | cons t ts ih =>
    rw [filterMap_cons_eq] at hn
    obtain ⟨-, hrest, hdisjoint⟩ := List.nodup_append.mp hn
    have hnot : ∀ z ∈ ts, f z = some b → f t ≠ some b := by
      intro z hz hzb htb
      have hmem : b ∈ (f t).toList := by rw [htb]; exact List.mem_singleton_self b
      exact hdisjoint b hmem b (List.mem_filterMap.mpr ⟨z, hz, hzb⟩) rfl
    rcases List.mem_cons.mp hx with hxt | hxs <;> rcases List.mem_cons.mp hy with hyt | hys
    · exact hxt.trans hyt.symm
    · exact absurd (hxt ▸ hxb) (hnot y hys hyb)
    · exact absurd (hyt ▸ hyb) (hnot x hxs hxb)
    · exact ih hrest hxs hys

theorem findIdx?_congr {p q : τ → Bool} (h : ∀ t ∈ ts, p t = q t) : ts.findIdx? p = ts.findIdx? q := by
  induction ts with
  | nil => rfl
  | cons t ts ih =>
    rw [List.findIdx?_cons, List.findIdx?_cons, h t List.mem_cons_self,
      ih fun u hu => h u (List.mem_cons_of_mem _ hu)]

end Lib.Tasks
