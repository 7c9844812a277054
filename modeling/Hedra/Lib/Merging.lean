/-
# Merging in the order of arrival

What comes from several sources is merged one arrival after the other, and the outcome should not
depend on who came first.  A function of the arrivals is order free at a list if it is the same for
every permutation of it.

Two merges are characterized: that of keyed records, where the last record of a key stays; and that
of candidates, where a privileged one is taken always and another one when it is larger than what is
there.

* `orderFree_lastWith_iff`: the last records of the keys;
* `champion_iff`: the champion among candidates.
-/
import Mathlib.Algebra.Order.Ring.Int
import Mathlib.Data.List.Induction
import Hedra.Lib.LastWrite

namespace Lib.Merging

variable {α β γ κ : Type*}

/-- `f` does not depend on the order of the arrivals `l`. -/
def OrderFree (f : List α → γ) (l : List α) : Prop := ∀ l', l'.Perm l → f l' = f l

/-- A permutation of what some arrivals give comes from a permutation of them. -/
theorem exists_perm_filterMap {f : α → Option β} {l : List α} {m : List β}
    (h : m.Perm (l.filterMap f)) : ∃ l' : List α, l'.Perm l ∧ l'.filterMap f = m := by
  induction l generalizing m with
  | nil => exact ⟨[], .nil, h.eq_nil.symm⟩
  | cons a l ih =>
    cases ha : f a with
    | none =>
      rw [List.filterMap_cons_none ha] at h
      obtain ⟨l', hl', rfl⟩ := ih h
      exact ⟨a :: l', hl'.cons a, List.filterMap_cons_none ha⟩
    | some b =>
      rw [List.filterMap_cons_some ha] at h
      obtain ⟨s, t, rfl⟩ := List.append_of_mem (h.mem_iff.mpr List.mem_cons_self)
      obtain ⟨l', hl', heq⟩ := ih (List.perm_middle.symm.trans h).cons_inv
      obtain ⟨l₁, l₂, rfl, rfl, rfl⟩ := List.filterMap_eq_append_iff.mp heq
      refine ⟨l₁ ++ a :: l₂, List.perm_middle.trans (hl'.cons a), ?_⟩
      rw [List.filterMap_append, List.filterMap_cons_some ha]

/-! ## 1. The last record of a key -/

section Records

variable [DecidableEq κ] (key : β → κ)

/-- No two arrivals have different last records of one key. -/
def Consistent (l : List (List β)) : Prop :=
  ∀ x ∈ l, ∀ y ∈ l, ∀ k a b, lastWith key x k = some a → lastWith key y k = some b → a = b

variable {key}

theorem lastWith_flatten {l : List (List β)} (h : Consistent key l) {x : List β} (hx : x ∈ l) {k : κ}
    {a : β} (ha : lastWith key x k = some a) : lastWith key l.flatten k = some a := by
  induction l generalizing x a with
  | nil => cases hx
  | cons y l ih =>
    have hl : Consistent key l := fun x hx y hy =>
      h x (List.mem_cons_of_mem _ hx) y (List.mem_cons_of_mem _ hy)
    rw [List.flatten_cons, lastWith_append]
    rcases List.mem_cons.mp hx with rfl | hx
    · cases hrest : lastWith key l.flatten k with
      | none => exact ha
      | some b =>
        -- a later record of the key is the same
        obtain ⟨y, hy, hb⟩ := List.mem_flatten.mp (mem_of_lastWith hrest)
        obtain ⟨b', hb'⟩ := exists_lastWith key hb
        rw [key_of_lastWith hrest] at hb'
        have hlast := (ih hl hy hb').symm.trans hrest
        obtain rfl := Option.some.inj hlast
        rw [h x List.mem_cons_self y (List.mem_cons_of_mem _ hy) k a b' ha hb']
        rfl
    · rw [ih hl hx ha]
      rfl

/-- One arrival comes last. -/
theorem exists_perm_concat {l : List α} {x : α} (hx : x ∈ l) : ∃ r, (r ++ [x]).Perm l := by
  obtain ⟨s, t, rfl⟩ := List.append_of_mem hx
  refine ⟨s ++ t, ?_⟩
  rw [List.append_assoc]
  exact (List.perm_append_singleton x t).append_left s

/-- **The last records are order free where no two arrivals differ.** -/
theorem orderFree_lastWith_iff {l : List (List β)} :
    OrderFree (fun l => lastWith key l.flatten) l ↔ Consistent key l := by
  constructor
  · intro h x hx y hy k a b ha hb
    have hlast : ∀ z ∈ l, ∀ c, lastWith key z k = some c → lastWith key l.flatten k = some c := by
      intro z hz c hc
      obtain ⟨r, hr⟩ := exists_perm_concat hz
      have hsame : lastWith key (r ++ [z]).flatten k = lastWith key l.flatten k := congrFun (h _ hr) k
      rw [← hsame, List.flatten_append, lastWith_append, List.flatten_singleton, hc]
      rfl
    exact Option.some.inj ((hlast x hx a ha).symm.trans (hlast y hy b hb))
  · intro h l' hl'
    have h' : Consistent key l' := fun x hx y hy => h x (hl'.mem_iff.mp hx) y (hl'.mem_iff.mp hy)
    funext k
    change lastWith key l'.flatten k = lastWith key l.flatten k
    cases hk : lastWith key l.flatten k with
    | none =>
      refine lastWith_eq_none_iff.mpr fun a ha => lastWith_eq_none_iff.mp hk a ?_
      exact hl'.flatten.mem_iff.mp ha
    | some a =>
      obtain ⟨x, hx, ha⟩ := List.mem_flatten.mp (mem_of_lastWith hk)
      obtain ⟨b, hb⟩ := exists_lastWith key ha
      rw [key_of_lastWith hk] at hb
      rw [← hk, lastWith_flatten h hx hb]
      exact lastWith_flatten h' (hl'.mem_iff.mpr hx) hb

end Records

/-! ## 2. Candidates -/

section Candidates

variable (privileged : α → Bool) (size : α → ℤ)

/-- A candidate and what a larger one must exceed. -/
def consider (s : Option α × ℤ) (x : α) : Option α × ℤ :=
  if privileged x then (some x, size x)
  else if s.2 < size x then (some x, size x)
  else s

/-- The candidate that is there in the end; to begin with, it must be positive. -/
def champion (l : List α) : Option α := (l.foldl (consider privileged size) (none, 0)).1

/-- There is one candidate that can stay: no other one is larger than a privileged one, and there is
one privileged, or one largest. -/
structure Settled (l : List α) : Prop where
  privileged_largest : ∀ x ∈ l, ∀ y ∈ l, privileged x = true → privileged y = false → size y ≤ size x
  one_privileged : ∀ x ∈ l, ∀ y ∈ l, privileged x = true → privileged y = true → x = y
  one_largest : (∀ x ∈ l, privileged x = false) → ∀ x ∈ l, ∀ y ∈ l, 0 < size x →
    (∀ z ∈ l, size z ≤ size x) → (∀ z ∈ l, size z ≤ size y) → x = y

variable {privileged size} {l : List α} {x y : α}

theorem Settled.of_perm {l' : List α} (h : Settled privileged size l) (hl : l'.Perm l) :
    Settled privileged size l' := by
  have hmem : ∀ x, x ∈ l' ↔ x ∈ l := fun x => hl.mem_iff
  obtain ⟨h₁, h₂, h₃⟩ := h
  refine ⟨?_, ?_, ?_⟩ <;> simp only [hmem]
  · exact h₁
  · exact h₂
  · exact h₃

theorem consider_privileged (s : Option α × ℤ) (h : privileged x = true) :
    consider privileged size s x = (some x, size x) := if_pos h

theorem consider_larger {s : Option α × ℤ} (h : s.2 < size x) :
    consider privileged size s x = (some x, size x) := by
  unfold consider
  rw [if_pos h, ite_self]

theorem consider_smaller {s : Option α × ℤ} (h : privileged x = false) (hle : size x ≤ s.2) :
    consider privileged size s x = s := by
  rw [consider, if_neg (by simp [h]), if_neg (not_lt.mpr hle)]

/-- Small candidates change nothing. -/
theorem foldl_of_smaller {s : Option α × ℤ} (h : ∀ x ∈ l, privileged x = false ∧ size x ≤ s.2) :
    l.foldl (consider privileged size) s = s := by
  induction l with
  | nil => rfl
  | cons x l ih =>
    obtain ⟨hx, hl⟩ := List.forall_mem_cons.mp h
    rw [List.foldl_cons, consider_smaller hx.1 hx.2]
    exact ih hl

theorem champion_concat_privileged (r : List α) (h : privileged x = true) :
    champion privileged size (r ++ [x]) = some x := by
  rw [champion, List.foldl_concat, consider_privileged _ h]

/-- Where no other one is larger than a privileged one, one of these is there in the end. -/
theorem foldl_of_privileged
    (hlarge : ∀ x ∈ l, ∀ y ∈ l, privileged x = true → privileged y = false → size y ≤ size x)
    (hx : x ∈ l) (hp : privileged x = true) :
    ∃ y ∈ l, privileged y = true ∧ l.foldl (consider privileged size) (none, 0) = (some y, size y) := by
  induction l using List.reverseRecOn generalizing x with
  | nil => cases hx
  | append_singleton l z ih =>
    rw [List.foldl_concat]
    cases hz : privileged z with
    | true => exact ⟨z, by simp, hz, consider_privileged _ hz⟩
    | false =>
      have hxl : x ∈ l := by
        rcases List.mem_append.mp hx with hx | hx
        · exact hx
        · rw [List.mem_singleton.mp hx, hz] at hp
          cases hp
      obtain ⟨y, hy, hyp, hfold⟩ := ih (fun a ha b hb => hlarge a (List.mem_append_left _ ha) b
        (List.mem_append_left _ hb)) hxl hp
      refine ⟨y, List.mem_append_left _ hy, hyp, ?_⟩
      rw [hfold]
      exact consider_smaller hz (hlarge y (List.mem_append_left _ hy) z (by simp) hyp hz)

/-- Where none is privileged, the first of the largest is there. -/
theorem foldl_of_not_privileged (h : ∀ x ∈ l, privileged x = false) :
    (l.foldl (consider privileged size) (none, 0) = (none, 0) ∧ ∀ x ∈ l, size x ≤ 0) ∨
      ∃ x ∈ l, l.foldl (consider privileged size) (none, 0) = (some x, size x) ∧ 0 < size x ∧
        ∀ y ∈ l, size y ≤ size x := by
  induction l using List.reverseRecOn with
  | nil => exact Or.inl ⟨rfl, List.forall_mem_nil _⟩
  | append_singleton l z ih =>
    have hz : privileged z = false := h z (by simp)
    rw [List.foldl_concat]
    rcases ih fun x hx => h x (List.mem_append_left _ hx) with ⟨hfold, hsmall⟩ | ⟨x, hx, hfold, hpos, hmax⟩
    · rw [hfold]
      rcases le_or_gt (size z) 0 with hle | hlt
      · refine Or.inl ⟨consider_smaller hz hle, fun y hy => ?_⟩
        rcases List.mem_append.mp hy with hy | hy
        · exact hsmall y hy
        · exact List.mem_singleton.mp hy ▸ hle
      · refine Or.inr ⟨z, by simp, consider_larger hlt, hlt, fun y hy => ?_⟩
        rcases List.mem_append.mp hy with hy | hy
        · exact (hsmall y hy).trans hlt.le
        · exact (List.mem_singleton.mp hy ▸ le_rfl)
    · rw [hfold]
      rcases le_or_gt (size z) (size x) with hle | hlt
      · refine Or.inr ⟨x, List.mem_append_left _ hx, consider_smaller hz hle, hpos, fun y hy => ?_⟩
        rcases List.mem_append.mp hy with hy | hy
        · exact hmax y hy
        · exact List.mem_singleton.mp hy ▸ hle
      · refine Or.inr ⟨z, by simp, consider_larger hlt, hpos.trans hlt, fun y hy => ?_⟩
        rcases List.mem_append.mp hy with hy | hy
        · exact (hmax y hy).trans hlt.le
        · exact (List.mem_singleton.mp hy ▸ le_rfl)

/-- A privileged candidate, if there is one, is there in the end, in whatever order they come. -/
def PrivilegedWins (privileged : α → Bool) (size : α → ℤ) (l : List α) : Prop :=
  ∀ l', l'.Perm l → (∃ x ∈ l, privileged x = true) →
    ∃ x, champion privileged size l' = some x ∧ privileged x = true

theorem exists_perm_pair (hx : x ∈ l) (hy : y ∈ l) (hne : x ≠ y) :
    ∃ r, (r ++ [x, y]).Perm l := by
  obtain ⟨r, hr⟩ := exists_perm_concat hy
  have hxr : x ∈ r := by
    rcases List.mem_append.mp (hr.mem_iff.mpr hx) with hx | hx
    · exact hx
    · exact absurd (List.mem_singleton.mp hx) hne
  obtain ⟨r', hr'⟩ := exists_perm_concat hxr
  refine ⟨r', .trans ?_ hr⟩
  rw [← List.singleton_append, ← List.append_assoc]
  exact hr'.append_right _

/-- A largest candidate that comes first stays, where none is privileged. -/
theorem champion_cons_largest {r : List α} (hnone : ∀ y ∈ x :: r, privileged y = false)
    (hpos : 0 < size x) (hmax : ∀ y ∈ x :: r, size y ≤ size x) :
    champion privileged size (x :: r) = some x := by
  rw [champion, List.foldl_cons, consider_larger hpos, foldl_of_smaller]
  exact fun y hy => ⟨hnone y (List.mem_cons_of_mem _ hy), hmax y (List.mem_cons_of_mem _ hy)⟩

/-- Where one candidate can stay, it does. -/
theorem Settled.champion_eq {l' : List α} (h : Settled privileged size l) (hl : l'.Perm l) :
    champion privileged size l' = champion privileged size l := by
  have h' := h.of_perm hl
  by_cases hex : ∃ x ∈ l, privileged x = true
  · obtain ⟨x, hx, hp⟩ := hex
    obtain ⟨y, hy, hyp, hfold⟩ := foldl_of_privileged h.privileged_largest hx hp
    obtain ⟨y', hy', hyp', hfold'⟩ :=
      foldl_of_privileged h'.privileged_largest (hl.mem_iff.mpr hx) hp
    rw [champion, champion, hfold, hfold', h.one_privileged y hy y' (hl.mem_iff.mp hy') hyp hyp']
  · have hnone : ∀ x ∈ l, privileged x = false := fun x hx =>
      Bool.eq_false_of_not_eq_true fun hp => hex ⟨x, hx, hp⟩
    have hnone' : ∀ x ∈ l', privileged x = false := fun x hx => hnone x (hl.mem_iff.mp hx)
    rw [champion, champion]
    have hfold := @foldl_of_not_privileged α privileged size l hnone
    have hfold' := @foldl_of_not_privileged α privileged size l' hnone'
    rcases hfold with ⟨hf, hs⟩ | ⟨x, hx, hf, hpos, hmax⟩ <;>
      rcases hfold' with ⟨hf', hs'⟩ | ⟨y, hy, hf', hpos', hmax'⟩
    · rw [hf, hf']
    · exact absurd (hs y (hl.mem_iff.mp hy)) (not_le.mpr hpos')
    · exact absurd (hs' x (hl.mem_iff.mpr hx)) (not_le.mpr hpos)
    · rw [hf, hf', h.one_largest hnone x hx y (hl.mem_iff.mp hy) hpos hmax fun z hz =>
        hmax' z (hl.mem_iff.mpr hz)]

/-- **The champion does not depend on the order, and is privileged if one is, where one candidate can
stay.** -/
theorem champion_iff : OrderFree (champion privileged size) l ∧ PrivilegedWins privileged size l ↔
    Settled privileged size l := by
  constructor
  · rintro ⟨horder, hwins⟩
    refine ⟨fun x hx y hy hxp hyp => ?_, fun x hx y hy hxp hyp => ?_, fun hnone x hx y hy hpos hmax hmax' => ?_⟩
    · -- a larger one that comes right after a privileged one would replace it
      by_contra hlt
      have hne : x ≠ y := by
        rintro rfl
        exact Bool.noConfusion (hxp.symm.trans hyp)
      obtain ⟨r, hr⟩ := exists_perm_pair hx hy hne
      obtain ⟨z, hz, hzp⟩ := hwins _ hr ⟨x, hx, hxp⟩
      have hlast : champion privileged size (r ++ [x, y]) = some y := by
        rw [champion, List.foldl_append, List.foldl_cons, consider_privileged _ hxp, List.foldl_cons,
          consider_larger (not_le.mp hlt)]
        rfl
      obtain rfl := Option.some.inj (hlast.symm.trans hz)
      exact Bool.noConfusion (hyp.symm.trans hzp)
    · have hlast : ∀ z ∈ l, privileged z = true → champion privileged size l = some z := by
        intro z hz hzp
        obtain ⟨r, hr⟩ := exists_perm_concat hz
        rw [← horder _ hr, champion_concat_privileged r hzp]
      exact Option.some.inj ((hlast x hx hxp).symm.trans (hlast y hy hyp))
    · have hfirst : ∀ z ∈ l, 0 < size z → (∀ w ∈ l, size w ≤ size z) →
          champion privileged size l = some z := by
        intro z hz hzpos hzmax
        obtain ⟨s, t, rfl⟩ := List.append_of_mem hz
        have hperm : (z :: (s ++ t)).Perm (s ++ z :: t) := List.perm_middle.symm
        rw [← horder _ hperm]
        exact champion_cons_largest (fun w hw => hnone w (hperm.mem_iff.mp hw)) hzpos
          fun w hw => hzmax w (hperm.mem_iff.mp hw)
      have hpos' : 0 < size y := hpos.trans_le (hmax' x hx)
      exact Option.some.inj ((hfirst x hx hpos hmax).symm.trans (hfirst y hy hpos' hmax'))
  · intro h
    refine ⟨fun l' hl' => h.champion_eq hl', fun l' hl' hex => ?_⟩
    obtain ⟨x, hx, hp⟩ := hex
    obtain ⟨y, -, hyp, hfold⟩ :=
      foldl_of_privileged (h.of_perm hl').privileged_largest (hl'.mem_iff.mpr hx) hp
    exact ⟨y, by rw [champion, hfold], hyp⟩

end Candidates

end Lib.Merging
