/-
# Futures

A future is pending until its result is set or it is cancelled, and after that it never changes:
a second result is refused.  A program that hands out futures by number keeps a list of them;
`tag` says which results belong to which number, and `Own` that every future which has a result
has one of its own.

The lemmas say what each operation does to `Own`.  Only setting a result can break it, and it does
so exactly if a future that is still pending is given a result that is not its own.

* `Own.modify_setResult_iff`: setting a result, as said;
* `Own.modify_cancel`: cancelling one breaks nothing;
* `Own.concat_pending`: nor does a new future.
-/
import Mathlib.Data.List.Basic

namespace Lib

variable {ρ : Type*}

/-- A future. -/
inductive Future (ρ : Type*)
  | pending
  | result
      (value : ρ)
  | cancelled
deriving DecidableEq

namespace Future

/-! ## 1. One future -/

/-- `set_result`, the exception of a future that is done being swallowed. -/
def setResult (r : ρ) : Future ρ → Future ρ
  | .pending => .result r
  | f => f

/-- `cancel` -/
def cancel : Future ρ → Future ρ
  | .pending => .cancelled
  | f => f

/-- `done` -/
def done : Future ρ → Bool
  | .pending => false
  | _ => true

theorem done_eq_false_iff {f : Future ρ} : f.done = false ↔ f = .pending := by
  cases f <;> simp [done]

theorem setResult_eq_result_iff {f : Future ρ} {r r' : ρ} :
    f.setResult r = .result r' ↔ (f = .pending ∧ r = r') ∨ f = .result r' := by
  cases f <;> simp [setResult]

theorem cancel_eq_result_iff {f : Future ρ} {r : ρ} : f.cancel = .result r ↔ f = .result r := by
  cases f <;> simp [cancel]

/-- Setting a result, or cancelling, changes only what is pending. -/
theorem setResult_of_ne {f : Future ρ} (h : f ≠ .pending) (r : ρ) : f.setResult r = f := by
  cases f <;> simp [setResult] at h ⊢

theorem cancel_of_ne {f : Future ρ} (h : f ≠ .pending) : f.cancel = f := by
  cases f <;> simp [cancel] at h ⊢

/-! ## 2. Futures by number -/

/-- The future `n` is pending. -/
def IsPending (fs : List (Future ρ)) (n : Nat) : Prop := fs[n]? = some .pending

instance (fs : List (Future ρ)) (n : Nat) : Decidable (IsPending fs n) :=
  match h : fs[n]? with
  | some .pending => isTrue h
  | some (.result _) => isFalse fun h' => by simp [IsPending, h] at h'
  | some .cancelled => isFalse fun h' => by simp [IsPending, h] at h'
  | none => isFalse fun h' => by simp [IsPending, h] at h'

/-- The future `n` has been cancelled. -/
def IsCancelled (fs : List (Future ρ)) (n : Nat) : Prop := fs[n]? = some .cancelled

instance (fs : List (Future ρ)) (n : Nat) : Decidable (IsCancelled fs n) :=
  match h : fs[n]? with
  | some .cancelled => isTrue h
  | some (.result _) => isFalse fun h' => by simp [IsCancelled, h] at h'
  | some .pending => isFalse fun h' => by simp [IsCancelled, h] at h'
  | none => isFalse fun h' => by simp [IsCancelled, h] at h'

/-- Every result is the one of its own future. -/
def Own (tag : ρ → Nat → Prop) (fs : List (Future ρ)) : Prop :=
  ∀ n r, fs[n]? = some (.result r) → tag r n

variable {tag : ρ → Nat → Prop} {fs : List (Future ρ)}

theorem own_nil : Own tag [] := by
  intro n r h
  simp at h

/-- A new future has no result. -/
theorem Own.concat_pending (h : Own tag fs) : Own tag (fs ++ [.pending]) := by
  intro n r hn
  rcases Nat.lt_or_ge n fs.length with hlt | hge
  · rw [List.getElem?_append_left hlt] at hn
    exact h n r hn
  · rw [List.getElem?_append_right hge, List.getElem?_singleton] at hn
    split at hn <;> simp at hn

theorem Own.modify_cancel (h : Own tag fs) (i : Nat) : Own tag (fs.modify i cancel) := by
  intro n r hn
  rw [List.getElem?_modify] at hn
  obtain ⟨f, hf, he⟩ := Option.map_eq_some_iff.mp hn
  split at he
  · rw [cancel_eq_result_iff] at he
    exact h n r (hf.trans (congrArg some he))
  · exact h n r (hf.trans (congrArg some he))

/-- **Setting a result keeps the results with their futures exactly if the future is done or the
result is its own.** -/
theorem Own.modify_setResult_iff (h : Own tag fs) (i : Nat) (r : ρ) :
    Own tag (fs.modify i (setResult r)) ↔ (IsPending fs i → tag r i) := by
  constructor
  · intro h' hi
    refine h' i r ?_
    rw [List.getElem?_modify, show fs[i]? = _ from hi]
    simp [setResult]
  · intro hown n r' hn
    rw [List.getElem?_modify] at hn
    obtain ⟨f, hf, he⟩ := Option.map_eq_some_iff.mp hn
    split at he
    · next hin =>
      subst hin
      rcases setResult_eq_result_iff.mp he with ⟨rfl, rfl⟩ | rfl
      · exact hown hf
      · exact h i r' hf
    · exact h n r' (hf.trans (congrArg some he))

/-- A future that is done stays as it is. -/
theorem getElem?_modify_of_ne {g : Future ρ → Future ρ} (hg : ∀ f, f ≠ .pending → g f = f)
    {n : Nat} {f : Future ρ} (hn : fs[n]? = some f) (hf : f ≠ .pending) (i : Nat) :
    (fs.modify i g)[n]? = some f := by
  rw [List.getElem?_modify, hn]
  split
  · simp [hg f hf]
  · rfl

theorem getElem?_concat {n : Nat} {f : Future ρ} (hn : fs[n]? = some f) (f' : Future ρ) :
    (fs ++ [f'])[n]? = some f := by
  rw [List.getElem?_append_left (List.getElem?_eq_some_iff.mp hn).1, hn]

end Future
end Lib
