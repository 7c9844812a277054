/-
# Chases

From place to place, with a record of where it has led: a chase ends where there is no next place, or
where the next one has been seen.  What it does on the way may change what comes next.

It ends, if there are but finitely many places that anything leads to; and on a path without
repetitions it comes to the end of the path.

* `exists_chase`: a chase among finitely many places ends;
* `Path.chase_eq`: on a path without repetitions it comes to the end.
-/
import Mathlib.Data.Finset.Card
import Mathlib.Data.List.Nodup

namespace Lib
namespace Chase

variable {σ α : Type*} [DecidableEq α]

/-- The end of a chase. -/
structure End (σ α : Type*) where
  state : σ
  place : α
  cycle : Bool

/-- The chase, with a limit on its length; the inner `none` is an exception. -/
def chase (next : σ → α → Option (σ × Option α)) : ℕ → σ → List α → α → Option (Option (End σ α))
  | 0, _, _, _ => none
  | limit + 1, s, seen, x =>
    match next s x with
    | none => some none
    | some (s', none) => some (some ⟨s', x, false⟩)
    | some (s', some y) =>
      if y ∈ seen then some (some ⟨s', x, true⟩) else chase next limit s' (y :: seen) y

variable {next : σ → α → Option (σ × Option α)} {s s' : σ} {seen : List α} {x y : α}

/-- A higher limit changes nothing. -/
theorem chase_mono {limit limit' : ℕ} {e : Option (End σ α)} (h : chase next limit s seen x = some e)
    (hle : limit ≤ limit') : chase next limit' s seen x = some e := by
  induction limit generalizing limit' s seen x with
  | zero => cases h
  | succ limit ih =>
    obtain ⟨limit', rfl⟩ : ∃ n, limit' = n + 1 := ⟨limit' - 1, by omega⟩
    unfold chase at h ⊢
    split at h
    · exact h
    · exact h
    · split at h
      · next hseen => rwa [if_pos hseen]
      · next hseen =>
        rw [if_neg hseen]
        exact ih h (by omega)

/-- **A chase among finitely many places ends.** -/
theorem exists_chase {I : σ → Prop} {targets : Finset α}
    (hnext : ∀ s x s' o, I s → next s x = some (s', o) → I s' ∧ ∀ y ∈ o, y ∈ targets) (hI : I s)
    (hnodup : seen.Nodup) (hseen : ∀ y ∈ seen, y ∈ targets) (x : α) :
    ∃ limit e, chase next limit s seen x = some e := by
  obtain ⟨n, hn⟩ : ∃ n, n = targets.card - seen.length := ⟨_, rfl⟩
  induction n generalizing s seen x with
  | zero =>
    refine ⟨1, ?_⟩
    unfold chase
    split
    · exact ⟨_, rfl⟩
    · exact ⟨_, rfl⟩
    · next s' y hs' =>
      -- There is no place left that has not been seen.
      have hy := (hnext s x s' _ hI hs').2 y rfl
      have hsub : seen.toFinset ⊆ targets := fun z hz => hseen z (List.mem_toFinset.mp hz)
      have hcard : seen.toFinset.card = seen.length := List.toFinset_card_of_nodup hnodup
      have heq : seen.toFinset = targets := Finset.eq_of_subset_of_card_le hsub (by omega)
      rw [if_pos (List.mem_toFinset.mp (heq ▸ hy))]
      exact ⟨_, rfl⟩
  | succ n ih =>
    cases hs : next s x with
    | none => exact ⟨1, none, by rw [chase, hs]⟩
    | some r =>
      obtain ⟨s', o⟩ := r
      cases o with
      | none => exact ⟨1, _, by rw [chase, hs]⟩
      | some y =>
        by_cases hy : y ∈ seen
        · exact ⟨1, some ⟨s', x, true⟩, by rw [chase, hs]; exact if_pos hy⟩
        · obtain ⟨hI', htargets⟩ := hnext s x s' _ hI hs
          have hmem : ∀ z ∈ y :: seen, z ∈ targets := by
            intro z hz
            rcases List.mem_cons.mp hz with rfl | hz
            · exact htargets z rfl
            · exact hseen z hz
          obtain ⟨limit, e, he⟩ := ih hI' (List.nodup_cons.mpr ⟨hy, hnodup⟩) hmem y
            (by rw [List.length_cons]; omega)
          refine ⟨limit + 1, e, ?_⟩
          rw [chase, hs]
          exact (if_neg hy).trans he

/-- A path of a chase, and the states on it. -/
inductive Path (next : σ → α → Option (σ × Option α)) : σ → α → List α → σ → α → Prop
  | done {s s' : σ} {x : α} (h : next s x = some (s', none)) : Path next s x [] s' x
  | step {s s' s'' : σ} {x y z : α} {ys : List α} (h : next s x = some (s', some y))
      (rest : Path next s' y ys s'' z) : Path next s x (y :: ys) s'' z

/-- **On a path without repetitions a chase comes to its end.** -/
theorem Path.chase_eq {ys : List α} {z : α} (h : Path next s x ys s' z) (hnodup : ys.Nodup)
    (hseen : ∀ y ∈ ys, y ∉ seen) :
    chase next (ys.length + 1) s seen x = some (some ⟨s', z, false⟩) := by
  induction h generalizing seen with
  | done h => rw [List.length_nil, chase, h]
  | @step s s₁ s₂ x y z ys h rest ih =>
    obtain ⟨hy, hnodup⟩ := List.nodup_cons.mp hnodup
    have hnew : y ∉ seen := hseen y List.mem_cons_self
    rw [List.length_cons, chase, h]
    refine (if_neg hnew).trans (ih hnodup fun z hz hmem => ?_)
    rcases List.mem_cons.mp hmem with rfl | hmem
    · exact hy hz
    · exact hseen z (List.mem_cons_of_mem _ hz) hmem

end Chase
end Lib
