/-
# A stream of frames, cut into chunks

A stream is the concatenation of frames, and arrives as the concatenation of chunks.  `Remains`
says what may be left of it after some chunks: a rest of the frame that was cut last, and a number
of whole frames.  A chunk that starts on the edge of a frame uses up at least one whole frame; any
other chunk uses up none that it needs to.

* `Remains.of_edge`: on the edge of a frame a chunk uses up a whole one;
* `Remains.drop`: anywhere else it leaves no more whole frames than there were.
-/
import Mathlib.Data.List.Basic

namespace Lib

variable {α : Type*} {F : List α → Prop}

/-- `v` is what is left of a frame that has been cut. -/
def Inside (F : List α → Prop) (v : List α) : Prop := ∃ u, u ≠ [] ∧ v ≠ [] ∧ F (u ++ v)

/-- `s` is a rest of a stream, with `n` whole frames in it. -/
def Remains (F : List α → Prop) (s : List α) (n : Nat) : Prop :=
  ∃ (v : List α) (fs : List (List α)),
    (v = [] ∨ Inside F v) ∧ (∀ f ∈ fs, F f) ∧ s = v ++ fs.flatten ∧ fs.length = n

theorem Remains.of_frames {fs : List (List α)} (h : ∀ f ∈ fs, F f) :
    Remains F fs.flatten fs.length :=
  ⟨[], fs, Or.inl rfl, h, rfl, rfl⟩

/-- What is left after a cut inside the first frame, or at its end. -/
theorem Remains.of_cut {u v : List α} {fs : List (List α)} (hF : F (u ++ v)) (hu : u ≠ [])
    (h : ∀ f ∈ fs, F f) : Remains F (v ++ fs.flatten) fs.length := by
  by_cases hv : v = []
  · subst hv
    exact Remains.of_frames h
  · exact ⟨v, fs, Or.inr ⟨u, hu, hv, hF⟩, h, rfl, rfl⟩

/-- **On the edge of a frame, a chunk uses up a whole frame.** -/
theorem Remains.of_edge {c s : List α} :
    ∀ {fs : List (List α)}, (∀ f ∈ fs, F f) → fs.flatten = c ++ s → c ≠ [] →
      ∃ k < fs.length, Remains F s k := by
  intro fs
  induction fs generalizing c with
  | nil =>
    intro _ hs hc
    exact absurd (List.append_eq_nil_iff.mp hs.symm).1 hc
  | cons f fs ih =>
    intro h hs hc
    have hfs : ∀ g ∈ fs, F g := fun g hg => h g (List.mem_cons_of_mem f hg)
    rw [List.flatten_cons] at hs
    rcases List.append_eq_append_iff.mp hs with ⟨c', rfl, hrest⟩ | ⟨v, rfl, rfl⟩
    · -- the chunk holds the whole frame `f`
      by_cases hc' : c' = []
      · subst hc'
        rw [List.nil_append] at hrest
        exact ⟨fs.length, Nat.lt_succ_self _, hrest ▸ Remains.of_frames hfs⟩
      · obtain ⟨k, hk, hr⟩ := ih hfs hrest hc'
        exact ⟨k, Nat.lt_succ_of_lt hk, hr⟩
    · exact ⟨fs.length, Nat.lt_succ_self _, Remains.of_cut (h (c ++ v) List.mem_cons_self) hc hfs⟩

/-- A chunk never adds whole frames. -/
theorem Remains.drop {c s : List α} {n : Nat} (h : Remains F (c ++ s) n) :
    ∃ k ≤ n, Remains F s k := by
  obtain ⟨v, fs, hv, hfs, hs, rfl⟩ := h
  rcases List.append_eq_append_iff.mp hs with ⟨w, rfl, rfl⟩ | ⟨c', rfl, hrest⟩
  · rcases hv with hnil | ⟨u, hu, -, hF⟩
    · obtain ⟨rfl, rfl⟩ := List.append_eq_nil_iff.mp hnil
      exact ⟨fs.length, Nat.le_refl _, Remains.of_frames hfs⟩
    · rw [← List.append_assoc] at hF
      exact ⟨fs.length, Nat.le_refl _, Remains.of_cut hF (by simp [hu]) hfs⟩
  · by_cases hc' : c' = []
    · subst hc'
      rw [List.nil_append] at hrest
      exact ⟨fs.length, Nat.le_refl _, hrest ▸ Remains.of_frames hfs⟩
    · obtain ⟨k, hk, hr⟩ := Remains.of_edge hfs hrest hc'
      exact ⟨k, Nat.le_of_lt hk, hr⟩

end Lib
