/-
# Lines of a stream

A stream with a terminator `t` consists of lines, each of which ends with the only `t` in it.  A
reader that takes what it has up to the next `t`, or all of it when there is none, reads pieces: `t`
is at most the last item of a piece.

* `takeLine_append`: what is taken does not depend on what comes behind the line;
* `split_flatten_append`: the lines of a stream are its pieces, but for the last;
* `eq_of_marked`: the last piece of a stream is its last line, where a mark tells that from the
  pieces before.
-/
import Mathlib.Data.List.Basic

namespace Lib
namespace Lines

variable {α : Type*} {t : α}

/-! ## 1. Pieces and lines -/

/-- Not empty, and nothing follows the terminator. -/
structure Piece (t : α) (p : List α) : Prop where
  ne_nil : p ≠ []
  eq_nil : ∀ c a, p = c ++ t :: a → a = []

/-- A piece that has the terminator. -/
structure Line (t : α) (l : List α) : Prop extends Piece t l where
  mem : t ∈ l

theorem Line.of_not_mem {c : List α} (h : t ∉ c) : Line t (c ++ [t]) where
  ne_nil := by simp
  eq_nil d a heq := by
    rcases List.eq_nil_or_concat a with rfl | ⟨a', x, rfl⟩
    · rfl
    · rw [List.concat_eq_append, ← List.cons_append, ← List.append_assoc] at heq
      rw [(List.append_inj' heq rfl).1] at h
      exact absurd (List.mem_append_right _ List.mem_cons_self) h
  mem := by simp

theorem Line.exists_eq {l : List α} (h : Line t l) : ∃ c, l = c ++ [t] := by
  obtain ⟨c, a, hl⟩ := List.append_of_mem h.mem
  obtain rfl := h.eq_nil c a hl
  exact ⟨c, hl⟩

theorem Piece.singleton (x : α) : Piece t [x] where
  ne_nil := List.cons_ne_nil _ _
  eq_nil c a h := by
    cases c with
    | nil => exact (List.cons.inj h).2.symm
    | cons y c => simp at h

/-- What ends with the terminator takes up a whole piece it begins. -/
theorem Piece.eq_nil_of_append {s a : List α} (h : Piece t (s ++ a)) (hs : ∃ c, s = c ++ [t]) :
    a = [] := by
  obtain ⟨c, rfl⟩ := hs
  exact h.eq_nil c a (by rw [List.append_assoc, List.singleton_append])

/-- Lines end with the terminator, and so does each of their suffixes. -/
theorem exists_eq_of_flatten {ls : List (List α)} (hls : ∀ l ∈ ls, Line t l) {x s : List α}
    (h : ls.flatten = x ++ s) (hs : s ≠ []) : ∃ c, s = c ++ [t] := by
  rcases List.eq_nil_or_concat ls with rfl | ⟨ls', l, rfl⟩
  · rw [List.flatten_nil] at h
    exact absurd (List.append_eq_nil_iff.mp h.symm).2 hs
  · obtain ⟨c, rfl⟩ := (hls l (by simp)).exists_eq
    rcases List.eq_nil_or_concat s with rfl | ⟨s', a, rfl⟩
    · exact absurd rfl hs
    · refine ⟨s', ?_⟩
      have hcat : (ls'.flatten ++ c) ++ [t] = (x ++ s') ++ [a] := by
        simpa [List.concat_eq_append, List.append_assoc] using h
      obtain rfl : t = a := by simpa using (List.append_inj' hcat rfl).2
      rw [List.concat_eq_append]

/-! ## 2. Taking a line -/

variable [DecidableEq α]

/-- What comes up to the first terminator, or all, and what follows. -/
def takeLine (t : α) : List α → List α × List α
  | [] => ([], [])
  | x :: xs => if x = t then ([x], xs) else (x :: (takeLine t xs).1, (takeLine t xs).2)

theorem takeLine_append_snd (l : List α) : (takeLine t l).1 ++ (takeLine t l).2 = l := by
  induction l with
  | nil => rfl
  | cons x xs ih =>
    unfold takeLine
    split
    · rfl
    · rw [List.cons_append, ih]

theorem mem_of_mem_takeLine {l : List α} {x : α} (h : x ∈ (takeLine t l).1) : x ∈ l := by
  rw [← takeLine_append_snd (t := t) l]
  exact List.mem_append_left _ h

theorem length_takeLine_lt {l : List α} (h : l ≠ []) : (takeLine t l).2.length < l.length := by
  have hlen := congrArg List.length (takeLine_append_snd (t := t) l)
  have hpos : (takeLine t l).1 ≠ [] := by
    cases l with
    | nil => exact absurd rfl h
    | cons x xs => unfold takeLine; split <;> exact List.cons_ne_nil _ _
  rw [List.length_append] at hlen
  have := List.length_pos_iff.mpr hpos
  omega

/-- What comes behind the terminator changes nothing. -/
theorem takeLine_append {l : List α} (h : t ∈ l) (r : List α) :
    takeLine t (l ++ r) = ((takeLine t l).1, (takeLine t l).2 ++ r) := by
  induction l with
  | nil => exact absurd h List.not_mem_nil
  | cons x xs ih =>
    by_cases hx : x = t
    · simp [takeLine, hx]
    · have hmem : t ∈ xs := (List.mem_cons.mp h).resolve_left (Ne.symm hx)
      simp [takeLine, hx, ih hmem]

theorem takeLine_line {l : List α} (h : Line t l) (r : List α) :
    takeLine t (l ++ r) = (l, r) := by
  have hsnd : (takeLine t l).2 = [] := by
    have hmem := h.mem
    have hnil := h.eq_nil
    clear h
    induction l with
    | nil => rfl
    | cons x xs ih =>
      by_cases hx : x = t
      · subst hx
        simpa [takeLine] using hnil [] xs rfl
      · simp only [takeLine, if_neg hx]
        refine ih ((List.mem_cons.mp hmem).resolve_left (Ne.symm hx)) fun c a ha => ?_
        exact hnil (x :: c) a (by rw [ha, List.cons_append])
  have hfst : (takeLine t l).1 = l := by
    have happ := takeLine_append_snd (t := t) l
    rwa [hsnd, List.append_nil] at happ
  rw [takeLine_append h.mem, hsnd, hfst, List.nil_append]

/-- Two streams that are the same begin with the same line. -/
theorem eq_of_append {l l' r r' : List α} (hl : Line t l) (hl' : Line t l')
    (h : l ++ r = l' ++ r') : l = l' ∧ r = r' := by
  have htake := takeLine_line hl r
  rw [h, takeLine_line hl' r'] at htake
  exact ⟨(Prod.mk.inj htake).1.symm, (Prod.mk.inj htake).2.symm⟩

/-! ## 3. Splitting into pieces -/

/-- The pieces of a stream. -/
def split (t : α) : List α → List (List α)
  | [] => []
  | x :: xs =>
    if x = t then [x] :: split t xs else
      match split t xs with
      | [] => [[x]]
      | p :: ps => (x :: p) :: ps

@[simp] theorem split_nil : split t ([] : List α) = [] := rfl

theorem flatten_split (l : List α) : (split t l).flatten = l := by
  induction l with
  | nil => rfl
  | cons x xs ih =>
    unfold split
    split
    · rw [List.flatten_cons, ih, List.singleton_append]
    · split
      · next hxs =>
        rw [hxs] at ih
        rw [← ih]
        rfl
      · next hxs =>
        rw [hxs] at ih
        rw [← ih]
        rfl

/-- The first piece is the line that is taken. -/
theorem split_eq {l : List α} (h : l ≠ []) :
    split t l = (takeLine t l).1 :: split t (takeLine t l).2 := by
  induction l with
  | nil => exact absurd rfl h
  | cons x xs ih =>
    by_cases hx : x = t
    · simp [split, takeLine, hx]
    · cases xs with
      | nil => simp [split, takeLine, hx]
      | cons y ys =>
        have hxs := ih (List.cons_ne_nil y ys)
        rw [split, if_neg hx, hxs]
        simp [takeLine, hx]

theorem piece_of_mem_split {l p : List α} (h : p ∈ split t l) : Piece t p := by
  induction l generalizing p with
  | nil => exact absurd h List.not_mem_nil
  | cons x xs ih =>
    unfold split at h
    split at h
    · rcases List.mem_cons.mp h with rfl | h
      · exact .singleton x
      · exact ih h
    · next hx =>
      split at h
      · rw [List.mem_singleton.mp h]
        exact .singleton x
      · next q qs hxs =>
        rcases List.mem_cons.mp h with rfl | h
        · have hq : Piece t q := ih (by rw [hxs]; exact List.mem_cons_self)
          refine ⟨List.cons_ne_nil _ _, fun c a ha => ?_⟩
          cases c with
          | nil => exact absurd (List.cons.inj ha).1 hx
          | cons y c => exact hq.eq_nil c a (List.cons.inj ha).2
        · exact ih (by rw [hxs]; exact List.mem_cons_of_mem _ h)

/-- What is taken from a stream with a terminator is a line. -/
theorem line_takeLine {l : List α} (h : t ∈ l) : Line t (takeLine t l).1 where
  toPiece := by
    refine @piece_of_mem_split _ t _ l _ ?_
    rw [split_eq (List.ne_nil_of_mem h)]
    exact List.mem_cons_self
  mem := by
    induction l with
    | nil => exact absurd h List.not_mem_nil
    | cons x xs ih =>
      by_cases hx : x = t
      · simp [takeLine, hx]
      · simpa [takeLine, hx] using Or.inr (ih ((List.mem_cons.mp h).resolve_left (Ne.symm hx)))

/-- Lines that are there as a whole are pieces. -/
theorem split_flatten_append {ls : List (List α)} (hls : ∀ l ∈ ls, Line t l) (r : List α) :
    split t (ls.flatten ++ r) = ls ++ split t r := by
  induction ls with
  | nil => rfl
  | cons l ls ih =>
    have hl := hls l List.mem_cons_self
    have hne : l ++ (ls.flatten ++ r) ≠ [] := List.append_ne_nil_of_left_ne_nil hl.ne_nil _
    rw [List.flatten_cons, List.append_assoc, split_eq hne, takeLine_line hl,
      ih fun m hm => hls m (List.mem_cons_of_mem _ hm), List.cons_append]

/-! ## 4. Pieces of lines -/

omit [DecidableEq α] in
/-- Pieces that have `x`, and then one that does not, where the lines that have `x` and the first one
that does not end at the same place: the last piece is that line. -/
theorem eq_of_marked {x : α} {ps ls : List (List α)} {p l : List α} (hps : ∀ q ∈ ps, Piece t q)
    (hls : ∀ m ∈ ls, Line t m) (hp : Piece t p) (hl : Line t l) (hmark : ∀ q ∈ ps, x ∈ q)
    (hx : x ∉ l) (h : ps.flatten ++ p = ls.flatten ++ l) : p = l := by
  rcases List.append_eq_append_iff.mp h with ⟨c, hlines, rfl⟩ | ⟨c, hpieces, rfl⟩
  · -- The piece begins before the line.
    by_cases hc : c = []
    · rw [hc, List.nil_append]
    · exact absurd (hp.eq_nil_of_append (exists_eq_of_flatten hls hlines hc)) hl.ne_nil
  · -- The piece begins within the line, and the one before it has `x` from another line.
    by_cases hc : c = []
    · rw [hc, List.nil_append]
    · exfalso
      have hxc : x ∉ c := fun hmem => hx (List.mem_append_left _ hmem)
      rcases List.eq_nil_or_concat ps with rfl | ⟨ps', q, rfl⟩
      · rw [List.flatten_nil] at hpieces
        exact hc (List.append_eq_nil_iff.mp hpieces.symm).2
      · rw [List.concat_eq_append, List.flatten_append, List.flatten_singleton] at hpieces
        have hq : q ∈ ps'.concat q := by rw [List.concat_eq_append]; simp
        rcases List.append_eq_append_iff.mp hpieces with ⟨s, hs, rfl⟩ | ⟨s, -, rfl⟩
        · have hne : s ≠ [] := by
            rintro rfl
            exact hxc (hmark _ hq)
          exact hc ((hps _ hq).eq_nil_of_append (exists_eq_of_flatten hls hs hne))
        · exact hxc (List.mem_append_right _ (hmark _ hq))

end Lines
end Lib
