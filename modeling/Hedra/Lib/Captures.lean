/-
# Patterns of groups, with backtracking

A group is a row of repetitions of characters, and may be left out.  A pattern is a row of groups, and
what a group has matched is captured.  A match is sought with as much as possible for each repetition,
from the left, and with less where the rest of the pattern does not match behind it.

`matchGroups_captures` says what has been captured where a pattern matches, and `Greedy` is for when
nothing has to be given back.  `split` gives what is between the matches of a text, with what they have
captured.
-/
import Mathlib.Data.List.TakeWhile

namespace Lib
namespace Captures

variable {α β : Type*}

/-- A repetition: what is allowed, how much of it at least, and at most. -/
structure Item (α : Type*) where
  allowed : α → Bool
  least : ℕ
  most : Option ℕ

/-- A group, which may be optional. -/
structure CaptureGroup (α : Type*) where
  items : List (Item α)
  isOptional : Bool

/-! ## 1. Matching -/

/-- The most that a repetition can take. -/
def Item.longest (i : Item α) (text : List α) : ℕ :=
  match i.most with
  | none => (text.takeWhile i.allowed).length
  | some most => min most (text.takeWhile i.allowed).length

/-- From `n` down to `least`. -/
def descend (f : ℕ → Option β) (least : ℕ) : ℕ → Option β
  | 0 => if least = 0 then f 0 else none
  | n + 1 =>
    if n + 1 < least then none
    else
      match f (n + 1) with
      | some b => some b
      | none => descend f least n

def matchItems : List (Item α) → (List α → Option β) → List α → Option β
  | [], k, text => k text
  | i :: items, k, text =>
    descend (fun n => matchItems items k (text.drop n)) i.least (i.longest text)

/-- What the groups capture at the beginning of a text, and what is left of it. -/
def matchGroups : List (CaptureGroup α) → List α → Option (List (Option (List α)) × List α)
  | [], text => some ([], text)
  | g :: groups, text =>
    match matchItems g.items (fun rest => (matchGroups groups rest).map fun m =>
        (some (text.take (text.length - rest.length)) :: m.1, m.2)) text with
    | some m => some m
    | none => if g.isOptional then (matchGroups groups text).map fun m => (none :: m.1, m.2) else none

/-- What is between the matches, and their captures; `n` is a limit on how far to look. -/
def splitFrom (groups : List (CaptureGroup α)) : ℕ → List α → List α → List (Option (List α))
  | 0, passed, text => [some (passed.reverse ++ text)]
  | _ + 1, passed, [] => [some passed.reverse]
  | n + 1, passed, x :: xs =>
    match matchGroups groups (x :: xs) with
    | some (captures, rest) => some passed.reverse :: captures ++ splitFrom groups n [] rest
    | none => splitFrom groups n (x :: passed) xs

def split (groups : List (CaptureGroup α)) (text : List α) : List (Option (List α)) :=
  splitFrom groups text.length [] text

/-! ## 2. What is captured -/

/-- What a row of repetitions may take. -/
inductive Takes : List (Item α) → List α → Prop
  | nil : Takes [] []
  | cons {i : Item α} {items : List (Item α)} {l l' : List α} (hl : ∀ x ∈ l, i.allowed x = true)
      (hleast : i.least ≤ l.length) (hmost : ∀ n ∈ i.most, l.length ≤ n) (rest : Takes items l') :
      Takes (i :: items) (l ++ l')

/-- What a row of groups may capture in a text, before what is left of it. -/
inductive Matches : List (CaptureGroup α) → List (Option (List α)) → List α → List α → Prop
  | nil {rest : List α} : Matches [] [] rest rest
  | take {g : CaptureGroup α} {groups : List (CaptureGroup α)} {captured : List α} {captures : List (Option (List α))}
      {text rest : List α} (h : Takes g.items captured) (h' : Matches groups captures text rest) :
      Matches (g :: groups) (some captured :: captures) (captured ++ text) rest
  | skip {g : CaptureGroup α} {groups : List (CaptureGroup α)} {captures : List (Option (List α))}
      {text rest : List α} (h : g.isOptional = true) (h' : Matches groups captures text rest) :
      Matches (g :: groups) (none :: captures) text rest

theorem exists_of_descend {f : ℕ → Option β} {least n : ℕ} {b : β} (h : descend f least n = some b) :
    ∃ m, least ≤ m ∧ m ≤ n ∧ f m = some b := by
  induction n with
  | zero =>
    unfold descend at h
    split at h
    · next hleast => exact ⟨0, hleast.le, le_refl 0, h⟩
    · cases h
  | succ n ih =>
    unfold descend at h
    split at h
    · cases h
    · next hle =>
      split at h
      · next b' hb' => exact ⟨n + 1, by omega, le_refl _, hb'.trans h⟩
      · obtain ⟨m, hm, hmn, hf⟩ := ih h
        exact ⟨m, hm, by omega, hf⟩

/-- As much as a repetition takes is allowed. -/
theorem Item.take_allowed {i : Item α} {text : List α} {n : ℕ} (h : n ≤ i.longest text) :
    (∀ x ∈ text.take n, i.allowed x = true) ∧ (text.take n).length = n ∧ ∀ m ∈ i.most, n ≤ m := by
  have hbound : n ≤ (text.takeWhile i.allowed).length ∧ ∀ m ∈ i.most, n ≤ m := by
    unfold Item.longest at h
    cases hmost : i.most with
    | none => exact ⟨by simpa [hmost] using h, fun m hm => by simp at hm⟩
    | some most =>
      simp only [hmost, Nat.le_min] at h
      exact ⟨h.2, fun m hm => Option.some.inj hm ▸ h.1⟩
  have hprefix := List.takeWhile_prefix (l := text) i.allowed
  have htake : text.take n = (text.takeWhile i.allowed).take n := by
    obtain ⟨r, hr⟩ := hprefix
    rw [← hr, List.take_append_of_le_length hbound.1]
    simp [hr]
  refine ⟨fun x hx => ?_, ?_, hbound.2⟩
  · rw [htake] at hx
    exact List.mem_takeWhile_imp (List.mem_of_mem_take hx)
  · rw [htake, List.length_take, min_eq_left hbound.1]

theorem exists_of_matchItems {items : List (Item α)} {k : List α → Option β} {text : List α} {b : β}
    (h : matchItems items k text = some b) :
    ∃ l rest, text = l ++ rest ∧ Takes items l ∧ k rest = some b := by
  induction items generalizing text with
  | nil => exact ⟨[], text, rfl, .nil, h⟩
  | cons i items ih =>
    obtain ⟨n, hleast, hn, hrest⟩ := exists_of_descend h
    obtain ⟨l, rest, htext, htakes, hk⟩ := ih hrest
    obtain ⟨hallowed, hlength, hmost⟩ := Item.take_allowed hn
    refine ⟨text.take n ++ l, rest, ?_, .cons hallowed (hlength.symm ▸ hleast) ?_ htakes, hk⟩
    · rw [List.append_assoc, ← htext, List.take_append_drop]
    · exact hlength.symm ▸ hmost

/-- **What has been captured is what the groups may capture.** -/
theorem matchGroups_captures {groups : List (CaptureGroup α)} {text rest : List α}
    {captures : List (Option (List α))} (h : matchGroups groups text = some (captures, rest)) :
    Matches groups captures text rest := by
  induction groups generalizing text captures with
  | nil =>
    obtain ⟨rfl, rfl⟩ := Prod.mk.inj (Option.some.inj h)
    exact .nil
  | cons g groups ih =>
    unfold matchGroups at h
    split at h
    · next m hm =>
      obtain rfl := Option.some.inj h
      obtain ⟨l, rest', rfl, htakes, hrest⟩ := exists_of_matchItems hm
      obtain ⟨⟨captures', rest''⟩, hmatch, heq⟩ := Option.map_eq_some_iff.mp hrest
      obtain ⟨rfl, rfl⟩ := Prod.mk.inj heq
      rw [List.length_append, Nat.add_sub_cancel, List.take_left]
      exact .take htakes (ih hmatch)
    · split at h
      · next hoptional =>
        obtain ⟨⟨captures', rest''⟩, hmatch, heq⟩ := Option.map_eq_some_iff.mp h
        obtain ⟨rfl, rfl⟩ := Prod.mk.inj heq
        exact .skip hoptional (ih hmatch)
      · cases h

/-! ## 3. Matching without giving back -/

/-- A row of repetitions that takes as much as it can, before a text. -/
inductive Greedy : List (Item α) → List α → List α → Prop
  | nil {text : List α} : Greedy [] [] text
  | cons {i : Item α} {items : List (Item α)} {l l' text : List α}
      (hlongest : i.longest (l ++ (l' ++ text)) = l.length) (hleast : i.least ≤ l.length)
      (rest : Greedy items l' text) : Greedy (i :: items) (l ++ l') text

theorem descend_eq {f : ℕ → Option β} {least n : ℕ} {b : β} (hleast : least ≤ n) (h : f n = some b) :
    descend f least n = some b := by
  cases n with
  | zero => rw [descend, if_pos (Nat.le_zero.mp hleast), h]
  | succ n => rw [descend, if_neg (by omega), h]

theorem Greedy.matchItems_eq {items : List (Item α)} {l text : List α} (h : Greedy items l text)
    {k : List α → Option β} {b : β} (hk : k text = some b) :
    matchItems items k (l ++ text) = some b := by
  induction h with
  | nil => exact hk
  | @cons i items l l' text hlongest hleast rest ih =>
    rw [matchItems, List.append_assoc, hlongest]
    refine descend_eq hleast ?_
    rw [List.drop_left]
    exact ih hk

/-- **What a group takes greedily is captured, where the other groups match behind it.** -/
theorem Greedy.matchGroups_eq {g : CaptureGroup α} {groups : List (CaptureGroup α)} {l text rest : List α}
    {captures : List (Option (List α))} (h : Greedy g.items l text)
    (hrest : matchGroups groups text = some (captures, rest)) :
    matchGroups (g :: groups) (l ++ text) = some (some l :: captures, rest) := by
  rw [matchGroups, h.matchItems_eq (b := (some l :: captures, rest))]
  rw [hrest, List.length_append, Nat.add_sub_cancel, List.take_left]
  rfl

/-- A repetition takes all there is, if it may. -/
theorem Item.longest_eq {i : Item α} {l text : List α} (hl : ∀ x ∈ l, i.allowed x = true)
    (htext : ∀ x ∈ text.head?, i.allowed x = false) (hmost : ∀ n ∈ i.most, l.length ≤ n) :
    i.longest (l ++ text) = l.length := by
  have htake : (l ++ text).takeWhile i.allowed = l := by
    rw [List.takeWhile_append_of_pos hl]
    cases text with
    | nil => simp
    | cons x text => rw [List.takeWhile_cons_of_neg (by simp [htext x rfl]), List.append_nil]
  unfold Item.longest
  rw [htake]
  cases h : i.most with
  | none => rfl
  | some n => exact min_eq_right (hmost n h)

/-- A repetition alone. -/
theorem Greedy.single {i : Item α} {l text : List α} (hl : ∀ x ∈ l, i.allowed x = true)
    (htext : ∀ x ∈ text.head?, i.allowed x = false) (hleast : i.least ≤ l.length)
    (hmost : ∀ n ∈ i.most, l.length ≤ n) : Greedy [i] l text := by
  have h : Greedy [i] (l ++ []) text := .cons (Item.longest_eq hl htext hmost) hleast .nil
  rwa [List.append_nil] at h

/-! ## 4. Splitting -/

/-- Where nothing matches the text is left whole. -/
theorem splitFrom_of_none {groups : List (CaptureGroup α)} (n : ℕ) {passed text : List α}
    (h : ∀ t, t <:+ text → t ≠ [] → matchGroups groups t = none) :
    splitFrom groups n passed text = [some (passed.reverse ++ text)] := by
  induction n generalizing passed text with
  | zero => rfl
  | succ n ih =>
    cases text with
    | nil => rw [splitFrom, List.append_nil]
    | cons x xs =>
      rw [splitFrom, h (x :: xs) (List.suffix_refl _) (List.cons_ne_nil _ _)]
      refine (ih fun t ht => h t (ht.trans (List.suffix_cons x xs))).trans ?_
      rw [List.reverse_cons, List.append_assoc, List.singleton_append]

/-- A match at the beginning of the text comes first. -/
theorem split_of_match {groups : List (CaptureGroup α)} {text rest : List α}
    {captures : List (Option (List α))} (h : matchGroups groups text = some (captures, rest))
    (hne : text ≠ []) :
    split groups text = some [] :: captures ++ splitFrom groups (text.length - 1) [] rest := by
  obtain ⟨x, xs, rfl⟩ := List.exists_cons_of_ne_nil hne
  rw [split, List.length_cons, splitFrom, h, Nat.add_sub_cancel]
  rfl

end Captures
end Lib
