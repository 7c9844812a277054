/-
# Prefix-free codes, and tables that read them

A code gives each symbol a bit string, and none begins another.  So there is at most one way to cut
a bit string into code strings, and what is left over is the padding.  `none` is a symbol that is
never sent: a reader that finds its code string fails.

A reader gets the bits in chunks (a nibble, a byte) that do not end where the code strings do.  Its
state stands for the bits behind the last whole symbol, `pending`.  If each step keeps to that, the
run over all chunks finds the word that was spelled (`Reader.run_spell`).
-/
import Mathlib.Data.List.Basic
import Hedra.Lib.BitString

namespace Lib.PrefixCode

variable {β χ S : Type*} {code : Option β → List Bool} {bits : χ → List Bool}

/-- No code string begins another one. -/
def PrefixFree (code : Option β → List Bool) : Prop := ∀ a b, code a <+: code b → a = b

/-- The bits of a word. -/
def spell (code : Option β → List Bool) (word : List β) : List Bool :=
  word.flatMap fun b => code (some b)

/-- No code string begins these bits. -/
def Unfinished (code : Option β → List Bool) (l : List Bool) : Prop := ∀ a, ¬ code a <+: l

@[simp] theorem spell_nil : spell code [] = [] := rfl

@[simp] theorem spell_cons (b : β) (word : List β) :
    spell code (b :: word) = code (some b) ++ spell code word := rfl

/-! ## 1. A bit string is cut in one way -/

theorem PrefixFree.cancel (h : PrefixFree code) {a b : Option β} {x y : List Bool}
    (heq : code a ++ x = code b ++ y) : a = b ∧ x = y := by
  have hab : a = b := by
    have hpre : code b <+: code a ++ x := heq ▸ List.prefix_append _ _
    rcases List.prefix_or_prefix_of_prefix (List.prefix_append (code a) x) hpre with hp | hp
    · exact h a b hp
    · exact (h b a hp).symm
  subst hab
  exact ⟨rfl, List.append_cancel_left heq⟩

theorem length_le_spell (h : ∀ a, code a ≠ []) (word : List β) :
    word.length ≤ (spell code word).length := by
  induction word with
  | nil => exact Nat.le_refl 0
  | cons b word ih =>
    have hb : 0 < (code (some b)).length := List.length_pos_iff.mpr (h (some b))
    simp only [List.length_cons, spell_cons, List.length_append]
    omega

/-- A bit string that begins with a code string and is a word with padding: its first symbol. -/
theorem PrefixFree.spell_cases (h : PrefixFree code) {a : Option β} {x pad : List Bool}
    {word : List β} (hpad : Unfinished code pad) (heq : code a ++ x = spell code word ++ pad) :
    ∃ b rest, a = some b ∧ word = b :: rest ∧ x = spell code rest ++ pad := by
  cases word with
  | nil => exact absurd ⟨x, heq⟩ (hpad a)
  | cons b rest =>
    rw [spell_cons, List.append_assoc] at heq
    obtain ⟨rfl, hx⟩ := h.cancel heq
    exact ⟨b, rest, rfl, rfl, hx⟩

/-! ## 2. The tree of a code -/

/-- A binary tree with the symbols at its leaves. -/
inductive Tree (β : Type*)
  | empty
  | leaf (a : Option β)
  | node (zero one : Tree β)

namespace Tree

/-- The part of the tree behind a bit string. -/
def walk : Tree β → List Bool → Tree β
  | t, [] => t
  | .node zero one, b :: l => (bif b then one else zero).walk l
  | _, _ :: _ => .empty

/-- `walk` for the last `n` bits of a number, without making the list. -/
def walkNum : Tree β → Nat → Nat → Tree β
  | t, 0, _ => t
  | .node zero one, n + 1, v => (bif v / 2 ^ n % 2 == 1 then one else zero).walkNum n v
  | _, _ + 1, _ => .empty

/-- Puts a symbol behind the last `n` bits of `v`. -/
def add (a : Option β) : Nat → Nat → Tree β → Tree β
  | 0, _, _ => .leaf a
  | n + 1, v, .node zero one =>
    bif v / 2 ^ n % 2 == 1 then .node zero (add a n v one) else .node (add a n v zero) one
  | n + 1, v, _ =>
    bif v / 2 ^ n % 2 == 1 then .node .empty (add a n v .empty)
    else .node (add a n v .empty) .empty

def isNode : Tree β → Bool
  | .node _ _ => true
  | _ => false

theorem walkNum_eq (t : Tree β) (n v : Nat) : t.walkNum n v = t.walk (BitString.bits n v) := by
  induction n generalizing t with
  | zero => cases t <;> rfl
  | succ n ih =>
    have hbits : BitString.bits (n + 1) v = (v / 2 ^ n % 2 == 1) :: BitString.bits n v := by
      rw [Nat.add_comm, BitString.bits_add]
      rfl
    rw [hbits]
    cases t with
    | node zero one => exact ih _
    | empty => rfl
    | leaf a => rfl

theorem walk_append (t : Tree β) (l l' : List Bool) : t.walk (l ++ l') = (t.walk l).walk l' := by
  induction l generalizing t with
  | nil => cases t <;> rfl
  | cons b l ih =>
    cases t with
    | node zero one => exact ih _
    | empty => cases l' <;> rfl
    | leaf a => cases l' <;> rfl

theorem walk_leaf_eq_leaf {a b : Option β} {l : List Bool}
    (h : (leaf a : Tree β).walk l = .leaf b) : a = b := by
  cases l with
  | nil => exact leaf.inj h
  | cons => cases h

/-- A code whose strings lead to leaves of their own in one tree. -/
theorem prefixFree {t : Tree β} (h : ∀ a, t.walk (code a) = .leaf a) : PrefixFree code := by
  rintro a b ⟨l, hl⟩
  have hb := h b
  rw [← hl, walk_append, h a] at hb
  exact walk_leaf_eq_leaf hb

/-- What leads to an inner node begins with no code string. -/
theorem unfinished {t : Tree β} (h : ∀ a, t.walk (code a) = .leaf a) {l : List Bool}
    (hl : (t.walk l).isNode = true) : Unfinished code l := by
  rintro a ⟨x, rfl⟩
  rw [walk_append, h a] at hl
  cases x <;> cases hl

end Tree

/-! ## 3. Reading symbol by symbol -/

section Read

variable (alphabet : List β) (code)

/-- Takes off code strings as long as there is one, at most `n`. -/
def read : Nat → List Bool → List β × List Bool
  | 0, l => ([], l)
  | n + 1, l =>
    match alphabet.find? fun b => (code (some b)).isPrefixOf l with
    | none => ([], l)
    | some b =>
      let r := read n (l.drop (code (some b)).length)
      (b :: r.1, r.2)

variable {alphabet code}

theorem read_spell (h : PrefixFree code) (hall : ∀ b, b ∈ alphabet) {pad : List Bool}
    (hpad : Unfinished code pad) {word : List β} {n : Nat} (hn : word.length ≤ n) :
    read code alphabet n (spell code word ++ pad) = (word, pad) := by
  induction word generalizing n with
  | nil =>
    have hnone : alphabet.find? (fun b => (code (some b)).isPrefixOf pad) = none :=
      List.find?_eq_none.mpr fun b _ hb => hpad (some b) (List.isPrefixOf_iff_prefix.mp hb)
    cases n with
    | zero => rfl
    | succ n => simp [read, hnone]
  | cons b word ih =>
    obtain ⟨n, rfl⟩ : ∃ m, n = m + 1 := Nat.exists_eq_add_one.mpr (Nat.lt_of_lt_of_le (by simp) hn)
    have hfirst : alphabet.find? (fun a =>
        (code (some a)).isPrefixOf (spell code (b :: word) ++ pad)) = some b := by
      have hb : (code (some b)).isPrefixOf (spell code (b :: word) ++ pad) = true :=
        List.isPrefixOf_iff_prefix.mpr ⟨spell code word ++ pad, by simp⟩
      cases ha : alphabet.find? (fun a =>
        (code (some a)).isPrefixOf (spell code (b :: word) ++ pad)) with
      | none => exact absurd hb (List.find?_eq_none.mp ha b (hall b))
      | some a =>
        have hpre : (code (some a)).isPrefixOf (spell code (b :: word) ++ pad) = true := by
          simpa using List.find?_some ha
        obtain ⟨x, hx⟩ := List.isPrefixOf_iff_prefix.mp hpre
        obtain ⟨c, rest, hac, hword, -⟩ := h.spell_cases hpad hx
        rw [hac, (List.cons.inj hword).1]
    have hdrop : (spell code (b :: word) ++ pad).drop (code (some b)).length
        = spell code word ++ pad := by simp
    rw [read, hfirst]
    simp only [hdrop, ih (Nat.le_of_succ_le_succ hn)]

end Read

/-! ## 4. Reading chunk by chunk -/

/-- A table that reads a code in chunks: with each chunk it gives at most one symbol. -/
structure Reader (code : Option β → List Bool) (bits : χ → List Bool) (S : Type*) where
  start : S
  step : S → χ → Option (S × Option β)
  /-- The bits behind the last whole symbol. -/
  pending : S → List Bool
  pending_start : pending start = []
  unfinished : ∀ s, Unfinished code (pending s)
  step_some : ∀ {s c s' o}, step s c = some (s', o) →
    pending s ++ bits c = spell code o.toList ++ pending s'
  step_none : ∀ {s c}, step s c = none → code none <+: pending s ++ bits c

namespace Reader

variable (r : Reader code bits S)

/-- All chunks, and the symbols they give. -/
def run : S → List χ → Option (S × List β)
  | s, [] => some (s, [])
  | s, c :: cs =>
    match r.step s c with
    | none => none
    | some (s', o) => (run s' cs).map fun p => (p.1, o.toList ++ p.2)

variable {r}

theorem run_cons {c : χ} {cs : List χ} {s s'' : S} {word : List β} :
    r.run s (c :: cs) = some (s'', word) ↔ ∃ s' o rest,
      r.step s c = some (s', o) ∧ r.run s' cs = some (s'', rest) ∧ word = o.toList ++ rest := by
  constructor
  · intro h
    cases hstep : r.step s c with
    | none => simp [run, hstep] at h
    | some p =>
      obtain ⟨⟨t, rest⟩, hrun, ht⟩ : ∃ q, r.run p.1 cs = some q ∧ (q.1, p.2.toList ++ q.2)
          = (s'', word) := by simpa [run, hstep] using h
      obtain ⟨rfl, rfl⟩ := Prod.mk.inj ht
      exact ⟨p.1, p.2, rest, rfl, hrun, rfl⟩
  · rintro ⟨s', o, rest, hstep, hrun, rfl⟩
    simp [run, hstep, hrun]

/-- **A reader finds the word.**  From any state: what is pending and what comes is the word with
its padding, so the symbols come out and the padding is pending at the end. -/
theorem run_spell (h : PrefixFree code) {cs : List χ} {s : S} {word : List β} {pad : List Bool}
    (hpad : Unfinished code pad)
    (hbits : r.pending s ++ cs.flatMap bits = spell code word ++ pad) :
    ∃ s', r.run s cs = some (s', word) ∧ r.pending s' = pad := by
  induction cs generalizing s word with
  | nil =>
    rw [List.flatMap_nil, List.append_nil] at hbits
    cases word with
    | nil => exact ⟨s, rfl, hbits⟩
    | cons b word =>
      exact absurd ⟨spell code word ++ pad, by rw [hbits]; simp⟩ (r.unfinished s (some b))
  | cons c cs ih =>
    rw [List.flatMap_cons, ← List.append_assoc] at hbits
    cases hstep : r.step s c with
    | none =>
      obtain ⟨x, hx⟩ := r.step_none hstep
      rw [← hx, List.append_assoc] at hbits
      obtain ⟨b, rest, hb, -⟩ := h.spell_cases hpad hbits
      cases hb
    | some p =>
      obtain ⟨s', o⟩ := p
      have hnext : spell code o.toList ++ (r.pending s' ++ cs.flatMap bits)
          = spell code word ++ pad := by
        rw [← List.append_assoc, ← r.step_some hstep, hbits]
      cases o with
      | none =>
        obtain ⟨s'', hrun, hp⟩ := ih hnext
        exact ⟨s'', run_cons.mpr ⟨s', _, _, hstep, hrun, rfl⟩, hp⟩
      | some b =>
        have hcode : code (some b) ++ (r.pending s' ++ cs.flatMap bits)
            = spell code word ++ pad := by simpa using hnext
        obtain ⟨a, rest, ha, rfl, hrest⟩ := h.spell_cases hpad hcode
        obtain rfl := Option.some.inj ha
        obtain ⟨s'', hrun, hp⟩ := ih hrest
        exact ⟨s'', run_cons.mpr ⟨s', _, _, hstep, hrun, rfl⟩, hp⟩

end Reader

end Lib.PrefixCode
