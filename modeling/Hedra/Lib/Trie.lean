/-
# Tries, and paths with a wildcard

A trie is a tree whose edges carry keys, so a list of keys leads to one of its nodes or to none.
What a trie is for its users is the partial function `get?` from paths to data, whose domain is
closed under taking prefixes; every operation is specified by what it does to `get?`.

A walk that may take the child `wild` where there is no child of the key itself ends on the path
`place`.  It does not turn back, and where there is neither child it goes on along the keys.  Of
that path two things matter to a user: which known path it is, if any (`Answers`, which is stated
without the walk), and when it is the list of keys itself (`Captured`).

* `get?_modify`: an operation at the end of a path changes that datum only;
* `answers_iff`: where a walk ends;
* `place_eq_self_iff`: when that is at the keys themselves.
-/
import Hedra.Lib.Dict

namespace Lib

universe u v

/-- A trie. -/
inductive Trie (κ : Type u) (α : Type v) : Type (max u v)
  | node
      (data : α)
      (children : List (κ × Trie κ α))

namespace Trie

variable {κ : Type u} {α : Type v}

/-! ## 1. One node -/

/-- The data of the root. -/
def data : Trie κ α → α
  | node a _ => a

/-- The children of the root. -/
def children : Trie κ α → List (κ × Trie κ α)
  | node _ cs => cs

variable [DecidableEq κ]

/-- `children.get(k)` -/
def child? (t : Trie κ α) (k : κ) : Option (Trie κ α) := Dict.getItems k t.children

/-- `children[k] = c` -/
def setChild (t : Trie κ α) (k : κ) (c : Trie κ α) : Trie κ α :=
  node t.data (Dict.setItems k c t.children)

theorem child?_setChild (t : Trie κ α) (k : κ) (c : Trie κ α) (k' : κ) :
    (t.setChild k c).child? k' = if k' = k then some c else t.child? k' :=
  Dict.getItems_setItems k c k' t.children

theorem mem_children {t : Trie κ α} {k : κ} {c : Trie κ α} (h : t.child? k = some c) :
    (k, c) ∈ t.children := Dict.mem_of_getItems h

/-- Setting a child to what it is changes nothing. -/
theorem setChild_self {t : Trie κ α} {k : κ} {c : Trie κ α} (h : t.child? k = some c) :
    t.setChild k c = t := by
  obtain ⟨a, cs⟩ := t
  exact congrArg (node a) (Dict.setItems_self h)

/-! ## 2. Paths -/

/-- The data at the end of a path. -/
def get? : Trie κ α → List κ → Option α
  | t, [] => some t.data
  | t, k :: ks => (t.child? k).bind fun c => c.get? ks

/-- There is a node at the end of the path. -/
def has (t : Trie κ α) (p : List κ) : Bool := (t.get? p).isSome

/-- Change the data at the end of a path. -/
def modify (f : α → α) : Trie κ α → List κ → Trie κ α
  | t, [] => node (f t.data) t.children
  | t, k :: ks =>
    match t.child? k with
    | some c => t.setChild k (c.modify f ks)
    | none => t

theorem get?_cons (t : Trie κ α) (k : κ) (ks : List κ) :
    t.get? (k :: ks) = (t.child? k).bind fun c => c.get? ks := rfl

/-- A node without children. -/
theorem get?_leaf (a : α) (p : List κ) :
    (node a ([] : List (κ × Trie κ α))).get? p = if p = [] then some a else none := by
  cases p <;> rfl

theorem get?_setChild_cons (t : Trie κ α) (k : κ) (c : Trie κ α) (k' : κ) (ks : List κ) :
    (t.setChild k c).get? (k' :: ks) = if k' = k then c.get? ks else t.get? (k' :: ks) := by
  rw [get?_cons, child?_setChild]
  split
  · rfl
  · rfl

/-- **Only the data at the end of the path changes.** -/
theorem get?_modify (f : α → α) (t : Trie κ α) (p q : List κ) :
    (t.modify f p).get? q = if q = p then (t.get? q).map f else t.get? q := by
  induction p generalizing t q with
  | nil => cases q <;> rfl
  | cons k ks ih =>
    unfold modify
    cases hc : t.child? k with
    | none =>
      by_cases hq : q = k :: ks
      · simp [hq, get?_cons, hc]
      · simp [hq]
    | some c =>
      cases q with
      | nil => rfl
      | cons k' q =>
        rw [get?_setChild_cons, ih]
        by_cases hk : k' = k
        · subst hk
          simp [get?_cons, hc]
        · simp [hk]

theorem has_cons (t : Trie κ α) {k : κ} {c : Trie κ α} (h : t.child? k = some c) (p : List κ) :
    t.has (k :: p) = c.has p := by
  rw [has, get?_cons, h]
  rfl

theorem has_cons_of_none (t : Trie κ α) {k : κ} (h : t.child? k = none) (p : List κ) :
    t.has (k :: p) = false := by
  rw [has, get?_cons, h]
  rfl

/-- There are nodes all along a path to a node. -/
theorem has_of_append {t : Trie κ α} {p q : List κ} (h : t.has (p ++ q) = true) :
    t.has p = true := by
  induction p generalizing t with
  | nil => rfl
  | cons k p ih =>
    cases hc : t.child? k with
    | none => rw [List.cons_append, has_cons_of_none t hc] at h; exact absurd h (by simp)
    | some c =>
      rw [List.cons_append, has_cons t hc] at h
      rw [has_cons t hc]
      exact ih h

/-- There are finitely many paths. -/
theorem exists_paths : ∀ t : Trie κ α, ∃ ps : List (List κ), ∀ p, t.has p = true → p ∈ ps
  | node a cs => by
    have hbelow : ∀ l : List (κ × Trie κ α), (∀ i ∈ l, i ∈ cs) →
        ∃ ps : List (List κ), ∀ i ∈ l, ∀ p, i.2.has p = true → i.1 :: p ∈ ps := by
      intro l
      induction l with
      | nil => exact fun _ => ⟨[], fun i hi => absurd hi List.not_mem_nil⟩
      | cons i l ih =>
        intro hl
        have hi : i ∈ cs := hl i List.mem_cons_self
        obtain ⟨own, hown⟩ := exists_paths i.2
        obtain ⟨rest, hrest⟩ := ih fun j hj => hl j (List.mem_cons_of_mem _ hj)
        refine ⟨own.map (i.1 :: ·) ++ rest, fun j hj p hp => ?_⟩
        rcases List.mem_cons.mp hj with rfl | hj
        · exact List.mem_append_left _ (List.mem_map_of_mem (hown p hp))
        · exact List.mem_append_right _ (hrest j hj p hp)
    obtain ⟨ps, hps⟩ := hbelow cs fun _ hi => hi
    refine ⟨[] :: ps, fun p hp => ?_⟩
    cases p with
    | nil => exact List.mem_cons_self
    | cons k p =>
      cases hc : (node a cs).child? k with
      | none => rw [has_cons_of_none _ hc] at hp; exact absurd hp Bool.false_ne_true
      | some c =>
        rw [has_cons _ hc] at hp
        exact List.mem_cons_of_mem _ (hps (k, c) (mem_children hc) p hp)
  decreasing_by
    have hsize := List.sizeOf_lt_of_mem hi
    obtain ⟨k, c⟩ := i
    simp only [Prod.mk.sizeOf_spec, Trie.node.sizeOf_spec] at hsize ⊢
    omega

end Trie

/-! ## 3. Paths with a wildcard -/

section Wildcard

variable {κ : Type u} (wild : κ) (known : List κ → Bool)

/-- Where a walk along `keys` leads. -/
def place (known : List κ → Bool) : List κ → List κ
  | [] => []
  | k :: ks =>
    if known [k] ∨ ¬ known [wild] then k :: place (fun p => known (k :: p)) ks
    else wild :: place (fun p => known (wild :: p)) ks

/-- `path` is known, and agrees with `keys` but where it has the wildcard and nothing is known
under the key itself. -/
structure Answers (keys path : List κ) : Prop where
  isKnown : known path
  length_eq : path.length = keys.length
  closest : ∀ i k, keys[i]? = some k →
    path[i]? = some k ∨ path[i]? = some wild ∧ ¬ known (path.take i ++ [k])

/-- On the way along `keys` there is a wildcard, and nothing under the key itself. -/
def Captured (keys : List κ) : Prop :=
  ∃ i k, keys[i]? = some k ∧ ¬ known (keys.take i ++ [k]) ∧ known (keys.take i ++ [wild])

variable {wild known}

/-- An answer begins with the key or the wildcard, and goes on with an answer for the rest. -/
theorem answers_cons_iff {k x : κ} {ks p : List κ} :
    Answers wild known (k :: ks) (x :: p) ↔
      (x = k ∨ x = wild ∧ ¬ known [k]) ∧ Answers wild (fun p => known (x :: p)) ks p := by
  constructor
  · intro h
    refine ⟨by simpa using h.closest 0 k rfl, h.isKnown, by simpa using h.length_eq, ?_⟩
    intro i k' hi
    simpa using h.closest (i + 1) k' hi
  · rintro ⟨hx, h⟩
    refine ⟨h.isKnown, by simpa using h.length_eq, fun i k' hi => ?_⟩
    cases i with
    | zero =>
      rw [List.getElem?_cons_zero, Option.some.injEq] at hi
      subst hi
      simpa using hx
    | succ i => simpa using h.closest i k' hi

/-- **A walk ends on the path that answers, if there is one.** -/
theorem answers_iff (hpre : ∀ p q, known (p ++ q) → known p) {keys path : List κ} :
    Answers wild known keys path ↔ path = place wild known keys ∧ known path := by
  induction keys generalizing known path with
  | nil =>
    constructor
    · intro h
      exact ⟨List.length_eq_zero_iff.mp h.length_eq, h.isKnown⟩
    · rintro ⟨rfl, h⟩
      exact ⟨h, rfl, fun i k hi => by simp at hi⟩
  | cons k ks ih =>
    have hshift : ∀ x p q, known (x :: (p ++ q)) → known (x :: p) := fun x p q =>
      hpre (x :: p) q
    cases path with
    | nil =>
      refine iff_of_false (fun h => by simpa using h.length_eq) ?_
      rintro ⟨h, -⟩
      unfold place at h
      split at h <;> simp at h
    | cons x p =>
      rw [answers_cons_iff, ih (hshift x), place]
      constructor
      · rintro ⟨hx, rfl, hp⟩
        refine ⟨?_, hp⟩
        have hx' : known [x] := hpre [x] _ hp
        rcases hx with rfl | ⟨rfl, hk⟩
        · rw [if_pos (Or.inl hx')]
        · rw [if_neg (by simp [hk, hx'])]
      · rintro ⟨heq, hp⟩
        split at heq
        · obtain ⟨rfl, rfl⟩ := List.cons.inj heq
          exact ⟨Or.inl rfl, rfl, hp⟩
        · next hc =>
          obtain ⟨rfl, rfl⟩ := List.cons.inj heq
          exact ⟨Or.inr ⟨rfl, fun hk => hc (Or.inl hk)⟩, rfl, hp⟩

theorem captured_cons_iff {k : κ} {ks : List κ} :
    Captured wild known (k :: ks) ↔
      (¬ known [k] ∧ known [wild]) ∨ Captured wild (fun p => known (k :: p)) ks := by
  constructor
  · rintro ⟨i, k', hi, hk, hw⟩
    cases i with
    | zero =>
      rw [List.getElem?_cons_zero, Option.some.injEq] at hi
      subst hi
      exact Or.inl ⟨hk, hw⟩
    | succ i => exact Or.inr ⟨i, k', hi, hk, hw⟩
  · rintro (⟨hk, hw⟩ | ⟨i, k', hi, hk, hw⟩)
    · exact ⟨0, k, rfl, hk, hw⟩
    · exact ⟨i + 1, k', hi, hk, hw⟩

/-- A walk that no wildcard captures ends where its keys say. -/
theorem place_eq_self_iff {keys : List κ} :
    place wild known keys = keys ↔ ¬ Captured wild known keys := by
  induction keys generalizing known with
  | nil => simp [place, Captured]
  | cons k ks ih =>
    rw [captured_cons_iff, place]
    split
    · next hc =>
      rw [List.cons_inj_right, ih]
      have hnot : ¬ (¬ known [k] ∧ known [wild]) := fun h =>
        hc.elim (fun hk => h.1 hk) (fun hw => hw h.2)
      simp only [hnot, false_or]
    · next hc =>
      rw [not_or, not_not] at hc
      refine iff_of_false (fun heq => ?_) (not_not.mpr (Or.inl hc))
      obtain ⟨rfl, -⟩ := List.cons.inj heq
      exact hc.1 hc.2

instance [DecidableEq κ] (keys : List κ) : Decidable (Captured wild known keys) :=
  decidable_of_iff (place wild known keys ≠ keys) (by rw [Ne, place_eq_self_iff, not_not])

end Wildcard

/-! ## 4. The paths of a trie -/

namespace Trie

variable {κ : Type u} {α : Type v} [DecidableEq κ] {wild k : κ} {t c : Trie κ α}

/-- A walk goes on below the child of the key. -/
theorem place_child (h : t.child? k = some c) (ks : List κ) :
    place wild t.has (k :: ks) = k :: place wild c.has ks := by
  have hk : t.has [k] = true := has_cons t h []
  rw [place, if_pos (Or.inl hk), funext (has_cons t h)]

/-- ... or else below the wildcard ... -/
theorem place_wild (hk : t.child? k = none) (h : t.child? wild = some c) (ks : List κ) :
    place wild t.has (k :: ks) = wild :: place wild c.has ks := by
  have hhas : t.has [k] = false := has_cons_of_none t hk []
  have hw : t.has [wild] = true := has_cons t h []
  rw [place, if_neg (by simp [hhas, hw]), funext (has_cons t h)]

/-- ... or else where there is no node. -/
theorem place_new (hk : t.child? k = none) (h : t.child? wild = none) (ks : List κ) :
    place wild t.has (k :: ks) = k :: ks := by
  have hw : t.has [wild] = false := has_cons_of_none t h []
  rw [place_eq_self_iff]
  rintro ⟨i, k', hi, -, hwild⟩
  cases i with
  | zero => exact absurd hwild (by simp [hw])
  | succ i => exact absurd hwild (by simp [has_cons_of_none t hk])

end Trie
end Lib
