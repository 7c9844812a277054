/-
# `AsyncList` beside an ordinary list

An `AsyncList` (`tools/data_structures/async_list.py`) has a list object as its `data`.  Some
operations put a new object in its place, others change the object, and the ones that are to take
something out leave it as it is.  The object that is the default of `data` is made once, for all
that are created without data.

A run of operations on any number of them goes on beside a run of the same operations on ordinary
lists.  The two agree as long as no step does what `Conforms` excludes: `prepend` nests the old object
in the new list, `insert` and `at` call `size` with an argument too many, `remove_index` and
`remove_range` return a slice and take nothing out, and `extend` fills the default for everybody.

* `good_step`: a step that conforms keeps the lists the same;
* `conforms_of_matches`: and no other step does;
* `matches_iff`: so do the runs of such steps, on any number of lists.
-/
import Hedra.Lib.Machine
import Hedra.Lib.Slices

namespace Hedra
namespace Tools
namespace AsyncList

open Lib Machine Slices

variable {α : Type} [DecidableEq α]

/-! ## 1. Operations and results -/

inductive Op (α : Type)
  | append (value : α)
  | prepend (value : α)
  | insert (idx : ℤ) (value : α)
  | at (idx : ℤ)
  | remove (value : α)
  | removeIndex (index : ℤ)
  | removeRange (start : ℤ) (stop : Option ℤ)
  | pop
  | extend (values : List α)
  /-- `async for item in …` -/
  | iterate

/-- What an operation returns or raises. -/
inductive Result (β : Type)
  | none
  | item (b : β)
  | list (bs : List β)
  | indexError
  | valueError
  | typeError
deriving DecidableEq

/-! ## 2. The code -/

/-- What is in a list object: a value, or another list object. -/
inductive Item (α : Type)
  | value (a : α)
  | list (object : ℕ)
deriving DecidableEq

/-- The list objects, and for each `AsyncList` the one that is its `data`. -/
structure World (α : Type) where
  objects : List (List (Item α))
  lists : List ℕ
deriving DecidableEq

namespace World

/-- Object 0 is the default of `data`. -/
def init : World α := ⟨[[]], []⟩

/-- The contents of an `AsyncList`. -/
def data (w : World α) (i : ℕ) : Option (List (Item α)) := w.lists[i]?.bind fun r => w.objects[r]?

/-- `self.data = …`, with a new object. -/
def rebind (w : World α) (i : ℕ) (data : List (Item α)) : World α :=
  ⟨w.objects ++ [data], w.lists.set i w.objects.length⟩

/-- A method of the list that is `self.data` changes it. -/
def mutate (w : World α) (r : ℕ) (data : List (Item α)) : World α :=
  { w with objects := w.objects.set r data }

/-- `AsyncList()` -/
def new (w : World α) : World α := { w with lists := w.lists ++ [0] }

/-- `AsyncList(data)`, with a list of its own. -/
def create (w : World α) (data : List α) : World α :=
  ⟨w.objects ++ [data.map .value], w.lists ++ [w.objects.length]⟩

/-- The operations of `AsyncList` number `i`, whose `data` is object `r`. -/
def perform (w : World α) (i r : ℕ) (data : List (Item α)) : Op α → World α × Result (Item α)
  | .append value => (w.rebind i (data ++ [.value value]), .none)
  | .prepend value => (w.rebind i [.value value, .list r], .none)
  -- `self.size(self.data)` raises
  | .insert _ _ => (w, .typeError)
  | .at _ => (w, .typeError)
  | .remove value =>
    if .value value ∈ data then (w.mutate r (data.erase (.value value)), .none)
    else (w, .valueError)
  | .removeIndex index => (w, .list (slice data (some index) (some (index + 1))))
  | .removeRange start none => (w, .list (slice data (some start) none))
  | .removeRange start (some stop) =>
    if start = 0 then (w, .list (slice data none (some stop)))
    else (w, .list (slice data none (some start) ++ slice data (some stop) none))
  | .pop =>
    match data.getLast? with
    | none => (w, .indexError)
    | some x => (w.mutate r data.dropLast, .item x)
  | .extend values => (w.mutate r (data ++ values.map .value), .none)
  | .iterate => (w, .list data)

end World

/-! ## 3. Ordinary lists -/

/-- The operations of a list.  `del` is a statement and has no result. -/
def perform (xs : List α) : Op α → List α × Result α
  | .append value => (xs ++ [value], .none)
  | .prepend value => (value :: xs, .none)
  | .insert idx value => (insert xs idx value, .none)
  | .at idx => (xs, ((item xs idx).map Result.item).getD .indexError)
  | .remove value => if value ∈ xs then (xs.erase value, .none) else (xs, .valueError)
  | .removeIndex index =>
    match delete xs index with
    | none => (xs, .indexError)
    | some xs' => (xs', .none)
  | .removeRange start stop => (deleteSlice xs (some start) stop, .none)
  | .pop =>
    match xs.getLast? with
    | none => (xs, .indexError)
    | some x => (xs.dropLast, .item x)
  | .extend values => (xs ++ values, .none)
  | .iterate => (xs, .list xs)

/-! ## 4. Runs -/

inductive Event (α : Type)
  /-- `AsyncList()` -/
  | new
  /-- `AsyncList([…])` -/
  | create (data : List α)
  | op (i : ℕ) (op : Op α)

/-- The `AsyncList`s and the lists, and what the last operation on each side came to. -/
structure State (α : Type) where
  world : World α
  lists : List (List α)
  code : Result (Item α)
  ordinary : Result α

def State.init : State α := ⟨.init, [], .none, .none⟩

def step (s : State α) : Event α → Option (State α)
  | .new => some ⟨s.world.new, s.lists ++ [[]], .none, .none⟩
  | .create data => some ⟨s.world.create data, s.lists ++ [data], .none, .none⟩
  | .op i op =>
    s.world.lists[i]?.bind fun r => (s.world.objects[r]?).bind fun data => s.lists[i]?.map fun xs =>
      let (w, code) := s.world.perform i r data op
      let (xs', ordinary) := perform xs op
      ⟨w, s.lists.set i xs', code, ordinary⟩

/-- The results are the same.  Where the list has none, a list may be returned. -/
def Agrees : Result (Item α) → Result α → Prop
  | .none, .none => True
  | .list _, .none => True
  | .item x, .item y => x = .value y
  | .list xs, .list ys => xs = ys.map .value
  | .indexError, .indexError => True
  | .valueError, .valueError => True
  | .typeError, .typeError => True
  | _, _ => False

/-- The contents and the results are those of ordinary lists. -/
def Matches (s : State α) : Prop :=
  (∀ i, s.world.data i = s.lists[i]?.map (·.map .value)) ∧ Agrees s.code s.ordinary

/-- The steps that do what they do to a list. -/
def Conforms (s : State α) : Event α → Prop
  -- nobody has filled the default
  | .new => s.world.objects[0]? = some []
  | .create _ => True
  | .op i op =>
    match op with
    | .append _ | .remove _ | .pop | .iterate => True
    | .prepend _ | .insert _ _ | .at _ | .removeIndex _ => False
    | .removeRange start stop => ∀ xs ∈ s.lists[i]?, slice xs (some start) stop = []
    | .extend values => values = [] ∨ ∀ j, s.world.lists[j]? = s.world.lists[i]? → j = i

/-! ## 5. Lists that have an object each -/

/-- Only the default may be the `data` of several, as long as it is empty. -/
structure Separate (w : World α) : Prop where
  default : 0 < w.objects.length
  lt : ∀ i r : ℕ, w.lists[i]? = some r → r < w.objects.length
  own : ∀ i j r : ℕ, w.lists[i]? = some r → w.lists[j]? = some r →
    i = j ∨ r = 0 ∧ w.objects[0]? = some []

namespace World

variable {w : World α} {i r : ℕ} {data : List (Item α)}

omit [DecidableEq α]

theorem data_new (w : World α) (j : ℕ) :
    w.new.data j = if j = w.lists.length then w.objects[0]? else w.data j := by
  unfold data new
  rw [getElem?_concat_eq]
  split <;> rfl

theorem data_create (h : Separate w) (xs : List α) (j : ℕ) :
    (w.create xs).data j = if j = w.lists.length then some (xs.map .value) else w.data j := by
  unfold data create
  dsimp only
  rw [getElem?_concat_eq]
  split
  · exact List.getElem?_concat_length
  · cases hget : w.lists[j]? with
    | none => rfl
    | some q => exact List.getElem?_append_left (h.lt j q hget)

theorem data_rebind (h : Separate w) (hi : w.lists[i]? = some r) (j : ℕ) :
    (w.rebind i data).data j = if j = i then some data else w.data j := by
  obtain ⟨hlt, -⟩ := List.getElem?_eq_some_iff.mp hi
  unfold World.data rebind
  dsimp only
  by_cases hj : j = i
  · subst hj
    rw [if_pos rfl, List.getElem?_set_self hlt]
    exact List.getElem?_concat_length
  · rw [if_neg hj, List.getElem?_set_ne (Ne.symm hj)]
    cases hget : w.lists[j]? with
    | none => rfl
    | some q => exact List.getElem?_append_left (h.lt j q hget)

theorem data_mutate (h : Separate w) (hi : w.lists[i]? = some r)
    (hown : ∀ j, w.lists[j]? = some r → j = i) (j : ℕ) :
    (w.mutate r data).data j = if j = i then some data else w.data j := by
  unfold World.data mutate
  dsimp only
  by_cases hj : j = i
  · subst hj
    rw [if_pos rfl, hi]
    exact List.getElem?_set_self (h.lt j r hi)
  · rw [if_neg hj]
    cases hget : w.lists[j]? with
    | none => rfl
    | some q =>
      have hne : r ≠ q := by rintro rfl; exact hj (hown j hget)
      exact List.getElem?_set_ne hne

theorem mutate_self (hr : w.objects[r]? = some data) : w.mutate r data = w := by
  obtain ⟨hlt, rfl⟩ := List.getElem?_eq_some_iff.mp hr
  rw [mutate, List.set_getElem_self]

end World

namespace Separate

variable {w : World α} {i r : ℕ} {data : List (Item α)}

omit [DecidableEq α]

theorem init : Separate (World.init : World α) where
  default := Nat.zero_lt_one
  lt i r h := by simp [World.init] at h
  own i j r h := by simp [World.init] at h

theorem new (h : Separate w) (h0 : w.objects[0]? = some []) : Separate w.new where
  default := h.default
  lt j q hj := by
    rcases List.mem_append.mp (List.mem_of_getElem? hj) with hq | hq
    · obtain ⟨k, hk⟩ := List.mem_iff_getElem?.mp hq
      exact h.lt k q hk
    · rw [List.mem_singleton.mp hq]
      exact h.default
  own j k q hj hk := by
    by_cases hq : q = 0
    · exact .inr ⟨hq, h0⟩
    · have hold : ∀ {n}, (w.lists ++ [0])[n]? = some q → w.lists[n]? = some q := fun {n} hn => by
        rw [getElem?_concat_eq] at hn
        split at hn
        next => exact absurd (Option.some.inj hn).symm hq
        next => exact hn
      exact h.own j k q (hold hj) (hold hk)

/-- One list gets a new object. -/
theorem concat (h : Separate w) {lists : List ℕ}
    (hcase : ∀ n q, lists[n]? = some q →
      w.lists[n]? = some q ∨ n = i ∧ q = w.objects.length) :
    Separate (⟨w.objects ++ [data], lists⟩ : World α) where
  default := by simp
  lt j q hj := by
    rw [List.length_append, List.length_singleton]
    rcases hcase j q hj with hold | ⟨-, rfl⟩
    · exact Nat.lt_succ_of_lt (h.lt j q hold)
    · exact Nat.lt_succ_self _
  own j k q hj hk := by
    rcases hcase j q hj with hj' | ⟨rfl, rfl⟩
    · rcases hcase k q hk with hk' | ⟨rfl, rfl⟩
      · refine (h.own j k q hj' hk').imp_right fun h0 => ⟨h0.1, ?_⟩
        exact (List.getElem?_append_left h.default).trans h0.2
      · exact absurd (h.lt j _ hj') (Nat.lt_irrefl _)
    · rcases hcase k _ hk with hk' | ⟨rfl, -⟩
      · exact absurd (h.lt k _ hk') (Nat.lt_irrefl _)
      · exact .inl rfl

theorem create (h : Separate w) (xs : List α) : Separate (w.create xs) := by
  refine h.concat (i := w.lists.length) fun n q hn => ?_
  rw [getElem?_concat_eq] at hn
  split at hn
  next hlast => exact .inr ⟨hlast, (Option.some.inj hn).symm⟩
  next => exact .inl hn

theorem rebind (h : Separate w) (hi : w.lists[i]? = some r) : Separate (w.rebind i data) := by
  obtain ⟨hlt, -⟩ := List.getElem?_eq_some_iff.mp hi
  refine h.concat (i := i) fun n q hn => ?_
  by_cases hni : n = i
  · subst hni
    rw [List.getElem?_set_self hlt] at hn
    exact .inr ⟨rfl, (Option.some.inj hn).symm⟩
  · rw [List.getElem?_set_ne (Ne.symm hni)] at hn
    exact .inl hn

theorem mutate (h : Separate w) (hi : w.lists[i]? = some r)
    (hown : ∀ j, w.lists[j]? = some r → j = i) : Separate (w.mutate r data) where
  default := by simpa [World.mutate] using h.default
  lt j q hj := by simpa [World.mutate] using h.lt j q hj
  own j k q hj hk := by
    by_cases hq : q = r
    · subst hq
      exact .inl ((hown j hj).trans (hown k hk).symm)
    · refine (h.own j k q hj hk).imp_right fun ⟨h0, hempty⟩ => ⟨h0, ?_⟩
      exact (List.getElem?_set_ne fun hr => hq (h0.trans hr.symm)).trans hempty

/-- What has items is nobody else's. -/
theorem own_of_ne_nil (h : Separate w) (hi : w.lists[i]? = some r) (hr : w.objects[r]? = some data)
    (hne : data ≠ []) (j : ℕ) (hj : w.lists[j]? = some r) : j = i := by
  rcases h.own j i r hj hi with hji | ⟨rfl, h0⟩
  · exact hji
  · exact absurd (Option.some.inj (hr.symm.trans h0)) hne

end Separate


/-! ## 6. One step -/

/-- What holds as long as the steps conform. -/
structure Good (s : State α) : Prop where
  separate : Separate s.world
  length : s.world.lists.length = s.lists.length
  contents : ∀ i, s.world.data i = s.lists[i]?.map (·.map .value)
  agrees : Agrees s.code s.ordinary

namespace Good

variable {s : State α} {i r : ℕ} {xs xs' : List α} {code : Result (Item α)} {ordinary : Result α}

omit [DecidableEq α]

theorem init : Good (State.init : State α) := ⟨Separate.init, rfl, fun _ => rfl, trivial⟩

theorem toMatches (h : Good s) : Matches s := ⟨h.contents, h.agrees⟩

/-- The contents of a list in the world and of the ordinary one. -/
theorem data_eq (h : Good s) (hr : s.world.lists[i]? = some r) {data : List (Item α)}
    (hdata : s.world.objects[r]? = some data) (hxs : s.lists[i]? = some xs) :
    data = xs.map .value := by
  have hcontents := h.contents i
  rw [World.data, hr, Option.bind_some, hdata, hxs] at hcontents
  exact Option.some.inj hcontents

/-- One list changes, on both sides. -/
theorem set (h : Good s) (hxs : s.lists[i]? = some xs) {w : World α} (hw : Separate w)
    (hlen : w.lists.length = s.world.lists.length)
    (hdata : ∀ j, w.data j = if j = i then some (xs'.map .value) else s.world.data j)
    (hagrees : Agrees code ordinary) : Good ⟨w, s.lists.set i xs', code, ordinary⟩ := by
  obtain ⟨hlt, -⟩ := List.getElem?_eq_some_iff.mp hxs
  refine ⟨hw, by rw [hlen, h.length, List.length_set], fun j => ?_, hagrees⟩
  rw [hdata j]
  dsimp only
  split
  next hj => rw [hj, List.getElem?_set_self hlt]; rfl
  next hj => rw [List.getElem?_set_ne (Ne.symm hj), h.contents j]

theorem unchanged (h : Good s) (hxs : s.lists[i]? = some xs) (hagrees : Agrees code ordinary) :
    Good ⟨s.world, s.lists.set i xs, code, ordinary⟩ := by
  refine h.set hxs h.separate rfl (fun j => ?_) hagrees
  split
  next hj => rw [hj, h.contents i, hxs]; rfl
  next => rfl

theorem rebind (h : Good s) (hr : s.world.lists[i]? = some r) (hxs : s.lists[i]? = some xs)
    (hagrees : Agrees code ordinary) :
    Good ⟨s.world.rebind i (xs'.map .value), s.lists.set i xs', code, ordinary⟩ :=
  h.set hxs (h.separate.rebind hr) List.length_set (World.data_rebind h.separate hr) hagrees

theorem mutate (h : Good s) (hr : s.world.lists[i]? = some r) (hxs : s.lists[i]? = some xs)
    (hown : ∀ j, s.world.lists[j]? = some r → j = i) (hagrees : Agrees code ordinary) :
    Good ⟨s.world.mutate r (xs'.map .value), s.lists.set i xs', code, ordinary⟩ :=
  h.set hxs (h.separate.mutate hr hown) rfl (World.data_mutate h.separate hr hown) hagrees

/-- One list more, on both sides. -/
theorem concat (h : Good s) {w : World α} (hw : Separate w)
    (hlen : w.lists.length = s.world.lists.length + 1)
    (hdata : ∀ j, w.data j =
      if j = s.world.lists.length then some (xs.map .value) else s.world.data j) :
    Good (⟨w, s.lists ++ [xs], .none, .none⟩ : State α) where
  separate := hw
  length := by rw [hlen, h.length, List.length_append, List.length_singleton]
  contents j := by
    rw [hdata, h.length, h.contents j]
    dsimp only
    rw [getElem?_concat_eq]
    split <;> rfl
  agrees := trivial

/-- `AsyncList()`, while the default is empty. -/
theorem new (h : Good s) (h0 : s.world.objects[0]? = some []) :
    Good (⟨s.world.new, s.lists ++ [[]], .none, .none⟩ : State α) :=
  h.concat (h.separate.new h0) (by simp [World.new]) fun j => by rw [World.data_new, h0]; rfl

theorem create (h : Good s) (data : List α) :
    Good (⟨s.world.create data, s.lists ++ [data], .none, .none⟩ : State α) :=
  h.concat (h.separate.create data) (by simp [World.create]) (World.data_create h.separate data)

end Good

/-- What an operation goes by. -/
theorem step_op {s s' : State α} {i : ℕ} {op : Op α} (hs : step s (.op i op) = some s') :
    ∃ r data xs, s.world.lists[i]? = some r ∧ s.world.objects[r]? = some data ∧
      s.lists[i]? = some xs ∧
      s' = ⟨(s.world.perform i r data op).1, s.lists.set i (perform xs op).1,
        (s.world.perform i r data op).2, (perform xs op).2⟩ := by
  obtain ⟨r, hr, hs⟩ := Option.bind_eq_some_iff.mp hs
  obtain ⟨data, hdata, hs⟩ := Option.bind_eq_some_iff.mp hs
  obtain ⟨xs, hxs, rfl⟩ := Option.map_eq_some_iff.mp hs
  exact ⟨r, data, xs, hr, hdata, hxs, rfl⟩

omit [DecidableEq α] in
theorem value_injective : Function.Injective (Item.value (α := α)) := fun _ _ => Item.value.inj

theorem good_op {s s' : State α} {i : ℕ} {op : Op α} (h : Good s)
    (hs : step s (.op i op) = some s') (hc : Conforms s (.op i op)) : Good s' := by
  obtain ⟨r, data, xs, hr, hdata, hxs, rfl⟩ := step_op hs
  have heq := h.data_eq hr hdata hxs
  subst heq
  cases op with
  | append value =>
    have happ : xs.map Item.value ++ [.value value] = (xs ++ [value]).map Item.value := by simp
    simp only [World.perform, perform, happ]
    exact h.rebind hr hxs trivial
  | prepend value => exact hc.elim
  | insert idx value => exact hc.elim
  | «at» idx => exact hc.elim
  | remove value =>
    have hmem : Item.value value ∈ xs.map Item.value ↔ value ∈ xs :=
      List.mem_map_of_injective value_injective
    simp only [World.perform, perform, hmem]
    split
    next hv =>
      have hne : xs.map Item.value ≠ [] := by
        intro hnil
        rw [List.map_eq_nil_iff.mp hnil] at hv
        exact absurd hv List.not_mem_nil
      rw [← List.map_erase value_injective]
      exact h.mutate hr hxs (h.separate.own_of_ne_nil hr hdata hne) trivial
    next => exact h.unchanged hxs trivial
  | removeIndex index => exact hc.elim
  | removeRange start stop =>
    have hdel : deleteSlice xs (some start) stop = xs := deleteSlice_eq_self_iff.mpr (hc xs hxs)
    simp only [perform, hdel]
    cases stop with
    | none => exact h.unchanged hxs trivial
    | some stop =>
      simp only [World.perform]
      split <;> exact h.unchanged hxs trivial
  | pop =>
    simp only [World.perform, perform, List.getLast?_map]
    cases hlast : xs.getLast? with
    | none => exact h.unchanged hxs trivial
    | some x =>
      have hne : xs.map Item.value ≠ [] := by
        intro hnil
        rw [List.map_eq_nil_iff.mp hnil] at hlast
        cases hlast
      simp only [Option.map_some, ← List.map_dropLast]
      exact h.mutate hr hxs (h.separate.own_of_ne_nil hr hdata hne) rfl
  | extend values =>
    simp only [World.perform, perform, ← List.map_append]
    rcases hc with rfl | hown
    · rw [List.append_nil, World.mutate_self hdata]
      exact h.unchanged hxs trivial
    · exact h.mutate hr hxs (fun j hj => hown j (hj.trans hr.symm)) trivial
  | iterate => exact h.unchanged hxs rfl

/-- **What conforms keeps the lists the same.** -/
theorem good_step {s s' : State α} {e : Event α} (h : Good s) (hs : step s e = some s')
    (hc : Conforms s e) : Good s' := by
  cases e with
  | new =>
    obtain rfl := Option.some.inj hs
    exact h.new hc
  | create data =>
    obtain rfl := Option.some.inj hs
    exact h.create data
  | op i op => exact good_op h hs hc


omit [DecidableEq α] in
/-- The contents of the list that an operation was performed on. -/
theorem data_of_matches {s : State α} {w : World α} {i : ℕ} {xs xs' : List α}
    {code : Result (Item α)} {ordinary : Result α} (hxs : s.lists[i]? = some xs)
    (h : Matches ⟨w, s.lists.set i xs', code, ordinary⟩) : w.data i = some (xs'.map .value) := by
  obtain ⟨hlt, -⟩ := List.getElem?_eq_some_iff.mp hxs
  have hi := h.1 i
  dsimp only at hi
  rwa [List.getElem?_set_self hlt] at hi

theorem conforms_op {s s' : State α} {i : ℕ} {op : Op α} (h : Good s)
    (hs : step s (.op i op) = some s') (hm : Matches s') : Conforms s (.op i op) := by
  obtain ⟨r, data, xs, hr, hdata, hxs, rfl⟩ := step_op hs
  have heq := h.data_eq hr hdata hxs
  subst heq
  have hold : s.world.data i = some (xs.map .value) := by rw [h.contents i, hxs]; rfl
  have hnew := data_of_matches hxs hm
  have hagrees := hm.2
  cases op with
  | append value => trivial
  | prepend value =>
    simp only [World.perform, perform] at hnew
    rw [World.data_rebind h.separate hr, if_pos rfl, Option.some.injEq] at hnew
    cases xs with
    | nil => simp at hnew
    | cons x xs => simp at hnew
  | insert idx value => exact hagrees
  | «at» idx =>
    simp only [World.perform, perform] at hagrees
    cases hitem : item xs idx <;> rw [hitem] at hagrees <;> exact hagrees
  | remove value => trivial
  | removeIndex index =>
    simp only [World.perform, perform] at hnew hagrees
    cases hdel : delete xs index with
    | none => rw [hdel] at hagrees; exact hagrees
    | some xs' =>
      rw [hdel, hold, Option.some.injEq] at hnew
      exact delete_ne_self hdel (List.map_injective_iff.mpr value_injective hnew).symm
  | removeRange start stop =>
    intro ys hys
    obtain rfl : xs = ys := Option.some.inj (hxs.symm.trans hys)
    have hworld : (s.world.perform i r (xs.map .value) (.removeRange start stop)).1 = s.world := by
      cases stop with
      | none => rfl
      | some stop =>
        simp only [World.perform]
        split <;> rfl
    rw [hworld, hold, Option.some.injEq] at hnew
    exact deleteSlice_eq_self_iff.mp (List.map_injective_iff.mpr value_injective hnew).symm
  | pop => trivial
  | extend values =>
    by_contra hno
    obtain ⟨hne, hshared⟩ := not_or.mp hno
    obtain ⟨j, hj⟩ := not_forall.mp hshared
    obtain ⟨hlists, hji⟩ := Classical.not_imp.mp hj
    have hjr : s.world.lists[j]? = some r := hlists.trans hr
    -- both have the empty default, and the other one is to stay empty
    have hempty : s.world.objects[r]? = some [] := by
      rcases h.separate.own j i r hjr hr with hsame | ⟨rfl, h0⟩
      · exact absurd hsame hji
      · exact h0
    have hjold : s.world.data j = some [] := by rw [World.data, hjr, Option.bind_some, hempty]
    have hjnew := hm.1 j
    dsimp only at hjnew
    rw [List.getElem?_set_ne (Ne.symm hji), ← h.contents j, hjold] at hjnew
    have hset : (s.world.mutate r (xs.map .value ++ values.map .value)).data j =
        some (xs.map .value ++ values.map .value) := by
      rw [World.data]
      change (s.world.lists[j]?.bind fun q => (s.world.objects.set r _)[q]?) = _
      rw [hjr]
      exact List.getElem?_set_self (h.separate.lt i r hr)
    have hnil := Option.some.inj (hset.symm.trans hjnew)
    exact hne (List.map_eq_nil_iff.mp (List.append_eq_nil_iff.mp hnil).2)
  | iterate => trivial

/-- **What keeps the lists the same conforms.** -/
theorem conforms_of_matches {s s' : State α} {e : Event α} (h : Good s) (hs : step s e = some s')
    (hm : Matches s') : Conforms s e := by
  cases e with
  | new =>
    obtain rfl := Option.some.inj hs
    have hlast := hm.1 s.lists.length
    dsimp only at hlast
    rw [World.data_new, h.length, if_pos rfl] at hlast
    change s.world.objects[0]? = some []
    simpa using hlast
  | create data => trivial
  | op i op => exact conforms_op h hs hm

/-! ## 7. Runs -/

/-- **Any operations on any number of lists.** -/
theorem matches_iff (es : List (Event α)) :
    Always step Matches (State.init : State α) es ↔
      Along step (fun s e _ => Conforms s e) State.init es :=
  always_iff_along_of_good (fun _ => Good.toMatches)
    (fun _ _ _ h hs hm => conforms_of_matches h hs hm) (fun _ _ _ h hs hc => good_step h hs hc)
    Good.init

/-- The list that something is prepended to becomes the second item. -/
theorem prepend_nests :
    ¬ Always step Matches (State.init : State ℕ) [.create [1], .op 0 (.prepend 0)] := by
  intro h
  have hlast : Matches ⟨⟨[[], [.value 1], [.value 0, .list 1]], [2]⟩, [[0, 1]], .none, .none⟩ :=
    h.last rfl
  exact absurd (hlast.1 0) (by decide)

/-- What one of two lists without data is extended by is in the other as well. -/
example : (run step (State.init : State ℕ) [.new, .new, .op 0 (.extend [1])]).map
    (·.world.data 1) = some (some [.value 1]) := by decide

end AsyncList
end Tools
end Hedra
