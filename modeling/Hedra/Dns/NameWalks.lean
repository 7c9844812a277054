/-
# Walks through names

`load_domain_name` (`load_domain_name.py` of
`distributed/discovery/dns/core/record/record_data_types/utils`) goes from label to label and along
pointers.  A turn of its loop depends on nothing but the offset, so the loop is a walk with one way
to go: it comes to an end, or to a place where it has been.

Where it comes to an end without a zero, what is returned depends on whether a pointer has been
followed: the cursor is set by the first one, and with a cursor nothing is found wrong.

* `loadParts_walk`: the loop goes along the walk, where that comes to an end;
* `loadDomainName_walk`: what is returned there;
* `loadDomainName_total`: on any bytes loading ends, with a cursor in the buffer or an error.
-/
import Hedra.Dns.Names
import Hedra.Lib.Walks

namespace Hedra
namespace Dns

open Lib Walks Relation

/-! ## 1. Turns -/

/-- Behind a label. -/
def LabelTurn (buffer : Bytes) (x y : ℕ) : Prop :=
  ∃ b : UInt8, buffer[x]? = some b ∧ 0 < b.toNat ∧ b.toNat < 0xc0 ∧ y = x + 1 + b.toNat

/-- To where a pointer points. -/
def PointerTurn (buffer : Bytes) (x y : ℕ) : Prop :=
  ∃ high low : UInt8, buffer[x]? = some high ∧ 0xc0 ≤ high.toNat ∧ buffer[x + 1]? = some low ∧
    y = (high.toNat - 0xc0) * 256 + low.toNat

/-- A turn of the loop. -/
def Turn (buffer : Bytes) (x y : ℕ) : Prop := LabelTurn buffer x y ∨ PointerTurn buffer x y

/-- A pointer that the end of the buffer cuts in two. -/
structure CutPointer (buffer : Bytes) (x : ℕ) : Prop where
  high : ∃ b : UInt8, buffer[x]? = some b ∧ 0xc0 ≤ b.toNat
  low : buffer[x + 1]? = none

variable {buffer : Bytes} {x y : ℕ}

theorem oneWay_turn (buffer : Bytes) : OneWay (Turn buffer) := by
  rintro x y z (⟨b, hb, hpos, hless, rfl⟩ | ⟨b, l, hb, hge, hl, rfl⟩)
    (⟨b', hb', hpos', hless', rfl⟩ | ⟨b', l', hb', hge', hl', rfl⟩)
  all_goals obtain rfl := Option.some.inj (hb.symm.trans hb')
  · rfl
  · omega
  · omega
  · obtain rfl := Option.some.inj (hl.symm.trans hl')
    rfl

theorem Turn.exists_byte (h : Turn buffer x y) : ∃ b : UInt8, buffer[x]? = some b ∧ 0 < b.toNat := by
  rcases h with ⟨b, hb, hpos, -⟩ | ⟨b, -, hb, hge, -⟩
  · exact ⟨b, hb, hpos⟩
  · exact ⟨b, hb, by omega⟩

theorem Turn.lt_length (h : Turn buffer x y) : x < buffer.length := by
  obtain ⟨b, hb, -⟩ := h.exists_byte
  exact (List.getElem?_eq_some_iff.mp hb).1

theorem not_turn_of_zero (h : buffer[x]? = some 0) (y : ℕ) : ¬ Turn buffer x y := by
  intro hturn
  obtain ⟨b, hb, hpos⟩ := hturn.exists_byte
  obtain rfl := Option.some.inj (hb.symm.trans h)
  exact absurd hpos (by decide)

theorem not_turn_of_end (h : buffer.length ≤ x) (y : ℕ) : ¬ Turn buffer x y :=
  fun hturn => absurd hturn.lt_length (by omega)

theorem not_turn_of_cut (h : CutPointer buffer x) (y : ℕ) : ¬ Turn buffer x y := by
  obtain ⟨⟨b, hb, hge⟩, hlow⟩ := h
  rintro (⟨b', hb', -, hless, -⟩ | ⟨-, l, -, -, hl, -⟩)
  · obtain rfl := Option.some.inj (hb.symm.trans hb')
    omega
  · rw [hlow] at hl
    cases hl

/-! ## 2. The loop -/

variable {fuel : ℕ} {s : Loading}

/-- What has been visited lies behind, and the offset is not among it where the walk ends. -/
def Loading.Behind (buffer : Bytes) (s : Loading) : Prop :=
  ∀ x ∈ s.visited, TransGen (Turn buffer) x s.offset

theorem Loading.Behind.not_mem (h : s.Behind buffer) (hreach : ReflTransGen (Turn buffer) s.offset x)
    (hend : ∀ y, ¬ Turn buffer x y) : s.offset ∉ s.visited := fun hmem =>
  not_cycle_of_end (oneWay_turn buffer) hreach hend (h _ hmem)

/-- The state behind a turn. -/
def Loading.to (s : Loading) (y : ℕ) (cursor : Option ℕ) (parts : List Bytes) : Loading :=
  ⟨y, s.visited ++ [s.offset], cursor, parts⟩

theorem Loading.Behind.turn (h : s.Behind buffer) (hturn : Turn buffer s.offset y) (cursor : Option ℕ)
    (parts : List Bytes) : (s.to y cursor parts).Behind buffer := by
  intro x hx
  rcases List.mem_append.mp hx with hx | hx
  · exact (h x hx).tail hturn
  · obtain rfl := List.mem_singleton.mp hx
    exact .single hturn

theorem loadParts_label {b : UInt8} (hbyte : buffer[s.offset]? = some b) (hpos : 0 < b.toNat)
    (hless : b.toNat < 0xc0) (hnew : s.offset ∉ s.visited) :
    loadParts buffer (fuel + 1) s = loadParts buffer fuel
      (s.to (s.offset + 1 + b.toNat) s.cursor
        (s.parts ++ [slice buffer (s.offset + 1) (s.offset + 1 + b.toNat)])) := by
  have hlt := (List.getElem?_eq_some_iff.mp hbyte).1
  rw [loadParts, if_pos hlt, if_neg hnew]
  simp only [hbyte, Option.getD_some]
  rw [if_neg (by omega), if_neg (by omega)]
  rfl

theorem loadParts_pointer {high low : UInt8} (hhigh : buffer[s.offset]? = some high)
    (hge : 0xc0 ≤ high.toNat) (hlow : buffer[s.offset + 1]? = some low) (hnew : s.offset ∉ s.visited) :
    loadParts buffer (fuel + 1) s = loadParts buffer fuel
      (s.to ((high.toNat - 0xc0) * 256 + low.toNat) (s.cursor.or (some (s.offset + 2))) s.parts) := by
  have hlt := (List.getElem?_eq_some_iff.mp hhigh).1
  have hindex : index buffer (s.offset + 1) = .ok low.toNat := by
    rw [index, hlow]
  rw [loadParts, if_pos hlt, if_neg hnew]
  simp only [hhigh, Option.getD_some]
  rw [if_neg (by omega), if_pos hge, hindex]
  rfl

/-- **A turn.** -/
theorem loadParts_turn (h : Turn buffer s.offset y) (hnew : s.offset ∉ s.visited) :
    ∃ cursor parts, loadParts buffer (fuel + 1) s = loadParts buffer fuel (s.to y cursor parts) ∧
      (LabelTurn buffer s.offset y → cursor = s.cursor) ∧
      ∀ c ∈ cursor, c ∈ s.cursor ∨ c ≤ buffer.length := by
  rcases h with ⟨b, hb, hpos, hless, rfl⟩ | ⟨high, low, hh, hge, hl, rfl⟩
  · exact ⟨_, _, loadParts_label hb hpos hless hnew, fun _ => rfl, fun _ => .inl⟩
  · refine ⟨_, _, loadParts_pointer hh hge hl hnew, fun ⟨b, hb, _, hless, _⟩ => ?_, fun c hc => ?_⟩
    · obtain rfl := Option.some.inj (hb.symm.trans hh)
      omega
    · have hlt := (List.getElem?_eq_some_iff.mp hl).1
      cases hcursor : s.cursor with
      | none =>
        rw [hcursor] at hc
        obtain rfl := Option.mem_some_iff.mp hc
        exact .inr (by omega)
      | some c' =>
        rw [hcursor] at hc
        exact .inl hc

/-! ## 3. Walks -/

/-- A walk to an offset, the cursor that its first pointer leaves, and the labels on the way. -/
inductive Walk (buffer : Bytes) : ℕ → Option ℕ → List Bytes → ℕ → Prop
  | refl (x : ℕ) : Walk buffer x none [] x
  | label {x z : ℕ} {b : UInt8} {cursor : Option ℕ} {parts : List Bytes}
      (hbyte : buffer[x]? = some b) (hpos : 0 < b.toNat) (hless : b.toNat < 0xc0)
      (hrest : Walk buffer (x + 1 + b.toNat) cursor parts z) :
      Walk buffer x cursor (slice buffer (x + 1) (x + 1 + b.toNat) :: parts) z
  | pointer {x z : ℕ} {high low : UInt8} {cursor : Option ℕ} {parts : List Bytes}
      (hhigh : buffer[x]? = some high) (hge : 0xc0 ≤ high.toNat) (hlow : buffer[x + 1]? = some low)
      (hrest : Walk buffer ((high.toNat - 0xc0) * 256 + low.toNat) cursor parts z) :
      Walk buffer x (some (x + 2)) parts z

variable {z : ℕ} {cursor : Option ℕ} {parts : List Bytes}

theorem Walk.reach (h : Walk buffer x cursor parts z) : ReflTransGen (Turn buffer) x z := by
  induction h with
  | refl x => exact .refl
  | label hbyte hpos hless _ ih => exact .head (.inl ⟨_, hbyte, hpos, hless, rfl⟩) ih
  | pointer hhigh hge hlow _ ih => exact .head (.inr ⟨_, _, hhigh, hge, hlow, rfl⟩) ih

theorem Walk.lt_length (h : Walk buffer x cursor parts z) (hz : z < buffer.length) :
    x < buffer.length := by
  cases h with
  | refl => exact hz
  | label hbyte => exact (List.getElem?_eq_some_iff.mp hbyte).1
  | pointer hhigh => exact (List.getElem?_eq_some_iff.mp hhigh).1

theorem exists_walk (h : ReflTransGen (Turn buffer) x z) : ∃ cursor parts, Walk buffer x cursor parts z := by
  induction h using ReflTransGen.head_induction_on with
  | refl => exact ⟨none, [], .refl _⟩
  | head hturn _ ih =>
    obtain ⟨cursor, parts, hwalk⟩ := ih
    rcases hturn with ⟨b, hb, hpos, hless, rfl⟩ | ⟨high, low, hh, hge, hl, rfl⟩
    · exact ⟨_, _, .label hb hpos hless hwalk⟩
    · exact ⟨_, _, .pointer hh hge hl hwalk⟩

/-- Labels leave no cursor. -/
theorem exists_walk_labels (h : ReflTransGen (LabelTurn buffer) x z) :
    ∃ parts, Walk buffer x none parts z := by
  induction h using ReflTransGen.head_induction_on with
  | refl => exact ⟨[], .refl _⟩
  | head hturn _ ih =>
    obtain ⟨parts, hwalk⟩ := ih
    obtain ⟨b, hb, hpos, hless, rfl⟩ := hturn
    exact ⟨_, .label hb hpos hless hwalk⟩

/-- **The loop goes along the walk**, where that comes to an end. -/
theorem loadParts_walk {r : Except Error Loading} (hwalk : Walk buffer x cursor parts z)
    (hend : ∀ y, ¬ Turn buffer z y) (hs : s.offset = x) (hbehind : s.Behind buffer)
    (hload : loadParts buffer fuel s = some r) :
    ∃ fuel' s', loadParts buffer (fuel' + 1) s' = some r ∧ s'.offset = z ∧ s'.offset ∉ s'.visited ∧
      s'.cursor = s.cursor.or cursor ∧ s'.parts = s.parts ++ parts := by
  induction hwalk generalizing fuel s with
  | refl x =>
    have hnew := hbehind.not_mem (hs ▸ .refl) hend
    cases fuel with
    | zero => cases hload
    | succ fuel =>
      refine ⟨fuel, s, hload, hs, hnew, ?_, (List.append_nil _).symm⟩
      cases s.cursor <;> rfl
  | label hbyte hpos hless hrest ih =>
    obtain rfl := hs
    have hturn : Turn buffer s.offset _ := .inl ⟨_, hbyte, hpos, hless, rfl⟩
    have hnew := hbehind.not_mem (.head hturn hrest.reach) hend
    cases fuel with
    | zero => cases hload
    | succ fuel =>
      rw [loadParts_label hbyte hpos hless hnew] at hload
      obtain ⟨fuel', s', hload', hz, hnew', hcursor, hparts⟩ :=
        ih hend rfl (hbehind.turn hturn _ _) hload
      refine ⟨fuel', s', hload', hz, hnew', hcursor, hparts.trans ?_⟩
      exact (List.append_assoc _ _ _).trans rfl
  | pointer hhigh hge hlow hrest ih =>
    obtain rfl := hs
    have hturn : Turn buffer s.offset _ := .inr ⟨_, _, hhigh, hge, hlow, rfl⟩
    have hnew := hbehind.not_mem (.head hturn hrest.reach) hend
    cases fuel with
    | zero => cases hload
    | succ fuel =>
      rw [loadParts_pointer hhigh hge hlow hnew] at hload
      obtain ⟨fuel', s', hload', hz, hnew', hcursor, hparts⟩ :=
        ih hend rfl (hbehind.turn hturn _ _) hload
      refine ⟨fuel', s', hload', hz, hnew', hcursor.trans ?_, hparts⟩
      change (s.cursor.or (some (s.offset + 2))).or _ = _
      cases s.cursor <;> rfl

/-! ## 4. What is returned -/

variable {offset : ℕ}

theorem loadDomainName_eq (buffer : Bytes) (offset : ℕ) :
    ∃ r, loadParts buffer (buffer.length + 1) ⟨offset, [], none, []⟩ = some r ∧
      loadDomainName buffer offset = r >>= finishLoad := by
  have hsome : loadDomainName? buffer offset = some (loadDomainName buffer offset) :=
    (Option.some_get _).symm
  obtain ⟨r, hr, hname⟩ := Option.map_eq_some_iff.mp hsome
  exact ⟨r, hr, hname.symm⟩

/-- **What is returned where the walk comes to an end.** -/
theorem loadDomainName_walk (hwalk : Walk buffer offset cursor parts z) (hend : ∀ y, ¬ Turn buffer z y) :
    ∃ fuel visited r, loadParts buffer (fuel + 1) ⟨z, visited, cursor, parts⟩ = some r ∧ z ∉ visited ∧
      loadDomainName buffer offset = r >>= finishLoad := by
  obtain ⟨r, hload, hname⟩ := loadDomainName_eq buffer offset
  obtain ⟨fuel, ⟨z', visited, cursor', parts'⟩, hload', hz, hnew, hcursor, hparts⟩ :=
    loadParts_walk hwalk hend rfl (fun _ hx => absurd hx List.not_mem_nil) hload
  obtain rfl : z' = z := hz
  obtain rfl : cursor' = cursor := hcursor
  obtain rfl : parts' = parts := hparts
  exact ⟨fuel, visited, r, hload', hnew, hname⟩

/-- A zero ends the name. -/
theorem loadDomainName_zero (hwalk : Walk buffer offset cursor parts z) (hzero : buffer[z]? = some 0) :
    loadDomainName buffer offset = (decode (List.intercalate [46] parts)).map
      fun name => (cursor.getD (z + 1), name) := by
  obtain ⟨fuel, visited, r, hload, hnew, hname⟩ := loadDomainName_walk hwalk (not_turn_of_zero hzero)
  have hlt := (List.getElem?_eq_some_iff.mp hzero).1
  have hloaded : loadParts buffer (fuel + 1) ⟨z, visited, cursor, parts⟩ =
      some (.ok ⟨z + 1, visited ++ [z], cursor.or (some (z + 1)), parts⟩) := by
    rw [loadParts, if_pos hlt, if_neg hnew]
    simp only [hzero, Option.getD_some]
    exact if_pos rfl
  obtain rfl := Option.some.inj (hloaded.symm.trans hload)
  rw [hname]
  cases cursor <;> cases hdecode : decode (List.intercalate [46] parts) <;>
    simp [bind, Except.bind, finishLoad, hdecode, Except.map, pure, Except.pure]

theorem loadDomainName_cut (hreach : ReflTransGen (Turn buffer) offset z) (hcut : CutPointer buffer z) :
    loadDomainName buffer offset = .error .indexError := by
  obtain ⟨cursor, parts, hwalk⟩ := exists_walk hreach
  obtain ⟨fuel, visited, r, hload, hnew, hname⟩ := loadDomainName_walk hwalk (not_turn_of_cut hcut)
  obtain ⟨⟨b, hb, hge⟩, hlow⟩ := hcut
  have hlt := (List.getElem?_eq_some_iff.mp hb).1
  have hindex : index buffer (z + 1) = .error .indexError := by
    rw [index, hlow]
  have hloaded : loadParts buffer (fuel + 1) ⟨z, visited, cursor, parts⟩ =
      some (.error .indexError) := by
    rw [loadParts, if_pos hlt, if_neg hnew]
    simp only [hb, Option.getD_some]
    rw [if_neg (by omega), if_pos hge, hindex]
  obtain rfl := Option.some.inj (hloaded.symm.trans hload)
  rw [hname]
  rfl

/-- Behind the end nothing is found wrong if there is a cursor. -/
theorem loadDomainName_beyond (hwalk : Walk buffer offset cursor parts z) (hbeyond : buffer.length ≤ z) :
    loadDomainName buffer offset = match cursor with
      | none => .error (.name z "Bad data")
      | some c => (decode (List.intercalate [46] parts)).map fun name => (c, name) := by
  obtain ⟨fuel, visited, r, hload, -, hname⟩ := loadDomainName_walk hwalk (not_turn_of_end hbeyond)
  have hloaded : loadParts buffer (fuel + 1) ⟨z, visited, cursor, parts⟩ =
      some (.ok ⟨z, visited, cursor, parts⟩) := by
    have hnot : ¬ z < buffer.length := by omega
    rw [loadParts, if_neg hnot]
  obtain rfl := Option.some.inj (hloaded.symm.trans hload)
  rw [hname]
  cases cursor <;> cases hdecode : decode (List.intercalate [46] parts) <;>
    simp [bind, Except.bind, finishLoad, hdecode, Except.map, pure, Except.pure]

/-- A walk that circles is found out. -/
theorem loadParts_circles {r : Except Error Loading} (hcircles : Circles (Turn buffer) s.offset)
    (hload : loadParts buffer fuel s = some r) :
    ∃ x, r = .error (.name x "Pointer loop detected") := by
  induction fuel generalizing s with
  | zero => cases hload
  | succ fuel ih =>
    obtain ⟨y, hturn⟩ := hcircles.exists_next
    by_cases hmem : s.offset ∈ s.visited
    · rw [loadParts, if_pos hturn.lt_length, if_pos hmem] at hload
      exact ⟨s.offset, (Option.some.inj hload).symm⟩
    · obtain ⟨cursor, parts, hnext, -⟩ := @loadParts_turn _ _ fuel _ hturn hmem
      rw [hnext] at hload
      exact ih (hcircles.next (oneWay_turn buffer) hturn) hload

theorem loadDomainName_circles (h : Circles (Turn buffer) offset) :
    ∃ x, loadDomainName buffer offset = .error (.name x "Pointer loop detected") := by
  obtain ⟨r, hload, hname⟩ := loadDomainName_eq buffer offset
  obtain ⟨x, rfl⟩ := loadParts_circles h hload
  exact ⟨x, hname⟩

/-- The cursor stays in the buffer. -/
theorem cursor_loadParts {s' : Loading} (hcursor : ∀ c ∈ s.cursor, c ≤ buffer.length)
    (hload : loadParts buffer fuel s = some (.ok s')) : ∀ c ∈ s'.cursor, c ≤ buffer.length := by
  induction fuel generalizing s with
  | zero => cases hload
  | succ fuel ih =>
    by_cases hlt : s.offset < buffer.length
    swap
    · rw [loadParts, if_neg hlt] at hload
      obtain rfl := Except.ok.inj (Option.some.inj hload)
      exact hcursor
    by_cases hnew : s.offset ∈ s.visited
    · rw [loadParts, if_pos hlt, if_pos hnew] at hload
      cases hload
    by_cases hturn : ∃ y, Turn buffer s.offset y
    · obtain ⟨y, hturn⟩ := hturn
      obtain ⟨cursor, parts, hnext, -, hle⟩ := @loadParts_turn _ _ fuel _ hturn hnew
      rw [hnext] at hload
      exact ih (fun c hc => (hle c hc).elim (hcursor c) id) hload
    · -- a zero, or half a pointer
      rw [loadParts, if_pos hlt, if_neg hnew] at hload
      simp only [List.getElem?_eq_getElem hlt, Option.getD_some] at hload
      split at hload
      · obtain rfl := Except.ok.inj (Option.some.inj hload)
        intro c hc
        cases hs : s.cursor with
        | none =>
          rw [hs] at hc
          obtain rfl := Option.mem_some_iff.mp hc
          exact hlt
        | some c' =>
          rw [hs] at hc
          exact hcursor c (hs ▸ hc)
      next hzero =>
        exfalso
        have hbyte := List.getElem?_eq_getElem hlt
        split at hload
        · next hge =>
          cases hlow : buffer[s.offset + 1]? with
          | none =>
            rw [index, hlow] at hload
            cases hload
          | some low => exact hturn ⟨_, .inr ⟨_, _, hbyte, hge, hlow, rfl⟩⟩
        · next hless => exact hturn ⟨_, .inl ⟨_, hbyte, by omega, by omega, rfl⟩⟩

theorem cursor_le_length {c : ℕ} {name : String} (h : loadDomainName buffer offset = .ok (c, name)) :
    c ≤ buffer.length := by
  obtain ⟨r, hload, hname⟩ := loadDomainName_eq buffer offset
  rw [hname, bind_eq_ok_iff] at h
  obtain ⟨s, rfl, hfinish⟩ := h
  have hcursor := cursor_loadParts (fun c hc => absurd hc (Option.not_mem_none c)) hload
  unfold finishLoad at hfinish
  split at hfinish
  · cases hfinish
  · next c' hc' =>
    obtain ⟨data, -, hdata⟩ := bind_eq_ok_iff.mp hfinish
    obtain ⟨rfl, -⟩ := Prod.mk.inj (Except.ok.inj hdata)
    exact hcursor c' hc'

/-! ## 5. Hostile input -/

/-- Cycles, forward pointers, and what is cut off are all reported. -/
structure ReportsAll (buffer : Bytes) (offset : ℕ) : Prop where
  cursor : ∀ c name, loadDomainName buffer offset = .ok (c, name) → c ≤ buffer.length
  cycle : Circles (Turn buffer) offset → ∃ e, loadDomainName buffer offset = .error e
  forward : ∀ x y, ReflTransGen (Turn buffer) offset x → PointerTurn buffer x y → x < y →
    ∃ e, loadDomainName buffer offset = .error e
  pointer : ∀ x, ReflTransGen (Turn buffer) offset x → CutPointer buffer x →
    ∃ e, loadDomainName buffer offset = .error e
  label : ∀ x, ReflTransGen (Turn buffer) offset x → buffer.length ≤ x →
    ∃ e, loadDomainName buffer offset = .error e

/-- **Loading ends on any bytes.**  A cursor that is returned is in the buffer; cycles and cut pointers
are errors, and so is the end of the buffer where no pointer has led there.  Pointers are followed in
either direction. -/
theorem loadDomainName_total (buffer : Bytes) (offset : ℕ) :
    loadDomainName? buffer offset = some (loadDomainName buffer offset) ∧
      (∀ c name, loadDomainName buffer offset = .ok (c, name) → c ≤ buffer.length) ∧
      (Circles (Turn buffer) offset →
        ∃ x, loadDomainName buffer offset = .error (.name x "Pointer loop detected")) ∧
      (∀ x, ReflTransGen (Turn buffer) offset x → CutPointer buffer x →
        loadDomainName buffer offset = .error .indexError) ∧
      (∀ x, ReflTransGen (LabelTurn buffer) offset x → buffer.length ≤ x →
        loadDomainName buffer offset = .error (.name x "Bad data")) ∧
      ∀ cursor parts x, Walk buffer offset cursor parts x → buffer[x]? = some 0 →
        loadDomainName buffer offset = (decode (List.intercalate [46] parts)).map
          fun name => (cursor.getD (x + 1), name) := by
  refine ⟨(Option.some_get _).symm, fun _ _ => cursor_le_length, loadDomainName_circles,
    fun _ => loadDomainName_cut, fun x hreach hbeyond => ?_, fun _ _ _ => loadDomainName_zero⟩
  obtain ⟨parts, hwalk⟩ := exists_walk_labels hreach
  exact loadDomainName_beyond hwalk hbeyond

/-- A pointer to itself, half a pointer, a label that is cut off, and a pointer ahead. -/
theorem loadDomainName_total_bytes :
    (∃ x, loadDomainName [0xc0, 0] 0 = .error (.name x "Pointer loop detected")) ∧
      loadDomainName [0xc0] 0 = .error .indexError ∧
      loadDomainName [5, 97] 0 = .error (.name 6 "Bad data") ∧
      loadDomainName [0xc0, 2, 0] 0 = .ok (2, "") := by
  have hself : Turn [0xc0, 0] 0 0 := .inr ⟨0xc0, 0, rfl, by decide, rfl, rfl⟩
  have hcut : CutPointer [0xc0] 0 := ⟨⟨0xc0, rfl, by decide⟩, rfl⟩
  have hlabel : LabelTurn [5, 97] 0 6 := ⟨5, rfl, by decide, by decide, rfl⟩
  have hahead : Walk [0xc0, 2, 0] 0 (some 2) [] 2 := .pointer rfl (by decide) rfl (.refl 2)
  exact
    ⟨(loadDomainName_total [0xc0, 0] 0).2.2.1 ⟨0, .refl, .single hself⟩,
      (loadDomainName_total [0xc0] 0).2.2.2.1 0 .refl hcut,
      (loadDomainName_total [5, 97] 0).2.2.2.2.1 6 (.single hlabel) (by decide),
      (loadDomainName_total [0xc0, 2, 0] 0).2.2.2.2.2 _ _ 2 hahead rfl⟩

/-- A pointer ahead is followed. -/
theorem not_reportsAll : ¬ ∀ buffer offset, ReportsAll buffer offset := by
  intro h
  have hahead : Walk [0xc0, 2, 0] 0 (some 2) [] 2 := .pointer rfl (by decide) rfl (.refl 2)
  obtain ⟨e, he⟩ := (h [0xc0, 2, 0] 0).forward 0 2 .refl ⟨0xc0, 2, rfl, by decide, rfl, rfl⟩ (by decide)
  rw [loadDomainName_zero hahead rfl] at he
  cases he

end Dns
end Hedra
