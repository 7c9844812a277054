/-
# Queries for any type

`CacheValue.get` (`distributed/discovery/dns/core/cache/cache_value.py`) for `ANY` goes through the
types that have been added and calls itself for each of them.  Here it is a recursion with a limit
on its depth, as Python has one, and the clock is read for each record anew.

A pass over some of the records yields those that it finds unexpired, each once (`Passes`); passes over
different records can be put one after the other.  Where the type `ANY` is among those that have been
added, no limit is enough.

* `Passes.trans`: one pass after the other is a pass;
* `getRec_any`: where `ANY` has been added, the query ends under no limit;
* `yieldsAll_iff`: otherwise it yields all that it should, over any additions and any clock.
-/
import Mathlib.Algebra.Order.Field.Rat
import Mathlib.Algebra.Order.Ring.Rat
import Mathlib.Data.List.Induction
import Mathlib.Order.CompletePartialOrder
import Hedra.Dns.Cache

namespace Hedra
namespace Dns

open Lib

namespace CacheValue

/-! ## 1. The recursion -/

/-- How far a query is. -/
structure Query where
  value : CacheValue
  /-- How often the clock has been read. -/
  reads : ℕ
  yielded : List Record

variable (clock : ℕ → ℚ)

/-- One turn of the loop over the records of a type. -/
def checkRecord (recordType : Option RecordType) (s : Query) (key : Option RecordData) : Query :=
  match s.value.data.get? recordType with
  | none => s
  | some results =>
    match results.get? key with
    | none => s
    | some record =>
      if checkTtl (clock s.reads) record then
        { s with reads := s.reads + 1, yielded := s.yielded ++ [record] }
      else
        { s with
          value := ⟨s.value.data.set recordType (results.erase key)⟩
          reads := s.reads + 1 }

/-- The part of `get` behind the recursion. -/
def checkType (recordType : Option RecordType) (s : Query) : Query :=
  match s.value.data.get? recordType with
  | none => s
  | some results => results.keys.foldl (checkRecord clock recordType) s

/-- `get`, with a limit on how deep it calls itself. -/
def getRec : ℕ → Query → Option RecordType → Option Query
  | 0, _, _ => none
  | limit + 1, s, recordType => do
    let s ← if recordType = some .any then s.value.data.keys.foldlM (getRec limit) s else some s
    return checkType clock recordType s

variable {clock}

/-! ## 2. Passes -/

/-- What belongs to these types and data is looked at, and nothing else is touched. -/
structure Passes (clock : ℕ → ℚ) (s s' : Query) (range : Set (Option RecordType × Option RecordData)) :
    Prop where
  reads : s.reads ≤ s'.reads
  types : ∀ t, s'.value.data.get? t = none ↔ s.value.data.get? t = none
  filed : s'.value.Filed
  others : ∀ t d, (t, d) ∉ range → s'.value.held t d = s.value.held t d
  yields : ∃ ys, s'.yielded = s.yielded ++ ys ∧ (ys.map fun r => (r.recordType, r.data)).Nodup ∧
    (∀ r ∈ ys, (r.recordType, r.data) ∈ range ∧ s.value.held r.recordType r.data = some r ∧
      checkTtl (clock s.reads) r = true) ∧
    ∀ r, (r.recordType, r.data) ∈ range → s.value.held r.recordType r.data = some r →
      checkTtl (clock s'.reads) r = true → r ∈ ys

variable {s s' s'' : Query} {range range' : Set (Option RecordType × Option RecordData)}

theorem Passes.refl (h : s.value.Filed) : Passes clock s s ∅ where
  reads := le_rfl
  types _ := Iff.rfl
  filed := h
  others _ _ _ := rfl
  yields := ⟨[], by simp, List.nodup_nil, by simp, fun _ hr => absurd hr (Set.notMem_empty _)⟩

/-- **One pass after the other.** -/
theorem Passes.trans (hmono : Monotone clock) (h : Passes clock s s' range)
    (h' : Passes clock s' s'' range') (hdisjoint : Disjoint range range') :
    Passes clock s s'' (range ∪ range') := by
  obtain ⟨ys, hys, hnodup, hsound, hcomplete⟩ := h.yields
  obtain ⟨ys', hys', hnodup', hsound', hcomplete'⟩ := h'.yields
  refine
    { reads := h.reads.trans h'.reads
      types := fun t => (h'.types t).trans (h.types t)
      filed := h'.filed
      others := fun t d hnot => ?_
      yields := ⟨ys ++ ys', by rw [hys', hys, List.append_assoc], ?_, fun r hr => ?_,
        fun r hr hheld hfresh => ?_⟩ }
  · obtain ⟨hleft, hright⟩ := not_or.mp hnot
    exact (h'.others t d hright).trans (h.others t d hleft)
  · rw [List.map_append]
    refine hnodup.append hnodup' fun x hx hx' => ?_
    obtain ⟨r, hr, rfl⟩ := List.mem_map.mp hx
    obtain ⟨r', hr', heq⟩ := List.mem_map.mp hx'
    exact Set.disjoint_left.mp hdisjoint (hsound r hr).1 (heq ▸ (hsound' r' hr').1)
  · rcases List.mem_append.mp hr with hr | hr
    · obtain ⟨hrange, hheld⟩ := hsound r hr
      exact ⟨.inl hrange, hheld⟩
    · obtain ⟨hrange, hheld, hfresh⟩ := hsound' r hr
      have hnot := Set.disjoint_right.mp hdisjoint hrange
      rw [h.others _ _ hnot] at hheld
      exact ⟨.inr hrange, hheld, checkTtl_of_le (hmono h.reads) hfresh⟩
  · rcases hr with hr | hr
    · exact List.mem_append_left _
        (hcomplete r hr hheld (checkTtl_of_le (hmono h'.reads) hfresh))
    · have hnot := Set.disjoint_right.mp hdisjoint hr
      rw [← h.others _ _ hnot] at hheld
      exact List.mem_append_right _ (hcomplete' r hr hheld hfresh)

/-- Where nothing is held a pass has nothing to do. -/
theorem Passes.mono (h : Passes clock s s' range) (hsub : range ⊆ range')
    (hnone : ∀ t d, (t, d) ∈ range' → (t, d) ∉ range → s.value.held t d = none) :
    Passes clock s s' range' := by
  obtain ⟨ys, hys, hnodup, hsound, hcomplete⟩ := h.yields
  refine
    { h with
      others := fun t d hnot => h.others t d fun hrange => hnot (hsub hrange)
      yields := ⟨ys, hys, hnodup, fun r hr => ⟨hsub (hsound r hr).1, (hsound r hr).2⟩,
        fun r hr hheld hfresh => ?_⟩ }
  by_cases hrange : (r.recordType, r.data) ∈ range
  · exact hcomplete r hrange hheld hfresh
  · rw [hnone _ _ hr hrange] at hheld
    cases hheld

theorem checkRecord_passes (hmono : Monotone clock) (h : s.value.Filed) (t : Option RecordType)
    (d : Option RecordData) : Passes clock s (checkRecord clock t s d) {(t, d)} := by
  have hrefl : s.value.held t d = none → Passes clock s s {(t, d)} := fun hnone => by
    refine (Passes.refl h).mono (Set.empty_subset _) fun t' d' hmem _ => ?_
    obtain ⟨rfl, rfl⟩ := Prod.mk.inj hmem
    exact hnone
  cases ht : s.value.data.get? t with
  | none =>
    have hcheck : checkRecord clock t s d = s := by simp only [checkRecord, ht]
    rw [hcheck]
    exact hrefl (by simp [held, ht])
  | some results =>
    cases hd : results.get? d with
    | none =>
      have hcheck : checkRecord clock t s d = s := by simp only [checkRecord, ht, hd]
      rw [hcheck]
      exact hrefl (by simp [held, ht, hd])
    | some record =>
      have hheld : s.value.held t d = some record := by simp [held, ht, hd]
      obtain ⟨rfl, rfl⟩ := h t d record hheld
      simp only [checkRecord, ht, hd]
      by_cases hfresh : checkTtl (clock s.reads) record = true
      · rw [if_pos hfresh]
        refine ⟨Nat.le_succ _, fun _ => Iff.rfl, h, fun _ _ _ => rfl, [record], rfl,
          List.nodup_singleton _, fun r hr => ?_, fun r hr hr' _ => ?_⟩
        · obtain rfl := List.mem_singleton.mp hr
          exact ⟨rfl, hheld, hfresh⟩
        · obtain ⟨htype, hdata⟩ := Prod.mk.inj hr
          rw [htype, hdata, hheld] at hr'
          exact List.mem_singleton.mpr (Option.some.inj hr').symm
      · rw [if_neg hfresh]
        have herase : ∀ t' d', (⟨s.value.data.set record.recordType (results.erase record.data)⟩ :
            CacheValue).held t' d' =
            if t' = record.recordType ∧ d' = record.data then none else s.value.held t' d' := by
          intro t' d'
          unfold held
          rw [Dict.get?_set]
          by_cases ht' : t' = record.recordType
          · subst ht'
            simp only [if_true, true_and, ht, Option.bind_some, Dict.get?_erase]
          · simp only [ht', if_false, false_and]
        refine ⟨Nat.le_succ _, fun t' => ?_, fun t' d' r hr => ?_, fun t' d' hnot => ?_, [],
          (List.append_nil _).symm, List.nodup_nil, List.forall_mem_nil _, fun r hr hr' hlater => ?_⟩
        · rw [Dict.get?_set]
          split
          · next heq => simp [heq, ht]
          · rfl
        · rw [herase] at hr
          split at hr
          · cases hr
          · exact h t' d' r hr
        · rw [herase]
          exact if_neg fun heq => hnot (Prod.ext heq.1 heq.2)
        · obtain ⟨htype, hdata⟩ := Prod.mk.inj hr
          rw [htype, hdata, hheld] at hr'
          obtain rfl := Option.some.inj hr'
          exact absurd (checkTtl_of_le (hmono (Nat.le_succ _)) hlater) hfresh

theorem checkRecords_passes (hmono : Monotone clock) (t : Option RecordType)
    {ds : List (Option RecordData)} (hds : ds.Nodup) (h : s.value.Filed) :
    Passes clock s (ds.foldl (checkRecord clock t) s) {p | p.1 = t ∧ p.2 ∈ ds} := by
  induction ds generalizing s with
  | nil =>
    refine (Passes.refl h).mono (Set.empty_subset _) fun t' d' hmem _ => ?_
    exact absurd hmem.2 List.not_mem_nil
  | cons d ds ih =>
    obtain ⟨hd, hds⟩ := List.nodup_cons.mp hds
    have hhead := checkRecord_passes hmono h t d
    have hrange : ({p | p.1 = t ∧ p.2 ∈ d :: ds} : Set (Option RecordType × Option RecordData)) =
        {(t, d)} ∪ {p | p.1 = t ∧ p.2 ∈ ds} := by
      ext ⟨t', d'⟩
      simp only [Set.mem_ofPred_eq, List.mem_cons, Set.mem_union, Set.mem_singleton_iff, Prod.mk.injEq,
        and_or_left]
    rw [hrange]
    refine hhead.trans hmono (ih hds hhead.filed) (Set.disjoint_left.mpr fun p hp hp' => ?_)
    obtain rfl := hp
    exact hd hp'.2

theorem checkType_passes (hmono : Monotone clock) (h : s.value.Filed) (t : Option RecordType) :
    Passes clock s (checkType clock t s) {p | p.1 = t} := by
  unfold checkType
  cases ht : s.value.data.get? t with
  | none =>
    refine (Passes.refl h).mono (Set.empty_subset _) fun t' d' hmem _ => ?_
    obtain rfl : t' = t := hmem
    simp [held, ht]
  | some results =>
    refine (checkRecords_passes hmono t results.nodup_keys h).mono (fun p hp => hp.1)
      fun t' d' hmem hnot => ?_
    obtain rfl : t' = t := hmem
    cases hd : results.get? d' with
    | none => simp [held, ht, hd]
    | some r => exact absurd ⟨rfl, (Dict.mem_keys_iff results d').mpr ⟨r, hd⟩⟩ hnot

/-- Types other than `ANY` are passed in one call each. -/
theorem getRec_passes (hmono : Monotone clock) (limit : ℕ) {ts : List (Option RecordType)}
    (hts : ts.Nodup) (hany : some .any ∉ ts) (h : s.value.Filed) :
    ∃ s', ts.foldlM (getRec clock (limit + 1)) s = some s' ∧ Passes clock s s' {p | p.1 ∈ ts} := by
  induction ts generalizing s with
  | nil =>
    refine ⟨s, rfl, (Passes.refl h).mono (Set.empty_subset _) fun t' d' hmem _ => ?_⟩
    exact absurd hmem List.not_mem_nil
  | cons t ts ih =>
    obtain ⟨ht, hts⟩ := List.nodup_cons.mp hts
    obtain ⟨hne, hany⟩ := not_or.mp fun hor => hany (List.mem_cons.mpr hor)
    have hhead := checkType_passes hmono h t
    obtain ⟨s', hs', hrest⟩ := ih hts hany hhead.filed
    refine ⟨s', ?_, ?_⟩
    · rw [List.foldlM_cons, getRec, if_neg (Ne.symm hne)]
      exact hs'
    · have hrange : ({p | p.1 ∈ t :: ts} : Set (Option RecordType × Option RecordData)) =
          {p | p.1 = t} ∪ {p | p.1 ∈ ts} := by
        ext p
        simp only [Set.mem_ofPred_eq, List.mem_cons, Set.mem_union]
      rw [hrange]
      refine hhead.trans hmono hrest (Set.disjoint_left.mpr fun p hp hp' => ?_)
      obtain rfl : p.1 = t := hp
      exact ht hp'

/-! ## 3. Queries for `ANY` -/

/-- **`get(ANY)` ends and yields every unexpired record once**, at any clock: what is yielded is held
and was unexpired when it was looked at, and what is unexpired at the end is yielded. -/
def YieldsAll (v : CacheValue) : Prop :=
  ∀ clock : ℕ → ℚ, Monotone clock → ∃ limit s, getRec clock limit ⟨v, 0, []⟩ (some .any) = some s ∧
    (s.yielded.map fun r => (r.recordType, r.data)).Nodup ∧
    (∀ r ∈ s.yielded, v.held r.recordType r.data = some r ∧ checkTtl (clock 0) r = true) ∧
    ∀ r, v.held r.recordType r.data = some r → checkTtl (clock s.reads) r = true → r ∈ s.yielded

theorem yieldsAll_of_no_any {v : CacheValue} (h : v.Filed) (hany : v.data.get? (some .any) = none) :
    YieldsAll v := by
  intro clock hmono
  have hkeys : some .any ∉ v.data.keys := fun hmem => by
    obtain ⟨results, hresults⟩ := (Dict.mem_keys_iff _ _).mp hmem
    rw [hany] at hresults
    cases hresults
  obtain ⟨s, hs, hpasses⟩ := @getRec_passes clock ⟨v, 0, []⟩ hmono 0 _ v.data.nodup_keys hkeys h
  have hown : checkType clock (some .any) s = s := by
    unfold checkType
    rw [(hpasses.types _).mpr hany]
  obtain ⟨ys, hys, hnodup, hsound, hcomplete⟩ := hpasses.yields
  obtain rfl : s.yielded = ys := hys.trans (List.nil_append _)
  refine ⟨2, s, ?_, hnodup, fun r hr => (hsound r hr).2, fun r hr hfresh => hcomplete r ?_ hr hfresh⟩
  · rw [getRec, if_pos rfl, hs]
    exact congrArg some hown
  · obtain ⟨results, hresults, -⟩ := Option.bind_eq_some_iff.mp hr
    exact (Dict.mem_keys_iff _ _).mpr ⟨results, hresults⟩

/-- **Where `ANY` has been added, the query calls itself without end.** -/
theorem getRec_any (hmono : Monotone clock) (limit : ℕ) (h : s.value.Filed)
    (hany : s.value.data.get? (some .any) ≠ none) : getRec clock limit s (some .any) = none := by
  induction limit generalizing s with
  | zero => rfl
  | succ limit ih =>
    have hmem : some .any ∈ s.value.data.keys := by
      obtain ⟨results, hresults⟩ := Option.ne_none_iff_exists'.mp hany
      exact (Dict.mem_keys_iff _ _).mpr ⟨results, hresults⟩
    -- the types before it are passed, and then it is its own turn
    obtain ⟨first, others, hkeys, hfirst⟩ := List.eq_append_cons_of_mem hmem
    have hnodup : first.Nodup :=
      (hkeys ▸ s.value.data.nodup_keys : (first ++ some .any :: others).Nodup).of_append_left
    have hloop : s.value.data.keys.foldlM (getRec clock limit) s = none := by
      rw [hkeys, List.foldlM_append]
      cases limit with
      | zero => cases first <;> rfl
      | succ limit =>
        obtain ⟨s', hs', hpasses⟩ := getRec_passes hmono limit hnodup hfirst h
        have hstill := ih hpasses.filed fun hnone => hany ((hpasses.types _).mp hnone)
        rw [hs']
        change getRec clock (limit + 1) s' (some .any) >>= _ = none
        rw [hstill]
        rfl
    rw [getRec, if_pos rfl, hloop]
    rfl

/-- A value after calls of `add`, each with its time. -/
def ofAdds (adds : List (ℚ × Record)) : CacheValue := adds.foldl (fun v a => v.add a.1 a.2) init

theorem filed_init : init.Filed := fun t d r h => by
  rw [held_init] at h
  cases h

theorem types_add (now : ℚ) (v : CacheValue) (r : Record) (t : Option RecordType) :
    (v.add now r).data.get? t ≠ none ↔
      v.data.get? t ≠ none ∨ checkTtl now r = true ∧ r.recordType = t := by
  unfold add
  by_cases hr : checkTtl now r = true
  · rw [if_pos hr, Dict.get?_set]
    by_cases ht : t = r.recordType
    · simp [ht, hr]
    · simp [ht, Ne.symm ht]
  · simp [hr]

theorem types_ofAdds (adds : List (ℚ × Record)) (t : Option RecordType) :
    (ofAdds adds).Filed ∧ ((ofAdds adds).data.get? t ≠ none ↔
      ∃ a ∈ adds, checkTtl a.1 a.2 = true ∧ a.2.recordType = t) := by
  induction adds using List.reverseRecOn with
  | nil => exact ⟨filed_init, by simp [ofAdds, init]⟩
  | append_singleton adds a ih =>
    have hadd : ofAdds (adds ++ [a]) = (ofAdds adds).add a.1 a.2 := by
      simp [ofAdds, List.foldl_append]
    rw [hadd]
    refine ⟨ih.1.add a.1 a.2, ?_⟩
    rw [types_add, ih.2]
    simp only [List.mem_append, List.mem_singleton, or_and_right, exists_or, exists_eq_left]

/-- **When queries for `ANY` are answered**: unless a record of type `ANY` has been added that was
unexpired then. -/
theorem yieldsAll_iff (adds : List (ℚ × Record)) :
    YieldsAll (ofAdds adds) ↔ ∀ a ∈ adds, a.2.recordType = some .any → checkTtl a.1 a.2 = false := by
  obtain ⟨hfiled, htypes⟩ := types_ofAdds adds (some .any)
  constructor
  · intro h a ha htype
    by_contra hfresh
    have hany := htypes.mpr ⟨a, ha, Bool.not_eq_false _ ▸ hfresh, htype⟩
    obtain ⟨limit, s, hs, -⟩ := h (fun _ => 0) monotone_const
    rw [getRec_any monotone_const limit hfiled hany] at hs
    cases hs
  · intro h
    refine yieldsAll_of_no_any hfiled (not_not.mp fun hany => ?_)
    obtain ⟨a, ha, hfresh, htype⟩ := htypes.mp hany
    rw [h a ha htype] at hfresh
    cases hfresh

/-- `add(Record(ttl=60))`, at the time 0: the default type of a record is `ANY`. -/
def defaultAdd : ℚ × Record := (0, { Record.ofType (.queryType .request) 0 with ttl := 60 })

theorem not_yieldsAll : ¬ ∀ adds, YieldsAll (ofAdds adds) := by
  intro h
  obtain ⟨limit, s, hs, -⟩ := h [defaultAdd] (fun _ => 0) monotone_const
  have htypes := types_ofAdds [defaultAdd] (some .any)
  have hany := htypes.2.mpr ⟨_, List.mem_singleton_self _, by decide +kernel, rfl⟩
  rw [getRec_any monotone_const limit htypes.1 hany] at hs
  cases hs

end CacheValue

end Dns
end Hedra
