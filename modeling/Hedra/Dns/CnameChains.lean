/-
# Chains of CNAME records in the cache

`query_cache` (`distributed/discovery/dns/resolver/base_resolver.py`) follows the CNAME records of
the cache and then adds the records of the requested type.

The loop ends on every cache, because the names that records lead to are finitely many.  A chain that
comes to an end has no repetitions, every record of it is in the answer, and so are the records at its
end, but for name servers without an address.  Records may expire on the way; a chain is one of records
that do not, behind records that have expired before.

* `exists_queryCache`: the loop ends, whatever is in the cache;
* `addCacheQtype_spec`: what is asked for at a name comes to be in the message;
* `Search.followsChains`: every chain that ends is followed to its end.
-/
import Hedra.Dns.Lookups

namespace Hedra
namespace Dns

open Lib

/-! ## 1. The CNAME records of a name -/

/-- A message to which records have been added. -/
structure DnsMessage.Grows (m m' : DnsMessage) : Prop where
  answers : m.answers <+: m'.answers
  namservers : m.namservers <+: m'.namservers
  additionalRecords : m.additionalRecords <+: m'.additionalRecords

theorem DnsMessage.Grows.refl (m : DnsMessage) : m.Grows m :=
  ⟨List.prefix_refl _, List.prefix_refl _, List.prefix_refl _⟩

theorem DnsMessage.Grows.trans {m m' m'' : DnsMessage} (h : m.Grows m') (h' : m'.Grows m'') :
    m.Grows m'' :=
  ⟨h.answers.trans h'.answers, h.namservers.trans h'.namservers,
    h.additionalRecords.trans h'.additionalRecords⟩

/-- The record is among the answers, under the name. -/
def DnsMessage.Answers (m : DnsMessage) (fqdn : String) (r : Record) : Prop :=
  ∃ now, r.copyNamed now fqdn ∈ m.answers

theorem DnsMessage.Answers.grows {m m' : DnsMessage} {fqdn : String} {r : Record}
    (h : m.Answers fqdn r) (hgrows : m.Grows m') : m'.Answers fqdn r :=
  ⟨h.choose, hgrows.answers.subset h.choose_spec⟩

/-- A record that the loop of `_add_cache_cname` goes past. -/
def Passed (clock : ℕ → Rat) (r : Record) : Prop := Dead clock r ∨ ∀ name, r.data ≠ some (.cname name)

/-- The first CNAME record of a name that is alive, and the name it leads to. -/
def LeadsTo (clock : ℕ → Rat) (c : CacheNode) (fqdn : String) (r : Record) (name : String) : Prop :=
  ∃ before key behind,
    c.recordItems (c.pathOf fqdn) (some .cname) = before ++ (key, r) :: behind ∧
    Alive clock r ∧ r.data = some (.cname name) ∧ ∀ i ∈ before, Passed clock i.2

/-- The name has no CNAME record that is alive. -/
def Ends (clock : ℕ → Rat) (c : CacheNode) (fqdn : String) : Prop :=
  ∀ i ∈ c.recordItems (c.pathOf fqdn) (some .cname), Passed clock i.2

section Kept

variable {clock : ℕ → Rat} {c c' : CacheNode} {fqdn name : String} {r : Record}

theorem LeadsTo.of_kept (h : LeadsTo clock c fqdn r name) (hkept : CacheNode.Kept (Alive clock) c c') :
    LeadsTo clock c' fqdn r name := by
  obtain ⟨before, key, behind, hitems, halive, hdata, hpassed⟩ := h
  have hsub := hkept.sub (c.pathOf fqdn) (some .cname)
  have hmem : (key, r) ∈ c'.recordItems (c.pathOf fqdn) (some .cname) :=
    hkept.kept _ _ _ (hitems ▸ List.mem_append_right _ List.mem_cons_self) halive
  have hnodup := CacheNode.nodup_recordItems c (c.pathOf fqdn) (some .cname)
  rw [hitems, List.map_append, List.map_cons, List.nodup_append] at hnodup
  obtain ⟨-, hbehind, hdisjoint⟩ := hnodup
  rw [hitems] at hsub
  obtain ⟨before', rest, hsplit, hbefore', hrest⟩ := List.sublist_append_iff.mp hsub
  -- The record is alone under its key.
  have hnot : (key, r) ∉ before' := fun hin =>
    hdisjoint key (List.mem_map_of_mem (hbefore'.subset hin)) key List.mem_cons_self rfl
  have hin : (key, r) ∈ rest := by
    rw [hsplit] at hmem
    exact (List.mem_append.mp hmem).resolve_left hnot
  rcases List.sublist_cons_iff.mp hrest with hrest | ⟨behind', rfl, -⟩
  · exact absurd (List.mem_map_of_mem (hrest.subset hin)) (List.nodup_cons.mp hbehind).1
  · refine ⟨before', key, behind', ?_, halive, hdata, fun i hi => hpassed i (hbefore'.subset hi)⟩
    rw [hkept.pathOf_eq, hsplit]

theorem Ends.of_kept (h : Ends clock c fqdn) (hkept : CacheNode.Kept (Alive clock) c c') :
    Ends clock c' fqdn := by
  intro i hi
  rw [hkept.pathOf_eq] at hi
  exact h i ((hkept.sub _ _).subset hi)

end Kept

namespace Search

open CacheNode (Kept)

variable {clock : ℕ → Rat} {β : Type} {path : List String} {t : Option RecordType} {s : Search}
  {fqdn name : String} {r : Record}

/-- A lookup of one type goes through its records. -/
theorem forQuery_eq {body : Search → β → Record → Option (Search × β × Bool)} {recordType : RecordType}
    (h : recordType ≠ .any) (b : β) : forQuery clock fqdn recordType body s b =
      forRecords clock (s.cache.pathOf fqdn) (some recordType) body s b
        (s.cache.recordKeys (s.cache.pathOf fqdn) (some recordType)) := by
  unfold forQuery
  rw [CacheNode.get_pathOf]
  by_cases hhas : s.cache.has (s.cache.pathOf fqdn) = true
  · simp only [hhas, if_true, if_neg h]
  · simp only [if_neg hhas, CacheNode.recordKeys, CacheNode.get?_pathOf hhas]
    rfl

/-- A lookup of all types goes through one after the other, and the type of all types is last. -/
theorem forQuery_any {body : Search → β → Record → Option (Search × β × Bool)} {s' : Search} {b b' : β}
    (h : forTypes clock (s.cache.pathOf fqdn) body s b (s.cache.typeKeys (s.cache.pathOf fqdn)) =
      some (s', b')) (hnone : s'.cache.recordKeys (s.cache.pathOf fqdn) (some .any) = []) :
    forQuery clock fqdn .any body s b = some (s', b') := by
  unfold forQuery
  rw [CacheNode.get_pathOf]
  by_cases hhas : s.cache.has (s.cache.pathOf fqdn) = true
  · simp only [hhas, if_true, h, hnone, forRecords]
  · simp only [CacheNode.typeKeys, CacheNode.get?_pathOf hhas, Option.map_none, Option.getD_none,
      forTypes] at h
    simpa only [if_neg hhas] using h

/-- A record that leads nowhere. -/
theorem cnameBody_of_ne (h : ∀ name, r.data ≠ some (.cname name)) (o : Option String) :
    cnameBody clock fqdn s o r = some ({ s with
      reads := s.reads + 1
      msg := { s.msg with answers := s.msg.answers ++ [r.copyNamed (clock s.reads) fqdn] } },
      none, true) := by
  unfold cnameBody
  split
  · next name hname => exact absurd hname (h name)
  · rfl

/-- The loop goes past records. -/
theorem forRecords_passed {before rest : List (Option RecordData × Record)}
    (hnodup : ((before ++ rest).map Prod.fst).Nodup)
    (hitems : ∀ i ∈ before ++ rest, i ∈ s.cache.recordItems path t)
    (hpassed : ∀ i ∈ before, Passed clock i.2) :
    ∃ s', forRecords clock path t (cnameBody clock fqdn) s none ((before ++ rest).map Prod.fst) =
        forRecords clock path t (cnameBody clock fqdn) s' none (rest.map Prod.fst) ∧
      Kept (Alive clock) s.cache s'.cache ∧ s.msg.Grows s'.msg ∧
      (∀ i ∈ rest, i ∈ s'.cache.recordItems path t) ∧
      ∀ i ∈ before, Alive clock i.2 → s'.msg.Answers fqdn i.2 := by
  induction before generalizing s with
  | nil => exact ⟨s, rfl, Kept.refl _ _, .refl _, hitems, fun i hi => absurd hi List.not_mem_nil⟩
  | cons i before ih =>
    obtain ⟨key, r⟩ := i
    obtain ⟨hkey, hnodup⟩ := List.nodup_cons.mp hnodup
    have hr : (key, r) ∈ s.cache.recordItems path t := hitems _ List.mem_cons_self
    have hrest := fun i hi => hitems i (List.mem_cons_of_mem _ hi)
    have hpassed' := fun i hi => hpassed i (List.mem_cons_of_mem _ hi)
    simp only [List.cons_append, List.map_cons, forRecords, CacheNode.held_eq_some_iff.mpr hr]
    by_cases hfresh : CacheValue.checkTtl (clock s.reads) r = true
    · have hnot : ∀ name, r.data ≠ some (.cname name) := by
        refine (hpassed _ List.mem_cons_self).resolve_left fun hdead => ?_
        exact Bool.false_ne_true ((hdead _).symm.trans hfresh)
      obtain ⟨s', hrun, hkept, hgrows, hthere, hdone⟩ := @ih { s with
        reads := s.reads + 1 + 1
        msg := { s.msg with answers := s.msg.answers ++ [r.copyNamed (clock (s.reads + 1)) fqdn] } }
        hnodup hrest hpassed'
      have hgrows' : s.msg.Grows { s.msg with
          answers := s.msg.answers ++ [r.copyNamed (clock (s.reads + 1)) fqdn] } :=
        ⟨List.prefix_append _ _, List.prefix_refl _, List.prefix_refl _⟩
      refine ⟨s', ?_, hkept, hgrows'.trans hgrows, hthere, fun i hi halive => ?_⟩
      · rw [if_pos hfresh, cnameBody_of_ne hnot]
        exact hrun
      · rcases List.mem_cons.mp hi with rfl | hi
        · exact ⟨clock (s.reads + 1), hgrows.answers.subset
            (List.mem_append_right _ (List.mem_singleton_self _))⟩
        · exact hdone i hi halive
    · have hdead : ¬ Alive clock r := fun halive => hfresh (halive _)
      have hrest' : ∀ i ∈ before ++ rest, i ∈ (s.cache.pop path t key).recordItems path t := by
        intro i hi
        rw [CacheNode.recordItems_pop, if_pos ⟨rfl, rfl⟩]
        refine List.mem_filter.mpr ⟨hrest i hi, decide_eq_true ?_⟩
        rintro rfl
        exact hkey (List.mem_map.mpr ⟨i, hi, rfl⟩)
      obtain ⟨s', hrun, hkept, hgrows, hthere, hdone⟩ :=
        @ih ⟨s.cache.pop path t key, s.reads + 1, s.msg⟩ hnodup hrest' hpassed'
      refine ⟨s', ?_, (Kept.pop hr hdead).trans hkept, hgrows, hthere, fun i hi halive => ?_⟩
      · rw [if_neg hfresh]
        exact hrun
      · rcases List.mem_cons.mp hi with rfl | hi
        · exact absurd halive hdead
        · exact hdone i hi halive

/-- **The record that leads to another name is found**, and is in the answer. -/
theorem addCacheCname_leads (h : LeadsTo clock s.cache fqdn r name) :
    ∃ s', addCacheCname clock s fqdn = some (s', some name) ∧ Kept (Alive clock) s.cache s'.cache ∧
      s.msg.Grows s'.msg ∧ s'.msg.Answers fqdn r := by
  obtain ⟨before, key, behind, hitems, halive, hdata, hpassed⟩ := h
  have hnodup := CacheNode.nodup_recordItems s.cache (s.cache.pathOf fqdn) (some .cname)
  rw [hitems] at hnodup
  obtain ⟨s', hrun, hkept, hgrows, hthere, -⟩ := @forRecords_passed clock _ _ s fqdn _ _ hnodup
    (fun i hi => hitems.symm ▸ hi) hpassed
  have hgrows' : s'.msg.Grows { s'.msg with
      answers := s'.msg.answers ++ [r.copyNamed (clock (s'.reads + 1)) fqdn] } :=
    ⟨List.prefix_append _ _, List.prefix_refl _, List.prefix_refl _⟩
  refine ⟨⟨s'.cache, s'.reads + 1 + 1, _⟩, ?_, hkept, hgrows.trans hgrows', clock (s'.reads + 1), ?_⟩
  · rw [addCacheCname, forQuery_eq (by decide), CacheNode.recordKeys_eq, hitems, hrun, List.map_cons,
      forRecords, CacheNode.held_eq_some_iff.mpr (hthere _ List.mem_cons_self)]
    simp only [halive _, if_true, cnameBody, hdata]
  · exact List.mem_append_right _ (List.mem_singleton_self _)

/-- Where no record leads to another name none is found, and what there is is in the answer. -/
theorem addCacheCname_ends (h : Ends clock s.cache fqdn) :
    ∃ s', addCacheCname clock s fqdn = some (s', none) ∧ Kept (Alive clock) s.cache s'.cache ∧
      s.msg.Grows s'.msg ∧ ∀ i ∈ s.cache.recordItems (s.cache.pathOf fqdn) (some .cname),
        Alive clock i.2 → s'.msg.Answers fqdn i.2 := by
  have hnodup := CacheNode.nodup_recordItems s.cache (s.cache.pathOf fqdn) (some .cname)
  rw [← List.append_nil (s.cache.recordItems (s.cache.pathOf fqdn) (some .cname))] at hnodup
  obtain ⟨s', hrun, hkept, hgrows, -, hdone⟩ := @forRecords_passed clock _ _ s fqdn _ _ hnodup
    (fun i hi => by rwa [List.append_nil] at hi) h
  refine ⟨s', ?_, hkept, hgrows, hdone⟩
  rw [addCacheCname, forQuery_eq (by decide), CacheNode.recordKeys_eq]
  rw [List.append_nil] at hrun
  exact hrun

end Search

/-! ## 2. The records at the end -/

/-- An address of a host that is alive. -/
def IsAddress (clock : ℕ → Rat) (c : CacheNode) (host : String) (r : Record) : Prop :=
  ∃ t key, (t = RecordType.a ∨ t = .aaaa) ∧ (key, r) ∈ c.recordItems (c.pathOf host) (some t) ∧
    Alive clock r

/-- The record is among the answers; if it is of a name server it is among these, with the addresses of
its host, unless there are none. -/
def InMessage (clock : ℕ → Rat) (c : CacheNode) (fqdn : String) (m : DnsMessage) (r : Record) : Prop :=
  match r.data with
  | some (.ns host) => (∃ a, IsAddress clock c host a) →
      r ∈ m.namservers ∧ ∀ a, IsAddress clock c host a → a ∈ m.additionalRecords
  | _ => m.Answers fqdn r

/-- Records of addresses are not those of name servers. -/
def AddressesPlain (c : CacheNode) (path : List String) : Prop :=
  ∀ t key r, (t = RecordType.a ∨ t = .aaaa) → (key, r) ∈ c.recordItems path (some t) →
    ∀ host, r.data ≠ some (.ns host)

section Kept

variable {clock : ℕ → Rat} {c c' : CacheNode} {fqdn host : String} {r : Record} {m m' : DnsMessage}
  {path : List String}

theorem IsAddress.of_kept (h : IsAddress clock c host r) (hkept : CacheNode.Kept (Alive clock) c c') :
    IsAddress clock c' host r := by
  obtain ⟨t, key, ht, hmem, halive⟩ := h
  refine ⟨t, key, ht, ?_, halive⟩
  rw [hkept.pathOf_eq]
  exact hkept.kept _ _ _ hmem halive

theorem InMessage.of_kept (h : InMessage clock c' fqdn m r) (hkept : CacheNode.Kept (Alive clock) c c')
    (hgrows : m.Grows m') : InMessage clock c fqdn m' r := by
  unfold InMessage at h ⊢
  split
  · next host hdata =>
    rw [hdata] at h
    rintro ⟨a, ha⟩
    obtain ⟨hmem, hall⟩ := h ⟨a, ha.of_kept hkept⟩
    exact ⟨hgrows.namservers.subset hmem,
      fun a ha => hgrows.additionalRecords.subset (hall a (ha.of_kept hkept))⟩
  · next hdata =>
    split at h
    · next host heq => exact absurd heq (hdata host)
    · exact h.grows hgrows

theorem AddressesPlain.of_kept {P : Record → Prop} (h : AddressesPlain c path)
    (hkept : CacheNode.Kept P c c') : AddressesPlain c' path :=
  fun t key r ht hmem => h t key r ht ((hkept.sub _ _).subset hmem)

end Kept

namespace Search

open CacheNode (Kept)

variable {clock : ℕ → Rat} {path : List String} {t : Option RecordType} {s : Search} {fqdn : String}

/-- Lookups of other types leave the records of a type as they are. -/
structure Collects (clock : ℕ → Rat) (t : RecordType) (x y : Search × List Record) : Prop where
  kept : Kept (Alive clock) x.1.cache y.1.cache
  msg : y.1.msg = x.1.msg
  records : x.2 ⊆ y.2
  others : ∀ p u, u ≠ some t → y.1.cache.recordItems p u = x.1.cache.recordItems p u

theorem forQuery_collect {t : RecordType} (ht : t ≠ .any) (s : Search) (host : String)
    (rs : List Record) :
    ∃ s' rs', forQuery clock host t (fun s rs r => some (s, rs ++ [r], true)) s rs = some (s', rs') ∧
      Collects clock t (s, rs) (s', rs') ∧
      ∀ i ∈ s.cache.recordItems (s.cache.pathOf host) (some t), Alive clock i.2 → i.2 ∈ rs' := by
  rw [forQuery_eq ht]
  refine forRecords_spec (R := Collects clock t) (D := fun _ rs r => r ∈ rs) ?_ ?_ ?_ ?_ ?_
  · exact fun x => ⟨Kept.refl _ _, rfl, List.Subset.refl _, fun _ _ _ => rfl⟩
  · exact fun x y z h h' => ⟨h.kept.trans h'.kept, h'.msg.trans h.msg, List.Subset.trans h.records h'.records,
      fun p u hu => (h'.others p u hu).trans (h.others p u hu)⟩
  · intro s rs key r hr hdead
    refine ⟨Kept.pop hr hdead, rfl, List.Subset.refl _, fun p u hu => ?_⟩
    exact (CacheNode.recordItems_pop _ _ _ _ _ _).trans (if_neg fun h => hu h.2)
  · exact fun x y r hr hxy => hxy.records hr
  · intro s rs key r hr hext
    exact ⟨{ s with reads := s.reads + 1 }, rs ++ [r], rfl,
      ⟨Kept.refl _ _, rfl, List.subset_append_left _ _, fun _ _ _ => rfl⟩, rfl,
      List.mem_append_right _ (List.mem_singleton_self _)⟩

/-- **All the addresses of a host that are alive are found.** -/
theorem addresses_spec (s : Search) (host : String) :
    ∃ s' rs, addresses clock s host = some (s', rs) ∧ Kept (Alive clock) s.cache s'.cache ∧
      s'.msg = s.msg ∧ (∀ a, IsAddress clock s.cache host a → a ∈ rs) ∧
      ∀ p u, u ≠ some .a → u ≠ some .aaaa →
        s'.cache.recordItems p u = s.cache.recordItems p u := by
  obtain ⟨s₁, rs₁, hrun₁, hext₁, hall₁⟩ := @forQuery_collect clock .a (by decide) s host []
  obtain ⟨s₂, rs₂, hrun₂, hext₂, hall₂⟩ := @forQuery_collect clock .aaaa (by decide) s₁ host rs₁
  refine ⟨s₂, rs₂, ?_, hext₁.kept.trans hext₂.kept, hext₂.msg.trans hext₁.msg, ?_, ?_⟩
  · simp only [addresses, hrun₁]
    exact hrun₂
  · rintro a ⟨t, key, rfl | rfl, hmem, halive⟩
    · exact hext₂.records (hall₁ _ hmem halive)
    · refine hall₂ (key, a) ?_ halive
      rw [hext₁.kept.pathOf_eq, hext₁.others _ _ (by decide)]
      exact hmem
  · intro p u ha haaaa
    exact (hext₂.others p u haaaa).trans (hext₁.others p u ha)

/-- What the loops of `_add_cache_qtype` do on the whole. -/
structure Adds (clock : ℕ → Rat) (x y : Search × Bool) : Prop where
  kept : Kept (Alive clock) x.1.cache y.1.cache
  grows : x.1.msg.Grows y.1.msg

/-- **The records of a type that are alive come to be in the message.** -/
theorem forRecords_qtype (hplain : AddressesPlain s.cache path) (b : Bool) :
    ∃ s' b', forRecords clock path t (qtypeBody clock fqdn) s b (s.cache.recordKeys path t) =
        some (s', b') ∧ Adds clock (s, b) (s', b') ∧
      ∀ i ∈ s.cache.recordItems path t, Alive clock i.2 →
        InMessage clock s.cache fqdn s'.msg i.2 := by
  refine forRecords_spec (R := Adds clock)
    (D := fun s' _ r => InMessage clock s.cache fqdn s'.msg r) ?_ ?_ ?_ ?_ ?_
  · exact fun x => ⟨Kept.refl _ _, .refl _⟩
  · exact fun x y z h h' => ⟨h.kept.trans h'.kept, h.grows.trans h'.grows⟩
  · exact fun s b key r hr hdead => ⟨Kept.pop hr hdead, .refl _⟩
  · exact fun x y r hr hxy => hr.of_kept (Kept.refl _ _) hxy.grows
  · intro s₁ b₁ key r hr hext
    by_cases hns : ∃ host, r.data = some (.ns host)
    · obtain ⟨host, hdata⟩ := hns
      obtain ⟨s₂, rs, hrun, hkept, hmsg, hall, hothers⟩ :=
        @addresses_spec clock { s₁ with reads := s₁.reads + 1 } host
      -- Only records of addresses are dropped in between.
      have hplain₁ := hplain.of_kept hext.kept
      have hsame : s₂.cache.recordItems path t = s₁.cache.recordItems path t :=
        hothers path t (fun ht => hplain₁ .a key r (.inl rfl) (ht ▸ hr) host hdata)
          (fun ht => hplain₁ .aaaa key r (.inr rfl) (ht ▸ hr) host hdata)
      have hfound : ∀ a, IsAddress clock s.cache host a → a ∈ rs :=
        fun a ha => hall a (ha.of_kept hext.kept)
      have hgrows : s₁.msg.Grows s₂.msg := hmsg ▸ .refl _
      cases rs with
      | nil =>
        refine ⟨s₂, b₁, by simp only [qtypeBody, hdata, hrun], ⟨hkept, hgrows⟩, hsame, ?_⟩
        simp only [InMessage, hdata]
        exact fun ⟨a, ha⟩ => absurd (hfound a ha) List.not_mem_nil
      | cons a rs =>
        refine ⟨{ s₂ with msg := { s₂.msg with
            additionalRecords := s₂.msg.additionalRecords ++ a :: rs
            namservers := s₂.msg.namservers ++ [r] } }, true,
          by simp only [qtypeBody, hdata, hrun], ⟨hkept, ?_⟩, hsame, ?_⟩
        · exact hgrows.trans ⟨List.prefix_refl _, List.prefix_append _ _, List.prefix_append _ _⟩
        · simp only [InMessage, hdata]
          exact fun _ => ⟨List.mem_append_right _ (List.mem_singleton_self _),
            fun a' ha' => List.mem_append_right _ (hfound a' ha')⟩
    · have hplainData : ∀ host, r.data ≠ some (.ns host) := fun host h => hns ⟨host, h⟩
      refine ⟨{ s₁ with
        reads := s₁.reads + 1 + 1
        msg := { s₁.msg with answers := s₁.msg.answers ++ [r.copyNamed (clock (s₁.reads + 1)) fqdn] } },
        true, ?_, ⟨Kept.refl _ _, ?_⟩, rfl, ?_⟩
      · unfold qtypeBody
        split
        · next host hdata => exact absurd hdata (hplainData host)
        · rfl
      · exact ⟨List.prefix_append _ _, List.prefix_refl _, List.prefix_refl _⟩
      · unfold InMessage
        split
        · next host hdata => exact absurd hdata (hplainData host)
        · exact ⟨_, List.mem_append_right _ (List.mem_singleton_self _)⟩

/-- The loop over the types. -/
theorem forTypes_qtype {ts : List (Option RecordType)} (hany : some .any ∉ ts)
    (hplain : AddressesPlain s.cache path) (b : Bool) :
    ∃ s' b', forTypes clock path (qtypeBody clock fqdn) s b ts = some (s', b') ∧
      Adds clock (s, b) (s', b') ∧ ∀ t ∈ ts, ∀ i ∈ s.cache.recordItems path t, Alive clock i.2 →
        InMessage clock s.cache fqdn s'.msg i.2 := by
  induction ts generalizing s b with
  | nil => exact ⟨s, b, rfl, ⟨Kept.refl _ _, .refl _⟩, fun t ht => absurd ht List.not_mem_nil⟩
  | cons t ts ih =>
    have ht : t ≠ some .any := fun h => hany (h ▸ List.mem_cons_self)
    have hts : some .any ∉ ts := fun h => hany (List.mem_cons_of_mem _ h)
    obtain ⟨s₁, b₁, hrun₁, hadds₁, hall₁⟩ := @forRecords_qtype clock path t s fqdn hplain b
    obtain ⟨s₂, b₂, hrun₂, hadds₂, hall₂⟩ := ih hts (hplain.of_kept hadds₁.kept) b₁
    refine ⟨s₂, b₂, ?_, ⟨hadds₁.kept.trans hadds₂.kept, hadds₁.grows.trans hadds₂.grows⟩, ?_⟩
    · rw [forTypes, if_neg ht, hrun₁]
      exact hrun₂
    · intro u hu i hi halive
      rcases List.mem_cons.mp hu with rfl | hu
      · exact (hall₁ i hi halive).of_kept (Kept.refl _ _) hadds₂.grows
      · exact (hall₂ u hu i (hadds₁.kept.kept _ _ i hi halive) halive).of_kept hadds₁.kept (.refl _)

/-- **What is asked for at a name comes to be in the message.** -/
theorem addCacheQtype_spec {recordType : RecordType}
    (hplain : AddressesPlain s.cache (s.cache.pathOf fqdn))
    (hany : recordType = .any → some .any ∉ s.cache.typeKeys (s.cache.pathOf fqdn)) :
    ∃ s' b, addCacheQtype clock s fqdn recordType = some (s', b) ∧
      Kept (Alive clock) s.cache s'.cache ∧ s.msg.Grows s'.msg ∧
      (recordType ≠ .cname → ∀ t, recordType = .any ∨ t = some recordType →
        ∀ i ∈ s.cache.recordItems (s.cache.pathOf fqdn) t, Alive clock i.2 →
          InMessage clock s.cache fqdn s'.msg i.2) := by
  unfold addCacheQtype
  split
  · next hcname =>
    exact ⟨s, false, rfl, Kept.refl _ _, .refl _, fun h => absurd hcname h⟩
  · next hcname =>
    by_cases hrecord : recordType = .any
    · subst hrecord
      obtain ⟨s₁, b₁, hrun, hadds, hall⟩ := @forTypes_qtype clock _ s fqdn _ (hany rfl) hplain false
      have hnone : s₁.cache.recordKeys (s.cache.pathOf fqdn) (some .any) = [] := by
        rw [CacheNode.recordKeys_eq, List.map_eq_nil_iff, List.eq_nil_iff_forall_not_mem]
        exact fun i hi => hany rfl (CacheNode.mem_typeKeys ((hadds.kept.sub _ _).subset hi))
      refine ⟨s₁, b₁, ?_, hadds.kept, hadds.grows, fun _ t _ i hi halive => ?_⟩
      · exact forQuery_any hrun hnone
      · exact hall t (CacheNode.mem_typeKeys hi) i hi halive
    · obtain ⟨s₁, b₁, hrun, hadds, hall⟩ :=
        @forRecords_qtype clock (s.cache.pathOf fqdn) (some recordType) s fqdn hplain false
      refine ⟨s₁, b₁, ?_, hadds.kept, hadds.grows, fun _ t ht i hi halive => ?_⟩
      · rw [forQuery_eq hrecord, hrun]
      · obtain rfl := ht.resolve_left hrecord
        exact hall i hi halive

end Search

/-! ## 3. The loop ends -/

namespace CacheNode

variable {c c' : CacheNode} {path : List String} {t : Option RecordType}
  {i : Option RecordData × Record}

theorem has_of_mem_recordItems (hi : i ∈ c.recordItems path t) : c.has path = true := by
  unfold recordItems at hi
  unfold Trie.has
  cases hv : c.get? path with
  | none => simp [hv] at hi
  | some v => rfl

/-- The name that a record of an alias leads to. -/
def target (r : Record) : Option String :=
  match r.data with
  | some (.cname name) => some name
  | _ => none

/-- Only finitely many names have records leading to them. -/
theorem exists_targets (c : CacheNode) : ∃ targets : Finset String,
    ∀ path t key r name, (key, r) ∈ c.recordItems path t → r.data = some (.cname name) →
      t = some .cname → name ∈ targets := by
  obtain ⟨paths, hpaths⟩ := Trie.exists_paths c
  refine ⟨(paths.flatMap fun p => (c.recordItems p (some .cname)).filterMap
    fun i => target i.2).toFinset, ?_⟩
  rintro path t key r name hr hdata rfl
  refine List.mem_toFinset.mpr (List.mem_flatMap.mpr ⟨path, hpaths path ?_, ?_⟩)
  · exact has_of_mem_recordItems hr
  · exact List.mem_filterMap.mpr ⟨(key, r), hr, by simp only [target, hdata]⟩

end CacheNode

namespace Search

open CacheNode (Kept)

variable {clock : ℕ → Rat} {s s' : Search} {fqdn : String}

/-- Whatever the clock shows, a name that comes next is in a record that was there. -/
theorem forRecords_cname {path : List String} {t : Option RecordType} {keys : List (Option RecordData)}
    {o o' : Option String}
    (h : forRecords clock path t (cnameBody clock fqdn) s o keys = some (s', o')) :
    Kept (fun _ => False) s.cache s'.cache ∧ ∀ name, o' = some name →
      o = some name ∨ ∃ key r, (key, r) ∈ s.cache.recordItems path t ∧ r.data = some (.cname name) := by
  induction keys generalizing s o with
  | nil =>
    obtain ⟨rfl, rfl⟩ := Prod.mk.inj (Option.some.inj h)
    exact ⟨Kept.refl _ _, fun name hname => .inl hname⟩
  | cons key keys ih =>
    unfold forRecords at h
    split at h
    · cases h
    · next r hheld =>
      have hr := CacheNode.held_eq_some_iff.mp hheld
      dsimp only at h
      split at h
      · by_cases hcname : ∃ name, r.data = some (.cname name)
        · obtain ⟨name, hdata⟩ := hcname
          simp only [cnameBody, hdata, Option.some.injEq, Prod.mk.injEq] at h
          obtain ⟨rfl, rfl⟩ := h
          exact ⟨Kept.refl _ _, fun _ hname => .inr ⟨key, r, hr, Option.some.inj hname ▸ hdata⟩⟩
        · rw [cnameBody_of_ne fun name hdata => hcname ⟨name, hdata⟩] at h
          obtain ⟨hkept, hname⟩ := ih h
          exact ⟨hkept, fun name hs' => .inr ((hname name hs').resolve_left nofun)⟩
      · obtain ⟨hkept, hname⟩ := ih h
        have hpop : Kept (fun _ => False) s.cache (s.cache.pop path t key) := Kept.pop hr id
        refine ⟨hpop.trans hkept, fun name hs' => (hname name hs').imp_right ?_⟩
        exact fun ⟨key, r, hmem, hdata⟩ => ⟨key, r, (hpop.sub _ _).subset hmem, hdata⟩

/-- **Each turn of the loop goes on with one of finitely many names, or with none.** -/
theorem nextName_mem {c : CacheNode} {targets : Finset String} {o : Option String}
    (htargets : ∀ path t key r name, (key, r) ∈ c.recordItems path t → r.data = some (.cname name) →
      t = some .cname → name ∈ targets)
    (hkept : Kept (fun _ => False) c s.cache) (h : nextName clock s fqdn = some (s', o)) :
    Kept (fun _ => False) c s'.cache ∧ ∀ name ∈ o, name ∈ targets := by
  unfold nextName addCacheCname at h
  rw [forQuery_eq (by decide), Option.map_eq_some_iff] at h
  obtain ⟨⟨s₁, cname⟩, hrun, heq⟩ := h
  obtain ⟨rfl, rfl⟩ := Prod.mk.inj heq
  obtain ⟨hkept', hname⟩ := forRecords_cname hrun
  refine ⟨hkept.trans hkept', fun name hmem => ?_⟩
  obtain ⟨key, r, hr, hdata⟩ := (hname name (Option.mem_filter_iff.mp hmem).1).resolve_left nofun
  exact htargets _ _ key r name ((hkept.sub _ _).subset hr) hdata rfl

/-- **The loop ends, whatever is in the cache.** -/
theorem exists_queryCache (clock : ℕ → Rat) (zoneDomains : List String) (s : Search) (fqdn : String)
    (recordType : RecordType) :
    ∃ limit e, ∀ n ≥ limit, queryCache clock zoneDomains n s fqdn recordType = some e := by
  obtain ⟨targets, htargets⟩ := CacheNode.exists_targets s.cache
  obtain ⟨limit, e, he⟩ := Chase.exists_chase
    (I := fun s' : Search => Kept (fun _ => False) s.cache s'.cache)
    (fun s' x s'' o hI hs' => nextName_mem htargets hI hs') (Kept.refl _ _)
    List.nodup_nil (fun y hy => absurd hy List.not_mem_nil) fqdn
  refine ⟨limit, e.bind (answer clock zoneDomains recordType), fun n hn => ?_⟩
  rw [queryCache, Chase.chase_mono he hn]
  rfl

end Search

/-! ## 4. Chains -/

/-- A record of a chain, the name that it belongs to, and the one it leads to. -/
structure Link where
  fqdn : String
  record : Record
  cname : String

/-- A chain of records that are alive, from a name to its end. -/
inductive Chain (clock : ℕ → Rat) (c : CacheNode) : String → List Link → String → Prop
  | done {x : String} (h : Ends clock c x) : Chain clock c x [] x
  | link {x y z : String} {r : Record} {links : List Link} (h : LeadsTo clock c x r y) (hne : y ≠ "")
      (rest : Chain clock c y links z) : Chain clock c x (⟨x, r, y⟩ :: links) z

section Chain

variable {clock : ℕ → Rat} {c : CacheNode} {x y y' z : String} {r r' : Record}

/-- What is gone past is not alive, or leads nowhere. -/
theorem Passed.not_leads (h : Passed clock r) (halive : Alive clock r) : r.data ≠ some (.cname y) :=
  h.elim (fun hdead => absurd ((halive 0).symm.trans (hdead 0)) (by decide)) fun h => h y

open Classical in
/-- The record that leads on is the first that is not gone past. -/
theorem LeadsTo.find?_eq (h : LeadsTo clock c x r y) : ∃ key,
    (c.recordItems (c.pathOf x) (some .cname)).find? (fun i => !decide (Passed clock i.2)) =
      some (key, r) ∧ r.data = some (.cname y) := by
  obtain ⟨before, key, behind, hitems, halive, hdata, hpassed⟩ := h
  refine ⟨key, List.find?_eq_some_iff_append.mpr ⟨?_, before, behind, hitems, fun i hi => ?_⟩, hdata⟩
  · simpa using fun h : Passed clock r => h.not_leads halive hdata
  · simpa using hpassed i hi

/-- At most one record leads on. -/
theorem LeadsTo.unique (h : LeadsTo clock c x r y) (h' : LeadsTo clock c x r' y') : y = y' := by
  obtain ⟨key, hfind, hdata⟩ := h.find?_eq
  obtain ⟨key', hfind', hdata'⟩ := h'.find?_eq
  obtain ⟨-, rfl⟩ := Prod.mk.inj (Option.some.inj (hfind.symm.trans hfind'))
  exact RecordData.cname.inj (Option.some.inj (hdata.symm.trans hdata'))

theorem LeadsTo.not_ends (h : LeadsTo clock c x r y) : ¬ Ends clock c x := by
  obtain ⟨before, key, behind, hitems, halive, hdata, -⟩ := h
  intro hends
  have hpassed := hends (key, r) (hitems ▸ List.mem_append_right _ List.mem_cons_self)
  exact hpassed.not_leads halive hdata

/-- Chains from one name are equally long. -/
theorem Chain.length_eq {links links' : List Link} {z' : String} (h : Chain clock c x links z)
    (h' : Chain clock c x links' z') : links.length = links'.length := by
  induction h generalizing links' z' with
  | done hends =>
    cases h' with
    | done => rfl
    | link hleads => exact absurd hends hleads.not_ends
  | link hleads _ _ ih =>
    cases h' with
    | done hends => exact absurd hends hleads.not_ends
    | link hleads' _ rest' =>
      obtain rfl := hleads.unique hleads'
      rw [List.length_cons, List.length_cons, ih rest']

/-- From each name on a chain it goes on to the end. -/
theorem Chain.exists_suffix {links : List Link} (h : Chain clock c x links z)
    (hy : y ∈ links.map Link.cname) : ∃ links', Chain clock c y links' z ∧ links'.length < links.length := by
  induction h with
  | done => exact absurd hy List.not_mem_nil
  | link _ _ rest ih =>
    rcases List.mem_cons.mp hy with rfl | hy
    · exact ⟨_, rest, Nat.lt_succ_self _⟩
    · obtain ⟨links', hchain, hlt⟩ := ih hy
      exact ⟨links', hchain, Nat.lt_succ_of_lt hlt⟩

/-- **A chain that ends has no repetitions.** -/
theorem Chain.nodup {links : List Link} (h : Chain clock c x links z) :
    (links.map Link.cname).Nodup := by
  induction h with
  | done => exact List.nodup_nil
  | link _ _ rest ih =>
    refine List.nodup_cons.mpr ⟨fun hmem => ?_, ih⟩
    obtain ⟨links', hchain, hlt⟩ := rest.exists_suffix hmem
    exact absurd (rest.length_eq hchain) (Nat.ne_of_gt hlt)

end Chain

/-! ## 5. The answer -/

/-- What is found at the end of a chain. -/
structure Found (clock : ℕ → Rat) (c : CacheNode) (z : String) (recordType : RecordType)
    (m : DnsMessage) : Prop where
  cnames : ∀ i ∈ c.recordItems (c.pathOf z) (some .cname), Alive clock i.2 → m.Answers z i.2
  records : recordType ≠ .cname → ∀ t, recordType = .any ∨ t = some recordType →
    ∀ i ∈ c.recordItems (c.pathOf z) t, Alive clock i.2 → InMessage clock c z m i.2

namespace Search

open CacheNode (Kept)

variable {clock : ℕ → Rat} {c : CacheNode} {s : Search} {x z : String} {links : List Link}

/-- Along a chain every record comes to be in the answer. -/
theorem exists_path (h : Chain clock c x links z) (hkept : Kept (Alive clock) c s.cache) :
    ∃ s', Chase.Path (nextName clock) s x (links.map Link.cname) s' z ∧
      Kept (Alive clock) c s'.cache ∧ s.msg.Grows s'.msg ∧
      (∀ l ∈ links, s'.msg.Answers l.fqdn l.record) ∧
      ∀ i ∈ c.recordItems (c.pathOf z) (some .cname), Alive clock i.2 → s'.msg.Answers z i.2 := by
  induction h generalizing s with
  | @done x hends =>
    obtain ⟨s₁, hrun, hkept₁, hgrows, hall⟩ := addCacheCname_ends (hends.of_kept hkept)
    refine ⟨s₁, .done ?_, hkept.trans hkept₁, hgrows, fun l hl => absurd hl List.not_mem_nil, ?_⟩
    · rw [nextName, hrun]
      rfl
    · intro i hi halive
      rw [hkept.pathOf_eq] at hall
      exact hall i (hkept.kept _ _ i hi halive) halive
  | @link x y z r links hleads hne rest ih =>
    obtain ⟨s₁, hrun, hkept₁, hgrows₁, hanswers⟩ := addCacheCname_leads (hleads.of_kept hkept)
    obtain ⟨s₂, hpath, hkept₂, hgrows₂, hlinks, hend⟩ := ih (hkept.trans hkept₁)
    refine ⟨s₂, .step ?_ hpath, hkept₂, hgrows₁.trans hgrows₂, fun l hl => ?_, hend⟩
    · simp [nextName, hrun, Option.filter, hne]
    · rcases List.mem_cons.mp hl with rfl | hl
      · exact hanswers.grows hgrows₂
      · exact hlinks l hl

/-- `query_cache` behind a chain. -/
theorem answer_spec (zoneDomains : List String) {recordType : RecordType}
    (hplain : AddressesPlain s.cache (s.cache.pathOf z))
    (hany : recordType = .any → some .any ∉ s.cache.typeKeys (s.cache.pathOf z)) :
    ∃ s' has, answer clock zoneDomains recordType ⟨s, z, false⟩ = some (s', has, z) ∧
      s.msg.Grows s'.msg ∧ (recordType ≠ .cname → ∀ t, recordType = .any ∨ t = some recordType →
        ∀ i ∈ s.cache.recordItems (s.cache.pathOf z) t, Alive clock i.2 →
          InMessage clock s.cache z s'.msg i.2) := by
  obtain ⟨s₁, has, hrun, -, hgrows, hall⟩ := @addCacheQtype_spec clock s z recordType hplain hany
  cases hzone : inZone zoneDomains z with
  | false => exact ⟨s₁, has, by simp [answer, hrun, hzone], hgrows, hall⟩
  | true =>
    -- The header is all that changes.
    obtain ⟨m, hm, hsame⟩ : ∃ m, answer clock zoneDomains recordType ⟨s, z, false⟩ =
        some ({ s₁ with msg := m }, true, z) ∧ s₁.msg.Grows m := by
      cases has with
      | false =>
        exact ⟨{ s₁.msg with resultCode := 3, authoritativeAnswer := 1 },
          by simp [answer, hrun, hzone], List.prefix_refl _, List.prefix_refl _, List.prefix_refl _⟩
      | true =>
        exact ⟨{ s₁.msg with authoritativeAnswer := 1 },
          by simp [answer, hrun, hzone], List.prefix_refl _, List.prefix_refl _, List.prefix_refl _⟩
    refine ⟨_, true, hm, hgrows.trans hsame, fun h t ht i hi halive => ?_⟩
    exact (hall h t ht i hi halive).of_kept (Kept.refl _ _) hsame

/-- The loop ends; and the answer has every record of a chain that ends, and what is asked for there, if
none of the records there is filed under a type that is not its own. -/
structure FollowsChains (clock : ℕ → Rat) (zoneDomains : List String) (s : Search) (fqdn : String)
    (recordType : RecordType) : Prop where
  ends : ∃ limit e, ∀ n ≥ limit, queryCache clock zoneDomains n s fqdn recordType = some e
  follows : ∀ links z, Chain clock s.cache fqdn links z →
    AddressesPlain s.cache (s.cache.pathOf z) →
    (recordType = .any → some .any ∉ s.cache.typeKeys (s.cache.pathOf z)) →
    ∃ limit s' has, (∀ n ≥ limit,
        queryCache clock zoneDomains n s fqdn recordType = some (some (s', has, z))) ∧
      (∀ l ∈ links, s'.msg.Answers l.fqdn l.record) ∧
      Found clock s.cache z recordType s'.msg

theorem followsChains (clock : ℕ → Rat) (zoneDomains : List String) (s : Search) (fqdn : String)
    (recordType : RecordType) : FollowsChains clock zoneDomains s fqdn recordType := by
  refine ⟨exists_queryCache clock zoneDomains s fqdn recordType, fun links z hchain hplain hany => ?_⟩
  obtain ⟨s₁, hpath, hkept, -, hlinks, hcnames⟩ := exists_path hchain (Kept.refl _ s.cache)
  have hloop := hpath.chase_eq hchain.nodup fun y _ => List.not_mem_nil
  obtain ⟨s₂, has, hrun, hgrows₂, hall⟩ := @answer_spec clock s₁ z zoneDomains recordType
    (hkept.pathOf_eq z ▸ hplain.of_kept hkept)
    fun h => by rw [hkept.pathOf_eq, hkept.types]; exact hany h
  refine ⟨(links.map Link.cname).length + 1, s₂, has, fun n hn => ?_,
    fun l hl => (hlinks l hl).grows hgrows₂, ?_, ?_⟩
  · rw [queryCache, Chase.chase_mono hloop hn]
    exact congrArg some hrun
  · exact fun i hi halive => (hcnames i hi halive).grows hgrows₂
  · intro hcname t ht i hi halive
    rw [hkept.pathOf_eq] at hall
    exact (hall hcname t ht i (hkept.kept _ _ i hi halive) halive).of_kept hkept (.refl _)

/-- A name server without an address is in no section of the message. -/
theorem nameserver_without_address :
    let r : Record := ⟨.queryType .response, "a", some .ns, 1, 300, some (.ns "b"), 0⟩
    let c : CacheNode := CacheNode.init.addRecord 0 r
    let m : DnsMessage := ⟨.response, 0, 0, 0, 0, 0, 0, 0, [], [], [], []⟩
    Chain (fun _ => 0) c "a" [] "a" ∧ (r.data, r) ∈ c.recordItems (c.pathOf "a") (some .ns) ∧
      Alive (fun _ => 0) r ∧
      (queryCache (fun _ => 0) [] 1 ⟨c, 0, m⟩ "a" .ns).map (Option.map fun x =>
        (x.1.msg.answers, x.1.msg.namservers, x.1.msg.additionalRecords)) = some (some ([], [], [])) := by
  intro r c m
  have hpath : c.pathOf "a" = ["a"] := by decide +kernel
  have hcnames : c.recordItems ["a"] (some .cname) = [] := by decide +kernel
  have hfresh : CacheValue.checkTtl 0 r = true := by decide +kernel
  refine ⟨.done fun i hi => ?_, by decide +kernel, fun _ => hfresh, by decide +kernel⟩
  rw [hpath, hcnames] at hi
  exact absurd hi List.not_mem_nil

end Search

end Dns
end Hedra
