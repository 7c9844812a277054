/-
# One encoder, one decoder

Blocks that one `Encoder` makes (`core/engines/types/common/encoder.py`), decoded one after the
other by one `Decoder` (`decoder.py`), with size changes of the encoder's table between the blocks
and calls of `get_by_index` on other tables anywhere.

Two things break the agreement.  `get_by_index` remembers what an index was, and the dynamic table
moves under it.  And a table that is set to the size it has says that it was not resized, so a size
change before that is not sent.  Where neither happens the tables stay together, and every block is
decoded to the list that was encoded (`always_agrees`).

Between encoder and decoder stands the decoder of the standard (`Lib.Hpack`): the encoder is
followed by it (`HeaderCodec.lean`), and it by the decoder, as long as the cache is not stale.
-/
import Hedra.Lib.Machine
import Hedra.Http2.HeaderCodec

namespace Hedra
namespace Http2

open Lib (LruCache)
open Lib.Hpack (Octets Field Literal Name Rep)
open Lib.Machine (run Along Always)

/-! ## 1. The condition -/

/-- What the encoder refers to for a header: an index, and whether the whole entry is meant. -/
def HeaderTable.reference (t : HeaderTable) (f : Field) : Option (Nat × Bool) :=
  (t.search f.1 f.2).map fun m => (m.1, decide (m.2.2.getD [] ≠ []))

namespace Decoder

/-- A dynamic entry that is asked for is not remembered, or as it is now: as a whole, or its name
where only that is read. -/
def NotStale (d : Decoder) (i : Nat) (whole : Bool) : Prop :=
  staticTableLength < i → ∀ r, d.cache.remembered (d.id, i) = some r →
    if whole then r = d.headerTable.getByIndex i
    else r.map Prod.fst = (d.headerTable.getByIndex i).map Prod.fst

/-- The decoder after a header, as long as it agrees with the encoder. -/
def follow (d : Decoder) (t : HeaderTable) (f : Field) : Decoder :=
  match t.reference f with
  | none => d.addEntry f
  | some (i, true) => d.asked i
  | some (i, false) => (d.asked i).addEntry f

/-- No header of a block refers to a stale entry. -/
def Fresh (d : Decoder) (e : Encoder) (huffman : Bool) : List Header → Prop
  | [] => True
  | header :: headers =>
    (∀ r ∈ e.headerTable.reference header.field, d.NotStale r.1 r.2) ∧
    (d.follow e.headerTable header.field).Fresh (e.add header.field false huffman).2 huffman headers

/-- The size changes of a block. -/
def resizeAll (d : Decoder) (sizes : List Nat) : Decoder := sizes.foldl setHeaderTableSize d

end Decoder

/-! ## 2. The machine -/

structure Codec where
  encoder : Encoder
  decoder : Decoder
  /-- What was encoded, and what came out. -/
  blocks : List (List Field × Except HpackError (List Field))

namespace Codec

/-- A new encoder, and a new decoder whose table has this identity. -/
def init (id : TableId) : Codec := ⟨Encoder.init, ⟨id, HeaderTable.init, LruCache.empty⟩, []⟩

inductive Event
  | resize (size : Nat)
  | block (headers : List Header) (huffman : Bool)
  /-- `get_by_index` of another table. -/
  | lookup (id : TableId) (index : Nat) (result : Option Field)

/-- A block is encoded and decoded. -/
def transmit (c : Codec) (headers : List Header) (huffman : Bool) : Codec :=
  let sent := c.encoder.encode headers huffman
  let got := c.decoder.decode false sent.1
  ⟨sent.2, got.1, c.blocks ++ [(headers.map Header.field, got.2)]⟩

def step (c : Codec) : Event → Option Codec
  | .resize size => some { c with encoder := c.encoder.setHeaderTableSize size }
  | .block headers huffman => some (c.transmit headers huffman)
  | .lookup id index result =>
    if id = c.decoder.id then none
    else some { c with decoder := { c.decoder with cache := c.decoder.cache.touch (id, index) result } }

/-- Each decoded list equals the list that was encoded. -/
def Agrees (c : Codec) : Prop := ∀ b ∈ c.blocks, b.2 = .ok b.1

/-- No size change waits without being announced, and the block refers to no stale entry. -/
def Announced (c : Codec) (headers : List Header) (huffman : Bool) : Prop :=
  (c.encoder.tableSizeChanges ≠ [] → c.encoder.headerTable.resized = true) ∧
  (c.decoder.resizeAll c.encoder.tableSizeChanges).Fresh c.encoder.flushSizes.2 huffman headers

/-- The condition on the blocks of a run. -/
def StepAnnounced (c : Codec) : Event → Codec → Prop
  | .block headers huffman, _ => c.Announced headers huffman
  | _, _ => True

end Codec

/-! ## 3. A block -/

namespace Decoder

/-- What is remembered of static entries is right: they never change. -/
def StaticKnown (d : Decoder) : Prop := ∀ k r, d.cache.remembered k = some r → k.1 = d.id → 0 < k.2 →
  k.2 ≤ staticTableLength → r = staticTable[k.2 - 1]?

variable {d : Decoder} {t : HeaderTable} {i : Nat}

theorem staticKnown_asked (h : d.StaticKnown) (i : Nat) : (d.asked i).StaticKnown := by
  refine LruCache.touch_forall h fun _ hpos hle => ?_
  have hlt : i - 1 < staticTableLength := by
    change 0 < i at hpos
    change i ≤ staticTableLength at hle
    omega
  rw [HeaderTable.getByIndex, if_neg (Nat.ne_of_gt hpos), if_pos hlt]

/-- Asked for an entry that is not stale, as a whole or for its name. -/
theorem getByIndex_of_notStale (hstatic : d.StaticKnown) (hpos : 0 < i) {whole : Bool}
    (hfresh : d.NotStale i whole) : (whole = true → d.getByIndex i = d.headerTable.getByIndex i) ∧
    (d.getByIndex i).map Prod.fst = (d.headerTable.getByIndex i).map Prod.fst := by
  have hanswer : d.getByIndex i = (d.cache.remembered (d.id, i)).getD (d.headerTable.getByIndex i) := rfl
  cases hremembered : d.cache.remembered (d.id, i) with
  | none =>
    rw [hremembered] at hanswer
    exact ⟨fun _ => hanswer, by rw [hanswer]; rfl⟩
  | some r =>
    rw [hremembered] at hanswer
    replace hanswer : d.getByIndex i = r := hanswer
    by_cases hi : staticTableLength < i
    · have hr := hfresh hi r hremembered
      cases whole with
      | true =>
        replace hr : r = d.headerTable.getByIndex i := hr
        exact ⟨fun _ => hanswer.trans hr, by rw [hanswer, hr]⟩
      | false =>
        replace hr : r.map Prod.fst = _ := hr
        exact ⟨fun h => absurd h (by decide), by rw [hanswer, hr]⟩
    · have hr : r = staticTable[i - 1]? := hstatic _ r hremembered rfl hpos (Nat.le_of_not_lt hi)
      have hget : d.headerTable.getByIndex i = staticTable[i - 1]? := by
        rw [HeaderTable.getByIndex, if_neg (Nat.ne_of_gt hpos), if_pos (by omega)]
      exact ⟨fun _ => by rw [hanswer, hr, hget], by rw [hanswer, hr, hget]⟩

/-- One header: decoded as it was encoded, and the tables stay together. -/
theorem decodeStep_add {e : Encoder} {f : Field} {huffman : Bool}
    (hF : Follows e.headerTable d.headerTable.abstract) (hstatic : d.StaticKnown)
    (hfresh : ∀ r ∈ e.headerTable.reference f, d.NotStale r.1 r.2) :
    (∃ r : Rep, (e.add f false huffman).1 = r.serialize ∧ ∀ rest,
      d.decodeStep false (r.serialize ++ rest)
        = (d.follow e.headerTable f, .ok (some f, r.serialize.length))) ∧
    Follows (e.add f false huffman).2.headerTable
      (d.follow e.headerTable f).headerTable.abstract ∧
    (d.follow e.headerTable f).StaticKnown := by
  have hadd : Follows (e.addEntry f).headerTable (d.addEntry f).headerTable.abstract := by
    change Follows (e.headerTable.add f) (d.headerTable.add f).abstract
    rw [HeaderTable.abstract_add]
    exact hF.add f
  rcases e.add_cases f huffman with ⟨i, hpos, hsearch, hne, hlookup, hout⟩ |
    ⟨i, p, v, hpos, hsearch, hp, hlookup, hout⟩ | ⟨hsearch, hout⟩
  · have href : e.headerTable.reference f = some (i, true) := by
      simp [HeaderTable.reference, hsearch, hne]
    have hfollow : d.follow e.headerTable f = d.asked i := by simp [follow, href]
    have hget : d.getByIndex i = some f := by
      rw [(getByIndex_of_notStale hstatic hpos (hfresh _ href)).1 rfl,
        HeaderTable.getByIndex_eq_lookup _ hpos, hF.lookup hlookup]
    rw [hfollow, hout]
    refine ⟨⟨.indexed i, rfl, fun rest => ?_⟩, hF, staticKnown_asked hstatic i⟩
    rw [decodeStep_indexed, hget]
  · have href : e.headerTable.reference f = some (i, false) := by
      simp [HeaderTable.reference, hsearch, hp]
    have hfollow : d.follow e.headerTable f = (d.asked i).addEntry f := by simp [follow, href]
    have hname := (getByIndex_of_notStale hstatic hpos (hfresh _ href)).2
    rw [HeaderTable.getByIndex_eq_lookup _ hpos, hF.lookup hlookup] at hname
    obtain ⟨entry, hget, hentry⟩ := Option.map_eq_some_iff.mp hname
    replace hentry : entry.1 = f.1 := hentry
    rw [hfollow, hout]
    refine ⟨⟨.field .incremental (.index i hpos) (literalOf huffman f.2), rfl, fun rest => ?_⟩,
      hadd, staticKnown_asked hstatic i⟩
    rw [decodeStep_indexedName d hpos hget, hentry]
  · have href : e.headerTable.reference f = none := by
      simp [HeaderTable.reference, hsearch]
    have hfollow : d.follow e.headerTable f = d.addEntry f := by simp [follow, href]
    rw [hfollow, hout]
    exact ⟨⟨.field .incremental (.literal (literalOf huffman f.1)) (literalOf huffman f.2), rfl,
      fun rest => d.decodeStep_literal huffman f.1 f.2 rest⟩, hadd, hstatic⟩

/-- The decoder after the headers of a block. -/
def followAll (d : Decoder) (e : Encoder) (huffman : Bool) : List Header → Decoder
  | [] => d
  | header :: headers => (d.follow e.headerTable header.field).followAll
      (e.add header.field false huffman).2 huffman headers

/-- The headers of a block; as many rounds as there are headers are enough. -/
theorem decodeLoop_addAll {d : Decoder} {e : Encoder} {huffman : Bool} {headers : List Header}
    {n : Nat} (hn : headers.length ≤ n) (hF : Follows e.headerTable d.headerTable.abstract)
    (hstatic : d.StaticKnown) (hfresh : d.Fresh e huffman headers) :
    decodeLoop false n d (e.addAll huffman headers).1
      = (d.followAll e huffman headers, .ok (headers.map Header.field)) ∧
    Follows (e.addAll huffman headers).2.headerTable
      (d.followAll e huffman headers).headerTable.abstract ∧
    (d.followAll e huffman headers).StaticKnown := by
  induction headers generalizing d e n with
  | nil =>
    refine ⟨?_, hF, hstatic⟩
    cases n <;> rfl
  | cons header headers ih =>
    obtain ⟨m, rfl⟩ : ∃ m, n = m + 1 := Nat.exists_eq_add_one.mpr (Nat.lt_of_lt_of_le (by simp) hn)
    obtain ⟨⟨r, hr, hstep⟩, hF', hstatic'⟩ :=
      @decodeStep_add d e header.field huffman hF hstatic hfresh.1
    obtain ⟨hloop, hF'', hstatic''⟩ := ih (Nat.le_of_succ_le_succ hn) hF' hstatic' hfresh.2
    refine ⟨?_, hF'', hstatic''⟩
    have hbytes : (e.addAll huffman (header :: headers)).1 = r.serialize ++
        ((e.add header.field false huffman).2.addAll huffman headers).1 := by rw [← hr]; rfl
    rw [hbytes, decodeLoop_rep m (hstep _), hloop]
    rfl

/-- The size changes in front of them. -/
theorem decodeLoop_sizes (d : Decoder) (sizes : List Nat) (n : Nat) (rest : Octets) :
    decodeLoop false (sizes.length + n) d ((sizes.map Rep.resize).flatMap Rep.serialize ++ rest)
      = decodeLoop false n (d.resizeAll sizes) rest := by
  induction sizes generalizing d with
  | nil => simp [resizeAll]
  | cons size sizes ih =>
    have hfuel : (size :: sizes).length + n = sizes.length + n + 1 := by
      rw [List.length_cons, Nat.add_right_comm]
    rw [hfuel, List.map_cons, List.flatMap_cons, List.append_assoc,
      decodeLoop_rep _ (decodeStep_resize d size _), ih]
    have hmap : ∀ x : Except HpackError (List Field),
        x.map (fun headers => (none : Option Field).toList ++ headers) = x := by
      rintro (_ | _) <;> rfl
    rw [hmap]
    rfl

theorem staticKnown_resizeAll (h : d.StaticKnown) (sizes : List Nat) :
    (d.resizeAll sizes).StaticKnown := by
  induction sizes generalizing d with
  | nil => exact h
  | cons size sizes ih => exact ih (d := d.setHeaderTableSize size) h

end Decoder

/-! ## 4. A run -/

namespace Codec

/-- The tables stay together, once the waiting size changes are applied. -/
structure InStep (c : Codec) : Prop where
  agrees : c.Agrees
  follows : Follows c.encoder.headerTable
    (c.decoder.resizeAll c.encoder.tableSizeChanges).headerTable.abstract
  static : c.decoder.StaticKnown

theorem inStep_init (id : TableId) : (init id).InStep where
  agrees := fun b hb => by cases hb
  follows := Follows.init
  static := fun k r hr => by cases hr

theorem inStep_resize {c : Codec} (h : c.InStep) (size : Nat) :
    InStep { c with encoder := c.encoder.setHeaderTableSize size } where
  agrees := h.agrees
  static := h.static
  follows := by
    by_cases hsize : size = c.encoder.headerTable.maxsize
    · have hresized : (c.encoder.headerTable.setMaxsize size).resized = false := by simp [hsize]
      have habstract := c.encoder.headerTable.abstract_setMaxsize size
      have hself := Lib.Hpack.fit_eq_self c.encoder.headerTable.totalSize_le
      have hentries : (c.encoder.headerTable.setMaxsize size).dynamicEntries
          = c.encoder.headerTable.dynamicEntries := by
        have heq := congrArg Lib.Hpack.Table.entries habstract
        rw [hsize] at heq ⊢
        exact heq.trans hself
      have hmax : (c.encoder.headerTable.setMaxsize size).maxsize
          = c.encoder.headerTable.maxsize := by rw [HeaderTable.maxsize_setMaxsize, hsize]
      simp only [Encoder.setHeaderTableSize, hresized]
      exact ⟨by rw [hentries]; exact h.follows.entries, by rw [hmax]; exact h.follows.limit⟩
    · have hresized : (c.encoder.headerTable.setMaxsize size).resized = true := by simp [hsize]
      simp only [Encoder.setHeaderTableSize, hresized, if_true, Decoder.resizeAll,
        List.foldl_append, List.foldl_cons, List.foldl_nil]
      change Follows _ (HeaderTable.setMaxsize _ size).abstract
      rw [HeaderTable.abstract_setMaxsize]
      exact h.follows.setMaxsize size

theorem inStep_lookup {c : Codec} (h : c.InStep) {id : TableId} (hid : id ≠ c.decoder.id)
    (index : Nat) (result : Option Field) :
    InStep { c with decoder := { c.decoder with cache := c.decoder.cache.touch (id, index) result } }
    where
  agrees := h.agrees
  follows := by
    have hall : ∀ (d : Decoder) (cache : IndexCache) (sizes : List Nat),
        (({ d with cache := cache } : Decoder).resizeAll sizes).headerTable
          = (d.resizeAll sizes).headerTable := by
      intro d cache sizes
      induction sizes generalizing d with
      | nil => rfl
      | cons size sizes ih => exact ih (d.setHeaderTableSize size)
    rw [hall]
    exact h.follows
  static := LruCache.touch_forall h.static fun heq => absurd heq hid

theorem inStep_block {c : Codec} (h : c.InStep) {headers : List Header} {huffman : Bool}
    (hann : c.Announced headers huffman) : (c.transmit headers huffman).InStep := by
  obtain ⟨hpending, hfresh⟩ := hann
  have hflush : c.encoder.flushSizes.1 = (c.encoder.tableSizeChanges.map Rep.resize).flatMap
      Rep.serialize ∧ c.encoder.flushSizes.2.tableSizeChanges = [] ∧
      c.encoder.flushSizes.2.headerTable.abstract = c.encoder.headerTable.abstract := by
    by_cases hresized : c.encoder.headerTable.resized = true
    · simp [Encoder.flushSizes, hresized, Encoder.encodeTableSizeChange_eq]
    · have hnone : c.encoder.tableSizeChanges = [] := by
        by_contra hne
        exact hresized (hpending hne)
      simp [Encoder.flushSizes, hresized, hnone]
  obtain ⟨hbytes, hempty, habstract⟩ := hflush
  have hF : Follows c.encoder.flushSizes.2.headerTable
      (c.decoder.resizeAll c.encoder.tableSizeChanges).headerTable.abstract := by
    refine ⟨?_, ?_⟩
    · rw [show c.encoder.flushSizes.2.headerTable.dynamicEntries
        = c.encoder.headerTable.dynamicEntries from congrArg Lib.Hpack.Table.entries habstract]
      exact h.follows.entries
    · rw [show c.encoder.flushSizes.2.headerTable.maxsize
        = c.encoder.headerTable.maxsize from congrArg Lib.Hpack.Table.limit habstract]
      exact h.follows.limit
  have hencode : (c.encoder.encode headers huffman).1 = (c.encoder.tableSizeChanges.map
      Rep.resize).flatMap Rep.serialize ++ (c.encoder.flushSizes.2.addAll huffman headers).1 :=
    congrArg (· ++ (c.encoder.flushSizes.2.addAll huffman headers).1) hbytes
  obtain ⟨n, hlen, hfuel⟩ : ∃ n, headers.length ≤ n ∧ (c.encoder.encode headers huffman).1.length
      = (c.encoder.tableSizeChanges).length + n := by
    have hsizes := Lib.Hpack.length_le_serialize (c.encoder.tableSizeChanges.map Rep.resize)
    have hheaders := c.encoder.flushSizes.2.length_le_addAll huffman headers
    rw [List.length_map] at hsizes
    rw [hencode, List.length_append]
    exact ⟨_, by omega, (Nat.add_sub_cancel' (by omega)).symm⟩
  have hdecode : c.decoder.decode false (c.encoder.encode headers huffman).1
      = ((c.decoder.resizeAll c.encoder.tableSizeChanges).followAll c.encoder.flushSizes.2 huffman
        headers, .ok (headers.map Header.field)) := by
    rw [Decoder.decode, hfuel, hencode, Decoder.decodeLoop_sizes]
    exact (Decoder.decodeLoop_addAll hlen hF (Decoder.staticKnown_resizeAll h.static _) hfresh).1
  obtain ⟨-, hF', hstatic'⟩ := Decoder.decodeLoop_addAll hlen hF
    (Decoder.staticKnown_resizeAll h.static _) hfresh
  have hchanges : (c.encoder.encode headers huffman).2.tableSizeChanges = [] := by
    rw [← hempty]
    exact Encoder.tableSizeChanges_addAll _ _ _
  refine ⟨?_, ?_, ?_⟩
  · intro b hb
    rcases List.mem_append.mp hb with hb | hb
    · exact h.agrees b hb
    · obtain rfl := List.mem_singleton.mp hb
      rw [hdecode]
  · change Follows (c.encoder.encode headers huffman).2.headerTable (Decoder.headerTable
      (Decoder.resizeAll (c.decoder.decode false (c.encoder.encode headers huffman).1).1
        (c.encoder.encode headers huffman).2.tableSizeChanges)).abstract
    rw [hchanges, hdecode]
    exact hF'
  · change Decoder.StaticKnown (c.decoder.decode false (c.encoder.encode headers huffman).1).1
    rw [hdecode]
    exact hstatic'

/-- All that a step can do. -/
theorem step_cases {c c' : Codec} {ev : Event} (h : step c ev = some c') :
    (∃ size, ev = .resize size ∧ c' = { c with encoder := c.encoder.setHeaderTableSize size }) ∨
    (∃ headers huffman, ev = .block headers huffman ∧ c' = c.transmit headers huffman) ∨
    (∃ id index result, ev = .lookup id index result ∧ id ≠ c.decoder.id ∧
      c' = { c with decoder := { c.decoder with
        cache := c.decoder.cache.touch (id, index) result } }) := by
  cases ev with
  | resize size => exact .inl ⟨size, rfl, (Option.some.inj h).symm⟩
  | block headers huffman => exact .inr (.inl ⟨headers, huffman, rfl, (Option.some.inj h).symm⟩)
  | lookup id index result =>
    by_cases hid : id = c.decoder.id
    · rw [step, if_pos hid] at h
      cases h
    · rw [step, if_neg hid] at h
      exact .inr (.inr ⟨id, index, result, rfl, hid, (Option.some.inj h).symm⟩)

/-- **Agreement.**  In a run in which no block leaves a size change unannounced or refers to a stale
entry, every list is decoded as it was encoded. -/
theorem always_agrees (id : TableId) (events : List Event)
    (h : Along step StepAnnounced (init id) events) : Always step Agrees (init id) events := by
  refine Always.mono (fun c hc => InStep.agrees hc) (Along.always ?_ (inStep_init id) h)
  intro c ev c' hc hstep hann
  rcases step_cases hstep with ⟨size, rfl, rfl⟩ | ⟨headers, huffman, rfl, rfl⟩ |
    ⟨id, index, result, rfl, hid, rfl⟩
  · exact inStep_resize hc size
  · exact inStep_block hc hann
  · exact inStep_lookup hc hid index result

end Codec

namespace Decoder

instance (d : Decoder) (i : Nat) (whole : Bool) : Decidable (d.NotStale i whole) :=
  inferInstanceAs (Decidable (staticTableLength < i → ∀ r ∈ d.cache.remembered (d.id, i),
    if whole then r = d.headerTable.getByIndex i
    else r.map Prod.fst = (d.headerTable.getByIndex i).map Prod.fst))

instance decidableFresh : ∀ (d : Decoder) (e : Encoder) (huffman : Bool) (headers : List Header),
    Decidable (d.Fresh e huffman headers)
  | _, _, _, [] => isTrue trivial
  | d, e, huffman, header :: headers =>
    have : Decidable ((d.follow e.headerTable header.field).Fresh
      (e.add header.field false huffman).2 huffman headers) := decidableFresh _ _ _ _
    inferInstanceAs (Decidable ((∀ r ∈ e.headerTable.reference header.field, d.NotStale r.1 r.2) ∧
      (d.follow e.headerTable header.field).Fresh (e.add header.field false huffman).2 huffman
        headers))

end Decoder

namespace Codec

instance (c : Codec) (headers : List Header) (huffman : Bool) :
    Decidable (c.Announced headers huffman) :=
  inferInstanceAs (Decidable (_ ∧ _))

instance (c : Codec) (ev : Event) (c' : Codec) : Decidable (StepAnnounced c ev c') :=
  match ev with
  | .block headers huffman => inferInstanceAs (Decidable (c.Announced headers huffman))
  | .resize _ => isTrue trivial
  | .lookup _ _ _ => isTrue trivial

instance (c : Codec) : Decidable c.Agrees :=
  inferInstanceAs (Decidable (∀ b ∈ c.blocks, b.2 = .ok b.1))

/-- Two blocks with a smaller table between them; the second refers to an entry of the first. -/
theorem agrees_resized : Always step Agrees (init 7)
    [.block [⟨ascii ":method", ascii "GET", false⟩, ⟨ascii "a", ascii "1", true⟩] true,
      .resize 100, .block [⟨ascii "a", ascii "1", false⟩, ⟨ascii "a", ascii "2", false⟩] false] :=
  always_agrees 7 _ (by decide +kernel)

/-- Index 62 is remembered as `a: 1` when it has become `b: 2`. -/
theorem not_agrees_moved : ¬ ∀ id events, Always step Agrees (init id) events := by
  intro h
  have hlast := (h 7 [.block [⟨ascii "a", ascii "1", false⟩] true,
    .block [⟨ascii "a", ascii "1", false⟩] true, .block [⟨ascii "b", ascii "2", false⟩] true,
    .block [⟨ascii "b", ascii "2", false⟩] true]).last rfl
  revert hlast
  decide +kernel

end Codec

end Http2
end Hedra
