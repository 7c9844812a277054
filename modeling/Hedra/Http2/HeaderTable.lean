/-
# The header table

`HeaderTable` (`core/engines/types/common/hpack/table.py`): the static table, and the dynamic
entries with their sizes added up.  The invariant of the sizes is part of the type.  Seen from
outside it is the dynamic table of the standard (`Lib.Hpack.Table`): `add` inserts and the setter of
`maxsize` resizes (`abstract_add`, `abstract_setMaxsize`), and `search` finds indices that
`get_by_index` leads back (`search_sound`).

`get_by_index` is memoised with one `lru_cache` for the class, by table and index.
-/
import Hedra.Lib.Hpack
import Hedra.Lib.LruCache

namespace Hedra
namespace Http2

open Lib (Dict LruCache)
open Lib.Hpack (Octets Field fieldSize totalSize fit)

/-- The bytes of an ASCII text. -/
def ascii (s : String) : Octets := s.toUTF8.data.toList

/-- `STATIC_TABLE` -/
def staticTable : List Field := [
  (ascii ":authority", ascii ""),
  (ascii ":method", ascii "GET"),
  (ascii ":method", ascii "POST"),
  (ascii ":path", ascii "/"),
  (ascii ":path", ascii "/index.html"),
  (ascii ":scheme", ascii "http"),
  (ascii ":scheme", ascii "https"),
  (ascii ":status", ascii "200"),
  (ascii ":status", ascii "204"),
  (ascii ":status", ascii "206"),
  (ascii ":status", ascii "304"),
  (ascii ":status", ascii "400"),
  (ascii ":status", ascii "404"),
  (ascii ":status", ascii "500"),
  (ascii "accept-charset", ascii ""),
  (ascii "accept-encoding", ascii "gzip, deflate"),
  (ascii "accept-language", ascii ""),
  (ascii "accept-ranges", ascii ""),
  (ascii "accept", ascii ""),
  (ascii "access-control-allow-origin", ascii ""),
  (ascii "age", ascii ""),
  (ascii "allow", ascii ""),
  (ascii "authorization", ascii ""),
  (ascii "cache-control", ascii ""),
  (ascii "content-disposition", ascii ""),
  (ascii "content-encoding", ascii ""),
  (ascii "content-language", ascii ""),
  (ascii "content-length", ascii ""),
  (ascii "content-location", ascii ""),
  (ascii "content-range", ascii ""),
  (ascii "content-type", ascii ""),
  (ascii "cookie", ascii ""),
  (ascii "date", ascii ""),
  (ascii "etag", ascii ""),
  (ascii "expect", ascii ""),
  (ascii "expires", ascii ""),
  (ascii "from", ascii ""),
  (ascii "host", ascii ""),
  (ascii "if-match", ascii ""),
  (ascii "if-modified-since", ascii ""),
  (ascii "if-none-match", ascii ""),
  (ascii "if-range", ascii ""),
  (ascii "if-unmodified-since", ascii ""),
  (ascii "last-modified", ascii ""),
  (ascii "link", ascii ""),
  (ascii "location", ascii ""),
  (ascii "max-forwards", ascii ""),
  (ascii "proxy-authenticate", ascii ""),
  (ascii "proxy-authorization", ascii ""),
  (ascii "range", ascii ""),
  (ascii "referer", ascii ""),
  (ascii "refresh", ascii ""),
  (ascii "retry-after", ascii ""),
  (ascii "server", ascii ""),
  (ascii "set-cookie", ascii ""),
  (ascii "strict-transport-security", ascii ""),
  (ascii "transfer-encoding", ascii ""),
  (ascii "user-agent", ascii ""),
  (ascii "vary", ascii ""),
  (ascii "via", ascii ""),
  (ascii "www-authenticate", ascii "")]

/-- `STATIC_TABLE_LENGTH` -/
def staticTableLength : Nat := 61

/-- `_build_static_table_mapping`: for a name its first index, and the index of each value. -/
def buildStaticTableMapping : Dict Octets (Nat × Dict Octets Nat) :=
  (staticTable.zipIdx 1).foldl (fun mapping entry =>
    let found := (mapping.get? entry.1.1).getD (entry.2, Dict.empty)
    mapping.set entry.1.1 (found.1, found.2.set entry.1.2 entry.2)) Dict.empty

structure HeaderTable where
  maxsize : Nat
  currentSize : Nat
  resized : Bool
  /-- `dynamic_entries`, the newest first. -/
  dynamicEntries : List Field
  size_eq : currentSize = totalSize dynamicEntries
  fits : currentSize ≤ maxsize

namespace HeaderTable

/-- `__init__` -/
def init : HeaderTable := ⟨4096, 0, false, [], rfl, Nat.zero_le _⟩

/-- The loop of `_shrink`: entries are popped from the right end, here the front of a reversed
list. -/
def shrinkLoop (maxsize : Nat) : Nat → List Field → Nat × List Field
  | cursize, [] => (cursize, [])
  | cursize, entry :: entries =>
    if maxsize < cursize then shrinkLoop maxsize (cursize - fieldSize entry) entries
    else (cursize, entry :: entries)

/-- `_shrink`: the size, and the entries that are left. -/
def shrink (maxsize cursize : Nat) (entries : List Field) : Nat × List Field :=
  let r := shrinkLoop maxsize cursize entries.reverse
  (r.1, r.2.reverse)

theorem fit_concat_of_lt {limit : Nat} {fs : List Field} {f : Field}
    (h : limit < totalSize (fs ++ [f])) : fit limit (fs ++ [f]) = fit limit fs := by
  have hle := Lib.Hpack.totalSize_fit_le limit (fs ++ [f])
  have hpre : fit limit (fs ++ [f]) <+: fs := by
    rcases List.prefix_concat_iff.mp (Lib.Hpack.fit_isPrefix limit (fs ++ [f])) with heq | hpre
    · rw [heq] at hle
      omega
    · exact hpre
  have hback := (Lib.Hpack.fit_isPrefix limit fs).trans (List.prefix_append fs [f])
  exact (Lib.Hpack.prefix_fit hpre hle).eq_of_length_le
    (Lib.Hpack.prefix_fit hback (Lib.Hpack.totalSize_fit_le limit fs)).length_le

theorem shrinkLoop_eq (maxsize : Nat) (l : List Field) :
    shrinkLoop maxsize (totalSize l.reverse) l
      = (totalSize (fit maxsize l.reverse), (fit maxsize l.reverse).reverse) := by
  induction l with
  | nil => rfl
  | cons f l ih =>
    have htotal : totalSize (l.reverse ++ [f]) - fieldSize f = totalSize l.reverse := by simp
    rw [List.reverse_cons, shrinkLoop]
    by_cases h : maxsize < totalSize (l.reverse ++ [f])
    · rw [if_pos h, htotal, ih, fit_concat_of_lt h]
    · rw [if_neg h, Lib.Hpack.fit_eq_self (Nat.le_of_not_lt h)]
      simp

/-- Shrinking keeps what fits. -/
theorem shrink_eq {maxsize cursize : Nat} {entries : List Field}
    (h : cursize = totalSize entries) :
    shrink maxsize cursize entries = (totalSize (fit maxsize entries), fit maxsize entries) := by
  have hloop := shrinkLoop_eq maxsize entries.reverse
  rw [List.reverse_reverse] at hloop
  simp [shrink, h, hloop]

/-- `add` -/
def add (t : HeaderTable) (entry : Field) : HeaderTable :=
  if t.maxsize < fieldSize entry then
    { t with dynamicEntries := [], currentSize := 0, size_eq := rfl, fits := Nat.zero_le _ }
  else
    let r := shrink t.maxsize (t.currentSize + fieldSize entry) (entry :: t.dynamicEntries)
    have hsize : t.currentSize + fieldSize entry = totalSize (entry :: t.dynamicEntries) := by
      rw [Lib.Hpack.totalSize_cons, t.size_eq, Nat.add_comm]
    { t with
      dynamicEntries := r.2
      currentSize := r.1
      size_eq := by simp only [r, shrink_eq hsize]
      fits := by
        simp only [r, shrink_eq hsize]
        exact Lib.Hpack.totalSize_fit_le _ _ }

/-- The setter of `maxsize`. -/
def setMaxsize (t : HeaderTable) (newmax : Nat) : HeaderTable :=
  if h : newmax = 0 then
    ⟨newmax, 0, newmax ≠ t.maxsize, [], rfl, Nat.zero_le _⟩
  else if hlt : newmax < t.maxsize then
    let r := shrink newmax t.currentSize t.dynamicEntries
    ⟨newmax, r.1, newmax ≠ t.maxsize, r.2, by simp only [r, shrink_eq t.size_eq], by
      simp only [r, shrink_eq t.size_eq]
      exact Lib.Hpack.totalSize_fit_le _ _⟩
  else
    ⟨newmax, t.currentSize, newmax ≠ t.maxsize, t.dynamicEntries, t.size_eq,
      t.fits.trans (Nat.le_of_not_lt hlt)⟩

/-- `self.header_table.resized = False` -/
def clearResized (t : HeaderTable) : HeaderTable := { t with resized := false }

/-- `get_by_index` without its cache.  Index 0 is `STATIC_TABLE[-1]`. -/
def getByIndex (t : HeaderTable) (index : Nat) : Option Field :=
  if index = 0 then staticTable.getLast?
  else if index - 1 < staticTableLength then staticTable[index - 1]?
  else t.dynamicEntries[index - 1 - staticTableLength]?

/-- `(index, name, value)`, or `None` for the value. -/
abbrev Match := Nat × Octets × Option Octets

/-- The loop of `search` over the dynamic entries. -/
def searchDynamic (name value : Octets) : Nat → Option Match → List Field → Option Match
  | _, found, [] => found
  | i, found, (n, v) :: entries =>
    if n = name then
      if v = value then some (i, n, some v)
      else searchDynamic name value (i + 1) (found.or (some (i, n, none))) entries
    else searchDynamic name value (i + 1) found entries

def search (t : HeaderTable) (name value : Octets) : Option Match :=
  let offset := staticTableLength + 1
  match buildStaticTableMapping.get? name with
  | some (first, byValue) =>
    match byValue.get? value with
    | some index => some (index, name, some value)
    | none => searchDynamic name value offset (some (first, name, none)) t.dynamicEntries
  | none => searchDynamic name value offset none t.dynamicEntries

end HeaderTable

namespace HeaderTable

/-! ## 1. The table of the standard -/

/-- The dynamic table that the standard speaks of. -/
def abstract (t : HeaderTable) : Lib.Hpack.Table := ⟨t.dynamicEntries, t.maxsize⟩

@[simp] theorem abstract_init : init.abstract = ⟨[], 4096⟩ := rfl

@[simp] theorem abstract_clearResized (t : HeaderTable) :
    t.clearResized.abstract = t.abstract := rfl

theorem totalSize_le (t : HeaderTable) : totalSize t.dynamicEntries ≤ t.maxsize := by
  rw [← t.size_eq]
  exact t.fits

theorem abstract_add (t : HeaderTable) (entry : Field) :
    (t.add entry).abstract = t.abstract.insert entry := by
  have hsize : t.currentSize + fieldSize entry = totalSize (entry :: t.dynamicEntries) := by
    rw [Lib.Hpack.totalSize_cons, t.size_eq, Nat.add_comm]
  by_cases h : t.maxsize < fieldSize entry
  · simp [add, h, abstract, Lib.Hpack.Table.insert, fit, Nat.not_le.mpr h]
  · simp [add, h, abstract, Lib.Hpack.Table.insert, shrink_eq hsize]

theorem abstract_setMaxsize (t : HeaderTable) (n : Nat) :
    (t.setMaxsize n).abstract = t.abstract.resize n := by
  by_cases h : n = 0
  · subst h
    have hnone : fit 0 t.dynamicEntries = [] := by
      cases hentries : t.dynamicEntries with
      | nil => rfl
      | cons f fs =>
        have hpos : ¬ fieldSize f ≤ 0 := by simp [fieldSize]
        simp [fit, hpos]
    simp [setMaxsize, abstract, Lib.Hpack.Table.resize, hnone]
  · by_cases hlt : n < t.maxsize
    · simp [setMaxsize, h, hlt, abstract, Lib.Hpack.Table.resize, shrink_eq t.size_eq]
    · have hself := Lib.Hpack.fit_eq_self (t.totalSize_le.trans (Nat.le_of_not_lt hlt))
      simp [setMaxsize, h, hlt, abstract, Lib.Hpack.Table.resize, hself]

@[simp] theorem resized_add (t : HeaderTable) (entry : Field) :
    (t.add entry).resized = t.resized := by
  by_cases h : t.maxsize < fieldSize entry <;> simp [add, h]

@[simp] theorem maxsize_add (t : HeaderTable) (entry : Field) :
    (t.add entry).maxsize = t.maxsize := by
  by_cases h : t.maxsize < fieldSize entry <;> simp [add, h]

@[simp] theorem resized_setMaxsize (t : HeaderTable) (n : Nat) :
    (t.setMaxsize n).resized = decide (n ≠ t.maxsize) := by
  by_cases h : n = 0
  · simp [setMaxsize, h]
  · by_cases hlt : n < t.maxsize <;> simp [setMaxsize, h, hlt]

@[simp] theorem maxsize_setMaxsize (t : HeaderTable) (n : Nat) :
    (t.setMaxsize n).maxsize = n := congrArg Lib.Hpack.Table.limit (t.abstract_setMaxsize n)

/-! ## 2. Lookups -/

theorem length_staticTable : staticTable.length = staticTableLength := by decide

/-- Behind index 0 `get_by_index` is the lookup of the standard. -/
theorem getByIndex_eq_lookup (t : HeaderTable) {i : Nat} (h : 0 < i) :
    t.getByIndex i = t.abstract.lookup staticTable i := by
  rw [getByIndex, if_neg (Nat.ne_of_gt h), Lib.Hpack.Table.lookup, if_neg (Nat.ne_of_gt h)]
  by_cases hi : i - 1 < staticTableLength
  · rw [if_pos hi, List.getElem?_append_left (by rwa [length_staticTable])]
  · rw [if_neg hi, List.getElem?_append_right (by rw [length_staticTable]; omega),
      length_staticTable]
    rfl

/-- The mapping leads to entries of the static table. -/
theorem staticTableMapping_sound : buildStaticTableMapping.items.all (fun r =>
    decide (0 < r.2.1) && (staticTable[r.2.1 - 1]?.map Prod.fst == some r.1) &&
    r.2.2.items.all fun q => decide (0 < q.2) && (staticTable[q.2 - 1]? == some (r.1, q.1))) = true := by
  decide +kernel

/-- What a search found: the index of an entry with the name, and with the value if one is given. -/
def Found (t : HeaderTable) (name value : Octets) (m : Match) : Prop :=
  0 < m.1 ∧ m.2.1 = name ∧ ∃ v, t.abstract.lookup staticTable m.1 = some (name, v) ∧
    ∀ w, m.2.2 = some w → w = value ∧ v = value

theorem lookup_static {t : HeaderTable} {i : Nat} {f : Field} (hpos : 0 < i)
    (h : staticTable[i - 1]? = some f) : t.abstract.lookup staticTable i = some f := by
  rw [Lib.Hpack.Table.lookup, if_neg (Nat.ne_of_gt hpos),
    List.getElem?_append_left (List.getElem?_eq_some_iff.mp h).1, h]

theorem lookup_dynamic (t : HeaderTable) (k : Nat) :
    t.abstract.lookup staticTable (staticTableLength + 1 + k) = t.dynamicEntries[k]? := by
  rw [Lib.Hpack.Table.lookup, if_neg (by omega),
    List.getElem?_append_right (by rw [length_staticTable]; omega), length_staticTable]
  congr 1
  omega

theorem searchDynamic_sound {t : HeaderTable} {name value : Octets} {found : Option Match}
    {m : Match} {k : Nat} (hfound : ∀ m ∈ found, t.Found name value m)
    (h : searchDynamic name value (staticTableLength + 1 + k) found (t.dynamicEntries.drop k)
      = some m) : t.Found name value m := by
  induction hl : t.dynamicEntries.drop k generalizing k found with
  | nil =>
    rw [hl] at h
    exact hfound m h
  | cons f rest ih =>
    obtain ⟨n, v⟩ := f
    have hget : t.dynamicEntries[k]? = some (n, v) := by
      rw [← List.head?_drop, hl]
      rfl
    have hrest : t.dynamicEntries.drop (k + 1) = rest := by
      rw [← List.drop_drop, hl, List.drop_one, List.tail_cons]
    rw [hl, searchDynamic] at h
    by_cases hn : n = name
    · subst hn
      rw [if_pos rfl] at h
      by_cases hv : v = value
      · rw [if_pos hv] at h
        obtain rfl := Option.some.inj h
        refine ⟨by simp [staticTableLength], rfl, v, by rw [lookup_dynamic, hget], ?_⟩
        rintro w ⟨⟩
        exact ⟨hv, hv⟩
      · rw [if_neg hv, ← hrest] at h
        refine ih (k := k + 1) ?_ h hrest
        intro m' hm'
        rcases Option.or_eq_some_iff.mp hm' with hm' | ⟨-, hm'⟩
        · exact hfound m' hm'
        · obtain rfl := Option.some.inj hm'
          exact ⟨by simp [staticTableLength], rfl, v, by rw [lookup_dynamic, hget],
            fun w hw => by cases hw⟩
    · rw [if_neg hn, ← hrest] at h
      exact ih (k := k + 1) hfound h hrest

/-- **What `search` finds, `get_by_index` leads back to.** -/
theorem search_sound {t : HeaderTable} {name value : Octets} {m : Match}
    (h : t.search name value = some m) : t.Found name value m := by
  rw [search] at h
  cases hmap : buildStaticTableMapping.get? name with
  | none =>
    simp only [hmap] at h
    exact searchDynamic_sound (k := 0) (fun m hm => by cases hm) h
  | some r =>
    obtain ⟨first, byValue⟩ := r
    have hall := List.all_eq_true.mp staticTableMapping_sound _
      ((Dict.mem_items_iff _ _ _).mpr hmap)
    simp only [Bool.and_eq_true, decide_eq_true_eq, beq_iff_eq] at hall
    obtain ⟨⟨hpos, hfirst⟩, hvalues⟩ := hall
    simp only [hmap] at h
    cases hval : byValue.get? value with
    | none =>
      simp only [hval] at h
      refine searchDynamic_sound (k := 0) ?_ h
      rintro m ⟨⟩
      obtain ⟨⟨n, v⟩, hget, hname⟩ := Option.map_eq_some_iff.mp hfirst
      obtain rfl : n = name := hname
      exact ⟨hpos, rfl, v, lookup_static hpos hget, fun w hw => by cases hw⟩
    | some index =>
      simp only [hval] at h
      obtain rfl := Option.some.inj h
      have hentry := List.all_eq_true.mp hvalues _ ((Dict.mem_items_iff _ _ _).mpr hval)
      simp only [Bool.and_eq_true, decide_eq_true_eq, beq_iff_eq] at hentry
      refine ⟨hentry.1, rfl, value, lookup_static hentry.1 hentry.2, ?_⟩
      rintro w ⟨⟩
      exact ⟨rfl, rfl⟩

end HeaderTable

end Http2
end Hedra
