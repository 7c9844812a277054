/-
# Names on the wire

`pack_domain_name` writes the labels of a name one after the other, and instead of a rest that
has been written before, a pointer to it.  The table `names` says where: it maps the rests of the
names that have been packed to their offsets.  An offset of 0 is taken for a missing one.

`load_domain_name` follows the pointers.  It keeps the offsets that it has visited, and raises
when it comes back to one, so it ends on any bytes: `loadDomainName_ne_none` says that the fuel of
its model, one step for each byte and one more, is never used up.

Both are in `distributed/discovery/dns/core/record/record_data_types/utils` (`pack_domain_name.py`,
`load_domain_name.py`).
-/
import Hedra.Dns.Wire
import Mathlib.Data.List.Nodup
import Mathlib.Data.List.Perm.Subperm

namespace Hedra
namespace Dns

open Lib

/-! ## 1. Packing -/

/-- The table of the names that have been packed. -/
abbrev Names := Dict String Nat

/-- The loop of `pack_domain_name` over the labels that are left, `written` being in the buffer. -/
def packParts (offset : Nat) : List String → Bytes → Names → Except Error (Bytes × Names)
  | [], written, names => .ok (written ++ [0], names)
  | part :: parts, written, names =>
    let subname := join (part :: parts)
    match names.get? subname with
    | some (u + 1) => do
      let pointer ← packInt 2 (0xc000 + (u + 1))
      return (written ++ pointer, names)
    | _ => do
      let names := names.set subname (written.length + offset)
      let label ← packString (encode part) 1
      packParts offset parts (written ++ label) names

/-- `pack_domain_name` -/
def packDomainName (name : String) (names : Names) (offset : Nat) : Except Error (Bytes × Names) :=
  packParts offset (split name) [] names

/-! ## 2. Loading -/

/-- The state of the loop of `load_domain_name`. -/
structure Loading where
  offset : Nat
  visited : List Nat
  cursor : Option Nat
  parts : List Bytes

/-- The loop of `load_domain_name`; `none` when the fuel is used up. -/
def loadParts (buffer : Bytes) : Nat → Loading → Option (Except Error Loading)
  | 0, _ => none
  | fuel + 1, s =>
    if s.offset < buffer.length then
      if s.offset ∈ s.visited then some (.error (.name s.offset "Pointer loop detected"))
      else
        let visited := s.visited ++ [s.offset]
        let length := ((buffer[s.offset]?).getD 0).toNat
        let offset := s.offset + 1
        if length = 0 then some (.ok ⟨offset, visited, s.cursor.or (some offset), s.parts⟩)
        else if 0xc0 ≤ length then
          match index buffer offset with
          | .error e => some (.error e)
          | .ok low =>
            loadParts buffer fuel
              ⟨(length - 0xc0) * 256 + low, visited, s.cursor.or (some (offset + 1)), s.parts⟩
        else
          loadParts buffer fuel
            ⟨offset + length, visited, s.cursor, s.parts ++ [slice buffer offset (offset + length)]⟩
    else some (.ok s)

/-- `load_domain_name`, after its loop. -/
def finishLoad (s : Loading) : Except Error (Nat × String) :=
  match s.cursor with
  | none => .error (.name s.offset "Bad data")
  | some cursor => do
    let data ← decode (List.intercalate [46] s.parts)
    return (cursor, data)

/-- `load_domain_name`, with fuel for each byte. -/
def loadDomainName? (buffer : Bytes) (offset : Nat) : Option (Except Error (Nat × String)) :=
  (loadParts buffer (buffer.length + 1) ⟨offset, [], none, []⟩).map fun s => s.bind finishLoad

/-- What has been visited are different offsets of the buffer. -/
structure Loading.Wf (buffer : Bytes) (s : Loading) : Prop where
  nodup : s.visited.Nodup
  lt : ∀ i ∈ s.visited, i < buffer.length

theorem Loading.Wf.length_le {buffer : Bytes} {s : Loading} (h : s.Wf buffer) :
    s.visited.length ≤ buffer.length := by
  have hsub : s.visited ⊆ List.range buffer.length :=
    fun i hi => List.mem_range.mpr (h.lt i hi)
  have hle := (List.subperm_of_subset h.nodup hsub).length_le
  rwa [List.length_range] at hle

/-- Each turn visits an offset of its own. -/
theorem loadParts_ne_none {buffer : Bytes} {fuel : Nat} {s : Loading} (h : s.Wf buffer)
    (hfuel : buffer.length < fuel + s.visited.length) : loadParts buffer fuel s ≠ none := by
  induction fuel generalizing s with
  | zero => exact absurd h.length_le (by omega)
  | succ fuel ih =>
    unfold loadParts
    by_cases hlt : s.offset < buffer.length
    · rw [if_pos hlt]
      by_cases hmem : s.offset ∈ s.visited
      · simp [hmem]
      · have hnext (offset : Nat) (cursor : Option Nat) (parts : List Bytes) :
            loadParts buffer fuel ⟨offset, s.visited ++ [s.offset], cursor, parts⟩ ≠ none := by
          refine ih ⟨?_, ?_⟩ ?_
          · exact List.nodup_append.mpr ⟨h.nodup, List.nodup_singleton _, by
              intro i hi j hj
              rw [List.mem_singleton.mp hj]
              exact fun he => hmem (he ▸ hi)⟩
          · intro i hi
            rcases List.mem_append.mp hi with hi | hi
            · exact h.lt i hi
            · rwa [List.mem_singleton.mp hi]
          · simp only [List.length_append, List.length_singleton]
            omega
        simp only [hmem, if_false]
        split
        · simp
        · split
          · split
            · simp
            · exact hnext _ _ _
          · exact hnext _ _ _
    · simp [hlt]

/-- **Loading a name ends on any bytes.** -/
theorem loadDomainName_ne_none (buffer : Bytes) (offset : Nat) :
    loadDomainName? buffer offset ≠ none := by
  have hloop : loadParts buffer (buffer.length + 1) ⟨offset, [], none, []⟩ ≠ none :=
    loadParts_ne_none ⟨List.nodup_nil, by simp⟩ (by simp)
  simpa [loadDomainName?] using hloop

/-- `load_domain_name` -/
def loadDomainName (buffer : Bytes) (offset : Nat) : Except Error (Nat × String) :=
  (loadDomainName? buffer offset).get
    (Option.isSome_iff_ne_none.mpr (loadDomainName_ne_none buffer offset))

end Dns
end Hedra
