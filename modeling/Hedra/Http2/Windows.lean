/-
# Windows and settings

A `WindowManager` (`core/engines/types/http2/windows/window_manager.py`) keeps the size of a receive
window: it shrinks by what is received, and `process_bytes` decides whether to open it again.

`Settings` (`core/engines/types/http2/streams/stream_settings.py`) keeps for every setting the
values that have been proposed, the current one first.  An acknowledgement of all settings moves on
to the next value where there is one.

* `currentWindowSize_processBytes`: the window is opened by what `process_bytes` returns;
* `update_ok_iff`: settings are taken if all of their values are valid;
* `change_of_update`: what an acknowledgement says has changed.
-/
import Hedra.Http2.Frame

namespace Hedra
namespace Http2

open Lib

/-! ## 1. Windows -/

/-- A `WindowManager`. -/
structure WindowManager where
  maxWindowSize : Int
  currentWindowSize : Int
  bytesProcessed : Int
deriving DecidableEq

namespace WindowManager

/-- `WindowManager(max_window_size)` -/
def init (maxWindowSize : Int) : WindowManager where
  maxWindowSize := maxWindowSize
  currentWindowSize := maxWindowSize
  bytesProcessed := 0

/-- `window_consumed` -/
def windowConsumed (w : WindowManager) (size : Int) : WindowManager :=
  { w with currentWindowSize := w.currentWindowSize - size }

/-- `window_opened` -/
def windowOpened (w : WindowManager) (size : Int) : WindowManager :=
  { w with
    currentWindowSize := w.currentWindowSize + size
    maxWindowSize := max w.maxWindowSize (w.currentWindowSize + size) }

/-- `process_bytes`, and the increment that it returns. -/
def processBytes (w : WindowManager) (size : Option Int) : WindowManager × Option Int :=
  let bytesProcessed := w.bytesProcessed + size.getD 0
  if bytesProcessed = 0 then ({ w with bytesProcessed := bytesProcessed }, none)
  else
    let maxIncrement := w.maxWindowSize - w.currentWindowSize
    let minThreshold := w.currentWindowSize = 0 ∧ bytesProcessed > min 1024 (w.maxWindowSize / 4)
    let maxThreshold := bytesProcessed ≥ w.maxWindowSize / 2
    if minThreshold ∨ maxThreshold then
      let increment := min bytesProcessed maxIncrement
      ({ w with
          currentWindowSize := w.currentWindowSize + increment
          bytesProcessed := 0 }, some increment)
    else ({ w with bytesProcessed := bytesProcessed }, some 0)

@[simp] theorem currentWindowSize_init (n : Int) : (init n).currentWindowSize = n := rfl

@[simp] theorem currentWindowSize_windowConsumed (w : WindowManager) (n : Int) :
    (w.windowConsumed n).currentWindowSize = w.currentWindowSize - n := rfl

@[simp] theorem currentWindowSize_windowOpened (w : WindowManager) (n : Int) :
    (w.windowOpened n).currentWindowSize = w.currentWindowSize + n := rfl

/-- **`process_bytes` opens the window by what it returns.** -/
theorem currentWindowSize_processBytes (w : WindowManager) (size : Option Int) :
    (w.processBytes size).1.currentWindowSize =
      w.currentWindowSize + (w.processBytes size).2.getD 0 := by
  unfold processBytes
  simp only
  split
  · simp
  · split <;> simp

end WindowManager

/-! ## 2. Settings -/

/-- `SettingCodes` -/
inductive SettingCode
  | headerTableSize
  | enablePush
  | maxConcurrentStreams
  | initialWindowSize
  | maxFrameSize
  | maxHeaderListSize
  | enableConnectProtocol
deriving DecidableEq

/-- The code of a setting on the wire. -/
def SettingCode.code : SettingCode → Nat
  | .headerTableSize => 0x01
  | .enablePush => 0x02
  | .maxConcurrentStreams => 0x03
  | .initialWindowSize => 0x04
  | .maxFrameSize => 0x05
  | .maxHeaderListSize => 0x06
  | .enableConnectProtocol => 0x08

/-- `_validate_setting(setting, value) == 0`, for a value off the wire. -/
def validSetting (setting value : Nat) : Bool :=
  if setting = SettingCode.enablePush.code then value ≤ 1
  else if setting = SettingCode.initialWindowSize.code then value ≤ 2147483647
  else if setting = SettingCode.maxFrameSize.code then 16384 ≤ value ∧ value ≤ 16777215
  else if setting = SettingCode.enableConnectProtocol.code then value ≤ 1
  else true

/-- A `Settings` object: the proposed values of each setting.  A setting that was unknown starts
with `None`. -/
abbrev Settings := Dict Nat (List (Option Nat))

/-- A `ChangedSetting`, by its values. -/
structure ChangedSetting where
  originalValue : Option Nat
  newValue : Option Nat
deriving DecidableEq

namespace Settings

/-- `Settings(client)`, with the initial values. -/
def init (client : Bool) (initialValues : List (SettingCode × Nat)) : Settings :=
  initialValues.foldl (fun d item => d.set item.1.code [some item.2])
    ((((((Dict.empty.set SettingCode.headerTableSize.code [some 4096]).set
      SettingCode.enablePush.code [some client.toNat]).set
      SettingCode.initialWindowSize.code [some 65535]).set
      SettingCode.maxFrameSize.code [some 16384]).set
      SettingCode.enableConnectProtocol.code [some 0]))

/-- `settings[key]`, and `None` for what raises a `KeyError`. -/
def getItem (s : Settings) (setting : SettingCode) : Option Nat :=
  match s.get? setting.code with
  | some (value :: _) => value
  | _ => none

/-- `settings[key] = value`.  What is not valid raises a `TypeError`, as `Exception` takes no
`error_code`. -/
def setItem (s : Settings) (key value : Nat) : Except Error Settings :=
  if validSetting key value then
    .ok (s.set key ((s.get? key).getD [none] ++ [some value]))
  else .error .typeError

/-- `settings.update` -/
def update (s : Settings) : List (Nat × Nat) → Except Error Settings
  | [] => .ok s
  | (key, value) :: items => do update (← s.setItem key value) items

/-- `v.popleft()`, if there is an outstanding value. -/
def advance : List (Option Nat) → List (Option Nat)
  | _ :: new :: values => new :: values
  | values => values

/-- What `advance` changes. -/
def changed : List (Option Nat) → Option ChangedSetting
  | old :: new :: _ => some ⟨old, new⟩
  | _ => none

/-- `acknowledge`, and the changes that it returns. -/
def acknowledge (s : Settings) : Settings × (SettingCode → Option ChangedSetting) :=
  (s.mapValues advance, fun setting => (s.get? setting.code).bind changed)

/-- No values are outstanding. -/
def Settled (s : Settings) : Prop := ∀ k values, s.get? k = some values → ∃ value, values = [value]

/-- **Settings are taken if all of their values are valid.** -/
theorem update_ok_iff {items : List (Nat × Nat)} : ∀ {s : Settings},
    (∃ s', update s items = .ok s') ↔ ∀ item ∈ items, validSetting item.1 item.2 := by
  induction items with
  | nil =>
    intro s
    exact ⟨fun _ _ h => absurd h List.not_mem_nil, fun _ => ⟨s, rfl⟩⟩
  | cons item items ih =>
    intro s
    rw [List.forall_mem_cons]
    unfold update setItem
    split
    · next h => exact ih.trans ⟨fun hrest => ⟨h, hrest⟩, And.right⟩
    · next h =>
      refine iff_of_false ?_ fun hvalid => h hvalid.1
      rintro ⟨s', hs'⟩
      cases hs'

/-- What a key comes to when it is proposed new values. -/
theorem get?_of_update {items : List (Nat × Nat)} : ∀ {s s' : Settings},
    (items.map Prod.fst).Nodup → update s items = .ok s' → ∀ k,
      s'.get? k = match Dict.getItems k items with
        | some value => some ((s.get? k).getD [none] ++ [some value])
        | none => s.get? k := by
  induction items with
  | nil =>
    intro s s' _ h k
    rw [← Except.ok.inj h]
    rfl
  | cons item items ih =>
    obtain ⟨key, value⟩ := item
    intro s s' hnodup h k
    obtain ⟨hnew, hrest⟩ := List.nodup_cons.mp hnodup
    obtain ⟨t, ht, h⟩ := bind_eq_ok_iff.mp h
    have ht : t = s.set key ((s.get? key).getD [none] ++ [some value]) := by
      unfold setItem at ht
      split at ht
      · exact (Except.ok.inj ht).symm
      · cases ht
    rw [ih hrest h k, ht, Dict.get?_set, Dict.getItems]
    by_cases hk : k = key
    · subst hk
      have hnone : Dict.getItems k items = none := Dict.getItems_eq_none hnew
      rw [hnone, if_pos rfl, if_pos rfl]
    · rw [if_neg hk, if_neg (Ne.symm hk)]

/-- **Settings that are proposed and acknowledged are the current ones.** -/
theorem acknowledge_of_update {s s' : Settings} {settings : Dict Nat Nat} (hs : s.Settled)
    (h : s.update settings.items = .ok s') :
    s'.acknowledge.1.Settled ∧ ∀ k, s'.acknowledge.1.get? k =
      match settings.get? k with
      | some value => some [some value]
      | none => s.get? k := by
  have hget : ∀ k, s'.acknowledge.1.get? k =
      match settings.get? k with
      | some value => some [some value]
      | none => s.get? k := by
    intro k
    have hlookup : settings.get? k = Dict.getItems k settings.items := rfl
    rw [acknowledge, Dict.get?_mapValues, get?_of_update settings.nodup h k, hlookup]
    cases hk : s.get? k with
    | none => cases Dict.getItems k settings.items <;> rfl
    | some values =>
      obtain ⟨old, rfl⟩ := hs k values hk
      cases Dict.getItems k settings.items <;> rfl
  refine ⟨fun k values hk => ?_, hget⟩
  rw [hget k] at hk
  split at hk
  · next value _ => exact ⟨some value, (Option.some.inj hk).symm⟩
  · exact hs k values hk

/-- **The changes that an acknowledgement returns**: of each setting that was proposed, from the
current value. -/
theorem change_of_update {s s' : Settings} {settings : Dict Nat Nat} (hs : s.Settled)
    (h : s.update settings.items = .ok s') (setting : SettingCode) :
    s'.acknowledge.2 setting =
      (settings.get? setting.code).map fun value => ⟨s.getItem setting, some value⟩ := by
  have hlookup : settings.get? setting.code = Dict.getItems setting.code settings.items := rfl
  unfold acknowledge getItem
  simp only
  rw [get?_of_update settings.nodup h, hlookup]
  cases hk : s.get? setting.code with
  | none => cases Dict.getItems setting.code settings.items <;> rfl
  | some values =>
    obtain ⟨old, rfl⟩ := hs _ values hk
    cases Dict.getItems setting.code settings.items <;> rfl

/-- An acknowledgement without outstanding values. -/
theorem acknowledge_of_settled {s : Settings} (hs : s.Settled) :
    s.acknowledge.1 = s ∧ ∀ setting, s.acknowledge.2 setting = none := by
  have hadvance : ∀ item ∈ s.items, (item.1, advance item.2) = item := by
    intro item hitem
    obtain ⟨value, hvalue⟩ := hs item.1 item.2 ((Dict.mem_items_iff s item.1 item.2).mp hitem)
    rw [hvalue]
    exact Prod.ext rfl hvalue.symm
  refine ⟨Dict.ext_items ((List.map_congr_left hadvance).trans (List.map_id s.items)),
    fun setting => ?_⟩
  unfold acknowledge
  cases hk : s.get? setting.code with
  | none => simp [hk]
  | some values =>
    obtain ⟨value, rfl⟩ := hs _ values hk
    simp [hk, changed]

theorem settled_empty : Settled Dict.empty := fun _ _ h => (nomatch h)

theorem Settled.set {s : Settings} (h : s.Settled) (key : Nat) (value : Option Nat) :
    Settled (Dict.set s key [value]) := by
  intro k values hk
  rw [Dict.get?_set] at hk
  split at hk
  · exact ⟨value, (Option.some.inj hk).symm⟩
  · exact h k values hk

theorem Settled.erase {s : Settings} (h : s.Settled) (key : Nat) : Settled (Dict.erase s key) := by
  intro k values hk
  rw [Dict.get?_erase] at hk
  split at hk
  · cases hk
  · exact h k values hk

theorem settled_init (client : Bool) (initialValues : List (SettingCode × Nat)) :
    (init client initialValues).Settled := by
  have hfoldl : ∀ (items : List (SettingCode × Nat)) {s : Settings}, s.Settled →
      Settled (items.foldl (fun d item => Dict.set d item.1.code [some item.2]) s) := by
    intro items
    induction items with
    | nil => exact fun h => h
    | cons item items ih => exact fun h => ih (h.set _ _)
  exact hfoldl _ (((((settled_empty.set _ _).set _ _).set _ _).set _ _).set _ _)

end Settings

end Http2
end Hedra
