/-
# The loop of `readuntil`

`readuntil` (`core/engines/types/common/protocols/shared/reader.py`) waits for data only while the
buffer is empty.  With something in the buffer, and the separator not in it, a turn of the loop
changes nothing any more, and as nothing is awaited no data can come in: the loop goes round for
ever.

It does not in a run of the reader if and only if, each time the loop gets going, the buffer is empty,
or has the separator, or no more is to come, or what has been searched is over the limit.

* `notSpinning_step`: what a step preserves;
* `notSpinning_iff`: from it, the equivalence for every run.
-/
import Hedra.Lib.Machine

namespace Hedra
namespace Engines
namespace ReadUntil

open Lib Lib.Machine

abbrev Bytes := List UInt8

/-! ## 1. The reader -/

/-- A `Reader`; the transport, which may be paused, does not matter here. -/
structure Reader where
  limit : ℕ
  buffer : Bytes
  eof : Bool
  waiter : Bool
  exception : Bool

/-- How a call ends. -/
inductive Result
  | returns (chunk : Bytes)
  | raises

/-- The future that is awaited. -/
inductive Waiting
  | pending
  | result
  | exception

/-- Where a call of `readuntil` is. -/
inductive Phase
  | idle (last : Option Result)
  | running (separator : Bytes) (offset : ℕ)
  | waiting (separator : Bytes) (offset : ℕ) (future : Waiting)

/-- `buffer.find(separator, offset)` -/
def find (buffer separator : Bytes) (offset : ℕ) : Option ℕ :=
  (List.range' offset (buffer.length + 1 - offset)).find? fun i => separator.isPrefixOf (buffer.drop i)

/-- What comes behind the loop. -/
def leave (r : Reader) (separator : Bytes) (isep : ℕ) : Reader × Phase :=
  if r.limit < isep then (r, .idle (some .raises))
  else
    ({ r with buffer := r.buffer.drop (isep + separator.length) },
      .idle (some (.returns (r.buffer.take (isep + separator.length)))))

/-- The end of a turn, where the separator has not been found. -/
def proceed (r : Reader) (separator : Bytes) (offset : ℕ) : Reader × Phase :=
  if r.eof then ({ r with buffer := [] }, .idle (some .raises))
  else if r.buffer = [] then
    if r.waiter then (r, .idle (some .raises))
    else ({ r with waiter := true }, .waiting separator offset .pending)
  else (r, .running separator offset)

/-- A turn of the loop. -/
def turn (r : Reader) (separator : Bytes) (offset : ℕ) : Reader × Phase :=
  if separator.length + offset ≤ r.buffer.length then
    match find r.buffer separator offset with
    | some isep => leave r separator isep
    | none =>
      let offset := r.buffer.length + 1 - separator.length
      if r.limit < offset then (r, .idle (some .raises)) else proceed r separator offset
  else proceed r separator offset

/-- The reader, and the call. -/
structure State where
  reader : Reader
  phase : Phase

/-- What is done with the reader: by the protocol, by another coroutine that reads what there is, by the
call, and by whoever cancels it. -/
inductive Event
  | feedData (data : Bytes)
  | feedEof
  | setException
  | read (n : ℕ)
  | call (separator : Bytes)
  | turn
  | resume
  | cancel

/-- The waiter is told. -/
def State.wake (s : State) (future : Waiting) : State :=
  match s.reader.waiter, s.phase with
  | true, .waiting separator offset .pending =>
    ⟨{ s.reader with waiter := false }, .waiting separator offset future⟩
  | _, _ => { s with reader := { s.reader with waiter := false } }

/-- The step of an event, where it can happen: while the loop goes round nothing else does. -/
def step (s : State) : Event → Option State
  | .feedData data =>
    match s.phase with
    | .running _ _ => none
    | _ =>
      if s.reader.eof then none
      else if data = [] then some s
      else some (State.wake ⟨{ s.reader with buffer := s.reader.buffer ++ data }, s.phase⟩ .result)
  | .feedEof =>
    match s.phase with
    | .running _ _ => none
    | _ => some (State.wake ⟨{ s.reader with eof := true }, s.phase⟩ .result)
  | .setException =>
    match s.phase with
    | .running _ _ => none
    | _ => some (State.wake ⟨{ s.reader with exception := true }, s.phase⟩ .exception)
  | .read n =>
    match s.phase with
    | .running _ _ => none
    | _ => some { s with reader := { s.reader with buffer := s.reader.buffer.drop n } }
  | .call separator =>
    match s.phase with
    | .idle _ =>
      if s.reader.exception then some { s with phase := .idle (some .raises) }
      else some { s with phase := .running separator 0 }
    | _ => none
  | .turn =>
    match s.phase with
    | .running separator offset =>
      let (reader, phase) := turn s.reader separator offset
      some ⟨reader, phase⟩
    | _ => none
  | .resume =>
    match s.phase with
    | .waiting separator offset .result =>
      some ⟨{ s.reader with waiter := false }, .running separator offset⟩
    | .waiting _ _ .exception => some ⟨{ s.reader with waiter := false }, .idle (some .raises)⟩
    | _ => none
  | .cancel =>
    match s.phase with
    | .waiting _ _ _ => some ⟨{ s.reader with waiter := false }, .idle (some .raises)⟩
    | _ => none

/-! ## 2. Progress -/

/-- The loop goes round. -/
def State.Running (s : State) : Prop := ∃ separator offset, s.phase = .running separator offset

/-- So many turns, or fewer if the loop ends. -/
def turns : ℕ → State → State
  | 0, s => s
  | n + 1, s =>
    match s.phase with
    | .running separator offset =>
      turns n ⟨(turn s.reader separator offset).1, (turn s.reader separator offset).2⟩
    | _ => s

/-- The loop ends or waits after some turns. -/
def NotSpinning (s : State) : Prop := ∃ n, ¬ (turns n s).Running

/-- With what the loop does not go round for ever: it is empty, or has the separator behind what has been
searched, or is all there is, or has been searched over the limit. -/
def Ready (r : Reader) (separator : Bytes) (offset : ℕ) : Prop :=
  r.eof = true ∨ r.buffer = [] ∨ separator.length + offset ≤ r.buffer.length ∧
    (find r.buffer separator offset ≠ none ∨ r.limit < r.buffer.length + 1 - separator.length)

/-- The loop gets going with a reader that is ready. -/
def GetsReady (s : State) : Event → Prop
  | .call separator => s.reader.exception = false → Ready s.reader separator 0
  | .resume =>
    match s.phase with
    | .waiting separator offset .result => Ready s.reader separator offset
    | _ => True
  | _ => True

/-! ## 3. A turn -/

/-- A turn after which the loop goes round is one with a reader that is not ready, and so is the next. -/
theorem turn_of_not_ready {r : Reader} {separator : Bytes} {offset : ℕ}
    (h : ¬ Ready r separator offset) :
    ∃ next, turn r separator offset = (r, .running separator next) ∧ ¬ Ready r separator next := by
  have heof : r.eof ≠ true := fun he => h (.inl he)
  have hbuffer : r.buffer ≠ [] := fun hb => h (.inr (.inl hb))
  have hproceed : ∀ next, proceed r separator next = (r, .running separator next) := by
    intro next
    rw [proceed, if_neg heof, if_neg hbuffer]
  by_cases hfits : separator.length + offset ≤ r.buffer.length
  · have hfind : find r.buffer separator offset = none :=
      Classical.byContradiction fun hf => h (.inr (.inr ⟨hfits, .inl hf⟩))
    have hlimit : ¬ r.limit < r.buffer.length + 1 - separator.length :=
      fun hl => h (.inr (.inr ⟨hfits, .inr hl⟩))
    refine ⟨r.buffer.length + 1 - separator.length, ?_, ?_⟩
    · simp only [turn, if_pos hfits, hfind, if_neg hlimit, hproceed]
    · -- what is left is one byte too short for the separator
      rintro (he | hb | ⟨hfits', -⟩)
      · exact heof he
      · exact hbuffer hb
      · omega
  · exact ⟨offset, by rw [turn, if_neg hfits, hproceed], h⟩

/-- With a reader that is ready the loop ends or waits. -/
theorem turn_of_ready {r : Reader} {separator : Bytes} {offset : ℕ} (h : Ready r separator offset)
    (separator' : Bytes) (offset' : ℕ) :
    (turn r separator offset).2 ≠ .running separator' offset' := by
  have hproceed : r.eof = true ∨ r.buffer = [] → ∀ next,
      (proceed r separator next).2 ≠ .running separator' offset' := by
    intro hr next
    unfold proceed
    split
    · nofun
    · next heof =>
      rw [if_pos (hr.resolve_left heof)]
      split <;> nofun
  unfold turn
  split
  · next hfits =>
    cases hfind : find r.buffer separator offset with
    | some isep =>
      simp only [leave]
      split <;> nofun
    | none =>
      dsimp only
      split
      · nofun
      · next hlimit =>
        rcases h with he | hb | ⟨-, hf | hl⟩
        · exact hproceed (.inl he) _
        · exact hproceed (.inr hb) _
        · exact absurd hfind hf
        · exact absurd hl hlimit
  · next hfits =>
    rcases h with he | hb | ⟨hfits', -⟩
    · exact hproceed (.inl he) _
    · exact hproceed (.inr hb) _
    · exact absurd hfits' hfits

/-- With a reader that is not ready the loop goes round after any number of turns. -/
theorem turns_of_not_ready {r : Reader} {separator : Bytes} (n : ℕ) {offset : ℕ}
    (h : ¬ Ready r separator offset) : (turns n ⟨r, .running separator offset⟩).Running := by
  induction n generalizing offset with
  | zero => exact ⟨separator, offset, rfl⟩
  | succ n ih =>
    obtain ⟨next, hturn, hnext⟩ := turn_of_not_ready h
    have hsucc : turns (n + 1) ⟨r, .running separator offset⟩ = turns n ⟨r, .running separator next⟩ := by
      simp only [turns, hturn]
    rw [hsucc]
    exact ih hnext

theorem notSpinning_running {r : Reader} {separator : Bytes} {offset : ℕ} :
    NotSpinning ⟨r, .running separator offset⟩ ↔ Ready r separator offset := by
  constructor
  · rintro ⟨n, hn⟩
    exact Classical.byContradiction fun h => hn (turns_of_not_ready n h)
  · intro h
    exact ⟨1, fun ⟨separator', offset', hrun⟩ => turn_of_ready h separator' offset' hrun⟩

theorem idle_not_running (r : Reader) (last : Option Result) : ¬ State.Running ⟨r, .idle last⟩ := by
  rintro ⟨_, _, hphase⟩
  cases hphase

theorem notSpinning_of_not_running {s : State} (h : ¬ s.Running) : NotSpinning s := ⟨0, h⟩

theorem State.wake_not_running {s : State} (h : ¬ s.Running) (future : Waiting) :
    ¬ (s.wake future).Running := by
  unfold wake
  split
  · rintro ⟨_, _, hrun⟩
    cases hrun
  · exact h

/-! ## 4. Runs -/

/-- What is fed, and what another coroutine reads, does not get the loop going. -/
theorem not_running_of_outside {s s' : State} {e : Event} (hs' : step s e = some s')
    (he : ∀ separator, e ≠ .call separator ∧ e ≠ .turn ∧ e ≠ .resume) : ¬ s'.Running := by
  by_cases hrun : s.Running
  · -- nothing else happens while the loop goes round
    obtain ⟨separator, offset, hphase⟩ := hrun
    cases e <;> simp [step, hphase] at hs' he
  · have hwake : ∀ r future, ¬ (State.wake ⟨r, s.phase⟩ future).Running :=
      fun r future => State.wake_not_running (s := ⟨r, s.phase⟩) hrun future
    cases e with
    | feedData data =>
      simp only [step] at hs'
      split at hs'
      · cases hs'
      · split at hs'
        · cases hs'
        · split at hs' <;> cases hs'
          · exact hrun
          · exact hwake _ _
    | feedEof =>
      simp only [step] at hs'
      split at hs' <;> cases hs'
      exact hwake _ _
    | setException =>
      simp only [step] at hs'
      split at hs' <;> cases hs'
      exact hwake _ _
    | read n =>
      simp only [step] at hs'
      split at hs' <;> cases hs'
      exact hrun
    | call separator => exact absurd rfl (he separator).1
    | turn => exact absurd rfl (he []).2.1
    | resume => exact absurd rfl (he []).2.2
    | cancel =>
      simp only [step] at hs'
      split at hs' <;> cases hs'
      exact idle_not_running _ _

/-- **What a step preserves.**  The loop does not go round for ever after it if and only if the reader is
ready where it gets going. -/
theorem notSpinning_step {s s' : State} {e : Event} (hs : NotSpinning s) (hs' : step s e = some s') :
    NotSpinning s' ↔ GetsReady s e := by
  have hidle : ∀ r last, NotSpinning ⟨r, .idle last⟩ := fun r last =>
    notSpinning_of_not_running (idle_not_running r last)
  cases e with
  | call separator =>
    simp only [step] at hs'
    split at hs'
    · split at hs' <;> cases hs'
      · next hexc => exact iff_of_true (hidle _ _) fun h => absurd (hexc.symm.trans h) (by decide)
      · next hexc =>
        rw [notSpinning_running]
        exact ⟨fun h _ => h, fun h => h (Bool.eq_false_iff.mpr hexc)⟩
    · cases hs'
  | turn =>
    obtain ⟨r, phase⟩ := s
    cases phase with
    | running separator offset =>
      have hready := notSpinning_running.mp hs
      cases hs'
      exact iff_of_true (notSpinning_of_not_running fun ⟨separator', offset', hphase⟩ =>
        turn_of_ready hready separator' offset' hphase) trivial
    | idle last => cases hs'
    | waiting separator offset future => cases hs'
  | resume =>
    obtain ⟨r, phase⟩ := s
    cases phase with
    | waiting separator offset future =>
      cases future with
      | pending => cases hs'
      | result =>
        cases hs'
        exact notSpinning_running
      | exception =>
        cases hs'
        exact iff_of_true (hidle _ _) trivial
    | idle last => cases hs'
    | running separator offset => cases hs'
  | feedData data =>
    exact iff_of_true (notSpinning_of_not_running (not_running_of_outside hs' (by simp))) trivial
  | feedEof =>
    exact iff_of_true (notSpinning_of_not_running (not_running_of_outside hs' (by simp))) trivial
  | setException =>
    exact iff_of_true (notSpinning_of_not_running (not_running_of_outside hs' (by simp))) trivial
  | read n =>
    exact iff_of_true (notSpinning_of_not_running (not_running_of_outside hs' (by simp))) trivial
  | cancel =>
    exact iff_of_true (notSpinning_of_not_running (not_running_of_outside hs' (by simp))) trivial

/-- **No state of a run goes round for ever if and only if the reader is ready each time the loop gets
going.** -/
theorem notSpinning_iff (r : Reader) (events : List Event) :
    Always step NotSpinning ⟨r, .idle none⟩ events ↔
      Along step (fun s e _ => GetsReady s e) ⟨r, .idle none⟩ events := by
  refine always_iff_along (fun s e s' hs hs' => ?_) ?_
  · exact notSpinning_step hs hs'
  · exact notSpinning_of_not_running (idle_not_running r none)

/-- With `ab` in the buffer the loop goes round for a line break that it does not let come in. -/
theorem spinning : ∃ s, run step ⟨⟨65536, [], false, false, false⟩, .idle none⟩
      [.feedData [97, 98], .call [10]] = some s ∧
    (∀ n, (turns n s).Running) ∧
    ∀ data, step s (.feedData data) = none := by
  refine ⟨_, rfl, fun n => turns_of_not_ready n ?_, fun data => rfl⟩
  unfold Ready
  decide +kernel

end ReadUntil
end Engines
end Hedra
