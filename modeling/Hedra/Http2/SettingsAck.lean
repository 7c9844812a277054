/-
# Acknowledgements of settings

Every `SETTINGS` frame of the peer is to be acknowledged once, after its values are taken, and an
acknowledgement is not to be answered.

`receive_response` (`http2/pipe.py`) answers an acknowledgement as it answers any other `SETTINGS`
frame.  What it has to write is collected over a read and written anew with each addition: a second
`SETTINGS` frame of one read writes the first acknowledgement again, and so does a frame behind it
that sets no `frames` of its own.  And the window of the open stream is not what it should be after a
new initial window: `_guard_increment_window` takes the old window from the largest one, whatever the
peer has asked for (`window_receiveSettings`).

Main results: `along_answered_iff`, an equivalence for every run, and `acks_run`, which counts.
-/
import Hedra.Http2.FlowControl

namespace Hedra
namespace Http2

open Lib Machine

/-! ## 1. What should hold -/

/-- A `SETTINGS` frame with `ACK`. -/
def Frame.IsAck (f : Frame) : Prop := f.payload.type = 0x04 ∧ .ack ∈ f.flags

instance : DecidablePred Frame.IsAck := fun _ => inferInstanceAs (Decidable (_ ∧ _))

namespace Receiving

/-- From `r` to `r'` the values of the peer are taken: in its settings, by the encoder, for the next
frames, and by the window of the open stream, which changes by what the initial window does. -/
structure Applies (r : Receiving) (settings : Dict Nat Nat) (r' : Receiving) : Prop where
  remoteSettings : ∀ key value, settings.get? key = some value →
    r'.pipe.remoteSettings.get? key = some [some value]
  encoderTableSize : ∀ value, settings.get? SettingCode.headerTableSize.code = some value →
    r'.pipe.encoderTableSize = value
  maxFrameSize : ∀ value, settings.get? SettingCode.maxFrameSize.code = some value →
    r'.stream.maxOutboundFrameSize = value
  window : ∀ value ∈ settings.get? SettingCode.initialWindowSize.code,
    r'.stream.currentOutboundWindowSize =
      r.stream.currentOutboundWindowSize + (value - r.pipe.remoteSettings.initialWindowSize)

/-- What `_guard_increment_window` returns for an initial window is the window that the stream should
get: it takes the old window from the largest one. -/
def WindowFits (r : Receiving) (settings : Dict Nat Nat) : Prop :=
  ∀ value ∈ settings.get? SettingCode.initialWindowSize.code,
    Pipe.largestFlowControlWindow - r.stream.currentOutboundWindowSize =
      r.stream.currentOutboundWindowSize + (value - r.pipe.remoteSettings.initialWindowSize)

instance (r : Receiving) (settings : Dict Nat Nat) : Decidable (r.WindowFits settings) :=
  inferInstanceAs (Decidable (∀ value ∈ settings.get? _, _ = _))

end Receiving

namespace Session

/-- The acknowledgements that have been written. -/
def acks (s : Session) : Nat :=
  (s.receiving.written.filterMap Written.frame?).countP fun f => decide f.IsAck

/-- A `SETTINGS` frame without `ACK` is acknowledged once, out of a state that has taken its values;
nothing else is. -/
def Answered (s : Session) : Event → Session → Prop
  | .frame f, s' =>
    match f.payload with
    | .settings settings =>
      if .ack ∈ f.flags then s'.acks = s.acks
      else s'.acks = s.acks + 1 ∧ ∃ r : Receiving, s.read.Applies settings r ∧
        r.written = s.receiving.written ∧ s'.receiving = r.write
    | _ => s'.acks = s.acks
  | _, s' => s'.acks = s.acks

/-- All values of a `SETTINGS` frame are valid. -/
def ValidSettings (settings : Dict Nat Nat) : Prop :=
  ∀ item ∈ settings.items, validSetting item.1 item.2 = true

instance (settings : Dict Nat Nat) : Decidable (ValidSettings settings) :=
  inferInstanceAs (Decidable (∀ item ∈ settings.items, _))

/-- Nothing but one acknowledgement waits to be written when a frame has been dealt with: for
`SETTINGS`, this is the first of its read, it raises or is no acknowledgement, and its initial window
is one that the stream gets; a frame of another type that sets no `frames` does not find any. -/
def AnswersOnce (s : Session) : Event → Session → Prop
  | .frame f, _ =>
    match f.payload with
    | .settings settings =>
      if .ack ∈ f.flags then ¬ ValidSettings settings
      else ValidSettings settings ∧ s.read.writeData = [] ∧ s.read.WindowFits settings
    | .data .. | .goaway .. | .headers .. | .reset .. | .windowupdate .. => True
    | _ => s.read.frames = []
  | _, _ => True

instance (s : Session) : ∀ (ev : Event) (s' : Session), Decidable (s.AnswersOnce ev s')
  | .request _ _, _ => isTrue trivial
  | .endRead _, _ => isTrue trivial
  | .frame ⟨_, _, .settings _⟩, _ => inferInstanceAs (Decidable (ite _ _ _))
  | .frame ⟨_, _, .data ..⟩, _ | .frame ⟨_, _, .goaway ..⟩, _ | .frame ⟨_, _, .headers ..⟩, _
  | .frame ⟨_, _, .reset ..⟩, _ | .frame ⟨_, _, .windowupdate ..⟩, _ => isTrue trivial
  | .frame ⟨_, _, .altsvc ..⟩, _ | .frame ⟨_, _, .continuation ..⟩, _ | .frame ⟨_, _, .ping ..⟩, _
  | .frame ⟨_, _, .priority ..⟩, _ | .frame ⟨_, _, .pushpromise ..⟩, _
  | .frame ⟨_, _, .extension ..⟩, _ => inferInstanceAs (Decidable (_ = _))

end Session

/-! ## 2. One frame -/

namespace Receiving

variable {r r' : Receiving} {f : Frame}

/-- What is written of the engine's own: acknowledgements. -/
def ackFrame : Frame := ⟨0, {.ack}, .settings Dict.empty⟩

theorem isAck_ackFrame : ackFrame.IsAck := by decide

/-- Only acknowledgements wait to be written. -/
structure OnlyAcks (r : Receiving) : Prop where
  frames : ∀ f ∈ r.frames, f.IsAck
  writeData : ∀ f ∈ r.writeData, f.IsAck

theorem countP_written (fs : List Frame) (h : ∀ f ∈ fs, f.IsAck) :
    ((fs.map Written.frame).filterMap Written.frame?).countP (fun f => decide f.IsAck)
      = fs.length := by
  rw [Pipe.filterMap_frame?, List.countP_eq_length]
  exact fun f hf => decide_eq_true (h f hf)

/-- How many acknowledgements `write` writes. -/
def toWrite (r : Receiving) : Nat := if r.frames = [] then 0 else r.writeData.length + r.frames.length

theorem acks_write (h : r.OnlyAcks) :
    (r.write.written.filterMap Written.frame?).countP (fun f => decide f.IsAck) =
      (r.written.filterMap Written.frame?).countP (fun f => decide f.IsAck) + r.toWrite := by
  unfold write toWrite
  split
  · rfl
  · have hall : ∀ f ∈ r.writeData ++ r.frames, f.IsAck := fun f hf =>
      (List.mem_append.mp hf).elim (h.writeData f) (h.frames f)
    simp only [List.filterMap_append, List.countP_append, countP_written _ hall,
      List.length_append]

theorem OnlyAcks.write (h : r.OnlyAcks) : r.write.OnlyAcks := by
  unfold Receiving.write
  split
  · exact h
  · exact ⟨h.frames, fun f hf => (List.mem_append.mp hf).elim (h.writeData f) (h.frames f)⟩

theorem stream_write (r : Receiving) : r.write.stream = r.stream := by
  unfold write
  split <;> rfl

/-- The window of the stream after `SETTINGS` that have an initial window. -/
theorem window_receiveSettings {settings : Dict Nat Nat} (hremote : r.pipe.remoteSettings.Settled)
    (hack : .ack ∉ f.flags) (h : r.receiveSettings f settings = .ok r') :
    ∀ value ∈ settings.get? SettingCode.initialWindowSize.code, r'.stream.currentOutboundWindowSize =
      Pipe.largestFlowControlWindow - r.stream.currentOutboundWindowSize := by
  intro value hkey
  have hsize : ∀ (t : Receiving) c d,
      ((t.changeTableSize c).changeFrameSize d).stream.currentOutboundWindowSize =
        t.stream.currentOutboundWindowSize := by
    rintro t (_ | c) (_ | d) <;> rfl
  unfold receiveSettings at h
  simp only [if_neg hack] at h
  split at h
  · cases h
  · next remote hupdate =>
    have hchange := Settings.change_of_update hremote hupdate
    rw [← Except.ok.inj h]
    simp only [changeRemote, hsize, hchange, Option.mem_def.mp hkey, Option.map_some, changeWindow]
    unfold Pipe.guardIncrementWindow
    split <;> rfl

/-- **The values of a `SETTINGS` frame are taken if and only if** the window of the stream is. -/
theorem applies_receiveSettings_iff {settings : Dict Nat Nat} (hremote : r.pipe.remoteSettings.Settled)
    (hack : .ack ∉ f.flags) (h : r.receiveSettings f settings = .ok r') :
    r.Applies settings r' ↔ r.WindowFits settings := by
  have hstream := window_receiveSettings hremote hack h
  have hwindow : ∀ (t : Receiving) c, (t.changeWindow c).pipe.remoteSettings = t.pipe.remoteSettings := by
    rintro t (_ | c)
    · rfl
    · unfold changeWindow Pipe.guardIncrementWindow
      simp only
      split <;> rfl
  have htable : ∀ (t : Receiving) c, (t.changeTableSize c).pipe.remoteSettings =
      t.pipe.remoteSettings := by
    rintro t (_ | c) <;> rfl
  have hframe : ∀ (t : Receiving) c, (t.changeFrameSize c).pipe = t.pipe := by
    rintro t (_ | c) <;> rfl
  unfold receiveSettings at h
  simp only [if_neg hack] at h
  split at h
  · cases h
  · next remote hupdate =>
    obtain ⟨-, hget⟩ := Settings.acknowledge_of_update hremote hupdate
    have hchange := Settings.change_of_update hremote hupdate
    refine ⟨fun happlies value hkey => (hstream value hkey).symm.trans (happlies.window value hkey),
      fun hfits => ⟨fun key value hkey => ?_, fun value hkey => ?_, fun value hkey => ?_,
        fun value hkey => (hstream value hkey).trans (hfits value hkey)⟩⟩
    all_goals rw [← Except.ok.inj h]
    · simp only [changeRemote, hframe, htable, hwindow, hget, hkey]
    · simp only [changeRemote, hframe, hchange, hkey, Option.map_some, changeTableSize,
        Option.getD_some]
    · simp only [changeRemote, hchange, hkey, Option.map_some, changeFrameSize, Option.getD_some]

/-- A `SETTINGS` frame raises on a value that is not valid, and on nothing else. -/
theorem receiveSettings_ok_iff (settings : Dict Nat Nat) :
    (∃ r', r.receiveSettings f settings = .ok r') ↔ Session.ValidSettings settings := by
  have hsame : (if .ack ∈ f.flags then r.acknowledgeLocal else r).pipe.remoteSettings =
      r.pipe.remoteSettings := by
    split
    · unfold acknowledgeLocal
      simp only
      generalize r.pipe.localSettings.acknowledge = p
      cases p.2 .initialWindowSize <;> cases p.2 .maxFrameSize <;> rfl
    · rfl
  unfold receiveSettings
  simp only [hsame]
  refine Iff.trans ?_ (Settings.update_ok_iff (s := r.pipe.remoteSettings))
  cases r.pipe.remoteSettings.update settings.items with
  | error e => exact iff_of_false (fun ⟨_, h⟩ => nomatch h) (fun ⟨_, h⟩ => nomatch h)
  | ok remote => exact iff_of_true ⟨_, rfl⟩ ⟨_, rfl⟩

/-- **What a frame leaves to be written.** -/
theorem toWrite_dispatch (hr : r.Settled) (honly : r.OnlyAcks) (h : r.dispatch f = .ok r') :
    r'.OnlyAcks ∧ r'.written = r.written ∧ r'.toWrite = match f.payload with
      | .settings _ => r.writeData.length + 1
      | .data .. | .goaway .. | .headers .. | .reset .. | .windowupdate .. => 0
      | _ => r.toWrite := by
  obtain ⟨-, hwritten⟩ := frameTaken_dispatch hr h
  have hnil : ∀ {t : Receiving}, t.frames = [] → t.writeData = r.writeData →
      t.OnlyAcks ∧ t.toWrite = 0 := by
    intro t hframes hwrite
    exact ⟨⟨by simp [hframes], hwrite ▸ honly.writeData⟩, if_pos hframes⟩
  suffices r'.OnlyAcks ∧ r'.toWrite = match f.payload with
      | .settings _ => r.writeData.length + 1
      | .data .. | .goaway .. | .headers .. | .reset .. | .windowupdate .. => 0
      | _ => r.toWrite from ⟨this.1, hwritten, this.2⟩
  unfold dispatch at h
  cases hf : f.payload with
  | data padLength bytes =>
    simp only [hf, receiveData] at h
    split at h
    · cases h
    · rw [← Except.ok.inj h]
      exact hnil rfl rfl
  | headers _ _ _ _ bytes =>
    simp only [hf] at h
    rw [← Except.ok.inj h]
    exact hnil rfl rfl
  | settings settings =>
    simp only [hf] at h
    obtain ⟨htaken, hframes, -, -⟩ := settingsTaken hr.localSettings hr.remoteSettings h
    refine ⟨⟨?_, htaken.writeData ▸ honly.writeData⟩, ?_⟩
    · rw [hframes]
      exact fun f hf => List.mem_singleton.mp hf ▸ isAck_ackFrame
    · rw [toWrite, if_neg (by simp [hframes]), hframes, htaken.writeData]
      rfl
  | windowupdate increment =>
    simp only [hf] at h
    rw [← Except.ok.inj h]
    exact hnil rfl rfl
  | goaway _ _ _ => simp [hf] at h
  | reset _ => simp [hf] at h
  | altsvc _ _ | continuation _ | ping _ | priority _ _ _ | pushpromise _ _ _ | extension _ _ =>
    simp only [hf] at h
    rw [← Except.ok.inj h]
    exact ⟨honly, rfl⟩

theorem onlyAcks_finishEvents (events : List DataReceived) : ∀ {r : Receiving}, r.OnlyAcks →
    (events.foldl finishEvent r).OnlyAcks := by
  induction events with
  | nil => exact fun h => h
  | cons event events ih => exact fun {r} h => ih (r := r.finishEvent event) ⟨h.frames, h.writeData⟩

end Receiving

/-! ## 3. Whole runs -/

namespace Session

variable {s s' : Session} {ev : Event}

/-- What holds of every state. -/
structure AcksWf (s : Session) : Prop where
  wf : s.WindowsWf
  onlyAcks : s.receiving.OnlyAcks

theorem AcksWf.read (h : s.AcksWf) : s.read.OnlyAcks := by
  unfold Session.read
  split
  · exact ⟨fun _ hf => absurd hf List.not_mem_nil, fun _ hf => absurd hf List.not_mem_nil⟩
  · exact h.onlyAcks

/-- A request acknowledges nothing. -/
theorem acks_request (h : s.AcksWf) (dnsAddress : String) (q : Request) :
    (s.request dnsAddress q).acks = s.acks := by
  obtain ⟨data, hframes, -, hdata, -⟩ := Pipe.frames_of_sendRequest s.receiving.pipe
    (s.connection.connect s.receiving.stream dnsAddress).2 q
  obtain ⟨hsent, -⟩ := s.receiving.pipe.headersSent
    (s.connection.connect s.receiving.stream dnsAddress).2 q
  obtain ⟨hstream, -⟩ := s.receiving.pipe.sendRequest_pipe
    (s.connection.connect s.receiving.stream dnsAddress).2 q
  have htype : (s.receiving.pipe.sendRequest (s.connection.connect s.receiving.stream
      dnsAddress).2 q).2.1.headersFrame.payload.type = 0x01 := by
    rw [hstream, hsent.headersType, (s.connection.stream_connect _ _).2]
    exact h.wf.headersType
  have hnone : ((s.receiving.pipe.sendRequest (s.connection.connect s.receiving.stream
      dnsAddress).2 q).2.2.1.filterMap Written.frame?).countP (fun f => decide f.IsAck) = 0 := by
    rw [hframes, List.countP_eq_zero]
    intro f hf
    have hne : f.payload.type ≠ 0x04 := by
      rcases List.mem_cons.mp hf with rfl | hf
      · rw [htype]
        decide
      · rw [(hdata f hf).2]
        decide
    simp [Frame.IsAck, hne]
  have hwritten : (s.request dnsAddress q).receiving.written = s.receiving.written ++
      (s.receiving.pipe.sendRequest (s.connection.connect s.receiving.stream
        dnsAddress).2 q).2.2.1 := rfl
  rw [acks, hwritten, List.filterMap_append, List.countP_append, hnone]
  rfl

/-- Neither does the end of a read. -/
theorem acks_endRead (s : Session) (buffer : FrameBuffer) : (s.endRead buffer).acks = s.acks := by
  obtain ⟨new, hwritten, hnew⟩ := Receiving.written_finishEvents s.read.streamEvents
    { s.read with stream := { s.read.stream with frameBuffer := buffer } }
  have hnone : (new.filterMap Written.frame?).countP (fun f => decide f.IsAck) = 0 := by
    rw [List.countP_eq_zero]
    intro f hf
    simp [Frame.IsAck, (hnew f hf).2.2]
  have hend : (s.endRead buffer).receiving.written = s.read.written ++ new := hwritten
  rw [acks, hend, List.filterMap_append, List.countP_append, hnone, s.read_eq.2.2]
  rfl

/-- **A frame that goes well.** -/
theorem acks_frame {f : Frame} {r : Receiving} (h : s.AcksWf) (hr : s.read.receiveFrame f = .ok r) :
    r.OnlyAcks ∧ ∃ t : Receiving, s.read.dispatch f = .ok t ∧ t.written = s.receiving.written ∧
      r = t.write ∧ ∀ phase ledger, (s.go phase ledger r).acks = s.acks + t.toWrite := by
  obtain ⟨t, ht, rfl⟩ := map_eq_ok_iff.mp hr
  obtain ⟨honly, hwritten, -⟩ := Receiving.toWrite_dispatch h.wf.read h.read ht
  rw [s.read_eq.2.2] at hwritten
  refine ⟨honly.write, t, ht, hwritten, rfl, fun phase ledger => ?_⟩
  have hacks := Receiving.acks_write honly
  rw [hwritten] at hacks
  exact hacks

theorem acksWf_step (h : step s ev = some s') (hwf : s.AcksWf) : s'.AcksWf := by
  refine ⟨windowsWf_step h hwf.wf, ?_⟩
  rcases step_cases h with ⟨dnsAddress, q, rfl, -, rfl⟩ | ⟨f, r, rfl, -, hr, rfl⟩ |
    ⟨f, e, rfl, -, -, rfl⟩ | ⟨buffer, rfl, -, rfl⟩
  · exact ⟨fun _ hf => absurd hf List.not_mem_nil, fun _ hf => absurd hf List.not_mem_nil⟩
  · exact (acks_frame hwf hr).1
  · exact hwf.onlyAcks
  · exact Receiving.onlyAcks_finishEvents _ ⟨hwf.read.frames, hwf.read.writeData⟩

/-- **One frame is answered as it should if and only if** nothing else waits to be written. -/
theorem answered_frame_iff {f : Frame} {r : Receiving} (h : s.AcksWf)
    (hr : s.read.receiveFrame f = .ok r) (phase : Phase) (ledger : Ledger) :
    s.Answered (.frame f) (s.go phase ledger r) ↔ s.AnswersOnce (.frame f) (s.go phase ledger r) := by
  obtain ⟨-, t, ht, hwritten, rfl, hacks⟩ := acks_frame h hr
  obtain ⟨-, -, htoWrite⟩ := Receiving.toWrite_dispatch h.wf.read h.read ht
  unfold Answered AnswersOnce
  simp only [hacks]
  cases hf : f.payload with
  | settings settings =>
    have hsettings : s.read.receiveSettings f settings = .ok t := by
      rw [← ht, Receiving.dispatch, hf]
    have hvalid : ValidSettings settings :=
      (Receiving.receiveSettings_ok_iff settings).mp ⟨t, hsettings⟩
    simp only [hf] at htoWrite ⊢
    rw [htoWrite]
    by_cases hack : .ack ∈ f.flags
    · rw [if_pos hack, if_pos hack]
      exact iff_of_false (by omega) (not_not_intro hvalid)
    · rw [if_neg hack, if_neg hack]
      have hone : s.acks + (s.read.writeData.length + 1) = s.acks + 1 ↔ s.read.writeData = [] := by
        rw [← List.length_eq_zero_iff]
        omega
      rw [hone]
      have happlies := Receiving.applies_receiveSettings_iff h.wf.read.remoteSettings hack hsettings
      constructor
      · rintro ⟨hfirst, r, hr, -, hwrite⟩
        -- writing leaves the stream as it is, so it is the one that the frame has left
        have hstream : t.stream = r.stream := by
          rw [← Receiving.stream_write t, ← Receiving.stream_write r]
          exact congrArg Receiving.stream hwrite
        refine ⟨hvalid, hfirst, fun value hkey => ?_⟩
        rw [← Receiving.window_receiveSettings h.wf.read.remoteSettings hack hsettings value hkey,
          hstream]
        exact hr.window value hkey
      · rintro ⟨-, hfirst, hfits⟩
        exact ⟨hfirst, t, happlies.mpr hfits, hwritten, rfl⟩
  | data _ _ | goaway _ _ _ | headers _ _ _ _ _ | reset _ | windowupdate _ =>
    simp only [hf] at htoWrite ⊢
    exact iff_of_true (by omega) trivial
  | altsvc _ _ | continuation _ | ping _ | priority _ _ _ | pushpromise _ _ _ | extension _ _ =>
    simp only [hf] at htoWrite ⊢
    rw [htoWrite, Nat.add_eq_left, Receiving.toWrite]
    by_cases hframes : s.read.frames = []
    · rw [if_pos hframes]
      exact iff_of_true rfl hframes
    · rw [if_neg hframes]
      have hpos := List.length_pos_of_ne_nil hframes
      exact iff_of_false (by omega) hframes

/-- A frame that is raised on: it is not answered. -/
theorem answered_error_iff {f : Frame} {e : Error} (h : s.read.receiveFrame f = .error e)
    (ledger : Ledger) : s.Answered (.frame f) { s with phase := .closed, ledger := ledger } ↔
      s.AnswersOnce (.frame f) { s with phase := .closed, ledger := ledger } := by
  have hacks : ({ s with phase := .closed, ledger := ledger } : Session).acks = s.acks := rfl
  have hdispatch : ∀ t, s.read.dispatch f ≠ .ok t := by
    intro t ht
    rw [Receiving.receiveFrame, ht] at h
    cases h
  unfold Answered AnswersOnce
  simp only [hacks]
  unfold Receiving.dispatch at hdispatch
  cases hf : f.payload with
  | settings settings =>
    simp only [hf] at hdispatch ⊢
    have hvalid : ¬ ValidSettings settings := fun hvalid =>
      ((Receiving.receiveSettings_ok_iff settings).mpr hvalid).elim hdispatch
    by_cases hack : .ack ∈ f.flags
    · simp only [if_pos hack]
      exact iff_of_true trivial hvalid
    · rw [if_neg hack, if_neg hack]
      exact iff_of_false (by omega) (fun h => hvalid h.1)
  | data _ _ | goaway _ _ _ | headers _ _ _ _ _ | reset _ | windowupdate _ =>
    exact iff_of_true trivial trivial
  | altsvc _ _ | continuation _ | ping _ | priority _ _ _ | pushpromise _ _ _ | extension _ _ =>
    simp only [hf] at hdispatch
    exact absurd rfl (hdispatch _)

/-- **One step.** -/
theorem answered_step_iff (hwf : s.AcksWf) (h : step s ev = some s') :
    s.Answered ev s' ↔ s.AnswersOnce ev s' := by
  rcases step_cases h with ⟨dnsAddress, q, rfl, -, rfl⟩ | ⟨f, r, rfl, -, hr, rfl⟩ |
    ⟨f, e, rfl, -, he, rfl⟩ | ⟨buffer, rfl, -, rfl⟩
  · exact iff_of_true (acks_request hwf dnsAddress q) trivial
  · exact answered_frame_iff hwf hr _ _
  · exact answered_error_iff he _
  · exact iff_of_true (s.acks_endRead buffer) trivial

theorem acksWf_init {streamId : Int} {concurrency n : Nat} {resetConnection : Bool}
    {connection : Connection} {stream : Stream}
    (h : Connection.create streamId concurrency resetConnection = .ok (connection, stream)) :
    (init connection stream n).AcksWf :=
  ⟨windowsWf_init h, fun _ hf => absurd hf List.not_mem_nil, fun _ hf => absurd hf List.not_mem_nil⟩

/-- **The settings of a run are answered as they should if and only if** at every frame of it
nothing but its own acknowledgement waits to be written. -/
theorem along_answered_iff {streamId : Int} {concurrency n : Nat} {resetConnection : Bool}
    {connection : Connection} {stream : Stream}
    (h : Connection.create streamId concurrency resetConnection = .ok (connection, stream))
    (evs : List Event) :
    Along step Answered (init connection stream n) evs ↔
      Along step AnswersOnce (init connection stream n) evs :=
  along_iff_of_invariant (J := AcksWf)
    (fun _ _ _ hs hstep => ⟨acksWf_step hstep hs, answered_step_iff hs hstep⟩) (acksWf_init h)

/-- A `SETTINGS` frame that asks for an acknowledgement. -/
def Event.asks : Event → Bool
  | .frame ⟨_, flags, .settings _⟩ => decide (.ack ∉ flags)
  | _ => false

/-- **One for one**: a run whose frames are answered as they should be has written as many
acknowledgements as it was asked for. -/
theorem acks_run {evs : List Event} (h : Along step Answered s evs) (hr : run step s evs = some s') :
    s'.acks = s.acks + evs.countP Event.asks := by
  induction evs generalizing s with
  | nil =>
    rw [run_nil, Option.some.injEq] at hr
    rw [hr]
    rfl
  | cons ev evs ih =>
    obtain ⟨t, ht, hr⟩ := run_cons_eq_some.mp hr
    obtain ⟨hanswered, hrest⟩ := h t ht
    have hone : t.acks = s.acks + if ev.asks then 1 else 0 := by
      cases ev with
      | request _ _ | endRead _ => exact hanswered
      | frame f =>
        obtain ⟨streamId, flags, payload⟩ := f
        unfold Answered at hanswered
        cases payload with
        | settings settings =>
          by_cases hack : .ack ∈ flags
          · have hasks : (Event.frame ⟨streamId, flags, .settings settings⟩).asks = false :=
              decide_eq_false (not_not_intro hack)
            simp only [if_pos hack] at hanswered
            rw [hasks, hanswered]
            rfl
          · have hasks : (Event.frame ⟨streamId, flags, .settings settings⟩).asks = true :=
              decide_eq_true hack
            rw [hasks]
            simp only [if_neg hack] at hanswered
            exact hanswered.1
        | data _ _ | goaway _ _ _ | headers _ _ _ _ _ | reset _ | windowupdate _ | altsvc _ _
        | continuation _ | ping _ | priority _ _ _ | pushpromise _ _ _ | extension _ _ =>
          exact hanswered
    rw [ih hrest hr, hone, List.countP_cons, Nat.add_assoc, Nat.add_comm (evs.countP _)]

/-- The settings of the peer, and those after a read of their own. -/
theorem answered_settings : ∃ connection stream,
    Connection.create 7 1 false = .ok (connection, stream) ∧
      Along step Answered (init connection stream 1)
        [.request "10.0.0.1" ⟨[0x82], none⟩, .frame ⟨0, ∅, .settings (Dict.empty.set 3 100)⟩,
          .endRead ⟨[], []⟩, .frame ⟨0, ∅, .settings (Dict.empty.set 5 16384)⟩] :=
  ⟨_, _, rfl, (@along_answered_iff 7 1 1 false _ _ rfl _).mpr (by decide)⟩

/-- The peer acknowledges our settings, and gets an acknowledgement. -/
theorem not_answered_ack : ∃ connection stream,
    Connection.create 7 1 false = .ok (connection, stream) ∧
      ¬ Along step Answered (init connection stream 1)
        [.request "10.0.0.1" ⟨[0x82], none⟩, .frame ⟨0, {.ack}, .settings Dict.empty⟩] := by
  refine ⟨_, _, rfl, fun h => ?_⟩
  have hacks : (1 : Nat) = 0 := ((h _ rfl).2 _ rfl).1
  exact absurd hacks (by decide)

end Session

end Http2
end Hedra
