/-
# Flow control

A session (`Session.lean`, of `core/engines/types/http2/pipe.py`) against the ledger of what is
granted and used on the wire.

Outbound, the connection's window is followed, but the window of a stream is not: it only bounds the
length of a frame.  And any `WINDOW_UPDATE`, of the connection or of a stream, sets the connection's
window to what is missing from the largest one, instead of adding to it.

Inbound, every request opens the window of its stream by 65536 in our own books, and nothing of this
is sent.

* `credit_step`: one step that goes well keeps to what the peer has granted;
* `along_creditKept`: so does a run of such steps;
* `never_agrees`: and after its first request no run has the inbound window right.
-/
import Hedra.Http2.Session
import Mathlib.Algebra.BigOperators.Group.List.Basic

namespace Hedra
namespace Http2

open Lib Machine

/-! ## 1. What frames do to the windows -/

namespace Receiving

variable {r r' : Receiving} {f : Frame}

theorem acknowledgeLocal_of_settled (h : r.pipe.localSettings.Settled) : r.acknowledgeLocal = r := by
  obtain ⟨hsame, hnone⟩ := Settings.acknowledge_of_settled h
  unfold acknowledgeLocal
  simp only [hsame, hnone]
  rfl

/-- What `SETTINGS` leave as it is, when our own have been acknowledged before. -/
structure SettingsTaken (r r' : Receiving) : Prop where
  writeData : r'.writeData = r.writeData
  written : r'.written = r.written
  inbound : r'.stream.inbound = r.stream.inbound
  localSettings : r'.pipe.localSettings = r.pipe.localSettings

theorem SettingsTaken.trans {s t : Receiving} (h : r.SettingsTaken s) (h' : s.SettingsTaken t) :
    r.SettingsTaken t :=
  ⟨h'.writeData.trans h.writeData, h'.written.trans h.written, h'.inbound.trans h.inbound,
    h'.localSettings.trans h.localSettings⟩

/-- The window of the connection, when a stream's window is changed. -/
def windowAfter (r : Receiving) (settings : Dict Nat Nat) : Int :=
  match settings.get? SettingCode.initialWindowSize.code with
  | none => r.pipe.outboundFlowControlWindow
  | some window =>
    if r.stream.currentOutboundWindowSize + (window - r.pipe.remoteSettings.initialWindowSize) >
        Pipe.largestFlowControlWindow then (window : Int)
    else r.pipe.outboundFlowControlWindow

theorem changeRemote_spec (r : Receiving) (changes : SettingCode → Option ChangedSetting) :
    r.SettingsTaken (r.changeRemote changes) ∧
      (r.changeRemote changes).pipe.remoteSettings = r.pipe.remoteSettings ∧
      (r.changeRemote changes).pipe.outboundFlowControlWindow =
        match changes .initialWindowSize with
        | none => r.pipe.outboundFlowControlWindow
        | some c =>
          if r.stream.currentOutboundWindowSize + delta c > Pipe.largestFlowControlWindow then
            (r.pipe.remoteSettings.initialWindowSize : Int)
          else r.pipe.outboundFlowControlWindow := by
  have hsize : ∀ (t : Receiving) c, t.SettingsTaken (t.changeFrameSize c) ∧
      (t.changeFrameSize c).pipe = t.pipe := by
    rintro t (_ | c) <;> exact ⟨⟨rfl, rfl, rfl, rfl⟩, rfl⟩
  have htable : ∀ (t : Receiving) c, t.SettingsTaken (t.changeTableSize c) ∧
      (t.changeTableSize c).pipe.remoteSettings = t.pipe.remoteSettings ∧
      (t.changeTableSize c).pipe.outboundFlowControlWindow = t.pipe.outboundFlowControlWindow := by
    rintro t (_ | c) <;> exact ⟨⟨rfl, rfl, rfl, rfl⟩, rfl, rfl⟩
  have hwindow : ∀ c, r.SettingsTaken (r.changeWindow c) ∧
      (r.changeWindow c).pipe.remoteSettings = r.pipe.remoteSettings ∧
      (r.changeWindow c).pipe.outboundFlowControlWindow =
        match c with
        | none => r.pipe.outboundFlowControlWindow
        | some c =>
          if r.stream.currentOutboundWindowSize + delta c > Pipe.largestFlowControlWindow then
            (r.pipe.remoteSettings.initialWindowSize : Int)
          else r.pipe.outboundFlowControlWindow := by
    rintro (_ | c)
    · exact ⟨⟨rfl, rfl, rfl, rfl⟩, rfl, rfl⟩
    · unfold changeWindow Pipe.guardIncrementWindow
      simp only
      split <;> exact ⟨⟨rfl, rfl, rfl, rfl⟩, rfl, rfl⟩
  obtain ⟨hw, hwr, hwo⟩ := hwindow (changes .initialWindowSize)
  obtain ⟨ht, htr, hto⟩ := htable (r.changeWindow (changes .initialWindowSize))
    (changes .headerTableSize)
  obtain ⟨hs, hsp⟩ := hsize ((r.changeWindow (changes .initialWindowSize)).changeTableSize
    (changes .headerTableSize)) (changes .maxFrameSize)
  refine ⟨(hw.trans ht).trans hs, ?_, ?_⟩
  · rw [changeRemote, hsp, htr, hwr]
  · rw [changeRemote, hsp, hto, hwo]

/-- **A `SETTINGS` frame.** -/
theorem settingsTaken {settings : Dict Nat Nat} (hlocal : r.pipe.localSettings.Settled)
    (hremote : r.pipe.remoteSettings.Settled) (h : r.receiveSettings f settings = .ok r') :
    r.SettingsTaken r' ∧ r'.frames = [⟨0, {.ack}, .settings Dict.empty⟩] ∧
      r'.pipe.remoteSettings.Settled ∧
      r'.pipe.outboundFlowControlWindow = r.windowAfter settings := by
  have hack : (if .ack ∈ f.flags then r.acknowledgeLocal else r) = r := by
    split
    · exact acknowledgeLocal_of_settled hlocal
    · rfl
  unfold receiveSettings at h
  simp only [hack] at h
  split at h
  · cases h
  · next remote hupdate =>
    obtain ⟨hsettled, hget⟩ := Settings.acknowledge_of_update hremote hupdate
    have hchange := Settings.change_of_update hremote hupdate .initialWindowSize
    obtain ⟨htaken, hsame, hwindow⟩ := changeRemote_spec
      { r with pipe := { r.pipe with remoteSettings := remote.acknowledge.1 } } remote.acknowledge.2
    have hlocal : r.SettingsTaken
        { r with pipe := { r.pipe with remoteSettings := remote.acknowledge.1 } } :=
      ⟨rfl, rfl, rfl, rfl⟩
    have htaken := hlocal.trans htaken
    rw [← Except.ok.inj h]
    refine ⟨⟨htaken.writeData, htaken.written, htaken.inbound, htaken.localSettings⟩, rfl, ?_, ?_⟩
    · rw [hsame]
      exact hsettled
    · rw [hwindow, hchange, windowAfter]
      have hinitial := hget SettingCode.initialWindowSize.code
      cases hw : settings.get? SettingCode.initialWindowSize.code with
      | none => rfl
      | some window =>
        rw [hw] at hinitial
        have hnew : remote.acknowledge.1.initialWindowSize = window := by
          unfold Settings.initialWindowSize Settings.getItem
          rw [hinitial]
          rfl
        simp only [Option.map_some, hnew]
        rfl

/-- Whatever waits to be written acknowledges settings. -/
def Acks (frames : List Frame) : Prop := ∀ f ∈ frames, ∃ settings, f.payload = .settings settings

/-- Our settings have all been acknowledged, those of the peer are taken, and only acknowledgements
wait to be written. -/
structure Settled (r : Receiving) : Prop where
  localSettings : r.pipe.localSettings.Settled
  remoteSettings : r.pipe.remoteSettings.Settled
  frames : Acks r.frames
  writeData : Acks r.writeData

/-- **What a frame does to the windows.** -/
structure FrameTaken (r : Receiving) (f : Frame) (r' : Receiving) : Prop where
  settled : r'.Settled
  localSettings : r'.pipe.localSettings = r.pipe.localSettings
  inbound : r'.stream.inbound = match f.payload with
    | .data _ _ => r.stream.inbound.map (·.windowConsumed f.flowControlledLength)
    | _ => r.stream.inbound
  window : r'.pipe.outboundFlowControlWindow = match f.payload with
    | .windowupdate _ => Pipe.largestFlowControlWindow - r.pipe.outboundFlowControlWindow
    | .settings settings => r.windowAfter settings
    | _ => r.pipe.outboundFlowControlWindow
  streamWindow : ∀ increment, f.payload = .windowupdate increment →
    r'.stream.currentOutboundWindowSize = r.stream.currentOutboundWindowSize

theorem acks_nil : Acks [] := fun _ h => absurd h List.not_mem_nil

theorem frameTaken_dispatch (hr : r.Settled) (h : r.dispatch f = .ok r') :
    r.FrameTaken f r' ∧ r'.written = r.written := by
  have hnil : ∀ {t : Receiving}, t.pipe.localSettings = r.pipe.localSettings →
      t.pipe.remoteSettings = r.pipe.remoteSettings → t.frames = [] → t.writeData = r.writeData →
        t.Settled := by
    intro t hlocal hremote hframes hwrite
    exact ⟨hlocal ▸ hr.localSettings, hremote ▸ hr.remoteSettings, hframes ▸ acks_nil,
      hwrite ▸ hr.writeData⟩
  unfold dispatch at h
  cases hf : f.payload with
  | data padLength bytes =>
    simp only [hf, receiveData] at h
    split at h
    · cases h
    · next w hw =>
      rw [← Except.ok.inj h]
      refine ⟨⟨hnil rfl rfl rfl rfl, rfl, ?_, by rw [hf], fun i hi => (nomatch hf.symm.trans hi)⟩, rfl⟩
      rw [hf, hw]
      rfl
  | headers _ _ _ _ bytes =>
    simp only [hf] at h
    rw [← Except.ok.inj h]
    exact ⟨⟨hnil rfl rfl rfl rfl, rfl, by rw [hf], by rw [hf],
      fun i hi => (nomatch hf.symm.trans hi)⟩, rfl⟩
  | settings settings =>
    simp only [hf] at h
    obtain ⟨htaken, hframes, hsettled, hwindow⟩ :=
      settingsTaken hr.localSettings hr.remoteSettings h
    refine ⟨⟨⟨?_, hsettled, ?_, ?_⟩, htaken.localSettings, ?_, by rw [hf, hwindow],
      fun i hi => (nomatch hf.symm.trans hi)⟩, htaken.written⟩
    · rw [htaken.localSettings]
      exact hr.localSettings
    · rw [hframes]
      exact fun g hg => ⟨Dict.empty, by rw [List.mem_singleton.mp hg]⟩
    · rw [htaken.writeData]
      exact hr.writeData
    · rw [hf, htaken.inbound]
  | windowupdate increment =>
    simp only [hf] at h
    rw [← Except.ok.inj h]
    have hguard : ∀ c i, (r.pipe.guardIncrementWindow c i).1.localSettings = r.pipe.localSettings ∧
        (r.pipe.guardIncrementWindow c i).1.remoteSettings = r.pipe.remoteSettings ∧
        (r.pipe.guardIncrementWindow c i).2 = Pipe.largestFlowControlWindow - c := by
      intro c i
      unfold Pipe.guardIncrementWindow
      split <;> exact ⟨rfl, rfl, rfl⟩
    obtain ⟨hlocal, hremote, hwindow⟩ := hguard r.pipe.outboundFlowControlWindow increment
    exact ⟨⟨hnil hlocal hremote rfl rfl, hlocal, by rw [hf]; rfl, by rw [hf]; exact hwindow,
      fun _ _ => rfl⟩, rfl⟩
  | goaway _ _ _ => simp [hf] at h
  | reset _ => simp [hf] at h
  | altsvc _ _ | continuation _ | ping _ | priority _ _ _ | pushpromise _ _ _ | extension _ _ =>
    simp only [hf] at h
    rw [← Except.ok.inj h]
    exact ⟨⟨hr, rfl, by rw [hf], by rw [hf], fun i hi => (nomatch hf.symm.trans hi)⟩, rfl⟩

/-- **A frame out of the buffer**: what is written acknowledges settings. -/
theorem frameTaken (hr : r.Settled) (h : r.receiveFrame f = .ok r') :
    r.FrameTaken f r' ∧ ∃ new, Acks new ∧ r'.written = r.written ++ new.map .frame := by
  obtain ⟨t, ht, rfl⟩ := map_eq_ok_iff.mp h
  obtain ⟨htaken, hwritten⟩ := frameTaken_dispatch hr ht
  unfold write
  split
  · exact ⟨htaken, [], acks_nil, by simp [hwritten]⟩
  · have hall : Acks (t.writeData ++ t.frames) := by
      intro g hg
      exact (List.mem_append.mp hg).elim (htaken.settled.writeData g) (htaken.settled.frames g)
    refine ⟨⟨⟨htaken.settled.localSettings, htaken.settled.remoteSettings, htaken.settled.frames,
      hall⟩, htaken.localSettings, htaken.inbound, htaken.window, htaken.streamWindow⟩,
      t.writeData ++ t.frames, hall, ?_⟩
    simp only [hwritten]

end Receiving

/-! ## 2. What is written, in the ledger -/

namespace Ledger

theorem send_frame (streamId : Int) (l : Ledger) (f : Frame) :
    let l' := send streamId l (.frame f)
    l'.peerInitialWindow = l.peerInitialWindow ∧
      l'.outConnection =
        ⟨l.outConnection.granted, l.outConnection.used + f.flowControlledLength⟩ ∧
      l'.outStream = ⟨l.outStream.granted, l.outStream.used + f.flowControlledLength⟩ ∧
      ((f.payload.type = 8 → f.streamId = 0) → l'.inStream = l.inStream) := by
  have hzero : (∀ padLength bytes, f.payload ≠ .data padLength bytes) →
      f.flowControlledLength = 0 := by
    intro hne
    unfold Frame.flowControlledLength
    split
    · next hp => exact absurd hp (hne _ _)
    · rfl
  unfold send
  simp only
  split
  · exact ⟨rfl, rfl, rfl, fun _ => rfl⟩
  · next increment hp =>
    rw [hzero (by simp [hp])]
    split
    · exact ⟨rfl, by simp, by simp, fun _ => rfl⟩
    · next hne =>
      have hcontra : ¬ (f.payload.type = 8 → f.streamId = 0) := fun h => hne (h (by rw [hp]; rfl))
      split
      · exact ⟨rfl, by simp, by simp, fun h => absurd h hcontra⟩
      · exact ⟨rfl, by simp, by simp, fun _ => rfl⟩
  · next hdata _ =>
    rw [hzero hdata]
    exact ⟨rfl, by simp, by simp, fun _ => rfl⟩

/-- The `DATA` that is written is used; and nothing else but a `WINDOW_UPDATE` grants anything. -/
theorem foldl_send (streamId : Int) (ws : List Written) : ∀ l : Ledger,
    let l' := ws.foldl (send streamId) l
    let length : Int := Pipe.dataLength (ws.filterMap Written.frame?)
    l'.peerInitialWindow = l.peerInitialWindow ∧
      l'.outConnection = ⟨l.outConnection.granted, l.outConnection.used + length⟩ ∧
      l'.outStream = ⟨l.outStream.granted, l.outStream.used + length⟩ ∧
      ((∀ f ∈ ws.filterMap Written.frame?, f.payload.type = 8 → f.streamId = 0) →
        l'.inStream = l.inStream) := by
  induction ws with
  | nil => exact fun l => ⟨rfl, by simp [Pipe.dataLength], by simp [Pipe.dataLength], fun _ => rfl⟩
  | cons w ws ih =>
    intro l
    obtain ⟨hinitial, hconnection, hstream, hin⟩ := ih (send streamId l w)
    cases w with
    | connectionData data => exact ⟨hinitial, hconnection, hstream, hin⟩
    | frame f =>
      obtain ⟨hinitial', hconnection', hstream', hin'⟩ := send_frame streamId l f
      have hlength : (Pipe.dataLength ((Written.frame f :: ws).filterMap Written.frame?) : Int) =
          f.flowControlledLength + Pipe.dataLength (ws.filterMap Written.frame?) := by
        rw [List.filterMap_cons_some (by rfl : Written.frame? (.frame f) = some f), Pipe.dataLength,
          List.map_cons, List.sum_cons, Nat.cast_add]
        rfl
      simp only [List.foldl_cons]
      rw [hlength]
      refine ⟨hinitial.trans hinitial', ?_, ?_, fun hall => ?_⟩
      · rw [hconnection, hconnection', Int.add_assoc]
      · rw [hstream, hstream', Int.add_assoc]
      · rw [List.filterMap_cons_some (by rfl : Written.frame? (.frame f) = some f),
          List.forall_mem_cons] at hall
        exact (hin hall.2).trans (hin' hall.1)

/-- What a frame of the peer grants. -/
theorem receive_out (streamId : Int) (l : Ledger) (f : Frame) :
    let l' := l.receive streamId f
    (0 ≤ l.peerInitialWindow → 0 ≤ l'.peerInitialWindow) ∧
      l'.outConnection.used = l.outConnection.used ∧
      l'.outConnection.granted = l.outConnection.granted + match f.payload with
        | .windowupdate increment => if f.streamId = 0 then (increment : Int) else 0
        | _ => 0 := by
  unfold receive
  cases f.payload with
  | settings settings =>
    simp only
    split
    · exact ⟨fun h => h, rfl, (Int.add_zero _).symm⟩
    · exact ⟨fun _ => Int.natCast_nonneg _, rfl, (Int.add_zero _).symm⟩
  | windowupdate increment =>
    simp only
    split
    · exact ⟨fun h => h, rfl, rfl⟩
    · split <;> exact ⟨fun h => h, rfl, (Int.add_zero _).symm⟩
  | data _ _ | altsvc _ _ | continuation _ | goaway _ _ _ | headers _ _ _ _ _ | ping _
  | priority _ _ _ | pushpromise _ _ _ | reset _ | extension _ _ =>
    exact ⟨fun h => h, rfl, (Int.add_zero _).symm⟩

/-- Acknowledgements change nothing. -/
theorem foldl_send_acks (streamId : Int) {new : List Frame} (hnew : Receiving.Acks new)
    (l : Ledger) : (new.map .frame).foldl (send streamId) l = l := by
  induction new with
  | nil => rfl
  | cons f new ih =>
    obtain ⟨settings, hf⟩ := hnew f List.mem_cons_self
    have hsame : send streamId l (.frame f) = l := by
      unfold send
      simp only [hf]
    rw [List.map_cons, List.foldl_cons, hsame]
    exact ih fun g hg => hnew g (List.mem_cons_of_mem f hg)

end Ledger

/-- What the end of a read writes: updates of the connection's window. -/
theorem Receiving.written_finishEvents (events : List DataReceived) : ∀ r : Receiving,
    ∃ new, (events.foldl finishEvent r).written = r.written ++ new ∧
      ∀ f ∈ new.filterMap Written.frame?,
        f.streamId = 0 ∧ f.flowControlledLength = 0 ∧ f.payload.type = 0x08 := by
  induction events with
  | nil => exact fun r => ⟨[], by simp, by simp⟩
  | cons event events ih =>
    intro r
    obtain ⟨new, hnew, hall⟩ := ih (r.finishEvent event)
    refine ⟨_, by rw [List.foldl_cons, hnew, finishEvent, List.append_assoc], ?_⟩
    intro f hf
    rw [List.filterMap_append] at hf
    rcases List.mem_append.mp hf with hf | hf
    · split at hf
      · cases hf
      · rw [List.mem_singleton.mp hf]
        exact ⟨rfl, rfl, rfl⟩
    · exact hall f hf

/-! ## 3. What every state has -/

namespace Session

variable {s s' : Session} {ev : Event}

/-- The settings of both sides are the current ones, and the headers frame is one. -/
structure WindowsWf (s : Session) : Prop where
  settled : s.receiving.Settled
  localWindow : s.receiving.pipe.localSettings.initialWindowSize = 65535
  resetConnection : s.receiving.stream.resetConnection = false
  initSent : s.connection.connected = true → s.receiving.pipe.initSent = true
  headersType : s.receiving.stream.headersFrame.payload.type = 1

theorem WindowsWf.read (h : s.WindowsWf) : s.read.Settled := by
  unfold Session.read
  split
  · exact ⟨h.settled.localSettings, h.settled.remoteSettings, Receiving.acks_nil,
      Receiving.acks_nil⟩
  · exact h.settled

/-- The rest of a state stays as it is while a response is received. -/
theorem WindowsWf.go (h : s.WindowsWf) {r : Receiving} (hsame : s.read.SameStream r)
    (hsettled : r.Settled) (hlocal : r.pipe.localSettings = s.read.pipe.localSettings)
    (phase : Phase) (ledger : Ledger) : (s.go phase ledger r).WindowsWf := by
  obtain ⟨hpipe, hstream, -⟩ := s.read_eq
  obtain ⟨hheaders, -, hreset, hinit⟩ := hsame
  rw [hstream] at hheaders hreset
  rw [hpipe] at hinit hlocal
  refine ⟨hsettled, ?_, hreset.trans h.resetConnection, fun hc => hinit.trans (h.initSent hc), ?_⟩
  · rw [← h.localWindow, ← hlocal]
    rfl
  · rw [← h.headersType, ← hheaders]
    rfl

theorem settled_finishEvents (events : List DataReceived) : ∀ {r : Receiving}, r.Settled →
    (events.foldl Receiving.finishEvent r).Settled ∧
      (events.foldl Receiving.finishEvent r).pipe.localSettings = r.pipe.localSettings ∧
      (events.foldl Receiving.finishEvent r).pipe.outboundFlowControlWindow =
        r.pipe.outboundFlowControlWindow := by
  induction events with
  | nil => exact fun h => ⟨h, rfl, rfl⟩
  | cons event events ih =>
    intro r h
    exact ih (r := r.finishEvent event) ⟨h.localSettings, h.remoteSettings, h.frames, h.writeData⟩

/-- **Every step keeps this.** -/
theorem windowsWf_step (h : step s ev = some s') (hwf : s.WindowsWf) : s'.WindowsWf := by
  rcases step_cases h with ⟨dnsAddress, q, rfl, -, rfl⟩ | ⟨f, r, rfl, -, hr, rfl⟩ |
    ⟨f, e, rfl, -, -, rfl⟩ | ⟨buffer, rfl, -, rfl⟩
  · -- a request
    obtain ⟨hreset, hpayload⟩ := s.connection.stream_connect s.receiving.stream dnsAddress
    obtain ⟨hstream, hinit, hlocal, hremote⟩ := s.receiving.pipe.sendRequest_pipe
      (s.connection.connect s.receiving.stream dnsAddress).2 q
    obtain ⟨hsent, -⟩ := s.receiving.pipe.headersSent
      (s.connection.connect s.receiving.stream dnsAddress).2 q
    refine ⟨⟨?_, ?_, Receiving.acks_nil, Receiving.acks_nil⟩, ?_, ?_, fun _ => hinit, ?_⟩
    · exact hlocal ▸ hwf.settled.localSettings
    · exact hremote ▸ hwf.settled.remoteSettings
    · exact (congrArg Settings.initialWindowSize hlocal).trans hwf.localWindow
    · exact ((congrArg Stream.resetConnection hstream).trans hsent.resetConnection).trans
        (hreset.trans hwf.resetConnection)
    · refine ((congrArg (fun t : Stream => t.headersFrame.payload.type) hstream).trans
        hsent.headersType).trans ?_
      rw [hpayload]
      exact hwf.headersType
  · -- a frame
    obtain ⟨htaken, -⟩ := Receiving.frameTaken hwf.read hr
    exact hwf.go (Receiving.sameStream_receiveFrame hr) htaken.settled htaken.localSettings _ _
  · -- a frame that is raised on
    exact ⟨hwf.settled, hwf.localWindow, hwf.resetConnection, hwf.initSent, hwf.headersType⟩
  · -- the end of a read
    have hread := hwf.read
    obtain ⟨hsettled, hlocal, -⟩ := settled_finishEvents s.read.streamEvents
      (r := { s.read with stream := { s.read.stream with frameBuffer := buffer } })
      ⟨hread.localSettings, hread.remoteSettings, hread.frames, hread.writeData⟩
    have hbuffer : s.read.SameStream
        { s.read with stream := { s.read.stream with frameBuffer := buffer } } := ⟨rfl, rfl, rfl, rfl⟩
    exact hwf.go (hbuffer.trans (Receiving.sameStream_finishEvents _ _)) hsettled hlocal _ _

/-- A connection that has just been made. -/
theorem windowsWf_init {streamId : Int} {concurrency n : Nat} {resetConnection : Bool}
    {connection : Connection} {stream : Stream}
    (h : Connection.create streamId concurrency resetConnection = .ok (connection, stream)) :
    (init connection stream n).WindowsWf := by
  obtain ⟨settingsData, -, h⟩ := bind_eq_ok_iff.mp h
  obtain ⟨rfl, rfl⟩ := Prod.mk.inj (Except.ok.inj h)
  exact ⟨⟨(Settings.settled_init _ _).erase _, Settings.settled_init _ _, Receiving.acks_nil,
    Receiving.acks_nil⟩, rfl, rfl, fun h => (nomatch h), rfl⟩

end Session

/-! ## 4. Outbound -/

namespace Session

variable {s s' : Session} {ev : Event}

/-- The windows that the engine keeps. -/
def connectionWindow (s : Session) : Int := s.receiving.pipe.outboundFlowControlWindow

def streamWindow (s : Session) : Int := s.receiving.stream.currentOutboundWindowSize

/-- What should hold of a step: no more is sent than is granted, and a `WINDOW_UPDATE` raises its
window by its increment. -/
def CreditKept (s : Session) : Event → Session → Prop
  | .request _ _, s' =>
    s'.ledger.outStream.used ≤ s'.ledger.outStream.granted ∧
      s'.ledger.outConnection.used ≤ s'.ledger.outConnection.granted
  | .frame f, s' =>
    match f.payload with
    | .windowupdate increment =>
      s'.connectionWindow = s.connectionWindow + (if f.streamId = 0 then increment else 0) ∧
        s'.streamWindow = s.streamWindow +
          (if f.streamId ≠ 0 ∧ f.streamId = s.currentId then increment else 0)
    | _ => True
  | .endRead _, _ => True

/-- What the peer grants the stream of a request. -/
def grant (s : Session) (dnsAddress : String) : Int :=
  if s.connection.Reconnects dnsAddress then 65535 else s.ledger.peerInitialWindow

/-- The window of the connection when a request sends its body. -/
def windowBefore (s : Session) : Int := s.receiving.pipe.windowBefore s.receiving.stream

/-- The steps that go well.  What is sent of a body fits in the window of its stream, and a new TCP
connection does not take over a larger window.  A `WINDOW_UPDATE` is one of the connection that
happens to ask for what is missing from the largest window.  And `SETTINGS` do not set back the
window of the connection to a larger one. -/
def StaysInWindow (s : Session) : Event → Session → Prop
  | .request dnsAddress q, _ =>
    (∀ data ∈ q.encodedData,
        (Pipe.sentLength s.receiving.pipe.flow s.windowBefore.toNat data.length : Int) ≤
          s.grant dnsAddress) ∧
      (s.connection.Reconnects dnsAddress → s.windowBefore ≤ 65535)
  | .frame f, _ =>
    match f.payload with
    | .windowupdate increment =>
      f.streamId = 0 ∧
        (increment : Int) = Pipe.largestFlowControlWindow - 2 * s.connectionWindow
    | .settings settings => s.receiving.windowAfter settings ≤ s.connectionWindow
    | _ => True
  | .endRead _, _ => True

/-- The connection's window is covered by what is granted. -/
structure CreditWf (s : Session) : Prop where
  wf : s.WindowsWf
  initial : 0 ≤ s.ledger.peerInitialWindow
  spent : s.ledger.outConnection.used ≤ s.ledger.outConnection.granted
  window : s.phase ≠ .closed → 0 ≤ s.connectionWindow ∧
    s.connectionWindow + s.ledger.outConnection.used ≤ s.ledger.outConnection.granted

/-- How much of a body is sent, and what is left of the window if nothing is raised. -/
theorem sent_of_sendRequest (p : Pipe) (stream : Stream) (q : Request)
    (hwindow : 0 ≤ p.windowBefore stream) (htype : stream.headersFrame.payload.type = 1) :
    let sent := p.sendRequest stream q
    let length := Pipe.dataLength (sent.2.2.1.filterMap Written.frame?)
    length = (match q.encodedData with
      | none => 0
      | some data => Pipe.sentLength p.flow (p.windowBefore stream).toNat data.length) ∧
    (sent.2.2.2 = .ok () → sent.1.outboundFlowControlWindow = p.windowBefore stream - length) := by
  obtain ⟨hsent, hheaders⟩ := p.headersSent stream q
  have hzero : (p.sendRequestHeaders stream q).2.1.headersFrame.flowControlledLength = 0 := by
    have htype' := hsent.headersType.trans htype
    unfold Frame.flowControlledLength
    split
    · next hp =>
      rw [hp] at htype'
      cases htype'
    · rfl
  have hlength : ∀ frames, Pipe.dataLength (((p.sendRequestHeaders stream q).2.2 ++
      frames.map .frame).filterMap Written.frame?) = Pipe.dataLength frames := by
    intro frames
    rw [List.filterMap_append, hheaders, Pipe.filterMap_frame?, List.singleton_append,
      Pipe.dataLength, List.map_cons, List.sum_cons, hzero, Nat.zero_add]
    rfl
  rw [Pipe.sendRequest_eq]
  simp only [hlength]
  cases q.encodedData with
  | none => exact ⟨rfl, fun _ => by rw [hsent.window]; exact (Int.sub_zero _).symm⟩
  | some data =>
    have hcurrent : 0 ≤ (p.sendRequestHeaders stream q).2.1.currentOutboundWindowSize := by
      rw [hsent.currentWindow]
      exact Int.natCast_nonneg _
    have hbody := Pipe.dataLength_submitRequestBody hcurrent
      (by rw [hsent.window]; exact hwindow) data
    rw [hsent.flow, hsent.window] at hbody
    exact hbody

/-- **What a request sends, in the ledger.** -/
theorem ledger_request (hwf : s.WindowsWf) (dnsAddress : String) (q : Request)
    (hwindow : 0 ≤ s.windowBefore) :
    let s' := s.request dnsAddress q
    let before := if s.connection.Reconnects dnsAddress then Ledger.connect else s.ledger
    let sent : Nat := match q.encodedData with
      | none => 0
      | some data => Pipe.sentLength s.receiving.pipe.flow s.windowBefore.toNat data.length
    s'.ledger.outConnection = ⟨before.outConnection.granted, before.outConnection.used + sent⟩ ∧
      s'.ledger.outStream = ⟨before.peerInitialWindow, sent⟩ ∧
      (s'.phase ≠ .closed → s'.connectionWindow = s.windowBefore - sent) := by
  obtain ⟨hreset, hpayload⟩ := s.connection.stream_connect s.receiving.stream dnsAddress
  have hbefore : s.receiving.pipe.windowBefore
      (s.connection.connect s.receiving.stream dnsAddress).2 = s.windowBefore := by
    unfold windowBefore Pipe.windowBefore
    rw [hreset]
  obtain ⟨hlength, hleft⟩ := sent_of_sendRequest s.receiving.pipe
    (s.connection.connect s.receiving.stream dnsAddress).2 q (by rw [hbefore]; exact hwindow)
    (by rw [hpayload]; exact hwf.headersType)
  obtain ⟨-, hconnection, hstream, -⟩ := Ledger.foldl_send
    (s.receiving.pipe.sendRequest (s.connection.connect s.receiving.stream dnsAddress).2
      q).2.1.headersFrame.wireId
    (s.receiving.pipe.sendRequest (s.connection.connect s.receiving.stream dnsAddress).2 q).2.2.1
    (if s.connection.Reconnects dnsAddress then Ledger.connect else s.ledger).openStream
  rw [hbefore] at hlength hleft
  rw [hlength] at hconnection hstream hleft
  refine ⟨hconnection, ?_, fun hphase => hleft ?_⟩
  · rw [← Int.zero_add (Nat.cast _)]
    exact hstream
  · by_contra hresult
    exact hphase (if_neg hresult)

/-- A request that goes well. -/
theorem credit_request {dnsAddress : String} {q : Request} (hwf : s.CreditWf)
    (hphase : s.phase ≠ .closed) (hstay : s.StaysInWindow (.request dnsAddress q) s')
    (hwf' : (s.request dnsAddress q).WindowsWf) :
    (s.request dnsAddress q).CreditWf ∧
      s.CreditKept (.request dnsAddress q) (s.request dnsAddress q) := by
  obtain ⟨hbody, hnew⟩ := hstay
  obtain ⟨hpos, hcovered⟩ := hwf.window hphase
  have hbefore : 0 ≤ s.windowBefore := by
    unfold windowBefore Pipe.windowBefore
    split
    · exact Int.natCast_nonneg _
    · exact hpos
  obtain ⟨hconnection, hstream, hleft⟩ := ledger_request hwf.wf dnsAddress q hbefore
  have hinitial : (s.request dnsAddress q).ledger.peerInitialWindow = s.grant dnsAddress := by
    obtain ⟨hsame, -⟩ := Ledger.foldl_send
      (s.receiving.pipe.sendRequest (s.connection.connect s.receiving.stream dnsAddress).2
        q).2.1.headersFrame.wireId
      (s.receiving.pipe.sendRequest (s.connection.connect s.receiving.stream dnsAddress).2 q).2.2.1
      (if s.connection.Reconnects dnsAddress then Ledger.connect else s.ledger).openStream
    refine Eq.trans hsame ?_
    unfold grant
    split <;> rfl
  have hgrant : 0 ≤ s.grant dnsAddress := by
    unfold grant
    split
    · decide
    · exact hwf.initial
  -- what is sent is bounded by both windows
  generalize hsent : (match q.encodedData with
      | none => 0
      | some data => Pipe.sentLength s.receiving.pipe.flow s.windowBefore.toNat data.length) = sent
    at hconnection hstream hleft
  have hbounds : (sent : Int) ≤ s.windowBefore ∧ (sent : Int) ≤ s.grant dnsAddress := by
    rw [← hsent]
    cases hq : q.encodedData with
    | none => exact ⟨hbefore, hgrant⟩
    | some data =>
      have hle := Pipe.sentLength_le_window s.receiving.pipe.flow s.windowBefore.toNat data.length
      exact ⟨by simp only; omega, hbody data hq⟩
  have hgranted : (if s.connection.Reconnects dnsAddress then Ledger.connect else
        s.ledger).outConnection.used + s.windowBefore ≤
      (if s.connection.Reconnects dnsAddress then Ledger.connect else
        s.ledger).outConnection.granted := by
    by_cases h : s.connection.Reconnects dnsAddress
    · rw [if_pos h]
      exact (Int.zero_add _).trans_le (hnew h)
    · have hinit : s.receiving.pipe.initSent = true :=
        hwf.wf.initSent (Bool.not_eq_false _ ▸ fun hc => h (.inl hc))
      have hsame : s.windowBefore = s.connectionWindow := by
        unfold windowBefore Pipe.windowBefore
        rw [hinit, hwf.wf.resetConnection]
        rfl
      rw [if_neg h, hsame]
      omega
  have hkept : (s.request dnsAddress q).ledger.outConnection.used ≤
      (s.request dnsAddress q).ledger.outConnection.granted := by
    rw [hconnection]
    simp only
    omega
  refine ⟨⟨hwf', by rw [hinitial]; exact hgrant, hkept, fun hclosed => ?_⟩, ?_, hkept⟩
  · rw [hleft hclosed, hconnection]
    simp only
    omega
  · rw [hstream]
    refine hbounds.2.trans (le_of_eq ?_)
    unfold grant
    split <;> rfl

/-- What is written while a response is received uses nothing. -/
theorem ledger_frame {f : Frame} {r : Receiving} (hwf : s.WindowsWf)
    (hr : s.read.receiveFrame f = .ok r) :
    (s.go .reading (s.ledger.receive s.currentId f) r).ledger = s.ledger.receive s.currentId f := by
  obtain ⟨-, new, hnew, hwritten⟩ := Receiving.frameTaken hwf.read hr
  unfold go
  simp only
  rw [hwritten, List.drop_left]
  exact Ledger.foldl_send_acks _ hnew _

theorem ledger_endRead (s : Session) (buffer : FrameBuffer) :
    (s.endRead buffer).ledger.peerInitialWindow = s.ledger.peerInitialWindow ∧
      (s.endRead buffer).ledger.outConnection = s.ledger.outConnection ∧
      (s.endRead buffer).ledger.inStream = s.ledger.inStream := by
  obtain ⟨new, hwritten, hnew⟩ := Receiving.written_finishEvents s.read.streamEvents
    { s.read with stream := { s.read.stream with frameBuffer := buffer } }
  obtain ⟨hinitial, hconnection, -, hin⟩ := Ledger.foldl_send s.currentId new s.ledger
  have hzero : Pipe.dataLength (new.filterMap Written.frame?) = 0 := by
    refine List.sum_eq_zero fun n hn => ?_
    obtain ⟨f, hf, rfl⟩ := List.mem_map.mp hn
    exact (hnew f hf).2.1
  have hledger : (s.endRead buffer).ledger = new.foldl (Ledger.send s.currentId) s.ledger := by
    unfold endRead go
    simp only
    rw [hwritten, List.drop_left]
  rw [hledger, hinitial, hconnection, hzero, hin fun f hf _ => (hnew f hf).1]
  exact ⟨rfl, by simp, rfl⟩

/-- A frame that goes well. -/
theorem credit_frame {f : Frame} {r : Receiving} (hwf : s.CreditWf) (hphase : s.phase ≠ .closed)
    (hr : s.read.receiveFrame f = .ok r) (hstay : s.StaysInWindow (.frame f) s')
    (hwf' : (s.go .reading (s.ledger.receive s.currentId f) r).WindowsWf) :
    (s.go .reading (s.ledger.receive s.currentId f) r).CreditWf ∧
      s.CreditKept (.frame f) (s.go .reading (s.ledger.receive s.currentId f) r) := by
  obtain ⟨hpos, hcovered⟩ := hwf.window hphase
  obtain ⟨htaken, -⟩ := Receiving.frameTaken hwf.wf.read hr
  obtain ⟨hinitial, hused, hgranted⟩ := Ledger.receive_out s.currentId s.ledger f
  have hwindow := htaken.window
  have hread : s.read.pipe.outboundFlowControlWindow = s.connectionWindow ∧
      s.read.stream.currentOutboundWindowSize = s.streamWindow := by
    rw [s.read_eq.1, s.read_eq.2.1]
    exact ⟨rfl, rfl⟩
  have hafter : ∀ settings, s.read.windowAfter settings = s.receiving.windowAfter settings := by
    intro settings
    unfold Receiving.windowAfter
    rw [s.read_eq.1, s.read_eq.2.1]
  have hafterPos : ∀ settings, 0 ≤ s.receiving.windowAfter settings := by
    intro settings
    unfold Receiving.windowAfter
    split
    · exact hpos
    · split
      · exact Int.natCast_nonneg _
      · exact hpos
  have hledger := ledger_frame hwf.wf hr
  have hnew : (s.go .reading (s.ledger.receive s.currentId f) r).connectionWindow =
      r.pipe.outboundFlowControlWindow := rfl
  rw [hread.1] at hwindow
  unfold StaysInWindow at hstay
  unfold CreditKept
  have hspent := hwf.spent
  suffices hstep : 0 ≤ r.pipe.outboundFlowControlWindow ∧
      r.pipe.outboundFlowControlWindow - s.connectionWindow ≤
        (s.ledger.receive s.currentId f).outConnection.granted - s.ledger.outConnection.granted ∧
      s.ledger.outConnection.granted ≤
        (s.ledger.receive s.currentId f).outConnection.granted by
    refine ⟨⟨hwf', by rw [hledger]; exact hinitial hwf.initial, by rw [hledger]; omega,
      fun _ => by rw [hledger, hnew]; omega⟩, ?_⟩
    cases hf : f.payload with
    | windowupdate increment =>
      simp only [hf] at hstay hwindow ⊢
      rw [hnew, hwindow, if_pos hstay.1, if_neg (fun h => h.1 hstay.1)]
      refine ⟨by omega, ?_⟩
      have hstream := htaken.streamWindow increment hf
      rw [hread.2] at hstream
      exact hstream.trans (Int.add_zero _).symm
    | _ => simp only [hf]
  cases hf : f.payload with
  | windowupdate increment =>
    simp only [hf] at hstay hwindow hgranted
    rw [if_pos hstay.1] at hgranted
    omega
  | settings settings =>
    simp only [hf, hafter] at hstay hwindow hgranted
    have := hafterPos settings
    omega
  | data _ _ | altsvc _ _ | continuation _ | goaway _ _ _ | headers _ _ _ _ _ | ping _
  | priority _ _ _ | pushpromise _ _ _ | reset _ | extension _ _ =>
    simp only [hf] at hwindow hgranted
    omega

/-- **One step that goes well.** -/
theorem credit_step (h : step s ev = some s') (hwf : s.CreditWf) (hstay : s.StaysInWindow ev s') :
    s'.CreditWf ∧ s.CreditKept ev s' := by
  have hwf' := windowsWf_step h hwf.wf
  have hopen : s.Receives → s.phase ≠ .closed := by
    rintro (h | h) <;> rw [h] <;> decide
  rcases step_cases h with ⟨dnsAddress, q, rfl, hphase, rfl⟩ | ⟨f, r, rfl, hphase, hr, rfl⟩ |
    ⟨f, e, rfl, hphase, he, rfl⟩ | ⟨buffer, rfl, hphase, rfl⟩
  · exact credit_request hwf (by rcases hphase with h | h <;> rw [h] <;> decide) hstay hwf'
  · exact credit_frame hwf (hopen hphase) hr hstay hwf'
  · -- a frame that is raised on: no `WINDOW_UPDATE`
    obtain ⟨hinitial, hused, hgranted⟩ := Ledger.receive_out s.currentId s.ledger f
    have hspent := hwf.spent
    have hno : ∀ increment, f.payload ≠ .windowupdate increment := by
      intro increment hf
      unfold Receiving.receiveFrame Receiving.dispatch at he
      simp [hf, Except.map] at he
    refine ⟨⟨hwf', hinitial hwf.initial, ?_, fun h => absurd rfl h⟩, ?_⟩
    · simp only
      split at hgranted
      · next increment hf => exact absurd hf (hno increment)
      · omega
    · cases hf : f.payload with
      | windowupdate increment => exact absurd hf (hno increment)
      | _ => simp only [CreditKept, hf]
  · -- the end of a read
    obtain ⟨hinitial, hconnection, -⟩ := s.ledger_endRead buffer
    have hread := hwf.wf.read
    obtain ⟨-, -, hwindow⟩ := settled_finishEvents s.read.streamEvents
      (r := { s.read with stream := { s.read.stream with frameBuffer := buffer } })
      ⟨hread.localSettings, hread.remoteSettings, hread.frames, hread.writeData⟩
    have hsame : (s.endRead buffer).connectionWindow = s.connectionWindow :=
      hwindow.trans (congrArg Pipe.outboundFlowControlWindow s.read_eq.1)
    exact ⟨⟨hwf', by rw [hinitial]; exact hwf.initial, by rw [hconnection]; exact hwf.spent,
      fun _ => by rw [hsame, hconnection]; exact hwf.window (hopen hphase)⟩, trivial⟩

/-- **In every run whose steps all go well, no more is sent than the peer grants, and every
`WINDOW_UPDATE` raises its window by its increment.** -/
theorem along_creditKept {streamId : Int} {concurrency n : Nat} {resetConnection : Bool}
    {connection : Connection} {stream : Stream}
    (h : Connection.create streamId concurrency resetConnection = .ok (connection, stream))
    {evs : List Event} (hstay : Along step StaysInWindow (init connection stream n) evs) :
    Along step CreditKept (init connection stream n) evs := by
  have hinit : (init connection stream n).CreditWf :=
    ⟨windowsWf_init h, (by decide : (0 : Int) ≤ 65535), (by decide : (0 : Int) ≤ 65535),
      fun _ => (by decide : (0 : Int) ≤ 65535 ∧ (65535 + 0 : Int) ≤ 65535)⟩
  have hstep : ∀ s ev s', CreditWf s → step s ev = some s' → StaysInWindow s ev s' →
      CreditWf s' ∧ CreditKept s ev s' := fun _ _ _ hwf h hgood => credit_step h hwf hgood
  exact Along.of_invariant hstep hinit hstay

/-- A body of two bytes, and an update that fits. -/
theorem creditKept_post : ∃ connection stream,
    Connection.create 7 1 false = .ok (connection, stream) ∧
      Along step CreditKept (init connection stream 1)
        [.request "10.0.0.1" ⟨[0x83], some [0x61, 0x62]⟩,
          .frame ⟨0, ∅, .windowupdate 2147352581⟩] := by
  refine ⟨_, _, rfl, @along_creditKept 7 1 1 false _ _ rfl _ fun s' hs' => ⟨⟨?_, ?_⟩, ?_⟩⟩
  · rintro data ⟨⟩
    decide
  · exact fun _ => by decide
  · obtain rfl := Option.some.inj hs'
    exact fun _ _ => ⟨⟨rfl, by decide⟩, trivial⟩

/-- A peer that grants one byte for each stream gets two.  And 1000 more bytes for the connection
make the window 2147418112. -/
theorem not_creditKept : ∃ connection stream,
    Connection.create 7 1 false = .ok (connection, stream) ∧
      ¬ Along step CreditKept (init connection stream 1)
        [.request "10.0.0.1" ⟨[0x82], none⟩,
          .frame ⟨0, ∅, .settings (Dict.empty.set 4 1)⟩,
          .frame ⟨7, {.endHeaders, .endStream}, .headers 0 0 0 false [0x88]⟩,
          .endRead ⟨[], []⟩,
          .request "10.0.0.1" ⟨[0x83], some [0x61, 0x62]⟩] ∧
      ¬ Along step CreditKept (init connection stream 1)
        [.request "10.0.0.1" ⟨[0x82], none⟩, .frame ⟨0, ∅, .windowupdate 1000⟩] := by
  refine ⟨_, _, rfl, fun h => ?_, fun h => ?_⟩
  · have hsent := ((((h _ rfl).2 _ rfl).2 _ rfl).2 _ rfl).2 _ rfl
    exact absurd hsent.1.1 (by decide)
  · exact absurd ((h _ rfl).2 _ rfl).1.1 (by decide)

end Session

/-! ## 5. Inbound -/

namespace Session

variable {s s' : Session} {ev : Event}

/-- The windows that the engine believes to have granted are those of the ledger. -/
structure Agrees (s : Session) : Prop where
  connection : s.receiving.pipe.inboundFlowControlWindowManager.currentWindowSize =
    s.ledger.inConnection.granted - s.ledger.inConnection.used
  stream : ∀ w ∈ s.receiving.stream.inbound,
    w.currentWindowSize = s.ledger.inStream.granted - s.ledger.inStream.used

/-- `DATA` comes for the current stream only. -/
def OnStream (s : Session) : Event → Session → Prop
  | .frame f, _ =>
    match f.payload with
    | .data _ _ => f.streamId = s.currentId
    | _ => True
  | _, _ => True

/-- The window of a stream is granted once, and there is one from the first request on. -/
structure InboundWf (s : Session) : Prop where
  wf : s.WindowsWf
  granted : s.ledger.inStream.granted = 65535
  inbound : s.receiving.stream.inbound = none → s.phase = .idle

/-- How far the books are off. -/
def Ahead (s : Session) : Prop :=
  ∀ w ∈ s.receiving.stream.inbound, w.currentWindowSize = 65535 + 65536 - s.ledger.inStream.used

/-- What a frame of the peer uses of the stream's window. -/
theorem receive_in (streamId : Int) (l : Ledger) (f : Frame) :
    let l' := l.receive streamId f
    l'.inStream.granted = l.inStream.granted ∧
      l'.inStream.used = l.inStream.used + match f.payload with
        | .data _ _ => if f.streamId = streamId then (f.flowControlledLength : Int) else 0
        | _ => 0 := by
  unfold Ledger.receive
  cases f.payload with
  | data _ _ =>
    simp only
    split
    · exact ⟨rfl, rfl⟩
    · exact ⟨rfl, (Int.add_zero _).symm⟩
  | settings settings =>
    simp only
    split <;> exact ⟨rfl, (Int.add_zero _).symm⟩
  | windowupdate increment =>
    simp only
    split
    · exact ⟨rfl, (Int.add_zero _).symm⟩
    · split <;> exact ⟨rfl, (Int.add_zero _).symm⟩
  | altsvc _ _ | continuation _ | goaway _ _ _ | headers _ _ _ _ _ | ping _ | priority _ _ _
  | pushpromise _ _ _ | reset _ | extension _ _ => exact ⟨rfl, (Int.add_zero _).symm⟩

/-- A request: a window of its own, which is opened in our books only. -/
theorem inbound_request (hwf : s.WindowsWf) (dnsAddress : String) (q : Request) :
    (s.request dnsAddress q).ledger.inStream = ⟨65535, 0⟩ ∧
      ∃ w, (s.request dnsAddress q).receiving.stream.inbound = some w ∧
        w.currentWindowSize = 65535 + 65536 := by
  obtain ⟨-, hpayload⟩ := s.connection.stream_connect s.receiving.stream dnsAddress
  obtain ⟨hstream, -⟩ := s.receiving.pipe.sendRequest_pipe
    (s.connection.connect s.receiving.stream dnsAddress).2 q
  obtain ⟨hsent, -⟩ := s.receiving.pipe.headersSent
    (s.connection.connect s.receiving.stream dnsAddress).2 q
  obtain ⟨data, hframes, -, hdata, -⟩ := s.receiving.pipe.frames_of_sendRequest
    (s.connection.connect s.receiving.stream dnsAddress).2 q
  obtain ⟨-, -, -, hin⟩ := Ledger.foldl_send
    (s.receiving.pipe.sendRequest (s.connection.connect s.receiving.stream dnsAddress).2
      q).2.1.headersFrame.wireId
    (s.receiving.pipe.sendRequest (s.connection.connect s.receiving.stream dnsAddress).2 q).2.2.1
    (if s.connection.Reconnects dnsAddress then Ledger.connect else s.ledger).openStream
  constructor
  · refine hin fun f hf htype => ?_
    rw [hframes] at hf
    rcases List.mem_cons.mp hf with rfl | hf
    · rw [hstream, hsent.headersType, hpayload, hwf.headersType] at htype
      exact absurd htype (by decide)
    · rw [(hdata f hf).2] at htype
      exact absurd htype (by decide)
  · refine ⟨_, (congrArg Stream.inbound hstream).trans hsent.inbound, ?_⟩
    rw [hwf.localWindow]
    rfl

/-- **One step**: the stream's window is granted once; and once the books are off, or there are
none, they are off by 65536. -/
theorem inbound_step (h : step s ev = some s') (hwf : s.InboundWf) :
    s'.InboundWf ∧ s'.receiving.stream.inbound.isSome ∧
      (s.Ahead → s.OnStream ev s' → s'.Ahead) := by
  have hwf' := windowsWf_step h hwf.wf
  have hsome : s.Receives → ∃ w, s.receiving.stream.inbound = some w := by
    intro hphase
    rw [← Option.isSome_iff_exists, Option.isSome_iff_ne_none]
    intro hnone
    rcases hphase with h | h <;> rw [hwf.inbound hnone] at h <;> cases h
  rcases step_cases h with ⟨dnsAddress, q, rfl, -, rfl⟩ | ⟨f, r, rfl, hphase, hr, rfl⟩ |
    ⟨f, e, rfl, hphase, he, rfl⟩ | ⟨buffer, rfl, hphase, rfl⟩
  · -- a request
    obtain ⟨hin, w, hw, hcurrent⟩ := inbound_request hwf.wf dnsAddress q
    refine ⟨⟨hwf', by rw [hin], fun hnone => (nomatch hw.symm.trans hnone)⟩, by rw [hw]; rfl,
      fun _ _ w' hw' => ?_⟩
    rw [hw] at hw'
    rw [← Option.some.inj hw', hcurrent, hin]
    rfl
  · -- a frame
    obtain ⟨w, hw⟩ := hsome hphase
    obtain ⟨htaken, -⟩ := Receiving.frameTaken hwf.wf.read hr
    obtain ⟨hgranted, hused⟩ := receive_in s.currentId s.ledger f
    have hledger := ledger_frame hwf.wf hr
    have hinbound := htaken.inbound
    rw [s.read_eq.2.1, hw] at hinbound
    have hnew : ∃ w', r.stream.inbound = some w' := by
      split at hinbound
      · exact ⟨_, hinbound⟩
      · exact ⟨_, hinbound⟩
    obtain ⟨w', hw'⟩ := hnew
    have hgo : (s.go .reading (s.ledger.receive s.currentId f) r).receiving.stream.inbound =
        some w' := hw'
    refine ⟨⟨hwf', by rw [hledger, hgranted, hwf.granted],
      fun hnone => (nomatch hgo.symm.trans hnone)⟩, by rw [hgo]; rfl, fun hahead hon v hv => ?_⟩
    have hcurrent := hahead w hw
    rw [← Option.some.inj (hgo.symm.trans hv), hledger, hused]
    rw [hw'] at hinbound
    cases hf : f.payload with
    | data _ _ =>
      simp only [OnStream, hf] at hon
      simp only [hf, Option.map_some, Option.some.injEq] at hinbound
      simp only [if_pos hon, hinbound, WindowManager.currentWindowSize_windowConsumed, hcurrent]
      omega
    | _ =>
      simp only [hf, Option.some.injEq] at hinbound
      simp only [hinbound, hcurrent, Int.add_zero]
  · -- a frame that is raised on: no `DATA`
    obtain ⟨w, hw⟩ := hsome hphase
    obtain ⟨hgranted, hused⟩ := receive_in s.currentId s.ledger f
    refine ⟨⟨hwf', hgranted.trans hwf.granted, fun hnone => (nomatch hw.symm.trans hnone)⟩,
      by rw [hw]; rfl, fun hahead _ v hv => ?_⟩
    simp only [hused]
    cases hf : f.payload with
    | data padLength bytes =>
      unfold Receiving.receiveFrame Receiving.dispatch Receiving.receiveData at he
      simp [hf, s.read_eq.2.1, hw, Except.map] at he
    | _ => simp only [Int.add_zero, hahead v hv]
  · -- the end of a read
    obtain ⟨w, hw⟩ := hsome hphase
    obtain ⟨-, -, hin⟩ := s.ledger_endRead buffer
    have hstream : (s.endRead buffer).receiving.stream.inbound = s.receiving.stream.inbound := by
      obtain ⟨hstream, -⟩ := Receiving.stream_finishEvents s.read.streamEvents
        { s.read with stream := { s.read.stream with frameBuffer := buffer } }
      have hsame : s.read.stream.inbound = s.receiving.stream.inbound := by rw [s.read_eq.2.1]
      exact (congrArg Stream.inbound hstream).trans hsame
    refine ⟨⟨hwf', by rw [hin, hwf.granted], fun hnone => ?_⟩, by rw [hstream, hw]; rfl,
      fun hahead _ v hv => ?_⟩
    · rw [hstream, hw] at hnone
      cases hnone
    · rw [hin]
      exact hahead v (hstream ▸ hv)

/-- The same of a run. -/
theorem inbound_run {evs : List Event} : ∀ {s s' : Session}, s.InboundWf →
    s.receiving.stream.inbound.isSome → run step s evs = some s' →
      s'.InboundWf ∧ s'.receiving.stream.inbound.isSome ∧
        (s.Ahead → Along step OnStream s evs → s'.Ahead) := by
  induction evs with
  | nil =>
    intro s s' hwf hsome hrun
    obtain rfl := Option.some.inj hrun
    exact ⟨hwf, hsome, fun hahead _ => hahead⟩
  | cons ev evs ih =>
    intro s s' hwf _ hrun
    obtain ⟨t, ht, hrun⟩ := run_cons_eq_some.mp hrun
    obtain ⟨hwf', hsome', hahead'⟩ := inbound_step ht hwf
    obtain ⟨hlast, hsome, hahead⟩ := ih hwf' hsome' hrun
    exact ⟨hlast, hsome, fun h hon => hahead (hahead' h (hon t ht).1) (hon t ht).2⟩

/-- **After the first request the window of a stream is never what the engine believes**: not in all
states of a run, and in no state at all if `DATA` comes for the current stream only.  And all that a
stream ever gets are 65535 bytes. -/
theorem never_agrees {streamId : Int} {concurrency n : Nat} {resetConnection : Bool}
    {connection : Connection} {stream : Stream}
    (h : Connection.create streamId concurrency resetConnection = .ok (connection, stream))
    {evs : List Event} (hevs : evs ≠ []) {s : Session}
    (hrun : run step (init connection stream n) evs = some s) :
    ¬ Always step Agrees (init connection stream n) evs ∧ s.ledger.inStream.granted = 65535 ∧
      (Along step OnStream (init connection stream n) evs → ¬ s.Agrees) := by
  have hinit : (init connection stream n).InboundWf := ⟨windowsWf_init h, rfl, fun _ => rfl⟩
  have hahead : (init connection stream n).Ahead := by
    obtain ⟨settingsData, -, h⟩ := bind_eq_ok_iff.mp h
    obtain ⟨rfl, rfl⟩ := Prod.mk.inj (Except.ok.inj h)
    exact fun w hw => (nomatch hw)
  have hoff : ∀ {t : Session}, t.InboundWf → t.receiving.stream.inbound.isSome → t.Ahead →
      ¬ t.Agrees := by
    intro t hwf hsome hahead hagrees
    obtain ⟨w, hw⟩ := Option.isSome_iff_exists.mp hsome
    have hbelief := hagrees.stream w hw
    rw [hahead w hw, hwf.granted] at hbelief
    omega
  obtain ⟨ev, evs, rfl⟩ := List.exists_cons_of_ne_nil hevs
  obtain ⟨t, ht, hrun⟩ := run_cons_eq_some.mp hrun
  obtain ⟨hwf, hsome, hfirst⟩ := inbound_step ht hinit
  -- the first step is a request
  have hon : OnStream (init connection stream n) ev t := by
    have hidle : ¬ (init connection stream n).Receives := by
      rintro (h | h) <;> cases h
    rcases step_cases ht with ⟨_, _, rfl, -⟩ | ⟨_, _, rfl, hphase, -⟩ | ⟨_, _, rfl, hphase, -⟩ |
      ⟨_, rfl, hphase, -⟩
    · trivial
    · exact absurd hphase hidle
    · exact absurd hphase hidle
    · trivial
  have htahead := hfirst hahead hon
  obtain ⟨hwf', hsome', hahead'⟩ := inbound_run hwf hsome hrun
  exact ⟨fun hall => hoff hwf hsome htahead (hall.2 t ht).self, hwf'.granted,
    fun hall => hoff hwf' hsome' (hahead' htahead (hall t ht).2)⟩

/-- After one request without a body. -/
theorem never_agrees_get : ∃ connection stream,
    Connection.create 7 1 false = .ok (connection, stream) ∧
      ¬ Always step Agrees (init connection stream 1) [.request "10.0.0.1" ⟨[0x82], none⟩] :=
  ⟨_, _, rfl, (@never_agrees 7 1 1 false _ _ rfl _ (List.cons_ne_nil _ []) _ rfl).1⟩

/-- The engine believes to have granted 131071 bytes, and has granted 65535. -/
theorem not_agrees_get : ∃ connection stream s,
    Connection.create 7 1 false = .ok (connection, stream) ∧
      run step (init connection stream 1) [.request "10.0.0.1" ⟨[0x82], none⟩] = some s ∧
      s.receiving.pipe.inboundFlowControlWindowManager.currentWindowSize = 131071 ∧
      s.receiving.stream.inbound = some ⟨131071, 131071, 0⟩ ∧
      s.ledger.inConnection = ⟨65535, 0⟩ ∧ s.ledger.inStream = ⟨65535, 0⟩ ∧ ¬ s.Agrees := by
  refine ⟨_, _, _, rfl, rfl, rfl, rfl, rfl, rfl, fun h => ?_⟩
  exact absurd h.connection (by decide)

end Session

end Http2
end Hedra
