/-
# The end of a request

A request without a body ends with its headers, and one with a body ends with a last, empty `DATA`
frame: `END_STREAM` is to be on the one or the other.  A connection keeps one headers frame, and
`send_request_headers` (`core/engines/types/http2/pipe.py`) adds the flag to it for a request
without a body; nothing takes it off again.  So behind such a request the headers of every other one
end their stream as well.

* `submitData_ok_iff`: the body is sent if and only if the windows let it through;
* `requestEnds_iff`: one request ends as it should;
* `along_requestEnds_iff`: so do all requests of a run, exactly where no flag is left.
-/
import Hedra.Http2.Session

namespace Hedra
namespace Http2

open Lib Machine

/-! ## 1. Where the flag belongs -/

/-- The frames of a request, with `END_STREAM` on the headers if there is no body, and else on the
last `DATA` frame and on no other frame. -/
def EndsStream (body : Option Bytes) : List Frame → Prop
  | [] => False
  | headers :: data =>
    headers.payload.type = 0x01 ∧ (∀ f ∈ data, f.payload.type = 0x0) ∧
      (.endStream ∈ headers.flags ↔ body = none) ∧ (body = none → data = []) ∧
      (body ≠ none → ∃ front last, data = front ++ [last] ∧ .endStream ∈ last.flags ∧
        ∀ f ∈ front, .endStream ∉ f.flags)

namespace Pipe

variable {stream : Stream}

/-- The windows let a whole body through. -/
def Fits (p : Pipe) (stream : Stream) (data : Bytes) : Prop :=
  data = [] ∨ (p.flow ≠ 0 ∧ data.length ≤ p.windowBefore stream)

instance (p : Pipe) (stream : Stream) (data : Bytes) : Decidable (p.Fits stream data) :=
  inferInstanceAs (Decidable (_ ∨ _))

/-! ## 2. The frames of one request -/

/-- **The loop comes to its end if and only if the windows let all of the body through.** -/
theorem submitData_ok_iff (hwindow : 0 ≤ stream.currentOutboundWindowSize) :
    ∀ {n : Nat} {window : Int} {data : Bytes}, data.length ≤ n →
      ((submitData stream n window data).2.2 = .ok () ↔
        data = [] ∨ (stream.flow ≠ 0 ∧ data.length ≤ window))
  | 0, window, data, hlength => by
    have hnil : data = [] := List.eq_nil_of_length_eq_zero (Nat.le_zero.mp hlength)
    exact iff_of_true rfl (.inl hnil)
  | n + 1, window, data, hlength => by
    rw [submitData_succ hwindow]
    by_cases hnil : data = []
    · rw [if_pos hnil]
      exact iff_of_true rfl (.inl hnil)
    have hpositive : 0 < data.length := List.length_pos_of_ne_nil hnil
    rw [if_neg hnil]
    by_cases hflow : stream.flow = 0
    · rw [if_pos hflow]
      exact iff_of_false (fun h => nomatch h) (by simp [hnil, hflow])
    rw [if_neg hflow, List.length_take]
    by_cases hlt : window < (min stream.flow data.length : Nat)
    · rw [if_pos hlt]
      refine iff_of_false (fun h => nomatch h) ?_
      rintro (h | ⟨-, h⟩)
      · exact hnil h
      · omega
    · rw [if_neg hlt]
      have hrest := @submitData_ok_iff hwindow n
        (window - (min stream.flow data.length : Nat)) (data.drop stream.flow)
        (by rw [List.length_drop]; omega)
      refine hrest.trans ?_
      rw [List.drop_eq_nil_iff, List.length_drop]
      have hne : ¬ data = [] := hnil
      simp only [hne, hflow, ne_eq, not_false_eq_true, true_and, false_or]
      omega

/-- What is added to the flags of the headers frame. -/
theorem flags_sendRequestHeaders (p : Pipe) (stream : Stream) (q : Request) :
    (p.sendRequestHeaders stream q).2.1.headersFrame.flags =
      if q.encodedData = none then insert .endStream stream.headersFrame.flags
      else stream.headersFrame.flags := rfl

/-- **A request ends as it should if and only if** its headers frame has no `END_STREAM` from before
when there is a body, and the windows let the body through. -/
theorem endsStream_iff (p : Pipe) (stream : Stream) (q : Request)
    (htype : stream.headersFrame.payload.type = 0x01) :
    EndsStream q.encodedData ((p.sendRequest stream q).2.2.1.filterMap Written.frame?) ↔
      ∀ data ∈ q.encodedData,
        .endStream ∉ stream.headersFrame.flags ∧ p.Fits stream data := by
  obtain ⟨hsent, hheaders⟩ := p.headersSent stream q
  have hflags := p.flags_sendRequestHeaders stream q
  have htype := hsent.headersType.trans htype
  rw [sendRequest_eq]
  simp only [List.filterMap_append, hheaders, filterMap_frame?, List.singleton_append, EndsStream,
    htype, hflags]
  cases hbody : q.encodedData with
  | none => simp
  | some body =>
    have hwindow : 0 ≤ (p.sendRequestHeaders stream q).2.1.currentOutboundWindowSize := by
      rw [hsent.currentWindow]
      exact Int.natCast_nonneg _
    have hfits := @submitData_ok_iff _ hwindow body.length
      (p.sendRequestHeaders stream q).1.outboundFlowControlWindow body (le_refl body.length)
    rw [hsent.flow, hsent.window] at hfits
    have htypes := @frames_of_submitRequestBody (p.sendRequestHeaders stream q).2.1
      (p.sendRequestHeaders stream q).1 body
    have hplain := @frames_of_submitData (p.sendRequestHeaders stream q).2.1 body.length
      (p.sendRequestHeaders stream q).1.outboundFlowControlWindow body
    simp only [submitRequestBody_eq, hsent.window] at htypes hplain ⊢
    generalize submitData (p.sendRequestHeaders stream q).2.1 body.length (p.windowBefore stream)
      body = sent at hfits htypes hplain ⊢
    simp only [reduceCtorEq, if_false, Option.mem_some_iff, forall_eq', iff_false, false_implies,
      ne_eq, not_false_eq_true, true_implies, true_and, Fits, ← hfits]
    constructor
    · rintro ⟨-, hno, front, last, hdata, hlast, -⟩
      refine ⟨hno, ?_⟩
      by_contra hresult
      rw [if_neg hresult, List.append_nil] at hdata
      have hmem : last ∈ sent.2.1 := by simp [hdata]
      rw [(hplain last hmem).2.2] at hlast
      exact absurd hlast (by decide)
    · rintro ⟨hno, hresult⟩
      rw [if_pos hresult] at htypes ⊢
      refine ⟨fun f hf => (htypes f hf).2, hno, _, _, rfl, Finset.mem_singleton_self _, fun f hf => ?_⟩
      rw [(hplain f hf).2.2]
      decide

end Pipe

/-- `connect` leaves the flags of the headers frame alone. -/
theorem Connection.flags_connect (c : Connection) (stream : Stream) (dnsAddress : String) :
    (c.connect stream dnsAddress).2.headersFrame.flags = stream.headersFrame.flags := by
  unfold connect
  simp only
  split <;> rfl

/-! ## 3. Whole runs -/

namespace Session

variable {s s' : Session} {ev : Event}

/-- A request of a run ends as it should. -/
def RequestEnds (_ : Session) : Event → Session → Prop
  | .request _ q, s' => ∃ frames, s'.requests.getLast? = some frames ∧ EndsStream q.encodedData frames
  | _, _ => True

/-- The headers frame has no `END_STREAM` from before when there is a body, and the windows let the
body through. -/
def BodyEnds (s : Session) : Event → Session → Prop
  | .request _ q, _ => ∀ data ∈ q.encodedData,
      .endStream ∉ s.receiving.stream.headersFrame.flags ∧
        s.receiving.pipe.Fits s.receiving.stream data
  | _, _ => True

instance (s : Session) : ∀ (ev : Event) (s' : Session), Decidable (s.BodyEnds ev s')
  | .request _ q, _ => inferInstanceAs (Decidable (∀ data ∈ q.encodedData, _))
  | .frame _, _ => isTrue trivial
  | .endRead _, _ => isTrue trivial

/-- The headers frame is one, and has the flag if and only if `P`. -/
structure HeadersFrame (P : Prop) (s : Session) : Prop where
  type : s.receiving.stream.headersFrame.payload.type = 0x01
  endStream : .endStream ∈ s.receiving.stream.headersFrame.flags ↔ P

/-- A request without a body. -/
def Event.Bodyless : Event → Prop
  | .request _ q => q.encodedData = none
  | _ => False

/-- **What one step does to the headers frame**: a request without a body leaves the flag there. -/
theorem HeadersFrame.step {P : Prop} (hs : s.HeadersFrame P) (h : Session.step s ev = some s') :
    s'.HeadersFrame (ev.Bodyless ∨ P) := by
  have hread : s.read.stream.headersFrame = s.receiving.stream.headersFrame :=
    congrArg Stream.headersFrame s.read_eq.2.1
  have hreceive : ∀ {t : Session}, ¬ ev.Bodyless →
      t.receiving.stream.headersFrame = s.receiving.stream.headersFrame →
        t.HeadersFrame (ev.Bodyless ∨ P) := by
    intro t hev ht
    exact ⟨by rw [ht]; exact hs.type, by rw [ht, hs.endStream, or_iff_right hev]⟩
  rcases step_cases h with ⟨dnsAddress, q, rfl, -, rfl⟩ | ⟨f, r, rfl, -, hr, rfl⟩ |
    ⟨f, e, rfl, -, -, rfl⟩ | ⟨buffer, rfl, -, rfl⟩
  · -- a request
    obtain ⟨hpipe, -⟩ := Pipe.sendRequest_pipe s.receiving.pipe
      (s.connection.connect s.receiving.stream dnsAddress).2 q
    obtain ⟨hsent, -⟩ := Pipe.headersSent s.receiving.pipe
      (s.connection.connect s.receiving.stream dnsAddress).2 q
    have hstream : (s.request dnsAddress q).receiving.stream = (s.receiving.pipe.sendRequestHeaders
      (s.connection.connect s.receiving.stream dnsAddress).2 q).2.1 := hpipe
    refine ⟨?_, ?_⟩
    · rw [hstream, hsent.headersType, (s.connection.stream_connect _ _).2]
      exact hs.type
    · rw [hstream, Pipe.flags_sendRequestHeaders, Connection.flags_connect, Event.Bodyless]
      by_cases hbody : q.encodedData = none
      · rw [if_pos hbody]
        exact iff_of_true (Finset.mem_insert_self _ _) (.inl hbody)
      · rw [if_neg hbody, or_iff_right hbody]
        exact hs.endStream
  · exact hreceive id ((Receiving.sameStream_receiveFrame hr).headersFrame.trans hread)
  · exact hreceive id rfl
  · exact hreceive id ((Receiving.sameStream_finishEvents _ _).headersFrame.trans hread)

/-- **One step.** -/
theorem requestEnds_iff {P : Prop} (hs : s.HeadersFrame P) (h : step s ev = some s') :
    s.RequestEnds ev s' ↔ s.BodyEnds ev s' := by
  rcases step_cases h with ⟨dnsAddress, q, rfl, -, rfl⟩ | ⟨f, r, rfl, -, -, -⟩ |
    ⟨f, e, rfl, -, -, -⟩ | ⟨buffer, rfl, -, -⟩
  · have hlast : (s.request dnsAddress q).requests.getLast? =
        some ((s.receiving.pipe.sendRequest (s.connection.connect s.receiving.stream dnsAddress).2
          q).2.2.1.filterMap Written.frame?) := List.getLast?_concat
    have hsame := s.connection.stream_connect s.receiving.stream dnsAddress
    have htype := (congrArg Payload.type hsame.2).trans hs.type
    have hiff := Pipe.endsStream_iff s.receiving.pipe _ q htype
    rw [Connection.flags_connect] at hiff
    have hfits : ∀ data, s.receiving.pipe.Fits
        (s.connection.connect s.receiving.stream dnsAddress).2 data ↔
          s.receiving.pipe.Fits s.receiving.stream data := by
      intro data
      rw [Pipe.Fits, Pipe.Fits, Pipe.windowBefore, Pipe.windowBefore, hsame.1]
    simp only [hfits] at hiff
    rw [RequestEnds, hlast]
    simp only [Option.some.injEq, exists_eq_left', hiff, BodyEnds]
  · exact Iff.rfl
  · exact Iff.rfl
  · exact Iff.rfl

/-- A connection that has just been made: its headers frame ends no stream. -/
theorem headersFrame_init {streamId : Int} {concurrency n : Nat} {resetConnection : Bool}
    {connection : Connection} {stream : Stream}
    (h : Connection.create streamId concurrency resetConnection = .ok (connection, stream)) :
    (init connection stream n).HeadersFrame False := by
  obtain ⟨settingsData, -, h⟩ := bind_eq_ok_iff.mp h
  obtain ⟨rfl, rfl⟩ := Prod.mk.inj (Except.ok.inj h)
  have hflag : Flag.endStream ∉ ({.endHeaders} : Finset Flag) := by decide
  exact ⟨rfl, iff_of_false hflag id⟩

/-- **The flag is there if and only if a request of the run had no body.** -/
theorem HeadersFrame.run {P : Prop} (hs : s.HeadersFrame P) {evs : List Event}
    (h : run Session.step s evs = some s') : s'.HeadersFrame ((∃ ev ∈ evs, ev.Bodyless) ∨ P) := by
  induction evs generalizing s P with
  | nil =>
    rw [run_nil, Option.some.injEq] at h
    simpa using h ▸ hs
  | cons ev evs ih =>
    obtain ⟨t, ht, h⟩ := run_cons_eq_some.mp h
    have hrest := ih (hs.step ht) h
    refine ⟨hrest.type, hrest.endStream.trans ?_⟩
    simp only [List.mem_cons, exists_eq_or_imp]
    rw [or_assoc, or_left_comm]

/-- **The requests of a run end as they should if and only if** the windows let every body through,
and the headers frame of a request with a body has no `END_STREAM` from before. -/
theorem along_requestEnds_iff {streamId : Int} {concurrency n : Nat} {resetConnection : Bool}
    {connection : Connection} {stream : Stream}
    (h : Connection.create streamId concurrency resetConnection = .ok (connection, stream))
    (evs : List Event) :
    Along step RequestEnds (init connection stream n) evs ↔
      Along step BodyEnds (init connection stream n) evs :=
  along_iff_of_invariant (J := fun s => ∃ P, HeadersFrame P s)
    (fun _ _ _ ⟨_, hP⟩ hstep => ⟨⟨_, hP.step hstep⟩, requestEnds_iff hP hstep⟩)
    ⟨False, headersFrame_init h⟩

/-- A request with a body, and then one without: both end as they should. -/
theorem requestEnds_postGet : ∃ connection stream,
    Connection.create 7 1 false = .ok (connection, stream) ∧
      Along step RequestEnds (init connection stream 1)
        [.request "10.0.0.1" ⟨[0x83], some [0x61]⟩, .request "10.0.0.1" ⟨[0x82], none⟩] :=
  ⟨_, _, rfl, (@along_requestEnds_iff 7 1 1 false _ _ rfl _).mpr (by decide)⟩

/-- The other way round: the headers of the request with a body end its stream. -/
theorem not_requestEnds_getPost : ∃ connection stream,
    Connection.create 7 1 false = .ok (connection, stream) ∧
      ¬ Along step RequestEnds (init connection stream 1)
        [.request "10.0.0.1" ⟨[0x82], none⟩, .request "10.0.0.1" ⟨[0x83], some [0x61]⟩] := by
  refine ⟨_, _, rfl, fun h => ?_⟩
  obtain ⟨frames, hframes, hends⟩ := ((h _ rfl).2 _ rfl).1
  obtain rfl := Option.some.inj hframes
  obtain ⟨-, -, hflag, -⟩ := hends
  exact absurd (hflag.mp (by decide)) (by decide)

end Session

end Http2
end Hedra
