/-
# Padded frames

`DATA` and `HEADERS` frames may have padding behind their data, with its length in front.  The length
is not compared with what there is: where it is too long, the end of the slice is before its start, or
is counted from the end of the body.

A body that is accepted is its fields, the data and the padding, one behind the other, if and only if
the padding fits.

They are parsed in `core/engines/types/http2/frames/frame_buffer.py`.

* `data_iff`: of `DATA` frames, and `headers_iff` of `HEADERS` frames;
* `bodyParsed_iff`: of both: a frame is rejected or cut up without a rest exactly if its padding
  fits.
-/
import Hedra.Http2.Pipe

namespace Hedra
namespace Http2

/-! ## 1. Bodies and their parts -/

/-- The types of frames that are looked at. -/
inductive PaddedType
  | data
  | headers

def PaddedType.code : PaddedType → Nat
  | .data => 0x0
  | .headers => 0x01

/-- The byte for the length of the padding. -/
def padField (flags : Finset Flag) (padLength : Nat) : Bytes :=
  if .padded ∈ flags then [UInt8.ofNat padLength] else []

/-- The priority fields, which are of five bytes. -/
def PriorityField (flags : Finset Flag) (dependsOn streamWeight : Nat) (exclusive : Bool)
    (priority : Bytes) : Prop :=
  if .priority ∈ flags then
    priority.length = 5 ∧ parsePriority priority = .ok (dependsOn, streamWeight, exclusive)
  else priority = []

/-- The fields of the frame, its data and its padding are the body, and all of it is accounted for in
flow control. -/
def Frame.Partitions (f : Frame) (body : Bytes) : Prop :=
  match f.payload with
  | .data padLength bytes =>
    (∃ padding, padding.length = padLength ∧ body = padField f.flags padLength ++ bytes ++ padding) ∧
      f.flowControlledLength = body.length
  | .headers padLength dependsOn streamWeight exclusive bytes =>
    ∃ priority padding, PriorityField f.flags dependsOn streamWeight exclusive priority ∧
      padding.length = padLength ∧ body = padField f.flags padLength ++ priority ++ bytes ++ padding
  | _ => True

/-- The frame is rejected, or it partitions its body. -/
def BodyParsed (streamId flagByte : Nat) (t : PaddedType) (body : Bytes) : Prop :=
  ∀ f, Frame.parse streamId t.code flagByte body = .ok f → f.Partitions body

/-- How many bytes the fields in front take. -/
def fieldsLength (flags : Finset Flag) (t : PaddedType) : Nat :=
  (if .padded ∈ flags then 1 else 0) +
    match t with
    | .data => 0
    | .headers => if .priority ∈ flags then 5 else 0

/-- There is no padding, or too little for the fields, or enough for the fields and the padding. -/
def PaddingWithin (flags : Finset Flag) (t : PaddedType) (body : Bytes) : Prop :=
  .padded ∈ flags → body.length < fieldsLength flags t ∨
    fieldsLength flags t + (body.headD 0).toNat ≤ body.length

/-! ## 2. What is parsed -/

/-- The length of the padding, and the body behind it. -/
theorem parsePadding_cases (flags : Finset Flag) (body : Bytes) :
    (.padded ∈ flags ∧ body = [] ∧ ∃ e, parsePadding flags body = .error e) ∨
      ∃ pad rest, body = padField flags pad ++ rest ∧ pad < 256 ∧ (.padded ∉ flags → pad = 0) ∧
        parsePadding flags body = .ok (pad, (padField flags pad).length) := by
  unfold padField
  by_cases hp : .padded ∈ flags
  · cases body with
    | nil => exact .inl ⟨hp, rfl, .structError, by rw [parsePadding, if_pos hp]; rfl⟩
    | cons b rest =>
      refine .inr ⟨b.toNat, rest, by simp [hp], b.toNat_lt, fun h => absurd hp h, ?_⟩
      rw [parsePadding_cons hp, if_pos hp]
      rfl
  · refine .inr ⟨0, body, by simp [hp], by decide, fun _ => rfl, ?_⟩
    rw [parsePadding, if_neg hp, if_neg hp]
    rfl

/-- The priority fields are in the first five bytes. -/
theorem parsePriority_cases (body : Bytes) :
    (body.length < 5 ∧ ∃ e, parsePriority body = .error e) ∨
      ∃ priority rest dependsOn streamWeight exclusive, body = priority ++ rest ∧ priority.length = 5 ∧
        parsePriority priority = .ok (dependsOn, streamWeight, exclusive) ∧
        parsePriority body = .ok (dependsOn, streamWeight, exclusive) := by
  by_cases hlength : body.length < 5
  · refine .inl ⟨hlength, .structError, ?_⟩
    have hunpack : unpack [4, 1] (slice body 0 5) = .error .structError := by
      rw [slice_of_nonneg _ _ (by decide)]
      have hne : min 5 body.length ≠ 5 := by omega
      simp [unpack, Dns.unpackInts, hne]
    rw [parsePriority, hunpack]
    rfl
  · have hslice : slice body 0 5 = body.take 5 := by
      rw [slice_of_nonneg _ _ (by decide)]
      rfl
    have hslice' : slice (body.take 5) 0 5 = body.take 5 := by
      rw [slice_of_nonneg _ _ (by decide)]
      simp
    have hsame : parsePriority (body.take 5) = parsePriority body := by
      unfold parsePriority
      rw [hslice, hslice']
    have htake : (body.take 5).length = 5 := by
      rw [List.length_take]
      omega
    have hunpack : ∃ dependsOn streamWeight, unpack [4, 1] (body.take 5) =
        .ok [dependsOn, streamWeight] := ⟨_, _, by
      simp only [unpack, Dns.unpackInts, htake]
      rfl⟩
    obtain ⟨dependsOn, streamWeight, hunpack⟩ := hunpack
    have hparse : parsePriority body =
        .ok (dependsOn % 0x80000000, streamWeight, decide (dependsOn / 0x80000000 ≠ 0)) := by
      rw [parsePriority, hslice, hunpack]
      rfl
    exact .inr ⟨body.take 5, body.drop 5, _, _, _, (List.take_append_drop 5 body).symm, htake,
      hsame.trans hparse, hparse⟩

/-! ## 3. What is accepted -/

/-- What is between the fields in front and the padding, where that fits. -/
theorem exists_padding {front rest : Bytes} {pad : Nat} (h : pad ≤ rest.length) :
    ∃ padding, padding.length = pad ∧
      rest = slice (front ++ rest) front.length ((front ++ rest).length - pad) ++ padding := by
  refine ⟨rest.drop (rest.length - pad), by rw [List.length_drop]; omega, ?_⟩
  have hstop : (((front ++ rest).length : Int) - pad).toNat = front.length + (rest.length - pad) := by
    rw [List.length_append]
    omega
  rw [slice_of_nonneg _ _ (by rw [List.length_append]; omega), hstop, List.take_length_add_append,
    List.drop_left, List.take_append_drop]

section Within

variable {flags : Finset Flag} {t : PaddedType} {body rest : Bytes} {pad extra : Nat} {streamId : Int}

/-- What is within the body, behind the length of the padding. -/
theorem paddingWithin_iff (hbody : body = padField flags pad ++ rest) (hpad : pad < 256)
    (hnone : .padded ∉ flags → pad = 0)
    (hfields : fieldsLength flags t = (padField flags pad).length + extra) (hextra : extra ≤ rest.length) :
    PaddingWithin flags t body ↔ extra + pad ≤ rest.length := by
  unfold PaddingWithin
  by_cases hp : .padded ∈ flags
  · have hhead : (body.headD 0).toNat = pad := by
      rw [hbody]
      simp [padField, hp, Nat.mod_eq_of_lt hpad]
    have hlength : body.length = 1 + rest.length := by
      rw [hbody]
      simp [padField, hp, Nat.add_comm]
    have hfield : (padField flags pad).length = 1 := by simp [padField, hp]
    rw [hhead, hlength, hfields, hfield]
    exact ⟨fun h => by have := h hp; omega, fun h _ => by omega⟩
  · rw [hnone hp]
    exact iff_of_true (fun h => absurd h hp) hextra

/-- **A `DATA` frame.** -/
theorem data_iff (hbody : body = padField flags pad ++ rest) (hpad : pad < 256)
    (hnone : .padded ∉ flags → pad = 0) :
    Frame.Partitions ⟨streamId, flags, .data pad (slice body (padField flags pad).length
      (body.length - pad))⟩ body ↔ PaddingWithin flags .data body := by
  have hfield : (padField flags pad).length = if .padded ∈ flags then 1 else 0 := by
    unfold padField
    split <;> rfl
  rw [paddingWithin_iff hbody hpad hnone (by rw [hfield]; rfl) (Nat.zero_le _), Nat.zero_add]
  constructor
  · rintro ⟨⟨padding, hlength, heq⟩, -⟩
    have htotal := congrArg List.length heq
    have htotal' := congrArg List.length hbody
    simp only [List.length_append] at htotal htotal'
    omega
  · intro hle
    obtain ⟨padding, hlength, heq⟩ := @exists_padding (padField flags pad) rest pad hle
    rw [← hbody] at heq
    refine ⟨⟨padding, hlength, ?_⟩, ?_⟩
    · rw [List.append_assoc, ← heq]
      exact hbody
    · have htotal := congrArg List.length heq
      have htotal' := congrArg List.length hbody
      rw [List.length_append] at htotal htotal'
      simp only [Frame.flowControlledLength]
      by_cases hp : .padded ∈ flags
      · rw [if_pos hp] at hfield ⊢
        omega
      · rw [if_neg hp] at hfield ⊢
        rw [hnone hp] at hlength
        omega

/-- **A `HEADERS` frame.** -/
theorem headers_iff {priority : Bytes} {dependsOn streamWeight : Nat} {exclusive : Bool}
    (hbody : body = padField flags pad ++ (priority ++ rest)) (hpad : pad < 256)
    (hnone : .padded ∉ flags → pad = 0)
    (hpriority : PriorityField flags dependsOn streamWeight exclusive priority) :
    Frame.Partitions ⟨streamId, flags, .headers pad dependsOn streamWeight exclusive
      (slice (priority ++ rest) priority.length ((priority ++ rest).length - pad))⟩ body ↔
      PaddingWithin flags .headers body := by
  have hfields : fieldsLength flags .headers = (padField flags pad).length + priority.length := by
    unfold PriorityField at hpriority
    unfold fieldsLength padField
    split at hpriority
    · next hp =>
      rw [hpriority.1, if_pos hp]
      split <;> rfl
    · next hp =>
      rw [hpriority, if_neg hp]
      split <;> rfl
  have hwithin : PaddingWithin flags .headers body ↔ pad ≤ rest.length := by
    rw [paddingWithin_iff hbody hpad hnone hfields (by rw [List.length_append]; omega),
      List.length_append, Nat.add_le_add_iff_left]
  rw [hwithin]
  constructor
  · rintro ⟨priority', padding, hpriority', hlength, heq⟩
    have hsame : priority'.length = priority.length := by
      unfold PriorityField at hpriority hpriority'
      split at hpriority
      · next hp => rw [if_pos hp] at hpriority'; rw [hpriority.1, hpriority'.1]
      · next hp => rw [if_neg hp] at hpriority'; rw [hpriority, hpriority']
    have htotal := congrArg List.length heq
    have htotal' := congrArg List.length hbody
    simp only [List.length_append] at htotal htotal'
    omega
  · intro hle
    obtain ⟨padding, hlength, heq⟩ := @exists_padding priority rest pad hle
    refine ⟨priority, padding, hpriority, hlength, ?_⟩
    rw [List.append_assoc, List.append_assoc]
    exact hbody.trans (congrArg (fun l => padField flags pad ++ (priority ++ l)) heq)

end Within

/-- **A frame is rejected or partitions its body if and only if its padding fits.** -/
theorem bodyParsed_iff (streamId flagByte : Nat) (t : PaddedType) (body : Bytes) :
    BodyParsed streamId flagByte t body ↔ PaddingWithin (parsedFlags t.code flagByte) t body := by
  unfold BodyParsed Frame.parse
  generalize parsedFlags t.code flagByte = flags
  have hok : ∀ {p : Payload}, Payload.parse flags body t.code = .ok p →
      ((∀ f, (do return (⟨streamId, flags, ← Payload.parse flags body t.code⟩ : Frame)) = .ok f →
        f.Partitions body) ↔ Frame.Partitions ⟨streamId, flags, p⟩ body) := by
    intro p hp
    rw [hp]
    exact ⟨fun h => h _ rfl, fun h f hf => Except.ok.inj hf ▸ h⟩
  have herror : ∀ {e : Error}, Payload.parse flags body t.code = .error e →
      ∀ f, (do return (⟨streamId, flags, ← Payload.parse flags body t.code⟩ : Frame)) = .ok f →
        f.Partitions body := by
    intro e he f hf
    rw [he] at hf
    cases hf
  rcases parsePadding_cases flags body with ⟨hp, rfl, e, he⟩ | ⟨pad, rest, hbody, hpad, hnone, hpadding⟩
  · refine iff_of_true (@herror e ?_) fun _ => .inl ?_
    · cases t <;> simp [Payload.parse, PaddedType.code, he, bind, Except.bind]
    · simp [fieldsLength, hp]
  · cases t with
    | data =>
      refine (hok ?_).trans (data_iff hbody hpad hnone)
      simp [Payload.parse, PaddedType.code, hpadding, bind, Except.bind, pure, Except.pure]
    | headers =>
      have hdrop : body.drop (padField flags pad).length = rest := by rw [hbody, List.drop_left]
      by_cases hp : .priority ∈ flags
      · rcases parsePriority_cases rest with ⟨hshort, e, he⟩ |
            ⟨priority, rest, dependsOn, streamWeight, exclusive, rfl, hlength, hfield, hparse⟩
        · refine iff_of_true (@herror e ?_) fun hpadded => .inl ?_
          · simp [Payload.parse, PaddedType.code, hpadding, hdrop, hp, he, bind, Except.bind]
          · rw [hbody]
            simp [fieldsLength, padField, hp, hpadded]
            omega
        · have hpriority : PriorityField flags dependsOn streamWeight exclusive priority := by
            rw [PriorityField, if_pos hp]
            exact ⟨hlength, hfield⟩
          refine (hok ?_).trans (headers_iff hbody hpad hnone hpriority)
          simp [Payload.parse, PaddedType.code, hpadding, hdrop, hp, hparse, hlength, bind, Except.bind, pure,
            Except.pure]
      · have hpriority : PriorityField flags 0 0 false [] := by rw [PriorityField, if_neg hp]
        refine (hok ?_).trans (@headers_iff flags body rest pad streamId [] 0 0 false hbody hpad hnone hpriority)
        simp [Payload.parse, PaddedType.code, hpadding, hdrop, hp, bind, Except.bind, pure, Except.pure]

/-- The padding is longer than the body: the data ends before it starts, and flow control counts more
than has come. -/
theorem not_bodyParsed : Frame.parse 1 0x0 0x08 [5, 1, 2] =
      .ok ⟨1, {.padded}, .data 5 []⟩ ∧
    (⟨1, {.padded}, .data 5 []⟩ : Frame).flowControlledLength = 6 ∧
    ¬ BodyParsed 1 0x08 .data [5, 1, 2] := by
  have hparse : Frame.parse 1 0x0 0x08 [5, 1, 2] = .ok ⟨1, {.padded}, .data 5 []⟩ := by decide +kernel
  refine ⟨hparse, by decide, fun h => ?_⟩
  exact absurd (h _ hparse).2 (by decide)

end Http2
end Hedra
