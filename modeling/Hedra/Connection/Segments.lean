/-
# TCP segments taken for messages

Both TCP protocols hand each chunk of `data_received` to `read`, which decompresses it, decrypts
it, unpickles it and dispatches **one** message.  There is no framing: what follows the first
compressed frame of a chunk is dropped, a part of a frame is answered with an error and not kept,
and whatever raises later makes the event loop close the transport.

So the messages that are sent are dispatched, each once and in order, if and only if every chunk
is exactly one of them.

The protocols call `read` of `distributed/connection/tcp/mercury_sync_tcp_connection.py`.

* `length_receiveAll_le`: no more messages are dispatched than are left whole;
* `dispatched_iff`: the equivalence, for any messages and any chunks.
-/
import Hedra.Lib.Frames

namespace Hedra

open Lib

/-! ## 1. `read` -/

/-- What `read` does with bytes: `decompress` is the decompressor, which takes the first frame,
and `loads` decrypts and unpickles.  Both may raise. -/
structure Codec (Message : Type) where
  decompress : List UInt8 → Option (List UInt8)
  loads : List UInt8 → Option Message

/-- The receiving end of a transport. -/
structure TcpReader (Message : Type) where
  closed : Bool
  dispatched : List Message
  /-- The number of tasks of `_send_error`. -/
  errors : Nat

namespace TcpReader

variable {Message : Type}

/-- A new transport. -/
def init : TcpReader Message where
  closed := false
  dispatched := []
  errors := 0

/-- `data_received`, hence `read`.  A message is dispatched when there is a handler for it whose
parser takes it; otherwise `read` raises. -/
def dataReceived (codec : Codec Message) (handles : Message → Bool) (r : TcpReader Message)
    (data : List UInt8) : TcpReader Message :=
  if r.closed then r
  else
    match codec.decompress data with
    | none => { r with errors := r.errors + 1 }
    | some decompressed =>
      match codec.loads decompressed with
      | none => { r with closed := true }
      | some m =>
        if handles m then { r with dispatched := r.dispatched ++ [m] }
        else { r with closed := true }

/-- One chunk after the other. -/
def receiveAll (codec : Codec Message) (handles : Message → Bool) (r : TcpReader Message)
    (chunks : List (List UInt8)) : TcpReader Message :=
  chunks.foldl (dataReceived codec handles) r

end TcpReader

namespace Codec

variable {Message : Type}

/-- The message that a chunk is taken for. -/
def decode (codec : Codec Message) (data : List UInt8) : Option Message :=
  (codec.decompress data).bind codec.loads

/-- The bytes are one complete message: they are read as it, and nothing is read from a part of
them, or from where they do not start. -/
structure Carries (codec : Codec Message) (bytes : List UInt8) (m : Message) : Prop where
  nonempty : bytes ≠ []
  complete : codec.decode bytes = some m
  incomplete : ∀ u v, bytes = u ++ v → v ≠ [] → codec.decode u = none
  inside : ∀ u v c, bytes = u ++ v → u ≠ [] → v ≠ [] → (c <+: v ∨ v <+: c) →
    codec.decode c = none

end Codec

namespace TcpReader

variable {Message : Type} {codec : Codec Message} {handles : Message → Bool}

/-! ## 2. One chunk -/

/-- A chunk that is read as a message, on an open transport. -/
theorem dataReceived_of_decode {r : TcpReader Message} {data : List UInt8} {m : Message}
    (hr : r.closed = false) (hd : codec.decode data = some m) (hm : handles m = true) :
    r.dataReceived codec handles data = { r with dispatched := r.dispatched ++ [m] } := by
  obtain ⟨d, hdec, hload⟩ := Option.bind_eq_some_iff.mp hd
  unfold dataReceived
  simp [hr, hdec, hload, hm]

/-- A chunk that is not read as a message. -/
theorem dispatched_of_decode_none {r : TcpReader Message} {data : List UInt8}
    (hd : codec.decode data = none) :
    (r.dataReceived codec handles data).dispatched = r.dispatched := by
  unfold dataReceived
  split
  · rfl
  · split
    · rfl
    · next d hdec =>
      have hload : codec.loads d = none := by simpa [Codec.decode, hdec] using hd
      simp [hload]

/-- A chunk is dispatched as one message at most. -/
theorem length_dataReceived_le (r : TcpReader Message) (data : List UInt8) :
    (r.dataReceived codec handles data).dispatched.length ≤ r.dispatched.length + 1 := by
  unfold dataReceived
  split
  · simp
  · split
    · simp
    · split
      · simp
      · split <;> simp

/-! ## 3. All chunks -/

theorem receiveAll_cons (r : TcpReader Message) (c : List UInt8) (chunks : List (List UInt8)) :
    r.receiveAll codec handles (c :: chunks) =
      (r.dataReceived codec handles c).receiveAll codec handles chunks := rfl

/-- Chunks are never empty. -/
theorem nonempty_of_cons {c : List UInt8} {chunks : List (List UInt8)} (h : [] ∉ c :: chunks) :
    c ≠ [] ∧ [] ∉ chunks := by
  rw [List.mem_cons, not_or] at h
  exact ⟨Ne.symm h.1, h.2⟩

/-- **No more messages are dispatched than are left whole.** -/
theorem length_receiveAll_le {F : List UInt8 → Prop} {n : Nat}
    (hF : ∀ v c, Inside F v → (c <+: v ∨ v <+: c) → codec.decode c = none)
    {chunks : List (List UInt8)} (hne : [] ∉ chunks) (r : TcpReader Message)
    (h : Remains F chunks.flatten n) :
    (r.receiveAll codec handles chunks).dispatched.length ≤ r.dispatched.length + n := by
  induction chunks generalizing r n with
  | nil => exact Nat.le_add_right _ _
  | cons c chunks ih =>
    obtain ⟨hc, hne⟩ := nonempty_of_cons hne
    rw [List.flatten_cons] at h
    rw [receiveAll_cons]
    obtain ⟨v, fs, hv, hfs, hs, rfl⟩ := id h
    rcases hv with rfl | hv
    · obtain ⟨k, hk, hr⟩ := Remains.of_edge hfs hs.symm hc
      have hrest := ih hne (r.dataReceived codec handles c) hr
      have hone : (r.dataReceived codec handles c).dispatched.length ≤ r.dispatched.length + 1 :=
        length_dataReceived_le r c
      omega
    · obtain ⟨k, hk, hr⟩ := h.drop
      have hrest := ih hne (r.dataReceived codec handles c) hr
      have hnone : codec.decode c = none := by
        refine hF v c hv ?_
        exact List.prefix_or_prefix_of_prefix ⟨_, rfl⟩ ⟨_, hs.symm⟩
      rw [dispatched_of_decode_none hnone] at hrest
      omega

/-- The messages of a stream, with their bytes, that the receiver has handlers for. -/
structure Sent (codec : Codec Message) (handles : Message → Bool)
    (sent : List (List UInt8 × Message)) : Prop where
  carries : ∀ p ∈ sent, codec.Carries p.1 p.2
  handled : ∀ p ∈ sent, handles p.2 = true

theorem Sent.tail {p : List UInt8 × Message} {sent : List (List UInt8 × Message)}
    (h : Sent codec handles (p :: sent)) : Sent codec handles sent :=
  ⟨fun q hq => h.carries q (List.mem_cons_of_mem p hq),
    fun q hq => h.handled q (List.mem_cons_of_mem p hq)⟩

theorem receiveAll_of_frames {sent : List (List UInt8 × Message)} (h : Sent codec handles sent)
    {r : TcpReader Message} (hr : r.closed = false) :
    (r.receiveAll codec handles (sent.map Prod.fst)).dispatched =
      r.dispatched ++ sent.map Prod.snd := by
  induction sent generalizing r with
  | nil => simp [receiveAll]
  | cons p sent ih =>
    have hp := dataReceived_of_decode hr (h.carries p List.mem_cons_self).complete
      (h.handled p List.mem_cons_self)
    have hopen : { r with dispatched := r.dispatched ++ [p.2] }.closed = false := hr
    rw [List.map_cons, receiveAll_cons, hp, ih h.tail hopen, List.append_assoc]
    rfl

/-- If as many messages are dispatched as were sent, the chunks are the messages. -/
theorem chunks_of_length {sent : List (List UInt8 × Message)} (h : Sent codec handles sent)
    {chunks : List (List UInt8)} (hne : [] ∉ chunks)
    (hs : chunks.flatten = (sent.map Prod.fst).flatten) (r : TcpReader Message)
    (hlen : (r.receiveAll codec handles chunks).dispatched.length =
      r.dispatched.length + sent.length) : chunks = sent.map Prod.fst := by
  induction sent generalizing r chunks with
  | nil =>
    cases chunks with
    | nil => rfl
    | cons c chunks =>
      simp at hs
      simp [hs.1] at hne
  | cons p sent ih =>
    have hp := h.carries p List.mem_cons_self
    -- where the chunks stand in what is left after this message
    let F : List UInt8 → Prop := fun b => ∃ q ∈ p :: sent, q.1 = b
    have hF : ∀ v c, Inside F v → (c <+: v ∨ v <+: c) → codec.decode c = none := by
      rintro v c ⟨u, hu, hv, q, hq, hqb⟩ hc
      exact (h.carries q hq).inside u v c hqb hu hv hc
    have hFs : ∀ b ∈ sent.map Prod.fst, F b := by
      intro b hb
      obtain ⟨q, hq, rfl⟩ := List.mem_map.mp hb
      exact ⟨q, List.mem_cons_of_mem p hq, rfl⟩
    cases chunks with
    | nil =>
      simp at hs
      exact absurd hs.1 hp.nonempty
    | cons c chunks =>
      obtain ⟨hc, hrestne⟩ := nonempty_of_cons hne
      rw [List.flatten_cons, List.map_cons, List.flatten_cons] at hs
      rw [receiveAll_cons, List.length_cons] at hlen
      have hone : (r.dataReceived codec handles c).dispatched.length ≤ r.dispatched.length + 1 :=
        length_dataReceived_le r c
      have hle {n : Nat} (hn : Remains F chunks.flatten n) :
          ((r.dataReceived codec handles c).receiveAll codec handles chunks).dispatched.length ≤
            (r.dataReceived codec handles c).dispatched.length + n :=
        length_receiveAll_le hF hrestne (r.dataReceived codec handles c) hn
      by_cases heq : c = p.1
      · subst heq
        have hs := List.append_cancel_left hs
        have hrem := hle (hs ▸ Remains.of_frames hFs)
        rw [List.length_map] at hrem
        have hchunks : chunks = sent.map Prod.fst :=
          ih h.tail hrestne hs (r.dataReceived codec handles p.1) (by omega)
        rw [List.map_cons, hchunks]
      · rcases List.append_eq_append_iff.mp hs with ⟨v, hpv, hsv⟩ | ⟨c', hcc, hsc⟩
        · -- a part of the message: it is lost
          have hv : v ≠ [] := by
            rintro rfl
            exact heq (by rw [hpv, List.append_nil])
          have hnone := hp.incomplete c v hpv hv
          have hcut := Remains.of_cut (F := F) ⟨p, List.mem_cons_self, hpv⟩ hc hFs
          have hrem := hle (hsv ▸ hcut)
          rw [dispatched_of_decode_none hnone, List.length_map] at hrem
          omega
        · -- more than the message: what follows it in the chunk is lost
          have hc' : c' ≠ [] := by
            rintro rfl
            exact heq (by rw [hcc, List.append_nil])
          obtain ⟨k, hk, hr⟩ := Remains.of_edge hFs hsc hc'
          have hrem := hle hr
          rw [List.length_map] at hk
          omega

/-- **The messages that are sent are dispatched, each once and in order, exactly if every chunk is
one of them.** -/
theorem dispatched_iff {sent : List (List UInt8 × Message)} (h : Sent codec handles sent)
    {chunks : List (List UInt8)} (hne : [] ∉ chunks)
    (hs : chunks.flatten = (sent.map Prod.fst).flatten) :
    (init.receiveAll codec handles chunks).dispatched = sent.map Prod.snd ↔
      chunks = sent.map Prod.fst := by
  constructor
  · intro hd
    refine chunks_of_length h hne hs init ?_
    rw [hd]
    simp [init]
  · rintro rfl
    rw [receiveAll_of_frames h rfl]
    rfl

/-- A codec for one byte: a frame is the byte 255 and a byte that is not, and a decompressor that
reads the frame that it is given first. -/
def byteCodec : Codec UInt8 where
  decompress
    | 255 :: x :: _ => if x = 255 then none else some [x]
    | _ => none
  loads
    | [x] => some x
    | _ => none

/-- Where a frame of `byteCodec` can be cut. -/
theorem cut_of_pair {x : UInt8} {u v : List UInt8} (h : [255, x] = u ++ v) (hv : v ≠ []) :
    u = [] ∨ (u = [255] ∧ v = [x]) := by
  rcases u with _ | ⟨y, _ | ⟨z, u⟩⟩
  · exact Or.inl rfl
  · right
    simpa [eq_comm] using h
  · simp [hv] at h

theorem byteCodec_carries {x : UInt8} (hx : x ≠ 255) : byteCodec.Carries [255, x] x := by
  constructor
  · simp
  · simp [Codec.decode, byteCodec, hx]
  · intro u v huv hv
    rcases cut_of_pair huv hv with rfl | ⟨rfl, -⟩ <;> simp [Codec.decode, byteCodec]
  · intro u v c huv hu hv hc
    obtain ⟨-, rfl⟩ := (cut_of_pair huv hv).resolve_left hu
    cases c with
    | nil => simp [Codec.decode, byteCodec]
    | cons z c =>
      obtain rfl : z = x := by
        rcases hc with hc | hc
        · exact (List.cons_prefix_cons.mp hc).1
        · exact (List.cons_prefix_cons.mp hc).1.symm
      have hnone : byteCodec.decompress (z :: c) = none := by
        unfold byteCodec
        simp only
        split
        · next heq => exact absurd (List.cons.inj heq).1 hx
        · rfl
      simp [Codec.decode, hnone]

/-- Two messages, with their bytes. -/
def twoMessages : List (List UInt8 × UInt8) := [([255, 1], 1), ([255, 2], 2)]

theorem dispatched_two_messages :
    (init.receiveAll byteCodec (fun _ => true) [[255, 1], [255, 2]]).dispatched =
        twoMessages.map Prod.snd ↔
      [[255, 1], [255, 2]] = twoMessages.map Prod.fst := by
  refine dispatched_iff ⟨?_, ?_⟩ (by decide) (by decide)
  · intro p hp
    simp only [twoMessages, List.mem_cons, List.not_mem_nil, or_false] at hp
    rcases hp with rfl | rfl <;> exact byteCodec_carries (by decide)
  · simp

/-- A message that comes in two chunks is not dispatched. -/
theorem split_message_lost :
    ¬ ∀ (codec : Codec UInt8) (handles : UInt8 → Bool) (sent : List (List UInt8 × UInt8))
      (chunks : List (List UInt8)), (∀ p ∈ sent, codec.Carries p.1 p.2) →
        (∀ p ∈ sent, handles p.2 = true) → [] ∉ chunks →
          chunks.flatten = (sent.map Prod.fst).flatten →
            (init.receiveAll codec handles chunks).dispatched = sent.map Prod.snd := by
  intro h
  have hsplit := h byteCodec (fun _ => true) [([255, 1], 1)] [[255], [1]] ?_ (by simp) (by decide)
    (by decide)
  · exact absurd hsplit (by decide)
  · intro p hp
    obtain rfl := List.mem_singleton.mp hp
    exact byteCodec_carries (by decide)

end TcpReader
end Hedra
