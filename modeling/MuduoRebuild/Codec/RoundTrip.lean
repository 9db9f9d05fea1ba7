import MuduoRebuild.Buffer.Operations
import MuduoRebuild.Codec.Basic

/-!
# The encoder against the decoder

`send` builds a frame in a fresh `Buffer`: the vector may grow for the message, and the header
goes into the reserved room in front (`send_eq_ok`). A frame of at most 65536 bytes is cut off
the stream again (`onMessage_frame_append`), so whole lists of such messages survive any
fragmentation (`onChunks_of_sent`).

The decoder refuses lengths above 65536 and the encoder checks nothing.
`delivered_iff_length_le` says which messages the two sides agree on.
-/

namespace MuduoRebuild

namespace LengthHeaderCodec

open Fallible Framing

/-- What `send` puts on the wire: the low 32 bits of the length, then the message. -/
def frame (message : List UInt8) : List UInt8 :=
  ByteOrder.storeLE (ntohl (message.length % 2 ^ 32)) ++ message

/-! ### Encoding -/

private theorem writableBytes_fresh : Buffer.fresh.writableBytes = Buffer.kInitialSize := by
  rw [Buffer.writableBytes_eq Buffer.wellFormed_fresh, Buffer.length_fresh]
  rfl

/-- The message in its buffer, with room for the header in front. -/
private theorem append_fresh {message : List UInt8}
    (hmax : Buffer.kInitialSize + message.length ≤ maxSize) :
    ∃ b, Buffer.fresh.append message = .ok b ∧ b.WellFormed ∧
      Buffer.kCheapPrepend ≤ b.readIndex ∧ b.content = message := by
  rcases Buffer.append_spec Buffer.wellFormed_fresh (by omega)
    (Buffer.growthFits_fresh message.length) with ⟨b, happ, h, -, hlow, hcont⟩ | ⟨-, hbig⟩
  · refine ⟨b, happ, h, ?_, by rw [hcont, Buffer.content_fresh, List.nil_append]⟩
    exact (le_min le_rfl le_rfl).trans hlow
  · rw [writableBytes_fresh] at hbig
    omega

/-- A message the vector cannot hold makes `append` throw. -/
private theorem append_fresh_ne_ok {message : List UInt8} {b : Buffer}
    (hmax : maxSize < Buffer.kInitialSize + message.length) :
    Buffer.fresh.append message ≠ .ok b := by
  intro happ
  have hlen : message.length ≤ maxSize := Buffer.length_le_of_append
    Buffer.wellFormed_fresh.length_le happ
  have hlarge : Buffer.kInitialSize < message.length := by
    have : 2 * Buffer.kInitialSize < maxSize := by decide
    omega
  rw [← writableBytes_fresh] at hlarge hmax
  have herr := Buffer.append_lengthError Buffer.wellFormed_fresh hlen hlarge
    (Nat.add_lt_add_right hlarge _) hmax
  rw [herr] at happ
  cases happ

/-- `send` passes a frame on exactly when the vector can hold it, and it is `frame`. -/
theorem send_eq_ok {message bytes : List UInt8} :
    send message = .ok bytes ↔
      Buffer.kInitialSize + message.length ≤ maxSize ∧ bytes = frame message := by
  rcases Nat.lt_or_ge maxSize (Buffer.kInitialSize + message.length) with hmax | hmax
  · refine iff_of_false (fun hsend => ?_) (fun h => absurd h.1 (by omega))
    obtain ⟨b, happ, -⟩ := bind_eq_ok.mp hsend
    exact append_fresh_ne_ok hmax happ
  · obtain ⟨b, happ, h, hlow, hcont⟩ := append_fresh hmax
    -- the header fits into the room that a fresh buffer reserves
    have hhead : (ByteOrder.storeLE (ntohl (message.length % 2 ^ 32))).length ≤
        b.prependableBytes := le_trans (by rw [ByteOrder.length_storeLE]; decide) hlow
    obtain ⟨b', hpre, h', -, hcont'⟩ := Buffer.prepend_spec h hhead
    have hbytes : b'.content = frame message := by rw [hcont', hcont, frame]
    have hsend : send message = .ok (frame message) := by
      rw [send, happ, ok_bind]
      change b.prepend _ >>= _ = _
      rw [hpre, ok_bind, Buffer.retrieveAsString_eq h', ok_bind, hbytes]
      rfl
    rw [hsend, Except.ok.injEq]
    exact ⟨fun heq => ⟨hmax, heq.symm⟩, fun heq => heq.2.symm⟩

/-! ### Decoding -/

/-- The header of a frame, as the decoder reads it. -/
theorem exists_frame_header (message : List UInt8) :
    ∃ b₀ b₁ b₂ b₃, frame message = b₀ :: b₁ :: b₂ :: b₃ :: message ∧
      ByteOrder.loadBE b₀ b₁ b₂ b₃ = message.length % 2 ^ 32 := by
  obtain ⟨b₀, b₁, b₂, b₃, hstore, hload⟩ := ByteOrder.loadBE_storeLE_byteSwap
    (Nat.mod_lt message.length (Nat.two_pow_pos 32))
  refine ⟨b₀, b₁, b₂, b₃, ?_, hload⟩
  rw [frame, ntohl, hstore]
  rfl

/-- A frame in front of the stream is cut off. -/
theorem cut_frame_append {message : List UInt8} (hlen : message.length ≤ 65536)
    (rest : List UInt8) : cut (frame message ++ rest) = .item message rest := by
  obtain ⟨b₀, b₁, b₂, b₃, hframe, hload⟩ := exists_frame_header message
  have hsigned : ByteOrder.toSigned (ByteOrder.loadBE b₀ b₁ b₂ b₃) = message.length := by
    rw [hload, Nat.mod_eq_of_lt (by omega), ByteOrder.toSigned_of_lt (by omega)]
  simp only [hframe, List.cons_append]
  rw [cut_header b₀ b₁ b₂ b₃ _ hsigned, if_neg (by omega), Int.toNat_natCast,
    if_pos (by simp), List.take_left, List.drop_left]

/-- A frame in front of the stream is delivered, and the rest of the stream is parsed. -/
theorem onMessage_frame_append {message : List UInt8} (hlen : message.length ≤ 65536)
    (rest : List UInt8) :
    onMessage (frame message ++ rest) = (onMessage rest).after [message] :=
  Reader.parse_item (cut_frame_append hlen rest)

/-- A frame beyond the limit shuts the connection down. -/
theorem onMessage_frame_of_gt {message : List UInt8} (hlow : 65536 < message.length)
    (hhigh : message.length < 2 ^ 31) :
    onMessage (frame message) = ⟨[], true, frame message⟩ := by
  obtain ⟨b₀, b₁, b₂, b₃, hframe, hload⟩ := exists_frame_header message
  have hsigned : ByteOrder.toSigned (ByteOrder.loadBE b₀ b₁ b₂ b₃) = message.length := by
    rw [hload, Nat.mod_eq_of_lt (by omega), ByteOrder.toSigned_of_lt hhigh]
  have hcut : cut (frame message) = .stop := by
    rw [hframe, cut_header b₀ b₁ b₂ b₃ _ hsigned, if_pos (by omega)]
  exact Reader.parse_stop hcut

/-- A stream of frames is parsed to its end. -/
theorem onMessage_frames {messages : List (List UInt8)}
    (hlen : ∀ message ∈ messages, message.length ≤ 65536) :
    onMessage (messages.map frame).flatten = ⟨messages, false, []⟩ := by
  induction messages with
  | nil => exact Reader.parse_wait rfl
  | cons message messages ih =>
    rw [List.forall_mem_cons] at hlen
    rw [List.map_cons, List.flatten_cons, onMessage_frame_append hlen.1, ih hlen.2]
    rfl

/-- The decoder never delivers a message beyond the limit. -/
theorem length_le_of_mem_items {s message : List UInt8} (h : message ∈ (onMessage s).items) :
    message.length ≤ 65536 := by
  unfold onMessage at h
  induction s using Reader.parse.induct reader with
  | case1 s item rest hcut ih =>
    rw [Reader.parse_item hcut] at h
    rcases List.mem_cons.mp h with rfl | hrest
    · obtain ⟨_, _, _, _, -, -, hmax⟩ := cut_eq_item hcut
      exact hmax
    · exact ih hrest
  | case2 s hcut =>
    rw [Reader.parse_stop hcut] at h
    cases h
  | case3 s hcut =>
    rw [Reader.parse_wait hcut] at h
    cases h

/-! ### Both sides together -/

private theorem mapM_send_eq_ok {messages : List (List UInt8)}
    (hlen : ∀ message ∈ messages, message.length ≤ 65536) :
    messages.mapM send = .ok (messages.map frame) := by
  induction messages with
  | nil => rfl
  | cons message messages ih =>
    rw [List.forall_mem_cons] at hlen
    have hroom : Buffer.kInitialSize + 65536 ≤ maxSize := by decide
    have hsend : send message = .ok (frame message) := send_eq_ok.mpr ⟨by omega, rfl⟩
    rw [List.mapM_cons, hsend, ok_bind, ih hlen.2]
    rfl

/-- **Round trip.** The frames that `send` builds for messages of at most 65536 bytes,
concatenated and delivered in any fragmentation, make `onMessage` deliver exactly those
messages, leave nothing unread and never shut the connection down. -/
theorem onChunks_of_sent (messages : List (List UInt8))
    (hlen : ∀ message ∈ messages, message.length ≤ 65536) :
    ∃ frames, messages.mapM send = .ok frames ∧
      ∀ chunks : List (List UInt8), chunks.flatten = frames.flatten →
        (onChunks chunks).items = messages ∧ (onChunks chunks).rest = [] ∧
          (onChunks chunks).stopped = false := by
  refine ⟨messages.map frame, mapM_send_eq_ok hlen, ?_⟩
  intro chunks hchunks
  have hparse : onChunks chunks = ⟨messages, false, []⟩ := by
    rw [← onMessage_frames hlen, ← hchunks]
    exact Reader.feed_eq_parse chunks
  rw [hparse]
  exact ⟨rfl, rfl, rfl⟩

/-- An empty message and a short one. -/
theorem onChunks_of_sent_short :
    (∀ message ∈ [[], [104, 105]], message.length ≤ 65536) ∧
      ∃ frames, [[], [104, 105]].mapM send = .ok frames ∧
        ∀ chunks : List (List UInt8), chunks.flatten = frames.flatten →
          (onChunks chunks).items = [[], [104, 105]] ∧ (onChunks chunks).rest = [] ∧
            (onChunks chunks).stopped = false :=
  ⟨by decide, onChunks_of_sent [[], [104, 105]] (by decide)⟩

/-- **Which messages the two sides agree on.** Every frame that `send` passes on for a message
is accepted by `onMessage` and delivers that message exactly when the message has at most 65536
bytes; the only other way out is a message so long that `append` throws and no frame is
passed on. -/
theorem delivered_iff_length_le (message : List UInt8) :
    (∀ bytes, send message = .ok bytes →
      (onMessage bytes).items = [message] ∧ (onMessage bytes).stopped = false) ↔
      message.length ≤ 65536 ∨ maxSize < Buffer.kInitialSize + message.length := by
  constructor
  · intro h
    -- what the decoder delivers is never beyond the limit, so the message was not
    refine or_iff_not_imp_right.mpr fun hmax => ?_
    have hitems := (h (frame message) (send_eq_ok.mpr ⟨by omega, rfl⟩)).1
    exact length_le_of_mem_items (hitems ▸ List.mem_singleton_self message)
  · rintro (hlen | hmax) bytes hsend
    · obtain ⟨-, rfl⟩ := send_eq_ok.mp hsend
      have honly := onMessage_frames (List.forall_mem_singleton.mpr hlen)
      rw [List.map_singleton, List.flatten_singleton] at honly
      rw [honly]
      exact ⟨rfl, rfl⟩
    · exact absurd (send_eq_ok.mp hsend).1 (by omega)

/-- One byte beyond the limit: `send` passes the frame on, and `onMessage` delivers nothing and
shuts the connection down. -/
theorem send_refused :
    ∃ message bytes : List UInt8, message = List.replicate 65537 0 ∧ send message = .ok bytes ∧
      (onMessage bytes).items = [] ∧ (onMessage bytes).stopped = true := by
  obtain ⟨message, hmessage⟩ : ∃ m : List UInt8, m = List.replicate 65537 0 := ⟨_, rfl⟩
  have hlength : message.length = 65537 := by rw [hmessage, List.length_replicate]
  have hroom : Buffer.kInitialSize + message.length ≤ maxSize := by
    rw [hlength]
    decide
  refine ⟨message, frame message, hmessage, send_eq_ok.mpr ⟨hroom, rfl⟩, ?_⟩
  rw [onMessage_frame_of_gt (by omega) (by omega)]
  exact ⟨rfl, rfl⟩

end LengthHeaderCodec

end MuduoRebuild
