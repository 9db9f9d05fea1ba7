import MuduoRebuild.Codec.Decoder
import MuduoRebuild.Codec.RoundTrip

/-!
# What the decoder accepts

The decoder loses nothing and invents nothing: the frames of the messages it has delivered, followed
by what it has left in the buffer, are the bytes it was given. What is left is the beginning of a
frame that is not complete, or it begins with a header that no frame has. `onChunks_eq_iff` says
that these conditions determine what the decoder does with a stream.
-/

namespace MuduoRebuild

namespace LengthHeaderCodec

open Framing

/-- The beginning of a frame, which is not complete. -/
def Incomplete (s : List UInt8) : Prop :=
  s.length < kHeaderLen ∨ 0 ≤ signedBigEndian (s.take kHeaderLen) ∧
    signedBigEndian (s.take kHeaderLen) ≤ 65536 ∧
    s.length < signedBigEndian (s.take kHeaderLen) + kHeaderLen

/-- The length in the header is none that the decoder accepts. -/
def Invalid (s : List UInt8) : Prop :=
  kHeaderLen ≤ s.length ∧
    (signedBigEndian (s.take kHeaderLen) < 0 ∨ 65536 < signedBigEndian (s.take kHeaderLen))

instance (s : List UInt8) : Decidable (Incomplete s) := inferInstanceAs (Decidable (_ ∨ _))

instance (s : List UInt8) : Decidable (Invalid s) := inferInstanceAs (Decidable (_ ∧ _))

/-- One pass of the loop, by the signed length in the header. -/
theorem cut_eq (s : List UInt8) (hlen : ¬s.length < kHeaderLen) :
    cut s = if signedBigEndian (s.take kHeaderLen) > 65536 ∨
        signedBigEndian (s.take kHeaderLen) < 0 then .stop
      else if (signedBigEndian (s.take kHeaderLen)).toNat ≤ (s.drop kHeaderLen).length then
        .item ((s.drop kHeaderLen).take (signedBigEndian (s.take kHeaderLen)).toNat)
          ((s.drop kHeaderLen).drop (signedBigEndian (s.take kHeaderLen)).toNat)
      else .wait := by
  obtain ⟨b₀, b₁, b₂, b₃, tail, rfl⟩ := exists_header hlen
  exact cut_header b₀ b₁ b₂ b₃ tail (toSigned_loadBE b₀ b₁ b₂ b₃)

theorem cut_eq_wait_iff {s : List UInt8} : cut s = .wait ↔ Incomplete s := by
  by_cases hshort : s.length < kHeaderLen
  · exact iff_of_true (cut_of_length_lt hshort) (.inl hshort)
  · have hdrop : (s.drop kHeaderLen).length = s.length - kHeaderLen := List.length_drop
    rw [cut_eq s hshort, Incomplete, or_iff_right hshort]
    split_ifs with hbad hroom
    · exact iff_of_false (fun h => by cases h) (by omega)
    · exact iff_of_false (fun h => by cases h) (by omega)
    · exact iff_of_true rfl (by omega)

theorem cut_eq_stop_iff {s : List UInt8} : cut s = .stop ↔ Invalid s := by
  by_cases hshort : s.length < kHeaderLen
  · rw [cut_of_length_lt hshort]
    exact iff_of_false (fun h => by cases h) fun h => absurd h.1 (Nat.not_le.mpr hshort)
  · rw [cut_eq s hshort, Invalid, and_iff_right (Nat.not_lt.mp hshort)]
    split_ifs with hbad hroom
    · exact iff_of_true rfl hbad.symm
    · exact iff_of_false (fun h => by cases h) fun h => hbad h.symm
    · exact iff_of_false (fun h => by cases h) fun h => hbad h.symm

/-- What is cut off the stream is the frame of the message that is delivered. -/
theorem eq_frame_append_of_cut {s message rest : List UInt8} (h : cut s = .item message rest) :
    s = frame message ++ rest := by
  obtain ⟨b₀, b₁, b₂, b₃, rfl, hlen, hmax⟩ := cut_eq_item h
  obtain ⟨c₀, c₁, c₂, c₃, hframe, hload⟩ := exists_frame_header message
  rw [Nat.mod_eq_of_lt (by omega)] at hload
  have hword : ByteOrder.loadBE b₀ b₁ b₂ b₃ = message.length :=
    ByteOrder.eq_of_toSigned_eq (ByteOrder.loadBE_lt ..) hlen
  have hheader := ByteOrder.loadBE_injective (hword.trans hload.symm)
  rw [hframe]
  exact congrArg (· ++ (message ++ rest)) hheader

/-- Of the beginning of a stream of frames a beginning of the messages is delivered, and no length
is refused. -/
theorem onMessage_of_prefix {messages : List (List UInt8)} {s : List UInt8}
    (hmax : ∀ message ∈ messages, message.length ≤ 65536)
    (h : s <+: (messages.map frame).flatten) :
    (onMessage s).stopped = false ∧ (onMessage s).items <+: messages := by
  obtain ⟨t, ht⟩ := h
  have hparse : reader.parse (s ++ t) = ⟨messages, false, []⟩ := by
    rw [ht]
    exact onMessage_frames hmax
  constructor
  · by_contra hstop
    rw [Reader.parse_append_of_stopped (Bool.eq_true_of_not_eq_false hstop)] at hparse
    cases hparse
  · rw [Reader.parse_append] at hparse
    exact ⟨_, congrArg Parsed.items hparse⟩

/-- **What the decoder accepts.** For every fragmentation of a byte stream: the decoder delivers
certain messages, gives up or waits, and leaves certain bytes, if and only if the messages are of at
most 65536 bytes, their frames followed by these bytes are the stream, and the bytes begin with an
invalid header, or an incomplete frame is all they are. -/
theorem onChunks_eq_iff (chunks : List (List UInt8)) (p : Parsed UInt8 (List UInt8)) :
    onChunks chunks = p ↔
      (∀ message ∈ p.items, message.length ≤ 65536) ∧
        (p.items.map frame).flatten ++ p.rest = chunks.flatten ∧
        (p.stopped = true → Invalid p.rest) ∧ (p.stopped = false → Incomplete p.rest) := by
  have hparse : onChunks chunks = reader.parse chunks.flatten := Reader.feed_eq_parse chunks
  rw [hparse]
  constructor
  · rintro rfl
    refine ⟨fun message hmem => length_le_of_mem_items hmem,
      Reader.flatten_encode_append_rest eq_frame_append_of_cut _, fun hstop => ?_, fun hwait => ?_⟩
    · exact cut_eq_stop_iff.mp (Reader.cut_rest_of_stopped hstop)
    · exact cut_eq_wait_iff.mp (Reader.cut_rest_of_not_stopped hwait)
  · rintro ⟨hmax, hstream, hstop, hwait⟩
    have hcut : ∀ message ∈ p.items, ∀ t, cut (frame message ++ t) = .item message t :=
      fun message hmem => cut_frame_append (hmax message hmem)
    have hitems : (onMessage p.rest).after p.items = p → reader.parse chunks.flatten = p := by
      rw [← hstream]
      exact (Reader.parse_encode_append hcut p.rest).trans
    obtain ⟨messages, stopped, rest⟩ := p
    refine hitems ?_
    cases stopped with
    | true =>
      have hrest : onMessage rest = ⟨[], true, rest⟩ :=
        Reader.parse_stop (cut_eq_stop_iff.mpr (hstop rfl))
      rw [hrest, Parsed.after, List.append_nil]
    | false =>
      have hrest : onMessage rest = ⟨[], false, rest⟩ :=
        Reader.parse_wait (cut_eq_wait_iff.mpr (hwait rfl))
      rw [hrest, Parsed.after, List.append_nil]

end LengthHeaderCodec

end MuduoRebuild
