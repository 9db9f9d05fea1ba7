import MuduoRebuild.Codec.Basic

/-!
# The decoder against a reference parser

`refParse` reads a whole byte string by the rule of the wire format, stated without buffers:
a big-endian signed length, then that many bytes; wait when either is incomplete, and give up
for good on a length outside `[0, 65536]`. `onChunks_eq_reference` shows that `onMessage`,
called after each chunk of any fragmentation of the string, delivers exactly the messages of
that parse, leaves exactly its unparsed suffix, shuts the connection down exactly when it gives
up, and delivers nothing after that.
-/

namespace MuduoRebuild

namespace LengthHeaderCodec

open Framing (Parsed)

/-- The value of a byte string read as a big-endian unsigned integer. -/
def bigEndian (bytes : List UInt8) : ℕ := bytes.foldl (fun n b => 256 * n + b.toNat) 0

/-- The value of a 4-byte string read as a big-endian two's complement integer. -/
def signedBigEndian (bytes : List UInt8) : ℤ :=
  if bigEndian bytes < 2 ^ 31 then bigEndian bytes else bigEndian bytes - 2 ^ 32

/-- The reference parse: the messages, whether an invalid length was met, and the unparsed
suffix. -/
def refParse (s : List UInt8) : Parsed UInt8 (List UInt8) :=
  if s.length < 4 then ⟨[], false, s⟩
  else
    let len := signedBigEndian (s.take 4)
    let payload := s.drop 4
    if len < 0 ∨ 65536 < len then ⟨[], true, s⟩
    else if payload.length < len then ⟨[], false, s⟩
    else (refParse (payload.drop len.toNat)).after [payload.take len.toNat]
termination_by s.length
decreasing_by
  simp only [List.length_drop]
  omega

/-- The header as the machine loads it is the big-endian value. -/
theorem toSigned_loadBE (b₀ b₁ b₂ b₃ : UInt8) :
    ByteOrder.toSigned (ByteOrder.loadBE b₀ b₁ b₂ b₃) = signedBigEndian [b₀, b₁, b₂, b₃] := by
  have hval : ByteOrder.loadBE b₀ b₁ b₂ b₃ = bigEndian [b₀, b₁, b₂, b₃] := by
    simp only [ByteOrder.loadBE, bigEndian, List.foldl]
    omega
  rw [ByteOrder.toSigned, signedBigEndian, hval]

/-- A string of at least four bytes is a header and a tail. -/
theorem exists_header {s : List UInt8} (h : ¬s.length < 4) :
    ∃ b₀ b₁ b₂ b₃ tail, s = b₀ :: b₁ :: b₂ :: b₃ :: tail := by
  rcases s with _ | ⟨b₀, _ | ⟨b₁, _ | ⟨b₂, _ | ⟨b₃, tail⟩⟩⟩⟩
  · exact absurd (by decide) h
  · exact absurd (by simp) h
  · exact absurd (by simp) h
  · exact absurd (by simp) h
  · exact ⟨b₀, b₁, b₂, b₃, tail, rfl⟩

theorem cut_of_length_lt {s : List UInt8} (h : s.length < 4) : cut s = .wait := by
  rcases s with _ | ⟨b₀, _ | ⟨b₁, _ | ⟨b₂, _ | ⟨b₃, tail⟩⟩⟩⟩
  · rfl
  · rfl
  · rfl
  · rfl
  · simp only [List.length_cons] at h
    omega

/-- The loop of `onMessage` computes the reference parse. -/
theorem onMessage_eq_refParse (s : List UInt8) : onMessage s = refParse s := by
  induction s using refParse.induct with
  | case1 s hshort =>
    rw [refParse, if_pos hshort]
    exact Framing.Reader.parse_wait (cut_of_length_lt hshort)
  | case2 s hshort len hbad =>
    obtain ⟨b₀, b₁, b₂, b₃, tail, rfl⟩ := exists_header hshort
    rw [refParse, if_neg hshort, if_pos hbad]
    refine Framing.Reader.parse_stop ?_
    exact (cut_header b₀ b₁ b₂ b₃ tail (toSigned_loadBE ..)).trans (if_pos hbad.symm)
  | case3 s hshort len payload hbad hroom =>
    obtain ⟨b₀, b₁, b₂, b₃, tail, rfl⟩ := exists_header hshort
    have hpayload : payload = tail := rfl
    rw [refParse, if_neg hshort, if_neg hbad, if_pos hroom]
    refine Framing.Reader.parse_wait ?_
    refine (cut_header b₀ b₁ b₂ b₃ tail (toSigned_loadBE ..)).trans ?_
    change (if len > 65536 ∨ len < 0 then _ else if len.toNat ≤ _ then _ else _) = _
    rw [if_neg (fun h => hbad h.symm), if_neg]
    rw [hpayload] at hroom
    omega
  | case4 s hshort len payload hbad hroom ih =>
    obtain ⟨b₀, b₁, b₂, b₃, tail, rfl⟩ := exists_header hshort
    have hpayload : payload = tail := rfl
    rw [refParse, if_neg hshort, if_neg hbad, if_neg hroom, ← ih]
    refine Framing.Reader.parse_item ?_
    refine (cut_header b₀ b₁ b₂ b₃ tail (toSigned_loadBE ..)).trans ?_
    change (if len > 65536 ∨ len < 0 then _ else if len.toNat ≤ _ then _ else _) = _
    rw [if_neg (fun h => hbad h.symm), if_pos]
    · rfl
    · rw [hpayload] at hroom
      omega

/-- **The decoder against the reference parser.** For every byte string and every way of
cutting it into chunks, `onMessage`, called after each chunk, delivers the messages of the
reference parse, leaves its unparsed suffix in the buffer, and calls `shutdown` exactly when
the parse meets an invalid length; after that, no later chunk makes it deliver a message. -/
theorem onChunks_eq_reference (chunks : List (List UInt8)) :
    (onChunks chunks).items = (refParse chunks.flatten).items ∧
      (onChunks chunks).rest = (refParse chunks.flatten).rest ∧
      ((onChunks chunks).stopped = true ↔ (refParse chunks.flatten).stopped = true) ∧
      ((onChunks chunks).stopped = true →
        ∀ later, (onChunks (chunks ++ later)).items = (onChunks chunks).items) := by
  have hparse : ∀ cs, onChunks cs = reader.parse cs.flatten := Framing.Reader.feed_eq_parse
  have href : onChunks chunks = refParse chunks.flatten :=
    (hparse chunks).trans (onMessage_eq_refParse _)
  refine ⟨by rw [href], by rw [href], by rw [href], ?_⟩
  intro hstop later
  rw [hparse] at hstop
  -- the invalid header stays in the buffer, in front of the later chunks
  rw [hparse, hparse, List.flatten_append, Framing.Reader.parse_append_of_stopped hstop]

end LengthHeaderCodec

end MuduoRebuild
