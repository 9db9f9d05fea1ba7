import MuduoRebuild.Buffer.Basic
import MuduoRebuild.Foundations.ByteOrder
import MuduoRebuild.Foundations.Framing

/-!
# `LengthHeaderCodec`: length-prefixed messages

A message travels as a frame: its length as a 4-byte big-endian signed integer, then its
bytes. `LengthHeaderCodec::send` builds a frame in a `Buffer`; `LengthHeaderCodec::onMessage`
cuts frames off the input buffer in a loop.

The input buffer is an ideal byte queue here, so `onMessage` works on a list of bytes. One
pass of its loop is `LengthHeaderCodec.cut`; it is an incremental reader in the sense of
`Framing`, and the loop is that reader's parse. The machine is little endian.
-/

namespace MuduoRebuild

namespace LengthHeaderCodec

open ByteOrder (loadLE storeLE byteSwap toSigned)

def kHeaderLen : ℕ := 4

/-- `ntohl`, and `htonl`. -/
def ntohl (n : ℕ) : ℕ := byteSwap n

/-- One pass of the loop in `onMessage`: the loop condition and its three branches. The bytes
`b₀, …, b₃` are the first `kHeaderLen` bytes of the buffer. -/
def cut : List UInt8 → Framing.Cut UInt8 (List UInt8)
  | b₀ :: b₁ :: b₂ :: b₃ :: tail =>
    let be32 := loadLE b₀ b₁ b₂ b₃
    let len := toSigned (ntohl be32)
    if len > 65536 ∨ len < 0 then
      -- `conn->shutdown(); break;`, with the header still in the buffer
      .stop
    else if len.toNat + kHeaderLen ≤ (b₀ :: b₁ :: b₂ :: b₃ :: tail).length then
      .item (tail.take len.toNat) (tail.drop len.toNat)
    else .wait
  | _ => .wait

/-- The length in a header, as `onMessage` reads it. -/
theorem cut_header (b₀ b₁ b₂ b₃ : UInt8) (tail : List UInt8) {len : ℤ}
    (hlen : toSigned (ByteOrder.loadBE b₀ b₁ b₂ b₃) = len) :
    cut (b₀ :: b₁ :: b₂ :: b₃ :: tail) =
      if len > 65536 ∨ len < 0 then .stop
      else if len.toNat ≤ tail.length then .item (tail.take len.toNat) (tail.drop len.toNat)
      else .wait := by
  have hroom : len.toNat + kHeaderLen ≤ (b₀ :: b₁ :: b₂ :: b₃ :: tail).length ↔
      len.toNat ≤ tail.length := by
    simp only [List.length_cons, kHeaderLen]
    omega
  simp only [cut, ntohl, ByteOrder.byteSwap_loadLE, hlen, hroom]

/-- What a pass that delivers a message found in the buffer. -/
theorem cut_eq_item {s rest message : List UInt8} (h : cut s = .item message rest) :
    ∃ b₀ b₁ b₂ b₃, s = b₀ :: b₁ :: b₂ :: b₃ :: (message ++ rest) ∧
      toSigned (ByteOrder.loadBE b₀ b₁ b₂ b₃) = message.length ∧ message.length ≤ 65536 := by
  match s, h with
  | b₀ :: b₁ :: b₂ :: b₃ :: tail, h =>
    rw [cut_header b₀ b₁ b₂ b₃ tail rfl] at h
    set len := toSigned (ByteOrder.loadBE b₀ b₁ b₂ b₃) with hlen
    -- only the second branch delivers
    split_ifs at h with hbad hroom
    simp only [Framing.Cut.item.injEq] at h
    obtain ⟨rfl, rfl⟩ := h
    have hsize : (tail.take len.toNat).length = len.toNat := by
      rw [List.length_take]
      omega
    refine ⟨b₀, b₁, b₂, b₃, by rw [List.take_append_drop], ?_, ?_⟩
    · rw [hsize, ← hlen]
      omega
    · rw [hsize]
      omega

/-- What a pass that gives up found in the buffer. -/
theorem cut_eq_stop {s : List UInt8} (h : cut s = .stop) :
    ∃ b₀ b₁ b₂ b₃ tail, s = b₀ :: b₁ :: b₂ :: b₃ :: tail ∧
      (toSigned (ByteOrder.loadBE b₀ b₁ b₂ b₃) > 65536 ∨
        toSigned (ByteOrder.loadBE b₀ b₁ b₂ b₃) < 0) := by
  match s, h with
  | b₀ :: b₁ :: b₂ :: b₃ :: tail, h =>
    rw [cut_header b₀ b₁ b₂ b₃ tail rfl] at h
    split_ifs at h with hbad
    exact ⟨b₀, b₁, b₂, b₃, tail, rfl, hbad⟩

/-- The decoder as an incremental reader: a header and a payload stay what they are when more
bytes arrive. -/
def reader : Framing.Reader UInt8 (List UInt8) where
  cut := cut
  cut_nil := rfl
  shrinks := by
    intro s message rest h
    obtain ⟨b₀, b₁, b₂, b₃, rfl, -, -⟩ := cut_eq_item h
    simp only [List.length_cons, List.length_append]
    omega
  item_append := by
    intro s message rest h t
    obtain ⟨b₀, b₁, b₂, b₃, rfl, hlen, hmax⟩ := cut_eq_item h
    simp only [List.cons_append, List.append_assoc]
    rw [cut_header b₀ b₁ b₂ b₃ _ hlen, if_neg (by omega), Int.toNat_natCast,
      if_pos (by simp), List.take_left, List.drop_left]
  stop_append := by
    intro s h t
    obtain ⟨b₀, b₁, b₂, b₃, tail, rfl, hbad⟩ := cut_eq_stop h
    simp only [List.cons_append]
    rw [cut_header b₀ b₁ b₂ b₃ _ rfl, if_pos hbad]

/-- `onMessage` on the bytes of the input buffer: the messages handed to the callback, whether
`conn->shutdown()` was called, and the bytes left in the buffer. -/
def onMessage (buffer : List UInt8) : Framing.Parsed UInt8 (List UInt8) :=
  reader.parse buffer

/-- Chunks are appended to the input buffer, and `onMessage` is called after each. -/
def onChunks (chunks : List (List UInt8)) : Framing.Parsed UInt8 (List UInt8) :=
  reader.feed chunks

/-- `send`: the bytes handed to `conn->send(&buffer)`. The length is narrowed to `int32_t`. -/
def send (message : List UInt8) : Except Fault (List UInt8) := do
  let buffer ← Buffer.fresh.append message
  let len := message.length % 2 ^ 32
  let be32 := ntohl len
  let buffer ← buffer.prepend (storeLE be32)
  let (bytes, _) ← buffer.retrieveAsString
  return bytes

end LengthHeaderCodec

end MuduoRebuild
