import MuduoRebuild.Buffer.Operations

/-!
# `Buffer::readFd`: the scatter read

`readFd` reads from a socket into the writable bytes of the buffer and, with the same `::readv`,
into 64 KiB on the stack. What has gone to the stack is appended afterwards, when the vector is
full.

On a full vector an `append` that grows makes room for its bytes only if the vector is empty. So
`readFd` does what it is for when the bytes fit, when they spill and the content can be moved
down to make room for them, and when the vector has no cells at all; otherwise it does not return
(`readFd_faithful_iff`).
-/

namespace MuduoRebuild

namespace Buffer

open Fallible (ok_bind error_bind pure_eq_ok)

/-- `sizeof(extrabuf)`. -/
def extrabufSize : ℕ := 65536

/-- What `::readv` does: it fails with a value of `errno`, or receives these bytes. -/
inductive Readv where
  | failed (errno : ℤ)
  | received (data : List UInt8)
  deriving DecidableEq, Repr

/-- `::readv` receives no more than there is room for. -/
def Readv.Fits (b : Buffer) : Readv → Prop
  | .failed _ => True
  | .received data => data.length ≤ b.writableBytes + extrabufSize

instance (b : Buffer) (outcome : Readv) : Decidable (outcome.Fits b) :=
  match outcome with
  | .failed _ => inferInstanceAs (Decidable True)
  | .received data =>
    inferInstanceAs (Decidable (data.length ≤ b.writableBytes + extrabufSize))

/-- `readFd`: the buffer, the returned `n` and `*savedErrno` afterwards. The bytes that `::readv`
receives go to the writable area first, and then to `extrabuf`. -/
def readFd (b : Buffer) (savedErrno : ℤ) : Readv → Except Fault (Buffer × ℤ × ℤ)
  | .failed errno => .ok (b, -1, errno)
  | .received data => do
    let writable := b.writableBytes
    let buffer ← copyIn b.buffer b.writeIndex (data.take writable)
    let extrabuf := data.drop writable
    let n := data.length
    let b' ← (if n ≤ writable then .ok ({ b with buffer }.hasWritten n)
      else { b with buffer, writeIndex := buffer.length }.append extrabuf)
    return (b', n, savedErrno)

/-- What `readFd` is to do. -/
def Reads (b : Buffer) (savedErrno : ℤ) : Readv → Except Fault (Buffer × ℤ × ℤ) → Prop
  | .failed errno, r => ∃ b', r = .ok (b', -1, errno) ∧ b'.content = b.content ∧
      b'.readIndex = b.readIndex ∧ b'.writeIndex = b.writeIndex
  | .received data, r => ∃ b', r = .ok (b', data.length, savedErrno) ∧
      b'.content = b.content ++ data ∧
      b'.readIndex ≤ b'.writeIndex ∧ b'.writeIndex ≤ b'.buffer.length

/-- The bytes fit, or the bytes that spill can be made room for by moving the content down, or the
vector has no cells. -/
def TakesIn (b : Buffer) : Readv → Prop
  | .failed _ => True
  | .received data => data.length ≤ b.writableBytes ∨
      data.length - b.writableBytes + kCheapPrepend ≤ b.readIndex ∨ b.buffer.length = 0

instance (b : Buffer) (outcome : Readv) : Decidable (b.TakesIn outcome) :=
  match outcome with
  | .failed _ => inferInstanceAs (Decidable True)
  | .received data => inferInstanceAs (Decidable (data.length ≤ b.writableBytes ∨
      data.length - b.writableBytes + kCheapPrepend ≤ b.readIndex ∨ b.buffer.length = 0))

variable {b : Buffer} {data : List UInt8} {savedErrno : ℤ}

/-! ### The vector after `::readv` -/

/-- The vector is full after `::readv` has spilled. -/
def filled (b : Buffer) (data : List UInt8) : Buffer where
  buffer := Block.splice b.buffer b.writeIndex (data.take b.writableBytes)
  readIndex := b.readIndex
  writeIndex := b.buffer.length

theorem length_take_le (h : b.WellFormed) (data : List UInt8) :
    b.writeIndex + (data.take b.writableBytes).length ≤ b.buffer.length := by
  have hwrite := h.write_le
  have hle := List.length_take_le b.writableBytes data
  rw [writableBytes_eq h] at hle ⊢
  omega

theorem wellFormed_filled (h : b.WellFormed) (data : List UInt8) : (b.filled data).WellFormed := by
  have hsize : (b.filled data).buffer.length = b.buffer.length :=
    Block.length_splice (length_take_le h data)
  exact ⟨h.read_le.trans h.write_le, hsize.ge, hsize.trans_le h.length_le⟩

theorem content_filled (h : b.WellFormed) (hspill : b.writableBytes < data.length) :
    (b.filled data).content = b.content ++ data.take b.writableBytes := by
  have hend : b.writeIndex + (data.take b.writableBytes).length = b.buffer.length := by
    have hwrite := h.write_le
    rw [List.length_take, Nat.min_eq_left hspill.le, writableBytes_eq h]
    omega
  rw [content, filled, ← Block.slice_append_slice h.read_le h.write_le,
    Block.slice_splice_of_le le_rfl h.write_le]
  rw [← hend, Block.slice_splice h.write_le]
  rfl

theorem writableBytes_filled (h : b.WellFormed) (data : List UInt8) :
    (b.filled data).writableBytes = 0 := by
  rw [writableBytes_eq (wellFormed_filled h data), filled,
    Block.length_splice (length_take_le h data), Nat.sub_self]

/-- On a full vector the growth of `append` fits only if there are no cells. -/
theorem growthFits_filled_iff (h : b.WellFormed) {len : ℕ} (hpos : 0 < len)
    (hmax : len ≤ maxSize) : (b.filled data).GrowthFits len ↔
      len + kCheapPrepend ≤ b.readIndex ∨ b.buffer.length = 0 := by
  have hprepend : (b.filled data).prependableBytes = b.readIndex := rfl
  have hwrite : (b.filled data).writeIndex = b.buffer.length := rfl
  rw [GrowthFits, writableBytes_filled h, hprepend, hwrite]
  omega

/-! ### `readFd` -/

theorem readFd_of_le (h : b.WellFormed) (hle : data.length ≤ b.writableBytes) :
    b.readFd savedErrno (.received data) = .ok ({ b with
      buffer := Block.splice b.buffer b.writeIndex data
      writeIndex := b.writeIndex + data.length }, (data.length : ℤ), savedErrno) := by
  have hroom := length_take_le h data
  rw [List.take_of_length_le hle] at hroom
  have hadd : Word64.add b.writeIndex data.length = b.writeIndex + data.length :=
    Word64.add_of_lt (hroom.trans_lt h.lt_modulus)
  simp only [readFd, copyIn, List.take_of_length_le hle, if_pos hroom, ok_bind, if_pos hle,
    hasWritten, hadd, pure_eq_ok]

theorem readFd_of_lt (h : b.WellFormed) (hspill : b.writableBytes < data.length) :
    b.readFd savedErrno (.received data) = (do
      let b' ← (b.filled data).append (data.drop b.writableBytes)
      return (b', (data.length : ℤ), savedErrno)) := by
  have hsize := Block.length_splice (length_take_le h data)
  simp only [readFd, copyIn, if_pos (length_take_le h data), ok_bind,
    if_neg (Nat.not_le_of_lt hspill), hsize]
  rfl

/-- The bytes fit. -/
theorem reads_of_le (h : b.WellFormed) (hle : data.length ≤ b.writableBytes) :
    b.Reads savedErrno (.received data) (b.readFd savedErrno (.received data)) := by
  have hroom : b.writeIndex + data.length ≤ b.buffer.length := by
    have hwrite := h.write_le
    rw [writableBytes_eq h] at hle
    omega
  refine ⟨_, readFd_of_le h hle, ?_, h.read_le.trans (Nat.le_add_right _ _), ?_⟩
  · rw [content, ← Block.slice_append_slice h.read_le (Nat.le_add_right _ _),
      Block.slice_splice_of_le le_rfl h.write_le, Block.slice_splice h.write_le]
    rfl
  · rw [Block.length_splice hroom]
    exact hroom

/-- The bytes spill: all depends on the `append` that follows. -/
theorem reads_iff_of_lt (h : b.WellFormed) (hspill : b.writableBytes < data.length)
    (hfits : data.length ≤ b.writableBytes + extrabufSize) :
    b.Reads savedErrno (.received data) (b.readFd savedErrno (.received data)) ↔
      (b.filled data).GrowthFits (data.drop b.writableBytes).length := by
  have hfilled := wellFormed_filled h data
  have hsmall : (data.drop b.writableBytes).length ≤ extrabufSize := by
    rw [List.length_drop]
    omega
  have hmax : (data.drop b.writableBytes).length ≤ maxSize :=
    hsmall.trans (by unfold extrabufSize maxSize; omega)
  rw [readFd_of_lt h hspill]
  constructor
  · rintro ⟨b', hok, -⟩
    obtain ⟨b'', happend, -⟩ := Fallible.bind_eq_ok.mp hok
    by_contra hgrowth
    rcases append_fault hfilled hmax hgrowth with herror | herror
    · cases herror.symm.trans happend
    · cases herror.symm.trans happend
  · intro hgrowth
    rcases append_spec hfilled hmax hgrowth with ⟨b', happend, hb', -, -, hcontent⟩ | ⟨-, hlong⟩
    · refine ⟨b', by rw [happend, ok_bind, pure_eq_ok], ?_, hb'.read_le, hb'.write_le⟩
      rw [hcontent, content_filled h hspill, List.append_assoc, List.take_append_drop]
    · -- at most `extrabufSize` bytes are appended, far below `max_size()`
      rw [writableBytes_filled h, Nat.zero_add] at hlong
      exact absurd hmax (Nat.not_le_of_lt hlong)

/-- **The scatter read.** For every state of the buffer with its layout and every outcome of
`::readv`, `readFd` adds the received bytes to the content, or keeps everything and reports the
error, exactly when the bytes fit, or those that spill can be made room for by moving the content
down, or the vector has no cells. -/
theorem readFd_faithful_iff (h : b.WellFormed) {outcome : Readv} (hfits : outcome.Fits b) :
    b.Reads savedErrno outcome (b.readFd savedErrno outcome) ↔ b.TakesIn outcome := by
  cases outcome with
  | failed errno => exact iff_of_true ⟨b, rfl, rfl, rfl, rfl⟩ trivial
  | received data =>
    rcases Nat.lt_or_ge b.writableBytes data.length with hspill | hle
    · have hpos : 0 < (data.drop b.writableBytes).length := by
        rw [List.length_drop]
        omega
      have hmax : (data.drop b.writableBytes).length ≤ maxSize := by
        have hle : data.length ≤ b.writableBytes + extrabufSize := hfits
        rw [List.length_drop]
        unfold extrabufSize at hle
        unfold maxSize
        omega
      rw [reads_iff_of_lt h hspill hfits, growthFits_filled_iff h hpos hmax, List.length_drop,
        TakesIn, or_iff_right (Nat.not_le_of_lt hspill)]
    · exact iff_of_true (reads_of_le h hle) (.inl hle)

/-- Thirteen bytes, of which eleven spill, into a vector of 32 cells whose first 20 have been
read. -/
theorem readFd_faithful_iff_spilled :
    Reads ⟨List.replicate 32 0, 20, 30⟩ 0 (.received (List.replicate 13 1))
        (readFd ⟨List.replicate 32 0, 20, 30⟩ 0 (.received (List.replicate 13 1))) ↔
      TakesIn ⟨List.replicate 32 0, 20, 30⟩ (.received (List.replicate 13 1)) :=
  readFd_faithful_iff ⟨by decide, by decide, by decide⟩ (by decide)

/-- One byte more than a fresh buffer has room for: the vector is cut down to one cell, and the byte
is written far behind its end. -/
theorem readFd_overruns : (Readv.received (List.replicate 1025 1)).Fits fresh ∧
    fresh.readFd 0 (.received (List.replicate 1025 1)) = .error .outOfBounds ∧
    ¬fresh.Reads 0 (.received (List.replicate 1025 1))
      (fresh.readFd 0 (.received (List.replicate 1025 1))) := by
  have herror : fresh.readFd 0 (.received (List.replicate 1025 1)) = .error .outOfBounds := by
    decide +kernel
  refine ⟨by decide +kernel, herror, ?_⟩
  rw [herror]
  rintro ⟨b', hok, -⟩
  cases hok

end Buffer

end MuduoRebuild
