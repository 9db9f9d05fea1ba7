import MuduoRebuild.Buffer.Basic

/-!
# What the operations of `Buffer` do to a well-formed buffer

`Buffer.WellFormed` is the layout `readIndex ≤ writeIndex ≤ buffer.size() ≤ max_size()`. On a
well-formed buffer no size wraps, and every operation but a growing `append` keeps the layout
and moves the content as its name says.

A growing `append` resizes the vector to `writableBytes() + len` cells, counted from the
*front* of the vector, and then writes `len` bytes from `writeIndex` on. That leaves room
exactly when `writeIndex ≤ writableBytes()`, the condition `Buffer.GrowthFits`: without it the
call ends in a failed assert or writes outside the vector (`append_fault`).
-/

namespace MuduoRebuild

namespace Buffer

open Fallible (ok_bind error_bind pure_eq_ok bind_eq_ok check_of check_of_not)

/-- The layout of the class comment. -/
structure WellFormed (b : Buffer) : Prop where
  read_le : b.readIndex ≤ b.writeIndex
  write_le : b.writeIndex ≤ b.buffer.length
  length_le : b.buffer.length ≤ maxSize

/-- The growth formula leaves room for `len` more bytes: if the vector has to grow (and can),
the unread and already passed bytes before `writeIndex` take no more than the writable
bytes after it. -/
def GrowthFits (b : Buffer) (len : ℕ) : Prop :=
  b.writableBytes < len → b.writableBytes + b.prependableBytes < len + kCheapPrepend →
    b.writableBytes + len ≤ maxSize → b.writeIndex ≤ b.writableBytes

instance (b : Buffer) (len : ℕ) : Decidable (b.GrowthFits len) := by
  unfold GrowthFits
  infer_instance

variable {b b' : Buffer} {len : ℕ} {data : List UInt8}

theorem maxSize_lt : 2 * maxSize + 1 < Word64.modulus := by
  unfold maxSize Word64.modulus
  omega

theorem WellFormed.lt_modulus (h : b.WellFormed) : b.buffer.length < Word64.modulus := by
  have := h.length_le
  have := maxSize_lt
  omega

theorem readableBytes_eq (h : b.WellFormed) : b.readableBytes = b.writeIndex - b.readIndex :=
  Word64.sub_of_le h.read_le (h.write_le.trans_lt h.lt_modulus)

theorem writableBytes_eq (h : b.WellFormed) :
    b.writableBytes = b.buffer.length - b.writeIndex :=
  Word64.sub_of_le h.write_le h.lt_modulus

theorem length_content (h : b.WellFormed) : b.content.length = b.readableBytes := by
  rw [content, Block.length_slice h.write_le, readableBytes_eq h]

@[simp]
theorem length_fresh : fresh.buffer.length = kCheapPrepend + kInitialSize :=
  List.length_replicate

theorem wellFormed_fresh : fresh.WellFormed where
  read_le := le_refl _
  write_le := by
    rw [length_fresh]
    exact Nat.le_add_right _ _
  length_le := by
    rw [length_fresh]
    unfold kCheapPrepend kInitialSize maxSize
    omega

/-- A fresh buffer may grow by any length: only its reserved head precedes `writeIndex`. -/
theorem growthFits_fresh (len : ℕ) : fresh.GrowthFits len := by
  intro _ _ _
  rw [writableBytes_eq wellFormed_fresh, length_fresh]
  decide

@[simp]
theorem content_fresh : fresh.content = [] := Block.slice_self _ _

/-! ### Retrieving -/

theorem retrieve_eq (h : b.WellFormed) (hlen : len ≤ b.readableBytes) :
    b.retrieve len = .ok { b with readIndex := b.readIndex + len } := by
  have hle : b.readIndex + len ≤ b.writeIndex := by
    have := h.read_le
    rw [readableBytes_eq h] at hlen
    omega
  have hlt : b.readIndex + len < Word64.modulus :=
    (hle.trans h.write_le).trans_lt h.lt_modulus
  rw [retrieve, assertThat, check_of hlen, ok_bind, Word64.add_of_lt hlt, pure_eq_ok]

/-- `retrieve` drops from the front of the content. -/
theorem retrieve_spec (h : b.WellFormed) (hlen : len ≤ b.readableBytes) :
    ∃ b', b.retrieve len = .ok b' ∧ b'.WellFormed ∧ b'.buffer.length = b.buffer.length ∧
      b'.content = b.content.drop len := by
  refine ⟨_, retrieve_eq h hlen, ⟨?_, h.write_le, h.length_le⟩, rfl, ?_⟩
  · have := h.read_le
    rw [readableBytes_eq h] at hlen
    dsimp only
    omega
  · exact Block.slice_add_left _ _ _ _

theorem retrieve_fault (hlen : b.readableBytes < len) :
    b.retrieve len = .error .assertFailed := by
  rw [retrieve, assertThat, check_of_not (by omega), error_bind]

theorem wellFormed_retrieveAll (h : b.WellFormed) (hsize : kCheapPrepend ≤ b.buffer.length) :
    b.retrieveAll.WellFormed :=
  ⟨le_refl _, hsize, h.length_le⟩

@[simp]
theorem content_retrieveAll (b : Buffer) : b.retrieveAll.content = [] := Block.slice_self _ _

/-- `retrieveAsString` returns the content. -/
theorem retrieveAsString_eq (h : b.WellFormed) :
    b.retrieveAsString = .ok (b.content, b.retrieveAll) := by
  have hadd : b.readIndex + b.readableBytes = b.writeIndex := by
    have := h.read_le
    rw [readableBytes_eq h]
    omega
  rw [retrieveAsString, copyOut, if_pos (by rw [hadd]; exact h.write_le), hadd, ok_bind]
  rfl

/-! ### Prepending -/

/-- `prepend` adds at the front of the content. -/
theorem prepend_spec (h : b.WellFormed) (hlen : data.length ≤ b.prependableBytes) :
    ∃ b', b.prepend data = .ok b' ∧ b'.WellFormed ∧ b'.buffer.length = b.buffer.length ∧
      b'.content = data ++ b.content := by
  have hread := h.read_le
  have hwrite := h.write_le
  have hlen' : data.length ≤ b.readIndex := hlen
  have hsub : Word64.sub b.readIndex data.length = b.readIndex - data.length :=
    Word64.sub_of_le hlen' ((hread.trans hwrite).trans_lt h.lt_modulus)
  have hend : b.readIndex - data.length + data.length = b.readIndex := by omega
  have hroom : b.readIndex - data.length + data.length ≤ b.buffer.length := by omega
  have hsize := Block.length_splice hroom
  refine ⟨{ b with buffer := Block.splice b.buffer (b.readIndex - data.length) data,
                   readIndex := b.readIndex - data.length }, ?_, ⟨?_, ?_, ?_⟩, hsize, ?_⟩
  · simp only [prepend, assertThat, check_of hlen, ok_bind, hsub, copyIn, if_pos hroom,
      pure_eq_ok]
  · dsimp only
    omega
  · rw [hsize]
    exact hwrite
  · rw [hsize]
    exact h.length_le
  · -- the new bytes end where the old content begins
    have hnew : Block.slice (Block.splice b.buffer (b.readIndex - data.length) data)
        (b.readIndex - data.length) b.readIndex = data := by
      have := Block.slice_splice (l := b.buffer) (d := data)
        (show b.readIndex - data.length ≤ b.buffer.length by omega)
      rwa [hend] at this
    have hold := Block.slice_splice_of_ge (l := b.buffer) (i := b.readIndex - data.length)
      (d := data) (j := b.writeIndex) hend.le hroom
    have hlow : b.readIndex - data.length ≤ b.readIndex := by omega
    rw [content, ← Block.slice_append_slice hlow hread, hnew, hold, content]

theorem prepend_fault (hlen : b.prependableBytes < data.length) :
    b.prepend data = .error .assertFailed := by
  rw [prepend, assertThat, check_of_not (by omega), error_bind]

/-! ### Making room -/

theorem mustGrow_iff (h : b.WellFormed) (hlen : len ≤ maxSize) :
    b.mustGrow len = true ↔ b.writableBytes + b.prependableBytes < len + kCheapPrepend := by
  have hread := h.read_le
  have hmax := h.length_le
  have := maxSize_lt
  have hsum : b.writableBytes + b.prependableBytes < Word64.modulus := by
    have := h.write_le
    rw [writableBytes_eq h, prependableBytes]
    omega
  have hlt : len + kCheapPrepend < Word64.modulus := by
    unfold kCheapPrepend maxSize Word64.modulus at *
    omega
  rw [mustGrow, Word64.add_of_lt hsum, Word64.add_of_lt hlt, decide_eq_true_iff]

/-- The content moved to `kCheapPrepend`, the vector otherwise as it was. -/
def compacted (b : Buffer) : Buffer where
  buffer := Block.splice b.buffer kCheapPrepend b.content
  readIndex := kCheapPrepend
  writeIndex := kCheapPrepend + b.readableBytes

/-- When the free space suffices, `makeSpace` moves the content to the front. -/
theorem makeSpace_compact (h : b.WellFormed) (hlen : len ≤ maxSize)
    (hfull : b.writableBytes < len)
    (hfree : len + kCheapPrepend ≤ b.writableBytes + b.prependableBytes) :
    b.makeSpace len = .ok b.compacted := by
  have hread := h.read_le
  have hwrite := h.write_le
  have hlow : kCheapPrepend < b.readIndex := by
    rw [prependableBytes] at hfree
    omega
  have hgrow : ¬b.mustGrow len = true := by
    rw [mustGrow_iff h hlen]
    omega
  have hsum : kCheapPrepend + b.readableBytes ≤ b.buffer.length := by
    rw [readableBytes_eq h]
    omega
  have hmod := h.lt_modulus
  have hadd : Word64.add kCheapPrepend b.readableBytes = kCheapPrepend + b.readableBytes :=
    Word64.add_of_lt (by omega)
  -- the ranges may overlap, but the copy goes downwards
  have hmove : Block.copyForward b.buffer b.readIndex kCheapPrepend (b.writeIndex - b.readIndex) =
      Block.splice b.buffer kCheapPrepend b.content := by
    have hend : b.readIndex + (b.writeIndex - b.readIndex) = b.writeIndex := by omega
    rw [Block.copyForward_eq_splice hlow.le (by omega), hend, content]
  have hkeep : b.readableBytes = b.compacted.readableBytes := by
    have hsub : b.compacted.readableBytes = kCheapPrepend + b.readableBytes - kCheapPrepend :=
      Word64.sub_of_le (Nat.le_add_right _ _) (lt_of_le_of_lt hsum hmod)
    rw [hsub]
    omega
  have hrange : b.readIndex ≤ b.writeIndex ∧ b.writeIndex ≤ b.buffer.length ∧
      kCheapPrepend + (b.writeIndex - b.readIndex) ≤ b.buffer.length :=
    ⟨hread, hwrite, by rwa [← readableBytes_eq h]⟩
  rw [makeSpace, if_neg hgrow]
  simp only [assertThat, check_of hlow, ok_bind, copyWithin, if_pos hrange, hmove, hadd]
  change (Fallible.check (b.readableBytes = b.compacted.readableBytes) _ >>=
    fun _ => .ok b.compacted) = _
  rw [check_of hkeep, ok_bind]

/-- The outcome of `makeSpace` when it grows the vector. -/
theorem makeSpace_grow (h : b.WellFormed) (hlen : len ≤ maxSize)
    (hfree : b.writableBytes + b.prependableBytes < len + kCheapPrepend)
    (hmax : b.writableBytes + len ≤ maxSize) :
    b.makeSpace len =
      .ok { b with buffer := Block.resize 0 b.buffer (b.writableBytes + len) } := by
  have hgrow : b.mustGrow len = true := (mustGrow_iff h hlen).mpr hfree
  have := maxSize_lt
  have hadd : Word64.add b.writableBytes len = b.writableBytes + len :=
    Word64.add_of_lt (by omega)
  rw [makeSpace, if_pos hgrow, hadd, resize, if_pos hmax, ok_bind, pure_eq_ok]

/-- `makeSpace` throws when the vector would exceed `max_size()`. -/
theorem makeSpace_lengthError (h : b.WellFormed) (hlen : len ≤ maxSize)
    (hfree : b.writableBytes + b.prependableBytes < len + kCheapPrepend)
    (hmax : maxSize < b.writableBytes + len) : b.makeSpace len = .error .lengthError := by
  have hgrow : b.mustGrow len = true := (mustGrow_iff h hlen).mpr hfree
  have hwritable : b.writableBytes ≤ maxSize := by
    have := h.length_le
    rw [writableBytes_eq h]
    omega
  have := maxSize_lt
  have hadd : Word64.add b.writableBytes len = b.writableBytes + len :=
    Word64.add_of_lt (by omega)
  rw [makeSpace, if_pos hgrow, hadd, resize, if_neg (by omega), error_bind]

/-! ### Appending -/

theorem ensureWritable_of_le (hle : len ≤ b.writableBytes) : b.ensureWritable len = .ok b := by
  rw [ensureWritable, if_neg (by omega), ok_bind, assertThat, check_of hle, ok_bind, pure_eq_ok]

theorem ensureWritable_of_makeSpace (hlt : b.writableBytes < len)
    (hspace : b.makeSpace len = .ok b') (hle : len ≤ b'.writableBytes) :
    b.ensureWritable len = .ok b' := by
  rw [ensureWritable, if_pos hlt, hspace, ok_bind, assertThat, check_of hle, ok_bind, pure_eq_ok]

/-- Once there is room, `append` writes behind the content. -/
theorem append_of_ensureWritable (hroom : b.ensureWritable data.length = .ok b')
    (h : b'.WellFormed) (hle : data.length ≤ b'.writableBytes) :
    ∃ b'', b.append data = .ok b'' ∧ b''.WellFormed ∧
      b''.buffer.length = b'.buffer.length ∧ b''.readIndex = b'.readIndex ∧
      b''.content = b'.content ++ data := by
  have hread := h.read_le
  have hwrite := h.write_le
  have hsum : b'.writeIndex + data.length ≤ b'.buffer.length := by
    rw [writableBytes_eq h] at hle
    omega
  have hadd : Word64.add b'.writeIndex data.length = b'.writeIndex + data.length :=
    Word64.add_of_lt (hsum.trans_lt h.lt_modulus)
  have hsize := Block.length_splice hsum
  refine ⟨{ b' with buffer := Block.splice b'.buffer b'.writeIndex data,
                    writeIndex := b'.writeIndex + data.length }, ?_, ⟨?_, ?_, ?_⟩,
    hsize, rfl, ?_⟩
  · rw [append, hroom, ok_bind, copyIn, if_pos hsum, ok_bind, pure_eq_ok, hasWritten, hadd]
  · dsimp only
    omega
  · rw [hsize]
    exact hsum
  · rw [hsize]
    exact h.length_le
  · have hup : b'.writeIndex ≤ b'.writeIndex + data.length := Nat.le_add_right _ _
    rw [content, ← Block.slice_append_slice hread hup, Block.slice_splice hwrite,
      Block.slice_splice_of_le (le_refl _) hwrite, content]

theorem length_compacted (h : b.WellFormed) (hlow : kCheapPrepend ≤ b.readIndex) :
    b.compacted.buffer.length = b.buffer.length := by
  have hread := h.read_le
  have hwrite := h.write_le
  refine Block.length_splice ?_
  rw [length_content h, readableBytes_eq h]
  omega

theorem wellFormed_compacted (h : b.WellFormed) (hlow : kCheapPrepend ≤ b.readIndex) :
    b.compacted.WellFormed := by
  have hread := h.read_le
  have hwrite := h.write_le
  refine ⟨Nat.le_add_right _ _, ?_, ?_⟩
  · rw [length_compacted h hlow, compacted, readableBytes_eq h]
    dsimp only
    omega
  · rw [length_compacted h hlow]
    exact h.length_le

theorem content_compacted (h : b.WellFormed) (hlow : kCheapPrepend ≤ b.readIndex) :
    b.compacted.content = b.content := by
  have hread := h.read_le
  have hwrite := h.write_le
  rw [content, compacted, ← length_content h]
  exact Block.slice_splice (by omega)

/-- When its growth leaves room, `ensureWritable` makes room and keeps the content, unless the
vector would exceed `max_size()`. -/
theorem ensureWritable_spec (h : b.WellFormed) (hlen : len ≤ maxSize)
    (hfits : b.GrowthFits len) :
    (∃ b', b.ensureWritable len = .ok b' ∧ b'.WellFormed ∧ len ≤ b'.writableBytes ∧
      b.buffer.length ≤ b'.buffer.length ∧ min kCheapPrepend b.readIndex ≤ b'.readIndex ∧
      b'.content = b.content) ∨
    b.ensureWritable len = .error .lengthError ∧ maxSize < b.writableBytes + len := by
  have hread := h.read_le
  have hwrite := h.write_le
  have hwritable := writableBytes_eq h
  rcases Nat.lt_or_ge b.writableBytes len with hfull | hle
  swap
  · exact .inl ⟨b, ensureWritable_of_le hle, h, hle, le_refl _, min_le_right _ _, rfl⟩
  rcases Nat.lt_or_ge (b.writableBytes + b.prependableBytes) (len + kCheapPrepend)
    with hgrow | hfree
  · rcases Nat.lt_or_ge maxSize (b.writableBytes + len) with hmax | hmax
    · refine .inr ⟨?_, hmax⟩
      rw [ensureWritable, if_pos hfull, makeSpace_lengthError h hlen hgrow hmax, error_bind]
    · -- the vector grows to `writableBytes() + len ≥ writeIndex + len` cells
      have hidx := hfits hfull hgrow hmax
      set b₁ : Buffer := { b with buffer := Block.resize 0 b.buffer (b.writableBytes + len) }
        with hb₁
      have hsize : b₁.buffer.length = b.writableBytes + len := Block.length_resize _ _ _
      have hidx₁ : b₁.writeIndex = b.writeIndex := rfl
      have h₁ : b₁.WellFormed := ⟨hread, by omega, by omega⟩
      have hroom : len ≤ b₁.writableBytes := by
        rw [writableBytes_eq h₁]
        omega
      refine .inl ⟨b₁, ensureWritable_of_makeSpace hfull (makeSpace_grow h hlen hgrow hmax) hroom,
        h₁, hroom, by omega, min_le_right _ _, ?_⟩
      exact Block.slice_resize (by omega) hwrite
  · -- the content moves down, which frees `prependableBytes() - kCheapPrepend` bytes
    have hlow : kCheapPrepend ≤ b.readIndex := by
      rw [prependableBytes] at hfree
      omega
    have h₁ := wellFormed_compacted h hlow
    have hroom : len ≤ b.compacted.writableBytes := by
      rw [writableBytes_eq h₁, length_compacted h hlow, compacted, readableBytes_eq h]
      rw [prependableBytes] at hfree
      dsimp only
      omega
    exact .inl ⟨b.compacted,
      ensureWritable_of_makeSpace hfull (makeSpace_compact h hlen hfull hfree) hroom, h₁, hroom,
      (length_compacted h hlow).ge, min_le_left _ _, content_compacted h hlow⟩

/-- **`append` adds at the back of the content** whenever its growth leaves room, or stops
with `std::length_error`. -/
theorem append_spec (h : b.WellFormed) (hlen : data.length ≤ maxSize)
    (hfits : b.GrowthFits data.length) :
    (∃ b', b.append data = .ok b' ∧ b'.WellFormed ∧ b.buffer.length ≤ b'.buffer.length ∧
      min kCheapPrepend b.readIndex ≤ b'.readIndex ∧ b'.content = b.content ++ data) ∨
    b.append data = .error .lengthError ∧ maxSize < b.writableBytes + data.length := by
  rcases ensureWritable_spec h hlen hfits with
    ⟨b₁, hens, h₁, hroom, hsize, hlow, hcont⟩ | ⟨herr, hmax⟩
  · obtain ⟨b', happ, h', hsize', hread', hcont'⟩ := append_of_ensureWritable hens h₁ hroom
    exact .inl ⟨b', happ, h', hsize.trans hsize'.ge, hlow.trans hread'.ge, by rw [hcont', hcont]⟩
  · refine .inr ⟨?_, hmax⟩
    rw [append, herr, error_bind]

/-- `append` throws when the vector would exceed `max_size()`. -/
theorem append_lengthError (h : b.WellFormed) (hlen : data.length ≤ maxSize)
    (hfull : b.writableBytes < data.length)
    (hfree : b.writableBytes + b.prependableBytes < data.length + kCheapPrepend)
    (hmax : maxSize < b.writableBytes + data.length) : b.append data = .error .lengthError := by
  rw [append, ensureWritable, if_pos hfull, makeSpace_lengthError h hlen hfree hmax, error_bind,
    error_bind]

theorem length_le_of_makeSpace (h : b.buffer.length ≤ maxSize)
    (hspace : b.makeSpace len = .ok b') : b'.buffer.length ≤ maxSize := by
  rw [makeSpace] at hspace
  split_ifs at hspace with hgrow
  · obtain ⟨buffer, hsize, heq⟩ := bind_eq_ok.mp hspace
    cases heq
    rw [resize] at hsize
    split_ifs at hsize with hmax
    cases hsize
    exact (Block.length_resize _ _ _).trans_le hmax
  · simp only [bind_eq_ok] at hspace
    obtain ⟨-, -, buffer, hcopy, -, -, heq⟩ := hspace
    cases heq
    rw [copyWithin] at hcopy
    split_ifs at hcopy with hrange
    cases hcopy
    exact (Block.length_copyForward _ _ _ _).trans_le h

/-- A successful `append` has written its bytes inside a vector of at most `max_size()`
cells. -/
theorem length_le_of_append (h : b.buffer.length ≤ maxSize) (happ : b.append data = .ok b') :
    data.length ≤ maxSize := by
  obtain ⟨b₁, hens, hrest⟩ := bind_eq_ok.mp happ
  obtain ⟨buffer, hcopy, -⟩ := bind_eq_ok.mp hrest
  have h₁ : b₁.buffer.length ≤ maxSize := by
    obtain ⟨b₂, hspace, hret⟩ := bind_eq_ok.mp hens
    obtain ⟨-, -, heq⟩ := bind_eq_ok.mp hret
    cases heq
    split_ifs at hspace with hfull
    · exact length_le_of_makeSpace h hspace
    · cases hspace
      exact h
  rw [copyIn] at hcopy
  split_ifs at hcopy with hroom
  omega

/-- `makeSpace` makes the vector no larger than its formula says. -/
theorem length_makeSpace_le (hspace : b.makeSpace len = .ok b') :
    b'.buffer.length ≤ max b.buffer.length (b.writableBytes + len) := by
  rw [makeSpace] at hspace
  split_ifs at hspace with hgrow
  · obtain ⟨buffer, hsize, heq⟩ := bind_eq_ok.mp hspace
    cases heq
    rw [resize] at hsize
    split_ifs at hsize with hmax
    cases hsize
    refine le_max_of_le_right ?_
    rw [Block.length_resize]
    exact Nat.mod_le _ _
  · simp only [bind_eq_ok] at hspace
    obtain ⟨-, -, buffer, hcopy, -, -, heq⟩ := hspace
    cases heq
    rw [copyWithin] at hcopy
    split_ifs at hcopy with hrange
    cases hcopy
    exact le_max_of_le_left (Block.length_copyForward _ _ _ _).le

/-- The vector that an `append` has grown is shorter than twice what has been appended. -/
theorem length_append_le (happ : b.append data = .ok b') :
    b'.buffer.length ≤ max b.buffer.length (2 * data.length - 1) := by
  obtain ⟨b₁, hens, hrest⟩ := bind_eq_ok.mp happ
  obtain ⟨buffer, hcopy, heq⟩ := bind_eq_ok.mp hrest
  cases heq
  rw [copyIn] at hcopy
  split_ifs at hcopy with hroom
  cases hcopy
  obtain ⟨b₂, hspace, hret⟩ := bind_eq_ok.mp hens
  obtain ⟨-, -, heq⟩ := bind_eq_ok.mp hret
  cases heq
  have hsplice : (Block.splice b₁.buffer b₁.writeIndex data).length = b₁.buffer.length :=
    Block.length_splice hroom
  change (Block.splice b₁.buffer b₁.writeIndex data).length ≤ _
  rw [hsplice]
  split_ifs at hspace with hfull
  · have hsize := length_makeSpace_le hspace
    omega
  · cases hspace
    exact le_max_left _ _

/-- **A growing `append` that does not leave room never returns**: the vector is resized to
`writableBytes() + len < writeIndex + len` cells, and then either the assert behind
`makeSpace` fails or, once the difference wraps, the bytes are written past its end. -/
theorem append_fault (h : b.WellFormed) (hlen : data.length ≤ maxSize)
    (hfits : ¬b.GrowthFits data.length) :
    b.append data = .error .assertFailed ∨ b.append data = .error .outOfBounds := by
  simp only [GrowthFits, Classical.not_imp, Nat.not_le] at hfits
  obtain ⟨hfull, hgrow, hmax, hidx⟩ := hfits
  rw [append, ensureWritable, if_pos hfull, makeSpace_grow h hlen hgrow hmax, ok_bind]
  set b₁ : Buffer :=
    { b with buffer := Block.resize 0 b.buffer (b.writableBytes + data.length) } with hb₁
  by_cases hassert : data.length ≤ b₁.writableBytes
  · -- `writableBytes()` has wrapped around, and the copy runs past the end
    right
    have hsize : b₁.buffer.length = b.writableBytes + data.length := Block.length_resize _ _ _
    rw [assertThat, check_of hassert, ok_bind, pure_eq_ok, ok_bind, copyIn, if_neg, error_bind]
    rw [hsize]
    show ¬b.writeIndex + _ ≤ _
    omega
  · left
    rw [assertThat, check_of_not hassert, error_bind, error_bind]

/-- An `append` that returns has found room. -/
theorem growthFits_of_append (h : b.WellFormed) (happ : b.append data = .ok b') :
    b.GrowthFits data.length := by
  by_contra hgrowth
  rcases append_fault h (length_le_of_append h.length_le happ) hgrowth with herror | herror <;>
    cases happ.symm.trans herror

end Buffer

end MuduoRebuild
