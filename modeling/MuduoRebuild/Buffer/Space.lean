import MuduoRebuild.Buffer.Refinement

/-!
# `Buffer`: the free space

Three operations are meant to keep or to win back free space. Compaction, in `makeSpace`, moves the
content to the front of the vector, and then there is room (`compaction_safe`). `shrink` copies the
content into a new vector, but not the indices: they describe the old layout
(`shrink_preserves_iff`). The layout comment says that an empty buffer has both indices at
`kCheapPrepend`, so that all the space is free; `retrieve` does not put them there (`reset_iff`).
-/

namespace MuduoRebuild

namespace Buffer

open Fallible

variable {b b' : Buffer} {len reserve : ℕ} {data : List UInt8}

/-! ### Compaction -/

/-- **Compaction is safe.** When there is not room for `len` bytes behind the content, but room for
them and the reserved head around it, the assertion of `makeSpace` holds, the content is moved to
`kCheapPrepend`, and `len` bytes can be appended inside the same vector. -/
theorem compaction_safe (h : b.WellFormed) (hfull : b.writableBytes < len)
    (hfree : len + kCheapPrepend ≤ b.writableBytes + b.prependableBytes) :
    kCheapPrepend < b.readIndex ∧ ∃ b', b.makeSpace len = .ok b' ∧
      b'.readIndex = kCheapPrepend ∧ b'.readIndex ≤ b'.writeIndex ∧ b'.content = b.content ∧
      b'.buffer.length = b.buffer.length ∧ b'.writeIndex + len ≤ b'.buffer.length ∧
      b.ensureWritable len = .ok b' ∧
      ∀ data : List UInt8, data.length = len → ∃ b'', b.append data = .ok b'' ∧
        b''.buffer.length = b.buffer.length ∧ b''.content = b.content ++ data := by
  have hread := h.read_le
  have hwrite := h.write_le
  have hmax := h.length_le
  have hwritable := writableBytes_eq h
  have hreadable := readableBytes_eq h
  rw [prependableBytes] at hfree
  have hlow : kCheapPrepend < b.readIndex := by omega
  have hlen : len ≤ maxSize := by omega
  have hspace := makeSpace_compact h hlen hfull hfree
  have hsize := length_compacted h hlow.le
  have hcompacted := wellFormed_compacted h hlow.le
  have hend : b.compacted.writeIndex = kCheapPrepend + b.readableBytes := rfl
  have hfits : b.compacted.writeIndex + len ≤ b.compacted.buffer.length := by
    rw [hend, hsize]
    omega
  have hroom : len ≤ b.compacted.writableBytes := by
    rw [writableBytes_eq hcompacted]
    omega
  have hens := ensureWritable_of_makeSpace hfull hspace hroom
  refine ⟨hlow, b.compacted, hspace, rfl, hcompacted.read_le, content_compacted h hlow.le, hsize,
    hfits, hens, fun data hdata => ?_⟩
  subst hdata
  obtain ⟨b'', happend, -, hlength, -, hcontent⟩ := append_of_ensureWritable hens hcompacted hroom
  exact ⟨b'', happend, hlength.trans hsize, by rw [hcontent, content_compacted h hlow.le]⟩

/-- A vector of 21 bytes whose content lies at `[10, 17)`. -/
def nearlyFull : Buffer where
  buffer := List.replicate 10 0 ++ [1, 2, 3, 4, 5, 6, 7] ++ List.replicate 4 0
  readIndex := 10
  writeIndex := 17

/-- Five bytes are to come. The content goes to `[8, 15)`, which overlaps with where it was. -/
theorem compaction_safe_overlapping :
    nearlyFull.content = [1, 2, 3, 4, 5, 6, 7] ∧ kCheapPrepend < nearlyFull.readIndex ∧
    ∃ b', nearlyFull.makeSpace 5 = .ok b' ∧
      b'.readIndex = kCheapPrepend ∧ b'.readIndex ≤ b'.writeIndex ∧
      b'.content = nearlyFull.content ∧ b'.buffer.length = nearlyFull.buffer.length ∧
      b'.writeIndex + 5 ≤ b'.buffer.length ∧ nearlyFull.ensureWritable 5 = .ok b' ∧
      ∀ data : List UInt8, data.length = 5 → ∃ b'', nearlyFull.append data = .ok b'' ∧
        b''.buffer.length = nearlyFull.buffer.length ∧
        b''.content = nearlyFull.content ++ data :=
  ⟨by decide, compaction_safe ⟨by decide, by decide, by decide⟩ (by decide) (by decide)⟩

/-! ### `shrink` -/

/-- `shrink`: the vector is replaced, and the indices stay as they are. -/
def shrink (b : Buffer) (reserve : ℕ) : Except Fault Buffer := do
  let new_buffer ← resize [] (Word64.add (Word64.add kCheapPrepend b.readableBytes) reserve)
  let readable ← copyOut b.buffer b.readIndex b.readableBytes
  let buffer ← copyIn new_buffer kCheapPrepend readable
  return { b with buffer }

/-- What `shrink(reserve)` is meant to do. -/
structure Shrunk (b : Buffer) (reserve : ℕ) (b' : Buffer) : Prop where
  content : b'.content = b.content
  read_le : b'.readIndex ≤ b'.writeIndex
  write_le : b'.writeIndex ≤ b'.buffer.length
  writable : b'.writableBytes = reserve

/-- The sum of `kCheapPrepend` and `readableBytes()` does not wrap. -/
theorem add_kCheapPrepend_readableBytes (h : b.WellFormed) :
    Word64.add kCheapPrepend b.readableBytes = kCheapPrepend + b.readableBytes := by
  refine Word64.add_of_lt ?_
  have hle := h.length_le
  have hwrite := h.write_le
  have hlt := maxSize_lt
  rw [readableBytes_eq h]
  unfold kCheapPrepend maxSize at *
  omega

theorem copyOut_content (h : b.WellFormed) :
    copyOut b.buffer b.readIndex b.readableBytes = .ok b.content := by
  have hadd : b.readIndex + b.readableBytes = b.writeIndex := by
    have := h.read_le
    rw [readableBytes_eq h]
    omega
  rw [copyOut, hadd, if_pos h.write_le]
  rfl

/-- A vector of the wrapped size is made, and then the content has to fit into it. -/
theorem shrink_eq (h : b.WellFormed) {n : ℕ}
    (hn : Word64.add (kCheapPrepend + b.readableBytes) reserve = n) :
    b.shrink reserve =
      if n ≤ maxSize then
        if kCheapPrepend + b.readableBytes ≤ n then
          .ok { b with buffer := Block.splice (List.replicate n 0) kCheapPrepend b.content }
        else .error .outOfBounds
      else .error .lengthError := by
  rw [shrink, add_kCheapPrepend_readableBytes h, hn, resize]
  by_cases hmax : n ≤ maxSize
  · have hresize : Block.resize (0 : UInt8) [] n = List.replicate n 0 := by
      rw [Block.resize, List.take_nil, List.nil_append, List.length_nil, Nat.sub_zero]
    rw [if_pos hmax, if_pos hmax, ok_bind, copyOut_content h, ok_bind, copyIn, hresize,
      List.length_replicate, length_content h]
    split_ifs <;> rfl
  · rw [if_neg hmax, if_neg hmax, error_bind]

/-- A new vector of the intended size has what it should have where the indices are only if the
content began at `kCheapPrepend`. -/
theorem shrunk_iff (h : b.WellFormed)
    (hmax : kCheapPrepend + b.readableBytes + reserve ≤ maxSize) :
    Shrunk b reserve { b with
      buffer := Block.splice (List.replicate (kCheapPrepend + b.readableBytes + reserve) 0)
        kCheapPrepend b.content } ↔ b.readIndex = kCheapPrepend := by
  set n := kCheapPrepend + b.readableBytes + reserve with hn
  set b' : Buffer :=
    { b with buffer := Block.splice (List.replicate n 0) kCheapPrepend b.content } with hb'
  have hread := h.read_le
  have hreadable := readableBytes_eq h
  have hcontent := length_content h
  have hlength : b'.buffer.length = n := by
    rw [hb', Block.length_splice] <;> rw [List.length_replicate]
    omega
  have hmod : n < Word64.modulus := by
    have := maxSize_lt
    omega
  constructor
  · intro hshrunk
    have hwrite : b.writeIndex ≤ n := hlength ▸ hshrunk.write_le
    -- the room behind `writeIndex` is what the vector has beyond the old index
    have hroom : n - b.writeIndex = reserve := by
      have hsub : b'.writableBytes = n - b.writeIndex := by
        rw [writableBytes, hlength]
        exact Word64.sub_of_le hwrite hmod
      rw [← hsub, hshrunk.writable]
    omega
  · intro hindex
    have hwrite : b'.writeIndex = kCheapPrepend + b.content.length := by
      rw [hcontent, hreadable]
      change b.writeIndex = _
      omega
    have hfits : b'.writeIndex ≤ n := by
      rw [hwrite, hcontent]
      omega
    refine ⟨?_, hread, hlength ▸ hfits, ?_⟩
    · rw [Buffer.content, hwrite]
      change Block.slice _ b.readIndex _ = _
      rw [hindex]
      refine Block.slice_splice ?_
      rw [List.length_replicate]
      omega
    · rw [writableBytes, hlength, Word64.sub_of_le hfits hmod, hwrite, hcontent]
      omega

/-- **Exactly when `shrink` does what it is meant to.** Unless the new vector cannot be made, it
does if and only if the content begins at `kCheapPrepend` and the size of the new vector does not
wrap. -/
theorem shrink_preserves_iff (h : b.WellFormed) (hreserve : reserve < Word64.modulus) :
    (b.shrink reserve = .error .lengthError ∨
      ∃ b', b.shrink reserve = .ok b' ∧ Shrunk b reserve b') ↔
    (Word64.add (kCheapPrepend + b.readableBytes) reserve ≤ maxSize →
      b.readIndex = kCheapPrepend ∧
        kCheapPrepend + b.readableBytes + reserve < Word64.modulus) := by
  generalize hn : Word64.add (kCheapPrepend + b.readableBytes) reserve = n
  rw [shrink_eq h hn]
  rcases Nat.lt_or_ge maxSize n with hmax | hmax
  · rw [if_neg (Nat.not_le.mpr hmax)]
    exact iff_of_true (.inl rfl) fun hle => absurd hle (Nat.not_le.mpr hmax)
  rw [if_pos hmax, imp_iff_right hmax]
  rcases Nat.lt_or_ge (kCheapPrepend + b.readableBytes + reserve) Word64.modulus with hlt | hwrap
  · obtain rfl : kCheapPrepend + b.readableBytes + reserve = n :=
      (Word64.add_of_lt hlt).symm.trans hn
    rw [if_pos (Nat.le_add_right _ _), and_iff_left hlt, ← shrunk_iff h hmax]
    constructor
    · rintro (herror | ⟨b', hok, hshrunk⟩)
      · cases herror
      · exact Except.ok.inj hok ▸ hshrunk
    · exact fun hshrunk => .inr ⟨_, rfl, hshrunk⟩
  · -- the wrapped size is too small for the content
    have hsmall : ¬kCheapPrepend + b.readableBytes ≤ n := by
      rw [Word64.add] at hn
      have := h.length_le
      have := h.write_le
      have := maxSize_lt
      have := readableBytes_eq h
      unfold kCheapPrepend maxSize Word64.modulus at *
      omega
    rw [if_neg hsmall]
    refine iff_of_false ?_ fun hcond => absurd hcond.2 (Nat.not_lt.mpr hwrap)
    rintro (herror | ⟨b', hok, -⟩)
    · cases herror
    · cases hok

/-- A buffer that nothing has been read from. -/
theorem shrink_preserves_iff_unread :
    (fresh.shrink 100 = .error .lengthError ∨
      ∃ b', fresh.shrink 100 = .ok b' ∧ Shrunk fresh 100 b') ↔
    (Word64.add (kCheapPrepend + fresh.readableBytes) 100 ≤ maxSize →
      fresh.readIndex = kCheapPrepend ∧
        kCheapPrepend + fresh.readableBytes + 100 < Word64.modulus) :=
  shrink_preserves_iff wellFormed_fresh (by decide)

/-- Three bytes are appended and one of them is retrieved. `shrink` then loses the second one. -/
theorem shrink_loses : ∃ b b',
    Machine.run Session.step Session.fresh [.append ⟨[1, 2, 3], by decide⟩, .retrieve 1] =
      .ok ⟨b, []⟩ ∧
    b.content = [2, 3] ∧ b.shrink 10 = .ok b' ∧ b'.content = [3, 0] ∧ b'.writableBytes = 9 := by
  refine ⟨⟨List.replicate 8 0 ++ [1, 2, 3] ++ List.replicate 1021 0, 9, 11⟩,
    ⟨List.replicate 8 0 ++ [2, 3] ++ List.replicate 10 0, 9, 11⟩, ?_⟩
  decide +kernel

/-! ### Empty buffers -/

/-- If all data has been consumed, both indices are at `kCheapPrepend`, and all the space behind the
reserved head is free. -/
structure IsReset (b : Buffer) : Prop where
  indices : b.readIndex = b.writeIndex → b.readIndex = kCheapPrepend ∧ b.writeIndex = kCheapPrepend
  writable : b.readIndex = b.writeIndex → b.writableBytes = b.buffer.length - kCheapPrepend

/-- A `retrieve` that consumes all data finds `writeIndex` at `kCheapPrepend`. -/
def Op.LeavesReset (b : Buffer) : Op → Prop
  | .retrieve len => len = b.readableBytes → b.writeIndex = kCheapPrepend
  | .append _ | .prepend _ | .retrieveAll | .retrieveAsString => True

instance (b : Buffer) (op : Op) : Decidable (op.LeavesReset b) :=
  match op with
  | .retrieve len =>
    inferInstanceAs (Decidable (len = b.readableBytes → b.writeIndex = kCheapPrepend))
  | .append _ | .prepend _ | .retrieveAll | .retrieveAsString => inferInstanceAs (Decidable True)

/-- A well-formed buffer with its reserved head. -/
structure Roomy (b : Buffer) : Prop extends b.WellFormed where
  head_room : kCheapPrepend ≤ b.buffer.length

theorem roomy_fresh : fresh.Roomy := ⟨wellFormed_fresh, joint_fresh.head_room⟩

theorem content_eq_nil_iff (h : b.WellFormed) : b.content = [] ↔ b.readIndex = b.writeIndex := by
  rw [← List.length_eq_zero_iff, length_content h, readableBytes_eq h]
  have := h.read_le
  omega

/-- The free space is then right, too. -/
theorem isReset_iff (h : b.Roomy) :
    b.IsReset ↔ (b.content = [] → b.writeIndex = kCheapPrepend) := by
  rw [content_eq_nil_iff h.toWellFormed]
  constructor
  · exact fun hreset hempty => (hreset.indices hempty).2
  · intro hwrite
    refine ⟨fun hempty => ⟨hempty.trans (hwrite hempty), hwrite hempty⟩, fun hempty => ?_⟩
    rw [writableBytes_eq h.toWellFormed, hwrite hempty]

theorem isReset_fresh : fresh.IsReset := (isReset_iff roomy_fresh).mpr fun _ => rfl

/-! One lemma for each operation that does not reset the buffer by itself. -/

theorem Roomy.append (h : b.Roomy) (hlen : data.length ≤ maxSize) (hok : b.append data = .ok b') :
    b'.Roomy ∧ (b.IsReset → b'.IsReset) := by
  have hfits : b.GrowthFits data.length := by
    by_contra hfits
    rcases append_fault h.toWellFormed hlen hfits with herr | herr <;> cases hok.symm.trans herr
  rcases append_spec h.toWellFormed hlen hfits with ⟨v, hv, hwf, hsize, -, hcontent⟩ | ⟨herr, -⟩
  · obtain rfl := Except.ok.inj (hok.symm.trans hv)
    have hroomy : b'.Roomy := ⟨hwf, h.head_room.trans hsize⟩
    refine ⟨hroomy, fun hreset => (isReset_iff hroomy).mpr fun hempty => ?_⟩
    rw [hcontent, List.append_eq_nil_iff] at hempty
    -- nothing has been appended, and there was room for that
    obtain ⟨hempty, rfl⟩ := hempty
    have hens : b.ensureWritable ([] : List UInt8).length = .ok b :=
      ensureWritable_of_le (Nat.zero_le _)
    obtain ⟨v, hv, hwf', -, hread, hcontent'⟩ :=
      append_of_ensureWritable hens h.toWellFormed (Nat.zero_le _)
    obtain rfl := Except.ok.inj (hok.symm.trans hv)
    rw [List.append_nil, hempty, content_eq_nil_iff hwf'] at hcontent'
    have hindices := hreset.indices ((content_eq_nil_iff h.toWellFormed).mp hempty)
    rw [← hcontent', hread, hindices.1]
  · cases hok.symm.trans herr

theorem Roomy.prepend (h : b.Roomy) (hok : b.prepend data = .ok b') :
    b'.Roomy ∧ (b.IsReset → b'.IsReset) := by
  have hlen : data.length ≤ b.prependableBytes := by
    by_contra hlen
    cases hok.symm.trans (prepend_fault (Nat.lt_of_not_le hlen))
  obtain ⟨v, hv, hwf, hsize, hcontent⟩ := prepend_spec h.toWellFormed hlen
  obtain rfl := Except.ok.inj (hok.symm.trans hv)
  have hroomy : b'.Roomy := ⟨hwf, hsize ▸ h.head_room⟩
  have hwrite : b'.writeIndex = b.writeIndex := by
    obtain ⟨_, -, hok⟩ := bind_eq_ok.mp hok
    obtain ⟨buffer, -, hok⟩ := bind_eq_ok.mp hok
    exact Except.ok.inj hok ▸ rfl
  refine ⟨hroomy, fun hreset => (isReset_iff hroomy).mpr fun hempty => ?_⟩
  rw [hcontent, List.append_eq_nil_iff] at hempty
  rw [hwrite]
  exact (isReset_iff h).mp hreset hempty.2

theorem Roomy.retrieve (h : b.Roomy) (hok : b.retrieve len = .ok b') :
    b'.Roomy ∧ (b'.IsReset ↔ (len = b.readableBytes → b.writeIndex = kCheapPrepend)) := by
  have hlen : len ≤ b.readableBytes := by
    by_contra hlen
    cases hok.symm.trans (retrieve_fault (Nat.lt_of_not_le hlen))
  obtain ⟨v, hv, hwf, hsize, hcontent⟩ := retrieve_spec h.toWellFormed hlen
  obtain rfl := Except.ok.inj (hok.symm.trans hv)
  have hroomy : b'.Roomy := ⟨hwf, hsize ▸ h.head_room⟩
  have hwrite : b'.writeIndex = b.writeIndex :=
    (Except.ok.inj (hok.symm.trans (retrieve_eq h.toWellFormed hlen))) ▸ rfl
  refine ⟨hroomy, ?_⟩
  rw [isReset_iff hroomy, hcontent, hwrite, List.drop_eq_nil_iff, length_content h.toWellFormed]
  exact imp_congr_left hlen.ge_iff_eq

theorem Roomy.retrieveAll (h : b.Roomy) : b.retrieveAll.Roomy ∧ b.retrieveAll.IsReset := by
  have hroomy : b.retrieveAll.Roomy :=
    ⟨wellFormed_retrieveAll h.toWellFormed h.head_room, h.head_room⟩
  exact ⟨hroomy, (isReset_iff hroomy).mpr fun _ => rfl⟩

/-- A session with its reserved head whose buffer is reset when it is empty. -/
structure Session.Tidy (s : Session) : Prop where
  roomy : s.buf.Roomy
  isReset : s.buf.IsReset

theorem tidy_fresh : Session.fresh.Tidy := ⟨roomy_fresh, isReset_fresh⟩

/-- A step from a buffer that is reset when empty leads to one exactly under the condition. -/
theorem Roomy.step {s s' : Session} {op : Op} (h : s.buf.Roomy) (hok : s.step op = .ok s') :
    s'.buf.Roomy ∧ (s.buf.IsReset → (s'.buf.IsReset ↔ op.LeavesReset s.buf)) := by
  cases op with
  | append data =>
    obtain ⟨v, hv, hok⟩ := bind_eq_ok.mp hok
    obtain rfl := Except.ok.inj hok
    refine (h.append data.length_le hv).imp_right fun hkeep hreset => ?_
    exact iff_of_true (hkeep hreset) trivial
  | prepend data =>
    obtain ⟨v, hv, hok⟩ := bind_eq_ok.mp hok
    obtain rfl := Except.ok.inj hok
    exact (h.prepend hv).imp_right fun hkeep hreset => iff_of_true (hkeep hreset) trivial
  | retrieve len =>
    obtain ⟨v, hv, hok⟩ := bind_eq_ok.mp hok
    obtain rfl := Except.ok.inj hok
    exact (h.retrieve hv).imp_right fun hiff _ => hiff
  | retrieveAll =>
    obtain rfl := Except.ok.inj hok
    exact h.retrieveAll.imp_right fun hreset _ => iff_of_true hreset trivial
  | retrieveAsString =>
    rw [Session.step, retrieveAsString_eq h.toWellFormed] at hok
    obtain rfl := Except.ok.inj hok
    exact h.retrieveAll.imp_right fun hreset _ => iff_of_true hreset trivial

/-- **Exactly when an empty buffer is reset.** In every run from a fresh buffer, every state in
which all data has been consumed has its indices at `kCheapPrepend` if and only if every `retrieve`
that consumes all data finds `writeIndex` there. -/
theorem reset_iff (ops : List Op) :
    Machine.Along Session.step (Machine.onResult (Machine.UnlessFault fun s => s.buf.IsReset))
      Session.fresh ops ↔
    Machine.Along Session.step (Machine.onInput fun s op => op.LeavesReset s.buf)
      Session.fresh ops := by
  refine Machine.along_iff_along tidy_fresh (fun s op h => ?_) fun s op s' h hgood hok => ?_
  · constructor
    · intro hgood
      cases hstep : s.step op with
      | ok s' => exact ((h.roomy.step hstep).2 h.isReset).mp (hgood s' hstep)
      | error e =>
        -- a `retrieve` of all data does not fail
        cases op with
        | retrieve len =>
          rintro rfl
          rw [Session.step, retrieve_eq h.roomy.toWellFormed le_rfl] at hstep
          cases hstep
        | append | prepend | retrieveAll | retrieveAsString => trivial
    · exact fun hcond s' hok => ((h.roomy.step hok).2 h.isReset).mpr hcond
  · exact ⟨(h.roomy.step hok).1, hgood s' hok⟩

/-- Five bytes are appended and retrieved again: both indices stay behind them. -/
theorem not_reset : ∃ s, Machine.run Session.step Session.fresh
      [.append ⟨[1, 2, 3, 4, 5], by decide⟩, .retrieve 5] = .ok s ∧
    s.buf.readIndex = s.buf.writeIndex ∧ s.buf.readIndex = 13 ∧ ¬s.buf.IsReset := by
  refine ⟨⟨⟨List.replicate 8 0 ++ [1, 2, 3, 4, 5] ++ List.replicate 1019 0, 13, 13⟩, []⟩, ?_, rfl,
    rfl, fun hreset => absurd (hreset.indices rfl).1 (by decide)⟩
  decide +kernel

end Buffer

end MuduoRebuild
