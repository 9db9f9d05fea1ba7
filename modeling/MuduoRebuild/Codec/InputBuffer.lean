import MuduoRebuild.Buffer.ReadFd
import MuduoRebuild.Codec.Lossless
import MuduoRebuild.Foundations.Run

/-!
# The decoder on the input buffer of a connection

`TcpConnection::handleRead` reads from the socket into `inputBuffer_` with `Buffer::readFd`, and the
message callback `LengthHeaderCodec::onMessage` takes messages from it with `peek` and `retrieve`.
Here both work on the vector and the indices of a `Buffer`, where `Codec/Basic.lean` has the
sequence of its bytes.

`inbox_refines_iff` compares this with the reference parser on the bytes that have arrived: the two
agree as long as `readFd` can take in what `::readv` receives, and no further. Since the vector of a
fresh buffer then never grows, no message of more than 1020 bytes ever arrives (`length_le_of_run`).
-/

namespace MuduoRebuild

namespace LengthHeaderCodec

open Fallible Framing
open ByteOrder (loadLE toSigned)
open Buffer (Readv kCheapPrepend kInitialSize)

/-! ### `onMessage` -/

/-- `*static_cast<const int32_t *>(buffer->peek())`. -/
def peekInt32 (buffer : Buffer) : Except Fault ℕ := do
  let data ← copyOut buffer.buffer buffer.readIndex kHeaderLen
  match data with
  | [b₀, b₁, b₂, b₃] => return loadLE b₀ b₁ b₂ b₃
  | _ => .error .outOfBounds

/-- What one pass of the loop does. -/
inductive Pass where
  /-- A message is passed on, and this is the buffer afterwards. -/
  | delivered (message : List UInt8) (buffer : Buffer)
  /-- `conn->shutdown(); break;` -/
  | shutdown
  /-- The loop ends, by its condition or its last branch. -/
  | waits

/-- One pass of the loop in `onMessage`. -/
def pass (buffer : Buffer) : Except Fault Pass := do
  if kHeaderLen ≤ buffer.readableBytes then
    let be32 ← peekInt32 buffer
    let len := toSigned (ntohl be32)
    if len > 65536 ∨ len < 0 then return .shutdown
    else if Word64.add len.toNat kHeaderLen ≤ buffer.readableBytes then
      let buffer ← buffer.retrieve kHeaderLen
      let message ← copyOut buffer.buffer buffer.readIndex len.toNat
      let buffer ← buffer.retrieve len.toNat
      return .delivered message buffer
    else return .waits
  else return .waits

/-- An input buffer, what `onMessage` has passed on, and whether it has called `shutdown`. -/
structure Inbox where
  buffer : Buffer
  items : List (List UInt8)
  stopped : Bool

theorem readableBytes_of_retrieve {b b' : Buffer} {len : ℕ} (h : b.retrieve len = .ok b') :
    b'.readableBytes + len = b.readableBytes := by
  obtain ⟨_, hlen, h⟩ := bind_eq_ok.mp h
  obtain rfl := Except.ok.inj h
  have hlen := check_eq_ok.mp hlen
  unfold Buffer.readableBytes Word64.sub Word64.add Word64.modulus at *
  dsimp only at *
  omega

theorem readableBytes_lt_of_pass {b b' : Buffer} {message : List UInt8}
    (h : pass b = .ok (.delivered message b')) : b'.readableBytes < b.readableBytes := by
  unfold pass at h
  split_ifs at h with hroom
  · obtain ⟨be32, -, h⟩ := bind_eq_ok.mp h
    dsimp only at h
    split_ifs at h
    · cases Except.ok.inj h
    · obtain ⟨b₁, hfirst, h⟩ := bind_eq_ok.mp h
      obtain ⟨m, -, h⟩ := bind_eq_ok.mp h
      obtain ⟨b₂, hsecond, h⟩ := bind_eq_ok.mp h
      obtain ⟨-, rfl⟩ := Pass.delivered.inj (Except.ok.inj h)
      have h₁ := readableBytes_of_retrieve hfirst
      have h₂ := readableBytes_of_retrieve hsecond
      unfold kHeaderLen at h₁
      omega
    · cases Except.ok.inj h
  · cases Except.ok.inj h

/-- `onMessage` on an input buffer. -/
def Inbox.onMessage (buffer : Buffer) : Except Fault Inbox :=
  match _h : pass buffer with
  | .error f => .error f
  | .ok (.delivered message buffer) => do
    let inbox ← Inbox.onMessage buffer
    return { inbox with items := message :: inbox.items }
  | .ok .shutdown => .ok ⟨buffer, [], true⟩
  | .ok .waits => .ok ⟨buffer, [], false⟩
termination_by buffer.readableBytes
decreasing_by exact readableBytes_lt_of_pass _h

/-! ### A pass and the reader -/

variable {b : Buffer}

theorem copyOut_eq_take (h : b.WellFormed) {n : ℕ} (hn : n ≤ b.readableBytes) :
    copyOut b.buffer b.readIndex n = .ok (b.content.take n) := by
  have hread := h.read_le
  have hwrite := h.write_le
  rw [Buffer.readableBytes_eq h] at hn
  have hle : b.readIndex + n ≤ b.writeIndex := by omega
  rw [copyOut, if_pos (hle.trans hwrite)]
  have hsplit := Block.slice_append_slice (l := b.buffer) (Nat.le_add_right b.readIndex n) hle
  have hlength : (Block.slice b.buffer b.readIndex (b.readIndex + n)).length = n := by
    rw [Block.length_slice (hle.trans hwrite), Nat.add_sub_cancel_left]
  rw [Buffer.content, ← hsplit, List.take_append_of_le_length hlength.ge, List.take_of_length_le
    hlength.le]

/-- `retrieve` on an input buffer. -/
theorem retrieves (h : b.WellFormed) {n : ℕ} (hn : n ≤ b.readableBytes) :
    ∃ b', b.retrieve n = .ok b' ∧ b'.WellFormed ∧ b'.buffer.length = b.buffer.length ∧
      b.readIndex ≤ b'.readIndex ∧ b'.content = b.content.drop n := by
  obtain ⟨b', hok, hwf, hsize, hcontent⟩ := Buffer.retrieve_spec h hn
  refine ⟨b', hok, hwf, hsize, ?_, hcontent⟩
  obtain rfl := Except.ok.inj ((Buffer.retrieve_eq h hn).symm.trans hok)
  exact Nat.le_add_right _ _

/-- A pass does with the buffer what the reader does with its bytes. -/
inductive PassAgrees (b : Buffer) : Pass → Cut UInt8 (List UInt8) → Prop
  | delivered {message b'} (hwf : b'.WellFormed) (hsize : b'.buffer.length = b.buffer.length)
      (hlow : b.readIndex ≤ b'.readIndex) :
      PassAgrees b (.delivered message b') (.item message b'.content)
  | shutdown : PassAgrees b .shutdown .stop
  | waits : PassAgrees b .waits .wait

theorem pass_spec (h : b.WellFormed) : ∃ p, pass b = .ok p ∧ PassAgrees b p (cut b.content) := by
  have hlength := Buffer.length_content h
  rw [pass]
  split_ifs with hroom
  · have hdata := copyOut_eq_take h hroom
    obtain ⟨b₀, b₁, b₂, b₃, tail, hcontent⟩ : ∃ b₀ b₁ b₂ b₃ tail,
        b.content = b₀ :: b₁ :: b₂ :: b₃ :: tail :=
      exists_header (Nat.not_lt.mpr (hroom.trans hlength.ge))
    have hpeek : peekInt32 b = .ok (loadLE b₀ b₁ b₂ b₃) := by
      rw [peekInt32, hdata, hcontent]
      rfl
    rw [hpeek, ok_bind]
    dsimp only
    rw [ntohl, ByteOrder.byteSwap_loadLE, hcontent, cut_header b₀ b₁ b₂ b₃ tail rfl]
    generalize toSigned (ByteOrder.loadBE b₀ b₁ b₂ b₃) = len
    have htail : b.readableBytes = tail.length + kHeaderLen := by
      rw [← hlength, hcontent]
      rfl
    split_ifs with hbad hadd hfits hfits
    · exact ⟨_, rfl, .shutdown⟩
    · -- the message is complete
      obtain ⟨b₁', hfirst, hwf₁, hsize₁, hlow₁, hcontent₁⟩ := retrieves h hroom
      have hcontent₁ : b₁'.content = tail := by rw [hcontent₁, hcontent]; rfl
      have hn : len.toNat ≤ b₁'.readableBytes := by
        rw [← Buffer.length_content hwf₁, hcontent₁]
        exact hfits
      obtain ⟨b₂', hsecond, hwf₂, hsize₂, hlow₂, hcontent₂⟩ := retrieves hwf₁ hn
      have hmessage := copyOut_eq_take hwf₁ hn
      rw [hfirst, ok_bind, hmessage, ok_bind, hsecond, ok_bind]
      refine ⟨_, rfl, ?_⟩
      rw [hcontent₁, ← hcontent₁, ← hcontent₂]
      exact .delivered hwf₂ (hsize₂.trans hsize₁) (hlow₁.trans hlow₂)
    · rw [Word64.add_of_lt (by unfold kHeaderLen Word64.modulus; omega), htail] at hadd
      omega
    · rw [Word64.add_of_lt (by unfold kHeaderLen Word64.modulus; omega), htail] at hadd
      omega
    · exact ⟨_, rfl, .waits⟩
  · refine ⟨_, rfl, ?_⟩
    rw [cut_of_length_lt (by rw [hlength]; exact Nat.not_le.mp hroom)]
    exact .waits

/-- **The loop on the buffer is the loop on its bytes.** -/
theorem onMessage_spec (h : b.WellFormed) :
    ∃ b', Inbox.onMessage b =
        .ok ⟨b', (onMessage b.content).items, (onMessage b.content).stopped⟩ ∧
      b'.WellFormed ∧ b'.buffer.length = b.buffer.length ∧ b.readIndex ≤ b'.readIndex ∧
      b'.content = (onMessage b.content).rest := by
  induction b using Inbox.onMessage.induct with
  | case1 b f hpass =>
    obtain ⟨p, hp, -⟩ := pass_spec h
    cases hpass.symm.trans hp
  | case2 b message b' hpass ih =>
    obtain ⟨p, hp, hagrees⟩ := pass_spec h
    obtain rfl := Except.ok.inj (hpass.symm.trans hp)
    generalize hcut : cut b.content = cut' at hagrees
    cases hagrees with
    | delivered hwf hsize hlow =>
      obtain ⟨b'', hloop, hwf', hsize', hlow', hcontent'⟩ := ih hwf
      have hparse : onMessage b.content = (onMessage b'.content).after [message] :=
        Reader.parse_item hcut
      refine ⟨b'', ?_, hwf', hsize'.trans hsize, hlow.trans hlow', ?_⟩
      · rw [Inbox.onMessage, hpass, hparse]
        simp only [hloop, ok_bind]
        rfl
      · rw [hcontent', hparse]
        rfl
  | case3 b hpass =>
    obtain ⟨p, hp, hagrees⟩ := pass_spec h
    obtain rfl := Except.ok.inj (hpass.symm.trans hp)
    generalize hcut : cut b.content = cut' at hagrees
    cases hagrees with
    | shutdown =>
      have hparse : onMessage b.content = ⟨[], true, b.content⟩ := Reader.parse_stop hcut
      refine ⟨b, ?_, h, rfl, le_rfl, by rw [hparse]⟩
      rw [Inbox.onMessage, hpass, hparse]
  | case4 b hpass =>
    obtain ⟨p, hp, hagrees⟩ := pass_spec h
    obtain rfl := Except.ok.inj (hpass.symm.trans hp)
    generalize hcut : cut b.content = cut' at hagrees
    cases hagrees with
    | waits =>
      have hparse : onMessage b.content = ⟨[], false, b.content⟩ := Reader.parse_wait hcut
      refine ⟨b, ?_, h, rfl, le_rfl, by rw [hparse]⟩
      rw [Inbox.onMessage, hpass, hparse]

/-! ### `readFd` -/

variable {data : List UInt8} {savedErrno : ℤ}

/-- What spills is appended after the content has been moved to the front. -/
theorem readFd_of_spill (h : b.WellFormed) (hspill : b.writableBytes < data.length)
    (hmax : (data.drop b.writableBytes).length ≤ maxSize)
    (hroom : (data.drop b.writableBytes).length + kCheapPrepend ≤ b.readIndex) :
    ∃ b', b.readFd savedErrno (.received data) = .ok (b', (data.length : ℤ), savedErrno) ∧
      b'.WellFormed ∧ b'.buffer.length = b.buffer.length ∧ b'.readIndex = kCheapPrepend ∧
      b'.content = b.content ++ data := by
  have hwf := Buffer.wellFormed_filled h data
  have hlow : kCheapPrepend ≤ (b.filled data).readIndex := (Nat.le_add_left _ _).trans hroom
  have hnone := Buffer.writableBytes_filled h data
  have hfull : (b.filled data).writableBytes < (data.drop b.writableBytes).length := by
    rw [hnone, List.length_drop]
    omega
  have hfree : (data.drop b.writableBytes).length + kCheapPrepend ≤
      (b.filled data).writableBytes + (b.filled data).prependableBytes := by
    rw [hnone, Nat.zero_add]
    exact hroom
  have hspace := Buffer.makeSpace_compact hwf hmax hfull hfree
  have hcompacted := Buffer.wellFormed_compacted hwf hlow
  have hwritable :
      (data.drop b.writableBytes).length ≤ (b.filled data).compacted.writableBytes := by
    have hread := hwf.read_le
    have hlen : (b.filled data).buffer.length = (b.filled data).writeIndex :=
      Block.length_splice (Buffer.length_take_le h data)
    have hindex : (b.filled data).readIndex = b.readIndex := rfl
    rw [Buffer.writableBytes_eq hcompacted, Buffer.length_compacted hwf hlow, hlen,
      Buffer.compacted, Buffer.readableBytes_eq hwf]
    dsimp only
    omega
  obtain ⟨b', happend, hwf', hsize, hread, hcontent⟩ := Buffer.append_of_ensureWritable
    (Buffer.ensureWritable_of_makeSpace hfull hspace hwritable) hcompacted hwritable
  refine ⟨b', ?_, hwf', ?_, hread, ?_⟩
  · rw [Buffer.readFd_of_lt h hspill, happend]
    rfl
  · rw [hsize, Buffer.length_compacted hwf hlow]
    exact Block.length_splice (Buffer.length_take_le h data)
  · rw [hcontent, Buffer.content_compacted hwf hlow, Buffer.content_filled h hspill,
      List.append_assoc, List.take_append_drop]

/-- `readFd` takes in what it can without a vector of another size. -/
theorem readFd_spec (h : b.WellFormed) (hlow : kCheapPrepend ≤ b.readIndex)
    (hfits : (Readv.received data).Fits b) (htakes : b.TakesIn (.received data)) :
    ∃ b', b.readFd savedErrno (.received data) = .ok (b', (data.length : ℤ), savedErrno) ∧
      b'.WellFormed ∧ b'.buffer.length = b.buffer.length ∧ kCheapPrepend ≤ b'.readIndex ∧
      b'.content = b.content ++ data := by
  have hwrite := h.write_le
  have hread := h.read_le
  rcases Nat.lt_or_ge b.writableBytes data.length with hspill | hle
  · have hdrop : (data.drop b.writableBytes).length = data.length - b.writableBytes :=
      List.length_drop
    have hmax : (data.drop b.writableBytes).length ≤ maxSize := by
      have hfits : data.length ≤ b.writableBytes + Buffer.extrabufSize := hfits
      unfold Buffer.extrabufSize at hfits
      unfold maxSize
      omega
    have hroom : (data.drop b.writableBytes).length + kCheapPrepend ≤ b.readIndex := by
      have hpos : 0 < b.readIndex := Nat.lt_of_lt_of_le (by decide) hlow
      rcases htakes with hle | hroom | hempty <;> omega
    obtain ⟨b', hok, hwf', hsize, hindex, hcontent⟩ := readFd_of_spill h hspill hmax hroom
    exact ⟨b', hok, hwf', hsize, hindex.ge, hcontent⟩
  · have hroom : b.writeIndex + data.length ≤ b.buffer.length := by
      rw [Buffer.writableBytes_eq h] at hle
      omega
    have hsize := Block.length_splice hroom
    have hreads : b.Reads savedErrno (.received data) (b.readFd savedErrno (.received data)) :=
      Buffer.reads_of_le h hle
    obtain ⟨b', hok, hcontent, hread', hwrite'⟩ := hreads
    obtain ⟨rfl, -⟩ := Prod.mk.inj (Except.ok.inj ((Buffer.readFd_of_le h hle).symm.trans hok))
    exact ⟨_, hok, ⟨hread', hwrite', hsize.trans_le h.length_le⟩, hsize, hlow, hcontent⟩

/-- Otherwise it does not return. -/
theorem readFd_ne_ok (h : b.WellFormed) {outcome : Readv} (hfits : outcome.Fits b)
    (hnot : ¬b.TakesIn outcome) (r : Buffer × ℤ × ℤ) : b.readFd savedErrno outcome ≠ .ok r := by
  cases outcome with
  | failed => exact absurd trivial hnot
  | received data =>
    have hspill : b.writableBytes < data.length := Nat.not_le.mp fun hle => hnot (.inl hle)
    have hdrop : (data.drop b.writableBytes).length = data.length - b.writableBytes :=
      List.length_drop
    have hmax : (data.drop b.writableBytes).length ≤ maxSize := by
      have hfits : data.length ≤ b.writableBytes + Buffer.extrabufSize := hfits
      unfold Buffer.extrabufSize at hfits
      unfold maxSize
      omega
    have hgrowth : ¬(b.filled data).GrowthFits (data.drop b.writableBytes).length := by
      rw [Buffer.growthFits_filled_iff h (by omega) hmax, hdrop]
      exact fun hfit => hnot (.inr hfit)
    rw [Buffer.readFd_of_lt h hspill]
    rcases Buffer.append_fault (Buffer.wellFormed_filled h data) hmax hgrowth with herror | herror
    · rw [herror]
      exact fun heq => by cases heq
    · rw [herror]
      exact fun heq => by cases heq

/-! ### A connection reads -/

/-- A connection that has just been made. -/
def Inbox.fresh : Inbox := ⟨Buffer.fresh, [], false⟩

/-- `TcpConnection::handleRead`. When `readFd` returns zero or fails, the buffer is left alone. -/
def Inbox.handleRead (s : Inbox) (outcome : Readv) : Except Fault Inbox := do
  let (buffer, n, _) ← s.buffer.readFd 0 outcome
  if 0 < n then
    let inbox ← Inbox.onMessage buffer
    return ⟨inbox.buffer, s.items ++ inbox.items, s.stopped || inbox.stopped⟩
  else return { s with buffer }

/-- The bytes that have arrived, after another `::readv`. -/
def arrived (bytes : List UInt8) : Readv → List UInt8
  | .failed _ => bytes
  | .received data => bytes ++ data

/-- The connection has done with the bytes that have arrived what the reference parser does. -/
structure Agrees (p : Inbox × List UInt8) : Prop where
  wellFormed : p.1.buffer.WellFormed
  items : p.1.items = (refParse p.2).items
  stopped : p.1.stopped = (refParse p.2).stopped
  content : p.1.buffer.content = (refParse p.2).rest

/-- The vector is of the size of a fresh one, and whatever has been passed on has fitted into it. -/
structure Kept (p : Inbox × List UInt8) : Prop extends Agrees p where
  length_eq : p.1.buffer.buffer.length = kCheapPrepend + kInitialSize
  low : kCheapPrepend ≤ p.1.buffer.readIndex
  short : ∀ message ∈ p.1.items, kHeaderLen + message.length ≤ kInitialSize

theorem kept_fresh : Kept (Inbox.fresh, []) where
  wellFormed := Buffer.wellFormed_fresh
  items := by rw [← onMessage_eq_refParse]; exact congrArg Parsed.items (Reader.parse_wait rfl).symm
  stopped := by
    rw [← onMessage_eq_refParse]
    exact congrArg Parsed.stopped (Reader.parse_wait rfl).symm
  content := by
    rw [← onMessage_eq_refParse]
    exact Buffer.content_fresh.trans (congrArg Parsed.rest (Reader.parse_wait rfl).symm)
  length_eq := Buffer.length_fresh
  low := le_rfl
  short := List.forall_mem_nil _

/-- The frame of a message that is passed on has been in the buffer. -/
theorem length_le_of_mem_onMessage {bytes message : List UInt8}
    (h : message ∈ (onMessage bytes).items) : kHeaderLen + message.length ≤ bytes.length := by
  have hstream : ((onMessage bytes).items.map frame).flatten ++ (onMessage bytes).rest = bytes :=
    Reader.flatten_encode_append_rest eq_frame_append_of_cut bytes
  have hframe : (frame message).length ≤ ((onMessage bytes).items.map frame).flatten.length :=
    (List.sublist_flatten_of_mem (List.mem_map_of_mem h)).length_le
  rw [← hstream, List.length_append]
  rw [frame, List.length_append, ByteOrder.length_storeLE] at hframe
  exact hframe.trans (Nat.le_add_right _ _)

/-- A read that can be taken in is done as by the reference parser. -/
theorem Kept.handleRead {p : Inbox × List UInt8} (h : Kept p) {outcome : Readv}
    (hfits : outcome.Fits p.1.buffer) (htakes : p.1.buffer.TakesIn outcome) :
    ∃ s, p.1.handleRead outcome = .ok s ∧ Kept (s, arrived p.2 outcome) := by
  cases outcome with
  | failed errno => exact ⟨p.1, rfl, h⟩
  | received data =>
    obtain ⟨b, hok, hwf, hsize, hlow, hcontent⟩ :
        ∃ b, p.1.buffer.readFd 0 (.received data) = .ok (b, (data.length : ℤ), 0) ∧
          b.WellFormed ∧ b.buffer.length = p.1.buffer.buffer.length ∧
          kCheapPrepend ≤ b.readIndex ∧ b.content = p.1.buffer.content ++ data :=
      readFd_spec h.wellFormed h.low hfits htakes
    have hold : refParse p.2 = reader.parse p.2 := (onMessage_eq_refParse p.2).symm
    have hbytes : b.content = (reader.parse p.2).rest ++ data := by rw [hcontent, h.content, hold]
    have hparse : refParse (p.2 ++ data) = reader.feedChunk (reader.parse p.2) data :=
      (onMessage_eq_refParse _).symm.trans (Reader.feedChunk_parse p.2 data).symm
    rw [Inbox.handleRead, hok, ok_bind]
    dsimp only
    split_ifs with hpos
    · obtain ⟨b', hloop, hwf', hsize', hlow', hrest⟩ := onMessage_spec hwf
      rw [hloop, ok_bind]
      refine ⟨_, rfl, ⟨hwf', ?_, ?_, ?_⟩, hsize'.trans (hsize.trans h.length_eq),
        hlow.trans hlow', fun message hmem => ?_⟩
      · change p.1.items ++ _ = (refParse (p.2 ++ data)).items
        rw [hparse, Reader.feedChunk, ← hbytes, h.items, hold]
        rfl
      · change (p.1.stopped || _) = (refParse (p.2 ++ data)).stopped
        rw [hparse, Reader.feedChunk, ← hbytes, h.stopped, hold]
        rfl
      · change b'.content = (refParse (p.2 ++ data)).rest
        rw [hparse, Reader.feedChunk, ← hbytes, hrest]
        rfl
      · rcases List.mem_append.mp hmem with hmem | hmem
        · exact h.short message hmem
        · have hle := length_le_of_mem_onMessage hmem
          have hwrite := hwf.write_le
          have hlength := hsize.trans h.length_eq
          rw [Buffer.length_content hwf, Buffer.readableBytes_eq hwf] at hle
          omega
    · -- the end of the stream
      obtain rfl : data = [] := List.length_eq_zero_iff.mp (by omega)
      refine ⟨_, rfl, ?_⟩
      rw [arrived, List.append_nil]
      refine ⟨⟨hwf, h.items, h.stopped, ?_⟩, hsize.trans h.length_eq, hlow, h.short⟩
      exact hcontent.trans ((List.append_nil _).trans h.content)

/-- A read that returns has been taken in. -/
theorem Kept.takesIn {p : Inbox × List UInt8} (h : Kept p) {outcome : Readv}
    (hfits : outcome.Fits p.1.buffer) {s : Inbox} (hok : p.1.handleRead outcome = .ok s) :
    p.1.buffer.TakesIn outcome := by
  by_contra hnot
  obtain ⟨r, hread, -⟩ := bind_eq_ok.mp hok
  exact readFd_ne_ok h.wellFormed hfits hnot r hread

theorem Kept.step {p p' : Inbox × List UInt8} (h : Kept p) {outcome : Readv}
    (hfits : outcome.Fits p.1.buffer)
    (hok : Machine.lockstep Inbox.handleRead arrived p outcome = .ok p') : Kept p' := by
  obtain ⟨s, bytes⟩ := p'
  obtain ⟨hread, rfl⟩ := Machine.lockstep_eq_ok.mp hok
  obtain ⟨s', hread', hkept⟩ := h.handleRead hfits (h.takesIn hfits hread)
  obtain rfl := Except.ok.inj (hread.symm.trans hread')
  exact hkept

/-- Reads of at most 64 KiB fit in any state. -/
theorem fits_of_le {outcomes : List Readv} {s : Inbox}
    (h : ∀ o ∈ outcomes, (arrived [] o).length ≤ Buffer.extrabufSize) :
    Machine.Along Inbox.handleRead (Machine.onInput fun s o => o.Fits s.buffer) s outcomes := by
  refine (Machine.along_onInput h).of_invariant (fun _ => True) trivial ?_
    fun _ _ _ _ _ _ => trivial
  intro s o _ ho
  cases o with
  | failed => trivial
  | received data => exact Nat.le_add_left_of_le ho

/-- **The decoder on the input buffer of a connection.** For every sequence of reads from a fresh
buffer, with any bytes and any fragmentation: the connection does at every read with the bytes that
have arrived what the reference parser does, with the layout of the buffer kept and no access
outside the vector, if and only if at every read the bytes fit into the vector, or what spills fits
after the content has been moved down. -/
theorem inbox_refines_iff (outcomes : List Readv)
    (hfits : Machine.Along Inbox.handleRead (Machine.onInput fun s o => o.Fits s.buffer)
      Inbox.fresh outcomes) :
    Machine.Along (Machine.lockstep Inbox.handleRead arrived)
        (Machine.onResult (Machine.Succeeds Agrees)) (Inbox.fresh, []) outcomes ↔
      Machine.Along Inbox.handleRead (Machine.onInput fun s o => s.buffer.TakesIn o)
        Inbox.fresh outcomes := by
  refine (Machine.along_iff_along_of_along Kept (Machine.along_lockstep_onInput.mpr hfits)
    kept_fresh ?_ fun p o p' h hfit _ hok => h.step hfit hok).trans Machine.along_lockstep_onInput
  intro p o h hfit
  constructor
  · rintro ⟨p', hok, -⟩
    exact h.takesIn hfit (Machine.lockstep_eq_ok.mp hok).1
  · intro htakes
    obtain ⟨s, hok, hkept⟩ := h.handleRead hfit htakes
    exact ⟨(s, arrived p.2 o), Machine.lockstep_eq_ok.mpr ⟨hok, rfl⟩, hkept.toAgrees⟩

/-- A message that arrives in two reads, with the beginning of the next. -/
theorem inbox_refines_iff_split :
    Machine.Along (Machine.lockstep Inbox.handleRead arrived)
        (Machine.onResult (Machine.Succeeds Agrees)) (Inbox.fresh, [])
        [.received [0, 0, 0, 2, 104], .failed 11, .received [105, 0]] ↔
      Machine.Along Inbox.handleRead (Machine.onInput fun s o => s.buffer.TakesIn o)
        Inbox.fresh [.received [0, 0, 0, 2, 104], .failed 11, .received [105, 0]] :=
  inbox_refines_iff _ (fits_of_le (by decide))

/-- **Long messages never arrive.** In every run of reads from a fresh buffer that returns, however
the bytes are fragmented, every message that has been passed on has at most 1020 bytes: what is
longer makes a read fail before its last byte is in the buffer. -/
theorem length_le_of_run {outcomes : List Readv} {s : Inbox}
    (hfits : Machine.Along Inbox.handleRead (Machine.onInput fun s o => o.Fits s.buffer)
      Inbox.fresh outcomes)
    (hrun : Machine.run Inbox.handleRead Inbox.fresh outcomes = .ok s) :
    ∀ message ∈ s.items, message.length ≤ 1020 := by
  have hall : Machine.Along (Machine.lockstep Inbox.handleRead arrived)
      (Machine.onResult (Machine.UnlessFault Kept)) (Inbox.fresh, []) outcomes :=
    (Machine.along_lockstep_onInput.mpr hfits).of_invariant Kept kept_fresh
      (fun p o h hfit p' hok => h.step hfit hok) fun p o p' h hfit hok => h.step hfit hok
  have hboth : Machine.run (Machine.lockstep Inbox.handleRead arrived) (Inbox.fresh, []) outcomes =
      .ok (s, outcomes.foldl arrived []) := by
    rw [Machine.run_lockstep, hrun]
    rfl
  intro message hmem
  have hshort := (hall.of_run_eq_ok kept_fresh hboth).short message hmem
  unfold kHeaderLen kInitialSize at hshort
  omega

theorem length_le_of_run_short : ∃ s,
    Machine.run Inbox.handleRead Inbox.fresh [.received [0, 0, 0, 2, 104, 105]] = .ok s ∧
    s.items = [[104, 105]] ∧ ∀ message ∈ s.items, message.length ≤ 1020 := by
  have hroom : ([0, 0, 0, 2, 104, 105] : List UInt8).length ≤ Buffer.fresh.writableBytes := by
    rw [Buffer.writableBytes_eq Buffer.wellFormed_fresh, Buffer.length_fresh]
    decide
  have hfit : (Readv.received [0, 0, 0, 2, 104, 105]).Fits Buffer.fresh :=
    Nat.le_add_left_of_le (by decide)
  obtain ⟨s, hok, hkept⟩ := kept_fresh.handleRead hfit (.inl hroom)
  have hrun : Machine.run Inbox.handleRead Inbox.fresh [.received [0, 0, 0, 2, 104, 105]] = .ok s :=
    Machine.run_cons_ok hok
  have hparse : onMessage [0, 0, 0, 2, 104, 105] = ⟨[[104, 105]], false, []⟩ :=
    @onMessage_frames [[104, 105]] (by decide)
  refine ⟨s, hrun, ?_, length_le_of_run (fits_of_le (by decide)) hrun⟩
  rw [hkept.items, ← onMessage_eq_refParse]
  exact congrArg Parsed.items hparse

end LengthHeaderCodec

end MuduoRebuild
