import MuduoRebuild.Buffer.Space

/-!
# The output buffer of a connection

`sendInLoop` writes what it can to the socket and appends the rest to `outputBuffer_`; `handleWrite`
writes from the buffer and retrieves what the socket has accepted. Here both work on the vector and
the indices of a `Buffer`, where `TcpConnection/Basic.lean` has the sequence of its bytes. Of the
channel there is only whether it is interested in writable events.

`outbox_refines_iff` says that nothing is lost, duplicated or reordered between the strings that
`sendInLoop` is given and the bytes that `::write` accepts, and that the channel is interested in
writable events exactly while bytes wait, as long as no growth of the buffer overruns its vector.
-/

namespace MuduoRebuild

namespace TcpConnection

open Fallible
open Buffer (CharArray kCheapPrepend kInitialSize)

/-- The sending side of a connection. -/
structure Outbox where
  outputBuffer : Buffer
  isWriting : Bool
  /-- What `::write` has accepted so far. -/
  written : List UInt8

namespace Outbox

/-- A connection that has just been established. -/
def fresh : Outbox := ⟨Buffer.fresh, false, []⟩

/-- `::write`, which accepts at most `n` bytes or fails. -/
def write (s : Outbox) (n : Option ℕ) (data : List UInt8) : Outbox × ℕ :=
  match n with
  | none => (s, 0)
  | some n => ({ s with written := s.written ++ data.take n }, min n data.length)

/-- The first part of `sendInLoop`, and the number of bytes that it has written. -/
def sendDirectly (s : Outbox) (n : Option ℕ) (message : List UInt8) : Outbox × ℕ :=
  if s.isWriting = false ∧ s.outputBuffer.readableBytes = 0 then s.write n message else (s, 0)

def sendInLoop (s : Outbox) (n : Option ℕ) (message : List UInt8) : Except Fault Outbox :=
  let (s, n) := s.sendDirectly n message
  if n < message.length then do
    let outputBuffer ← s.outputBuffer.append (message.drop n)
    return { s with outputBuffer, isWriting := true }
  else return s

def handleWrite (s : Outbox) (n : Option ℕ) : Except Fault Outbox := do
  if s.isWriting then
    let data ← copyOut s.outputBuffer.buffer s.outputBuffer.readIndex s.outputBuffer.readableBytes
    let (s, n) := s.write n data
    if 0 < n then
      let outputBuffer ← s.outputBuffer.retrieve n
      return { s with
        outputBuffer
        isWriting := if outputBuffer.readableBytes = 0 then false else s.isWriting }
    else return s
  else return s

/-- What the loop does with a connection that is open; `n` is what `::write` returns, if it does
not fail. -/
inductive Op where
  | sendInLoop (n : Option ℕ) (message : CharArray)
  | handleWrite (n : Option ℕ)

def step (s : Outbox) : Op → Except Fault Outbox
  | .sendInLoop n message => s.sendInLoop n message.bytes
  | .handleWrite n => s.handleWrite n

/-- The strings that `sendInLoop` has been given. -/
def given (bytes : List UInt8) : Op → List UInt8
  | .sendInLoop _ message => bytes ++ message.bytes
  | .handleWrite _ => bytes

/-- What `sendInLoop` appends to the buffer is no more than a growth leaves room for. -/
def Op.GrowthFits (s : Outbox) : Op → Prop
  | .sendInLoop n message => let n := (s.sendDirectly n message.bytes).2
      n < message.bytes.length → s.outputBuffer.GrowthFits (message.bytes.length - n)
  | .handleWrite _ => True

instance (s : Outbox) (op : Op) : Decidable (op.GrowthFits s) :=
  match op with
  | .sendInLoop .. => inferInstanceAs (Decidable (_ < _ → _))
  | .handleWrite _ => inferInstanceAs (Decidable True)

/-- Every byte that `sendInLoop` has been given is written or waits, in the order in which it was
given, and the channel is interested in writable events while bytes wait. -/
structure Agrees (p : Outbox × List UInt8) : Prop where
  wellFormed : p.1.outputBuffer.WellFormed
  stream : p.1.written ++ p.1.outputBuffer.content = p.2
  isWriting_iff : p.1.isWriting = true ↔ p.1.outputBuffer.content ≠ []

variable {p p' : Outbox × List UInt8} {s s' : Outbox} {n : Option ℕ} {message : List UInt8}

theorem write_spec (s : Outbox) (n : Option ℕ) (data : List UInt8) :
    ∃ m ≤ data.length, s.write n data = ({ s with written := s.written ++ data.take m }, m) := by
  cases n with
  | none => exact ⟨0, Nat.zero_le _, by rw [List.take_zero, List.append_nil]; rfl⟩
  | some n =>
    refine ⟨min n data.length, Nat.min_le_right _ _, ?_⟩
    rw [write]
    rcases Nat.le_total n data.length with hle | hle
    · rw [Nat.min_eq_left hle]
    · rw [Nat.min_eq_right hle, List.take_of_length_le hle, List.take_length]

/-- What is written at once is a prefix of the message, and only if nothing waits. -/
theorem sendDirectly_spec (s : Outbox) (n : Option ℕ) (message : List UInt8) :
    ∃ m ≤ message.length,
      s.sendDirectly n message = ({ s with written := s.written ++ message.take m }, m) ∧
      (0 < m → s.isWriting = false ∧ s.outputBuffer.readableBytes = 0) := by
  rw [sendDirectly]
  split_ifs with hidle
  · obtain ⟨m, hm, hwrite⟩ := write_spec s n message
    exact ⟨m, hm, hwrite, fun _ => hidle⟩
  · refine ⟨0, Nat.zero_le _, ?_, fun h => absurd h (Nat.lt_irrefl 0)⟩
    rw [List.take_zero, List.append_nil]

/-- Where bytes are written at once, nothing waits. -/
theorem Agrees.content_eq_nil (h : Agrees p) (hidle : p.1.outputBuffer.readableBytes = 0) :
    p.1.outputBuffer.content = [] := by
  rw [← List.length_eq_zero_iff, Buffer.length_content h.wellFormed, hidle]

/-- The message goes behind what waits. -/
theorem Agrees.stream_append (h : Agrees p) {m : ℕ}
    (hidle : 0 < m → p.1.outputBuffer.readableBytes = 0) :
    (p.1.written ++ message.take m) ++ (p.1.outputBuffer.content ++ message.drop m) =
      p.2 ++ message := by
  rcases Nat.eq_zero_or_pos m with rfl | hpos
  · rw [List.take_zero, List.append_nil, List.drop_zero, ← List.append_assoc, h.stream]
  · have hempty := h.content_eq_nil (hidle hpos)
    have hstream := h.stream
    rw [hempty, List.append_nil] at hstream
    rw [hempty, List.nil_append, hstream, List.append_assoc, List.take_append_drop]

theorem Agrees.sendInLoop (h : Agrees p) (hmax : message.length ≤ maxSize)
    (hfits : (p.1.sendDirectly n message).2 < message.length →
      p.1.outputBuffer.GrowthFits (message.length - (p.1.sendDirectly n message).2)) :
    p.1.sendInLoop n message = .error .lengthError ∨
      ∃ s, p.1.sendInLoop n message = .ok s ∧ Agrees (s, p.2 ++ message) := by
  obtain ⟨m, hm, hdirect, hidle⟩ := sendDirectly_spec p.1 n message
  rw [hdirect] at hfits
  rw [Outbox.sendInLoop, hdirect]
  dsimp only at hfits ⊢
  have hstream : (p.1.written ++ message.take m) ++ (p.1.outputBuffer.content ++ message.drop m) =
      p.2 ++ message := h.stream_append fun hpos => (hidle hpos).2
  by_cases hlt : m < message.length
  · rw [if_pos hlt]
    have hdrop : (message.drop m).length = message.length - m := List.length_drop
    have hgrowth := hfits hlt
    rw [← hdrop] at hgrowth
    rcases Buffer.append_spec h.wellFormed (by omega) hgrowth with
      ⟨b, happend, hwf, -, -, hcontent⟩ | ⟨herror, -⟩
    · rw [happend, ok_bind]
      refine .inr ⟨_, rfl, hwf, ?_, iff_of_true rfl ?_⟩
      · change _ ++ b.content = _
        rw [hcontent, hstream]
      · change b.content ≠ []
        rw [hcontent, ← List.length_pos_iff, List.length_append]
        omega
    · rw [herror]
      exact .inl rfl
  · -- the whole message has been written
    rw [if_neg hlt]
    have hall : message.drop m = [] := List.drop_eq_nil_of_le (Nat.not_lt.mp hlt)
    rw [hall, List.append_nil] at hstream
    exact .inr ⟨_, rfl, h.wellFormed, hstream, h.isWriting_iff⟩

/-- A growth that leaves no room does not return. -/
theorem Agrees.growthFits_of_sendInLoop (h : Agrees p) (hmax : message.length ≤ maxSize)
    (hok : p.1.sendInLoop n message = .error .lengthError ∨
      ∃ s, p.1.sendInLoop n message = .ok s)
    (hlt : (p.1.sendDirectly n message).2 < message.length) :
    p.1.outputBuffer.GrowthFits (message.length - (p.1.sendDirectly n message).2) := by
  by_contra hgrowth
  obtain ⟨m, hm, hdirect, -⟩ := sendDirectly_spec p.1 n message
  rw [Outbox.sendInLoop, hdirect] at hok
  rw [hdirect] at hlt hgrowth
  dsimp only at hlt hgrowth hok
  rw [if_pos hlt] at hok
  rw [← List.length_drop] at hgrowth
  have hle : (message.drop m).length ≤ maxSize := by
    rw [List.length_drop]
    omega
  rcases Buffer.append_fault h.wellFormed hle hgrowth with herror | herror <;>
    rw [herror] at hok <;>
    rcases hok with hok | ⟨s, hok⟩ <;>
    cases hok

/-- `handleWrite` does not fault: what it retrieves is what `::write` has accepted. -/
theorem Agrees.handleWrite (h : Agrees p) (n : Option ℕ) :
    ∃ s, p.1.handleWrite n = .ok s ∧ Agrees (s, p.2) := by
  rw [Outbox.handleWrite]
  split_ifs with hwriting
  · rw [Buffer.copyOut_content h.wellFormed, ok_bind]
    obtain ⟨m, hm, hwrite⟩ := write_spec p.1 n p.1.outputBuffer.content
    rw [hwrite]
    dsimp only
    split_ifs with hpos
    · have hfits : m ≤ p.1.outputBuffer.readableBytes :=
        hm.trans (Buffer.length_content h.wellFormed).le
      obtain ⟨b, hretrieve, hwf, -, hcontent⟩ := Buffer.retrieve_spec h.wellFormed hfits
      rw [hretrieve, ok_bind]
      refine ⟨_, rfl, hwf, ?_, ?_⟩
      · change (_ ++ _) ++ b.content = _
        rw [hcontent, List.append_assoc, List.take_append_drop, h.stream]
      · change (if b.readableBytes = 0 then false else p.1.isWriting) = true ↔ b.content ≠ []
        have hempty_iff : b.readableBytes = 0 ↔ b.content = [] := by
          rw [← Buffer.length_content hwf, List.length_eq_zero_iff]
        split_ifs with hempty
        · exact iff_of_false id (not_not_intro (hempty_iff.mp hempty))
        · exact iff_of_true hwriting (hempty ∘ hempty_iff.mpr)
    · -- `::write` has accepted nothing
      obtain rfl : m = 0 := Nat.eq_zero_of_not_pos hpos
      refine ⟨_, rfl, h.wellFormed, ?_, h.isWriting_iff⟩
      change (_ ++ _) ++ _ = _
      rw [List.take_zero, List.append_nil, h.stream]
  · exact ⟨p.1, rfl, h⟩

theorem agrees_fresh : Agrees (fresh, []) where
  wellFormed := Buffer.wellFormed_fresh
  stream := Buffer.content_fresh
  isWriting_iff := iff_of_false Bool.false_ne_true (not_not_intro Buffer.content_fresh)

/-- The operation returns, with every byte in its place, or the vector would exceed its largest
size. In particular no write leaves the vector. -/
def Faithful (_ : Outbox × List UInt8) (_ : Op)
    (r : Except Fault (Outbox × List UInt8)) : Prop :=
  r = .error .lengthError ∨ Machine.Succeeds Agrees r

/-- One operation: it is faithful exactly when its growth fits. -/
theorem Agrees.faithful_iff (h : Agrees p) (op : Op) :
    Faithful p op (Machine.lockstep step given p op) ↔ op.GrowthFits p.1 := by
  cases op with
  | sendInLoop n message =>
    constructor
    · intro hfaith
      refine h.growthFits_of_sendInLoop message.length_le ?_
      rcases hfaith with herror | ⟨p', hok, -⟩
      · refine .inl ?_
        cases hsend : p.1.sendInLoop n message.bytes with
        | ok s =>
          rw [Machine.lockstep, step, hsend] at herror
          cases herror
        | error e =>
          rw [Machine.lockstep, step, hsend] at herror
          exact congrArg _ (Except.error.inj herror)
      · exact .inr ⟨p'.1, (Machine.lockstep_eq_ok.mp hok).1⟩
    · intro hfits
      rcases h.sendInLoop message.length_le hfits with herror | ⟨s, hok, hagrees⟩
      · refine .inl ?_
        rw [Machine.lockstep, step, herror]
        rfl
      · exact .inr ⟨(s, given p.2 (.sendInLoop n message)),
          Machine.lockstep_eq_ok.mpr ⟨hok, rfl⟩, hagrees⟩
  | handleWrite n =>
    obtain ⟨s, hok, hagrees⟩ := h.handleWrite n
    exact iff_of_true (.inr ⟨(s, given p.2 (.handleWrite n)),
      Machine.lockstep_eq_ok.mpr ⟨hok, rfl⟩, hagrees⟩) trivial

/-- **The sending side of a connection is faithful exactly while the growths of its buffer fit.**
Whatever `sendInLoop` is given and `::write` accepts, every byte is written or waits in the buffer,
in the order in which it was given, and the channel is interested in writable events exactly while
bytes wait, if and only if every `append` that grows the vector of `outputBuffer_` finds
`writeIndex ≤ writableBytes()`. -/
theorem outbox_refines_iff (ops : List Op) :
    Machine.Along (Machine.lockstep step given) Faithful (fresh, []) ops ↔
      Machine.Along step (Machine.onInput fun s op => op.GrowthFits s) fresh ops := by
  have hgrowth : Machine.Along (Machine.lockstep step given) Faithful (fresh, []) ops ↔
      Machine.Along (Machine.lockstep step given) (Machine.onInput fun p op => op.GrowthFits p.1)
        (fresh, []) ops := by
    refine Machine.along_iff_along agrees_fresh (fun p op h => h.faithful_iff op) ?_
    intro p op p' h hfaith hok
    rcases hfaith with herror | ⟨p'', hok', hagrees⟩
    · rw [hok] at herror
      cases herror
    · rw [hok] at hok'
      exact Except.ok.inj hok' ▸ hagrees
  exact hgrowth.trans Machine.along_lockstep_onInput

/-! ### How much can wait -/

/-- The length of the string that an operation brings. -/
def Op.length : Op → ℕ
  | .sendInLoop _ message => message.bytes.length
  | .handleWrite _ => 0

/-- The vector is not larger than growths for strings of at most `limit` bytes have made it. -/
structure Bounded (limit : ℕ) (s : Outbox) : Prop where
  wellFormed : s.outputBuffer.WellFormed
  head_room : kCheapPrepend ≤ s.outputBuffer.readIndex
  length_le : s.outputBuffer.buffer.length ≤ max (kCheapPrepend + kInitialSize) (2 * limit - 1)

variable {limit : ℕ}

theorem bounded_fresh (limit : ℕ) : Bounded limit fresh where
  wellFormed := Buffer.wellFormed_fresh
  head_room := le_rfl
  length_le := Buffer.length_fresh.le.trans (le_max_left _ _)

/-- The content lies behind the reserved head. -/
theorem Bounded.content_le (h : Bounded limit s) :
    s.outputBuffer.content.length ≤ max kInitialSize (2 * limit - 1 - kCheapPrepend) := by
  have hlow := h.head_room
  have hwrite := h.wellFormed.write_le
  have hsize := h.length_le
  rw [Buffer.length_content h.wellFormed, Buffer.readableBytes_eq h.wellFormed]
  omega

theorem Bounded.append (h : Bounded limit s) {b : Buffer} (hlimit : message.length ≤ limit)
    (hok : s.outputBuffer.append message = .ok b) (isWriting : Bool) (written : List UInt8) :
    Bounded limit ⟨b, isWriting, written⟩ := by
  have hmax : message.length ≤ maxSize := Buffer.length_le_of_append h.wellFormed.length_le hok
  have hsize := Buffer.length_append_le hok
  have hbound := h.length_le
  rcases Buffer.append_spec h.wellFormed hmax (Buffer.growthFits_of_append h.wellFormed hok) with
    ⟨b', hok', hwf, -, hlow, -⟩ | ⟨herror, -⟩
  · obtain rfl := Except.ok.inj (hok.symm.trans hok')
    refine ⟨hwf, ?_, ?_⟩
    · rwa [Nat.min_eq_left h.head_room] at hlow
    · dsimp only
      omega
  · cases hok.symm.trans herror

theorem Bounded.sendInLoop (h : Bounded limit s) (hlimit : message.length ≤ limit)
    (hok : s.sendInLoop n message = .ok s') : Bounded limit s' := by
  obtain ⟨m, hm, hdirect, -⟩ := sendDirectly_spec s n message
  rw [Outbox.sendInLoop, hdirect] at hok
  dsimp only at hok
  split_ifs at hok with hlt
  · obtain ⟨b, happend, heq⟩ := bind_eq_ok.mp hok
    cases heq
    refine h.append ?_ happend _ _
    rw [List.length_drop]
    omega
  · cases hok
    exact ⟨h.wellFormed, h.head_room, h.length_le⟩

/-- What is retrieved leaves the vector as it is. -/
theorem Bounded.handleWrite (h : Bounded limit s) (hok : s.handleWrite n = .ok s') :
    Bounded limit s' := by
  rw [Outbox.handleWrite] at hok
  split_ifs at hok with hwriting
  · rw [Buffer.copyOut_content h.wellFormed, ok_bind] at hok
    obtain ⟨m, hm, hwrite⟩ := write_spec s n s.outputBuffer.content
    rw [hwrite] at hok
    dsimp only at hok
    split_ifs at hok with hpos
    · have hfits : m ≤ s.outputBuffer.readableBytes :=
        hm.trans (Buffer.length_content h.wellFormed).le
      obtain ⟨b, hretrieve, hwf, hsize, -⟩ := Buffer.retrieve_spec h.wellFormed hfits
      have hindex := Buffer.retrieve_eq h.wellFormed hfits
      obtain rfl := Except.ok.inj (hretrieve.symm.trans hindex)
      rw [hretrieve, ok_bind] at hok
      cases hok
      exact ⟨hwf, Nat.le_add_right_of_le h.head_room, h.length_le⟩
    · cases hok
      exact ⟨h.wellFormed, h.head_room, h.length_le⟩
  · cases hok
    exact h

theorem Bounded.step (h : Bounded limit s) {op : Op} (hlimit : op.length ≤ limit)
    (hok : step s op = .ok s') : Bounded limit s' := by
  cases op with
  | sendInLoop n message => exact h.sendInLoop hlimit hok
  | handleWrite n => exact h.handleWrite hok

/-- **How much can wait.** In every state that a connection reaches, whatever `::write` accepts and
when, no more bytes wait in its output buffer than the initial size of a buffer, or twice the length
of the longest string that `sendInLoop` has been given, less nine bytes: the connection does not
survive a growth beyond that. -/
theorem backlog_le {ops : List Op} (hlimit : ∀ op ∈ ops, op.length ≤ limit)
    (hrun : Machine.run step fresh ops = .ok s) :
    s.outputBuffer.content.length ≤ max kInitialSize (2 * limit - 1 - kCheapPrepend) := by
  have halong : Machine.Along step (Machine.onResult (Machine.UnlessFault (Bounded limit)))
      fresh ops :=
    (Machine.along_onInput hlimit).of_invariant (Bounded limit) (bounded_fresh limit)
      (fun s op h hop s' hok => h.step hop hok) fun s op s' h hop hok => h.step hop hok
  exact (halong.of_run_eq_ok (bounded_fresh limit) hrun).content_le

/-- The socket accepts one byte of three. -/
theorem backlog_le_short : ∃ s,
    Machine.run step fresh [.sendInLoop (some 1) ⟨[1, 2, 3], by decide⟩] = .ok s ∧
    s.outputBuffer.content = [2, 3] ∧ s.outputBuffer.content.length ≤ 1024 := by
  have hroom : ([2, 3] : List UInt8).length ≤ Buffer.fresh.writableBytes := by
    rw [Buffer.writableBytes_eq Buffer.wellFormed_fresh, Buffer.length_fresh]
    decide
  obtain ⟨b, happend, -, -, -, hcontent⟩ := Buffer.append_of_ensureWritable
    (Buffer.ensureWritable_of_le hroom) Buffer.wellFormed_fresh hroom
  have hrun : Machine.run step fresh [.sendInLoop (some 1) ⟨[1, 2, 3], by decide⟩] =
      .ok ⟨b, true, [1]⟩ := by
    refine Machine.run_cons_ok ?_
    change (Buffer.fresh.append [2, 3] >>= fun b => .ok (⟨b, true, [1]⟩ : Outbox)) = _
    rw [happend, ok_bind]
  refine ⟨_, hrun, ?_, ?_⟩
  · exact hcontent.trans (congrArg (· ++ _) Buffer.content_fresh)
  · exact @backlog_le _ 3 _ (by decide) hrun

end Outbox

end TcpConnection

end MuduoRebuild
