import MuduoRebuild.Foundations.Run
import MuduoRebuild.Buffer.Operations

/-!
# `Buffer` against an ideal byte queue

A client of `Buffer` sees a byte queue with two ends: `append` adds at the back, `prepend` at
the front, `retrieve` drops from the front. `Ideal` is that queue, `Session` is the buffer as
its clients use it (with the strings `retrieveAsString` has returned so far), and the two are
run side by side on the same operations.

`buffer_refines_ideal_iff` says for which sequences of operations the buffer is the ideal
queue: exactly those in which every growing `append` finds `writeIndex ≤ writableBytes()`
(`Buffer.GrowthFits`). `buffer_overruns` is a sequence of two appends outside that class.
-/

namespace MuduoRebuild

namespace Buffer

/-- The bytes of a C++ array object, which has at most `PTRDIFF_MAX` bytes. -/
structure CharArray where
  bytes : List UInt8
  length_le : bytes.length ≤ maxSize

/-- The operations of a client. -/
inductive Op where
  | append (data : CharArray)
  | prepend (data : List UInt8)
  | retrieve (len : ℕ)
  | retrieveAll
  | retrieveAsString

/-- What a client may call: `prepend` and `retrieve` assert that the length fits. -/
def Op.Admissible (b : Buffer) : Op → Prop
  | .append _ => True
  | .prepend data => data.length ≤ b.prependableBytes
  | .retrieve len => len ≤ b.readableBytes
  | .retrieveAll => True
  | .retrieveAsString => True

/-- Every `append` that grows the vector leaves room for its bytes. -/
def Op.GrowthFits (b : Buffer) : Op → Prop
  | .append data => b.GrowthFits data.bytes.length
  | _ => True

/-- A buffer in use, with the strings it has returned. -/
structure Session where
  buf : Buffer
  returned : List (List UInt8)
  deriving DecidableEq

def Session.fresh : Session := ⟨Buffer.fresh, []⟩

def Session.step (s : Session) : Op → Except Fault Session
  | .append data => do return { s with buf := ← s.buf.append data.bytes }
  | .prepend data => do return { s with buf := ← s.buf.prepend data }
  | .retrieve len => do return { s with buf := ← s.buf.retrieve len }
  | .retrieveAll => return { s with buf := s.buf.retrieveAll }
  | .retrieveAsString => do
    let (str, buf) ← s.buf.retrieveAsString
    return ⟨buf, s.returned ++ [str]⟩

/-- The ideal byte queue, with the strings it has returned. -/
structure Ideal where
  bytes : List UInt8
  returned : List (List UInt8)

def Ideal.empty : Ideal := ⟨[], []⟩

def Ideal.step (q : Ideal) : Op → Ideal
  | .append data => { q with bytes := q.bytes ++ data.bytes }
  | .prepend data => { q with bytes := data ++ q.bytes }
  | .retrieve len => { q with bytes := q.bytes.drop len }
  | .retrieveAll => { q with bytes := [] }
  | .retrieveAsString => ⟨[], q.returned ++ [q.bytes]⟩

/-- The buffer in use and the ideal queue agree, and the buffer has its layout. -/
structure Agree (p : Session × Ideal) : Prop where
  read_le : p.1.buf.readIndex ≤ p.1.buf.writeIndex
  write_le : p.1.buf.writeIndex ≤ p.1.buf.buffer.length
  content : p.1.buf.content = p.2.bytes
  returned : p.1.returned = p.2.returned

/-- An admissible operation is carried out as on the ideal queue, or throws
`std::length_error` because the vector would exceed `max_size()`. In particular no assert
fails and no write leaves the vector. -/
def Faithful (p : Session × Ideal) (op : Op) (r : Except Fault (Session × Ideal)) : Prop :=
  op.Admissible p.1.buf → r = .error .lengthError ∨ Machine.Succeeds Agree r

/-- The invariant of the joint run. -/
structure Joint (p : Session × Ideal) : Prop where
  wellFormed : p.1.buf.WellFormed
  head_room : kCheapPrepend ≤ p.1.buf.buffer.length
  content : p.1.buf.content = p.2.bytes
  returned : p.1.returned = p.2.returned

theorem Joint.agree {p : Session × Ideal} (h : Joint p) : Agree p :=
  ⟨h.wellFormed.read_le, h.wellFormed.write_le, h.content, h.returned⟩

theorem joint_fresh : Joint (Session.fresh, Ideal.empty) where
  wellFormed := wellFormed_fresh
  head_room := by
    change kCheapPrepend ≤ Buffer.fresh.buffer.length
    rw [length_fresh]
    exact Nat.le_add_right _ _
  content := content_fresh
  returned := rfl

open Fallible (ok_bind error_bind pure_eq_ok)

/-- One operation: an admissible operation whose growth fits keeps the joint invariant. -/
theorem Joint.step {p : Session × Ideal} {op : Op} (h : Joint p) (hadm : op.Admissible p.1.buf)
    (hfits : op.GrowthFits p.1.buf) :
    Machine.lockstep Session.step Ideal.step p op = .error .lengthError ∨
      Machine.Succeeds Joint (Machine.lockstep Session.step Ideal.step p op) := by
  obtain ⟨⟨b, outs⟩, q⟩ := p
  obtain ⟨hwf, hroom, hcont, hret⟩ := h
  cases op with
  | append data =>
    rcases append_spec hwf data.length_le hfits with ⟨b', hb, hwf', hle, -, hcont'⟩ | ⟨herr, -⟩
    · refine .inr ⟨(⟨b', outs⟩, q.step (.append data)),
        Machine.lockstep_eq_ok.mpr ⟨?_, rfl⟩, hwf', hroom.trans hle, ?_, hret⟩
      · simp only [Session.step, hb, ok_bind, pure_eq_ok]
      · rw [hcont', hcont, Ideal.step]
    · refine .inl ?_
      simp only [Machine.lockstep, Session.step, herr, error_bind, Except.map]
  | prepend data =>
    obtain ⟨b', hb, hwf', hlen, hcont'⟩ := prepend_spec hwf hadm
    refine .inr ⟨(⟨b', outs⟩, q.step (.prepend data)),
      Machine.lockstep_eq_ok.mpr ⟨?_, rfl⟩, hwf', hroom.trans hlen.ge, ?_, hret⟩
    · simp only [Session.step, hb, ok_bind, pure_eq_ok]
    · rw [hcont', hcont, Ideal.step]
  | retrieve len =>
    obtain ⟨b', hb, hwf', hlen, hcont'⟩ := retrieve_spec hwf hadm
    refine .inr ⟨(⟨b', outs⟩, q.step (.retrieve len)),
      Machine.lockstep_eq_ok.mpr ⟨?_, rfl⟩, hwf', hroom.trans hlen.ge, ?_, hret⟩
    · simp only [Session.step, hb, ok_bind, pure_eq_ok]
    · rw [hcont', hcont, Ideal.step]
  | retrieveAll =>
    exact .inr ⟨(⟨b.retrieveAll, outs⟩, q.step .retrieveAll),
      Machine.lockstep_eq_ok.mpr ⟨rfl, rfl⟩, wellFormed_retrieveAll hwf hroom, hroom,
      content_retrieveAll b, hret⟩
  | retrieveAsString =>
    refine .inr ⟨(⟨b.retrieveAll, outs ++ [b.content]⟩, q.step .retrieveAsString),
      Machine.lockstep_eq_ok.mpr ⟨?_, rfl⟩, wellFormed_retrieveAll hwf hroom, hroom,
      content_retrieveAll b, ?_⟩
    · simp only [Session.step, retrieveAsString_eq hwf, ok_bind, pure_eq_ok]
    · change outs ++ [b.content] = q.returned ++ [q.bytes]
      exact congrArg₂ (fun l x => l ++ [x]) hret hcont

/-- An operation that is not admissible aborts, so no run goes past it. -/
theorem not_ok_of_not_admissible {p p' : Session × Ideal} {op : Op}
    (hadm : ¬op.Admissible p.1.buf) :
    Machine.lockstep Session.step Ideal.step p op ≠ .ok p' := by
  intro hok
  have hok := (Machine.lockstep_eq_ok.mp hok).1
  cases op with
  | append data => exact hadm trivial
  | prepend data =>
    have hlt : p.1.buf.prependableBytes < data.length := Nat.lt_of_not_le hadm
    simp only [Session.step, prepend_fault hlt, error_bind] at hok
    cases hok
  | retrieve len =>
    have hlt : p.1.buf.readableBytes < len := Nat.lt_of_not_le hadm
    simp only [Session.step, retrieve_fault hlt, error_bind] at hok
    cases hok
  | retrieveAll => exact hadm trivial
  | retrieveAsString => exact hadm trivial

/-- On the joint invariant, an operation is carried out faithfully exactly when its growth
fits. -/
theorem Joint.faithful_iff {p : Session × Ideal} {op : Op} (h : Joint p) :
    Faithful p op (Machine.lockstep Session.step Ideal.step p op) ↔ op.GrowthFits p.1.buf := by
  constructor
  · intro hfaith
    by_contra hfits
    -- the growth of other operations always fits
    obtain ⟨data, rfl⟩ : ∃ data, op = .append data := by
      cases op with
      | append data => exact ⟨data, rfl⟩
      | _ => exact absurd trivial hfits
    rcases append_fault h.wellFormed data.length_le hfits with herr | herr <;>
    · rcases hfaith trivial with hr | ⟨p', hr, -⟩ <;>
        simp [Machine.lockstep, Session.step, herr, Except.map] at hr
  · intro hfits hadm
    refine (h.step hadm hfits).imp_right ?_
    rintro ⟨p', hp', hj⟩
    exact ⟨p', hp', hj.agree⟩

/-- **`Buffer` is the ideal byte queue exactly on the runs whose growths fit.** For every
sequence of operations from a fresh buffer, all its operations are carried out as on the ideal
queue, with the layout kept and no write outside the vector, if and only if every `append`
that grows the vector finds `writeIndex ≤ writableBytes()`. -/
theorem buffer_refines_ideal_iff (ops : List Op) :
    Machine.Along (Machine.lockstep Session.step Ideal.step) Faithful
        (Session.fresh, Ideal.empty) ops ↔
      Machine.Along Session.step (Machine.onInput fun s op => op.GrowthFits s.buf)
        Session.fresh ops := by
  refine (Machine.along_iff_along joint_fresh (fun p op h => h.faithful_iff) ?_).trans
    Machine.along_lockstep_onInput
  intro p op p' h hfaith hok
  -- a faithful operation that returns is one that keeps the joint invariant
  by_cases hadm : op.Admissible p.1.buf
  · rcases h.step hadm (h.faithful_iff.mp hfaith) with herr | ⟨p'', hp'', hj⟩
    · rw [herr] at hok
      cases hok
    · rw [hp''] at hok
      cases hok
      exact hj
  · exact absurd hok (not_ok_of_not_admissible hadm)

/-- `n` zero bytes. -/
def CharArray.zeros (n : ℕ) (h : n ≤ maxSize) : CharArray :=
  ⟨List.replicate n 0, by rwa [List.length_replicate]⟩

/-- The two appends of the failing run: 1000 bytes, then 100. -/
def overrun : List Op :=
  [.append (.zeros 1000 (by decide)), .append (.zeros 100 (by decide))]

/-- **Two appends overrun the vector.** After 1000 bytes, 24 cells are left; appending 100
more resizes the vector to `24 + 100 = 124` cells and writes from position 1008 on. -/
theorem buffer_overruns :
    Machine.run Session.step Session.fresh overrun = .error .outOfBounds ∧
      ¬∀ ops, Machine.Along (Machine.lockstep Session.step Ideal.step) Faithful
        (Session.fresh, Ideal.empty) ops := by
  have hrun : Machine.run Session.step Session.fresh overrun = .error .outOfBounds := by
    decide +kernel
  refine ⟨hrun, ?_⟩
  intro hall
  have hboth : Machine.run (Machine.lockstep Session.step Ideal.step)
      (Session.fresh, Ideal.empty) overrun = .error .outOfBounds := by
    rw [Machine.run_lockstep, hrun]
    rfl
  obtain ⟨p, op, hop, hfaith⟩ := (hall overrun).exists_of_run_eq_error hboth
  have hadm : op.Admissible p.1.buf := by
    rcases List.mem_pair.mp hop with rfl | rfl <;> trivial
  rcases hfaith hadm with herr | ⟨p', hp', -⟩
  · cases herr
  · cases hp'

end Buffer

end MuduoRebuild
