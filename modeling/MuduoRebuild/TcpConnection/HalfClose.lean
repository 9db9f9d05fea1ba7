import MuduoRebuild.TcpConnection.Quiescence

/-!
# Everything is written before the connection is half-closed

`shutdown` closes the connection for writing when nothing is left to write: at once in
`shutdownInLoop`, or in `handleWrite` when the output buffer has been drained. `HalfClosed` says
what this is to achieve: a message whose `send` had returned when `shutdown` was called has been
written, and nothing is written afterwards.

Both places look at the output buffer only. A message that another thread has handed to the loop
is not there before its functor runs, and `shutdown` in the loop's thread does not wait in the
queue: it overtakes the functor. A drained buffer overtakes it too, once a thread has set
`kDisconnecting`. `Patient` excludes that the socket is shut down while a message is on its way.
-/

namespace MuduoRebuild

namespace TcpConnection

open Fallible Mailbox History

variable {c : Setup}

/-! ### What is to be written -/

/-- The messages of a thread up to one whose `send` had returned when a `shutdown` began. -/
inductive SentBefore (t : Thread) : List Event → List (List UInt8) → Prop where
  | intro {pre mid post : List Event} {payload : Payload} {t' : Thread} (h : .returned t ∈ mid) :
    SentBefore t (pre ++ .called t (.send payload) :: mid ++ .called t' .shutdown :: post)
      (messagesOf t (requested pre) ++ [payload.message])

/-- All that is to be written before the socket is shut down has been written. -/
structure Flushed (log : List Event) : Prop where
  /-- The socket has accepted the executed messages. -/
  accepted_eq : accepted log = ((executed log).map Prod.snd).flatten
  /-- Of each thread the messages sent before a `shutdown` have been executed. -/
  executed_prefix : ∀ t messages, SentBefore t log messages →
    messages.flatten <+: (messagesOf t (executed log)).flatten

/-- The socket is shut down after everything has been written, and nothing is written after
that. -/
structure HalfClosed (log : List Event) : Prop where
  flushed : Whenever .shutdownWrite Flushed log
  silent : ∀ data n, data ≠ [] → Whenever (.wrote data n) (.shutdownWrite ∉ ·) log

/-- Before any close, every half-close was in order. -/
def HalfCloses (w : World) : Prop := .close ∉ w.log → HalfClosed w.log

theorem halfClosed_nil : HalfClosed [] := ⟨whenever_nil, fun _ _ _ => whenever_nil⟩

theorem requested_prefix {t : Thread} {log : List Event} {messages : List (List UInt8)}
    (h : SentBefore t log messages) : messages <+: messagesOf t (requested log) := by
  obtain @⟨pre, mid, post, payload, t', -⟩ := h
  have hcalled : requested (.called t (.send payload) :: mid ++ .called t' .shutdown :: post) =
      (t, payload.message) :: requested (mid ++ .called t' .shutdown :: post) := rfl
  rw [List.append_assoc, requested_append, hcalled, messagesOf_append, messagesOf_cons, if_pos rfl]
  refine (List.prefix_append_right_inj _).mpr ?_
  exact List.cons_prefix_cons.mpr ⟨rfl, List.nil_prefix⟩

section Log

variable {log es : List Event} {e : Event}

/-- Events that are neither a half-close nor a write of any byte. -/
def Event.isPlain : Event → Bool
  | .shutdownWrite => false
  | .wrote data _ => data.isEmpty
  | _ => true

theorem HalfClosed.append (h : HalfClosed log) (hes : ∀ e ∈ es, e.isPlain = true) :
    HalfClosed (log ++ es) := by
  refine ⟨h.flushed.append fun hmem => ?_, fun data n hdata => (h.silent data n hdata).append ?_⟩
  · cases hes _ hmem
  · intro hmem
    exact hdata (List.isEmpty_iff.mp (hes _ hmem))

/-- After the socket has been shut down only an empty message is written. -/
theorem HalfClosed.wrote (h : HalfClosed log) {data : List UInt8}
    (hdata : .shutdownWrite ∈ log → data = []) (n : Option ℕ) :
    HalfClosed (log ++ [.wrote data n]) := by
  refine ⟨h.flushed.append (by simp), fun data' n' hne => (h.silent data' n' hne).concat ?_⟩
  intro heq hmem
  exact hne ((Event.wrote.inj heq).1.trans (hdata hmem))

theorem HalfClosed.shutdownWrite (h : HalfClosed log) (hflushed : Flushed log) :
    HalfClosed (log ++ [.shutdownWrite]) :=
  ⟨h.flushed.concat fun _ => hflushed, fun data n hdata => (h.silent data n hdata).append (by simp)⟩

theorem Setup.isPlain_completed (c : Setup) : ∀ e ∈ c.completed, e.isPlain = true := by
  rw [Setup.completed]
  split_ifs
  · exact List.forall_mem_singleton.mpr rfl
  · exact List.forall_mem_nil _

theorem Setup.shutdownInLoop_not_mem_completion (c : Setup) :
    .shutdownInLoop ∉ c.completion := by
  rw [Setup.completion]
  split_ifs <;> simp

end Log

namespace World

variable {w w' : World} {l : Label}

/-- No byte is on its way from a `send` to its `sendInLoop`. -/
structure Idle (w : World) : Prop where
  waiting : ∀ p ∈ TcpConnection.waiting w.pendingFunctors, p.2 = []
  inCall : ∀ t, ∀ message ∈ w.inCall t, message = []

theorem Idle.of_eq (h : w.Idle)
    (hwaiting : TcpConnection.waiting w'.pendingFunctors = TcpConnection.waiting w.pendingFunctors)
    (hcalls : w'.calls = w.calls) : w'.Idle := by
  constructor
  · rw [hwaiting]
    exact h.waiting
  · rw [inCall_congr hcalls]
    exact h.inCall

/-- When nothing is on its way and what is buffered has been accepted, all has been written. -/
theorem flushed_append (hintact : Intact c w) (hidle : w.Idle) (es : List Event)
    (hexec : executed es = []) (hreq : requested es = []) (hacc : accepted es = w.outputBuffer) :
    Flushed (w.log ++ es) := by
  constructor
  · rw [accepted_append, executed_append, hexec, hacc, List.append_nil]
    exact hintact.streams
  · intro t messages hsent
    have hprefix := requested_prefix hsent
    rw [requested_append, hreq, List.append_nil] at hprefix
    have horder : messagesOf t (requested w.log) = messagesOf t (executed w.log) ++
        messagesOf t (TcpConnection.waiting w.pendingFunctors) ++ w.inCall t := hintact.inOrder t
    have hwaiting : (messagesOf t (TcpConnection.waiting w.pendingFunctors)).flatten = [] := by
      refine List.flatten_eq_nil_iff.mpr fun message hmessage => ?_
      obtain ⟨p, hp, rfl⟩ := List.mem_map.mp hmessage
      exact hidle.waiting p (List.mem_of_mem_filter hp)
    have hcall : (w.inCall t).flatten = [] := List.flatten_eq_nil_iff.mpr (hidle.inCall t)
    obtain ⟨rest, hrest⟩ := hprefix
    refine ⟨rest.flatten, ?_⟩
    rw [← List.flatten_append, hrest, horder, List.flatten_append, List.flatten_append, hwaiting,
      hcall, List.append_nil, List.append_nil, executed_append, hexec, List.append_nil]

/-! ### Patient steps -/

/-- The step shuts the socket down for writing. -/
def ShutsDown (w : World) : Label → Prop
  | .callInLoop _ .shutdown => (w.work = [] ∨ w.work.head? = some .userCode) ∧
      w.state = .kConnected ∧ w.isWriting = false
  | .runFunctor _ => w.work = [] ∧ w.pendingFunctors.head? = some .shutdownInLoop ∧
      w.isWriting = false
  | .runTask n => w.work.head? = some (.handle .write) ∧ w.isWriting = true ∧
      w.outputBuffer.length ≤ n.getD 0 ∧ w.state = .kDisconnecting
  | _ => False

instance (w : World) (l : Label) : Decidable (w.ShutsDown l) :=
  match l with
  | .callInLoop _ .shutdown => inferInstanceAs (Decidable ((w.work = [] ∨
      w.work.head? = some .userCode) ∧ w.state = .kConnected ∧ w.isWriting = false))
  | .runFunctor _ => inferInstanceAs (Decidable (w.work = [] ∧
      w.pendingFunctors.head? = some .shutdownInLoop ∧ w.isWriting = false))
  | .runTask n => inferInstanceAs (Decidable (w.work.head? = some (.handle .write) ∧
      w.isWriting = true ∧ w.outputBuffer.length ≤ n.getD 0 ∧ w.state = .kDisconnecting))
  | .callInLoop _ (.send _) | .callInLoop _ .forceClose | .callInLoop _ .forceCloseWithDelay
  | .call .. | .continueCall _ | .handleEvent _ | .timeout | .removeConnectionInLoop =>
    inferInstanceAs (Decidable False)

/-- The step does not shut the socket down while something is on its way to it. -/
def Patient (w : World) (l : Label) : Prop := w.ShutsDown l → w.Idle

/-! ### What is kept -/

/-- A `shutdownInLoop` is on its way. -/
def Shutting (w : World) : Prop :=
  .shutdownInLoop ∈ w.pendingFunctors ∨ ∃ t, w.calls t = [.runInLoop .shutdownInLoop]

/-- What patient steps keep until the connection is closed. -/
structure Draining (w : World) : Prop where
  writing_iff : w.isWriting = true ↔ w.outputBuffer ≠ []
  shutting : w.Shutting → w.state ≠ .kConnected
  drained : .shutdownWrite ∈ w.log → w.state ≠ .kConnected ∧ w.outputBuffer = [] ∧ w.Idle
  halfClosed : HalfClosed w.log

/-- A step that neither writes nor shuts down, and that does not go back. -/
structure Undisturbed (w w' : World) : Prop where
  output_eq : w'.outputBuffer = w.outputBuffer
  writing_eq : w'.isWriting = w.isWriting
  state : w.state ≠ .kConnected → w'.state ≠ .kConnected
  shutting : w'.Shutting → w.Shutting ∨ w'.state ≠ .kConnected
  idle : w.state ≠ .kConnected → w.Idle → w'.Idle
  log_eq : ∃ es, w'.log = w.log ++ es ∧ ∀ e ∈ es, e.isPlain = true

theorem undisturbed_refl (w : World) : Undisturbed w w :=
  ⟨rfl, rfl, id, .inl, fun _ => id, [], (List.append_nil _).symm, List.forall_mem_nil _⟩

theorem Undisturbed.trans {w'' : World} (h : Undisturbed w w') (h' : Undisturbed w' w'') :
    Undisturbed w w'' := by
  obtain ⟨es, hes, hplain⟩ := h.log_eq
  obtain ⟨es', hes', hplain'⟩ := h'.log_eq
  refine ⟨h'.output_eq.trans h.output_eq, h'.writing_eq.trans h.writing_eq, h'.state ∘ h.state,
    ?_, fun hstate hidle => h'.idle (h.state hstate) (h.idle hstate hidle), es ++ es', ?_, ?_⟩
  · intro hshutting
    rcases h'.shutting hshutting with hmid | hstate
    · exact (h.shutting hmid).imp_right h'.state
    · exact .inr hstate
  · rw [hes', hes, List.append_assoc]
  · intro e he
    exact (List.mem_append.mp he).elim (hplain e) (hplain' e)

theorem Draining.undisturbed (h : Draining w) (hu : Undisturbed w w') : Draining w' := by
  obtain ⟨es, hes, hplain⟩ := hu.log_eq
  refine ⟨?_, ?_, ?_, hes ▸ h.halfClosed.append hplain⟩
  · rw [hu.writing_eq, hu.output_eq]
    exact h.writing_iff
  · intro hshutting
    rcases hu.shutting hshutting with hbefore | hstate
    · exact hu.state (h.shutting hbefore)
    · exact hstate
  · intro hshut
    rw [hes, List.mem_append] at hshut
    obtain ⟨hstate, hout, hidle⟩ := h.drained (hshut.resolve_right fun hmem => by
      cases hplain _ hmem)
    exact ⟨hu.state hstate, hu.output_eq.trans hout, hu.idle hstate hidle⟩

theorem undisturbed_record (w : World) {e : Event} (he : e.isPlain = true) :
    Undisturbed w (w.record e) := by
  exact { undisturbed_refl w with
    idle := fun _ hidle => hidle.of_eq rfl rfl
    log_eq := ⟨[e], rfl, List.forall_mem_singleton.mpr he⟩ }

/-- A functor that is not about the output is queued. -/
theorem undisturbed_queueInLoop (w : World) {f : Functor} (hf : f ≠ .shutdownInLoop)
    (hwaiting : waiting [f] = []) : Undisturbed w (w.queueInLoop f) := by
  refine { undisturbed_refl w with shutting := fun hshutting => .inl ?_, idle := fun _ hidle => ?_ }
  · refine hshutting.imp_left fun hmem => ?_
    exact (List.mem_append.mp hmem).resolve_right fun h => hf (List.mem_singleton.mp h).symm
  · refine hidle.of_eq ?_ rfl
    rw [queueInLoop, waiting_append, hwaiting, List.append_nil]

/-- The first functor is taken out of the queue. -/
theorem undisturbed_pop {f : Functor} {fs : List Functor} (hfs : w.pendingFunctors = f :: fs) :
    Undisturbed w { w with pendingFunctors := fs } := by
  refine { undisturbed_refl w with shutting := fun hshutting => .inl ?_, idle := fun _ hidle => ?_ }
  · refine hshutting.imp_left fun hmem => ?_
    rw [hfs]
    exact List.mem_cons_of_mem f hmem
  · refine ⟨fun p hp => hidle.waiting p ?_, hidle.inCall⟩
    rw [hfs, ← List.singleton_append, waiting_append]
    exact List.mem_append_right _ hp

theorem undisturbed_setState (w : World) : Undisturbed w { w with state := .kDisconnecting } :=
  { undisturbed_refl w with
    state := fun _ => StateE.noConfusion
    shutting := fun _ => .inr StateE.noConfusion
    idle := fun _ hidle => hidle.of_eq rfl rfl }

/-! ### Writing and shutting down -/

theorem Draining.open_of_connected (h : Draining w) (hstate : w.state = .kConnected) :
    .shutdownWrite ∉ w.log := fun hshut => (h.drained hshut).1 hstate

/-- What `sendInLoop` logs keeps the half-close in order, and it does not shut down itself. -/
theorem sending_halfClosed {log es : List Event} {message : List UInt8} {k : ℕ} {fs : List Functor}
    (hsending : Sending c w message k es fs) (h : HalfClosed log)
    (hsent : .shutdownWrite ∈ log → message = []) :
    HalfClosed (log ++ es) ∧ .shutdownWrite ∉ es := by
  cases hsending with
  | buffered => exact ⟨h.append fun _ hmem => (by cases hmem), by simp⟩
  | failed | short => exact ⟨h.wrote hsent _, by simp⟩
  | whole =>
    rw [List.append_cons]
    refine ⟨(h.wrote hsent _).append c.isPlain_completed, ?_⟩
    rw [List.mem_cons, not_or]
    exact ⟨by simp, fun hmem => by cases c.isPlain_completed _ hmem⟩

theorem sending_fs {message : List UInt8} {k : ℕ} {es : List Event} {fs : List Functor}
    (hsending : Sending c w message k es fs) : .shutdownInLoop ∉ fs := by
  cases hsending with
  | whole => exact c.shutdownInLoop_not_mem_completion
  | _ => exact List.not_mem_nil

theorem Draining.sendInLoop (h : Draining w) (htracked : Tracked c.sockfd w.loop) {n : Option ℕ}
    {sender : Thread} {message : List UInt8} (hsent : .shutdownWrite ∈ w.log → message = [])
    (hok : w.sendInLoop c n sender message = .ok w') : Draining w' := by
  obtain ⟨loop, k, es, fs, heq, hsending, -, -, hwriting⟩ :=
    exists_sendInLoop htracked n sender message
  obtain rfl := Except.ok.inj (heq.symm.trans hok)
  have hlog : HalfClosed (w.log ++ [.sent sender message]) :=
    h.halfClosed.append (by simp [Event.isPlain])
  obtain ⟨hclosed, hopen⟩ := sending_halfClosed hsending hlog (by simpa using hsent)
  refine ⟨?_, ?_, ?_, by simpa using hclosed⟩
  · rw [isWriting, hwriting, Bool.or_eq_true, h.writing_iff, decide_eq_true_iff, Ne, Ne,
      List.append_eq_nil_iff, List.drop_eq_nil_iff, not_and_or, not_le]
  · rintro (hmem | hcalls)
    · refine h.shutting (.inl ((List.mem_append.mp hmem).resolve_right ?_))
      exact sending_fs hsending
    · exact h.shutting (.inr hcalls)
  · intro hshut
    have hbefore : .shutdownWrite ∈ w.log := by simpa [hopen] using hshut
    obtain ⟨hstate, hout, hidle⟩ := h.drained hbefore
    refine ⟨hstate, ?_, hidle.of_eq ?_ rfl⟩
    · simp only [hsent hbefore, hout, List.drop_nil, List.append_nil]
    · rw [waiting_append, hsending.rest.1, List.append_nil]

theorem Draining.shutdownInLoop (h : Draining w) (hintact : Intact c w)
    (hstate : w.state ≠ .kConnected) (hidle : w.isWriting = false → w.Idle) :
    Draining w.shutdownInLoop := by
  rw [World.shutdownInLoop]
  split_ifs with hwriting
  · exact h
  · rw [Bool.not_eq_true] at hwriting
    have hout : w.outputBuffer = [] := by
      by_contra hne
      rw [h.writing_iff.mpr hne] at hwriting
      cases hwriting
    have hflushed := flushed_append hintact (hidle hwriting) [] rfl rfl hout.symm
    rw [List.append_nil] at hflushed
    refine ⟨h.writing_iff, h.shutting, fun _ => ⟨hstate, hout, ?_⟩,
      h.halfClosed.shutdownWrite hflushed⟩
    exact (hidle hwriting).of_eq rfl rfl

/-- `handleWrite` that leaves something in the output buffer. -/
theorem handleWrite_of_lt {n : Option ℕ} (hwriting : w.isWriting = true)
    (hlt : n.getD 0 < w.outputBuffer.length) : w.handleWrite c n = .ok { w with
      outputBuffer := w.outputBuffer.drop (n.getD 0)
      log := w.log ++ [Event.wrote w.outputBuffer n] } := by
  rw [handleWrite, if_pos hwriting]
  rcases n with _ | _ | k
  · rfl
  · simp [write, record]
  · have hmin : min w.outputBuffer.length (k + 1) = k + 1 := Nat.min_eq_right hlt.le
    have hne : ¬(w.outputBuffer.drop (k + 1)).length = 0 := by
      rw [List.length_drop]
      exact Nat.sub_ne_zero_of_lt hlt
    simp only [write, Option.map_some, hmin, record, if_neg hne, Option.getD_some]

/-- `handleWrite` that writes all of the output buffer. -/
theorem handleWrite_of_le {n : Option ℕ} (hwriting : w.isWriting = true)
    (hne : w.outputBuffer ≠ []) (hle : w.outputBuffer.length ≤ n.getD 0) :
    w.handleWrite c n = drained c { w with
      outputBuffer := []
      log := w.log ++ [Event.wrote w.outputBuffer (some w.outputBuffer.length)] } := by
  have hpos := List.length_pos_of_ne_nil hne
  cases n with
  | none => exact absurd hle (Nat.not_le_of_lt hpos)
  | some m =>
    replace hle : w.outputBuffer.length ≤ m := hle
    obtain ⟨k, hk⟩ := Nat.exists_eq_succ_of_ne_zero hpos.ne'
    have hwrite : w.write (some m) w.outputBuffer =
        (w.record (.wrote w.outputBuffer (some (k + 1))), some (k + 1)) := by
      rw [write, Option.map_some, Nat.min_eq_left hle, hk]
    have hdrop : w.outputBuffer.drop (k + 1) = [] := List.drop_of_length_le hk.le
    rw [handleWrite, if_pos hwriting, hwrite, hk]
    simp only [record, hdrop, List.length_nil, if_true]

/-- The last of the output buffer is written, and the socket is shut down if that is due. -/
theorem Draining.drain (h : Draining w) (hintact : Intact c w) (hne : w.outputBuffer ≠ [])
    (hidle : w.state = .kDisconnecting → w.Idle)
    (hok : World.drained c { w with
      outputBuffer := []
      log := w.log ++ [Event.wrote w.outputBuffer (some w.outputBuffer.length)] } = .ok w') :
    Draining w' := by
  have hopen : .shutdownWrite ∉ w.log := fun hshut => hne (h.drained hshut).2.1
  obtain ⟨loop, hdrained, -, -, hnot⟩ := exists_drained (c := c) (w := { w with
    outputBuffer := []
    log := w.log ++ [Event.wrote w.outputBuffer (some w.outputBuffer.length)] })
    hintact.sound.tracked
  obtain rfl := Except.ok.inj (hdrained.symm.trans hok)
  have hwriting : Channel.isWriting (loop.events ()) = true ↔ ([] : List UInt8) ≠ [] := by
    rw [hnot]
    decide
  have hshutting : ∀ fs, fs = w.pendingFunctors ++ c.completion →
      (Functor.shutdownInLoop ∈ fs ∨ ∃ t, w.calls t = [.runInLoop .shutdownInLoop]) →
        w.state ≠ .kConnected := by
    rintro fs rfl hs
    refine h.shutting (hs.imp_left fun hmem => (List.mem_append.mp hmem).resolve_right ?_)
    exact c.shutdownInLoop_not_mem_completion
  have hwritten : HalfClosed (w.log ++
      ([Event.wrote w.outputBuffer (some w.outputBuffer.length)] ++ c.completed)) := by
    rw [← List.append_assoc]
    exact (h.halfClosed.wrote (fun hshut => absurd hshut hopen) _).append c.isPlain_completed
  by_cases hstate : w.state = .kDisconnecting
  · -- all that has been sent is in the socket now
    have hflushed := flushed_append hintact (hidle hstate)
      ([Event.wrote w.outputBuffer (some w.outputBuffer.length)] ++ c.completed)
      c.dataless_completed.2.1 c.dataless_completed.2.2 (by
        rw [accepted_append, c.dataless_completed.accepted_eq]
        simp [accepted, writes])
    refine ⟨hwriting, hshutting _ rfl, fun _ => ⟨?_, rfl, (hidle hstate).of_eq ?_ rfl⟩, ?_⟩
    · rw [hstate]
      decide
    · rw [waiting_append, c.waiting_completion, List.append_nil]
    · simpa [hstate] using hwritten.shutdownWrite hflushed
  · refine ⟨hwriting, hshutting _ rfl, fun hshut => ?_, ?_⟩
    · have hmem : .shutdownWrite ∈ c.completed := by simpa [hstate, hopen] using hshut
      cases c.isPlain_completed _ hmem
    · simpa [hstate] using hwritten

theorem Draining.handleWrite (h : Draining w) (hintact : Intact c w) {n : Option ℕ}
    (hidle : w.isWriting = true → w.outputBuffer.length ≤ n.getD 0 → w.state = .kDisconnecting →
      w.Idle)
    (hok : w.handleWrite c n = .ok w') : Draining w' := by
  by_cases hwriting : w.isWriting = true
  · have hne : w.outputBuffer ≠ [] := h.writing_iff.mp hwriting
    rcases Nat.lt_or_ge (n.getD 0) w.outputBuffer.length with hlt | hle
    · have hopen : .shutdownWrite ∉ w.log := fun hshut => hne (h.drained hshut).2.1
      obtain rfl := Except.ok.inj ((handleWrite_of_lt hwriting hlt).symm.trans hok)
      refine ⟨iff_of_true hwriting ?_, h.shutting, fun hshut => ?_,
        h.halfClosed.wrote (fun hshut => absurd hshut hopen) n⟩
      · rw [Ne, List.drop_eq_nil_iff]
        exact Nat.not_le_of_lt hlt
      · exact absurd (by simpa using hshut) hopen
    · rw [handleWrite_of_le hwriting hne hle] at hok
      exact h.drain hintact hne (hidle hwriting hle) hok
  · rw [World.handleWrite, if_neg hwriting] at hok
    obtain rfl := Except.ok.inj hok
    exact h

/-! ### Calls -/

theorem Intact.quiet (h : Intact c w) (hq : Quiet c w w') : Intact c w' := by
  refine ⟨hq.sound h.sound, h.streams.effect (hq.transfers h.sound).bytes, ?_⟩
  rw [hq.mailbox_eq]
  exact h.inOrder

/-- A call in the loop's thread. -/
theorem Draining.callInLoop (h : Draining w) (hintact : Intact c w) {n : Option ℕ} {call : Call}
    (hidle : call = .shutdown → w.state = .kConnected → w.isWriting = false → w.Idle)
    (hok : w.callInLoop c n call = .ok w') : Draining w' := by
  rw [World.callInLoop] at hok
  split_ifs at hok with hguard
  · obtain ⟨v, hv, hok⟩ := bind_eq_ok.mp hok
    obtain rfl := Except.ok.inj hok
    have hcalled := undisturbed_record w (e := .called .loop call) rfl
    suffices hbody : Draining v from hbody.undisturbed (undisturbed_record v rfl)
    cases call with
    | send payload =>
      rw [Call.body, List.foldlM_cons] at hv
      obtain ⟨u, hu, hv⟩ := bind_eq_ok.mp hv
      obtain rfl := Except.ok.inj hv
      refine (h.undisturbed hcalled).sendInLoop (w := w.record _) hintact.sound.tracked ?_ hu
      intro hshut
      exact absurd (by simpa [record] using hshut) (h.open_of_connected hguard)
    | shutdown =>
      obtain rfl := Except.ok.inj hv
      have hset := hcalled.trans (undisturbed_setState _)
      have hquiet :
          Quiet c w { w.record (.called .loop .shutdown) with state := .kDisconnecting } :=
        { quiet_record hintact.sound.tracked (e := .called .loop .shutdown) rfl with }
      refine (h.undisturbed hset).shutdownInLoop (hintact.quiet hquiet) StateE.noConfusion ?_
      intro hwriting
      exact (hidle rfl hguard hwriting).of_eq rfl rfl
    | forceClose =>
      obtain rfl := Except.ok.inj hv
      have hset := hcalled.trans (undisturbed_setState _)
      exact h.undisturbed (hset.trans (undisturbed_queueInLoop _ (by simp) rfl))
    | forceCloseWithDelay =>
      obtain rfl := Except.ok.inj hv
      have hset := hcalled.trans (undisturbed_setState _)
      exact h.undisturbed (hset.trans { undisturbed_refl _ with
        idle := fun _ hidle => hidle.of_eq rfl rfl })
  · obtain rfl := Except.ok.inj hok
    exact h

theorem undisturbed_call (t : ℕ) (call : Call) : Undisturbed w (w.call t call) := by
  rw [World.call]
  split_ifs with hguard
  · refine Undisturbed.trans ?_ (undisturbed_record _ (e := .called (.other t) call) rfl)
    refine { undisturbed_refl w with shutting := fun hs => .inl ?_, idle := fun hstate hidle => ?_ }
    · refine hs.imp_right ?_
      rintro ⟨u, hu⟩
      refine ⟨u, ?_⟩
      by_cases hut : u = t
      · simp only [hut, Function.update_self] at hu
        cases call <;> cases hu
      · simpa [hut] using hu
    · refine ⟨hidle.waiting, fun u message hmessage => ?_⟩
      rw [inCall_update, Function.update_apply] at hmessage
      split_ifs at hmessage with hut
      · -- a connection that is not connected refuses to send
        cases call with
        | send payload => exact absurd hguard hstate
        | shutdown | forceClose | forceCloseWithDelay => cases hmessage
      · exact hidle.inCall u message hmessage
  · exact undisturbed_refl w

/-- A call sets the state first, if at all, and it ends with a functor. -/
theorem eq_of_suffix_body {t : Thread} {call : Call} {a : Action} {as : List Action}
    (h : a :: as <:+ call.body t) : a = .setState .kDisconnecting ∨
      as = [] ∧ ((∃ f, a = .runInLoop f) ∨ a = .queueInLoop .forceCloseInLoop) := by
  cases call with
  | send payload =>
    rcases List.suffix_cons_iff.mp h with heq | hnil
    · cases heq
      exact .inr ⟨rfl, .inl ⟨_, rfl⟩⟩
    · cases List.suffix_nil.mp hnil
  | shutdown | forceClose | forceCloseWithDelay =>
    rcases List.suffix_cons_iff.mp h with heq | hrest
    · cases heq
      exact .inl rfl
    · rcases List.suffix_cons_iff.mp hrest with heq | hnil
      · cases heq
        exact .inr ⟨rfl, by simp⟩
      · cases List.suffix_nil.mp hnil

/-- An action of a call takes its message from the call to the queue. -/
theorem Idle.perform (h : w.Idle) (hsound : Sound c w) {t : ℕ} {a : Action} {as : List Action}
    (hcalls : w.calls t = a :: as) :
    ({ w with calls := Function.update w.calls t as }.perform a).Idle := by
  obtain ⟨call, hcall⟩ := hsound.calls t
  rw [hcalls] at hcall
  have hcalls' : ({ w with calls := Function.update w.calls t as }.perform a).calls =
      Function.update w.calls t as := by
    cases a <;> rfl
  have hold : w.inCall (.other t) = a.message?.toList ++ as.filterMap Action.message? := by
    rw [World.inCall, hcalls, List.filterMap_cons]
    cases a.message? <;> rfl
  constructor
  · intro p hp
    rw [waiting_perform (hcall.subset List.mem_cons_self), List.mem_append] at hp
    rcases hp with hp | hp
    · exact h.waiting p hp
    · obtain ⟨message, hmessage, rfl⟩ := List.mem_map.mp hp
      refine h.inCall (.other t) message ?_
      rw [hold]
      exact List.mem_append_left _ hmessage
  · intro u message hmessage
    rw [inCall_congr (w := { w with calls := Function.update w.calls t as }) hcalls',
      inCall_update w, Function.update_apply] at hmessage
    split_ifs at hmessage
    · refine h.inCall (.other t) message ?_
      rw [hold]
      exact List.mem_append_right _ hmessage
    · exact h.inCall u message hmessage

theorem undisturbed_perform (hsound : Sound c w) {t : ℕ} {a : Action} {as : List Action}
    (hcalls : w.calls t = a :: as) :
    Undisturbed w ({ w with calls := Function.update w.calls t as }.perform a) := by
  obtain ⟨call, hcall⟩ := hsound.calls t
  rw [hcalls] at hcall
  have hidle : w.state ≠ .kConnected → w.Idle →
      ({ w with calls := Function.update w.calls t as }.perform a).Idle :=
    fun _ hidle => hidle.perform hsound hcalls
  have hshutting : as = [] → ∀ f, a = .runInLoop f ∨ f ≠ .shutdownInLoop →
      ({ w with calls := Function.update w.calls t [] }.queueInLoop f).Shutting → w.Shutting := by
    rintro rfl f hf (hmem | ⟨u, hu⟩)
    · rcases List.mem_append.mp hmem with hbefore | hnew
      · exact .inl hbefore
      · obtain rfl := List.mem_singleton.mp hnew
        obtain rfl := hf.resolve_right (absurd rfl)
        exact .inr ⟨t, hcalls⟩
    · refine .inr ⟨u, ?_⟩
      by_cases hut : u = t
      · simp [queueInLoop, hut] at hu
      · simpa [queueInLoop, hut] using hu
  rcases eq_of_suffix_body hcall with rfl | ⟨rfl, ⟨f, rfl⟩ | rfl⟩
  · exact { undisturbed_refl w with
      state := fun _ => StateE.noConfusion
      shutting := fun _ => .inr StateE.noConfusion
      idle := hidle }
  · exact { undisturbed_refl w with
      shutting := fun hs => .inl (hshutting rfl f (.inl rfl) hs)
      idle := hidle }
  · exact { undisturbed_refl w with
      shutting := fun hs => .inl (hshutting rfl _ (.inr (by simp)) hs)
      idle := hidle }

theorem undisturbed_continueCall (hsound : Sound c w) (t : ℕ) :
    Undisturbed w (w.continueCall t) := by
  rw [World.continueCall]
  split
  · exact undisturbed_refl w
  · next a as hcalls =>
    have hperform := undisturbed_perform hsound hcalls
    dsimp only
    split_ifs
    · exact hperform.trans (undisturbed_record _ rfl)
    · exact hperform

/-! ### The log grows -/

theorem Undisturbed.log_grows (h : Undisturbed w w') : w.log <+: w'.log := by
  obtain ⟨es, hes, -⟩ := h.log_eq
  exact ⟨es, hes.symm⟩

theorem Quiet.log_grows (h : Quiet c w w') : w.log <+: w'.log := by
  obtain ⟨es, hes, -⟩ := h.log_eq
  exact ⟨es, hes.symm⟩

theorem log_grows_sendInLoop (htracked : Tracked c.sockfd w.loop) {n : Option ℕ} {sender : Thread}
    {message : List UInt8} (hok : w.sendInLoop c n sender message = .ok w') :
    w.log <+: w'.log := by
  obtain ⟨loop, k, es, fs, heq, -⟩ := exists_sendInLoop (c := c) htracked n sender message
  obtain rfl := Except.ok.inj (heq.symm.trans hok)
  exact List.prefix_append _ _

theorem log_grows_callInLoop (htracked : Tracked c.sockfd w.loop) {n : Option ℕ} {call : Call}
    (hok : w.callInLoop c n call = .ok w') : w.log <+: w'.log := by
  cases call with
  | send payload =>
    rw [World.callInLoop] at hok
    split_ifs at hok
    · obtain ⟨v, hv, hok⟩ := bind_eq_ok.mp hok
      obtain rfl := Except.ok.inj hok
      rw [Call.body, List.foldlM_cons] at hv
      obtain ⟨u, hu, hv⟩ := bind_eq_ok.mp hv
      obtain rfl := Except.ok.inj hv
      have hsend := log_grows_sendInLoop (w := w.record _) htracked hu
      exact ((List.prefix_append _ _).trans hsend).trans (List.prefix_append _ _)
    · obtain rfl := Except.ok.inj hok
      exact List.prefix_rfl
  | shutdown | forceClose | forceCloseWithDelay =>
    exact (quiet_callInLoop htracked (fun _ hcall => by cases hcall) hok).log_grows

theorem log_grows_runTask (htracked : Tracked c.sockfd w.loop) {n : Option ℕ}
    (hok : w.runTask c n = .ok w') : w.log <+: w'.log := by
  rw [World.runTask] at hok
  split at hok
  · obtain rfl := Except.ok.inj hok
    exact List.prefix_rfl
  · next task work hwork =>
    cases task with
    | handle callback =>
      cases callback with
      | error =>
        obtain rfl := Except.ok.inj hok
        exact List.prefix_rfl
      | close => exact (quiet_handleClose (w := { w with work }) htracked hok).log_grows
      | read => exact (quiet_handleRead (w := { w with work }) htracked hok).log_grows
      | write =>
        obtain ⟨loop, k, es, fs, heq, -⟩ :=
          exists_handleWrite (c := c) (w := { w with work }) htracked n
        obtain rfl := Except.ok.inj (heq.symm.trans hok)
        exact List.prefix_append _ _
    | connCb =>
      obtain rfl := Except.ok.inj hok
      exact List.prefix_append _ _
    | userCode =>
      obtain rfl := Except.ok.inj hok
      exact List.prefix_rfl
    | removeChannel => exact (quiet_removeChannel (w := { w with work }) htracked hok).log_grows

/-- What has happened stays in the log. -/
theorem log_grows_step (hsound : Sound c w) (hok : w.step c l = .ok w') : w.log <+: w'.log := by
  have htracked := hsound.tracked
  rw [World.step] at hok
  split_ifs at hok
  · cases l with
    | callInLoop n call => exact log_grows_callInLoop htracked hok
    | call t call =>
      obtain rfl := Except.ok.inj hok
      exact (undisturbed_call t call).log_grows
    | continueCall t =>
      obtain rfl := Except.ok.inj hok
      exact (undisturbed_continueCall hsound t).log_grows
    | handleEvent revents =>
      obtain rfl := Except.ok.inj hok
      exact List.prefix_rfl
    | runTask n => exact log_grows_runTask htracked hok
    | runFunctor n =>
      simp only [act] at hok
      split at hok
      · next f fs hfs =>
        cases f with
        | sendInLoop sender message =>
          exact log_grows_sendInLoop (w := { w with pendingFunctors := fs }) htracked hok
        | _ =>
          exact (quiet_invoke (w := { w with pendingFunctors := fs }) htracked (by simp)
            hok).log_grows
      · obtain rfl := Except.ok.inj hok
        exact List.prefix_rfl
    | timeout => exact log_grows_callInLoop (w := { w with timers := w.timers - 1 }) htracked hok
    | removeConnectionInLoop =>
      exact (quiet_removeConnectionInLoop (w := { w with removals := w.removals - 1 }) htracked
        hok).log_grows
  · obtain rfl := Except.ok.inj hok
    exact List.prefix_rfl

/-! ### Patient steps keep the half-close in order -/

theorem close_mem_of_handleClose (htracked : Tracked c.sockfd w.loop)
    (hok : w.handleClose c = .ok w') : .close ∈ w'.log := by
  obtain ⟨-, loop, -, -, hrel⟩ := handleClose_eq_ok htracked hok
  rw [hrel.log_eq]
  exact List.mem_append_right _ List.mem_cons_self

/-- A part of the work is done. -/
theorem undisturbed_work (w : World) (work : List Task) : Undisturbed w { w with work } :=
  { undisturbed_refl w with idle := fun _ hidle => hidle.of_eq rfl rfl }

/-- The loop's thread goes on with the handler or the functor in progress. -/
theorem Draining.runTask (h : Draining w) (hintact : Intact c w) (hcustody : InCustody c .owned w)
    {n : Option ℕ} (hpatient : Patient w (.runTask n)) (hok : w.runTask c n = .ok w')
    (hopen : .close ∉ w'.log) : Draining w' := by
  have htracked := hintact.sound.tracked
  rw [World.runTask] at hok
  split at hok
  · obtain rfl := Except.ok.inj hok
    exact h
  · next task work hwork =>
    have hhead : w.work.head? = some task := by rw [hwork, List.head?_cons]
    have hpop := undisturbed_work w work
    cases task with
    | handle callback =>
      cases callback with
      | error =>
        obtain rfl := Except.ok.inj hok
        exact h.undisturbed hpop
      | close =>
        exact absurd (close_mem_of_handleClose (w := { w with work }) htracked hok) hopen
      | read =>
        rcases n with _ | _ | n
        · obtain rfl := Except.ok.inj hok
          exact h.undisturbed hpop
        · exact absurd (close_mem_of_handleClose (w := { w with work }) htracked hok) hopen
        · obtain rfl := Except.ok.inj hok
          have hmessage := undisturbed_record { w with work } (e := .message) rfl
          exact h.undisturbed (hpop.trans (hmessage.trans (undisturbed_work _ _)))
      | write =>
        have hquiet : Quiet c w { w with work } := by
          refine { quiet_refl htracked with work := fun callback hcb => .inl ?_ }
          rw [hwork]
          exact List.mem_cons_of_mem _ hcb
        refine (h.undisturbed hpop).handleWrite (hintact.quiet hquiet) ?_ hok
        intro hwriting hle hstate
        exact (hpatient ⟨hhead, hwriting, hle, hstate⟩).of_eq rfl rfl
    | connCb =>
      obtain rfl := Except.ok.inj hok
      exact h.undisturbed (hpop.trans (undisturbed_record _ rfl))
    | userCode =>
      obtain rfl := Except.ok.inj hok
      exact h.undisturbed hpop
    | removeChannel =>
      have hnone : .removeChannel ∉ w.work := List.count_eq_zero.mp hcustody.removes_eq
      exact absurd (hwork ▸ List.mem_cons_self) hnone

/-- The loop runs a functor of its queue. -/
theorem Draining.runFunctor (h : Draining w) (hintact : Intact c w)
    (hcustody : InCustody c .owned w) (hwork : w.work = []) {n : Option ℕ}
    (hpatient : Patient w (.runFunctor n)) (hok : w.act c (.runFunctor n) = .ok w')
    (hopen : .close ∉ w'.log) : Draining w' := by
  have htracked := hintact.sound.tracked
  simp only [act] at hok
  split at hok
  · next f fs hfs =>
    have hhead : w.pendingFunctors.head? = some f := by rw [hfs, List.head?_cons]
    have hmem : f ∈ w.pendingFunctors := by
      rw [hfs]
      exact List.mem_cons_self
    have hpop := undisturbed_pop hfs
    cases f with
    | connEstablished => exact absurd hmem hcustody.establishes
    | connDestroyed => exact absurd hmem (List.count_eq_zero.mp hcustody.destroys_eq)
    | sendInLoop sender message =>
      refine (h.undisturbed hpop).sendInLoop (w := { w with pendingFunctors := fs }) htracked ?_ hok
      intro hshut
      refine (h.drained hshut).2.2.waiting (sender, message) ?_
      exact List.mem_filterMap.mpr ⟨_, hmem, rfl⟩
    | shutdownInLoop =>
      obtain rfl := Except.ok.inj hok
      have hquiet : Quiet c w { w with pendingFunctors := fs } := by
        refine { quiet_refl htracked with waiting_eq := ?_ }
        rw [hfs]
        rfl
      refine (h.undisturbed hpop).shutdownInLoop (hintact.quiet hquiet) (h.shutting (.inl hmem)) ?_
      intro hwriting
      exact (hpatient ⟨hwork, hhead, hwriting⟩).of_eq hquiet.waiting_eq rfl
    | forceCloseInLoop =>
      rw [invoke, World.forceCloseInLoop] at hok
      split_ifs at hok
      · exact absurd (close_mem_of_handleClose (w := { w with pendingFunctors := fs }) htracked hok)
          hopen
      · obtain rfl := Except.ok.inj hok
        exact h.undisturbed hpop
    | wriComCb =>
      obtain rfl := Except.ok.inj hok
      exact h.undisturbed (hpop.trans (undisturbed_work _ _))
    | addTimerInLoop =>
      obtain rfl := Except.ok.inj hok
      exact h.undisturbed (hpop.trans { undisturbed_refl _ with
        idle := fun _ hidle => hidle.of_eq rfl rfl })
  · obtain rfl := Except.ok.inj hok
    exact h

/-- A patient step that does not close keeps an established connection draining. -/
theorem Draining.step (h : Draining w) (hintact : Intact c w) (hcustody : InCustody c .owned w)
    (hpatient : Patient w l) (hok : w.step c l = .ok w') (hopen : .close ∉ w'.log) :
    Draining w' := by
  have hbefore : .close ∉ w.log := fun hclose =>
    hopen ((log_grows_step hintact.sound hok).mem hclose)
  rw [World.step] at hok
  split_ifs at hok with henabled
  · cases l with
    | callInLoop n call =>
      refine h.callInLoop hintact ?_ hok
      rintro rfl hstate hwriting
      exact hpatient ⟨henabled, hstate, hwriting⟩
    | call t call =>
      obtain rfl := Except.ok.inj hok
      exact h.undisturbed (undisturbed_call t call)
    | continueCall t =>
      obtain rfl := Except.ok.inj hok
      exact h.undisturbed (undisturbed_continueCall hintact.sound t)
    | handleEvent revents =>
      obtain rfl := Except.ok.inj hok
      exact h.undisturbed (undisturbed_work w _)
    | runTask n => exact h.runTask hintact hcustody hpatient hok hopen
    | runFunctor n => exact h.runFunctor hintact hcustody henabled hpatient hok hopen
    | timeout =>
      have hpop : Undisturbed w { w with timers := w.timers - 1 } :=
        { undisturbed_refl w with idle := fun _ hidle => hidle.of_eq rfl rfl }
      have hquiet : Quiet c w { w with timers := w.timers - 1 } :=
        { quiet_refl hintact.sound.tracked with }
      exact (h.undisturbed hpop).callInLoop (hintact.quiet hquiet) (fun hcall => by cases hcall) hok
    | removeConnectionInLoop => exact absurd (hcustody.closed (.inr henabled)) hbefore
  · obtain rfl := Except.ok.inj hok
    exact h

/-! ### The result -/

/-- What holds of a world reached by patient steps. -/
def Steady (c : Setup) (w : World) : Prop :=
  Intact c w ∧ (.close ∈ w.log ∨ w = init ∨ InCustody c .owned w ∧ Draining w)

theorem Steady.halfCloses (h : Steady c w) : HalfCloses w := by
  intro hopen
  rcases h.2 with hclose | rfl | ⟨-, hdraining⟩
  · exact absurd hclose hopen
  · exact halfClosed_nil
  · exact hdraining.halfClosed

/-- Nothing is in the output buffer when the connection has just been established. -/
theorem draining_of_init (hok : init.step c l = .ok w') : w' = init ∨ Draining w' := by
  cases l with
  | runFunctor n =>
    obtain ⟨loop, hloop, -, -, hevents⟩ := exists_update (c := c)
      (w := { init with pendingFunctors := [], state := .kConnected }) (tracked_init _)
      .enableReading
    have hstep : init.step c (.runFunctor n) = .ok { init with
        pendingFunctors := [], state := .kConnected, loop, work := [.connCb, .userCode] } :=
      (bind_of_ok (check_of rfl _) _).trans (bind_of_ok hloop _)
    obtain rfl := Except.ok.inj (hstep.symm.trans hok)
    refine .inr ⟨iff_of_false ?_ (absurd rfl), ?_, fun hshut => (by cases hshut), halfClosed_nil⟩
    · rw [isWriting, hevents]
      decide
    · rintro (hmem | ⟨t, ht⟩)
      · cases hmem
      · cases ht
  | callInLoop n call =>
    refine .inl ?_
    cases call <;> exact (Except.ok.inj hok).symm
  | call t call =>
    refine .inl ?_
    cases call <;> exact (Except.ok.inj hok).symm
  | continueCall | handleEvent | runTask | timeout | removeConnectionInLoop =>
    exact .inl (Except.ok.inj hok).symm

theorem Steady.step (h : Steady c w) (hpatient : Patient w l) (hok : w.step c l = .ok w') :
    Steady c w' := by
  have hintact := h.1.step hok
  refine ⟨hintact, ?_⟩
  by_cases hclose : .close ∈ w'.log
  · exact .inl hclose
  have hbefore : .close ∉ w.log := fun hmem =>
    hclose ((log_grows_step h.1.sound hok).mem hmem)
  rcases h.2 with hmem | rfl | ⟨hcustody, hdraining⟩
  · exact absurd hmem hbefore
  · obtain ⟨v, hv, hnext⟩ := exists_step_init c l
    obtain rfl := Except.ok.inj (hok.symm.trans hv)
    rcases hnext with rfl | ⟨hphase, -⟩
    · exact .inr (.inl rfl)
    · rcases draining_of_init hok with rfl | hdraining
      · exact .inr (.inl rfl)
      · exact .inr (.inr ⟨hphase.inCustody hintact.sound.tracked, hdraining⟩)
  · -- a step that does not close is restful
    have hrestful : Restful c w l := by
      refine ⟨fun hmem => absurd hmem hbefore, fun _ _ _ hcloses => ?_⟩
      obtain ⟨v, -, hloop, -, hstep⟩ := hcloses.exists_step_eq (c := c)
      exact hclose (close_mem_of_handleClose (hloop ▸ h.1.sound.tracked) (hstep.symm.trans hok))
    obtain ⟨k, hcustody', -⟩ := hcustody.step h.1.sound hrestful hok
    have hk : k = .owned := by
      by_contra hne
      exact hclose (hcustody'.closed (.inl hne))
    exact .inr (.inr ⟨hk ▸ hcustody', hdraining.step h.1 hcustody hpatient hok hclose⟩)

end World

open World

/-- **Flush before half-close.** However `send` and `shutdown` are called by any number of threads,
and whatever is written at each time: if no step shuts the socket down while a message is on its
way to it, then in every state reached before a close the socket has been shut down only when
everything sent before was written, and nothing has been written since. -/
theorem flushed_before_half_close (c : Setup) (ls : List Label)
    (h : Machine.Along (World.step c) (Machine.onInput Patient) World.init ls) :
    Machine.Along (World.step c) (Machine.onResult (Machine.UnlessFault HalfCloses)) World.init
      ls := by
  refine Machine.Along.of_invariant (Steady c) ⟨intact_init c, .inr (.inl rfl)⟩ ?_ ?_ h
  · intro w l hw hpatient w' hok
    exact (hw.step hpatient hok).halfCloses
  · intro w l w' hw hpatient hok
    exact hw.step hpatient hok

/-- A connection whose channel has all its callbacks. -/
def wired : Setup := { Setup.client 5 with isSet := fun _ => true }

/-- One of two bytes is written, `shutdown` is called, and the socket becomes writable. -/
def drainedLate : List Label :=
  [.runFunctor none, .runTask none, .runTask none, .callInLoop (some 1) (.send (.string [1, 2])),
    .callInLoop none .shutdown, .handleEvent POLLOUT]

theorem flushed_before_half_close_drained : ∃ w,
    Machine.run (World.step wired) World.init (drainedLate ++ [.runTask (some 1)]) = .ok w ∧
    .shutdownWrite ∈ w.log ∧ accepted w.log = [1, 2] ∧ HalfClosed w.log := by
  have hrun : Machine.run (World.step wired) World.init (drainedLate ++ [.runTask (some 1)]) =
    .ok _ := rfl
  have hpatient : Machine.Along (World.step wired) (Machine.onInput Patient) World.init
      (drainedLate ++ [.runTask (some 1)]) := by
    have hfirst : Machine.Along (World.step wired) (Machine.onInput fun w l => ¬ShutsDown w l)
        World.init drainedLate := by
      decide
    refine (hfirst.of_invariant (fun _ => True) trivial ?_ fun _ _ _ _ _ _ => trivial).append ?_
    · intro w l _ hnot hshuts
      exact absurd hshuts hnot
    · intro w hw
      -- no other thread has called, and nothing is queued
      obtain rfl := Except.ok.inj (hw.symm.trans rfl)
      refine ⟨fun _ => ⟨fun p hp => (by cases hp), fun t message hmessage => ?_⟩,
        fun _ _ => trivial⟩
      cases t <;> cases hmessage
  have h := (flushed_before_half_close _ _ hpatient).of_run_eq_ok (fun _ => halfClosed_nil) hrun
  exact ⟨_, hrun, by decide, by decide, h (by decide)⟩

/-- The `send` of thread 7 has returned when `shutdown` is called in the loop's thread. -/
def shutEarly : List Label :=
  [.runFunctor none, .runTask none, .runTask none, .call 7 (.send (.string [1, 2])),
    .continueCall 7, .callInLoop none .shutdown]

/-- The socket is shut down before the message is written. When the loop comes to write it,
`::write` fails. -/
theorem shut_early : ∃ w w', Machine.run (World.step (.client 5)) World.init shutEarly = .ok w ∧
    World.step (.client 5) w (.runFunctor none) = .ok w' ∧
    .close ∉ w'.log ∧ .shutdownWrite ∈ w.log ∧ writes w.log = [] ∧
    writes w'.log = [([1, 2], none)] ∧
    ¬Machine.Along (World.step (.client 5)) (Machine.onResult (Machine.UnlessFault HalfCloses))
      World.init shutEarly := by
  refine ⟨_, _, rfl, rfl, by decide, by decide, by decide, by decide, fun h => ?_⟩
  have hclosed := h.of_run_eq_ok (fun _ => halfClosed_nil) rfl (by decide)
  have hflushed := hclosed.flushed
    [.connection true, .called (.other 7) (.send (.string [1, 2])), .returned (.other 7),
      .called .loop .shutdown] [.returned .loop] rfl
  have hsent : SentBefore (.other 7) [.connection true, .called (.other 7) (.send (.string [1, 2])),
      .returned (.other 7), .called .loop .shutdown] [[1, 2]] :=
    @SentBefore.intro _ [.connection true] [.returned (.other 7)] [] (.string [1, 2]) .loop
      List.mem_cons_self
  exact absurd (hflushed.executed_prefix _ _ hsent) (by decide)

end TcpConnection

end MuduoRebuild
