import MuduoRebuild.Foundations.Mailbox
import MuduoRebuild.Foundations.Run
import MuduoRebuild.TcpConnection.Operations

/-!
# The bytes a connection sends

What a connection has sent can be read off its log: the `::write` calls, the messages whose
`sendInLoop` has been executed, and the messages of the `send` calls that found the connection
connected. `StreamIntegrity` relates them: the bytes that the socket has accepted and the bytes
in the output buffer are together the executed messages, and of each thread the first messages
it asked to send have been executed, in order.

A step affects the output in one of three ways (`ByteEffect`), and takes the messages one step
further on the way from `send` to `sendInLoop`, which is a `Mailbox` with the threads as senders.
`Sound` is what holds of every world that a run reaches without a fault.
-/

namespace MuduoRebuild

namespace TcpConnection

open Fallible Mailbox

/-! ### Reading the log -/

/-- The `::write` calls: the bytes offered, and how many were accepted. -/
def writes (log : List Event) : List (List UInt8 × Option ℕ) :=
  log.filterMap fun
    | .wrote data n => some (data, n)
    | _ => none

/-- The bytes that the socket has accepted. -/
def accepted (log : List Event) : List UInt8 :=
  (writes log).flatMap fun p => p.1.take (p.2.getD 0)

/-- The messages whose `sendInLoop` has been executed, with their senders. -/
def executed (log : List Event) : List (Thread × List UInt8) :=
  log.filterMap fun
    | .sent sender message => some (sender, message)
    | _ => none

/-- The messages of the `send` calls that found the connection connected. -/
def requested (log : List Event) : List (Thread × List UInt8) :=
  log.filterMap fun
    | .called thread (.send payload) => some (thread, payload.message)
    | _ => none

/-- The messages in a queue of functors. -/
def waiting (fs : List Functor) : List (Thread × List UInt8) :=
  fs.filterMap fun
    | .sendInLoop sender message => some (sender, message)
    | _ => none

/-- The output of a connection is intact. -/
structure StreamIntegrity (w : World) : Prop where
  /-- What has been accepted and what is buffered are the executed messages, one after the other. -/
  stream : accepted w.log ++ w.outputBuffer = ((executed w.log).map Prod.snd).flatten
  /-- Each thread's messages are executed in the order of its calls of `send`. -/
  order : ∀ t, messagesOf t (executed w.log) <+: messagesOf t (requested w.log)

section Reading

variable (l l' : List Event) (fs fs' : List Functor)

@[simp]
theorem writes_append : writes (l ++ l') = writes l ++ writes l' := List.filterMap_append

@[simp]
theorem accepted_append : accepted (l ++ l') = accepted l ++ accepted l' := by
  simp only [accepted, writes_append, List.flatMap_append]

@[simp]
theorem executed_append : executed (l ++ l') = executed l ++ executed l' := List.filterMap_append

@[simp]
theorem requested_append : requested (l ++ l') = requested l ++ requested l' :=
  List.filterMap_append

@[simp]
theorem waiting_append : waiting (fs ++ fs') = waiting fs ++ waiting fs' := List.filterMap_append

end Reading

/-- The events about the output. -/
def Event.isData : Event → Bool
  | .wrote .. | .sent .. | .called _ (.send _) => true
  | _ => false

/-- Events that are not about the output. -/
def Dataless (es : List Event) : Prop := writes es = [] ∧ executed es = [] ∧ requested es = []

theorem dataless_of_isData {es : List Event} (h : ∀ e ∈ es, e.isData = false) : Dataless es := by
  refine ⟨?_, ?_, ?_⟩
  all_goals
    refine List.filterMap_eq_nil_iff.mpr fun e he => ?_
    have hdata := h e he
    cases e with
    | called thread call => cases call <;> first | rfl | cases hdata
    | _ => first | rfl | cases hdata

/-! ### What a step does to the output -/

/-- What a step does to the output buffer and the socket. -/
inductive ByteEffect (w w' : World) : Prop where
  | unchanged (hout : w'.outputBuffer = w.outputBuffer) (hwrites : writes w'.log = writes w.log)
    (hexec : executed w'.log = executed w.log)
  | sent {sender : Thread} {message : List UInt8} {k : ℕ}
    (hout : w'.outputBuffer = w.outputBuffer ++ message.drop k)
    (hexec : executed w'.log = executed w.log ++ [(sender, message)])
    (haccepted : accepted w'.log = accepted w.log ++ message.take k)
    (hbacklog : w.outputBuffer ≠ [] → k = 0 ∧ writes w'.log = writes w.log)
  | flushed {k : ℕ} (htask : .handle .write ∈ w.work)
    (hout : w'.outputBuffer = w.outputBuffer.drop k)
    (hexec : executed w'.log = executed w.log)
    (haccepted : accepted w'.log = accepted w.log ++ w.outputBuffer.take k)

section Sending

variable {c : Setup} {w : World} {message : List UInt8} {k : ℕ} {es : List Event}
  {fs : List Functor}

theorem Setup.dataless_completed (c : Setup) : Dataless c.completed := by
  rw [Setup.completed]
  split_ifs <;> exact ⟨rfl, rfl, rfl⟩

theorem Setup.waiting_completion (c : Setup) : waiting c.completion = [] := by
  rw [Setup.completion]
  split_ifs <;> rfl

theorem Dataless.accepted_eq (h : Dataless es) : accepted es = [] := by
  rw [accepted, h.1, List.flatMap_nil]

theorem Sending.accepted_eq (h : Sending c w message k es fs) :
    accepted es = message.take k := by
  cases h with
  | whole =>
    rw [← List.singleton_append, accepted_append, c.dataless_completed.accepted_eq]
    simp [accepted, writes]
  | _ => simp [accepted, writes]

theorem Sending.writes_eq (h : Sending c w message k es fs) (hout : w.outputBuffer ≠ []) :
    k = 0 ∧ writes es = [] := by
  cases h with
  | buffered => exact ⟨rfl, rfl⟩
  | _ => exact absurd ‹w.outputBuffer = []› hout

theorem Sending.rest (h : Sending c w message k es fs) :
    waiting fs = [] ∧ executed es = [] ∧ requested es = [] := by
  cases h with
  | whole => exact ⟨c.waiting_completion, c.dataless_completed.2⟩
  | _ => exact ⟨rfl, rfl, rfl⟩

theorem Flushing.accepted_eq (h : Flushing c w k es fs) : accepted es = w.outputBuffer.take k := by
  cases h with
  | idle => rfl
  | refused _ hn => simp [accepted, writes, hn]
  | short => simp [accepted, writes]
  | drained =>
    rw [List.cons_append, ← List.singleton_append, accepted_append, accepted_append,
      c.dataless_completed.accepted_eq]
    split_ifs <;> simp [accepted, writes]

theorem Flushing.rest (h : Flushing c w k es fs) :
    waiting fs = [] ∧ executed es = [] ∧ requested es = [] := by
  cases h with
  | drained =>
    obtain ⟨-, hexec, hreq⟩ := c.dataless_completed
    refine ⟨c.waiting_completion, ?_, ?_⟩
    · rw [executed_append, ← List.singleton_append, executed_append, hexec]
      split_ifs <;> rfl
    · rw [requested_append, ← List.singleton_append, requested_append, hreq]
      split_ifs <;> rfl
  | _ => exact ⟨rfl, rfl, rfl⟩

end Sending

/-- The message in an action, if it is a part of `send`. -/
def Action.message? : Action → Option (List UInt8)
  | .runInLoop (.sendInLoop _ message) | .queueInLoop (.sendInLoop _ message) => some message
  | _ => none

namespace World

variable {c : Setup} {w w' w'' : World}

/-- The messages in the calls in progress. -/
def inCall (w : World) : Thread → List (List UInt8)
  | .loop => []
  | .other t => (w.calls t).filterMap Action.message?

/-- The messages on their way from `send` to `sendInLoop`. -/
def mailbox (w : World) : Mailbox Thread (List UInt8) where
  posted := requested w.log
  outbox := w.inCall
  queue := waiting w.pendingFunctors
  taken := executed w.log

/-- What holds of every world that is reached without a fault. -/
structure Sound (c : Setup) (w : World) : Prop where
  tracked : Tracked c.sockfd w.loop
  calls : ∀ t, ∃ call : Call, w.calls t <:+ call.body (.other t)
  work : ∀ callback, .handle callback ∈ w.work → c.isSet callback = true
  /-- The loop's thread does not queue its own messages. -/
  waiting_loop : messagesOf .loop (waiting w.pendingFunctors) = []

/-- What a step does to the output and to the messages on their way. -/
structure Transfers (c : Setup) (w w' : World) : Prop where
  sound : Sound c w'
  bytes : ByteEffect w w'
  mail : w'.mailbox = w.mailbox ∨ Mailbox.Step w.mailbox w'.mailbox

/-- Nothing happens that is about the output. -/
structure Quiet (c : Setup) (w w' : World) : Prop where
  tracked : Tracked c.sockfd w'.loop
  output_eq : w'.outputBuffer = w.outputBuffer
  calls_eq : w'.calls = w.calls
  waiting_eq : waiting w'.pendingFunctors = waiting w.pendingFunctors
  work : ∀ callback, .handle callback ∈ w'.work →
    .handle callback ∈ w.work ∨ c.isSet callback = true
  log_eq : ∃ es, w'.log = w.log ++ es ∧ Dataless es

theorem sound_init (c : Setup) : Sound c init where
  tracked := tracked_init _
  calls := fun _ => ⟨.shutdown, List.nil_suffix⟩
  work := fun _ h => by cases h
  waiting_loop := rfl

theorem inCall_congr (h : w'.calls = w.calls) : w'.inCall = w.inCall := by
  funext t
  cases t with
  | loop => rfl
  | other t => rw [inCall, inCall, h]

theorem Quiet.writes_eq (h : Quiet c w w') : writes w'.log = writes w.log := by
  obtain ⟨es, hlog, hwrites, -⟩ := h.log_eq
  rw [hlog, writes_append, hwrites, List.append_nil]

theorem Quiet.executed_eq (h : Quiet c w w') : executed w'.log = executed w.log := by
  obtain ⟨es, hlog, -, hexec, -⟩ := h.log_eq
  rw [hlog, executed_append, hexec, List.append_nil]

theorem Quiet.mailbox_eq (h : Quiet c w w') : w'.mailbox = w.mailbox := by
  obtain ⟨es, hlog, -, -, hreq⟩ := h.log_eq
  simp only [mailbox, h.executed_eq, h.waiting_eq, inCall_congr h.calls_eq]
  rw [hlog, requested_append, hreq, List.append_nil]

theorem Quiet.sound (hw : Sound c w) (h : Quiet c w w') : Sound c w' := by
  refine ⟨h.tracked, ?calls, ?work, ?waiting⟩
  case calls =>
    rw [h.calls_eq]
    exact hw.calls
  case work =>
    intro callback hcb
    exact (h.work callback hcb).elim (hw.work callback) id
  case waiting =>
    rw [h.waiting_eq]
    exact hw.waiting_loop

theorem quiet_refl (h : Tracked c.sockfd w.loop) : Quiet c w w :=
  ⟨h, rfl, rfl, rfl, fun _ h => .inl h, [], (List.append_nil _).symm, rfl, rfl, rfl⟩

theorem Quiet.transfers (hw : Sound c w) (h : Quiet c w w') : Transfers c w w' :=
  ⟨h.sound hw, .unchanged h.output_eq h.writes_eq h.executed_eq, .inl h.mailbox_eq⟩

theorem transfers_refl (hw : Sound c w) : Transfers c w w := (quiet_refl hw.tracked).transfers hw

/-- A step that is about the output may be followed by something that is not. -/
theorem Transfers.trans_quiet (h : Transfers c w w') (hq : Quiet c w' w'') : Transfers c w w'' := by
  have haccepted : accepted w''.log = accepted w'.log := by rw [accepted, accepted, hq.writes_eq]
  refine ⟨hq.sound h.sound, ?_, ?_⟩
  · rcases h.bytes with ⟨hout, hwrites, hexec⟩ | ⟨hout, hexec, hacc, hback⟩ |
      ⟨htask, hout, hexec, hacc⟩
    · exact .unchanged (hq.output_eq.trans hout) (hq.writes_eq.trans hwrites)
        (hq.executed_eq.trans hexec)
    · exact .sent (hq.output_eq.trans hout) (hq.executed_eq.trans hexec) (haccepted.trans hacc)
        fun hne => (hback hne).imp_right hq.writes_eq.trans
    · exact .flushed htask (hq.output_eq.trans hout) (hq.executed_eq.trans hexec)
        (haccepted.trans hacc)
  · rw [hq.mailbox_eq]
    exact h.mail

/-! ### Quiet functions -/

theorem Quiet.trans (h : Quiet c w w') (h' : Quiet c w' w'') : Quiet c w w'' := by
  obtain ⟨es, hes, hwrites, hexec, hreq⟩ := h.log_eq
  obtain ⟨es', hes', hwrites', hexec', hreq'⟩ := h'.log_eq
  refine ⟨h'.tracked, h'.output_eq.trans h.output_eq, h'.calls_eq.trans h.calls_eq,
    h'.waiting_eq.trans h.waiting_eq, ?_, es ++ es', ?_, ?_, ?_, ?_⟩
  · intro callback hcb
    exact (h'.work callback hcb).elim (h.work callback) .inr
  · rw [hes', hes, List.append_assoc]
  · rw [writes_append, hwrites, hwrites', List.append_nil]
  · rw [executed_append, hexec, hexec', List.append_nil]
  · rw [requested_append, hreq, hreq', List.append_nil]

theorem quiet_record (h : Tracked c.sockfd w.loop) {e : Event} (he : e.isData = false) :
    Quiet c w (w.record e) := by
  refine { quiet_refl h with log_eq := ⟨[e], rfl, dataless_of_isData ?_⟩ }
  intro e' he'
  rwa [List.mem_singleton.mp he']

theorem quiet_shutdownInLoop (h : Tracked c.sockfd w.loop) : Quiet c w w.shutdownInLoop := by
  rw [shutdownInLoop]
  split_ifs
  · exact quiet_refl h
  · exact quiet_record h rfl

theorem Released.quiet (h : Tracked c.sockfd w.loop) (hrel : Released c w w') : Quiet c w w' := by
  cases hrel with
  | posted => exact { quiet_refl h with }
  | dropped => exact { quiet_refl h with waiting_eq := by simp [waiting] }

theorem quiet_handleClose (h : Tracked c.sockfd w.loop) (hok : w.handleClose c = .ok w') :
    Quiet c w w' := by
  obtain ⟨-, loop, htracked, -, hrel⟩ := handleClose_eq_ok h hok
  have hclose : Quiet c w { w with loop, log := w.log ++ [.close] } :=
    { quiet_record h rfl with tracked := htracked }
  exact hclose.trans (hrel.quiet htracked)

theorem quiet_handleRead (h : Tracked c.sockfd w.loop) {n : Option ℕ}
    (hok : w.handleRead c n = .ok w') : Quiet c w w' := by
  rcases n with _ | _ | n
  · obtain rfl := Except.ok.inj hok
    exact quiet_refl h
  · exact quiet_handleClose h hok
  · obtain rfl := Except.ok.inj hok
    refine { quiet_record h (e := .message) rfl with work := ?_ }
    intro callback hcb
    exact .inl (by simpa using hcb)

theorem quiet_connEstablished (h : Tracked c.sockfd w.loop) (hok : w.connEstablished c = .ok w') :
    Quiet c w w' := by
  obtain ⟨_, hstate, -⟩ := bind_eq_ok.mp hok
  obtain ⟨loop, heq, htracked, -⟩ := exists_connEstablished h (check_eq_ok.mp hstate)
  obtain rfl := Except.ok.inj (heq.symm.trans hok)
  exact { quiet_refl h with
    tracked := htracked
    work := fun callback hcb => .inl (by simpa using hcb) }

theorem quiet_connDestroyed (h : Tracked c.sockfd w.loop) (hok : w.connDestroyed c = .ok w') :
    Quiet c w w' := by
  obtain ⟨_, hstate, -⟩ := bind_eq_ok.mp hok
  obtain ⟨loop, heq, htracked, -⟩ := exists_connDestroyed h (check_eq_ok.mp hstate)
  obtain rfl := Except.ok.inj (heq.symm.trans hok)
  exact { quiet_refl h with
    tracked := htracked
    work := fun callback hcb => .inl (by simpa using hcb) }

theorem quiet_removeChannel (h : Tracked c.sockfd w.loop) (hok : w.removeChannel c = .ok w') :
    Quiet c w w' := by
  obtain ⟨loop, htracked, rfl⟩ := removeChannel_eq_ok h hok
  exact { quiet_refl h with tracked := htracked }

theorem quiet_removeConnectionInLoop (h : Tracked c.sockfd w.loop)
    (hok : w.removeConnectionInLoop = .ok w') : Quiet c w w' := by
  obtain ⟨-, rfl⟩ := removeConnectionInLoop_eq_ok hok
  exact { quiet_refl h with waiting_eq := by simp [waiting] }

/-- A functor other than `sendInLoop`. -/
theorem quiet_invoke (h : Tracked c.sockfd w.loop) {n : Option ℕ} {f : Functor}
    (hf : ∀ sender message, f ≠ .sendInLoop sender message) (hok : w.invoke c n f = .ok w') :
    Quiet c w w' := by
  cases f with
  | connEstablished => exact quiet_connEstablished h hok
  | connDestroyed => exact quiet_connDestroyed h hok
  | sendInLoop sender message => exact absurd rfl (hf sender message)
  | shutdownInLoop =>
    obtain rfl := Except.ok.inj hok
    exact quiet_shutdownInLoop h
  | forceCloseInLoop =>
    rw [invoke, forceCloseInLoop] at hok
    split_ifs at hok
    · exact quiet_handleClose h hok
    · obtain rfl := Except.ok.inj hok
      exact quiet_refl h
  | wriComCb =>
    obtain rfl := Except.ok.inj hok
    exact { quiet_refl h with work := fun callback hcb => .inl (by simpa using hcb) }
  | addTimerInLoop =>
    obtain rfl := Except.ok.inj hok
    exact { quiet_refl h with }

/-! ### Sending and writing -/

/-- What `sendInLoop` does. -/
structure Sends (c : Setup) (w w' : World) (sender : Thread) (message : List UInt8) : Prop where
  tracked : Tracked c.sockfd w'.loop
  calls_eq : w'.calls = w.calls
  work_eq : w'.work = w.work
  waiting_eq : waiting w'.pendingFunctors = waiting w.pendingFunctors
  requested_eq : requested w'.log = requested w.log
  executed_eq : executed w'.log = executed w.log ++ [(sender, message)]
  bytes : ∃ k, w'.outputBuffer = w.outputBuffer ++ message.drop k ∧
    accepted w'.log = accepted w.log ++ message.take k ∧
    (w.outputBuffer ≠ [] → k = 0 ∧ writes w'.log = writes w.log)

theorem sends_sendInLoop (h : Tracked c.sockfd w.loop) {n : Option ℕ} {sender : Thread}
    {message : List UInt8} (hok : w.sendInLoop c n sender message = .ok w') :
    Sends c w w' sender message := by
  obtain ⟨loop, k, es, fs, heq, hsending, htracked, -⟩ := exists_sendInLoop h n sender message
  obtain rfl := Except.ok.inj (heq.symm.trans hok)
  obtain ⟨hwaiting, hexec, hreq⟩ := hsending.rest
  have hcons : ∀ es, Event.sent sender message :: es = [.sent sender message] ++ es := fun _ => rfl
  refine ⟨htracked, rfl, rfl, ?_, ?_, ?_, k, rfl, ?_, fun hout => ?_⟩
  · rw [waiting_append, hwaiting, List.append_nil]
  · rw [hcons, requested_append, requested_append, hreq]
    exact List.append_nil _
  · rw [hcons, executed_append, executed_append, hexec]
    rfl
  · rw [hcons, accepted_append, accepted_append, hsending.accepted_eq]
    rfl
  · obtain ⟨hk, hwrites⟩ := hsending.writes_eq hout
    refine ⟨hk, ?_⟩
    rw [hcons, writes_append, writes_append, hwrites]
    exact List.append_nil _

/-- The functor `sendInLoop` of another thread is run. -/
theorem transfers_sendInLoop (hw : Sound c w) {n : Option ℕ} {sender : Thread}
    {message : List UInt8} {fs : List Functor}
    (hfs : w.pendingFunctors = .sendInLoop sender message :: fs)
    (hok : { w with pendingFunctors := fs }.sendInLoop c n sender message = .ok w') :
    Transfers c w w' := by
  have hs := sends_sendInLoop (w := { w with pendingFunctors := fs }) hw.tracked hok
  obtain ⟨k, hout, haccepted, hback⟩ := hs.bytes
  have hqueue : waiting w.pendingFunctors = (sender, message) :: waiting fs := by
    rw [hfs]
    rfl
  refine ⟨⟨hs.tracked, ?_, ?_, ?_⟩, .sent hout hs.executed_eq haccepted hback, .inr ?_⟩
  · rw [hs.calls_eq]
    exact hw.calls
  · rw [hs.work_eq]
    exact hw.work
  · have hloop := hw.waiting_loop
    rw [hqueue, messagesOf_cons] at hloop
    rw [hs.waiting_eq]
    split_ifs at hloop
    exact hloop
  · have hmail : w'.mailbox = { w.mailbox with
        queue := waiting fs
        taken := executed w.log ++ [(sender, message)] } := by
      simp only [mailbox, hs.requested_eq, hs.executed_eq, hs.waiting_eq, inCall_congr hs.calls_eq]
      rfl
    rw [hmail]
    exact .take hqueue

/-- `handleWrite` is called. -/
theorem transfers_handleWrite (hw : Sound c w) {n : Option ℕ} {work : List Task}
    (hwork : w.work = .handle .write :: work)
    (hok : { w with work }.handleWrite c n = .ok w') : Transfers c w w' := by
  obtain ⟨loop, k, es, fs, heq, hflush, htracked, -⟩ :=
    exists_handleWrite (w := { w with work }) hw.tracked n
  obtain rfl := Except.ok.inj (heq.symm.trans hok)
  obtain ⟨hwaiting, hexec, hreq⟩ := hflush.rest
  have hmem : ∀ task ∈ work, task ∈ w.work := by
    rw [hwork]
    exact fun _ => List.mem_cons_of_mem _
  have htask : .handle .write ∈ w.work := by
    rw [hwork]
    exact List.mem_cons_self
  refine ⟨⟨htracked, hw.calls, fun callback hcb => hw.work callback (hmem _ hcb), ?_⟩,
    .flushed htask rfl ?_ ?_, .inl ?_⟩
  · rw [waiting_append, hwaiting, List.append_nil]
    exact hw.waiting_loop
  · rw [executed_append, hexec, List.append_nil]
  · rw [accepted_append, hflush.accepted_eq]
  · simp only [mailbox, requested_append, executed_append, waiting_append, hexec, hreq, hwaiting,
      List.append_nil]
    rfl

/-! ### Calls -/

theorem requested_called (t : Thread) (call : Call) :
    requested [.called t call] = ((call.body t).filterMap Action.message?).map (t, ·) := by
  cases call <;> rfl

theorem inCall_update (w : World) (t : ℕ) (as : List Action) :
    { w with calls := Function.update w.calls t as }.inCall =
      Function.update w.inCall (.other t) (as.filterMap Action.message?) := by
  funext thread
  cases thread with
  | loop => rfl
  | other u =>
    by_cases hut : u = t
    · simp [inCall, hut]
    · simp [inCall, hut]

/-- Another thread calls a member function. -/
theorem transfers_call (hw : Sound c w) {t : ℕ} (hidle : w.calls t = []) (call : Call) :
    Transfers c w (w.call t call) := by
  rw [World.call]
  split_ifs with hguard
  · set v : World := { w with calls := Function.update w.calls t (call.body (.other t)) }
    refine ⟨⟨hw.tracked, ?_, hw.work, hw.waiting_loop⟩, .unchanged rfl ?_ ?_, .inr ?_⟩
    · intro u
      by_cases hut : u = t
      · exact ⟨call, by simp [v, record, hut]⟩
      · simpa [v, record, hut] using hw.calls u
    · exact (writes_append ..).trans (List.append_nil _)
    · exact (executed_append ..).trans (List.append_nil _)
    · have hout : w.inCall (.other t) = [] := by rw [inCall, hidle, List.filterMap_nil]
      -- what is posted now goes into an empty outbox
      have hmail : (v.record (.called (.other t) call)).mailbox = { w.mailbox with
          posted := w.mailbox.posted ++
            ((call.body (.other t)).filterMap Action.message?).map (.other t, ·)
          outbox := Function.update w.mailbox.outbox (.other t) (w.mailbox.outbox (.other t) ++
            (call.body (.other t)).filterMap Action.message?) } := by
        have hcall := inCall_update w t (call.body (.other t))
        simp only [mailbox, hout, List.nil_append, ← hcall, ← requested_called]
        simp only [record, requested_append, executed_append]
        rw [show executed [Event.called (.other t) call] = [] from rfl, List.append_nil]
        rfl
      rw [hmail]
      exact .post _ _
  · exact transfers_refl hw

theorem waiting_perform {t : Thread} {call : Call} {a : Action} (ha : a ∈ call.body t) (w : World) :
    waiting (w.perform a).pendingFunctors =
      waiting w.pendingFunctors ++ a.message?.toList.map (t, ·) := by
  have hadd : ∀ f, waiting (w.queueInLoop f).pendingFunctors =
      waiting w.pendingFunctors ++ waiting [f] := fun f => waiting_append ..
  cases call with
  | send payload =>
    obtain rfl := List.mem_singleton.mp ha
    exact hadd _
  | shutdown | forceClose | forceCloseWithDelay =>
    rcases List.mem_pair.mp ha with rfl | rfl
    · exact (List.append_nil _).symm
    · exact hadd _

/-- Another thread takes one action of its call. -/
theorem transfers_perform (hw : Sound c w) {t : ℕ} {a : Action} {as : List Action}
    (hcalls : w.calls t = a :: as) :
    Transfers c w ({ w with calls := Function.update w.calls t as }.perform a) := by
  obtain ⟨call, hcall⟩ := hw.calls t
  rw [hcalls] at hcall
  set v : World := { w with calls := Function.update w.calls t as }
  have hwaiting := waiting_perform (hcall.subset List.mem_cons_self) v
  have hkeep : (v.perform a).loop = w.loop ∧ (v.perform a).work = w.work ∧
      (v.perform a).calls = v.calls ∧ (v.perform a).outputBuffer = w.outputBuffer ∧
      (v.perform a).log = w.log := by
    cases a <;> exact ⟨rfl, rfl, rfl, rfl, rfl⟩
  obtain ⟨hloop, hwork, hcalls', hout, hlog⟩ := hkeep
  have hinCall : (v.perform a).inCall =
      Function.update w.inCall (.other t) (as.filterMap Action.message?) :=
    (inCall_congr hcalls').trans (inCall_update w t as)
  have hold : w.inCall (.other t) = a.message?.toList ++ as.filterMap Action.message? := by
    rw [inCall, hcalls, List.filterMap_cons]
    cases a.message? <;> rfl
  refine ⟨⟨hloop ▸ hw.tracked, ?_, ?_, ?_⟩, .unchanged hout ?_ ?_, ?_⟩
  · intro u
    rw [hcalls']
    by_cases hut : u = t
    · exact ⟨call, by simpa [v, hut] using (List.suffix_cons a as).trans hcall⟩
    · simpa [v, hut] using hw.calls u
  · rw [hwork]
    exact hw.work
  · rw [hwaiting, messagesOf_append, messagesOf_map, if_neg (by simp), List.append_nil]
    exact hw.waiting_loop
  · rw [hlog]
  · rw [hlog]
  · have hmail : (v.perform a).mailbox = { w.mailbox with
        outbox := Function.update w.inCall (.other t) (as.filterMap Action.message?)
        queue := waiting w.pendingFunctors ++ a.message?.toList.map (.other t, ·) } := by
      simp only [mailbox, hlog, hinCall, hwaiting]
      rfl
    rw [hmail]
    cases hmessage : a.message? with
    | none =>
      -- an action that is no part of `send` leaves the mailbox alone
      rw [hmessage, Option.toList_none, List.nil_append] at hold
      refine .inl ?_
      rw [← hold, Function.update_eq_self, Option.toList_none, List.map_nil, List.append_nil]
      rfl
    | some message =>
      rw [hmessage, Option.toList_some, List.singleton_append] at hold
      exact .inr (.put hold)

/-- Another thread goes on with its call. -/
theorem transfers_continueCall (hw : Sound c w) (t : ℕ) : Transfers c w (w.continueCall t) := by
  rw [continueCall]
  split
  · exact transfers_refl hw
  · next a as hcalls =>
    have h := transfers_perform hw hcalls
    dsimp only
    split_ifs
    · exact h.trans_quiet (quiet_record h.sound.tracked rfl)
    · exact h

/-- The loop's thread calls `send`, which executes `sendInLoop` at once. -/
theorem transfers_send (hw : Sound c w) {n : Option ℕ} {payload : Payload}
    (hok : (w.record (.called .loop (.send payload))).sendInLoop c n .loop payload.message =
      .ok w') : Transfers c w w' := by
  have hs := sends_sendInLoop (w := w.record (.called .loop (.send payload))) hw.tracked hok
  obtain ⟨k, hout, haccepted, hback⟩ := hs.bytes
  have hwrites : writes (w.record (.called .loop (.send payload))).log = writes w.log :=
    (writes_append ..).trans (List.append_nil _)
  have hexec : executed w'.log = executed w.log ++ [(.loop, payload.message)] :=
    hs.executed_eq.trans (congrArg (· ++ _) ((executed_append ..).trans (List.append_nil _)))
  refine ⟨⟨hs.tracked, ?_, ?_, ?_⟩, .sent hout hexec ?_ ?_, .inr ?_⟩
  · rw [hs.calls_eq]
    exact hw.calls
  · rw [hs.work_eq]
    exact hw.work
  · rw [hs.waiting_eq]
    exact hw.waiting_loop
  · rw [haccepted, accepted, hwrites]
    rfl
  · intro hne
    exact (hback hne).imp_right fun h => h.trans hwrites
  · have hmail : w'.mailbox = { w.mailbox with
        posted := w.mailbox.posted ++ [(.loop, payload.message)]
        taken := w.mailbox.taken ++ [(.loop, payload.message)] } := by
      simp only [mailbox, hs.requested_eq, hexec, hs.waiting_eq, inCall_congr hs.calls_eq]
      simp only [record, requested_append]
      rfl
    rw [hmail]
    exact .direct _ hw.waiting_loop rfl

/-- The loop's thread calls a member function other than `send`. -/
theorem quiet_callInLoop (h : Tracked c.sockfd w.loop) {n : Option ℕ} {call : Call}
    (hcall : ∀ payload, call ≠ .send payload) (hok : w.callInLoop c n call = .ok w') :
    Quiet c w w' := by
  rw [callInLoop] at hok
  split_ifs at hok with hguard
  · obtain ⟨v, hv, hok⟩ := bind_eq_ok.mp hok
    obtain rfl := Except.ok.inj hok
    suffices hq : Quiet c w v from hq.trans (quiet_record hq.tracked rfl)
    cases call with
    | send payload => exact absurd rfl (hcall payload)
    | shutdown =>
      obtain rfl := Except.ok.inj hv
      have hset : Quiet c w { w.record (.called .loop .shutdown) with state := .kDisconnecting } :=
        { quiet_record h (e := .called .loop .shutdown) rfl with }
      exact hset.trans (quiet_shutdownInLoop hset.tracked)
    | forceClose =>
      obtain rfl := Except.ok.inj hv
      exact { quiet_record h (e := .called .loop .forceClose) rfl with
        waiting_eq := (waiting_append ..).trans (List.append_nil _) }
    | forceCloseWithDelay =>
      obtain rfl := Except.ok.inj hv
      exact { quiet_record h (e := .called .loop .forceCloseWithDelay) rfl with }
  · obtain rfl := Except.ok.inj hok
    exact quiet_refl h

/-- The loop's thread calls a member function. -/
theorem transfers_callInLoop (hw : Sound c w) {n : Option ℕ} {call : Call}
    (hok : w.callInLoop c n call = .ok w') : Transfers c w w' := by
  cases call with
  | send payload =>
    rw [callInLoop] at hok
    split_ifs at hok with hguard
    · obtain ⟨v, hv, hok⟩ := bind_eq_ok.mp hok
      obtain rfl := Except.ok.inj hok
      rw [Call.body, List.foldlM_cons] at hv
      obtain ⟨u, hu, hv⟩ := bind_eq_ok.mp hv
      obtain rfl := Except.ok.inj hv
      have h := transfers_send hw hu
      exact h.trans_quiet (quiet_record h.sound.tracked rfl)
    · obtain rfl := Except.ok.inj hok
      exact transfers_refl hw
  | shutdown | forceClose | forceCloseWithDelay =>
    exact (quiet_callInLoop hw.tracked (fun _ h => by cases h) hok).transfers hw

/-! ### Steps and runs -/

/-- The loop's thread goes on with the handler or the functor in progress. -/
theorem transfers_runTask (hw : Sound c w) {n : Option ℕ} (hok : w.runTask c n = .ok w') :
    Transfers c w w' := by
  rw [runTask] at hok
  split at hok
  · obtain rfl := Except.ok.inj hok
    exact transfers_refl hw
  · next task work hwork =>
    have hpop : Quiet c w { w with work } := by
      refine { quiet_refl hw.tracked with work := fun callback hcb => .inl ?_ }
      rw [hwork]
      exact List.mem_cons_of_mem _ hcb
    have hdone : ∀ {v : World}, Except.ok v = Except.ok (ε := Fault) w' → Quiet c w v →
        Transfers c w w' := by
      rintro v hv hq
      obtain rfl := Except.ok.inj hv
      exact hq.transfers hw
    cases task with
    | handle callback =>
      cases callback with
      | error => exact hdone hok hpop
      | close => exact (hpop.trans (quiet_handleClose hpop.tracked hok)).transfers hw
      | read => exact (hpop.trans (quiet_handleRead hpop.tracked hok)).transfers hw
      | write => exact transfers_handleWrite hw hwork hok
    | connCb => exact hdone hok (hpop.trans (quiet_record hpop.tracked rfl))
    | userCode => exact hdone hok hpop
    | removeChannel => exact (hpop.trans (quiet_removeChannel hpop.tracked hok)).transfers hw

/-- The loop runs a functor of its queue. -/
theorem transfers_runFunctor (hw : Sound c w) {n : Option ℕ}
    (hok : w.act c (.runFunctor n) = .ok w') : Transfers c w w' := by
  simp only [act] at hok
  split at hok
  · next f fs hfs =>
    by_cases hf : ∃ sender message, f = .sendInLoop sender message
    · obtain ⟨sender, message, rfl⟩ := hf
      exact transfers_sendInLoop hw hfs hok
    · -- no message leaves the queue
      push Not at hf
      have hpop : Quiet c w { w with pendingFunctors := fs } := by
        refine { quiet_refl hw.tracked with waiting_eq := ?_ }
        rw [hfs]
        cases f with
        | sendInLoop sender message => exact absurd rfl (hf sender message)
        | _ => rfl
      exact (hpop.trans (quiet_invoke hpop.tracked hf hok)).transfers hw
  · obtain rfl := Except.ok.inj hok
    exact transfers_refl hw

/-- What any step does to the output. -/
theorem transfers_step (hw : Sound c w) {l : Label} (hok : w.step c l = .ok w') :
    Transfers c w w' := by
  rw [step] at hok
  split_ifs at hok with henabled
  · cases l with
    | callInLoop n call => exact transfers_callInLoop hw hok
    | call t call =>
      obtain rfl := Except.ok.inj hok
      exact transfers_call hw henabled call
    | continueCall t =>
      obtain rfl := Except.ok.inj hok
      exact transfers_continueCall hw t
    | handleEvent revents =>
      obtain rfl := Except.ok.inj hok
      refine Quiet.transfers hw { quiet_refl hw.tracked with work := fun callback hcb => .inr ?_ }
      obtain ⟨callback', hcb', heq⟩ := List.mem_map.mp hcb
      obtain rfl := Task.handle.inj heq
      have htriggered := (List.mem_filter.mp hcb').2
      rw [Bool.and_eq_true] at htriggered
      exact htriggered.2
    | runTask n => exact transfers_runTask hw hok
    | runFunctor n => exact transfers_runFunctor hw hok
    | timeout =>
      have hpop : Quiet c w { w with timers := w.timers - 1 } := { quiet_refl hw.tracked with }
      have hcall := quiet_callInLoop hpop.tracked (fun _ h => by cases h) hok
      exact (hpop.trans hcall).transfers hw
    | removeConnectionInLoop =>
      have hpop : Quiet c w { w with removals := w.removals - 1 } := { quiet_refl hw.tracked with }
      exact (hpop.trans (quiet_removeConnectionInLoop hpop.tracked hok)).transfers hw
  · obtain rfl := Except.ok.inj hok
    exact transfers_refl hw

/-- The bytes accepted and buffered are those of the executed messages. -/
def Streams (w : World) : Prop :=
  accepted w.log ++ w.outputBuffer = ((executed w.log).map Prod.snd).flatten

/-- What goes into the stream comes out of it, in order. -/
theorem Streams.effect (h : Streams w) (heffect : ByteEffect w w') : Streams w' := by
  rw [Streams] at h ⊢
  cases heffect with
  | unchanged hout hwrites hexec => rwa [accepted, hwrites, hout, hexec]
  | @sent sender message k hout hexec haccepted hback =>
    -- either nothing was buffered, or nothing of the message has been written
    rw [haccepted, hout, hexec, List.map_append, List.flatten_append, ← h]
    by_cases hempty : w.outputBuffer = []
    · simp [hempty]
    · obtain ⟨rfl, -⟩ := hback hempty
      simp
  | @flushed k htask hout hexec haccepted =>
    rw [haccepted, hout, hexec, ← h, List.append_assoc, List.take_append_drop]

/-- What a run keeps. -/
structure Intact (c : Setup) (w : World) : Prop where
  sound : Sound c w
  streams : Streams w
  inOrder : w.mailbox.InOrder

theorem intact_init (c : Setup) : Intact c init :=
  ⟨sound_init c, rfl, fun t => by cases t <;> rfl⟩

theorem Intact.step (h : Intact c w) {l : Label} (hok : w.step c l = .ok w') : Intact c w' := by
  have htransfers := transfers_step h.sound hok
  refine ⟨htransfers.sound, h.streams.effect htransfers.bytes, ?_⟩
  rcases htransfers.mail with hsame | hstep
  · rw [hsame]
    exact h.inOrder
  · exact h.inOrder.step hstep

/-- Every world that a run reaches is intact. -/
theorem intact_of_run {ls : List Label} (hrun : Machine.run (World.step c) init ls = .ok w) :
    Intact c w :=
  Machine.invariant_of_run (intact_init c) (fun _ _ _ h hok => h.step hok) hrun

end World

open World

/-- **Output stream integrity.** However the calls of any number of threads are interleaved with
functors, events, partial and failing writes, shutdowns and closes, in every state reached the
bytes accepted by the socket and those in the output buffer are together the messages whose
`sendInLoop` has been executed, one after the other, and each thread's messages are executed in
the order of its calls of `send`. -/
theorem stream_integrity {c : Setup} {w : World} {ls : List Label}
    (hrun : Machine.run (World.step c) World.init ls = .ok w) : StreamIntegrity w := by
  have h := intact_of_run hrun
  exact ⟨h.streams, h.inOrder.taken_prefix⟩

/-- Thread 7 sends two messages; a message of the loop's thread overtakes them and is written in
part. -/
def overtaken : List Label :=
  [.runFunctor none, .runTask none, .runTask none, .call 7 (.send (.string [1, 2])),
    .continueCall 7, .call 7 (.send (.pointer [3, 4, 0] 2)),
    .callInLoop (some 1) (.send (.buffer [5, 6])), .continueCall 7, .runFunctor none]

theorem stream_integrity_overtaken : ∃ w,
    Machine.run (World.step (.server 5 false true)) World.init overtaken = .ok w ∧
    accepted w.log = [5] ∧ w.outputBuffer = [6, 1, 2] ∧ StreamIntegrity w := by
  have hrun : Machine.run (World.step (.server 5 false true)) World.init overtaken = .ok _ := rfl
  exact ⟨_, hrun, rfl, rfl, stream_integrity hrun⟩

end TcpConnection

end MuduoRebuild
