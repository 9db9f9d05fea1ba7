import MuduoRebuild.TcpConnection.HalfClose

/-!
# Write-complete notification

A write-complete callback is to be queued each time the output becomes empty: when the last byte
that has been accepted for sending, the message being sent included, has gone to the socket. The
history says what is unwritten (`unwritten`), so it also says where the notifications belong
(`annotate`); a history is `Notified` when they are there and nowhere else.

Both writers, `sendInLoop` and `handleWrite`, queue the callback of the connection where they
should. But `TcpClient::newConnection` does not pass on the callback of the client, so that for
its connections every history stays `Notified` exactly until a message is taken whole
(`write_complete_iff`).
-/

namespace MuduoRebuild

namespace TcpConnection

open Fallible

/-! ### Where notifications belong -/

/-- The unwritten output after an event. The output is a queue of bytes. -/
def Event.output : Event → List UInt8 → List UInt8
  | .sent _ data, pending => pending ++ data
  | .wrote _ n, pending => pending.drop (n.getD 0)
  | _, pending => pending

/-- The unwritten output after some events. -/
def unwritten (pending : List UInt8) (log : List Event) : List UInt8 :=
  log.foldl (fun pending e => e.output pending) pending

/-- The notification that belongs after an event, with which the output may have become empty. -/
def Event.due (e : Event) (pending : List UInt8) : List Event :=
  if pending ≠ [] ∧ e.output pending = [] then [.wriComCb] else []

/-- The events with the notifications that belong to them. -/
def annotate (pending : List UInt8) : List Event → List Event
  | [] => []
  | e :: es => e :: e.due pending ++ annotate (e.output pending) es

/-- The events other than notifications. -/
def unnotified (log : List Event) : List Event := log.filter (· ≠ .wriComCb)

/-- The notifications are where they belong: one each time the output has become empty, and no
other. -/
def Notified (log : List Event) : Prop := annotate [] (unnotified log) = log

instance (log : List Event) : Decidable (Notified log) :=
  inferInstanceAs (Decidable (annotate [] (unnotified log) = log))

variable {p : List UInt8} {log es es' : List Event}

theorem unwritten_append : unwritten p (es ++ es') = unwritten (unwritten p es) es' :=
  List.foldl_append ..

theorem annotate_append :
    annotate p (es ++ es') = annotate p es ++ annotate (unwritten p es) es' := by
  induction es generalizing p with
  | nil => rfl
  | cons e es ih =>
    rw [List.cons_append, annotate, ih, annotate, List.append_assoc]
    rfl

theorem unnotified_append : unnotified (es ++ es') = unnotified es ++ unnotified es' :=
  List.filter_append ..

/-- Notifications do not change what is unwritten. -/
theorem unwritten_unnotified : unwritten p (unnotified es) = unwritten p es := by
  induction es generalizing p with
  | nil => rfl
  | cons e es ih =>
    by_cases he : e = .wriComCb
    · rw [he]
      exact ih
    · rw [unnotified, List.filter_cons_of_pos (by simpa using he)]
      exact ih

/-- After a history with the notifications in place, the next events have to bring theirs. -/
theorem notified_append_iff (h : Notified log) :
    Notified (log ++ es) ↔ annotate (unwritten [] log) (unnotified es) = es := by
  rw [Notified, unnotified_append, annotate_append, unwritten_unnotified, show annotate [] _ = _
    from h, List.append_cancel_left_eq]

/-! ### Events that are not about the output -/

/-- The payload that a step asks to send. -/
def World.Label.payload? : World.Label → Option Payload
  | .callInLoop _ (.send payload) | .call _ (.send payload) => some payload
  | _ => none

/-- An event that neither adds to the output nor takes from it, of a step that asks to send no
other payload than it says. -/
def Event.IsMute (l : World.Label) : Event → Prop
  | .sent .. | .wrote .. | .wriComCb => False
  | .called _ (.send payload) => l.payload? = some payload
  | _ => True

variable {l : World.Label} {c : Setup}

theorem annotate_of_isMute (h : ∀ e ∈ es, e.IsMute l) :
    unwritten p es = p ∧ unnotified es = es ∧ annotate p es = es := by
  induction es with
  | nil => exact ⟨rfl, rfl, rfl⟩
  | cons e es ih =>
    obtain ⟨hunwritten, hfilter, hannotate⟩ := ih fun e' he' => h e' (List.mem_cons_of_mem _ he')
    have he := h e List.mem_cons_self
    have hout : e.output p = p := by cases e <;> first | rfl | exact False.elim he
    have hne : e ≠ .wriComCb := by
      rintro rfl
      exact he
    have hdue : e.due p = [] := by
      rw [Event.due, hout]
      exact if_neg fun hp => hp.1 hp.2
    refine ⟨?_, ?_, ?_⟩
    · rw [unwritten, List.foldl_cons, hout]
      exact hunwritten
    · rw [unnotified, List.filter_cons_of_pos (by simpa using hne)]
      exact congrArg (e :: ·) hfilter
    · rw [annotate, hdue, hout, hannotate]
      rfl

/-! ### The two writers -/

section Writers

variable {w : World} {message : List UInt8} {k : ℕ} {fs : List Functor}

/-- The events of `sendInLoop`: what they leave unwritten, and, as long as the callback is set or
the message is not taken whole, where the notifications belong. -/
theorem Sending.annotate_eq (h : Sending c w message k es fs) (sender : Thread)
    (hne : message ≠ []) :
    unwritten w.outputBuffer (.sent sender message :: es) = w.outputBuffer ++ message.drop k ∧
      (annotate w.outputBuffer (unnotified (.sent sender message :: es)) =
          .sent sender message :: es ↔ c.wriComCb = true ∨ k < message.length) := by
  have hpos : 0 < message.length := List.length_pos_of_ne_nil hne
  have hsent : w.outputBuffer ++ message ≠ [] := List.append_ne_nil_of_right_ne_nil _ hne
  cases h with
  | buffered =>
    refine ⟨?_, iff_of_true ?_ (.inr hpos)⟩
    · simp [unwritten, Event.output]
    · simp [unnotified, annotate, Event.due, Event.output, hne]
  | failed _ hout =>
    refine ⟨?_, iff_of_true ?_ (.inr hpos)⟩
    · simp [unwritten, Event.output]
    · simp [unnotified, annotate, Event.due, Event.output, hne]
  | short _ hout hk =>
    refine ⟨?_, iff_of_true ?_ (.inr hk)⟩
    · simp [unwritten, Event.output, hout]
    · simp [unnotified, annotate, Event.due, Event.output, hout, Nat.not_le_of_lt hk]
  | whole _ hout =>
    cases hset : c.wriComCb with
    | true =>
      refine ⟨?_, iff_of_true ?_ (.inl rfl)⟩
      · simp [unwritten, Event.output, hout, Setup.completed, hset]
      · simp [unnotified, annotate, Event.due, Event.output, hout, hne, Setup.completed, hset]
    | false =>
      -- the last byte has been written, and nothing is queued
      refine ⟨?_, iff_of_false ?_ (by simp)⟩
      · simp [unwritten, Event.output, hout, Setup.completed, hset]
      · simp [unnotified, annotate, Event.due, Event.output, hout, hne, Setup.completed, hset]

/-- The events of `handleWrite`, when the callback is set. -/
theorem Flushing.annotate_eq (h : Flushing c w k es fs) (hset : c.wriComCb = true) :
    unwritten w.outputBuffer es = w.outputBuffer.drop k ∧
      annotate w.outputBuffer (unnotified es) = es := by
  cases h with
  | idle => exact ⟨rfl, rfl⟩
  | refused _ hn =>
    constructor
    · simp [unwritten, Event.output, hn]
    · simp [unnotified, annotate, Event.due, Event.output, hn]
  | short _ _ hk =>
    constructor
    · simp [unwritten, Event.output]
    · simp [unnotified, annotate, Event.due, Event.output, Nat.not_le_of_lt hk]
  | drained _ hpos =>
    have hne : w.outputBuffer ≠ [] := List.ne_nil_of_length_pos hpos
    simp only [Setup.completed, hset, if_true]
    constructor
    · split_ifs <;> simp [unwritten, Event.output]
    · split_ifs <;> simp [unnotified, annotate, Event.due, Event.output, hne]

/-- `sendInLoop` looks at the output only. -/
theorem Sending.congr {v : World} (h : Sending c v message k es fs)
    (hwriting : v.isWriting = w.isWriting) (hout : v.outputBuffer = w.outputBuffer) :
    Sending c w message k es fs := by
  cases h with
  | buffered h => exact .buffered (hwriting ▸ hout ▸ h)
  | failed h h' => exact .failed (hwriting ▸ h) (hout ▸ h')
  | short h h' hk => exact .short (hwriting ▸ h) (hout ▸ h') hk
  | whole h h' => exact .whole (hwriting ▸ h) (hout ▸ h')

/-- `handleWrite` looks at the output and `state_` only. -/
theorem Flushing.congr {v : World} (h : Flushing c v k es fs)
    (hwriting : v.isWriting = w.isWriting) (hout : v.outputBuffer = w.outputBuffer)
    (hstate : v.state = w.state) : Flushing c w k es fs := by
  cases h with
  | idle h => exact .idle (hwriting ▸ h)
  | refused h hn => exact hout ▸ .refused (hwriting ▸ h) hn
  | short h hpos hk => exact hout ▸ .short (hwriting ▸ h) hpos (hout ▸ hk)
  | drained h hpos =>
    rw [hout, hstate]
    exact .drained (hwriting ▸ h) (hout ▸ hpos)

end Writers

namespace World

variable {w w' w'' : World}

/-- The output stays as it is. -/
structure Mute (l : Label) (w w' : World) : Prop where
  output_eq : w'.outputBuffer = w.outputBuffer
  log_eq : ∃ es, w'.log = w.log ++ es ∧ ∀ e ∈ es, e.IsMute l

theorem mute_refl (w : World) : Mute l w w :=
  ⟨rfl, [], (List.append_nil _).symm, fun _ he => absurd he List.not_mem_nil⟩

theorem Mute.trans (h : Mute l w w') (h' : Mute l w' w'') : Mute l w w'' := by
  obtain ⟨es, hes, hmute⟩ := h.log_eq
  obtain ⟨es', hes', hmute'⟩ := h'.log_eq
  refine ⟨h'.output_eq.trans h.output_eq, es ++ es', ?_, ?_⟩
  · rw [hes', hes, List.append_assoc]
  · intro e he
    exact (List.mem_append.mp he).elim (hmute e) (hmute' e)

theorem mute_record (w : World) {e : Event} (he : e.IsMute l) : Mute l w (w.record e) := by
  refine ⟨rfl, [e], rfl, ?_⟩
  intro e' he'
  rwa [List.mem_singleton.mp he']

theorem mute_shutdownInLoop (w : World) : Mute l w w.shutdownInLoop := by
  rw [shutdownInLoop]
  split_ifs
  · exact mute_refl w
  · exact mute_record w trivial

theorem Released.mute (h : Released c w w') : Mute l w w' := by
  cases h with
  | posted | dropped => exact { mute_refl w with }

theorem mute_handleClose (htracked : Tracked c.sockfd w.loop) (hok : w.handleClose c = .ok w') :
    Mute l w w' := by
  obtain ⟨-, loop, -, -, hrel⟩ := handleClose_eq_ok htracked hok
  have hclose : Mute l w { w with loop, log := w.log ++ [.close] } :=
    { mute_record w (e := .close) trivial with }
  exact hclose.trans hrel.mute

theorem mute_handleRead (htracked : Tracked c.sockfd w.loop) {n : Option ℕ}
    (hok : w.handleRead c n = .ok w') : Mute l w w' := by
  rcases n with _ | _ | n
  · obtain rfl := Except.ok.inj hok
    exact mute_refl w
  · exact mute_handleClose htracked hok
  · obtain rfl := Except.ok.inj hok
    exact { mute_record w (e := .message) trivial with }

/-- A functor other than `sendInLoop`. -/
theorem mute_invoke (htracked : Tracked c.sockfd w.loop) {n : Option ℕ} {f : Functor}
    (hf : ∀ sender message, f ≠ .sendInLoop sender message) (hok : w.invoke c n f = .ok w') :
    Mute l w w' := by
  cases f with
  | connEstablished =>
    obtain ⟨_, hstate, -⟩ := bind_eq_ok.mp hok
    obtain ⟨loop, heq, -⟩ := exists_connEstablished htracked (check_eq_ok.mp hstate)
    obtain rfl := Except.ok.inj (heq.symm.trans hok)
    exact { mute_refl w with }
  | connDestroyed =>
    obtain ⟨_, hstate, -⟩ := bind_eq_ok.mp hok
    obtain ⟨loop, heq, -⟩ := exists_connDestroyed htracked (check_eq_ok.mp hstate)
    obtain rfl := Except.ok.inj (heq.symm.trans hok)
    exact { mute_refl w with }
  | sendInLoop sender message => exact absurd rfl (hf sender message)
  | shutdownInLoop =>
    obtain rfl := Except.ok.inj hok
    exact mute_shutdownInLoop w
  | forceCloseInLoop =>
    rw [invoke, forceCloseInLoop] at hok
    split_ifs at hok
    · exact mute_handleClose htracked hok
    · obtain rfl := Except.ok.inj hok
      exact mute_refl w
  | wriComCb | addTimerInLoop =>
    obtain rfl := Except.ok.inj hok
    exact { mute_refl w with }

/-- The loop's thread calls a member function other than `send`. -/
theorem mute_callInLoop {n : Option ℕ} {call : Call} (hcall : ∀ payload, call ≠ .send payload)
    (hok : w.callInLoop c n call = .ok w') : Mute l w w' := by
  have hcalled : Event.IsMute l (.called .loop call) := by
    cases call with
    | send payload => exact absurd rfl (hcall payload)
    | shutdown | forceClose | forceCloseWithDelay => trivial
  rw [callInLoop] at hok
  split_ifs at hok with hguard
  · obtain ⟨v, hv, hok⟩ := bind_eq_ok.mp hok
    obtain rfl := Except.ok.inj hok
    suffices hmute : Mute l w v from hmute.trans (mute_record v trivial)
    have hrecord := mute_record w hcalled
    cases call with
    | send payload => exact absurd rfl (hcall payload)
    | shutdown =>
      obtain rfl := Except.ok.inj hv
      have hset : Mute l w { w.record (.called .loop .shutdown) with state := .kDisconnecting } :=
        { hrecord with }
      exact hset.trans (mute_shutdownInLoop _)
    | forceClose | forceCloseWithDelay =>
      obtain rfl := Except.ok.inj hv
      exact { hrecord with }
  · obtain rfl := Except.ok.inj hok
    exact mute_refl w

theorem mute_call (w : World) (t : ℕ) (call : Call) :
    Mute (Label.call t call) w (w.call t call) := by
  have hcalled : Event.IsMute (Label.call t call) (.called (.other t) call) := by
    cases call with
    | send payload => exact rfl
    | shutdown | forceClose | forceCloseWithDelay => trivial
  rw [World.call]
  split_ifs with hguard
  · exact { mute_record w hcalled with }
  · exact mute_refl w

theorem mute_continueCall (w : World) (t : ℕ) : Mute l w (w.continueCall t) := by
  rw [continueCall]
  split
  · exact mute_refl w
  · next a as _ =>
    have hperform : Mute l w
        ({ w with calls := Function.update w.calls t as }.perform a) := by
      cases a <;> exact { mute_refl w with }
    dsimp only
    split_ifs
    · exact hperform.trans (mute_record _ trivial)
    · exact hperform

/-! ### Steps -/

/-- `sendInLoop` writes the whole message exactly when none of it is unsent. -/
theorem exists_sendInLoop_unsent (htracked : Tracked c.sockfd w.loop) (n : Option ℕ)
    (sender : Thread) (message : List UInt8) :
    ∃ w' k es fs, w.sendInLoop c n sender message = .ok w' ∧
      w'.outputBuffer = w.outputBuffer ++ message.drop k ∧
      w'.log = w.log ++ .sent sender message :: es ∧ Sending c w message k es fs ∧
      (k < message.length ↔ w.Unsent n message) := by
  obtain ⟨k, es, fs, hdirect, hsending⟩ :=
    exists_sendDirectly (c := c) (w := w) n message (.sent sender message)
  have hlt := sendDirectly_lt_iff (c := c) (w := w) n message (.sent sender message)
  rw [hdirect] at hlt
  rw [sendInLoop, hdirect]
  dsimp only
  split_ifs with hk
  · obtain ⟨loop, hbuffer, -⟩ := exists_buffer (c := c) (w := { w with
        pendingFunctors := w.pendingFunctors ++ fs
        log := w.log ++ .sent sender message :: es }) htracked (message.drop k)
    exact ⟨_, k, es, fs, hbuffer, rfl, rfl, hsending, hlt⟩
  · refine ⟨_, k, es, fs, rfl, ?_, rfl, hsending, hlt⟩
    rw [List.drop_eq_nil_of_le (Nat.le_of_not_lt hk), List.append_nil]

/-- The step is a `sendInLoop` whose message the socket takes whole, at once. -/
def Completes (w : World) : Label → Prop
  | .callInLoop n (.send payload) => (w.work = [] ∨ w.work.head? = some .userCode) ∧
      w.state = .kConnected ∧ ¬w.Unsent n payload.message
  | .runFunctor n => w.work = [] ∧ ∃ sender message,
      w.pendingFunctors.head? = some (.sendInLoop sender message) ∧ ¬w.Unsent n message
  | _ => False

/-- What a step can do to the output: nothing, or run one of the two writers. -/
inductive OutputEffect (c : Setup) (l : Label) (w w' : World) : Prop where
  | mute (h : Mute l w w') (hnot : ¬w.Completes l)
  | sent (pre es post : List Event) (sender : Thread) (message : List UInt8) {fs : List Functor}
    {k : ℕ} (hpre : ∀ e ∈ pre, e.IsMute l) (hpost : ∀ e ∈ post, e.IsMute l)
    (hlog : w'.log = w.log ++ (pre ++ .sent sender message :: es ++ post))
    (hout : w'.outputBuffer = w.outputBuffer ++ message.drop k)
    (hsending : Sending c w message k es fs) (hwhole : w.Completes l ↔ ¬k < message.length)
  | flushed {es : List Event} {fs : List Functor} {k : ℕ} (htask : .handle .write ∈ w.work)
    (hlog : w'.log = w.log ++ es) (hout : w'.outputBuffer = w.outputBuffer.drop k)
    (hflushing : Flushing c w k es fs) (hnot : ¬w.Completes l)

/-- The loop's thread calls `send`. -/
theorem outputEffect_send (htracked : Tracked c.sockfd w.loop) {n : Option ℕ} {payload : Payload}
    (henabled : w.work = [] ∨ w.work.head? = some .userCode)
    (hok : w.callInLoop c n (.send payload) = .ok w') :
    OutputEffect c (.callInLoop n (.send payload)) w w' := by
  rw [callInLoop] at hok
  split_ifs at hok with hguard
  · obtain ⟨v, hv, hok⟩ := bind_eq_ok.mp hok
    obtain rfl := Except.ok.inj hok
    rw [Call.body, List.foldlM_cons] at hv
    obtain ⟨u, hu, hv⟩ := bind_eq_ok.mp hv
    obtain rfl := Except.ok.inj hv
    obtain ⟨u', k, es, fs, heq, hout, hlog, hsending, hlt⟩ := exists_sendInLoop_unsent
      (w := w.record (.called .loop (.send payload))) htracked n .loop payload.message
    obtain rfl := Except.ok.inj (heq.symm.trans hu)
    refine .sent [.called .loop (.send payload)] es [.returned .loop] .loop _ ?_ ?_ ?_ hout
      (hsending.congr rfl rfl) ?_
    · simp [Event.IsMute, Label.payload?]
    · simp [Event.IsMute]
    · simp [record, hlog]
    · rw [hlt]
      exact ⟨fun hw => hw.2.2, fun hw => ⟨henabled, hguard, hw⟩⟩
  · obtain rfl := Except.ok.inj hok
    exact .mute (mute_refl w) fun hw => hguard hw.2.1

/-- The functor `sendInLoop` of another thread is run. -/
theorem outputEffect_sendInLoop (htracked : Tracked c.sockfd w.loop) {n : Option ℕ}
    (hidle : w.work = []) {sender : Thread} {message : List UInt8} {fs : List Functor}
    (hfs : w.pendingFunctors = .sendInLoop sender message :: fs)
    (hok : { w with pendingFunctors := fs }.sendInLoop c n sender message = .ok w') :
    OutputEffect c (.runFunctor n) w w' := by
  obtain ⟨u, k, es, fs', heq, hout, hlog, hsending, hlt⟩ := exists_sendInLoop_unsent
    (w := { w with pendingFunctors := fs }) htracked n sender message
  obtain rfl := Except.ok.inj (heq.symm.trans hok)
  have hhead : w.pendingFunctors.head? = some (.sendInLoop sender message) := by
    rw [hfs, List.head?_cons]
  refine .sent [] es [] sender message (by simp) (by simp) ?_ hout (hsending.congr rfl rfl) ?_
  · rw [hlog, List.nil_append, List.append_nil]
  · rw [hlt]
    constructor
    · rintro ⟨-, sender', message', hhead', hw⟩
      obtain ⟨-, rfl⟩ := Functor.sendInLoop.inj (Option.some.inj (hhead.symm.trans hhead'))
      exact hw
    · exact fun hw => ⟨hidle, sender, message, hhead, hw⟩

theorem outputEffect_runTask (htracked : Tracked c.sockfd w.loop) {n : Option ℕ}
    (hok : w.runTask c n = .ok w') : OutputEffect c (.runTask n) w w' := by
  rw [runTask] at hok
  split at hok
  · obtain rfl := Except.ok.inj hok
    exact .mute (mute_refl w) id
  · next task work hwork =>
    have hpop : Mute (.runTask n) w { w with work } := { mute_refl w with }
    cases task with
    | handle callback =>
      cases callback with
      | error =>
        obtain rfl := Except.ok.inj hok
        exact .mute hpop id
      | close =>
        exact .mute (hpop.trans (mute_handleClose (w := { w with work }) htracked hok)) id
      | read =>
        exact .mute (hpop.trans (mute_handleRead (w := { w with work }) htracked hok)) id
      | write =>
        obtain ⟨loop, k, es, fs, heq, hflushing, -⟩ :=
          exists_handleWrite (w := { w with work }) htracked n
        obtain rfl := Except.ok.inj (heq.symm.trans hok)
        have htask : .handle .write ∈ w.work := by
          rw [hwork]
          exact List.mem_cons_self
        exact .flushed htask rfl rfl (hflushing.congr rfl rfl rfl) id
    | connCb =>
      obtain rfl := Except.ok.inj hok
      exact .mute (hpop.trans (mute_record _ trivial)) id
    | userCode =>
      obtain rfl := Except.ok.inj hok
      exact .mute hpop id
    | removeChannel =>
      obtain ⟨loop, -, rfl⟩ := removeChannel_eq_ok (w := { w with work }) htracked hok
      exact .mute { hpop with } id

theorem outputEffect_runFunctor (htracked : Tracked c.sockfd w.loop) (hidle : w.work = [])
    {n : Option ℕ} (hok : w.act c (.runFunctor n) = .ok w') :
    OutputEffect c (.runFunctor n) w w' := by
  simp only [act] at hok
  split at hok
  · next f fs hfs =>
    by_cases hf : ∃ sender message, f = .sendInLoop sender message
    · obtain ⟨sender, message, rfl⟩ := hf
      exact outputEffect_sendInLoop htracked hidle hfs hok
    · push Not at hf
      have hpop : Mute (.runFunctor n) w { w with pendingFunctors := fs } := { mute_refl w with }
      refine .mute (hpop.trans (mute_invoke (w := { w with pendingFunctors := fs }) htracked hf
        hok)) ?_
      rintro ⟨-, sender, message, hhead, -⟩
      rw [hfs] at hhead
      exact hf sender message (Option.some.inj hhead)
  · next hfs =>
    obtain rfl := Except.ok.inj hok
    refine .mute (mute_refl w) ?_
    rintro ⟨-, sender, message, hhead, -⟩
    rw [hfs] at hhead
    cases hhead

/-- What any step does to the output. -/
theorem outputEffect_step (htracked : Tracked c.sockfd w.loop) (hok : w.step c l = .ok w') :
    OutputEffect c l w w' := by
  rw [step] at hok
  split_ifs at hok with henabled
  · cases l with
    | callInLoop n call =>
      cases call with
      | send payload => exact outputEffect_send htracked henabled hok
      | shutdown | forceClose | forceCloseWithDelay =>
        exact .mute (mute_callInLoop (fun _ hcall => by cases hcall) hok) id
    | call t call =>
      obtain rfl := Except.ok.inj hok
      exact .mute (mute_call w t call) id
    | continueCall t =>
      obtain rfl := Except.ok.inj hok
      exact .mute (mute_continueCall w t) id
    | handleEvent revents =>
      obtain rfl := Except.ok.inj hok
      exact .mute { mute_refl w with } id
    | runTask n => exact outputEffect_runTask htracked hok
    | runFunctor n => exact outputEffect_runFunctor htracked henabled hok
    | timeout =>
      have hpop : Mute .timeout w { w with timers := w.timers - 1 } := { mute_refl w with }
      exact .mute (hpop.trans (mute_callInLoop (fun _ hcall => by cases hcall) hok)) id
    | removeConnectionInLoop =>
      obtain ⟨-, rfl⟩ := removeConnectionInLoop_eq_ok hok
      exact .mute { mute_refl w with } id
  · obtain rfl := Except.ok.inj hok
    refine .mute (mute_refl w) ?_
    cases l with
    | callInLoop n call =>
      cases call with
      | send payload => exact fun hw => henabled hw.1
      | shutdown | forceClose | forceCloseWithDelay => exact id
    | runFunctor n => exact fun hw => henabled hw.1
    | _ => exact id

/-- A step that completes a message succeeds, and does not close. -/
theorem Completes.exists_step (h : w.Completes l) (htracked : Tracked c.sockfd w.loop) :
    ∃ w', w.step c l = .ok w' ∧ (.close ∈ w'.log → .close ∈ w.log) := by
  cases l with
  | callInLoop n call =>
    cases call with
    | send payload =>
      obtain ⟨henabled, hstate, -⟩ := h
      obtain ⟨w', hok, hneutral, -⟩ := exists_neutral_sendInLoop (c := c)
        (w := w.record (.called .loop (.send payload))) htracked n .loop payload.message
      refine ⟨w'.record (.returned .loop), ?_, fun hclose => ?_⟩
      · refine (step_of_enabled (l := .callInLoop n (.send payload)) henabled).trans ?_
        exact (if_pos hstate).trans (bind_of_ok (bind_of_ok hok _) _)
      · have hclose' : .close ∈ w'.log := by simpa [record] using hclose
        simpa [record] using hneutral.still.close_iff.mp hclose'
    | shutdown | forceClose | forceCloseWithDelay => exact h.elim
  | runFunctor n =>
    obtain ⟨hidle, sender, message, hhead, -⟩ := h
    obtain ⟨fs, hfs⟩ := List.head?_eq_some_iff.mp hhead
    obtain ⟨w', hok, hneutral, -⟩ := exists_neutral_sendInLoop (c := c)
      (w := { w with pendingFunctors := fs }) htracked n sender message
    refine ⟨w', ?_, hneutral.still.close_iff.mp⟩
    rw [step_of_enabled (l := .runFunctor n) hidle, act, hfs]
    exact hok
  | _ => exact h.elim

/-! ### Nonempty messages -/

/-- The step does not ask to send an empty message. -/
def Label.Worded (l : Label) : Prop := ∀ payload, l.payload? = some payload → payload.message ≠ []

theorem requested_of_isMute {es : List Event} (hworded : l.Worded) (h : ∀ e ∈ es, e.IsMute l) :
    ∀ q ∈ requested es, q.2 ≠ [] := by
  intro q hq
  obtain ⟨e, he, heq⟩ := List.mem_filterMap.mp hq
  have hmute := h e he
  cases e with
  | called thread call =>
    cases call with
    | send payload =>
      obtain rfl := Option.some.inj heq
      exact hworded payload hmute
    | shutdown | forceClose | forceCloseWithDelay => cases heq
  | _ => cases heq

theorem OutputEffect.requested (h : OutputEffect c l w w') (hworded : l.Worded)
    (hnonempty : ∀ q ∈ requested w.log, q.2 ≠ []) : ∀ q ∈ requested w'.log, q.2 ≠ [] := by
  cases h with
  | mute h =>
    obtain ⟨es, hlog, hmute⟩ := h.log_eq
    rw [hlog, requested_append]
    intro q hq
    exact (List.mem_append.mp hq).elim (hnonempty q) (requested_of_isMute hworded hmute q)
  | sent pre es post sender message hpre hpost hlog _ hsending =>
    have hsent : TcpConnection.requested (.sent sender message :: es) = [] := hsending.rest.2.2
    rw [hlog, requested_append, requested_append, requested_append, hsent, List.append_nil]
    intro q hq
    rcases List.mem_append.mp hq with hq | hq
    · exact hnonempty q hq
    · rcases List.mem_append.mp hq with hq | hq
      · exact requested_of_isMute hworded hpre q hq
      · exact requested_of_isMute hworded hpost q hq
  | flushed _ hlog _ hflushing =>
    rw [hlog, requested_append, hflushing.rest.2.2, List.append_nil]
    exact hnonempty

/-- A message whose `sendInLoop` has been executed was asked for. -/
theorem Intact.requested_of_executed (h : Intact c w) {q : Thread × List UInt8}
    (hq : q ∈ executed w.log) : q ∈ requested w.log := by
  have hmem : q.2 ∈ Mailbox.messagesOf q.1 (executed w.log) :=
    List.mem_map.mpr ⟨q, List.mem_filter.mpr ⟨hq, by simp⟩, rfl⟩
  obtain ⟨r, hr, heq⟩ := List.mem_map.mp ((h.inOrder.taken_prefix q.1).subset hmem)
  obtain ⟨hr', hsender⟩ := List.mem_filter.mp hr
  obtain rfl : r = q := Prod.ext (by simpa using hsender) heq
  exact hr'

/-! ### The result -/

/-- What a run over nonempty messages keeps: the history says what is in the output buffer. -/
structure Accounted (c : Setup) (w : World) : Prop where
  intact : Intact c w
  unwritten_eq : unwritten [] w.log = w.outputBuffer
  nonempty : ∀ q ∈ requested w.log, q.2 ≠ []

theorem accounted_init (c : Setup) : Accounted c init :=
  ⟨intact_init c, rfl, fun _ hq => absurd hq List.not_mem_nil⟩

/-- One step of the accounts: they are kept, and the notifications stay where they belong unless
a message is completed for a connection without the callback. -/
theorem Accounted.step (h : Accounted c w) (hset : c.wriComCb = true ∨ c.isSet .write = false)
    (hworded : l.Worded) (hok : w.step c l = .ok w') :
    Accounted c w' ∧ (Notified w.log →
      (Notified w'.log ↔ c.wriComCb = true ∨ ¬w.Completes l)) := by
  have heffect := outputEffect_step h.intact.sound.tracked hok
  have hintact := h.intact.step hok
  have hnonempty := heffect.requested hworded h.nonempty
  cases heffect with
  | mute hmute hnot =>
    obtain ⟨es, hlog, hes⟩ := hmute.log_eq
    obtain ⟨hunwritten, hfilter, hannotate⟩ := annotate_of_isMute (p := w.outputBuffer) hes
    refine ⟨⟨hintact, ?_, hnonempty⟩, fun hnotified => iff_of_true ?_ (.inr hnot)⟩
    · rw [hlog, unwritten_append, h.unwritten_eq, hunwritten, hmute.output_eq]
    · rw [hlog, notified_append_iff hnotified, h.unwritten_eq, hfilter, hannotate]
  | sent pre es post sender message hpre hpost hlog hout hsending hwhole =>
    have hne : message ≠ [] := by
      refine hnonempty (sender, message) (hintact.requested_of_executed ?_)
      rw [hlog]
      simp [executed]
    obtain ⟨hsent, hiff⟩ := hsending.annotate_eq sender hne
    obtain ⟨hunwritten, hfilter, hannotate⟩ := annotate_of_isMute (p := w.outputBuffer) hpre
    obtain ⟨hunwritten', hfilter', hannotate'⟩ :=
      annotate_of_isMute (p := w.outputBuffer ++ message.drop _) hpost
    refine ⟨⟨hintact, ?_, hnonempty⟩, fun hnotified => ?_⟩
    · rw [hlog, unwritten_append, unwritten_append, unwritten_append, h.unwritten_eq, hunwritten,
        hsent, hunwritten', hout]
    · -- what comes before and after `sendInLoop` in the step does not matter
      rw [hwhole, not_not, ← hiff, hlog, notified_append_iff hnotified, h.unwritten_eq,
        unnotified_append, unnotified_append, hfilter, hfilter', annotate_append, annotate_append,
        unwritten_append, hannotate, hunwritten, unwritten_unnotified, hsent, hannotate',
        List.append_left_inj, List.append_right_inj]
  | flushed htask hlog hout hflushing hnot =>
    -- `handleWrite` is only called for a connection with the callback
    have hwriComCb : c.wriComCb = true := by
      refine hset.resolve_right fun hnone => ?_
      rw [h.intact.sound.work _ htask] at hnone
      cases hnone
    obtain ⟨hunwritten, hannotate⟩ := hflushing.annotate_eq hwriComCb
    refine ⟨⟨hintact, ?_, hnonempty⟩, fun hnotified => iff_of_true ?_ (.inr hnot)⟩
    · rw [hlog, unwritten_append, h.unwritten_eq, hunwritten, hout]
    · rw [hlog, notified_append_iff hnotified, h.unwritten_eq, hannotate]

end World

open World

/-- The connections of an owner that has a write-complete callback when it makes them. -/
inductive MadeWithCallback : Setup → Prop where
  | server (sockfd : ℕ) (baseIsIoLoop : Bool) :
    MadeWithCallback (.server sockfd baseIsIoLoop true)
  | client (sockfd : ℕ) : MadeWithCallback (.client sockfd)

/-- Before any close, the notifications are where they belong. -/
def Notifies (w : World) : Prop := .close ∉ w.log → Notified w.log

/-- Before any close, the step does not complete a message for a connection whose own callback is
not set. -/
def Unnoticed (c : Setup) (w : World) (l : World.Label) : Prop :=
  .close ∉ w.log → c.wriComCb = true ∨ ¬w.Completes l

theorem World.Accounted.notifies_iff {c : Setup} {w : World} {l : World.Label}
    (h : Accounted c w) (hset : c.wriComCb = true ∨ c.isSet .write = false)
    (hnotifies : Notifies w) (hworded : l.Worded) :
    Machine.UnlessFault Notifies (w.step c l) ↔ Unnoticed c w l := by
  have htracked := h.intact.sound.tracked
  constructor
  · intro hpost hclose
    by_contra hcond
    obtain ⟨hunset, hcompletes⟩ := not_or.mp hcond
    obtain ⟨w', hok, hclose'⟩ := (not_not.mp hcompletes).exists_step htracked
    have hnotified := hpost w' hok fun hmem => hclose (hclose' hmem)
    exact hcond (((h.step hset hworded hok).2 (hnotifies hclose)).mp hnotified)
  · intro hcond w' hok hclose'
    have hclose : .close ∉ w.log :=
      fun hmem => hclose' ((log_grows_step h.intact.sound hok).subset hmem)
    exact ((h.step hset hworded hok).2 (hnotifies hclose)).mpr (hcond hclose)

/-- **Write-complete notification.** For a connection made by a server or a client that has a
write-complete callback, and any interleaving in which no empty message is sent: the callback is
queued each time the output becomes empty before a close, and at no other time, exactly when
either the owner has passed the callback on or no message is taken whole by the socket at once. -/
theorem write_complete_iff {c : Setup} (hmade : MadeWithCallback c) {ls : List World.Label}
    (hworded : ∀ l ∈ ls, l.Worded) :
    Machine.Along (World.step c) (Machine.onResult (Machine.UnlessFault Notifies)) World.init ls ↔
      Machine.Along (World.step c) (Machine.onInput (Unnoticed c)) World.init ls := by
  have hset : c.wriComCb = true ∨ c.isSet .write = false := by
    cases hmade with
    | server => exact .inl rfl
    | client => exact .inr rfl
  have hinit : Accounted c World.init ∧ Notifies World.init := ⟨accounted_init c, fun _ => rfl⟩
  refine Machine.along_iff_along_of_forall (fun w => Accounted c w ∧ Notifies w) hworded hinit ?_ ?_
  · intro w l h hl
    exact h.1.notifies_iff hset h.2 hl
  · intro w l w' h hl hpost hok
    exact ⟨(h.1.step hset hl hok).1, hpost w' hok⟩

/-- A message is taken in part, and then a writable event comes. -/
def takenInPart : List World.Label :=
  [.runFunctor none, .runTask none, .runTask none,
    .callInLoop (some 1) (.send (.string [1, 2])), .handleEvent POLLOUT]

theorem write_complete_iff_takenInPart :
    Machine.Along (World.step (.client 5)) (Machine.onResult (Machine.UnlessFault Notifies))
        World.init takenInPart ↔
      Machine.Along (World.step (.client 5)) (Machine.onInput (Unnoticed (.client 5)))
        World.init takenInPart := by
  refine write_complete_iff (.client 5) ?_
  intro l hl payload hpayload
  simp only [takenInPart, List.mem_cons, List.not_mem_nil, or_false] at hl
  rcases hl with rfl | rfl | rfl | rfl | rfl
  all_goals cases hpayload
  decide

/-- A message is taken whole at once. -/
def takenWhole : List World.Label :=
  [.runFunctor none, .runTask none, .runTask none, .callInLoop (some 2) (.send (.string [1, 2]))]

/-- The connection of a server queues its callback; the connection of a client has none. -/
theorem not_notified : ∃ w w',
    Machine.run (World.step (.server 5 true true)) World.init takenWhole = .ok w ∧
    Machine.run (World.step (.client 5)) World.init takenWhole = .ok w' ∧
    w.pendingFunctors = [.wriComCb] ∧ w'.pendingFunctors = [] ∧ .close ∉ w'.log ∧
    Notified w.log ∧ ¬Notified w'.log ∧
    ¬Machine.Along (World.step (.client 5)) (Machine.onResult (Machine.UnlessFault Notifies))
      World.init takenWhole := by
  refine ⟨_, _, rfl, rfl, rfl, rfl, by decide, by decide, by decide, ?_⟩
  intro h
  have hnotifies := h.of_run_eq_ok (fun _ => rfl) rfl
  exact absurd (hnotifies (by decide)) (by decide)

end TcpConnection

end MuduoRebuild
