import MuduoRebuild.TcpConnection.Lifecycle

/-!
# Interest in writing and the backlog

Four places change the output buffer of a connection or the interest of its channel in writable
events: the second part of `sendInLoop`, the end of `handleWrite`, and the two functions that
disable the channel. As long as the channel is not disabled, it is interested in writable events
exactly when there is something in the output buffer.

The member functions are called here at any time and with any result of `::write`, since the
constructor does not connect `handleWrite` with the channel. Between these calls the loop, the user
and the other threads take their steps as before.
-/

namespace MuduoRebuild

namespace TcpConnection

open Fallible

namespace World

/-- The step runs `connDestroyed`. -/
def Destroys (w : World) : Label → Prop
  | .runFunctor _ => w.work = [] ∧ w.pendingFunctors.head? = some .connDestroyed
  | _ => False

instance (w : World) (l : Label) : Decidable (w.Destroys l) :=
  match l with
  | .runFunctor _ => inferInstanceAs (Decidable (w.work = [] ∧
      w.pendingFunctors.head? = some .connDestroyed))
  | .callInLoop .. | .call .. | .continueCall _ | .handleEvent _ | .runTask _ | .timeout
  | .removeConnectionInLoop => inferInstanceAs (Decidable False)

/-- The channel is interested in writable events exactly when there is a backlog. -/
structure Backed (c : Setup) (w : World) : Prop where
  tracked : Tracked c.sockfd w.loop
  writing_iff : w.isWriting = true ↔ w.outputBuffer ≠ []

/-- A step that keeps out of the output. -/
structure Aside (c : Setup) (w w' : World) : Prop where
  tracked : Tracked c.sockfd w'.loop
  output_eq : w'.outputBuffer = w.outputBuffer
  writing_eq : w'.isWriting = w.isWriting
  log_eq : ∃ es, w'.log = w.log ++ es ∧ writes es = [] ∧ .shutdownWrite ∉ es

/-- The backlog is looked after from one state to the next. `flushes` says whether it is
`handleWrite` that writes. -/
structure InOrder (flushes : Prop) (w w' : World) : Prop where
  writing_iff : w'.isWriting = true ↔ w'.outputBuffer ≠ []
  /-- The socket is shut down for writing only without a backlog, and `sendInLoop` writes only when
  there is nothing before its message. -/
  log_eq : ∃ es, w'.log = w.log ++ es ∧ (.shutdownWrite ∈ es → w'.outputBuffer = []) ∧
    (¬flushes → writes es ≠ [] → w.outputBuffer = [])

/-- The backlog is looked after, and the poller still has the channel. -/
structure Tends (c : Setup) (flushes : Prop) (w w' : World) : Prop
    extends InOrder flushes w w' where
  tracked : Tracked c.sockfd w'.loop

variable {c : Setup} {w w' w'' : World} {p : Prop}

theorem Tends.backed (h : Tends c p w w') : Backed c w' := ⟨h.tracked, h.writing_iff⟩

theorem backed_init (c : Setup) : Backed c init := ⟨tracked_init _, by decide⟩

/-! ### Steps that keep out of the output -/

theorem aside_refl (h : Tracked c.sockfd w.loop) : Aside c w w :=
  ⟨h, rfl, rfl, [], (List.append_nil _).symm, rfl, List.not_mem_nil⟩

theorem Aside.backed (h : Aside c w w') (hw : Backed c w) : Backed c w' := by
  refine ⟨h.tracked, ?_⟩
  rw [h.writing_eq, h.output_eq]
  exact hw.writing_iff

theorem Aside.trans (h : Aside c w w') (h' : Aside c w' w'') : Aside c w w'' := by
  obtain ⟨es, hes, hwrites, hshut⟩ := h.log_eq
  obtain ⟨es', hes', hwrites', hshut'⟩ := h'.log_eq
  refine ⟨h'.tracked, h'.output_eq.trans h.output_eq, h'.writing_eq.trans h.writing_eq, es ++ es',
    ?_, ?_, ?_⟩
  · rw [hes', hes, List.append_assoc]
  · rw [writes_append, hwrites, hwrites', List.append_nil]
  · rw [List.mem_append, not_or]
    exact ⟨hshut, hshut'⟩

theorem Aside.tends (h : Aside c w w') (hw : Backed c w) : Tends c p w w' := by
  obtain ⟨es, hes, hwrites, hshut⟩ := h.log_eq
  exact ⟨⟨(h.backed hw).writing_iff, es, hes, fun hmem => absurd hmem hshut,
    fun _ hne => absurd hwrites hne⟩, h.tracked⟩

theorem Aside.trans_tends (h : Aside c w w') (h' : Tends c p w' w'') :
    Tends c p w w'' := by
  obtain ⟨es, hes, hwrites, hshut⟩ := h.log_eq
  obtain ⟨es', hes', hempty, hdirect⟩ := h'.log_eq
  refine ⟨⟨h'.writing_iff, es ++ es', ?_, fun hmem => ?_, fun hnot hne => ?_⟩, h'.tracked⟩
  · rw [hes', hes, List.append_assoc]
  · exact hempty ((List.mem_append.mp hmem).resolve_left hshut)
  · rw [writes_append, hwrites, List.nil_append] at hne
    exact h.output_eq ▸ hdirect hnot hne

theorem Tends.trans_aside (h : Tends c p w w') (h' : Aside c w' w'') :
    Tends c p w w'' := by
  obtain ⟨es, hes, hempty, hdirect⟩ := h.log_eq
  obtain ⟨es', hes', hwrites, hshut⟩ := h'.log_eq
  refine ⟨⟨(h'.backed h.backed).writing_iff, es ++ es', ?_, fun hmem => ?_, fun hnot hne => ?_⟩,
    h'.tracked⟩
  · rw [hes', hes, List.append_assoc]
  · exact h'.output_eq.trans (hempty ((List.mem_append.mp hmem).resolve_right hshut))
  · rw [writes_append, hwrites, List.append_nil] at hne
    exact hdirect hnot hne

/-- An event that is neither a write nor a half-close is logged. -/
theorem aside_record (h : Tracked c.sockfd w.loop) {e : Event} (hwrites : writes [e] = [])
    (hshut : e ≠ .shutdownWrite) : Aside c w (w.record e) :=
  { aside_refl h with
    log_eq := ⟨[e], rfl, hwrites, fun hmem => hshut (List.mem_singleton.mp hmem).symm⟩ }

theorem aside_call (h : Tracked c.sockfd w.loop) (t : ℕ) (call : Call) :
    Aside c w (w.call t call) := by
  rw [World.call]
  split_ifs with hguard
  · have hcalled := aside_record (w := { w with
      calls := Function.update w.calls t (call.body (.other t)) }) h
      (e := .called (.other t) call) rfl Event.noConfusion
    exact { hcalled with }
  · exact aside_refl h

theorem aside_perform (h : Tracked c.sockfd w.loop) (a : Action) : Aside c w (w.perform a) := by
  cases a <;> exact { aside_refl h with }

theorem aside_continueCall (h : Tracked c.sockfd w.loop) (t : ℕ) :
    Aside c w (w.continueCall t) := by
  rw [World.continueCall]
  split
  · exact aside_refl h
  · next a as hcalls =>
    have hpop : Aside c w { w with calls := Function.update w.calls t as } :=
      { aside_refl h with }
    have hperform := hpop.trans (aside_perform (w := { w with
      calls := Function.update w.calls t as }) h a)
    dsimp only
    split_ifs
    · exact hperform.trans (aside_record hperform.tracked rfl Event.noConfusion)
    · exact hperform

/-- `connEstablished` makes the channel read, and leaves its interest in writing. -/
theorem aside_connEstablished (h : Tracked c.sockfd w.loop) (hok : w.connEstablished c = .ok w') :
    Aside c w w' := by
  obtain ⟨_, -, hok⟩ := bind_eq_ok.mp hok
  obtain ⟨loop, hloop, htracked, -, hevents⟩ :=
    exists_update (w := { w with state := .kConnected }) h .enableReading
  rw [bind_of_ok hloop] at hok
  obtain rfl := Except.ok.inj hok
  refine { aside_refl h with tracked := htracked, writing_eq := ?_ }
  rw [isWriting, hevents, h.isEvents.isWriting_apply]
  rfl

/-- Only a channel without interests is removed. -/
theorem aside_removeChannel (h : Tracked c.sockfd w.loop) (hok : w.removeChannel c = .ok w') :
    Aside c w w' := by
  obtain ⟨loop', hloop, -⟩ := bind_eq_ok.mp hok
  obtain ⟨_, -, hrest⟩ := bind_eq_ok.mp hloop
  obtain ⟨_, hreg, hrest⟩ := bind_eq_ok.mp hrest
  obtain ⟨_, hsilent, -⟩ := bind_eq_ok.mp hrest
  replace hreg : w.loop.poller.channels c.sockfd = some () := check_eq_ok.mp hreg
  replace hsilent : w.loop.events () = 0 := check_eq_ok.mp hsilent
  obtain ⟨loop, heq, htracked, hevents⟩ := exists_removeChannel h hreg hsilent
  obtain rfl := Except.ok.inj (heq.symm.trans hok)
  refine { aside_refl h with tracked := htracked, writing_eq := ?_ }
  rw [isWriting, isWriting, hevents, hsilent]

theorem aside_removeConnectionInLoop (h : Tracked c.sockfd w.loop)
    (hok : w.removeConnectionInLoop = .ok w') : Aside c w w' := by
  obtain ⟨-, rfl⟩ := removeConnectionInLoop_eq_ok hok
  exact { aside_refl h with }

/-! ### The functions about the output -/

/-- `sendInLoop` asks for writable events as soon as it buffers something. -/
theorem Backed.sendInLoop (h : Backed c w) (n : Option ℕ) (sender : Thread)
    (message : List UInt8) :
    ∃ w', w.sendInLoop c n sender message = .ok w' ∧ Tends c p w w' := by
  obtain ⟨loop, k, es, fs, heq, hsending, htracked, -, hwriting⟩ :=
    exists_sendInLoop h.tracked n sender message
  refine ⟨_, heq, ⟨?_, _, rfl, fun hmem => ?_, fun _ hne => ?_⟩, htracked⟩
  · rw [isWriting, hwriting, Bool.or_eq_true, h.writing_iff, decide_eq_true_iff, Ne, Ne,
      List.append_eq_nil_iff, List.drop_eq_nil_iff, not_and_or, not_le]
  · -- `sendInLoop` does not shut down
    refine absurd hmem ?_
    rw [List.mem_cons, not_or]
    refine ⟨Event.noConfusion, ?_⟩
    cases hsending with
    | whole =>
      rw [Setup.completed]
      split_ifs <;> simp
    | _ => simp
  · by_contra hout
    exact hne (hsending.writes_eq hout).2

theorem Backed.shutdownInLoop (h : Backed c w) : Tends c p w w.shutdownInLoop := by
  rw [World.shutdownInLoop]
  split_ifs with hwriting
  · exact (aside_refl h.tracked).tends h
  · have hout : w.outputBuffer = [] := by
      by_contra hne
      exact hwriting (h.writing_iff.mpr hne)
    exact ⟨⟨h.writing_iff, [.shutdownWrite], rfl, fun _ => hout, fun _ hne => absurd rfl hne⟩,
      h.tracked⟩

/-- `handleWrite` gives the interest in writing up when it has emptied the output buffer. -/
theorem Backed.handleWrite (h : Backed c w) (hp : p) (n : Option ℕ) :
    ∃ w', w.handleWrite c n = .ok w' ∧ Tends c p w w' := by
  by_cases hwriting : w.isWriting = true
  · have hne : w.outputBuffer ≠ [] := h.writing_iff.mp hwriting
    obtain ⟨loop, k, es, fs, heq, hflushing, htracked, -, hnext⟩ := exists_handleWrite h.tracked n
    refine ⟨_, heq, ⟨?_, es, rfl, fun hmem => ?_, fun hnot => absurd hp hnot⟩, htracked⟩
    · rw [isWriting, hnext hne, hwriting, Bool.true_and, decide_eq_true_iff, Ne,
        List.drop_eq_nil_iff, not_le]
    · cases hflushing with
      | drained => exact List.drop_length
      | _ => simp at hmem
  · exact ⟨w, if_neg hwriting, (aside_refl h.tracked).tends h⟩

/-! ### Steps of the loop and of the threads -/

/-- A call in the loop's thread. -/
theorem Backed.callInLoop (h : Backed c w) {n : Option ℕ} {call : Call}
    (hok : w.callInLoop c n call = .ok w') : Tends c p w w' := by
  rw [World.callInLoop] at hok
  split_ifs at hok with hguard
  · obtain ⟨v, hv, hok⟩ := bind_eq_ok.mp hok
    obtain rfl := Except.ok.inj hok
    have hcalled : Aside c w (w.record (.called .loop call)) :=
      aside_record h.tracked rfl Event.noConfusion
    suffices hbody : Tends c p w v from
      hbody.trans_aside (aside_record hbody.tracked rfl Event.noConfusion)
    cases call with
    | send payload =>
      rw [Call.body, List.foldlM_cons] at hv
      obtain ⟨u, hu, hv⟩ := bind_eq_ok.mp hv
      obtain rfl := Except.ok.inj hv
      obtain ⟨u', hu', htends⟩ :=
        (hcalled.backed h).sendInLoop (p := p) n .loop payload.message
      obtain rfl := Except.ok.inj (hu'.symm.trans hu)
      exact hcalled.trans_tends htends
    | shutdown =>
      obtain rfl := Except.ok.inj hv
      have hset : Aside c w { w.record (.called .loop .shutdown) with state := .kDisconnecting } :=
        { hcalled with }
      exact hset.trans_tends (hset.backed h).shutdownInLoop
    | forceClose | forceCloseWithDelay =>
      obtain rfl := Except.ok.inj hv
      exact Aside.tends { hcalled with } h
  · exact Except.ok.inj hok ▸ (aside_refl h.tracked).tends h

/-- A functor that does not disable the channel. -/
theorem Backed.invoke (h : Backed c w) {n : Option ℕ} {f : Functor} (hdestroy : f ≠ .connDestroyed)
    (hclose : ¬(f = .forceCloseInLoop ∧ (w.state = .kConnected ∨ w.state = .kDisconnecting)))
    (hok : w.invoke c n f = .ok w') : Tends c p w w' := by
  cases f with
  | connEstablished => exact (aside_connEstablished h.tracked hok).tends h
  | connDestroyed => exact absurd rfl hdestroy
  | sendInLoop sender message =>
    obtain ⟨v, hv, htends⟩ := h.sendInLoop (p := p) n sender message
    obtain rfl := Except.ok.inj (hv.symm.trans hok)
    exact htends
  | shutdownInLoop =>
    obtain rfl := Except.ok.inj hok
    exact h.shutdownInLoop
  | forceCloseInLoop =>
    rw [World.invoke, forceCloseInLoop, if_neg fun hstate => hclose ⟨rfl, hstate⟩] at hok
    exact Except.ok.inj hok ▸ (aside_refl h.tracked).tends h
  | wriComCb | addTimerInLoop =>
    obtain rfl := Except.ok.inj hok
    exact Aside.tends { aside_refl h.tracked with } h

/-- The loop's thread goes on, unless it closes the connection. -/
theorem Backed.runTask (h : Backed c w) {n : Option ℕ} (hclose : ¬w.Closes (.runTask n))
    (hok : w.runTask c n = .ok w') :
    Tends c (w.work.head? = some (.handle .write)) w w' := by
  rw [World.runTask] at hok
  split at hok
  · exact Except.ok.inj hok ▸ (aside_refl h.tracked).tends h
  · next task work hwork =>
    have hhead : w.work.head? = some task := by rw [hwork, List.head?_cons]
    have hpop : Aside c w { w with work } := { aside_refl h.tracked with }
    cases task with
    | handle callback =>
      cases callback with
      | error => exact Except.ok.inj hok ▸ hpop.tends h
      | close => exact absurd (.inl hhead) hclose
      | read =>
        rcases n with _ | _ | n
        · exact Except.ok.inj hok ▸ hpop.tends h
        · exact absurd (.inr ⟨hhead, rfl⟩) hclose
        · obtain rfl := Except.ok.inj hok
          have hmessage : Aside c w (({ w with work } : World).record .message) :=
            hpop.trans (aside_record hpop.tracked rfl Event.noConfusion)
          exact Aside.tends { hmessage with } h
      | write =>
        obtain ⟨v, hv, htends⟩ := (hpop.backed h).handleWrite hhead n
        obtain rfl := Except.ok.inj (hv.symm.trans hok)
        exact hpop.trans_tends htends
    | connCb =>
      obtain rfl := Except.ok.inj hok
      exact (hpop.trans (aside_record hpop.tracked rfl Event.noConfusion)).tends h
    | userCode => exact Except.ok.inj hok ▸ hpop.tends h
    | removeChannel => exact (hpop.trans (aside_removeChannel hpop.tracked hok)).tends h

/-- A step that does not disable the channel. -/
theorem Backed.step (h : Backed c w) {l : Label} (hclose : ¬w.Closes l) (hdestroy : ¬w.Destroys l)
    (hok : w.step c l = .ok w') :
    Tends c (∃ n, l = .runTask n ∧ w.work.head? = some (.handle .write)) w w' := by
  rw [World.step] at hok
  split_ifs at hok with henabled
  · cases l with
    | callInLoop n call => exact h.callInLoop hok
    | call t call => exact Except.ok.inj hok ▸ (aside_call h.tracked t call).tends h
    | continueCall t => exact Except.ok.inj hok ▸ (aside_continueCall h.tracked t).tends h
    | handleEvent revents =>
      obtain rfl := Except.ok.inj hok
      exact Aside.tends { aside_refl h.tracked with } h
    | runTask n =>
      obtain ⟨⟨hwriting, es, hes, hshut, hdirect⟩, htracked⟩ := h.runTask hclose hok
      exact ⟨⟨hwriting, es, hes, hshut, fun hnot => hdirect fun hhead => hnot ⟨n, rfl, hhead⟩⟩,
        htracked⟩
    | runFunctor n =>
      simp only [act] at hok
      split at hok
      · next f fs hfs =>
        have hhead : w.pendingFunctors.head? = some f := by rw [hfs, List.head?_cons]
        have hpop : Aside c w { w with pendingFunctors := fs } := { aside_refl h.tracked with }
        refine hpop.trans_tends ((hpop.backed h).invoke ?_ ?_ hok)
        · rintro rfl
          exact hdestroy ⟨henabled, hhead⟩
        · rintro ⟨rfl, hstate⟩
          exact hclose ⟨henabled, hhead, hstate⟩
      · exact Except.ok.inj hok ▸ (aside_refl h.tracked).tends h
    | timeout =>
      have hpop : Aside c w { w with timers := w.timers - 1 } := { aside_refl h.tracked with }
      exact hpop.trans_tends ((hpop.backed h).callInLoop hok)
    | removeConnectionInLoop =>
      have hpop : Aside c w { w with removals := w.removals - 1 } := { aside_refl h.tracked with }
      exact (hpop.trans (aside_removeConnectionInLoop hpop.tracked hok)).tends h
  · exact Except.ok.inj hok ▸ (aside_refl h.tracked).tends h

end World

open World

/-- A call of one of the member functions about the output, or any step of the loop, the user or
another thread. -/
inductive Activity where
  | sendInLoop (n : Option ℕ) (sender : Thread) (message : List UInt8)
  | handleWrite (n : Option ℕ)
  | shutdownInLoop
  | other (l : World.Label)

namespace Activity

variable (c : Setup) (w : World)

def perform : Activity → Except Fault World
  | .sendInLoop n sender message => w.sendInLoop c n sender message
  | .handleWrite n => w.handleWrite c n
  | .shutdownInLoop => .ok w.shutdownInLoop
  | .other l => w.step c l

/-- Neither `handleClose` nor `connDestroyed` is run. -/
def KeepsOpen : Activity → Prop
  | .other l => ¬w.Closes l ∧ ¬w.Destroys l
  | .sendInLoop .. | .handleWrite _ | .shutdownInLoop => True

/-- It is `handleWrite` that is run. -/
def Flushes : Activity → Prop
  | .handleWrite _ => True
  | .other l => ∃ n, l = .runTask n ∧ w.work.head? = some (.handle .write)
  | .sendInLoop .. | .shutdownInLoop => False

/-- The backlog is looked after. The member functions about the output do not fail. -/
def LooksAfter (a : Activity) (r : Except Fault World) : Prop :=
  match a with
  | .other _ => Machine.UnlessFault (InOrder (a.Flushes w) w) r
  | .sendInLoop .. | .handleWrite _ | .shutdownInLoop =>
    Machine.Succeeds (InOrder (a.Flushes w) w) r

instance (w : World) (a : Activity) : Decidable (a.KeepsOpen w) :=
  match a with
  | .other l => inferInstanceAs (Decidable (¬w.Closes l ∧ ¬w.Destroys l))
  | .sendInLoop .. | .handleWrite _ | .shutdownInLoop => inferInstanceAs (Decidable True)

variable {c w} {w' : World} {a : Activity}

/-- A step that does not disable the channel looks after the backlog. -/
theorem tends_of_keepsOpen (hw : Backed c w) (ha : a.KeepsOpen w) (hok : a.perform c w = .ok w') :
    Tends c (a.Flushes w) w w' := by
  cases a with
  | sendInLoop n sender message =>
    obtain ⟨v, hv, htends⟩ := hw.sendInLoop n sender message
    obtain rfl := Except.ok.inj (hv.symm.trans hok)
    exact htends
  | handleWrite n =>
    obtain ⟨v, hv, htends⟩ := hw.handleWrite trivial n
    obtain rfl := Except.ok.inj (hv.symm.trans hok)
    exact htends
  | shutdownInLoop =>
    obtain rfl := Except.ok.inj hok
    exact hw.shutdownInLoop
  | other l => exact hw.step ha.1 ha.2 hok

theorem looksAfter_of_keepsOpen (hw : Backed c w) (ha : a.KeepsOpen w) :
    a.LooksAfter w (a.perform c w) := by
  cases a with
  | sendInLoop n sender message =>
    obtain ⟨v, hv, htends⟩ := hw.sendInLoop n sender message
    exact ⟨v, hv, htends.toInOrder⟩
  | handleWrite n =>
    obtain ⟨v, hv, htends⟩ := hw.handleWrite trivial n
    exact ⟨v, hv, htends.toInOrder⟩
  | shutdownInLoop => exact ⟨_, rfl, hw.shutdownInLoop.toInOrder⟩
  | other l => exact fun v hv => (tends_of_keepsOpen hw ha hv).toInOrder

end Activity

open Activity

/-- **Interest matches backlog.** However `sendInLoop`, `handleWrite` and `shutdownInLoop` are
called between the steps of the loop and of the other threads, and whatever `::write` returns each
time: until `handleClose` or `connDestroyed` disables the channel, it is interested in writable
events exactly when the output buffer is not empty, the socket is shut down for writing only with an
empty output buffer, and only `handleWrite` writes while there is something in it. -/
theorem interest_matches_backlog (c : Setup) (as : List Activity)
    (h : Machine.Along (fun w a => perform c w a) (Machine.onInput fun w a => a.KeepsOpen w)
      World.init as) :
    Machine.Along (fun w a => perform c w a) (fun w a r => a.LooksAfter w r) World.init as := by
  refine Machine.Along.of_invariant (Backed c) (backed_init c) ?_ ?_ h
  · intro w a hw ha
    exact looksAfter_of_keepsOpen hw ha
  · intro w a w' hw ha hok
    exact (tends_of_keepsOpen hw ha hok).backed

/-- The socket takes the first of three bytes, nothing, and the rest in two parts. -/
def inParts : List Activity :=
  [.other (.runFunctor none), .sendInLoop (some 1) .loop [1, 2, 3], .sendInLoop (some 9) .loop [4],
    .handleWrite none, .handleWrite (some 0), .shutdownInLoop,
    .other (.call 7 .shutdown), .other (.continueCall 7), .handleWrite (some 2),
    .handleWrite (some 9)]

theorem interest_matches_backlog_inParts :
    Machine.Along (fun w a => perform (.server 5 true true) w a) (fun w a r => a.LooksAfter w r)
      World.init inParts ∧
    ∃ w, Machine.run (fun w a => perform (.server 5 true true) w a) World.init inParts = .ok w ∧
      w.isWriting = false ∧ accepted w.log = [1, 2, 3, 4] ∧ w.log.count .shutdownWrite = 1 :=
  ⟨interest_matches_backlog _ _ (by decide), _, rfl, rfl, by decide, by decide⟩

end TcpConnection

end MuduoRebuild
