import MuduoRebuild.Reactor.Callbacks
import MuduoRebuild.Reactor.Lifetime

/-!
# Dispatch never meets a removed channel

An `EventLoop` goes through `activeChannels_` while the callbacks that it calls remove and destroy
channels. In a process with one loop, without destructors of servers and clients, everything that a
callback removes besides its own channel is put off: open connections are in the custody of their
owners (see `Tended`). `dispatch_registered` says that then the channels that are still to be
handled are registered, and the one that is being handled exists.

The exception is `TcpClient::newConnection` of a client that has a connection: it destroys the
connection at once, which may be the next one in `activeChannels_`.
-/

namespace MuduoRebuild

namespace Reactor

open Fallible
open TcpServer (LoopId)

namespace World

variable {c : Setup} {w w' : World} {l : LoopId} {k : ConnId} {ch : ChannelId} {j n : ℕ}
  {a : Answer}

/-! ### Connections stay in custody -/

theorem minds_callback (hsingle : c.IsSingle) {callback : Channel.Callback}
    (hhome : c.home ch = .base)
    (hnone : ∀ j n, ch = .connector j n → callback = .write → ∀ client ∈ w.client j,
      client.Connects a → client.connection_ = none)
    (hok : w.callback c a ch callback = .ok w') : Minds w w' := by
  cases ch with
  | wakeup l => exact Except.ok.inj hok ▸ minds_refl w
  | timerQueue l =>
    cases callback with
    | read => exact Except.ok.inj hok ▸ minds_modify l rfl
    | write | error | close => exact Except.ok.inj hok ▸ minds_refl w
  | acceptor =>
    cases callback with
    | read => exact minds_handleAccept hsingle hok
    | write | error | close => exact Except.ok.inj hok ▸ minds_refl w
  | connector j n =>
    cases callback with
    | write => exact minds_handleConnected hsingle (hnone j n rfl rfl) hok
    | error => exact minds_handleError hsingle hok
    | read | close => exact Except.ok.inj hok ▸ minds_refl w
  | conn k =>
    cases callback with
    | close => exact minds_handleClose hsingle hhome hok
    | read => exact minds_handleRead hsingle hhome hok
    | write => exact minds_handleWrite hok
    | error => exact Except.ok.inj hok ▸ minds_refl w

/-- A functor that puts something off is run, other than `connDestroyed`. -/
theorem minds_invoke (hsingle : c.IsSingle) {f : Functor} (hposted : f.isPosted = true)
    (hdestroy : ∀ k, f ≠ .connDestroyed k) (hloop : ∀ l' ∈ f.assertedLoop c, .base = l')
    (hok : w.invoke c l a f = .ok w') : Minds w w' := by
  cases f with
  | connDestroyed k => exact absurd rfl (hdestroy k)
  | forceCloseInLoop k => exact minds_forceCloseInLoop hsingle (hloop _ rfl).symm hok
  | wriComCb k => exact Except.ok.inj hok ▸ minds_refl w
  | resetChannel j => exact minds_resetChannel hok
  | listen | connEstablished | removeConnectionInLoop | sendInLoop | shutdownInLoop
  | setCloseCallback | startInLoop | addTimerInLoop | cancelInLoop => cases hposted

/-- A functor is taken from the list. -/
theorem minds_take {f : Functor} {functors : List Functor}
    (hfunctors : (w.loops .base).functors = f :: functors) (hdestroy : ∀ k, f ≠ .connDestroyed k) :
    Minds w (w.modify .base fun s => { s with functors, ran := s.ran ++ [f] }) := by
  have htoRun : (w.loops .base).toRun = f ::
      ((w.modify .base fun s => { s with functors, ran := s.ran ++ [f] }).loops .base).toRun := by
    rw [loops_modify_self, LoopState.toRun, LoopState.toRun, hfunctors, List.cons_append]
  refine ⟨id, fun _ hk => .inl hk, fun k hheld _ => hheld.imp_right (Or.imp_right fun hmem => ?_),
    fun f' hf' => .inl ?_⟩
  · rw [htoRun, List.mem_cons] at hmem
    exact hmem.resolve_left fun heq => hdestroy k heq.symm
  · rw [htoRun]
    exact List.mem_cons_of_mem f hf'

/-- `connDestroyed` is taken from the list and run: its connection is not open any more. -/
theorem minds_connDestroyed {functors : List Functor}
    (hfunctors : (w.loops .base).functors = .connDestroyed k :: functors)
    (hok : (w.modify .base fun s => { s with
      functors, ran := s.ran ++ [.connDestroyed k] }).connDestroyed c k = .ok w') : Minds w w' := by
  generalize hv : (w.modify .base fun s => { s with
    functors, ran := s.ran ++ [.connDestroyed k] }) = v at hok
  obtain ⟨conn, -, hok⟩ := bind_eq_ok.mp hok
  obtain ⟨_, -, hok⟩ := bind_eq_ok.mp hok
  obtain ⟨u, hu, hok⟩ := bind_eq_ok.mp hok
  obtain rfl := Except.ok.inj hok
  have htoRun : (w.loops .base).toRun = .connDestroyed k :: (v.loops .base).toRun := by
    rw [← hv, loops_modify_self, LoopState.toRun, LoopState.toRun, hfunctors, List.cons_append]
  have hconn : v.conn = w.conn := hv ▸ rfl
  have hclosed : ∀ k', (v.setConn k { conn with state_ := .kDisconnected }).Open k' →
      k' ≠ k ∧ w.Open k' := by
    rintro k' ⟨x, hx, hisOpen⟩
    have hne : k' ≠ k := by
      rintro rfl
      obtain rfl := Option.some.inj ((Function.update_self (f := v.conn) ..).symm.trans hx)
      rcases hisOpen with h | h <;> cases h
    refine ⟨hne, x, ?_, hisOpen⟩
    rw [← hconn]
    exact (Function.update_of_ne hne ..).symm.trans hx
  have hset : Minds w (v.setConn k { conn with state_ := .kDisconnected }) := by
    refine ⟨fun h => ?_, fun k' hk' => .inl (hclosed k' hk').2, fun k' hheld hk' => ?_,
      fun f hf => .inl ?_⟩
    · rw [← hv]
      exact h
    · rcases hheld with h | h | h
      · exact .inl (by rw [← hv]; exact h)
      · refine .inr (.inl ?_)
        rw [inClient_ne_zero_iff] at h ⊢
        rw [← hv]
        exact h
      · rw [htoRun, List.mem_cons] at h
        exact .inr (.inr (h.resolve_left fun heq =>
          (hclosed k' hk').1 (Functor.connDestroyed.inj heq)))
    · rw [htoRun]
      exact List.mem_cons_of_mem _ hf
  exact hset.trans ((minds_update hu).trans (minds_modify _ rfl))

/-! ### Steps of the loop -/

/-- If the task makes the connection of a client, the client has none. -/
def ConnectsAnew (w : World) (a : Answer) : Task → Prop
  | .handle (.connector j _) .write => ∀ client ∈ w.client j, client.Connects a →
      client.connection_ = none
  | _ => True

instance (w : World) (a : Answer) (task : Task) : Decidable (w.ConnectsAnew a task) :=
  match task with
  | .handle (.connector j _) .write => inferInstanceAs (Decidable (∀ client ∈ w.client j,
      client.Connects a → client.connection_ = none))
  | .handle (.connector ..) .read | .handle (.connector ..) .error
  | .handle (.connector ..) .close | .handle (.wakeup _) _ | .handle (.timerQueue _) _
  | .handle .acceptor _ | .handle (.conn _) _ | .timer _ | .removeChannel _ =>
    inferInstanceAs (Decidable True)

/-- The step does not replace the connection of a client. -/
def Replaces (w : World) : Label → Prop
  | .runTask l a => ∃ task ∈ (w.loops l).work.head?, ¬w.ConnectsAnew a task
  | _ => False

instance (w : World) (l : Label) : Decidable (w.Replaces l) :=
  match l with
  | .runTask l _ => inferInstanceAs (Decidable (∃ task ∈ (w.loops l).work.head?, _))
  | .poll .. | .handleEvent _ | .takeFunctors _ | .runFunctor .. | .dropFunctors _ | .call ..
  | .copy _ | .drop _ | .destroyServer | .destroyClient .. => inferInstanceAs (Decidable False)

/-- What may happen in the thread of the base loop: its iterations, and calls of the user, who uses
no timers to close connections and destroys neither the server nor a client. -/
def Label.IsLocal : Label → Prop
  | .poll l _ | .handleEvent l | .runTask l _ | .takeFunctors l | .runFunctor l _
  | .dropFunctors l => l = .base
  | .call t _ f => t = some .base ∧ ∀ k, f ≠ .forceCloseWithDelay k
  | .copy _ | .drop _ => True
  | .destroyServer | .destroyClient .. => False

/-- The thread of the loop goes on. -/
theorem minds_runTask (h : w.Good c none none) (hsingle : c.IsSingle)
    (hreplaces : ¬w.Replaces (.runTask .base a)) (hok : w.act c (.runTask .base a) = .ok w') :
    Minds w w' := by
  simp only [act] at hok
  split at hok
  · exact Except.ok.inj hok ▸ minds_modify .base rfl
  · next task work hwork =>
    have hhead : (w.loops .base).work.head? = some task := by rw [hwork, List.head?_cons]
    have hanew : w.ConnectsAnew a task := by
      by_contra hnot
      exact hreplaces ⟨task, hhead, hnot⟩
    have hpop : Minds w (w.modify .base fun s => { s with work }) := minds_modify .base rfl
    refine hpop.trans ?_
    cases task with
    | handle ch callback =>
      obtain ⟨_, -, hok⟩ := bind_eq_ok.mp hok
      have hturn := h.turn .base
      have hhome := (hturn.current ch (hturn.handle ch callback (hwork ▸ List.mem_cons_self))).1
      refine minds_callback hsingle hhome (fun j n hch hcallback => ?_) hok
      subst hch hcallback
      exact hanew
    | timer cb =>
      cases cb with
      | connect j => exact minds_connect hsingle hok
      | forceClose k => exact minds_forceClose hok
    | removeChannel k => exact minds_removeChannel hok

/-- A functor is run, which puts something off. -/
theorem Tended.minds_runFunctor (h : w.Tended) (hsingle : c.IsSingle)
    (hok : w.act c (.runFunctor .base a) = .ok w') : Minds w w' := by
  simp only [act] at hok
  split at hok
  · exact Except.ok.inj hok ▸ minds_refl w
  · next f functors hfunctors =>
    obtain ⟨_, hloop, hok⟩ := bind_eq_ok.mp hok
    by_cases hdestroy : ∃ k, f = .connDestroyed k
    · obtain ⟨k, rfl⟩ := hdestroy
      exact minds_connDestroyed hfunctors hok
    · have hposted : f.isPosted = true := by
        refine h.posted f ?_
        rw [LoopState.toRun, hfunctors]
        exact List.mem_cons_self
      have hdestroy : ∀ k, f ≠ .connDestroyed k := fun k heq => hdestroy ⟨k, heq⟩
      exact (minds_take hfunctors hdestroy).trans
        (minds_invoke hsingle hposted hdestroy (check_eq_ok.mp hloop) hok)

/-- Open connections stay in custody. -/
theorem Tended.minds_step (h : w.Tended) (hgood : w.Good c none none) (hsingle : c.IsSingle)
    {l : Label} (hlocal : l.IsLocal) (hreplaces : ¬w.Replaces l) (hok : w.step c l = .ok w') :
    Minds w w' := by
  rw [World.step] at hok
  split_ifs at hok with henabled
  · cases l with
    | poll l ready =>
      obtain ⟨_, -, hok⟩ := bind_eq_ok.mp hok
      exact Except.ok.inj hok ▸ minds_modify l rfl
    | handleEvent l =>
      rw [act] at hok
      split at hok
      · exact Except.ok.inj hok ▸ minds_refl w
      · exact Except.ok.inj hok ▸ minds_modify l rfl
    | runTask l a =>
      obtain rfl : l = .base := hlocal
      exact minds_runTask hgood hsingle hreplaces hok
    | takeFunctors l =>
      have hnone := (hgood.turn l).functors (by rw [henabled.1]; decide)
      refine Except.ok.inj hok ▸ minds_modify l ?_
      rw [LoopState.toRun, LoopState.toRun, hnone, List.append_nil, List.nil_append]
    | runFunctor l a =>
      obtain rfl : l = .base := hlocal
      exact h.minds_runFunctor hsingle hok
    | dropFunctors l =>
      obtain rfl := Except.ok.inj hok
      have hdrop : Minds w (w.modify l fun s => { s with phase := .polling, ran := [] }) :=
        minds_modify l rfl
      exact hdrop.trans (minds_releaseAll _ _)
    | call t a call =>
      obtain ⟨rfl, -⟩ := hlocal
      exact minds_call hsingle hok
    | copy k => exact minds_setRefs hok
    | drop k =>
      obtain ⟨v, hv, hok⟩ := bind_eq_ok.mp hok
      exact Except.ok.inj hok ▸ (minds_setRefs hv).trans (minds_release v k)
    | destroyServer | destroyClient => cases hlocal
  · exact Except.ok.inj hok ▸ minds_refl w

theorem peopled_init (c : Setup) : (init c).Peopled := ⟨rfl, fun _ => rfl⟩

theorem tended_init (c : Setup) : (init c).Tended where
  held := by
    rintro k ⟨x, hx, -⟩
    cases hx
  posted := fun _ hf => by cases hf

/-! ### Nothing that is registered is destroyed -/

theorem base_mem_loopsFor (c : Setup) (k : ConnId) : .base ∈ loopsFor c k := by
  rw [loopsFor]
  split_ifs <;> simp

/-- Whoever holds a connection has a pointer to it, also when the functors that have been run are
destroyed. -/
theorem Held.useCount_ne_zero (h : w.Held k) (hserver : w'.server = w.server)
    (hclient : w'.client = w.client) (hqueue : (w'.loops .base).toRun = (w.loops .base).toRun) :
    w'.useCount c k ≠ 0 := by
  refine useCount_ne_zero_iff.mpr ?_
  rcases h with h | h | h
  · rw [inServer_ne_zero_iff, ← hserver, ← inServer_ne_zero_iff] at h
    exact .inl h
  · rw [inClient_ne_zero_iff, ← hclient, ← inClient_ne_zero_iff] at h
    exact .inr (.inl h)
  · refine .inr (.inr (.inl ⟨.base, base_mem_loopsFor c k, .connDestroyed k, ?_, rfl⟩))
    rw [allFunctors, hqueue]
    exact List.mem_append_right _ h

/-- Where a client has no connection, none is destroyed. -/
theorem ConnectsAnew.spares {task : Task} (h : w.ConnectsAnew a task) : w.SparesTask c a task := by
  cases task with
  | timer | removeChannel => trivial
  | handle ch callback =>
    cases ch with
    | wakeup | timerQueue | acceptor | conn => trivial
    | connector j n =>
      cases callback with
      | read | error | close => trivial
      | write =>
        intro client hclient hconnects k hk
        rw [h client hclient hconnects] at hk
        cases hk

theorem Tended.spares (h : w.Tended) {l : Label} (hlocal : l.IsLocal) (hreplaces : ¬w.Replaces l)
    (henabled : w.Enabled c l) : w.Spares c l := by
  cases l with
  | runTask l a =>
    intro task htask
    have hanew : w.ConnectsAnew a task := by
      by_contra hnot
      exact hreplaces ⟨task, htask, hnot⟩
    exact hanew.spares
  | runFunctor l a =>
    obtain rfl : l = .base := hlocal
    intro f hf
    have hposted := h.posted f (List.mem_append_left _ (List.mem_of_mem_head? hf))
    cases f with
    | sendInLoop k => cases hposted
    | _ => trivial
  | dropFunctors l =>
    obtain rfl : l = .base := hlocal
    intro k _ hopen
    refine (h.held k hopen).useCount_ne_zero rfl rfl ?_
    rw [loops_modify_self]
    rfl
  | drop k =>
    intro hopen
    obtain ⟨conn, hconn, hrefs⟩ := (Option.any_eq_true _ _).mp henabled
    have hheld : (w.setConn k { conn with refs := 0 }).useCount c k ≠ 0 :=
      (h.held k hopen).useCount_ne_zero rfl rfl rfl
    have hsum := useCount_setConn (c := c) hconn 0
    have hpos := of_decide_eq_true hrefs
    omega
  | destroyServer | destroyClient => cases hlocal
  | poll | handleEvent | takeFunctors | call | copy => trivial

/-! ### The loop over `activeChannels_` -/

/-- The channels that are still to be handled are registered. The one that is being handled exists,
and its owner. -/
structure Dispatches (w : World) : Prop where
  registered : ∀ ch ∈ (w.loops .base).active,
    (w.loops .base).poller.channels (w.fd ch) = some ch
  alive : ∀ ch ∈ (w.loops .base).current, w.Exists ch

theorem Good.dispatches (h : w.Good c none none) : w.Dispatches := by
  refine ⟨fun ch hch => ?_, fun ch hch => ?_⟩
  · obtain ⟨hhome, hknown⟩ := (h.turn .base).active ch hch
    rwa [Known, hhome] at hknown
  · exact exists_of_entitled ((h.turn .base).current ch hch).2.1

/-- The step is a callback of the channel that is being handled. -/
def Handles (w : World) : Label → Prop
  | .runTask l _ => ∃ ch callback, (w.loops l).work.head? = some (.handle ch callback)
  | _ => False

/-- The step leaves such a state, and if it is a callback of a channel, it uses no object that has
been destroyed. -/
def Survives (w : World) (l : Label) (r : Except Halt World) : Prop :=
  Machine.UnlessFault Dispatches r ∧ (w.Handles l → r ≠ .error .destroyed)

/-- The invariant of a process with one loop. -/
structure Attended (c : Setup) (w : World) : Prop where
  good : w.Good c none none
  people : w.Peopled
  tended : w.Tended

/-- A callback is called of a channel whose owner exists. -/
theorem Attended.ne_destroyed (h : Attended c w) {l : Label} (hreplaces : ¬w.Replaces l)
    (hhandles : w.Handles l) : w.step c l ≠ .error .destroyed := by
  cases l with
  | runTask l a =>
    obtain ⟨ch, callback, hhead⟩ := hhandles
    obtain ⟨work, hwork⟩ := List.head?_eq_some_iff.mp hhead
    have hturn := h.good.turn l
    have hcurrent := hturn.handle ch callback (hwork ▸ List.mem_cons_self)
    have hexists := exists_of_entitled (hturn.current ch hcurrent).2.1
    have hanew : w.ConnectsAnew a (.handle ch callback) := by
      by_contra hnot
      exact hreplaces ⟨_, hhead, hnot⟩
    have henabled : w.Enabled c (.runTask l a) := trivial
    have hstep : w.step c (.runTask l a) =
        (w.modify l fun s => { s with work }).runTask c a (.handle ch callback) := by
      rw [World.step, if_pos henabled]
      simp only [act, hwork]
    rw [hstep]
    refine bind_ne_error (fun herror => (check_eq_error.mp herror).1 hexists) fun _ _ =>
      callback_ne_destroyed h.people hexists fun j n hch hcallback => ?_
    subst hch hcallback
    exact hanew
  | _ => cases hhandles

theorem Attended.step (h : Attended c w) (hsingle : c.IsSingle) {l : Label} (hlocal : l.IsLocal)
    (hreplaces : ¬w.Replaces l) (hok : w.step c l = .ok w') : Attended c w' where
  good := h.good.step (fun henabled => h.tended.spares hlocal hreplaces henabled) hok
  people := (h.tended.minds_step h.good hsingle hlocal hreplaces hok).people h.people
  tended := (h.tended.minds_step h.good hsingle hlocal hreplaces hok).tended h.tended

end World

open World

/-- **Dispatch never meets a removed channel.** In every run of one loop, in whose thread everything
is called, with any number of connections of a server and of clients: if no step makes a connection
for a client that has one, then at every moment the channels in `activeChannels_` that are still to
be handled are registered, and the channel that is being handled has not been destroyed, nor its
owner; and no callback of a channel stops because it uses something that has been destroyed. -/
theorem dispatch_registered {c : Setup} (hsingle : c.IsSingle) {ls : List World.Label}
    (hlocal : ∀ l ∈ ls, l.IsLocal)
    (h : Machine.Along (World.step c) (Machine.onInput fun w l => ¬w.Replaces l) (World.init c)
      ls) :
    Machine.Along (World.step c) Survives (World.init c) ls := by
  have hall : Machine.Along (World.step c)
      (fun w l r => Machine.onInput (fun _ l => l.IsLocal) w l r ∧
        Machine.onInput (fun w l => ¬w.Replaces l) w l r) (World.init c) ls :=
    Machine.along_and.mpr ⟨Machine.along_onInput hlocal, h⟩
  refine hall.of_invariant (Attended c) ⟨good_init c, peopled_init c, tended_init c⟩ ?_ ?_
  · exact fun w l hw hl => ⟨fun w' hok => (hw.step hsingle hl.1 hl.2 hok).good.dispatches,
      hw.ne_destroyed hl.2⟩
  · exact fun w l w' hw hl hok => hw.step hsingle hl.1 hl.2 hok

/-- In one poll a connection that the server has accepted reads the end of the stream, and a client
is connected. -/
def together : List World.Label :=
  [.call (some .base) {} .start,
    .poll .base [(.acceptor, POLLIN)], .handleEvent .base, .runTask .base { fd := 7 },
    .call (some .base) { connect := some .EINPROGRESS, fd := 9 } (.connect 0),
    .runTask .base {}, .takeFunctors .base, .dropFunctors .base,
    .poll .base [(.conn (.ofServer .base 1), POLLIN), (.connector 0 0, POLLOUT)],
    .handleEvent .base, .runTask .base { read := some 0 }, .runTask .base {},
    .handleEvent .base, .runTask .base {}]

theorem dispatch_registered_together :
    (∃ w, Machine.run (World.step oneLoop) (World.init oneLoop) together = .ok w ∧
      (w.loops .base).current = some (.connector 0 0) ∧
      (w.loops .base).toRun = [.connDestroyed (.ofServer .base 1), .resetChannel 0]) ∧
    Machine.Along (World.step oneLoop) Survives (World.init oneLoop) together :=
  ⟨⟨_, rfl, rfl, rfl⟩, dispatch_registered ⟨rfl, fun _ => rfl⟩
    (by simp [together, Label.IsLocal]) (by decide +kernel)⟩

/-- A client is refused, and `connect` is called again before the timer of `retry`, which starts a
second attempt beside the connection. In one poll the attempt succeeds and the connection has
something to read. -/
def replaced : List World.Label :=
  [.call (some .base) { connect := some .ECONNREFUSED, fd := 7 } (.connect 0),
    .call (some .base) { connect := some .EINPROGRESS, fd := 9 } (.connect 0),
    .poll .base [(.connector 0 0, POLLOUT)], .handleEvent .base, .runTask .base {},
    .runTask .base {}, .takeFunctors .base, .runFunctor .base {}, .dropFunctors .base,
    .poll .base [(.timerQueue .base, POLLIN)], .handleEvent .base,
    .runTask .base { expired := [0] }, .runTask .base { connect := some .EINPROGRESS, fd := 11 },
    .runTask .base {}, .takeFunctors .base, .dropFunctors .base,
    .poll .base [(.connector 0 1, POLLOUT), (.conn (.ofClient 0 1), POLLIN)],
    .handleEvent .base, .runTask .base {}, .runTask .base {}, .handleEvent .base]

/-- The connection is destroyed before its channel is handled. -/
theorem dispatch_replaced : oneLoop.IsSingle ∧ (∀ l ∈ replaced, l.IsLocal) ∧
    (∃ w, Machine.run (World.step oneLoop) (World.init oneLoop) replaced = .ok w ∧
      (w.loops .base).current = some (.conn (.ofClient 0 1)) ∧
      ¬w.Exists (.conn (.ofClient 0 1))) ∧
    ¬Machine.Along (World.step oneLoop) Survives (World.init oneLoop) replaced := by
  refine ⟨⟨rfl, fun _ => rfl⟩, by simp [replaced, Label.IsLocal],
    ⟨_, rfl, rfl, by decide⟩, fun h => ?_⟩
  have hdispatches := (Machine.along_and.mp h).1.of_run_eq_ok ⟨by decide, by decide⟩ rfl
  exact absurd (hdispatches.alive (.conn (.ofClient 0 1)) rfl) (by decide)

end Reactor

end MuduoRebuild
