import MuduoRebuild.Foundations.Run
import MuduoRebuild.Reactor.Removal

/-!
# Registered channels are alive

When an object that owns a channel is destroyed, the poller of its loop should have lost the channel
before. A `TcpConnection` is destroyed with its last pointer, a `Connector` and an `Acceptor` by the
destructors of their owners, and none of these looks at the poller. `Spares` says of a step that it
destroys nothing whose channel is still registered, and that it does not register the channel of a
connection which has been removed. In every run of such steps the pollers have only channels that
exist (`registered_alive`).

The simplest run that goes wrong is that of a server which is started and destroyed: the channel of
its acceptor stays in the poller.
-/

namespace MuduoRebuild

namespace Reactor

open Fallible
open TcpServer (LoopId)

namespace World

variable {c : Setup} {w w' : World} {hand : Option ℕ} {t : Option LoopId} {l : LoopId} {k : ConnId}
  {ch : ChannelId} {j n : ℕ} {a : Answer}

/-! ### The threads go on -/

/-- The functors of a loop are the same if only other things of it change. -/
theorem allFunctors_modify {f : LoopState → LoopState}
    (hran : (f (w.loops l)).ran = (w.loops l).ran)
    (htoRun : (f (w.loops l)).toRun = (w.loops l).toRun) (l' : LoopId) :
    (w.modify l f).allFunctors l' = w.allFunctors l' := by
  rw [allFunctors, allFunctors]
  by_cases hl' : l' = l
  · rw [hl', loops_modify_self, hran, htoRun]
  · rw [loops_modify_of_ne w hl']

/-- The channel of a connection is removed at the end of `connDestroyed`. -/
theorem Good.removeChannel (h : w.Good c none none) {work : List Task}
    (hwork : (w.loops l).work = .removeChannel k :: work)
    (hok : (w.modify l fun s => { s with work }).removeChannel c (.conn k) = .ok w') :
    w'.Good c none none := by
  set v := w.modify l fun s => { s with work } with hv
  have hcalm : Calm c w v := calm_modify w l rfl
  have hleaves := leaves_of_removeChannel hok
  have hphase := (h.turn l).removal k (hwork ▸ List.mem_cons_self)
  have hnone := ((h.turn l).handling (by rw [hphase]; decide)).1
  obtain ⟨hl, -⟩ := h.sound.removing l k (hwork ▸ List.mem_cons_self)
  have hloops : ∀ l', w'.loops l' = { w.loops l' with
      poller := (w'.loops l').poller
      work := if l' = l then work else (w.loops l').work } := by
    intro l'
    rw [hleaves.loops]
    by_cases hl' : l' = l
    · rw [if_pos hl', hl', hv, loops_modify_self]
    · rw [if_neg hl', hv, loops_modify_of_ne w hl']
  have hremoves : Removes c (.conn k) w w' := {
    fd := hleaves.fd
    isOpen := hleaves.isOpen
    server := hleaves.server
    client := hleaves.client
    conn := hleaves.conn
    known_iff := fun d => hleaves.known_iff.trans (and_congr_left' hcalm.known_iff)
    placed := hleaves.placed ∘ hcalm.placed
    indexed := hleaves.indexed ∘ hcalm.indexed
    phase := fun l' => by rw [hloops]
    active := fun l' => by rw [hloops]; rfl
    current := fun l' => by rw [hloops]
    functors := fun l' => by rw [hloops]
    ran := fun l' => by rw [hloops]
    work := fun l' => by
      rw [hloops]
      dsimp only
      split_ifs with hl'
      · rw [hl', hwork]
        exact List.suffix_cons _ work
      · exact List.suffix_refl _ }
  refine ⟨hremoves.orderly h.toOrderly ?_ (fun _ hm => by cases hm)
    (fun _ _ heq => by cases heq) ?_, ?_⟩
  · intro l' hactive
    have hhome : c.loopOf k = l' := ((h.turn l').active _ hactive).1
    rw [← hhome, ← hl, hnone] at hactive
    cases hactive
  · intro k' hne hrem
    rw [Removing, hloops]
    dsimp only
    split_ifs with hl'
    · rw [Removing, hl', hwork, List.mem_cons] at hrem
      exact hrem.resolve_left fun heq => hne (congrArg _ (Task.removeChannel.inj heq))
    · exact hrem
  · intro l' j
    have hdue : w'.due c j = w.due c j := by
      refine due_congr (congrFun hleaves.client j) fun n => (hremoves.known_iff _).trans ?_
      exact and_iff_left fun heq => by cases heq
    rw [hdue, hloops]
    exact h.resets l' j

/-- A callback of the channel of a connector is called. A client that makes a connection has no
other that is open, or somebody else holds it. -/
theorem Good.callback_connector (h : w.Good c none none) {callback : Channel.Callback}
    {work : List Task} (hwork : (w.loops l).work = .handle (.connector j n) callback :: work)
    (hshared : callback = .write → ∀ client ∈ w.client j, client.Connects a →
      ∀ k ∈ client.connection_, w.Open k → w.Shared c j k)
    (hok : (w.modify l fun s => { s with work }).callback c a (.connector j n) callback = .ok w') :
    w'.Good c none none := by
  have hmem : .handle (.connector j n) callback ∈ (w.loops l).work := by
    rw [hwork]
    exact List.mem_cons_self
  have hcurrent : (w.loops l).current = some (.connector j n) := (h.turn l).handle _ callback hmem
  obtain rfl : c.clientLoop j = l := ((h.turn l).current _ hcurrent).1
  have hknown := h.handled _ j n callback (Option.not_mem_none j) hmem
  have hlast := (h.turn (c.clientLoop j)).last
  rw [hwork, List.pairwise_cons] at hlast
  generalize hv : (w.modify (c.clientLoop j) fun s => { s with work }) = v at hok
  have hgood : v.Good c none none := hv ▸ h.begins hwork (by simp)
  have hcalm : Calm c w v := hv ▸ calm_modify w _ rfl
  have hclient : v.client = w.client := hv ▸ rfl
  have hconn : v.conn = w.conn := hv ▸ rfl
  have hvcurrent : (v.loops (c.clientLoop j)).current = some (.connector j n) := by
    rw [← hv, loops_modify_self]
    exact hcurrent
  have hvknown : v.Waiting j → v.Known c (.connector j n) := fun hwait =>
    hcalm.known_iff.mpr (hknown (by rwa [Waiting, hclient] at hwait))
  cases callback with
  | read | close => exact Except.ok.inj hok ▸ hgood
  | error => exact hgood.handleError hvcurrent hvknown hok
  | write =>
    refine hgood.handleConnected hvcurrent hvknown ?_ ?_ hok
    · -- no callback comes after this one
      rw [← hv, loops_modify_self]
      exact List.eq_nil_iff_forall_not_mem.mpr fun task htask => hlast.1 task htask _ rfl
    · intro client hmem' hconnects k hk hopen
      rw [hclient] at hmem'
      rw [Open, hconn] at hopen
      refine (hshared rfl client hmem' hconnects k hk hopen).mono ?_ (fun j' _ => ?_)
        (fun l f hf => ?_) fun conn hmem => ⟨conn, hconn ▸ hmem, rfl⟩
      · exact hv ▸ rfl
      · rw [hclient]
      · rwa [← hv, allFunctors_modify rfl rfl]

theorem steady_callback (hsound : w.Sound c) (hfresh : w.Fresh) {callback : Channel.Callback}
    (hne : ∀ j n, ch ≠ .connector j n) (hent : w.Entitled ch)
    (hok : w.callback c a ch callback = .ok w') : Steady c none none w w' := by
  cases ch with
  | connector j n => exact absurd rfl (hne j n)
  | wakeup l =>
    obtain rfl := Except.ok.inj hok
    exact steady_refl w
  | timerQueue l =>
    cases callback with
    | read =>
      obtain rfl := Except.ok.inj hok
      exact (quiet_expire w l a.expired).steady rfl
    | write | error | close =>
      obtain rfl := Except.ok.inj hok
      exact steady_refl w
  | acceptor =>
    cases callback with
    | read => exact steady_handleAccept hsound hfresh hok
    | write | error | close =>
      obtain rfl := Except.ok.inj hok
      exact steady_refl w
  | conn k =>
    cases callback with
    | close => exact steady_handleClose hsound hok
    | read => exact steady_handleRead hsound hok
    | write => exact steady_handleWrite hent hok
    | error =>
      obtain rfl := Except.ok.inj hok
      exact steady_refl w

/-- A callback of a channel is called. -/
theorem Good.callback (h : w.Good c none none) {callback : Channel.Callback} {work : List Task}
    (hwork : (w.loops l).work = .handle ch callback :: work)
    (hshared : ∀ j n, ch = .connector j n → callback = .write → ∀ client ∈ w.client j,
      client.Connects a → ∀ k ∈ client.connection_, w.Open k → w.Shared c j k)
    (hok : (w.modify l fun s => { s with work }).callback c a ch callback = .ok w') :
    w'.Good c none none := by
  by_cases hch : ∃ j n, ch = .connector j n
  · obtain ⟨j, n, rfl⟩ := hch
    exact h.callback_connector hwork (hshared j n rfl) hok
  · have hgood : (w.modify l fun s => { s with work }).Good c none none := h.begins hwork (by simp)
    have hmem : .handle ch callback ∈ (w.loops l).work := by
      rw [hwork]
      exact List.mem_cons_self
    -- the channel that is being handled has an owner
    have hent : w.Entitled ch := ((h.turn l).current _ ((h.turn l).handle ch callback hmem)).2.1
    refine Steady.good ?_ hgood
    refine steady_callback hgood.sound hgood.fresh (fun j n heq => hch ⟨j, n, heq⟩) ?_ hok
    exact (calm_modify (c := c) w l rfl).entitled hent

/-- The thread of a loop goes on with what it has to do. -/
theorem Good.runTask (h : w.Good c none none)
    (hshared : ∀ j n, (w.loops l).work.head? = some (.handle (.connector j n) .write) →
      ∀ client ∈ w.client j, client.Connects a → ∀ k ∈ client.connection_, w.Open k →
      w.Shared c j k)
    (hok : w.act c (.runTask l a) = .ok w') : w'.Good c none none := by
  simp only [act] at hok
  split at hok
  · next hwork =>
    obtain rfl := Except.ok.inj hok
    exact h.returns hwork
  · next task work hwork =>
    have hhead : (w.loops l).work.head? = some task := by rw [hwork, List.head?_cons]
    cases task with
    | handle ch callback =>
      obtain ⟨_, -, hok⟩ := bind_eq_ok.mp hok
      refine h.callback hwork (fun j n hch hcallback => ?_) hok
      subst hch hcallback
      exact hshared j n hhead
    | timer cb =>
      have hgood : (w.modify l fun s => { s with work }).Good c none none :=
        h.begins hwork (by simp)
      cases cb with
      | connect j => exact (steady_connect hgood.sound hok).good hgood
      | forceClose k => exact (steady_forceClose hok).good hgood
    | removeChannel k => exact h.removeChannel hwork hok

/-! ### Functors -/

theorem steady_setCloseCallback (hok : w.setCloseCallback k l = .ok w') :
    Steady c hand hand w w' := by
  obtain ⟨conn, hconn, hok⟩ := bind_eq_ok.mp hok
  obtain rfl := Except.ok.inj hok
  have hset : Quiet c w (w.setConn k { conn with closeCb_ := .base l }) :=
    quiet_setConn (alive_eq_ok.mp hconn) id
  exact hset.steady rfl

/-- A functor that neither removes a channel nor destroys one. -/
theorem steady_invoke (hsound : w.Sound c) {f : Functor} (hdestroy : ∀ k, f ≠ .connDestroyed k)
    (hreset : ∀ j, f ≠ .resetChannel j)
    (hopen : ∀ k, f = .sendInLoop k → a.left = true → w.Open k)
    (hok : w.invoke c l a f = .ok w') : Steady c none none w w' := by
  cases f with
  | listen => exact steady_listen hok
  | connEstablished => exact steady_connEstablished hok
  | removeConnectionInLoop => exact steady_removeConnectionInLoop hok
  | connDestroyed k => exact absurd rfl (hdestroy k)
  | sendInLoop k => exact steady_sendInLoop (hopen k rfl) hok
  | shutdownInLoop => exact steady_shutdownInLoop hok
  | forceCloseInLoop => exact steady_forceCloseInLoop hsound hok
  | wriComCb =>
    obtain rfl := Except.ok.inj hok
    exact steady_refl w
  | setCloseCallback => exact steady_setCloseCallback hok
  | startInLoop => exact steady_startInLoop hsound hok
  | resetChannel j => exact absurd rfl (hreset j)
  | addTimerInLoop id cb =>
    obtain rfl := Except.ok.inj hok
    exact (quiet_addTimerInLoop w l id cb).steady rfl
  | cancelInLoop id =>
    obtain rfl := Except.ok.inj hok
    exact (quiet_cancelInLoop w l id).steady rfl

/-- A functor is run. A `sendInLoop` finds its connection open, or need not wait for the socket. -/
theorem Good.runFunctor (h : w.Good c none none) (hphase : (w.loops l).phase = .functors)
    (hopen : ∀ k, (w.loops l).functors.head? = some (.sendInLoop k) → a.left = true → w.Open k)
    (hok : w.act c (.runFunctor l a) = .ok w') : w'.Good c none none := by
  simp only [act] at hok
  split at hok
  · obtain rfl := Except.ok.inj hok
    exact h
  · next f functors hfunctors =>
    have hhead : (w.loops l).functors.head? = some f := by rw [hfunctors, List.head?_cons]
    obtain ⟨_, hloop, hok⟩ := bind_eq_ok.mp hok
    have hloop := check_eq_ok.mp hloop
    by_cases hreset : ∃ j, f = .resetChannel j
    · obtain ⟨j, rfl⟩ := hreset
      exact h.resetChannel hphase hfunctors hok
    have hgood : (w.modify l fun s => { s with functors, ran := s.ran ++ [f] }).Good c none none :=
      h.takes hphase hfunctors fun j heq => hreset ⟨j, heq⟩
    by_cases hdestroy : ∃ k, f = .connDestroyed k
    · obtain ⟨k, rfl⟩ := hdestroy
      obtain rfl : l = c.loopOf k := hloop _ rfl
      refine hgood.connDestroyed ?_ ?_ hok
      · rw [loops_modify_self]
        exact hphase
      · rw [loops_modify_self]
        exact List.mem_append_right _ List.mem_cons_self
    · refine (steady_invoke hgood.sound (fun k heq => hdestroy ⟨k, heq⟩)
        (fun j heq => hreset ⟨j, heq⟩) (fun k heq hleft => ?_) hok).good hgood
      have hent : w.Entitled (.conn k) := hopen k (heq ▸ hhead) hleft
      exact (calm_modify (c := c) w l rfl).entitled hent

/-- `doPendingFunctors` returns. The functors that it has run do not hold the last pointer to a
connection that is open. -/
theorem Good.dropFunctors (h : w.Good c none none) (henabled : w.Enabled c (.dropFunctors l))
    (hused : ∀ k ∈ (w.loops l).ran.filterMap Functor.ptr, w.Open k →
      (w.modify l fun s => { s with phase := .polling, ran := [] }).useCount c k ≠ 0)
    (hok : w.act c (.dropFunctors l) = .ok w') : w'.Good c none none := by
  obtain ⟨hphase, ⟨hwork, -⟩, hfunctors⟩ := henabled
  obtain rfl := Except.ok.inj hok
  have hturn := h.turn l
  have hnone := hturn.handling (by rw [hphase]; decide)
  have hremove : ∀ k, .removeChannel k ∉ (w.loops l).work := fun k => by
    rw [hwork]
    exact List.not_mem_nil
  have hgoes : w.GoesOn c l { w.loops l with phase := .polling, ran := [] } := {
    poller := rfl
    removeChannel := fun _ => Iff.rfl
    ran := fun k hk => absurd hk (hremove k)
    turn := { hturn with
      handling := fun _ => hnone
      functors := fun _ => hfunctors
      removal := fun k hk => absurd hk (hremove k) }
    handle := fun _ _ _ => .inl }
  have hgood := h.modify (f := fun s => { s with phase := .polling, ran := [] }) hgoes fun _ => rfl
  exact (steady_releaseAll hused).good hgood

/-! ### Pointers of the user -/

/-- The user drops a pointer. It is not the last one to a connection that is open. -/
theorem Good.drop (h : w.Good c none none) (hrefs : (w.conn k).any (0 < ·.refs) = true)
    (hused : w.Open k → w.useCount c k ≠ 1) (hok : w.act c (.drop k) = .ok w') :
    w'.Good c none none := by
  obtain ⟨v, hv, hok⟩ := bind_eq_ok.mp hok
  obtain rfl := Except.ok.inj hok
  have hsteady : Steady c none none w v := steady_setRefs hv
  obtain ⟨conn, hconn, hv⟩ := bind_eq_ok.mp hv
  obtain rfl := Except.ok.inj hv
  have hconn := alive_eq_ok.mp hconn
  refine (hsteady.trans (steady_release fun hopen => ?_)).good h
  have hself : (w.setConn k { conn with refs := conn.refs - 1 }).conn k =
      some { conn with refs := conn.refs - 1 } := Function.update_self ..
  have hbefore : w.Open k := by
    obtain ⟨conn', hconn', hisOpen⟩ := hopen
    obtain rfl := Option.some.inj (hself.symm.trans hconn')
    exact ⟨conn, hconn, hisOpen⟩
  -- there is one pointer less
  have hcount : w.useCount c k =
      (w.setConn k { conn with refs := conn.refs - 1 }).useCount c k + 1 := by
    have hsum := useCount_setConn (c := c) hconn (conn.refs - 1)
    rw [hconn] at hrefs
    have hpos : 0 < conn.refs := of_decide_eq_true hrefs
    omega
  exact fun hzero => hused hbefore (hcount.trans (congrArg (· + 1) hzero))

/-! ### Destructors -/

/-- `~TcpServer` is run. The acceptor does not listen, and no connection that is open has only the
pointer in `connections_`. -/
theorem Good.destroyServer (h : w.Good c none none)
    (hserver : ∀ server ∈ w.server, server.listenning_ = false ∧
      ∀ k ∈ server.connections_, w.Open k → { w with server := none }.useCount c k ≠ 0)
    (hok : w.destroyServer c = .ok w') : w'.Good c none none := by
  obtain ⟨server, hsome, hok⟩ := bind_eq_ok.mp hok
  obtain rfl := Except.ok.inj hok
  have hsome := alive_eq_ok.mp hsome
  obtain ⟨hlistens, hused⟩ := hserver server hsome
  have hidle : ¬w.Entitled .acceptor := by
    rintro ⟨server', hserver', htrue⟩
    obtain rfl := Option.some.inj (hsome.symm.trans hserver')
    rw [hlistens] at htrue
    cases htrue
  have hforgets : Forgets c w { w with server := none } := {
    loops := rfl
    fd := rfl
    index := rfl
    isOpen := rfl
    conn := rfl
    entitled := fun ch hent => by
      cases ch with
      | acceptor => exact absurd hent hidle
      | wakeup | timerQueue | connector | conn => exact .inl hent
    owns := fun ch hown => by
      cases ch with
      | acceptor => cases hown
      | wakeup | timerQueue | connector | conn => exact hown
    linked := id
    fresh := fun hfresh => ⟨fun _ _ _ _ hmem => (by cases hmem), hfresh.client⟩
    waiting := fun _ => id }
  -- the descriptor of the acceptor is in hand until it is closed
  have hsole : { w with server := none }.Sole c (some (w.fd .acceptor)) := by
    have hown : w.Owns c .acceptor := Option.isSome_of_mem hsome
    refine { hforgets.sole h.sole with hand := fun n hn => ?_ }
    obtain rfl := Option.some.inj (Option.mem_def.mp hn)
    refine ⟨h.sole.isOpen _ hown, fun ch hch heq => ?_⟩
    obtain rfl := h.sole.inj ch .acceptor (hforgets.owns ch hch) hown heq
    cases hch
  have hgood : { w with server := none }.Good c (some (w.fd .acceptor)) none :=
    ⟨hforgets.orderly h.toOrderly hsole, h.resets⟩
  exact ((steady_releaseAll hused).trans (steady_closeFd _ _)).good hgood

/-- Nobody gives a pointer up, and no connection opens. -/
structure Retains (w w' : World) : Prop where
  server : w'.server = w.server
  client : w'.client = w.client
  functors : ∀ l, ∀ f ∈ w.allFunctors l, f ∈ w'.allFunctors l
  refs : ∀ k, ∀ conn ∈ w.conn k, ∃ conn' ∈ w'.conn k, conn'.refs = conn.refs
  opens : ∀ k, w'.Open k → w.Open k

theorem retains_refl (w : World) : Retains w w :=
  ⟨rfl, rfl, fun _ _ => id, fun _ conn hconn => ⟨conn, hconn, rfl⟩, fun _ => id⟩

theorem Retains.trans {w'' : World} (h : Retains w w') (h' : Retains w' w'') : Retains w w'' := by
  refine ⟨h'.server.trans h.server, h'.client.trans h.client,
    fun l f hf => h'.functors l f (h.functors l f hf), fun k conn hconn => ?_,
    fun k => h.opens k ∘ h'.opens k⟩
  obtain ⟨conn', hconn', heq⟩ := h.refs k conn hconn
  obtain ⟨conn'', hconn'', heq'⟩ := h'.refs k conn' hconn'
  exact ⟨conn'', hconn'', heq'.trans heq⟩

theorem retains_setConn {conn conn' : Conn} (hconn : w.conn k = some conn)
    (hrefs : conn'.refs = conn.refs) (hopen : conn'.IsOpen → conn.IsOpen) :
    Retains w (w.setConn k conn') := by
  have hself : (w.setConn k conn').conn k = some conn' := Function.update_self ..
  have hother : ∀ k', k' ≠ k → (w.setConn k conn').conn k' = w.conn k' :=
    fun k' hk' => Function.update_of_ne hk' ..
  refine ⟨rfl, rfl, fun _ _ => id, fun k' x hx => ?_, fun k' hk' => ?_⟩
  · by_cases heq : k' = k
    · subst heq
      obtain rfl := Option.some.inj (hconn.symm.trans hx)
      exact ⟨conn', hself, hrefs⟩
    · exact ⟨x, (hother k' heq).trans hx, rfl⟩
  · obtain ⟨x, hx, hisOpen⟩ := hk'
    by_cases heq : k' = k
    · subst heq
      obtain rfl := Option.some.inj (hself.symm.trans hx)
      exact ⟨conn, hconn, hopen hisOpen⟩
    · exact ⟨x, (hother k' heq).symm.trans hx, hisOpen⟩

theorem mem_allFunctors_queueInLoop (w : World) (l : LoopId) (f : Functor) :
    f ∈ (w.queueInLoop l f).allFunctors l := by
  rw [allFunctors, queueInLoop, loops_modify_self, LoopState.toRun]
  simp

theorem retains_queueInLoop (w : World) (l : LoopId) (f : Functor) :
    Retains w (w.queueInLoop l f) := by
  refine ⟨rfl, rfl, fun l' f' hf' => ?_, fun _ conn hconn => ⟨conn, hconn, rfl⟩, fun _ => id⟩
  rw [allFunctors] at hf' ⊢
  by_cases hl' : l' = l
  · rw [hl'] at hf' ⊢
    rw [queueInLoop, loops_modify_self, LoopState.toRun, ← List.append_assoc, ← List.append_assoc]
    rw [LoopState.toRun, ← List.append_assoc] at hf'
    exact List.mem_append_left _ hf'
  · rwa [queueInLoop, loops_modify_of_ne w hl']

theorem retains_forceClose (hok : w.forceClose c k = .ok w') : Retains w w' := by
  obtain ⟨conn, hconn, hok⟩ := bind_eq_ok.mp hok
  split_ifs at hok with hopen
  · obtain rfl := Except.ok.inj hok
    have hset : Retains w (w.disconnecting k conn) :=
      retains_setConn (alive_eq_ok.mp hconn) rfl fun _ => hopen
    exact hset.trans (retains_queueInLoop _ _ _)
  · obtain rfl := Except.ok.inj hok
    exact retains_refl w

theorem retains_cancel {id : Option ℕ} (hok : w.cancel t l id = .ok w') : Retains w w' := by
  rw [cancel, runInLoop] at hok
  split_ifs at hok
  · obtain rfl := Except.ok.inj hok
    refine { retains_refl w with functors := fun l' f hf => ?_ }
    rwa [cancelInLoop, allFunctors_modify rfl rfl]
  · obtain rfl := Except.ok.inj hok
    exact retains_queueInLoop w l _

/-- In another thread `~TcpClient` leaves a functor behind that holds the connection. -/
structure LeavesConnection (c : Setup) (t : Option LoopId) (j : ℕ) (connection_ : Option ConnId)
    (w w' : World) : Prop where
  steady : Steady c none none w w'
  retains : Retains w w'
  functor : ∀ k ∈ connection_, t ≠ some (c.clientLoop j) →
    .setCloseCallback k ∈ w'.allFunctors (c.clientLoop j)

theorem leavesConnection {connection_ : Option ConnId}
    (hok : w.leaveConnection c t j connection_ = .ok w') :
    LeavesConnection c t j connection_ w w' := by
  cases connection_ with
  | none =>
    obtain rfl := Except.ok.inj hok
    exact ⟨steady_refl w, retains_refl w, fun k hk => absurd hk (Option.not_mem_none k)⟩
  | some k =>
    obtain ⟨v, hv, hok⟩ := bind_eq_ok.mp hok
    have hset : LeavesConnection c t j (some k) w v := by
      refine ⟨steady_runInLoop (fun _ => by simp) (fun _ => steady_setCloseCallback) hv, ?_, ?_⟩
      · rw [runInLoop] at hv
        split_ifs at hv
        · obtain ⟨conn, hconn, hv⟩ := bind_eq_ok.mp hv
          obtain rfl := Except.ok.inj hv
          exact retains_setConn (alive_eq_ok.mp hconn) rfl id
        · obtain rfl := Except.ok.inj hv
          exact retains_queueInLoop w _ _
      · intro k' hk' ht
        obtain rfl := Option.some.inj (Option.mem_def.mp hk')
        rw [runInLoop, if_neg ht] at hv
        obtain rfl := Except.ok.inj hv
        exact mem_allFunctors_queueInLoop w _ _
    split_ifs at hok
    · exact ⟨hset.steady.trans (steady_forceClose hok), hset.retains.trans (retains_forceClose hok),
        fun k' hk' ht => (retains_forceClose hok).functors _ _ (hset.functor k' hk' ht)⟩
    · obtain rfl := Except.ok.inj hok
      exact hset

/-- A client is given up whose connector has no channel that is known or being handled. -/
theorem forgets_client {client : Client} (hclient : w.client j = some client)
    (hunknown : ∀ n ∈ client.connector_.channel_, ¬w.Known c (.connector j n))
    (hcurrent : ∀ l n, .connector j n ∉ (w.loops l).current) :
    Forgets c w { w with client := Function.update w.client j none } := by
  have hother : ∀ j', j' ≠ j → Function.update w.client j none j' = w.client j' :=
    fun j' hj' => Function.update_of_ne hj' ..
  have hback : ∀ j', ∀ client' ∈ Function.update w.client j none j', client' ∈ w.client j' := by
    intro j' client' hclient'
    by_cases hj' : j' = j
    · subst hj'
      rw [Function.update_self] at hclient'
      cases hclient'
    · exact hother j' hj' ▸ hclient'
  refine ⟨rfl, rfl, rfl, rfl, rfl, fun ch hent => ?_, fun ch hch => ?_,
    fun hlinked j' client' hc => ?_,
    fun hfresh => ⟨hfresh.server, fun j' n hn client' hc => ?_⟩, fun j' hwait => ?_⟩
  · cases ch with
    | connector j' n =>
      obtain ⟨client', hclient', hn⟩ := hent
      by_cases hj' : j' = j
      · subst hj'
        obtain rfl := Option.some.inj (hclient.symm.trans hclient')
        exact .inr ⟨hunknown n hn, fun l => hcurrent l n⟩
      · exact .inl ⟨client', (hother j' hj').trans hclient', hn⟩
    | wakeup | timerQueue | acceptor | conn => exact .inl hent
  · cases ch <;> exact hch
  · exact hlinked j' client' (hback j' client' hc)
  · exact hfresh.client j' n hn client' (hback j' client' hc)
  · obtain ⟨client', hclient', hstate⟩ := hwait
    exact ⟨client', hback j' client' hclient', hstate⟩

/-- `~TcpClient` is run. No attempt of its connector is registered, and if its connection is open,
somebody else holds it, or the destructor runs in another thread. -/
theorem Good.destroyClient (h : w.Good c none none) (henabled : w.Between (c.clientLoop j))
    (hclient : ∀ client ∈ w.client j,
      (∀ n ∈ client.connector_.channel_, ¬w.Known c (.connector j n)) ∧
      ∀ k ∈ client.connection_, w.Open k → w.Shared c j k ∨ t ≠ some (c.clientLoop j))
    (hok : w.destroyClient c t j = .ok w') : w'.Good c none none := by
  obtain ⟨client, hsome, hok⟩ := bind_eq_ok.mp hok
  obtain ⟨u, hu, hok⟩ := bind_eq_ok.mp hok
  obtain ⟨v, hv, hok⟩ := bind_eq_ok.mp hok
  obtain rfl := Except.ok.inj hok
  have hsome := alive_eq_ok.mp hsome
  obtain ⟨hunknown, hused⟩ := hclient client hsome
  obtain ⟨hsteady, hretains, hfunctor⟩ := leavesConnection hu
  have hugood := hsteady.good h
  have husome : u.client j = some client := (congrFun hretains.client j).trans hsome
  have huunknown : ∀ n ∈ client.connector_.channel_, ¬u.Known c (.connector j n) := by
    intro n hn hknown
    have hdue := hsteady.due j
    rw [due_of_some husome hn, due_of_some hsome hn, if_pos hknown, if_neg (hunknown n hn)] at hdue
    cases hdue
  have hucurrent : ∀ l n, .connector j n ∉ (u.loops l).current := by
    intro l n hn
    rw [(hsteady.stays l).current] at hn
    obtain rfl : c.clientLoop j = l := ((h.turn l).current _ hn).1
    rw [henabled.2] at hn
    cases hn
  have hforgets := forgets_client husome huunknown hucurrent
  have hgood : { u with client := Function.update u.client j none }.Good c none none := by
    refine ⟨hforgets.orderly hugood.toOrderly (hforgets.sole hugood.sole), fun l j' => ?_⟩
    refine (hugood.resets l j').trans ?_
    by_cases hj' : j' = j
    · subst hj'
      have hone : { u with client := Function.update u.client j' none }.due c j' = 1 := by
        simp [due]
      rw [hone]
      split_ifs
      · exact due_le_one
      · exact le_rfl
    · have hsame : { u with client := Function.update u.client j none }.due c j' = u.due c j' :=
        due_congr (Function.update_of_ne hj' ..) fun _ => hforgets.known_iff
      rw [hsame]
  have hcancel := retains_cancel hv
  refine (steady_releaseAll fun k hk hopen => ?_).good ((steady_cancel hv).good hgood)
  have hk : k ∈ client.connection_ := Option.mem_toList.mp hk
  rcases hused k hk (hretains.opens k (hcancel.opens k hopen)) with hshared | ht
  · refine useCount_ne_zero_of_shared hshared (hcancel.server.trans hretains.server)
      (fun j' hj' => ?_) (fun l f hf => hcancel.functors l f (hretains.functors l f hf)) ?_
    · rw [hcancel.client]
      exact (Function.update_of_ne hj' ..).trans (congrFun hretains.client j')
    · intro conn hconn
      obtain ⟨conn', hconn', heq⟩ := hretains.refs k conn hconn
      obtain ⟨conn'', hconn'', heq'⟩ := hcancel.refs k conn' hconn'
      exact ⟨conn'', hconn'', heq'.trans heq⟩
  · -- the functor holds it, in the loop of the client, which is that of the connection
    have hloop : c.clientLoop j ∈ loopsFor c k := by
      rw [← h.sound.linked j client hsome k hk]
      exact loopOf_mem_loopsFor c k
    exact useCount_ne_zero_of_mem hloop (hcancel.functors _ _ (hfunctor k hk ht)) rfl

/-! ### The start -/

/-- At the start a poller has the two channels of its loop. -/
theorem channels_init {n : ℤ} (h : ((init c).loops l).poller.channels n = some ch) :
    n = c.fd ch ∧ (ch = .wakeup l ∨ ch = .timerQueue l) := by
  simp only [init] at h
  split_ifs at h with hn hn'
  · obtain rfl := Option.some.inj h
    exact ⟨hn, .inl rfl⟩
  · obtain rfl := Option.some.inj h
    exact ⟨hn', .inr rfl⟩

theorem good_init (c : Setup) : (init c).Good c none none := by
  have hpermanent : ∀ ch, (init c).Owns c ch → ch.isPermanent = true := by
    intro ch hch
    cases ch with
    | wakeup | timerQueue | acceptor => rfl
    | connector j n =>
      obtain ⟨-, heq | heq⟩ := channels_init hch
      · cases heq
      · cases heq
    | conn => cases hch
  refine ⟨⟨⟨?placed, ?indexed, ?linked, ?entitled, ?removing⟩, ?fresh, ?sole, ?turn, ?handled⟩,
    ?resets⟩
  case placed =>
    intro l n ch hch
    obtain ⟨hn, rfl | rfl⟩ := channels_init hch
    · exact ⟨rfl, hn⟩
    · exact ⟨rfl, hn⟩
  case indexed =>
    intro ch hch
    obtain ⟨-, heq⟩ := channels_init hch
    rcases heq with heq | heq
    · rw [heq]
      exact (by decide : EpollPoller.kAdded ≠ EpollPoller.kNew)
    · rw [heq]
      exact (by decide : EpollPoller.kAdded ≠ EpollPoller.kNew)
  case linked =>
    intro j client hclient k hk
    obtain rfl := Option.some.inj (Option.mem_def.mp hclient)
    cases hk
  case entitled =>
    intro ch hch
    obtain ⟨-, heq⟩ := channels_init hch
    rcases heq with heq | heq
    · rw [heq]
      exact .inl trivial
    · rw [heq]
      exact .inl trivial
  case removing => exact fun l k hk => by cases hk
  case fresh => exact ⟨fun _ _ hn => (by cases hn), fun _ _ hn => by cases hn⟩
  case sole =>
    exact ⟨fun ch hch => c.isOpen_fd ch (hpermanent ch hch),
      fun ch ch' hch hch' => c.fd_inj ch ch' (hpermanent ch hch) (hpermanent ch' hch'),
      fun _ hn => by cases hn⟩
  case turn =>
    exact fun l => {
      active := fun _ hch => by cases hch
      nodup := List.nodup_nil
      current := fun _ hch => by cases hch
      handling := fun _ => ⟨rfl, rfl⟩
      functors := fun _ => rfl
      removal := fun _ hk => by cases hk
      handle := fun _ _ hmem => by cases hmem
      last := List.Pairwise.nil }
  case handled => exact fun _ _ _ _ _ hmem => by cases hmem
  case resets => exact fun _ _ => Nat.zero_le _

/-! ### Steps -/

/-- If the task makes the connection of a client, the client has no other that is open, or somebody
else holds it. -/
def SparesTask (c : Setup) (w : World) (a : Answer) : Task → Prop
  | .handle (.connector j _) .write => ∀ client ∈ w.client j, client.Connects a →
      ∀ k ∈ client.connection_, w.Open k → w.Shared c j k
  | _ => True

instance (w : World) (j : ℕ) (k : ConnId) : Decidable (w.Shared c j k) :=
  inferInstanceAs (Decidable (_ ≠ _))

instance (c : Setup) (w : World) (a : Answer) (task : Task) :
    Decidable (w.SparesTask c a task) :=
  match task with
  | .handle (.connector j _) .write => inferInstanceAs (Decidable (∀ client ∈ w.client j,
      client.Connects a → ∀ k ∈ client.connection_, w.Open k → w.Shared c j k))
  | .handle (.connector ..) .read | .handle (.connector ..) .error
  | .handle (.connector ..) .close | .handle (.wakeup _) _ | .handle (.timerQueue _) _
  | .handle .acceptor _ | .handle (.conn _) _ | .timer _ | .removeChannel _ =>
    inferInstanceAs (Decidable True)

/-- If the functor is a `sendInLoop` that has to wait for the socket, the connection is open. -/
def SparesFunctor (w : World) (a : Answer) : Functor → Prop
  | .sendInLoop k => a.left = true → w.Open k
  | _ => True

instance (w : World) (a : Answer) (f : Functor) : Decidable (w.SparesFunctor a f) :=
  match f with
  | .sendInLoop k => inferInstanceAs (Decidable (a.left = true → w.Open k))
  | .listen | .connEstablished _ | .removeConnectionInLoop _ | .connDestroyed _
  | .shutdownInLoop _ | .forceCloseInLoop _ | .wriComCb _ | .setCloseCallback _
  | .startInLoop _ | .resetChannel _ | .addTimerInLoop .. | .cancelInLoop _ =>
    inferInstanceAs (Decidable True)

/-- The step destroys nothing whose channel is registered, and it registers the channel of no
connection that has been removed. -/
def Spares (c : Setup) (w : World) : Label → Prop
  | .runTask l a => ∀ task ∈ (w.loops l).work.head?, w.SparesTask c a task
  | .runFunctor l a => ∀ f ∈ (w.loops l).functors.head?, w.SparesFunctor a f
  | .dropFunctors l => ∀ k ∈ (w.loops l).ran.filterMap Functor.ptr, w.Open k →
      (w.modify l fun s => { s with phase := .polling, ran := [] }).useCount c k ≠ 0
  | .drop k => w.Open k → w.useCount c k ≠ 1
  | .destroyServer => ∀ server ∈ w.server, server.listenning_ = false ∧
      ∀ k ∈ server.connections_, w.Open k → { w with server := none }.useCount c k ≠ 0
  | .destroyClient t j => ∀ client ∈ w.client j,
      (∀ n ∈ client.connector_.channel_, ¬w.Known c (.connector j n)) ∧
      ∀ k ∈ client.connection_, w.Open k → w.Shared c j k ∨ t ≠ some (c.clientLoop j)
  | .poll .. | .handleEvent _ | .takeFunctors _ | .call .. | .copy _ => True

instance (c : Setup) (w : World) (l : Label) : Decidable (w.Spares c l) :=
  match l with
  | .runTask l _ => inferInstanceAs (Decidable (∀ task ∈ (w.loops l).work.head?, _))
  | .runFunctor l _ => inferInstanceAs (Decidable (∀ f ∈ (w.loops l).functors.head?, _))
  | .dropFunctors l =>
    inferInstanceAs (Decidable (∀ k ∈ (w.loops l).ran.filterMap Functor.ptr, w.Open k → _ ≠ _))
  | .drop k => inferInstanceAs (Decidable (w.Open k → _ ≠ _))
  | .destroyServer => inferInstanceAs (Decidable (∀ server ∈ w.server,
      server.listenning_ = false ∧ ∀ k ∈ server.connections_, w.Open k → _ ≠ _))
  | .destroyClient t j => inferInstanceAs (Decidable (∀ client ∈ w.client j,
      (∀ n ∈ client.connector_.channel_, ¬w.Known c (.connector j n)) ∧
      ∀ k ∈ client.connection_, w.Open k → w.Shared c j k ∨ t ≠ some (c.clientLoop j)))
  | .poll .. | .handleEvent _ | .takeFunctors _ | .call .. | .copy _ =>
    inferInstanceAs (Decidable True)

/-- A step that spares what is registered keeps the invariant. -/
theorem Good.step (h : w.Good c none none) {l : Label} (hspares : w.Enabled c l → w.Spares c l)
    (hok : w.step c l = .ok w') : w'.Good c none none := by
  rw [World.step] at hok
  split_ifs at hok with henabled
  · have hspares := hspares henabled
    cases l with
    | poll l ready => exact h.poll henabled hok
    | handleEvent l => exact h.handleEvent henabled hok
    | runTask l a =>
      exact h.runTask (fun j n hhead => hspares _ hhead) hok
    | takeFunctors l => exact h.takeFunctors henabled hok
    | runFunctor l a =>
      exact h.runFunctor henabled.1 (fun k hhead => hspares _ hhead) hok
    | dropFunctors l => exact h.dropFunctors henabled hspares hok
    | call t a call => exact (steady_call h.sound hok).good h
    | copy k => exact (steady_setRefs hok).good h
    | drop k => exact h.drop henabled hspares hok
    | destroyServer => exact h.destroyServer hspares hok
    | destroyClient t j => exact h.destroyClient henabled.2 hspares hok
  · exact Except.ok.inj hok ▸ h

/-! ### What the invariant is for -/

/-- Every pointer in a poller is to a channel that exists. There is none at the place of a
descriptor that is closed, which a later channel may get, and none at that of a channel which has
not been registered. -/
structure Lives (c : Setup) (w : World) : Prop where
  alive : ∀ l n ch, (w.loops l).poller.channels n = some ch → w.Exists ch
  closed : ∀ l (n : ℕ), w.isOpen n = false → (w.loops l).poller.channels n = none
  free : ∀ l ch, w.Owns c ch → w.index ch = EpollPoller.kNew →
    (w.loops l).poller.channels (w.fd ch) = none

/-- A channel that is known exists, and has its descriptor. -/
theorem exists_of_entitled (h : w.Entitled ch) : w.Exists ch := by
  cases ch with
  | wakeup | timerQueue => trivial
  | acceptor =>
    obtain ⟨server, hserver, -⟩ := h
    exact Option.isSome_of_mem hserver
  | connector j n =>
    obtain ⟨client, hclient, hchannel⟩ := h
    rw [Exists, Option.mem_def.mp hclient]
    exact decide_eq_true hchannel
  | conn k =>
    obtain ⟨conn, hconn, -⟩ := h
    exact Option.isSome_of_mem hconn

theorem Sound.lives_of_known (h : w.Sound c) (hch : w.Known c ch) : w.Exists ch ∧ w.Owns c ch := by
  cases ch with
  | wakeup | timerQueue => exact ⟨trivial, trivial⟩
  | acceptor =>
    have hexists := exists_of_entitled ((h.entitled _ hch).resolve_right id)
    exact ⟨hexists, hexists⟩
  | connector => exact ⟨exists_of_entitled ((h.entitled _ hch).resolve_right id), hch⟩
  | conn k => exact ⟨h.isSome hch, h.isSome hch⟩

theorem Good.lives (h : w.Good c none none) : w.Lives c := by
  have hsound := h.sound
  refine ⟨fun l n ch hch => ?_, fun l n hn => ?_, fun l ch hown hnew => ?_⟩
  · obtain ⟨rfl, rfl⟩ := hsound.placed l n ch hch
    exact (hsound.lives_of_known hch).1
  · by_contra hne
    obtain ⟨ch, hch⟩ := Option.ne_none_iff_exists'.mp hne
    obtain ⟨rfl, hfd⟩ := hsound.placed l n ch hch
    obtain rfl := Int.ofNat.inj hfd
    have hopen := h.sole.isOpen ch (hsound.lives_of_known hch).2
    rw [hn] at hopen
    cases hopen
  · by_contra hne
    obtain ⟨d, hd⟩ := Option.ne_none_iff_exists'.mp hne
    obtain ⟨rfl, hfd⟩ := hsound.placed l _ d hd
    have hknown : w.Known c d := by
      rw [Known, ← hfd]
      exact hd
    -- the two have the same descriptor
    obtain rfl := h.sole.inj ch d hown (hsound.lives_of_known hknown).2 (Int.ofNat.inj hfd)
    exact hsound.indexed ch hknown hnew

end World

open World

/-- **Registered channels are alive.** In every run of the process, with its loops, server and
clients, and the destructors of server and clients run at any point between two steps of their
loops: if every step spares the channels that are registered, then in every state that is reached
each pointer in a poller is to a channel that exists, and a new channel finds its place free. -/
theorem registered_alive (c : Setup) (ls : List Label)
    (h : Machine.Along (World.step c) (Machine.onInput fun w l => w.Enabled c l → w.Spares c l)
      (World.init c) ls) :
    Machine.Along (World.step c) (Machine.onResult (Machine.UnlessFault (Lives c))) (World.init c)
      ls := by
  refine h.of_invariant (fun w => w.Good c none none) (good_init c) ?_ ?_
  · exact fun w l hw hl w' hok => (hw.step hl hok).lives
  · exact fun w l w' hw hl hok => hw.step hl hok

/-- Even descriptors for the channels that exist from the start. -/
def firstFd : ChannelId → ℕ
  | .wakeup .base => 0
  | .timerQueue .base => 2
  | .acceptor => 4
  | .wakeup (.io i) => 4 * i + 6
  | .timerQueue (.io i) => 4 * i + 8
  | .connector .. | .conn _ => 0

theorem firstFd_inj {ch ch' : ChannelId} (h : ch.isPermanent = true) (h' : ch'.isPermanent = true)
    (heq : firstFd ch = firstFd ch') : ch = ch' := by
  rcases ch with (_ | i) | (_ | i) | _ | _ | _ <;>
    rcases ch' with (_ | i') | (_ | i') | _ | _ | _ <;>
    simp only [firstFd, ChannelId.isPermanent, Bool.false_eq_true] at h h' heq ⊢ <;> grind

theorem firstFd_even (ch : ChannelId) : firstFd ch % 2 = 0 := by
  rcases ch with (_ | i) | (_ | i) | _ | _ | _ <;> simp only [firstFd] <;> omega

/-- One loop for everything. -/
def oneLoop : Setup where
  numThreads := 0
  clientLoop := fun _ => .base
  wriComCb := false
  fd := firstFd
  fd_inj := fun _ _ => firstFd_inj
  isOpen := fun n => n % 2 = 0
  isOpen_fd := fun ch _ => decide_eq_true (firstFd_even ch)

/-- A connection is accepted, closes and is destroyed. A client gets its descriptor for an attempt,
which succeeds, and is destroyed by another thread. -/
def reused : List World.Label :=
  [.call (some .base) {} .start,
    .poll .base [(.acceptor, POLLIN)], .handleEvent .base, .runTask .base { fd := 7 },
    .runTask .base {}, .takeFunctors .base, .dropFunctors .base,
    .poll .base [(.conn (.ofServer .base 1), POLLIN)], .handleEvent .base,
    .runTask .base { read := some 0 }, .runTask .base {}, .takeFunctors .base,
    .runFunctor .base {}, .runTask .base {}, .runTask .base {}, .dropFunctors .base,
    .call (some .base) { connect := some .EINPROGRESS, fd := 7 } (.connect 0),
    .poll .base [(.connector 0 0, POLLOUT)], .handleEvent .base, .runTask .base {},
    .runTask .base {}, .takeFunctors .base, .runFunctor .base {}, .dropFunctors .base,
    .destroyClient none 0,
    .poll .base [], .takeFunctors .base, .runFunctor .base {}, .runFunctor .base {},
    .runFunctor .base {}, .dropFunctors .base,
    .poll .base [], .takeFunctors .base, .runFunctor .base {}, .runTask .base {},
    .runTask .base {}, .dropFunctors .base]

theorem registered_alive_reused :
    (∃ w, Machine.run (World.step oneLoop) (World.init oneLoop) reused = .ok w ∧
      w.isOpen 7 = false ∧ (w.loops .base).poller.channels 7 = none) ∧
    Machine.Along (World.step oneLoop) (Machine.onResult (Machine.UnlessFault (Lives oneLoop)))
      (World.init oneLoop) reused :=
  ⟨⟨_, rfl, rfl, rfl⟩, registered_alive _ _ (by decide +kernel)⟩

/-- The server is destroyed while its acceptor listens. -/
def listening : List World.Label := [.call (some .base) {} .start, .destroyServer]

/-- The channel of the acceptor stays in the poller, and the next channel that gets its descriptor
fails in the assertion of `updateChannel`. -/
theorem registered_destroyed : ∃ w,
    Machine.run (World.step oneLoop) (World.init oneLoop) listening = .ok w ∧
    (w.loops .base).poller.channels 4 = some .acceptor ∧ ¬w.Exists .acceptor ∧
    w.step oneLoop (.call (some .base) { connect := some .EINPROGRESS, fd := 4 } (.connect 0)) =
      .error (.faulted .assertFailed) ∧
    ¬Machine.Along (World.step oneLoop) (Machine.onResult (Machine.UnlessFault (Lives oneLoop)))
      (World.init oneLoop) listening := by
  refine ⟨_, rfl, rfl, by decide, rfl, fun h => ?_⟩
  have hlives := (h.2 _ rfl).1 _ rfl
  exact absurd (hlives.alive .base 4 .acceptor rfl) (by decide)

end Reactor

end MuduoRebuild
