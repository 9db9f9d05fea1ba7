import MuduoRebuild.Reactor.Steady

/-!
# The reactor: its functions are steady

One lemma for each function. A function that makes a connection or a channel relies on the state in
which it is called being `Sound`, and one that drops a pointer on the connection having another, or
not being open.
-/

namespace MuduoRebuild

namespace Reactor

open Fallible
open TcpServer (LoopId)
open TcpClient (verdict)

namespace World

variable {c : Setup} {w w' : World} {hand : Option ℕ} {t : Option LoopId} {l : LoopId}
  {k : ConnId} {j sockfd : ℕ} {a : Answer} {left : Bool}

/-! ### `TcpConnection` -/

theorem steady_connEstablished (hok : w.connEstablished c k = .ok w') :
    Steady c hand hand w w' := by
  obtain ⟨conn, hconn, hok⟩ := bind_eq_ok.mp hok
  obtain ⟨_, hstate, hok⟩ := bind_eq_ok.mp hok
  have hconn := alive_eq_ok.mp hconn
  have hstate := check_eq_ok.mp hstate
  have hset : Quiet c w (w.setConn k { conn with state_ := .kConnected }) :=
    quiet_setConn hconn fun _ => .inl rfl
  refine (hset.steady rfl).trans (steady_update hok ?_ fun _ _ => by simp)
  exact ⟨_, Function.update_self .., .inl rfl⟩

theorem steady_queueWriComCb (w : World) (k : ConnId) :
    Steady c hand hand w (w.queueWriComCb c k) := by
  cases k with
  | ofServer l n =>
    rw [queueWriComCb]
    split_ifs
    · exact steady_queueInLoop w l fun _ => by simp
    · exact steady_refl w
  | ofClient => exact steady_refl w

theorem steady_sendInLoop (hopen : left = true → w.Open k) (hok : w.sendInLoop c k left = .ok w') :
    Steady c hand hand w w' := by
  obtain ⟨conn, hconn, hok⟩ := bind_eq_ok.mp hok
  split_ifs at hok with hwriting hleft
  · obtain rfl := Except.ok.inj hok
    exact steady_refl w
  · exact steady_update hok (hopen hleft) fun _ _ => by simp
  · obtain rfl := Except.ok.inj hok
    exact steady_queueWriComCb w k

theorem steady_handleWrite (hopen : w.Open k) (hok : w.handleWrite c k left = .ok w') :
    Steady c hand hand w w' := by
  obtain ⟨conn, -, hok⟩ := bind_eq_ok.mp hok
  split_ifs at hok
  · obtain rfl := Except.ok.inj hok
    exact steady_refl w
  · obtain ⟨v, hv, hok⟩ := bind_eq_ok.mp hok
    obtain rfl := Except.ok.inj hok
    exact (steady_update hv hopen fun _ _ => by simp).trans (steady_queueWriComCb v k)
  · obtain rfl := Except.ok.inj hok
    exact steady_refl w

theorem steady_disconnecting {conn : Conn} (hconn : w.conn k = some conn) :
    Steady c hand hand w (w.disconnecting k conn) :=
  (quiet_setConn hconn fun _ => .inr rfl).steady rfl

theorem steady_send (hok : w.send c t k left = .ok w') : Steady c hand hand w w' := by
  obtain ⟨conn, hconn, hok⟩ := bind_eq_ok.mp hok
  have hconn := alive_eq_ok.mp hconn
  split_ifs at hok with hstate
  · refine steady_runInLoop (fun _ => by simp) (fun w' hok => ?_) hok
    exact steady_sendInLoop (fun _ => ⟨conn, hconn, .inl hstate⟩) hok
  · obtain rfl := Except.ok.inj hok
    exact steady_refl w

theorem steady_shutdownInLoop (hok : w.shutdownInLoop k = .ok w') : Steady c hand hand w w' := by
  obtain ⟨conn, -, hok⟩ := bind_eq_ok.mp hok
  obtain rfl := Except.ok.inj hok
  exact steady_refl w

theorem steady_shutdown (hok : w.shutdown c t k = .ok w') : Steady c hand hand w w' := by
  obtain ⟨conn, hconn, hok⟩ := bind_eq_ok.mp hok
  have hconn := alive_eq_ok.mp hconn
  split_ifs at hok
  · refine (steady_disconnecting hconn).trans (steady_runInLoop (fun _ => by simp) ?_ hok)
    exact fun w' => steady_shutdownInLoop
  · obtain rfl := Except.ok.inj hok
    exact steady_refl w

theorem steady_forceClose (hok : w.forceClose c k = .ok w') : Steady c hand hand w w' := by
  obtain ⟨conn, hconn, hok⟩ := bind_eq_ok.mp hok
  have hconn := alive_eq_ok.mp hconn
  split_ifs at hok
  · obtain rfl := Except.ok.inj hok
    exact (steady_disconnecting hconn).trans (steady_queueInLoop _ _ fun _ => by simp)
  · obtain rfl := Except.ok.inj hok
    exact steady_refl w

theorem steady_forceCloseWithDelay (hok : w.forceCloseWithDelay c t k = .ok w') :
    Steady c hand hand w w' := by
  obtain ⟨conn, hconn, hok⟩ := bind_eq_ok.mp hok
  have hconn := alive_eq_ok.mp hconn
  split_ifs at hok
  · exact (steady_disconnecting hconn).trans (steady_runAfter hok)
  · obtain rfl := Except.ok.inj hok
    exact steady_refl w

/-! ### `Connector` -/

/-- The members of a connector other than its channel are set, and it does not begin to wait. -/
theorem steady_setConnector {client : Client} {connector_ : Connector}
    (hclient : w.client j = some client)
    (hchannel : connector_.channel_ = client.connector_.channel_)
    (hstate : connector_.state_ = .kConnecting → client.connector_.state_ = .kConnecting) :
    Steady c hand hand w (w.setConnector j client connector_) := by
  have hquiet : Quiet c w (w.setConnector j client connector_) :=
    quiet_setClient hclient ⟨hchannel, hstate, fun _ => .inl, le_rfl⟩
  exact hquiet.steady rfl

theorem steady_retry (hok : w.retry c j sockfd = .ok w') : Steady c (some sockfd) none w w' := by
  obtain ⟨client, hclient, hok⟩ := bind_eq_ok.mp hok
  have hclient := alive_eq_ok.mp hclient
  refine (steady_closeFd w sockfd).trans ?_
  dsimp only at hok
  split_ifs at hok
  · refine Steady.trans ?_ (steady_runAfter hok)
    exact steady_setConnector hclient rfl fun h => by cases h
  · obtain rfl := Except.ok.inj hok
    exact steady_setConnector hclient rfl fun h => by cases h

theorem steady_connecting (hsound : w.Sound c) (hok : w.connecting c j sockfd = .ok w') :
    Steady c (some sockfd) none w w' := by
  obtain ⟨client, hclient, hok⟩ := bind_eq_ok.mp hok
  obtain ⟨_, hnone, hok⟩ := bind_eq_ok.mp hok
  have hclient := alive_eq_ok.mp hclient
  have hnone := check_eq_ok.mp hnone
  -- the channel is new: if the poller knew it, the connector would wait on it
  have hunknown : ¬w.Known c (.connector j client.connector_.made) := fun hknown => by
    rcases hsound.entitled _ hknown with ⟨client', hclient', hchannel⟩ | hrem
    · obtain rfl := Option.some.inj (hclient.symm.trans hclient')
      rw [hnone] at hchannel
      cases hchannel
    · cases hrem
  refine (steady_newChannel hsound hunknown hunknown sockfd).trans ?_
  have hfd : (w.newChannel (.connector j client.connector_.made) sockfd).fd
      (.connector j client.connector_.made) = sockfd := Function.update_self ..
  have hwait : Steady c _ none (w.newChannel (.connector j client.connector_.made) sockfd) w' :=
    steady_wait hclient hnone rfl hok
  rwa [hfd] at hwait

theorem steady_connect (hsound : w.Sound c) (hok : w.connect c j a = .ok w') :
    Steady c none none w w' := by
  obtain ⟨v, hv, hok⟩ := bind_eq_ok.mp hok
  have hv : Steady c none (some a.fd) w v := steady_openFd hv
  refine hv.trans ?_
  split at hok
  · exact steady_connecting (hv.sound hsound) hok
  · exact steady_retry hok
  · obtain ⟨_, -, hok⟩ := bind_eq_ok.mp hok
    obtain rfl := Except.ok.inj hok
    exact steady_closeFd v a.fd

theorem steady_startInLoop (hsound : w.Sound c) (hok : w.startInLoop c j a = .ok w') :
    Steady c none none w w' := by
  obtain ⟨client, -, hok⟩ := bind_eq_ok.mp hok
  obtain ⟨_, -, hok⟩ := bind_eq_ok.mp hok
  split_ifs at hok
  · exact steady_connect hsound hok
  · obtain rfl := Except.ok.inj hok
    exact steady_refl w

theorem steady_restart (hsound : w.Sound c) (hok : w.restart c j a = .ok w') :
    Steady c none none w w' := by
  obtain ⟨client, hclient, hok⟩ := bind_eq_ok.mp hok
  have hclient := alive_eq_ok.mp hclient
  have hset : Steady c none none w (w.setConnector j client
      { client.connector_ with state_ := .kDisconnected, connect_ := true }) :=
    steady_setConnector hclient rfl fun h => by cases h
  exact hset.trans (steady_startInLoop (hset.sound hsound) hok)

/-! ### Closing -/

theorem steady_removeConnectionOfClient (hsound : w.Sound c)
    (hok : w.removeConnectionOfClient c j k a = .ok w') : Steady c none none w w' := by
  obtain ⟨client, hclient, hok⟩ := bind_eq_ok.mp hok
  obtain ⟨_, -, hok⟩ := bind_eq_ok.mp hok
  have hclient := alive_eq_ok.mp hclient
  have hset : Quiet c w (w.setClient j { client with connection_ := none }) :=
    quiet_setClient hclient ⟨rfl, id, fun _ hk => (Option.not_mem_none _ hk).elim, le_rfl⟩
  have hqueue : Steady c none none w
      ((w.setClient j { client with connection_ := none }).queueInLoop (c.clientLoop j)
        (.connDestroyed k)) :=
    (hset.steady rfl).trans (steady_queueInLoop _ _ fun _ => by simp)
  dsimp only at hok
  split_ifs at hok
  · exact hqueue.trans (steady_restart (hqueue.sound hsound) hok)
  · obtain rfl := Except.ok.inj hok
    exact hqueue

theorem steady_removeConnectionInLoop (hok : w.removeConnectionInLoop c k = .ok w') :
    Steady c hand hand w w' := by
  obtain ⟨server, hserver, hok⟩ := bind_eq_ok.mp hok
  obtain ⟨_, -, hok⟩ := bind_eq_ok.mp hok
  obtain rfl := Except.ok.inj hok
  have hset : Quiet c w { w with server := some { server with
      connections_ := server.connections_.erase k } } :=
    quiet_setServer (alive_eq_ok.mp hserver) ⟨id, le_rfl⟩
  exact (hset.steady rfl).trans (steady_queueInLoop _ _ fun _ => by simp)

theorem steady_closeCb (hsound : w.Sound c) {cb : CloseCallback}
    (hok : w.closeCb c k a cb = .ok w') : Steady c none none w w' := by
  cases cb with
  | tcpServer =>
    obtain ⟨server, -, hok⟩ := bind_eq_ok.mp hok
    exact steady_runInLoop (fun _ => by simp) (fun w' => steady_removeConnectionInLoop) hok
  | tcpClient j => exact steady_removeConnectionOfClient hsound hok
  | base l =>
    obtain rfl := Except.ok.inj hok
    exact steady_queueInLoop w l fun _ => by simp

theorem steady_handleClose (hsound : w.Sound c) (hok : w.handleClose c k a = .ok w') :
    Steady c none none w w' := by
  obtain ⟨conn, hconn, hok⟩ := bind_eq_ok.mp hok
  obtain ⟨_, hstate, hok⟩ := bind_eq_ok.mp hok
  obtain ⟨v, hv, hok⟩ := bind_eq_ok.mp hok
  have hopen : w.Open k := ⟨conn, alive_eq_ok.mp hconn, check_eq_ok.mp hstate⟩
  have hv : Steady c none none w v := steady_update hv hopen fun _ _ => by simp
  exact hv.trans (steady_closeCb (hv.sound hsound) hok)

theorem steady_handleRead (hsound : w.Sound c) (hok : w.handleRead c k a = .ok w') :
    Steady c none none w w' := by
  obtain ⟨conn, -, hok⟩ := bind_eq_ok.mp hok
  split_ifs at hok
  · exact steady_handleClose hsound hok
  · obtain rfl := Except.ok.inj hok
    exact steady_refl w

theorem steady_forceCloseInLoop (hsound : w.Sound c) (hok : w.forceCloseInLoop c k a = .ok w') :
    Steady c none none w w' := by
  obtain ⟨conn, -, hok⟩ := bind_eq_ok.mp hok
  split_ifs at hok
  · exact steady_handleClose hsound hok
  · obtain rfl := Except.ok.inj hok
    exact steady_refl w

/-! ### Opening -/

/-- The client apart, somebody holds the connection. -/
def Shared (c : Setup) (w : World) (j : ℕ) (k : ConnId) : Prop :=
  { w with client := Function.update w.client j none }.useCount c k ≠ 0

/-- What holds a connection beside a client holds it whatever happens to the client. -/
theorem useCount_ne_zero_of_shared (hshared : w.Shared c j k) (hserver : w'.server = w.server)
    (hclient : ∀ j', j' ≠ j → w'.client j' = w.client j')
    (hfunctors : ∀ l, ∀ f ∈ w.allFunctors l, f ∈ w'.allFunctors l)
    (hrefs : ∀ conn ∈ w.conn k, ∃ conn' ∈ w'.conn k, conn'.refs = conn.refs) :
    w'.useCount c k ≠ 0 := by
  refine useCount_ne_zero_iff.mpr ?_
  rcases useCount_ne_zero_iff.mp hshared with h | h | ⟨l, hl, f, hf, hptr⟩ | ⟨conn, hconn, hne⟩
  · refine .inl (inServer_ne_zero_iff.mpr ?_)
    rw [hserver]
    exact inServer_ne_zero_iff.mp h
  · refine .inr (.inl (inClient_ne_zero_iff.mpr ?_))
    obtain ⟨i, n, hk, client, hmem, hconn⟩ := inClient_ne_zero_iff.mp h
    have hij : i ≠ j := by
      rintro rfl
      exact Option.not_mem_none client ((Function.update_self (f := w.client) ..).symm.trans hmem)
    refine ⟨i, n, hk, client, (hclient i hij).trans ?_, hconn⟩
    exact (Function.update_of_ne hij ..).symm.trans hmem
  · exact .inr (.inr (.inl ⟨l, hl, f, hfunctors l f hf, hptr⟩))
  · obtain ⟨conn', hconn', heq⟩ := hrefs conn hconn
    exact .inr (.inr (.inr ⟨conn', hconn', heq ▸ hne⟩))

/-- So it does if the client is destroyed. -/
theorem Shared.mono (h : w.Shared c j k) (hserver : w'.server = w.server)
    (hclient : ∀ j', j' ≠ j → w'.client j' = w.client j')
    (hfunctors : ∀ l, ∀ f ∈ w.allFunctors l, f ∈ w'.allFunctors l)
    (hrefs : ∀ conn ∈ w.conn k, ∃ conn' ∈ w'.conn k, conn'.refs = conn.refs) :
    w'.Shared c j k := by
  rw [Shared]
  refine useCount_ne_zero_of_shared h hserver (fun j' hj' => ?_) hfunctors hrefs
  exact (Function.update_of_ne hj' ..).trans (hclient j' hj')

theorem steady_newConnectionOfClient (hsound : w.Sound c) (hfresh : w.Fresh)
    (hshared : ∀ client ∈ w.client j, ∀ k ∈ client.connection_, w.Open k → w.Shared c j k)
    (hok : w.newConnectionOfClient c j sockfd = .ok w') :
    Steady c (some sockfd) none w w' := by
  obtain ⟨client, hclient, hok⟩ := bind_eq_ok.mp hok
  have hclient := alive_eq_ok.mp hclient
  dsimp only at hok
  generalize hnew : ConnId.ofClient j client.nextConnId_ = new at hok
  have hnone : w.conn new = none := by
    rw [← Option.not_isSome_iff_eq_none, ← hnew]
    exact fun hsome => Nat.lt_irrefl _ (hfresh.client j client.nextConnId_ hsome client hclient)
  have hunowned : ¬w.Owns c (.conn new) := by simp [Owns, hnone]
  have hunknown : ¬w.Known c (.conn new) := fun h => hunowned (hsound.isSome h)
  -- the channel is constructed, the client takes the connection, and the connection is constructed
  generalize hclient' : { client with
    nextConnId_ := client.nextConnId_ + 1, connection_ := some new } = client' at hok
  have hset : Quiet c (w.newChannel (.conn new) sockfd)
      ((w.newChannel (.conn new) sockfd).setClient j client') := by
    subst hclient'
    refine quiet_setClient hclient ⟨rfl, id, fun k hk => .inr ?_, Nat.le_succ _⟩
    obtain rfl := Option.some.inj (Option.mem_def.mp hk)
    exact hnew ▸ rfl
  have hfd : ((w.newChannel (.conn new) sockfd).setClient j client').fd (.conn new) = sockfd :=
    Function.update_self ..
  have hmade : Steady c (some sockfd) none ((w.newChannel (.conn new) sockfd).setClient j client')
      ((w.newConn new sockfd (.tcpClient j)).setClient j client') := by
    have h : Steady c _ none _ (World.setConn _ new ⟨.kConnecting, .tcpClient j, 0⟩) :=
      steady_construct (w := (w.newChannel (.conn new) sockfd).setClient j client') hnone
        (fun l n heq => by rw [← hnew] at heq; cases heq) fun i n heq x hx => ?_
    · rwa [hfd] at h
    · rw [← hnew] at heq
      obtain ⟨rfl, rfl⟩ := ConnId.ofClient.inj heq
      rw [client_setClient_self] at hx
      obtain rfl := Option.some.inj (Option.mem_def.mp hx)
      subst hclient'
      exact Nat.lt_succ_self _
  have hrelease : Steady c none none ((w.newConn new sockfd (.tcpClient j)).setClient j client')
      (((w.newConn new sockfd (.tcpClient j)).setClient j client').releaseAll c
        client.connection_.toList) := by
    refine steady_releaseAll fun k hk hopen => ?_
    obtain ⟨conn, hconn, hisOpen⟩ := hopen
    have hne : k ≠ new := by
      rintro rfl
      obtain rfl := Option.some.inj ((Function.update_self (f := w.conn) ..).symm.trans hconn)
      rcases hisOpen with h | h <;> cases h
    have hconn : w.conn k = some conn := (Function.update_of_ne hne ..).symm.trans hconn
    refine useCount_ne_zero_of_shared
      (hshared client hclient k (Option.mem_toList.mp hk) ⟨conn, hconn, hisOpen⟩) rfl
      (fun j' hj' => client_setClient_of_ne _ hj' _) (fun _ _ => id) fun conn' hconn' => ?_
    exact ⟨conn', (Function.update_of_ne hne ..).trans hconn', rfl⟩
  exact (steady_newChannel hsound hunknown hunowned sockfd).trans
    ((hset.steady rfl).trans (hmade.trans (hrelease.trans (steady_connEstablished hok))))

/-- A server takes a connection that has been constructed for it. -/
theorem steady_newConnectionOfServer (hsound : w.Sound c) (hfresh : w.Fresh)
    (hok : w.newConnectionOfServer c sockfd = .ok w') : Steady c (some sockfd) none w w' := by
  obtain ⟨server, hserver, hok⟩ := bind_eq_ok.mp hok
  have hserver := alive_eq_ok.mp hserver
  generalize getNextLoop c server = next at hok
  obtain ⟨ioLoop, next_⟩ := next
  dsimp only at hok
  generalize hnew : ConnId.ofServer ioLoop server.nextConnId_ = new at hok
  have hnone : w.conn new = none := by
    rw [← Option.not_isSome_iff_eq_none, ← hnew]
    exact fun hsome =>
      Nat.lt_irrefl _ (hfresh.server ioLoop server.nextConnId_ hsome server hserver)
  have hunowned : ¬w.Owns c (.conn new) := by simp [Owns, hnone]
  have hunknown : ¬w.Known c (.conn new) := fun h => hunowned (hsound.isSome h)
  generalize hserver' : { server with
    nextConnId_ := server.nextConnId_ + 1
    connections_ := new :: server.connections_
    next_ := next_ } = server' at hok
  have hset : Quiet c (w.newChannel (.conn new) sockfd)
      { w.newChannel (.conn new) sockfd with server := some server' } := by
    subst hserver'
    exact quiet_setServer hserver ⟨id, Nat.le_succ _⟩
  have hfd : (w.newChannel (.conn new) sockfd).fd (.conn new) = sockfd := Function.update_self ..
  have hmade : Steady c (some sockfd) none
      { w.newChannel (.conn new) sockfd with server := some server' }
      { w.newConn new sockfd .tcpServer with server := some server' } := by
    have h : Steady c _ none _ (World.setConn _ new ⟨.kConnecting, .tcpServer, 0⟩) :=
      steady_construct (w := { w.newChannel (.conn new) sockfd with server := some server' }) hnone
        (fun l n heq x hx => ?_) fun i n heq => by rw [← hnew] at heq; cases heq
    · rwa [hfd] at h
    · rw [← hnew] at heq
      obtain ⟨rfl, rfl⟩ := ConnId.ofServer.inj heq
      obtain rfl := Option.some.inj (Option.mem_def.mp hx)
      subst hserver'
      exact Nat.lt_succ_self _
  refine (steady_newChannel hsound hunknown hunowned sockfd).trans
    ((hset.steady rfl).trans (hmade.trans ?_))
  exact steady_runInLoop (fun _ => by simp) (fun w' => steady_connEstablished) hok

theorem steady_handleAccept (hsound : w.Sound c) (hfresh : w.Fresh)
    (hok : w.handleAccept c a = .ok w') : Steady c none none w w' := by
  obtain ⟨server, -, hok⟩ := bind_eq_ok.mp hok
  split_ifs at hok
  · obtain ⟨v, hv, hok⟩ := bind_eq_ok.mp hok
    have hv : Steady c none (some a.fd) w v := steady_openFd hv
    exact hv.trans (steady_newConnectionOfServer (hv.sound hsound) (hv.fresh hfresh) hok)
  · obtain rfl := Except.ok.inj hok
    exact steady_refl w

/-! ### Calls of the user -/

theorem steady_listen (hok : w.listen c = .ok w') : Steady c hand hand w w' := by
  obtain ⟨server, hserver, hok⟩ := bind_eq_ok.mp hok
  have hset : Quiet c w { w with server := some { server with listenning_ := true } } :=
    quiet_setServer (alive_eq_ok.mp hserver) ⟨fun _ => rfl, le_rfl⟩
  exact (hset.steady rfl).trans (steady_update hok ⟨_, rfl, rfl⟩ fun _ _ => by simp)

theorem steady_start (hok : w.start c t = .ok w') : Steady c hand hand w w' := by
  obtain ⟨server, -, hok⟩ := bind_eq_ok.mp hok
  split_ifs at hok
  · obtain rfl := Except.ok.inj hok
    exact steady_refl w
  · exact steady_runInLoop (fun _ => by simp) (fun w' => steady_listen) hok

theorem steady_connectClient (hsound : w.Sound c) (hok : w.connectClient c t j a = .ok w') :
    Steady c none none w w' := by
  obtain ⟨client, hclient, hok⟩ := bind_eq_ok.mp hok
  have hset : Quiet c w (w.setClient j { client with
      connect_ := true
      connector_ := { client.connector_ with connect_ := true } }) :=
    quiet_setClient (alive_eq_ok.mp hclient) ⟨rfl, id, fun _ => .inl, le_rfl⟩
  have hset : Steady c none none w _ := hset.steady rfl
  refine hset.trans (steady_runInLoop (fun _ => by simp) (fun w' => ?_) hok)
  exact steady_startInLoop (hset.sound hsound)

theorem steady_disconnect (hok : w.disconnect c t j = .ok w') : Steady c hand hand w w' := by
  obtain ⟨client, hclient, hok⟩ := bind_eq_ok.mp hok
  have hset : Quiet c w (w.setClient j { client with connect_ := false }) :=
    quiet_setClient (alive_eq_ok.mp hclient) ⟨rfl, id, fun _ => .inl, le_rfl⟩
  refine (hset.steady rfl).trans ?_
  dsimp only at hok
  split at hok
  · exact steady_shutdown hok
  · obtain rfl := Except.ok.inj hok
    exact steady_refl _

theorem steady_stop (hok : w.stop c t j = .ok w') : Steady c hand hand w w' := by
  obtain ⟨client, hclient, hok⟩ := bind_eq_ok.mp hok
  have hset : Quiet c w (w.setClient j { client with
      connect_ := false
      connector_ := { client.connector_ with connect_ := false } }) :=
    quiet_setClient (alive_eq_ok.mp hclient) ⟨rfl, id, fun _ => .inl, le_rfl⟩
  exact (hset.steady rfl).trans (steady_cancel hok)

theorem steady_enableRetry (hok : w.enableRetry j = .ok w') : Steady c hand hand w w' := by
  obtain ⟨client, hclient, hok⟩ := bind_eq_ok.mp hok
  obtain rfl := Except.ok.inj hok
  have hset : Quiet c w (w.setClient j { client with retry_ := true }) :=
    quiet_setClient (alive_eq_ok.mp hclient) ⟨rfl, id, fun _ => .inl, le_rfl⟩
  exact hset.steady rfl

theorem steady_call (hsound : w.Sound c) {call : Call} (hok : w.call c t a call = .ok w') :
    Steady c none none w w' := by
  cases call with
  | start => exact steady_start hok
  | connect => exact steady_connectClient hsound hok
  | disconnect => exact steady_disconnect hok
  | stop => exact steady_stop hok
  | enableRetry => exact steady_enableRetry hok
  | send => exact steady_send hok
  | shutdown => exact steady_shutdown hok
  | forceClose => exact steady_forceClose hok
  | forceCloseWithDelay => exact steady_forceCloseWithDelay hok

theorem steady_setRefs {f : ℕ → ℕ} (hok : w.setRefs k f = .ok w') : Steady c hand hand w w' := by
  obtain ⟨conn, hconn, hok⟩ := bind_eq_ok.mp hok
  obtain rfl := Except.ok.inj hok
  have hset : Quiet c w (w.setConn k { conn with refs := f conn.refs }) :=
    quiet_setConn (alive_eq_ok.mp hconn) id
  exact hset.steady rfl

end World

end Reactor

end MuduoRebuild
