import MuduoRebuild.Reactor.Removal

/-!
# Open connections are held

In a process with one loop, in whose thread everything is called, no functor is queued but those by
which a function puts something off: `connDestroyed`, `forceCloseInLoop`, `resetChannel` and the
call of `wriComCb_`. There an open connection is `Held` by its server or its client, or by the
functor `connDestroyed` that is going to close it. A function `Minds` this if it opens no connection
that is not held, and lets none go that is open. One lemma for each function says that it does.

The exception is `TcpClient::newConnection`, which lets the connection go that the client has.
-/

namespace MuduoRebuild

namespace Reactor

open Fallible
open TcpServer (LoopId)
open TcpClient (verdict)

/-- The functor puts something off that could not be done at once. -/
def Functor.isPosted : Functor → Bool
  | connDestroyed _ | forceCloseInLoop _ | wriComCb _ | resetChannel _ => true
  | listen | connEstablished _ | removeConnectionInLoop _ | sendInLoop _ | shutdownInLoop _
  | setCloseCallback _ | startInLoop _ | addTimerInLoop .. | cancelInLoop _ => false

/-- Everything runs in the base loop. -/
structure Setup.IsSingle (c : Setup) : Prop where
  numThreads : c.numThreads = 0
  clientLoop : ∀ j, c.clientLoop j = .base

namespace World

/-- An owner has the connection, or the functor that is going to close it. -/
def Held (w : World) (k : ConnId) : Prop :=
  w.inServer k ≠ 0 ∨ w.inClient k ≠ 0 ∨ .connDestroyed k ∈ (w.loops .base).toRun

/-- Open connections are held, and only such functors are queued as put something off. -/
structure Tended (w : World) : Prop where
  held : ∀ k, w.Open k → w.Held k
  posted : ∀ f ∈ (w.loops .base).toRun, f.isPosted = true

/-- The server and the clients exist. -/
def Peopled (w : World) : Prop := w.server.isSome = true ∧ ∀ j, (w.client j).isSome = true

/-- Open connections stay held, and no server or client is destroyed. -/
structure Minds (w w' : World) : Prop where
  people : w.Peopled → w'.Peopled
  opens : ∀ k, w'.Open k → w.Open k ∨ w'.Held k
  held : ∀ k, w.Held k → w'.Open k → w'.Held k
  posted : ∀ f ∈ (w'.loops .base).toRun, f ∈ (w.loops .base).toRun ∨ f.isPosted = true

variable {c : Setup} {w w' w'' : World} {t : Option LoopId} {l : LoopId} {k : ConnId}
  {ch : ChannelId} {j sockfd : ℕ} {a : Answer} {left : Bool}

theorem Minds.tended (h : Minds w w') (hw : w.Tended) : w'.Tended where
  held := fun k hk => (h.opens k hk).elim (fun hopen => h.held k (hw.held k hopen) hk) id
  posted := fun f hf => (h.posted f hf).elim (hw.posted f) id

theorem Minds.trans (h : Minds w w') (h' : Minds w' w'') : Minds w w'' where
  people := h'.people ∘ h.people
  opens := fun k hk => by
    rcases h'.opens k hk with hopen | hheld
    · exact (h.opens k hopen).imp_right fun hheld => h'.held k hheld hk
    · exact .inr hheld
  held := fun k hheld hk => by
    rcases h'.opens k hk with hopen | hheld'
    · exact h'.held k (h.held k hheld hopen) hk
    · exact hheld'
  posted := fun f hf => by
    rcases h'.posted f hf with hf | hf
    · exact h.posted f hf
    · exact .inr hf

/-! ### What does not matter -/

/-- Nobody gives up a connection, and none opens. -/
theorem minds_of (hpeople : w.Peopled → w'.Peopled) (hopen : ∀ k, w'.Open k → w.Open k)
    (hserver : ∀ k, w.inServer k ≠ 0 → w'.inServer k ≠ 0)
    (hclient : ∀ k, w.inClient k ≠ 0 → w'.inClient k ≠ 0)
    (hqueue : ∃ fs, (w'.loops .base).toRun = (w.loops .base).toRun ++ fs ∧
      ∀ f ∈ fs, f.isPosted = true) : Minds w w' := by
  obtain ⟨fs, hfs, hposted⟩ := hqueue
  refine ⟨hpeople, fun k hk => .inl (hopen k hk), fun k hheld _ => ?_, fun f hf => ?_⟩
  · refine hheld.imp (hserver k) (Or.imp (hclient k) fun hmem => ?_)
    rw [hfs]
    exact List.mem_append_left fs hmem
  · rw [hfs] at hf
    exact (List.mem_append.mp hf).imp_right (hposted f)

theorem minds_of_eq (hconn : w'.conn = w.conn) (hserver : w'.server = w.server)
    (hclient : w'.client = w.client)
    (hqueue : (w'.loops .base).toRun = (w.loops .base).toRun) : Minds w w' := by
  refine minds_of ?_ (fun k => ?_) (fun k => ?_) (fun k => ?_) ⟨[], ?_, List.forall_mem_nil _⟩
  · rw [Peopled, Peopled, hserver, hclient]
    exact id
  · rw [Open, Open, hconn]
    exact id
  · rw [inServer, inServer, hserver]
    exact id
  · rw [inClient_ne_zero_iff, inClient_ne_zero_iff, hclient]
    exact id
  · rw [hqueue, List.append_nil]

theorem minds_refl (w : World) : Minds w w := minds_of_eq rfl rfl rfl rfl

theorem Operates.minds (h : Operates w w') : Minds w w' :=
  minds_of_eq h.conn h.server h.client (by rw [h.loops]; rfl)

theorem minds_update {u : Channel.Update} (hok : w.update c u ch = .ok w') : Minds w w' :=
  (enters_of_update hok).toOperates.minds

theorem minds_removeChannel (hok : w.removeChannel c ch = .ok w') : Minds w w' :=
  (leaves_of_removeChannel hok).toOperates.minds

/-- The functors of the loop are the same. -/
theorem minds_modify {f : LoopState → LoopState} (l : LoopId)
    (hqueue : (f (w.loops l)).toRun = (w.loops l).toRun) : Minds w (w.modify l f) := by
  refine minds_of_eq rfl rfl rfl ?_
  by_cases hl : .base = l
  · subst hl
    rw [loops_modify_self, hqueue]
  · rw [loops_modify_of_ne w hl]

theorem minds_queueInLoop (w : World) (l : LoopId) {f : Functor}
    (hf : l = .base → f.isPosted = true) : Minds w (w.queueInLoop l f) := by
  by_cases hl : l = .base
  · subst hl
    refine minds_of id (fun _ => id) (fun _ => id) (fun _ => id) ⟨[f], ?_, ?_⟩
    · rw [queueInLoop, loops_modify_self, LoopState.toRun, LoopState.toRun, List.append_assoc]
    · exact List.forall_mem_singleton.mpr (hf rfl)
  · refine minds_of_eq rfl rfl rfl ?_
    rw [queueInLoop, loops_modify_of_ne w (Ne.symm hl)]

/-- In the thread of the loop a function is called, and no functor queued. -/
theorem minds_runInLoop {f : Functor} {run : World → Except Halt World}
    (hrun : ∀ w', run w = .ok w' → Minds w w')
    (hok : w.runInLoop (some .base) l f run = .ok w') : Minds w w' := by
  rw [runInLoop] at hok
  split_ifs at hok with hl
  · exact hrun w' hok
  · obtain rfl := Except.ok.inj hok
    exact minds_queueInLoop w l fun heq => absurd (congrArg some heq.symm) hl

theorem minds_runAfter {cb : TimerCallback} (hok : w.runAfter (some .base) l cb = .ok w') :
    Minds w w' := by
  have hnext : Minds w { w with nextTimer := w.nextTimer + 1 } := minds_of_eq rfl rfl rfl rfl
  simp only [runAfter] at hok
  refine hnext.trans (minds_runInLoop (fun w' hok => ?_) hok)
  obtain rfl := Except.ok.inj hok
  exact minds_modify l rfl

theorem minds_cancel {id : Option ℕ} (hok : w.cancel (some .base) l id = .ok w') :
    Minds w w' := by
  rw [cancel] at hok
  refine minds_runInLoop (fun w' hok => ?_) hok
  obtain rfl := Except.ok.inj hok
  exact minds_modify l rfl

/-- A connection is changed that is open if it is so afterwards. -/
theorem minds_setConn {conn conn' : Conn} (hconn : w.conn k = some conn)
    (hopen : conn'.IsOpen → conn.IsOpen) : Minds w (w.setConn k conn') := by
  refine minds_of id (fun k' hk' => ?_) (fun _ => id) (fun _ => id)
    ⟨[], (List.append_nil _).symm, List.forall_mem_nil _⟩
  obtain ⟨x, hx, hisOpen⟩ := hk'
  by_cases heq : k' = k
  · subst heq
    obtain rfl := Option.some.inj ((Function.update_self (f := w.conn) ..).symm.trans hx)
    exact ⟨conn, hconn, hopen hisOpen⟩
  · exact ⟨x, (Function.update_of_ne heq ..).symm.trans hx, hisOpen⟩

theorem peopled_setClient (j : ℕ) (client : Client) (h : w.Peopled) :
    (w.setClient j client).Peopled := by
  refine ⟨h.1, fun i => ?_⟩
  by_cases hij : i = j
  · subst hij
    rw [client_setClient_self]
    rfl
  · rw [client_setClient_of_ne w hij]
    exact h.2 i

/-- A client is changed, but for its connection. -/
theorem minds_setClient {client client' : Client} (hclient : w.client j = some client)
    (hconnection : client'.connection_ = client.connection_) :
    Minds w (w.setClient j client') := by
  refine minds_of (peopled_setClient j client') (fun _ => id) (fun _ => id) (fun k hk => ?_)
    ⟨[], (List.append_nil _).symm, List.forall_mem_nil _⟩
  obtain ⟨i, n, rfl, x, hx, heq⟩ := inClient_ne_zero_iff.mp hk
  refine inClient_ne_zero_iff.mpr ⟨i, n, rfl, ?_⟩
  by_cases hij : i = j
  · subst hij
    obtain rfl := Option.some.inj (hclient.symm.trans hx)
    exact ⟨client', client_setClient_self w i client', hconnection.trans heq⟩
  · exact ⟨x, (client_setClient_of_ne w hij client').trans hx, heq⟩

/-- A server is changed, but for its connections. -/
theorem minds_setServer {server server' : Server} (hserver : w.server = some server)
    (hconnections : server'.connections_ = server.connections_) :
    Minds w { w with server := some server' } := by
  refine minds_of (fun h => ⟨rfl, h.2⟩) (fun _ => id) (fun k hk => ?_) (fun _ => id)
    ⟨[], (List.append_nil _).symm, List.forall_mem_nil _⟩
  obtain ⟨x, hx, hmem⟩ := inServer_ne_zero_iff.mp hk
  obtain rfl := Option.some.inj (hserver.symm.trans hx)
  exact inServer_ne_zero_iff.mpr ⟨server', rfl, hconnections ▸ hmem⟩

theorem minds_release (w : World) (k : ConnId) : Minds w (w.release c k) := by
  rcases release_eq (c := c) w k with heq | ⟨-, -, heq⟩
  · rw [heq]
    exact minds_refl w
  · rw [heq]
    refine minds_of id (fun k' hk' => ?_) (fun _ => id) (fun _ => id)
      ⟨[], (List.append_nil _).symm, List.forall_mem_nil _⟩
    obtain ⟨x, hx, hisOpen⟩ := hk'
    refine ⟨x, ?_, hisOpen⟩
    by_cases heq : k' = k
    · subst heq
      simp [closeFd] at hx
    · exact (Function.update_of_ne heq ..).symm.trans hx

theorem minds_releaseAll (w : World) (ks : List ConnId) : Minds w (w.releaseAll c ks) := by
  induction ks generalizing w with
  | nil => exact minds_refl w
  | cons k ks ih => exact (minds_release w k).trans (ih _)

/-! ### `TcpConnection` -/

/-- A connection opens that is held. -/
theorem minds_connEstablished (hheld : w.Held k) (hok : w.connEstablished c k = .ok w') :
    Minds w w' := by
  obtain ⟨conn, -, hok⟩ := bind_eq_ok.mp hok
  obtain ⟨_, -, hok⟩ := bind_eq_ok.mp hok
  have hset : Minds w (w.setConn k { conn with state_ := .kConnected }) := by
    refine ⟨id, fun k' hk' => ?_, fun _ hk' _ => hk', fun _ => .inl⟩
    by_cases heq : k' = k
    · exact .inr (heq ▸ hheld)
    · obtain ⟨x, hx, hisOpen⟩ := hk'
      exact .inl ⟨x, (Function.update_of_ne heq ..).symm.trans hx, hisOpen⟩
  exact hset.trans (minds_update hok)

theorem minds_queueWriComCb (w : World) (k : ConnId) : Minds w (w.queueWriComCb c k) := by
  cases k with
  | ofServer l n =>
    rw [queueWriComCb]
    split_ifs
    · exact minds_queueInLoop w l fun _ => rfl
    · exact minds_refl w
  | ofClient => exact minds_refl w

theorem minds_sendInLoop (hok : w.sendInLoop c k left = .ok w') : Minds w w' := by
  obtain ⟨conn, -, hok⟩ := bind_eq_ok.mp hok
  split_ifs at hok
  · exact Except.ok.inj hok ▸ minds_refl w
  · exact minds_update hok
  · exact Except.ok.inj hok ▸ minds_queueWriComCb w k

theorem minds_handleWrite (hok : w.handleWrite c k left = .ok w') : Minds w w' := by
  obtain ⟨conn, -, hok⟩ := bind_eq_ok.mp hok
  split_ifs at hok
  · exact Except.ok.inj hok ▸ minds_refl w
  · obtain ⟨v, hv, hok⟩ := bind_eq_ok.mp hok
    exact Except.ok.inj hok ▸ (minds_update hv).trans (minds_queueWriComCb v k)
  · exact Except.ok.inj hok ▸ minds_refl w

theorem minds_disconnecting {conn : Conn} (hconn : w.conn k = some conn) (hopen : conn.IsOpen) :
    Minds w (w.disconnecting k conn) :=
  minds_setConn hconn fun _ => hopen

theorem minds_send (hok : w.send c (some .base) k left = .ok w') : Minds w w' := by
  obtain ⟨conn, -, hok⟩ := bind_eq_ok.mp hok
  split_ifs at hok
  · exact minds_runInLoop (fun w' => minds_sendInLoop) hok
  · exact Except.ok.inj hok ▸ minds_refl w

theorem minds_shutdownInLoop (hok : w.shutdownInLoop k = .ok w') : Minds w w' := by
  obtain ⟨conn, -, hok⟩ := bind_eq_ok.mp hok
  exact Except.ok.inj hok ▸ minds_refl w

theorem minds_shutdown (hok : w.shutdown c (some .base) k = .ok w') : Minds w w' := by
  obtain ⟨conn, hconn, hok⟩ := bind_eq_ok.mp hok
  split_ifs at hok with hstate
  · have hset := minds_disconnecting (alive_eq_ok.mp hconn) (.inl hstate)
    exact hset.trans (minds_runInLoop (fun w' => minds_shutdownInLoop) hok)
  · exact Except.ok.inj hok ▸ minds_refl w

theorem minds_forceClose (hok : w.forceClose c k = .ok w') : Minds w w' := by
  obtain ⟨conn, hconn, hok⟩ := bind_eq_ok.mp hok
  split_ifs at hok with hopen
  · have hset := minds_disconnecting (alive_eq_ok.mp hconn) hopen
    exact Except.ok.inj hok ▸ hset.trans (minds_queueInLoop _ _ fun _ => rfl)
  · exact Except.ok.inj hok ▸ minds_refl w

/-! ### `Connector` -/

theorem minds_setConnector {client : Client} (hclient : w.client j = some client)
    (connector_ : Connector) : Minds w (w.setConnector j client connector_) :=
  minds_setClient hclient rfl

theorem minds_closeFd (w : World) (fd : ℕ) : Minds w (w.closeFd fd) := minds_of_eq rfl rfl rfl rfl

theorem minds_retry (hsingle : c.IsSingle) (hok : w.retry c j sockfd = .ok w') : Minds w w' := by
  obtain ⟨client, hclient, hok⟩ := bind_eq_ok.mp hok
  have hclient := alive_eq_ok.mp hclient
  refine (minds_closeFd w sockfd).trans ?_
  dsimp only at hok
  split_ifs at hok
  · rw [hsingle.clientLoop] at hok
    exact (minds_setConnector hclient _).trans (minds_runAfter hok)
  · exact Except.ok.inj hok ▸ minds_setConnector hclient _

theorem minds_connecting (hok : w.connecting c j sockfd = .ok w') : Minds w w' := by
  obtain ⟨client, hclient, hok⟩ := bind_eq_ok.mp hok
  obtain ⟨_, -, hok⟩ := bind_eq_ok.mp hok
  have hnew : ∀ v : World, ∀ d, Minds v (v.newChannel d sockfd) :=
    fun _ _ => minds_of_eq rfl rfl rfl rfl
  exact (minds_setConnector (alive_eq_ok.mp hclient) _).trans
    ((hnew _ _).trans (minds_update hok))

theorem minds_connect (hsingle : c.IsSingle) (hok : w.connect c j a = .ok w') : Minds w w' := by
  obtain ⟨v, hv, hok⟩ := bind_eq_ok.mp hok
  obtain ⟨_, -, hv⟩ := bind_eq_ok.mp hv
  obtain rfl := Except.ok.inj hv
  have hopened : Minds w { w with isOpen := Function.update w.isOpen a.fd true } :=
    minds_of_eq rfl rfl rfl rfl
  refine hopened.trans ?_
  split at hok
  · exact minds_connecting hok
  · exact minds_retry hsingle hok
  · obtain ⟨_, -, hok⟩ := bind_eq_ok.mp hok
    exact Except.ok.inj hok ▸ minds_closeFd _ a.fd

theorem minds_startInLoop (hsingle : c.IsSingle) (hok : w.startInLoop c j a = .ok w') :
    Minds w w' := by
  obtain ⟨client, -, hok⟩ := bind_eq_ok.mp hok
  obtain ⟨_, -, hok⟩ := bind_eq_ok.mp hok
  split_ifs at hok
  · exact minds_connect hsingle hok
  · exact Except.ok.inj hok ▸ minds_refl w

theorem minds_restart (hsingle : c.IsSingle) (hok : w.restart c j a = .ok w') : Minds w w' := by
  obtain ⟨client, hclient, hok⟩ := bind_eq_ok.mp hok
  exact (minds_setConnector (alive_eq_ok.mp hclient) _).trans (minds_startInLoop hsingle hok)

theorem minds_removeAndResetChannel (hok : w.removeAndResetChannel c j = .ok (w', sockfd)) :
    Minds w w' := by
  obtain ⟨client, -, hok⟩ := bind_eq_ok.mp hok
  split at hok
  · cases hok
  · obtain ⟨u, hu, hok⟩ := bind_eq_ok.mp hok
    obtain ⟨v, hv, hok⟩ := bind_eq_ok.mp hok
    obtain ⟨rfl, -⟩ := Prod.mk.inj (Except.ok.inj hok)
    exact (minds_update hu).trans
      ((minds_removeChannel hv).trans (minds_queueInLoop v _ fun _ => rfl))

theorem minds_resetChannel (hok : w.resetChannel j = .ok w') : Minds w w' := by
  obtain ⟨client, hclient, hok⟩ := bind_eq_ok.mp hok
  exact Except.ok.inj hok ▸ minds_setConnector (alive_eq_ok.mp hclient) _

theorem minds_handleError (hsingle : c.IsSingle) (hok : w.handleError c j = .ok w') :
    Minds w w' := by
  obtain ⟨client, -, hok⟩ := bind_eq_ok.mp hok
  split_ifs at hok
  · obtain ⟨⟨v, sockfd⟩, hv, hok⟩ := bind_eq_ok.mp hok
    exact (minds_removeAndResetChannel hv).trans (minds_retry hsingle hok)
  · exact Except.ok.inj hok ▸ minds_refl w

/-! ### Closing -/

theorem mem_toRun_queueInLoop (w : World) (l : LoopId) (f : Functor) :
    f ∈ ((w.queueInLoop l f).loops l).toRun := by
  rw [queueInLoop, loops_modify_self, LoopState.toRun]
  simp

/-- A client gives its connection up to the functor that is going to close it. -/
theorem minds_removeConnectionOfClient (hsingle : c.IsSingle)
    (hok : w.removeConnectionOfClient c j k a = .ok w') : Minds w w' := by
  obtain ⟨client, hclient, hok⟩ := bind_eq_ok.mp hok
  obtain ⟨_, hconnection, hok⟩ := bind_eq_ok.mp hok
  have hclient := alive_eq_ok.mp hclient
  have hconnection := check_eq_ok.mp hconnection
  dsimp only at hok
  rw [hsingle.clientLoop] at hok
  have hqueue : Minds w ((w.setClient j { client with connection_ := none }).queueInLoop .base
      (.connDestroyed k)) := by
    have hfunctor := minds_queueInLoop (w.setClient j { client with connection_ := none }) .base
      (f := .connDestroyed k) fun _ => rfl
    refine ⟨peopled_setClient j _, fun _ hk' => .inl hk', fun k' hheld hk' => ?_,
      hfunctor.posted⟩
    by_cases heq : k' = k
    · rw [heq]
      exact .inr (.inr (mem_toRun_queueInLoop _ _ _))
    · refine hfunctor.held k' (hheld.imp_right (Or.imp_left fun h => ?_)) hk'
      obtain ⟨i, n, rfl, x, hx, hx'⟩ := inClient_ne_zero_iff.mp h
      have hij : i ≠ j := by
        rintro rfl
        obtain rfl := Option.some.inj (hclient.symm.trans hx)
        exact heq (Option.some.inj (hx'.symm.trans hconnection))
      exact inClient_ne_zero_iff.mpr ⟨i, n, rfl, x, (client_setClient_of_ne w hij _).trans hx, hx'⟩
  split_ifs at hok
  · exact hqueue.trans (minds_restart hsingle hok)
  · exact Except.ok.inj hok ▸ hqueue

/-- So does a server. -/
theorem minds_removeConnectionInLoop (hloop : c.loopOf k = .base)
    (hok : w.removeConnectionInLoop c k = .ok w') : Minds w w' := by
  obtain ⟨server, hserver, hok⟩ := bind_eq_ok.mp hok
  obtain ⟨_, -, hok⟩ := bind_eq_ok.mp hok
  obtain rfl := Except.ok.inj hok
  have hserver := alive_eq_ok.mp hserver
  rw [hloop]
  have hfunctor := minds_queueInLoop { w with server := some { server with
    connections_ := server.connections_.erase k } } .base (f := .connDestroyed k) fun _ => rfl
  refine ⟨fun h => ⟨rfl, h.2⟩, fun _ hk' => .inl hk', fun k' hheld hk' => ?_, hfunctor.posted⟩
  by_cases heq : k' = k
  · rw [heq]
    exact .inr (.inr (mem_toRun_queueInLoop _ _ _))
  · refine hfunctor.held k' (hheld.imp_left fun h => ?_) hk'
    obtain ⟨x, hx, hmem⟩ := inServer_ne_zero_iff.mp h
    obtain rfl := Option.some.inj (hserver.symm.trans hx)
    exact inServer_ne_zero_iff.mpr ⟨_, rfl, (List.mem_erase_of_ne heq).mpr hmem⟩

theorem minds_closeCb (hsingle : c.IsSingle) (hloop : c.loopOf k = .base) {cb : CloseCallback}
    (hok : w.closeCb c k a cb = .ok w') : Minds w w' := by
  cases cb with
  | tcpServer =>
    obtain ⟨server, -, hok⟩ := bind_eq_ok.mp hok
    rw [hloop] at hok
    exact minds_runInLoop (fun w' => minds_removeConnectionInLoop hloop) hok
  | tcpClient j => exact minds_removeConnectionOfClient hsingle hok
  | base l => exact Except.ok.inj hok ▸ minds_queueInLoop w l fun _ => rfl

theorem minds_handleClose (hsingle : c.IsSingle) (hloop : c.loopOf k = .base)
    (hok : w.handleClose c k a = .ok w') : Minds w w' := by
  obtain ⟨conn, -, hok⟩ := bind_eq_ok.mp hok
  obtain ⟨_, -, hok⟩ := bind_eq_ok.mp hok
  obtain ⟨v, hv, hok⟩ := bind_eq_ok.mp hok
  exact (minds_update hv).trans (minds_closeCb hsingle hloop hok)

theorem minds_handleRead (hsingle : c.IsSingle) (hloop : c.loopOf k = .base)
    (hok : w.handleRead c k a = .ok w') : Minds w w' := by
  obtain ⟨conn, -, hok⟩ := bind_eq_ok.mp hok
  split_ifs at hok
  · exact minds_handleClose hsingle hloop hok
  · exact Except.ok.inj hok ▸ minds_refl w

theorem minds_forceCloseInLoop (hsingle : c.IsSingle) (hloop : c.loopOf k = .base)
    (hok : w.forceCloseInLoop c k a = .ok w') : Minds w w' := by
  obtain ⟨conn, -, hok⟩ := bind_eq_ok.mp hok
  split_ifs at hok
  · exact minds_handleClose hsingle hloop hok
  · exact Except.ok.inj hok ▸ minds_refl w

/-! ### Opening -/

/-- A connection is constructed, which is not open yet. -/
theorem minds_newConn (w : World) (k : ConnId) (fd : ℕ) (cb : CloseCallback) :
    Minds w (w.newConn k fd cb) := by
  refine minds_of id (fun k' hk' => ?_) (fun _ => id) (fun _ => id)
    ⟨[], (List.append_nil _).symm, List.forall_mem_nil _⟩
  obtain ⟨x, hx, hisOpen⟩ := hk'
  by_cases heq : k' = k
  · subst heq
    obtain rfl := Option.some.inj ((Function.update_self (f := w.conn) ..).symm.trans hx)
    rcases hisOpen with h | h <;> cases h
  · exact ⟨x, (Function.update_of_ne heq ..).symm.trans hx, hisOpen⟩

/-- A client that has no connection makes one. -/
theorem minds_newConnectionOfClient
    (hnone : ∀ client ∈ w.client j, client.connection_ = none)
    (hok : w.newConnectionOfClient c j sockfd = .ok w') : Minds w w' := by
  obtain ⟨client, hclient, hok⟩ := bind_eq_ok.mp hok
  have hclient := alive_eq_ok.mp hclient
  have hempty := hnone client hclient
  dsimp only at hok
  rw [hempty] at hok
  generalize hnew : ConnId.ofClient j client.nextConnId_ = new at hok
  generalize hclient' : { client with
    nextConnId_ := client.nextConnId_ + 1, connection_ := some new } = client' at hok
  have hself : client'.connection_ = some new := hclient' ▸ rfl
  refine (minds_newConn w new sockfd (.tcpClient j)).trans (Minds.trans ?_ (minds_connEstablished
    (w := (w.newConn new sockfd (.tcpClient j)).setClient j client') ?_ hok))
  · refine minds_of (peopled_setClient j client') (fun _ => id) (fun _ => id) (fun k hk => ?_)
      ⟨[], (List.append_nil _).symm, List.forall_mem_nil _⟩
    obtain ⟨i, n, rfl, x, hx, hx'⟩ := inClient_ne_zero_iff.mp hk
    have hij : i ≠ j := by
      rintro rfl
      obtain rfl := Option.some.inj (hclient.symm.trans hx)
      rw [hempty] at hx'
      cases hx'
    exact inClient_ne_zero_iff.mpr ⟨i, n, rfl, x, (client_setClient_of_ne _ hij _).trans hx, hx'⟩
  · refine .inr (.inl (inClient_ne_zero_iff.mpr ?_))
    exact ⟨j, client.nextConnId_, hnew.symm, client', client_setClient_self _ j client', hself⟩

/-- The connector of a client succeeds only if the client has no connection. -/
theorem minds_handleConnected (hsingle : c.IsSingle)
    (hnone : ∀ client ∈ w.client j, client.Connects a → client.connection_ = none)
    (hok : w.handleConnected c j a = .ok w') : Minds w w' := by
  obtain ⟨client, hclient, hok⟩ := bind_eq_ok.mp hok
  have hclient := alive_eq_ok.mp hclient
  by_cases hstate : client.connector_.state_ = .kConnecting
  · rw [if_pos hstate] at hok
    obtain ⟨⟨v, sockfd⟩, hv, hok⟩ := bind_eq_ok.mp hok
    have hremoves := minds_removeAndResetChannel hv
    have hvclient : v.client j = some client := by
      obtain ⟨_, _, -, -, -, hsame, -⟩ := removeAndResetChannel_eq_ok hv
      exact (congrFun hsame.client j).trans hclient
    have hset := minds_setConnector hvclient { client.connector_ with state_ := .kConnected }
    dsimp only at hok
    split_ifs at hok with herror hself hconnect
    · exact Except.ok.inj hok ▸ hremoves
    · exact hremoves.trans (minds_retry hsingle hok)
    · refine hremoves.trans (hset.trans (minds_newConnectionOfClient ?_ hok))
      intro client' hclient'
      rw [setConnector, client_setClient_self] at hclient'
      obtain rfl := Option.some.inj (Option.mem_def.mp hclient')
      exact hnone client hclient ⟨hstate, not_not.mp herror, Bool.not_eq_true _ ▸ hself, hconnect⟩
    · exact Except.ok.inj hok ▸ hremoves.trans (hset.trans (minds_closeFd _ sockfd))
  · rw [if_neg hstate] at hok
    obtain ⟨_, -, hok⟩ := bind_eq_ok.mp hok
    exact Except.ok.inj hok ▸ minds_refl w

theorem minds_newConnectionOfServer (hsingle : c.IsSingle)
    (hok : w.newConnectionOfServer c sockfd = .ok w') : Minds w w' := by
  obtain ⟨server, hserver, hok⟩ := bind_eq_ok.mp hok
  have hserver := alive_eq_ok.mp hserver
  have hnext : getNextLoop c server = (.base, server.next_) := if_pos hsingle.numThreads
  rw [hnext] at hok
  dsimp only at hok
  generalize hnew : ConnId.ofServer .base server.nextConnId_ = new at hok
  rw [runInLoop, if_pos rfl] at hok
  refine (minds_newConn w new sockfd .tcpServer).trans (Minds.trans ?_ (minds_connEstablished
    (w := { w.newConn new sockfd .tcpServer with server := some { server with
      nextConnId_ := server.nextConnId_ + 1
      connections_ := new :: server.connections_ } }) ?_ hok))
  · refine minds_of (fun h => ⟨rfl, h.2⟩) (fun _ => id) (fun k hk => ?_) (fun _ => id)
      ⟨[], (List.append_nil _).symm, List.forall_mem_nil _⟩
    obtain ⟨x, hx, hmem⟩ := inServer_ne_zero_iff.mp hk
    obtain rfl := Option.some.inj (hserver.symm.trans hx)
    exact inServer_ne_zero_iff.mpr ⟨_, rfl, List.mem_cons_of_mem new hmem⟩
  · exact .inl (inServer_ne_zero_iff.mpr ⟨_, rfl, List.mem_cons_self⟩)

theorem minds_handleAccept (hsingle : c.IsSingle) (hok : w.handleAccept c a = .ok w') :
    Minds w w' := by
  obtain ⟨server, -, hok⟩ := bind_eq_ok.mp hok
  split_ifs at hok
  · obtain ⟨v, hv, hok⟩ := bind_eq_ok.mp hok
    obtain ⟨_, -, hv⟩ := bind_eq_ok.mp hv
    obtain rfl := Except.ok.inj hv
    have hopened : Minds w { w with isOpen := Function.update w.isOpen a.fd true } :=
      minds_of_eq rfl rfl rfl rfl
    exact hopened.trans (minds_newConnectionOfServer hsingle hok)
  · exact Except.ok.inj hok ▸ minds_refl w

/-! ### Calls of the user -/

theorem minds_listen (hok : w.listen c = .ok w') : Minds w w' := by
  obtain ⟨server, hserver, hok⟩ := bind_eq_ok.mp hok
  have hset : Minds w { w with server := some { server with listenning_ := true } } :=
    minds_setServer (alive_eq_ok.mp hserver) rfl
  exact hset.trans (minds_update hok)

theorem minds_start (hok : w.start c (some .base) = .ok w') : Minds w w' := by
  obtain ⟨server, -, hok⟩ := bind_eq_ok.mp hok
  split_ifs at hok
  · exact Except.ok.inj hok ▸ minds_refl w
  · exact minds_runInLoop (fun w' => minds_listen) hok

theorem minds_connectClient (hsingle : c.IsSingle)
    (hok : w.connectClient c (some .base) j a = .ok w') : Minds w w' := by
  obtain ⟨client, hclient, hok⟩ := bind_eq_ok.mp hok
  have hset : Minds w (w.setClient j { client with
      connect_ := true
      connector_ := { client.connector_ with connect_ := true } }) :=
    minds_setClient (alive_eq_ok.mp hclient) rfl
  exact hset.trans (minds_runInLoop (fun w' => minds_startInLoop hsingle) hok)

theorem minds_disconnect (hok : w.disconnect c (some .base) j = .ok w') : Minds w w' := by
  obtain ⟨client, hclient, hok⟩ := bind_eq_ok.mp hok
  have hset : Minds w (w.setClient j { client with connect_ := false }) :=
    minds_setClient (alive_eq_ok.mp hclient) rfl
  refine hset.trans ?_
  dsimp only at hok
  split at hok
  · exact minds_shutdown hok
  · exact Except.ok.inj hok ▸ minds_refl _

theorem minds_stop (hok : w.stop c (some .base) j = .ok w') : Minds w w' := by
  obtain ⟨client, hclient, hok⟩ := bind_eq_ok.mp hok
  have hset : Minds w (w.setClient j { client with
      connect_ := false
      connector_ := { client.connector_ with connect_ := false } }) :=
    minds_setClient (alive_eq_ok.mp hclient) rfl
  exact hset.trans (minds_cancel hok)

theorem minds_enableRetry (hok : w.enableRetry j = .ok w') : Minds w w' := by
  obtain ⟨client, hclient, hok⟩ := bind_eq_ok.mp hok
  exact Except.ok.inj hok ▸ minds_setClient (alive_eq_ok.mp hclient) rfl

theorem minds_forceCloseWithDelay (hok : w.forceCloseWithDelay c (some .base) k = .ok w') :
    Minds w w' := by
  obtain ⟨conn, hconn, hok⟩ := bind_eq_ok.mp hok
  split_ifs at hok with hopen
  · exact (minds_disconnecting (alive_eq_ok.mp hconn) hopen).trans (minds_runAfter hok)
  · exact Except.ok.inj hok ▸ minds_refl w

theorem minds_call (hsingle : c.IsSingle) {call : Call}
    (hok : w.call c (some .base) a call = .ok w') : Minds w w' := by
  cases call with
  | start => exact minds_start hok
  | connect => exact minds_connectClient hsingle hok
  | disconnect => exact minds_disconnect hok
  | stop => exact minds_stop hok
  | enableRetry => exact minds_enableRetry hok
  | send => exact minds_send hok
  | shutdown => exact minds_shutdown hok
  | forceClose => exact minds_forceClose hok
  | forceCloseWithDelay => exact minds_forceCloseWithDelay hok

theorem minds_setRefs {f : ℕ → ℕ} (hok : w.setRefs k f = .ok w') : Minds w w' := by
  obtain ⟨conn, hconn, hok⟩ := bind_eq_ok.mp hok
  exact Except.ok.inj hok ▸ minds_setConn (alive_eq_ok.mp hconn) id

end World

end Reactor

end MuduoRebuild
