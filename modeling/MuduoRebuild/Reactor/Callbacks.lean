import MuduoRebuild.Reactor.Custody

/-!
# Callbacks use what exists

While the server and the clients exist, the callbacks of a channel use no object that has been
destroyed, if the owner of the channel exists when they are called. One lemma for each function says
that it does not stop for such a use; for most functions of a connection the connection has to
exist.
-/

namespace MuduoRebuild

namespace Reactor

open Fallible
open TcpServer (LoopId)
open TcpClient (verdict)

theorem alive_ne_destroyed {α : Type} {o : Option α} (h : o.isSome = true) :
    alive o ≠ .error .destroyed := by
  obtain ⟨a, rfl⟩ := Option.isSome_iff_exists.mp h
  exact ok_ne_error _ _

theorem assertThat_ne_destroyed (p : Prop) [Decidable p] :
    Halt.assertThat p ≠ .error .destroyed := fun h => by
  cases (check_eq_error.mp h).2

namespace World

variable {c : Setup} {w : World} {t : Option LoopId} {l : LoopId} {k : ConnId} {ch : ChannelId}
  {j sockfd : ℕ} {a : Answer} {left : Bool}

theorem openFd_ne_destroyed (fd : ℕ) : w.openFd fd ≠ .error .destroyed :=
  bind_ne_error (fun h => by cases (check_eq_error.mp h).2) fun _ _ => ok_ne_error _ _

theorem update_ne_destroyed (u : Channel.Update) : w.update c u ch ≠ .error .destroyed := by
  rw [update, perform]
  split <;> exact fun h => by cases h

theorem removeChannel_ne_destroyed : w.removeChannel c ch ≠ .error .destroyed := by
  rw [removeChannel, perform]
  split <;> exact fun h => by cases h

theorem runInLoop_ne_destroyed {f : Functor} {run : World → Except Halt World}
    (hrun : run w ≠ .error .destroyed) : w.runInLoop t l f run ≠ .error .destroyed := by
  rw [runInLoop]
  split_ifs
  · exact hrun
  · exact ok_ne_error _ _

theorem runAfter_ne_destroyed {cb : TimerCallback} : w.runAfter t l cb ≠ .error .destroyed := by
  simp only [runAfter]
  exact runInLoop_ne_destroyed (ok_ne_error _ _)

/-! ### `Connector` -/

theorem retry_ne_destroyed (h : w.Peopled) : w.retry c j sockfd ≠ .error .destroyed := by
  refine bind_ne_error (alive_ne_destroyed (h.2 j)) fun client _ => ?_
  dsimp only
  split_ifs
  · exact runAfter_ne_destroyed
  · exact ok_ne_error _ _

theorem connecting_ne_destroyed (h : w.Peopled) : w.connecting c j sockfd ≠ .error .destroyed :=
  bind_ne_error (alive_ne_destroyed (h.2 j)) fun _ _ =>
    bind_ne_error (assertThat_ne_destroyed _) fun _ _ => update_ne_destroyed _

theorem connect_ne_destroyed (h : w.Peopled) : w.connect c j a ≠ .error .destroyed := by
  refine bind_ne_error (openFd_ne_destroyed a.fd) fun v hv => ?_
  obtain ⟨_, -, hv⟩ := bind_eq_ok.mp hv
  obtain rfl := Except.ok.inj hv
  split
  · exact connecting_ne_destroyed h
  · exact retry_ne_destroyed h
  · exact bind_ne_error (alive_ne_destroyed (h.2 j)) fun _ _ => ok_ne_error _ _

theorem startInLoop_ne_destroyed (h : w.Peopled) : w.startInLoop c j a ≠ .error .destroyed := by
  refine bind_ne_error (alive_ne_destroyed (h.2 j)) fun _ _ =>
    bind_ne_error (assertThat_ne_destroyed _) fun _ _ => ?_
  split_ifs
  · exact connect_ne_destroyed h
  · exact ok_ne_error _ _

theorem restart_ne_destroyed (h : w.Peopled) : w.restart c j a ≠ .error .destroyed :=
  bind_ne_error (alive_ne_destroyed (h.2 j)) fun _ _ =>
    startInLoop_ne_destroyed (peopled_setClient j _ h)

theorem removeAndResetChannel_ne_destroyed (h : w.Peopled) :
    w.removeAndResetChannel c j ≠ .error .destroyed := by
  refine bind_ne_error (alive_ne_destroyed (h.2 j)) fun client _ => ?_
  split
  · exact fun h => by cases h
  · exact bind_ne_error (update_ne_destroyed _) fun _ _ =>
      bind_ne_error removeChannel_ne_destroyed fun _ _ => ok_ne_error _ _

theorem handleError_ne_destroyed (h : w.Peopled) : w.handleError c j ≠ .error .destroyed := by
  refine bind_ne_error (alive_ne_destroyed (h.2 j)) fun client _ => ?_
  split_ifs
  · refine bind_ne_error (removeAndResetChannel_ne_destroyed h) fun ⟨v, sockfd⟩ hv => ?_
    exact retry_ne_destroyed ((minds_removeAndResetChannel hv).people h)
  · exact ok_ne_error _ _

/-! ### Closing -/

theorem removeConnectionOfClient_ne_destroyed (h : w.Peopled) :
    w.removeConnectionOfClient c j k a ≠ .error .destroyed := by
  refine bind_ne_error (alive_ne_destroyed (h.2 j)) fun client _ =>
    bind_ne_error (assertThat_ne_destroyed _) fun _ _ => ?_
  dsimp only
  split_ifs
  · exact restart_ne_destroyed (peopled_setClient j { client with connection_ := none } h)
  · exact ok_ne_error _ _

theorem removeConnectionOfServer_ne_destroyed (h : w.Peopled) :
    w.removeConnectionOfServer c t k ≠ .error .destroyed :=
  bind_ne_error (alive_ne_destroyed h.1) fun _ _ => runInLoop_ne_destroyed <|
    bind_ne_error (alive_ne_destroyed h.1) fun _ _ =>
      bind_ne_error (assertThat_ne_destroyed _) fun _ _ => ok_ne_error _ _

theorem handleClose_ne_destroyed (h : w.Peopled) (hk : (w.conn k).isSome = true) :
    w.handleClose c k a ≠ .error .destroyed := by
  refine bind_ne_error (alive_ne_destroyed hk) fun conn _ =>
    bind_ne_error (assertThat_ne_destroyed _) fun _ _ =>
      bind_ne_error (update_ne_destroyed _) fun v hv => ?_
  have hpeople := (minds_update hv).people h
  cases conn.closeCb_ with
  | tcpServer => exact removeConnectionOfServer_ne_destroyed hpeople
  | tcpClient j => exact removeConnectionOfClient_ne_destroyed hpeople
  | base l => exact ok_ne_error _ _

theorem handleRead_ne_destroyed (h : w.Peopled) (hk : (w.conn k).isSome = true) :
    w.handleRead c k a ≠ .error .destroyed := by
  refine bind_ne_error (alive_ne_destroyed hk) fun _ _ => ?_
  split_ifs
  · exact handleClose_ne_destroyed h hk
  · exact ok_ne_error _ _

theorem handleWrite_ne_destroyed (hk : (w.conn k).isSome = true) :
    w.handleWrite c k left ≠ .error .destroyed := by
  refine bind_ne_error (alive_ne_destroyed hk) fun _ _ => ?_
  split_ifs
  · exact ok_ne_error _ _
  · exact bind_ne_error (update_ne_destroyed _) fun _ _ => ok_ne_error _ _
  · exact ok_ne_error _ _

/-! ### Opening -/

theorem connEstablished_ne_destroyed (hk : (w.conn k).isSome = true) :
    w.connEstablished c k ≠ .error .destroyed :=
  bind_ne_error (alive_ne_destroyed hk) fun _ _ =>
    bind_ne_error (assertThat_ne_destroyed _) fun _ _ => update_ne_destroyed _

theorem isSome_newConn (w : World) (k : ConnId) (fd : ℕ) (cb : CloseCallback) :
    ((w.newConn k fd cb).conn k).isSome = true := by
  have hself : (w.newConn k fd cb).conn k = some _ := Function.update_self ..
  rw [hself]
  rfl

/-- A client that has no connection makes one. -/
theorem newConnectionOfClient_ne_destroyed (h : w.Peopled)
    (hnone : ∀ client ∈ w.client j, client.connection_ = none) :
    w.newConnectionOfClient c j sockfd ≠ .error .destroyed := by
  refine bind_ne_error (alive_ne_destroyed (h.2 j)) fun client hclient => ?_
  dsimp only
  rw [hnone client (alive_eq_ok.mp hclient)]
  exact connEstablished_ne_destroyed (isSome_newConn w _ sockfd _)

theorem handleConnected_ne_destroyed (h : w.Peopled)
    (hnone : ∀ client ∈ w.client j, client.Connects a → client.connection_ = none) :
    w.handleConnected c j a ≠ .error .destroyed := by
  refine bind_ne_error (alive_ne_destroyed (h.2 j)) fun client hclient => ?_
  have hclient := alive_eq_ok.mp hclient
  by_cases hstate : client.connector_.state_ = .kConnecting
  · rw [if_pos hstate]
    refine bind_ne_error (removeAndResetChannel_ne_destroyed h) fun ⟨v, sockfd⟩ hv => ?_
    have hpeople := (minds_removeAndResetChannel hv).people h
    dsimp only
    split_ifs with herror hself hconnect
    · exact ok_ne_error _ _
    · exact retry_ne_destroyed hpeople
    · refine newConnectionOfClient_ne_destroyed (peopled_setClient j _ hpeople) ?_
      intro client' hclient'
      rw [setConnector, client_setClient_self] at hclient'
      obtain rfl := Option.some.inj (Option.mem_def.mp hclient')
      exact hnone client hclient ⟨hstate, not_not.mp herror, Bool.not_eq_true _ ▸ hself, hconnect⟩
    · exact ok_ne_error _ _
  · rw [if_neg hstate]
    exact bind_ne_error (assertThat_ne_destroyed _) fun _ _ => ok_ne_error _ _

theorem newConnectionOfServer_ne_destroyed (h : w.Peopled) :
    w.newConnectionOfServer c sockfd ≠ .error .destroyed := by
  refine bind_ne_error (alive_ne_destroyed h.1) fun server _ => ?_
  dsimp only
  exact runInLoop_ne_destroyed (connEstablished_ne_destroyed (isSome_newConn w _ sockfd _))

theorem handleAccept_ne_destroyed (h : w.Peopled) : w.handleAccept c a ≠ .error .destroyed := by
  refine bind_ne_error (alive_ne_destroyed h.1) fun _ _ => ?_
  split_ifs
  · refine bind_ne_error (openFd_ne_destroyed a.fd) fun v hv => ?_
    obtain ⟨_, -, hv⟩ := bind_eq_ok.mp hv
    obtain rfl := Except.ok.inj hv
    exact newConnectionOfServer_ne_destroyed h
  · exact ok_ne_error _ _

/-! ### Callbacks -/

/-- The owner of the channel exists, and the connection of a client is not replaced. -/
theorem callback_ne_destroyed {callback : Channel.Callback} (h : w.Peopled) (hch : w.Exists ch)
    (hnone : ∀ j n, ch = .connector j n → callback = .write → ∀ client ∈ w.client j,
      client.Connects a → client.connection_ = none) :
    w.callback c a ch callback ≠ .error .destroyed := by
  cases ch with
  | wakeup l => exact ok_ne_error _ _
  | timerQueue l => cases callback <;> exact ok_ne_error _ _
  | acceptor =>
    cases callback with
    | read => exact handleAccept_ne_destroyed h
    | write | error | close => exact ok_ne_error _ _
  | connector j n =>
    cases callback with
    | write => exact handleConnected_ne_destroyed h (hnone j n rfl rfl)
    | error => exact handleError_ne_destroyed h
    | read | close => exact ok_ne_error _ _
  | conn k =>
    cases callback with
    | close => exact handleClose_ne_destroyed h hch
    | read => exact handleRead_ne_destroyed h hch
    | write => exact handleWrite_ne_destroyed hch
    | error => exact ok_ne_error _ _

end World

end Reactor

end MuduoRebuild
