import MuduoRebuild.TcpConnection.OutputStream

/-!
# `TcpConnection`: the state goes one way

The loop's thread takes a connection from `kConnecting` to `kConnected`, in `connEstablished`, and
to `kDisconnected`, in `connDestroyed`, and calls `connCb_` each time. Other threads set
`kDisconnecting` in the second part of a call. So a connection that is past `kConnected` stays so,
and takes no more messages from `send`.
-/

namespace MuduoRebuild

namespace TcpConnection

open Fallible

/-- A connection in this state will not be `kConnected` again. -/
def StateE.IsPast (s : StateE) : Prop := s = .kDisconnecting ∨ s = .kDisconnected

theorem StateE.isPast_of_ne {s : StateE} (h : s ≠ .kConnecting) (h' : s ≠ .kConnected) :
    s.IsPast := by
  cases s with
  | kConnecting => exact absurd rfl h
  | kConnected => exact absurd rfl h'
  | kDisconnecting => exact .inl rfl
  | kDisconnected => exact .inr rfl

theorem StateE.IsPast.ne_kConnected {s : StateE} (h : s.IsPast) : s ≠ .kConnected := by
  rcases h with rfl | rfl <;> simp

namespace World

variable {c : Setup} {w w' w'' : World} {n : Option ℕ}

/-- What a step can do to the state: `connEstablished` and `connDestroyed` set it in the loop's
thread, and `shutdown`, `forceClose` and `forceCloseWithDelay` in any thread. -/
inductive Course : StateE → StateE → Prop where
  | stays (s : StateE) : Course s s
  | established : Course .kConnecting .kConnected
  | disconnecting (s : StateE) : Course s .kDisconnecting
  | destroyed (s : StateE) : Course s .kDisconnected

theorem Course.trans {s s' s'' : StateE} (h : Course s s') (h' : Course s' s'') : Course s s'' := by
  cases h' with
  | stays => exact h
  | disconnecting => exact .disconnecting s
  | destroyed => exact .destroyed s
  | established =>
    cases h with
    | stays => exact .established

theorem Course.isPast {s s' : StateE} (h : Course s s') (hs : s.IsPast) : s'.IsPast := by
  cases h with
  | stays => exact hs
  | established => rcases hs with hs | hs <;> cases hs
  | disconnecting => exact .inl rfl
  | destroyed => exact .inr rfl

theorem Course.ne_kConnecting {s s' : StateE} (h : Course s s') (hs : s ≠ .kConnecting) :
    s' ≠ .kConnecting := by
  cases h with
  | stays => exact hs
  | established => exact absurd rfl hs
  | disconnecting | destroyed => simp

/-- A step in which nothing is given to `send`, and `connCb_` is to be called only for a connection
that has been established. -/
structure Later (w w' : World) : Prop where
  course : Course w.state w'.state
  connCb : .connCb ∈ w'.work → .connCb ∈ w.work ∨ w'.state ≠ .kConnecting
  requested_eq : requested w'.log = requested w.log

theorem later_refl (w : World) : Later w w := ⟨.stays _, .inl, rfl⟩

theorem Later.trans (h : Later w w') (h' : Later w' w'') : Later w w'' where
  course := h.course.trans h'.course
  connCb hmem := by
    rcases h'.connCb hmem with hmem | hne
    · exact (h.connCb hmem).imp_right h'.course.ne_kConnecting
    · exact .inr hne
  requested_eq := h'.requested_eq.trans h.requested_eq

/-- Only something is logged that is not a call of `send`. -/
theorem later_log {es : List Event} (hstate : w'.state = w.state) (hwork : w'.work = w.work)
    (hlog : w'.log = w.log ++ es) (hes : requested es = []) : Later w w' where
  course := hstate ▸ .stays _
  connCb hmem := .inl (hwork ▸ hmem)
  requested_eq := by rw [hlog, requested_append, hes, List.append_nil]

/-! ### The loop's thread -/

/-- Such a step of the loop's thread. -/
structure Proceeds (w w' : World) : Prop extends Later w w' where
  calls_eq : w'.calls = w.calls

theorem proceeds_refl (w : World) : Proceeds w w := ⟨later_refl w, rfl⟩

theorem Proceeds.trans (h : Proceeds w w') (h' : Proceeds w' w'') : Proceeds w w'' :=
  ⟨h.toLater.trans h'.toLater, h'.calls_eq.trans h.calls_eq⟩

theorem proceeds_handleClose (h : Tracked c.sockfd w.loop) (hok : w.handleClose c = .ok w') :
    Proceeds w w' := by
  obtain ⟨-, loop, -, -, hrel⟩ := handleClose_eq_ok h hok
  have hes : requested [.close] = [] := rfl
  cases hrel with
  | posted => exact ⟨later_log rfl rfl rfl hes, rfl⟩
  | dropped => exact ⟨later_log rfl rfl rfl hes, rfl⟩

theorem proceeds_sendInLoop (h : Tracked c.sockfd w.loop) {sender : Thread} {message : List UInt8}
    (hok : w.sendInLoop c n sender message = .ok w') : Proceeds w w' := by
  obtain ⟨loop, k, es, fs, heq, hsending, -⟩ := exists_sendInLoop h n sender message
  obtain rfl := Except.ok.inj (heq.symm.trans hok)
  exact ⟨later_log rfl rfl rfl hsending.rest.2.2, rfl⟩

theorem proceeds_handleWrite (h : Tracked c.sockfd w.loop) (hok : w.handleWrite c n = .ok w') :
    Proceeds w w' := by
  obtain ⟨loop, k, es, fs, heq, hflushing, -⟩ := exists_handleWrite h n
  obtain rfl := Except.ok.inj (heq.symm.trans hok)
  exact ⟨later_log rfl rfl rfl hflushing.rest.2.2, rfl⟩

theorem proceeds_shutdownInLoop (w : World) : Proceeds w w.shutdownInLoop := by
  rw [shutdownInLoop]
  split_ifs
  · exact proceeds_refl w
  · exact ⟨later_log rfl rfl rfl rfl, rfl⟩

/-- `shutdown` is called in the loop's thread. -/
theorem proceeds_callInLoop_shutdown (hok : w.callInLoop c n .shutdown = .ok w') :
    Proceeds w w' := by
  rw [callInLoop] at hok
  split_ifs at hok
  · obtain rfl := Except.ok.inj hok
    have hstate : Proceeds w { w.record (.called .loop .shutdown) with state := .kDisconnecting } :=
      ⟨⟨.disconnecting _, .inl, (requested_append ..).trans (List.append_nil _)⟩, rfl⟩
    refine hstate.trans ((proceeds_shutdownInLoop _).trans ?_)
    exact ⟨later_log rfl rfl rfl rfl, rfl⟩
  · obtain rfl := Except.ok.inj hok
    exact proceeds_refl w

/-- A functor of the loop's queue is run. -/
theorem proceeds_invoke (h : Tracked c.sockfd w.loop) {f : Functor}
    (hok : w.invoke c n f = .ok w') : Proceeds w w' := by
  cases f with
  | connEstablished =>
    obtain ⟨_, hstate, -⟩ := bind_eq_ok.mp hok
    have hstate : w.state = .kConnecting := check_eq_ok.mp hstate
    obtain ⟨loop, heq, -⟩ := exists_connEstablished h hstate
    obtain rfl := Except.ok.inj (heq.symm.trans hok)
    -- `connCb_` is to be called only now that the state is `kConnected`
    refine ⟨⟨?_, fun _ => .inr (by simp), rfl⟩, rfl⟩
    rw [hstate]
    exact .established
  | connDestroyed =>
    obtain ⟨_, hstate, -⟩ := bind_eq_ok.mp hok
    obtain ⟨loop, heq, -⟩ := exists_connDestroyed h (check_eq_ok.mp hstate)
    obtain rfl := Except.ok.inj (heq.symm.trans hok)
    exact ⟨⟨.destroyed _, fun _ => .inr (by simp), rfl⟩, rfl⟩
  | sendInLoop sender message => exact proceeds_sendInLoop h hok
  | shutdownInLoop =>
    obtain rfl := Except.ok.inj hok
    exact proceeds_shutdownInLoop w
  | forceCloseInLoop =>
    rw [invoke, forceCloseInLoop] at hok
    split_ifs at hok
    · exact proceeds_handleClose h hok
    · obtain rfl := Except.ok.inj hok
      exact proceeds_refl w
  | wriComCb =>
    obtain rfl := Except.ok.inj hok
    refine ⟨⟨.stays _, fun hmem => .inl ?_, rfl⟩, rfl⟩
    exact (List.mem_cons.mp hmem).resolve_left (by simp)
  | addTimerInLoop =>
    obtain rfl := Except.ok.inj hok
    exact ⟨⟨.stays _, .inl, rfl⟩, rfl⟩

/-- The loop's thread goes on with a handler or a functor. -/
theorem proceeds_runTask (h : Tracked c.sockfd w.loop) (hok : w.runTask c n = .ok w') :
    Proceeds w w' := by
  rw [runTask] at hok
  split at hok
  · obtain rfl := Except.ok.inj hok
    exact proceeds_refl w
  · next task work hwork =>
    have hpop : Proceeds w { w with work } :=
      ⟨⟨.stays _, fun hmem => .inl (hwork ▸ List.mem_cons_of_mem _ hmem), rfl⟩, rfl⟩
    refine hpop.trans ?_
    have h' : Tracked c.sockfd { w with work }.loop := h
    cases task with
    | handle callback =>
      cases callback with
      | error =>
        obtain rfl := Except.ok.inj hok
        exact proceeds_refl _
      | close => exact proceeds_handleClose h' hok
      | read =>
        rcases n with _ | _ | n
        · obtain rfl := Except.ok.inj hok
          exact proceeds_refl _
        · exact proceeds_handleClose h' hok
        · obtain rfl := Except.ok.inj hok
          refine ⟨⟨.stays _, fun hmem => .inl ?_, ?_⟩, rfl⟩
          · exact (List.mem_cons.mp hmem).resolve_left (by simp)
          · exact (requested_append ..).trans (List.append_nil _)
      | write => exact proceeds_handleWrite h' hok
    | connCb =>
      obtain rfl := Except.ok.inj hok
      exact ⟨later_log rfl rfl rfl rfl, rfl⟩
    | userCode =>
      obtain rfl := Except.ok.inj hok
      exact proceeds_refl _
    | removeChannel =>
      obtain ⟨loop, -, rfl⟩ := removeChannel_eq_ok h' hok
      exact ⟨⟨.stays _, .inl, rfl⟩, rfl⟩

theorem proceeds_step_handleEvent {revents : Mask}
    (hok : w.step c (.handleEvent revents) = .ok w') : Proceeds w w' := by
  rw [step] at hok
  split_ifs at hok
  · obtain rfl := Except.ok.inj hok
    refine ⟨⟨.stays _, fun hmem => ?_, rfl⟩, rfl⟩
    obtain ⟨callback, -, heq⟩ := List.mem_map.mp hmem
    cases heq
  · obtain rfl := Except.ok.inj hok
    exact proceeds_refl w

theorem proceeds_step_shutdown (hok : w.step c (.callInLoop n .shutdown) = .ok w') :
    Proceeds w w' := by
  rw [step] at hok
  split_ifs at hok
  · exact proceeds_callInLoop_shutdown hok
  · obtain rfl := Except.ok.inj hok
    exact proceeds_refl w

theorem proceeds_step_runTask (h : Tracked c.sockfd w.loop)
    (hok : w.step c (.runTask n) = .ok w') : Proceeds w w' := by
  rw [step] at hok
  split_ifs at hok with henabled
  · exact proceeds_runTask h hok
  · exact absurd trivial henabled

theorem proceeds_step_runFunctor (h : Tracked c.sockfd w.loop)
    (hok : w.step c (.runFunctor n) = .ok w') : Proceeds w w' := by
  rw [step] at hok
  split_ifs at hok
  · rw [act] at hok
    split at hok
    · next f fs hfs =>
      have hpop : Proceeds w { w with pendingFunctors := fs } := ⟨⟨.stays _, .inl, rfl⟩, rfl⟩
      have h' : Tracked c.sockfd { w with pendingFunctors := fs }.loop := h
      exact hpop.trans (proceeds_invoke h' hok)
    · obtain rfl := Except.ok.inj hok
      exact proceeds_refl w
  · obtain rfl := Except.ok.inj hok
    exact proceeds_refl w

/-! ### Other threads -/

theorem step_call {t : ℕ} (h : w.calls t = []) (call : Call) :
    w.step c (.call t call) = .ok (w.call t call) := if_pos h

theorem step_continueCall (c : Setup) (w : World) (t : ℕ) :
    w.step c (.continueCall t) = .ok (w.continueCall t) := if_pos trivial

/-- Another thread goes on with its call. -/
theorem later_continueCall (hsound : Sound c w) (t : ℕ) : Later w (w.continueCall t) := by
  rw [continueCall]
  split
  · exact later_refl w
  · next a as hcalls =>
    have hperform : Later w ({ w with calls := Function.update w.calls t as }.perform a) := by
      obtain ⟨call, hcall⟩ := hsound.calls t
      rw [hcalls] at hcall
      have hmem : a ∈ call.body (.other t) := hcall.subset List.mem_cons_self
      cases a with
      | setState s =>
        -- no member function sets another state in a thread that is not the loop's
        have hs : s = .kDisconnecting := by
          cases call with
          | send => cases List.mem_singleton.mp hmem
          | shutdown | forceClose | forceCloseWithDelay =>
            rcases List.mem_pair.mp hmem with heq | heq
            · exact Action.setState.inj heq
            · cases heq
        exact ⟨hs ▸ .disconnecting _, .inl, rfl⟩
      | runInLoop f => exact ⟨.stays _, .inl, rfl⟩
      | queueInLoop f => exact ⟨.stays _, .inl, rfl⟩
    dsimp only
    split_ifs
    · exact hperform.trans (later_log rfl rfl rfl rfl)
    · exact hperform

/-- A call of `send` is noted, and takes place, if the connection is `kConnected`. -/
theorem call_send (w : World) (t : ℕ) (payload : Payload) :
    w.state = .kConnected ∧ requested (w.call t (.send payload)).log =
        requested w.log ++ [(.other t, payload.message)] ∧
        (w.call t (.send payload)).state = w.state ∧ (w.call t (.send payload)).work = w.work ∨
      w.state ≠ .kConnected ∧ w.call t (.send payload) = w := by
  rw [call]
  split_ifs with hguard
  · exact .inl ⟨hguard, requested_append .., rfl, rfl⟩
  · exact .inr ⟨hguard, rfl⟩

/-- A call of `shutdown` only checks the state, at first. -/
theorem later_call_shutdown (w : World) (t : ℕ) : Later w (w.call t .shutdown) := by
  rw [call]
  split_ifs
  · exact later_log rfl rfl rfl rfl
  · exact later_refl w

end World

end TcpConnection

end MuduoRebuild
