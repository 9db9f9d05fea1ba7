import MuduoRebuild.TcpClient.Basic

/-!
# `TcpClient`: what its steps do

`Attempted` says what an attempt comes to, and `Outcome` what an event does to an attempt in
progress; `retry` is given by the fields that it changes. `Begins` says which steps make an attempt,
on which world and with which result, `Taken` what a step can do, and `Failed` how it can fail.
-/

namespace MuduoRebuild

namespace TcpClient

open Fallible
open TcpConnection (StateE)

namespace World

variable {w w' : World} {l : Label}

/-- The socket of the attempt in progress. -/
def inFlight (w : World) : Option ℕ :=
  w.connector_.channel_.bind fun channel => if channel.registered then some channel.sockfd else none

/-- The retry timers that will call `Connector::connect`. -/
def retryTimers (w : World) : List ℕ := w.expired ++ w.timers

theorem mem_of_mem_queueInLoop {f g : Functor} (hne : f ≠ g)
    (hmem : f ∈ (w.queueInLoop g).pendingFunctors) : f ∈ w.pendingFunctors :=
  (List.mem_append.mp hmem).resolve_right fun hnew => hne (List.mem_singleton.mp hnew)

/-! ### `retry` -/

section Retry

variable (w : World) (sockfd : ℕ)

theorem retry_eq : w.retry sockfd =
    if w.connector_.connect_ then
      { w with
        connector_ := { w.connector_ with
          state_ := .kDisconnected
          retryDelayMs_ := min (w.connector_.retryDelayMs_ * 2) kMaxRetryDelayMs
          timerId_ := some w.nextTimer }
        timers := w.timers ++ [w.nextTimer]
        nextTimer := w.nextTimer + 1
        log := w.log ++ [.close sockfd, .runAfter w.nextTimer w.connector_.retryDelayMs_] }
    else
      { w with
        connector_ := { w.connector_ with state_ := .kDisconnected }
        log := w.log ++ [.close sockfd] } := by
  rw [retry]
  by_cases hconnect : w.connector_.connect_ = true
  · simp [record, setState, runAfter, hconnect]
  · simp [record, setState, hconnect]

@[simp]
theorem state_retry : (w.retry sockfd).connector_.state_ = .kDisconnected := by
  rw [retry_eq]
  split_ifs <;> rfl

@[simp]
theorem connect_retry : (w.retry sockfd).connector_.connect_ = w.connector_.connect_ := by
  rw [retry_eq]
  split_ifs <;> rfl

@[simp]
theorem channel_retry : (w.retry sockfd).connector_.channel_ = w.connector_.channel_ := by
  rw [retry_eq]
  split_ifs <;> rfl

@[simp]
theorem pendingFunctors_retry : (w.retry sockfd).pendingFunctors = w.pendingFunctors := by
  rw [retry_eq]
  split_ifs <;> rfl

@[simp]
theorem nextSocket_retry : (w.retry sockfd).nextSocket = w.nextSocket := by
  rw [retry_eq]
  split_ifs <;> rfl

@[simp]
theorem connection_retry : (w.retry sockfd).connection_ = w.connection_ := by
  rw [retry_eq]
  split_ifs <;> rfl

@[simp]
theorem conns_retry : (w.retry sockfd).conns = w.conns := by
  rw [retry_eq]
  split_ifs <;> rfl

@[simp]
theorem nextConnId_retry : (w.retry sockfd).nextConnId_ = w.nextConnId_ := by
  rw [retry_eq]
  split_ifs <;> rfl

@[simp]
theorem retryTimers_retry : (w.retry sockfd).retryTimers =
    w.retryTimers ++ if w.connector_.connect_ then [w.nextTimer] else [] := by
  rw [retry_eq]
  split_ifs
  · exact (List.append_assoc ..).symm
  · exact (List.append_nil _).symm

/-- Apart from the socket, only a retry timer is entered in the log. -/
theorem exists_log_retry : ∃ es, (w.retry sockfd).log = w.log ++ [.close sockfd] ++ es ∧
    ∀ e ∈ es, ∃ timerId delayMs, e = .runAfter timerId delayMs := by
  rw [retry_eq]
  split_ifs
  · refine ⟨[.runAfter w.nextTimer w.connector_.retryDelayMs_], by simp, fun e he => ?_⟩
    exact ⟨_, _, List.mem_singleton.mp he⟩
  · exact ⟨[], (List.append_nil _).symm, fun e he => by cases he⟩

end Retry

/-! ### An attempt -/

/-- A socket has been created for an attempt. -/
def withSocket (w : World) : World :=
  { w with nextSocket := w.nextSocket + 1 }.record (.socket w.nextSocket)

/-- The attempt is in progress. -/
def awaiting (w : World) : World :=
  { w.withSocket with connector_ := { w.connector_ with
    state_ := .kConnecting
    channel_ := some ⟨w.nextSocket, true⟩ } }

theorem connect_of_connecting {r : Option Errno} (hr : verdict r = .connecting)
    (hchannel : w.connector_.channel_ = none) : w.connect r = .ok w.awaiting := by
  rw [connect, hr]
  exact bind_of_ok (check_of hchannel _) _

/-- The channel of the attempt before has not been reset yet. -/
theorem connect_of_channel {r : Option Errno} (hr : verdict r = .connecting)
    (hchannel : w.connector_.channel_ ≠ none) : w.connect r = .error .connecting := by
  rw [connect, hr]
  simp only [connecting]
  rw [check_of_not (by exact hchannel)]
  rfl

theorem connect_of_retry {r : Option Errno} (hr : verdict r = .retry) :
    w.connect r = .ok (w.withSocket.retry w.nextSocket) := by
  rw [connect, hr]
  rfl

theorem connect_of_close {r : Option Errno} (hr : verdict r = .close) :
    w.connect r = .ok (w.withSocket.record (.close w.nextSocket)) := by
  rw [connect, hr]
  rfl

/-- What an attempt can come to. -/
inductive Attempted (w : World) (r : Option Errno) : World → Prop where
  | connecting (hr : verdict r = .connecting) (hchannel : w.connector_.channel_ = none) :
    Attempted w r w.awaiting
  | retry (hr : verdict r = .retry) : Attempted w r (w.withSocket.retry w.nextSocket)
  | close (hr : verdict r = .close) : Attempted w r (w.withSocket.record (.close w.nextSocket))

theorem attempted_of_connect {r : Option Errno} (hok : w.connect r = .ok w') :
    Attempted w r w' := by
  cases hr : verdict r with
  | connecting =>
    by_cases hchannel : w.connector_.channel_ = none
    · obtain rfl := Except.ok.inj ((connect_of_connecting hr hchannel).symm.trans hok)
      exact .connecting hr hchannel
    · cases (connect_of_channel hr hchannel).symm.trans hok
  | retry =>
    obtain rfl := Except.ok.inj ((connect_of_retry hr).symm.trans hok)
    exact .retry hr
  | close =>
    obtain rfl := Except.ok.inj ((connect_of_close hr).symm.trans hok)
    exact .close hr

/-! ### An event on the channel -/

/-- The channel of the attempt is taken out of the poller, and is to be reset. -/
def detached (w : World) (channel : Watch) : World :=
  { w with connector_ := { w.connector_ with
      channel_ := some { channel with registered := false } } }.queueInLoop .resetChannel

/-- The connection of the attempt is passed on, if it is still wanted. -/
def established (w : World) (sockfd : ℕ) : World :=
  let w := (w.setState .kConnected).record (.connected sockfd)
  if w.connector_.connect_ then w.newConnection sockfd else w.record (.close sockfd)

/-- What an event does to an attempt in progress. -/
def handled (w : World) (channel : Watch) (revents : Mask) (err : ℕ) (isSelf : Bool) : World :=
  if Channel.triggers revents .error then (w.detached channel).retry channel.sockfd
  else if Channel.triggers revents .write then
    if err ≠ 0 then (w.detached channel).record (.soError channel.sockfd err)
    else if isSelf then (w.detached channel).retry channel.sockfd
    else (w.detached channel).established channel.sockfd
  else w

/-- The attempt has made a connection. -/
def connected (w : World) (channel : Watch) : World :=
  ((w.detached channel).setState .kConnected).record (.connected channel.sockfd)

/-- What an event can do to an attempt in progress. -/
inductive Outcome (w : World) (channel : Watch) (revents : Mask) (err : ℕ) : World → Prop where
  | retry : Outcome w channel revents err ((w.detached channel).retry channel.sockfd)
  | soError (herror : Channel.triggers revents .error = false)
    (hwrite : Channel.triggers revents .write = true) (herr : err ≠ 0) :
    Outcome w channel revents err ((w.detached channel).record (.soError channel.sockfd err))
  | newConnection (hconnect : w.connector_.connect_ = true) :
    Outcome w channel revents err ((w.connected channel).newConnection channel.sockfd)
  | close : Outcome w channel revents err ((w.connected channel).record (.close channel.sockfd))
  | stay : Outcome w channel revents err w

theorem outcome_handled (w : World) (channel : Watch) (revents : Mask) (err : ℕ) (isSelf : Bool) :
    Outcome w channel revents err (w.handled channel revents err isSelf) := by
  rw [handled]
  split_ifs with herror hwrite herr
  · exact .retry
  · exact .soError (Bool.eq_false_of_not_eq_true herror) hwrite herr
  · exact .retry
  · rw [established]
    split_ifs with hconnect
    · exact .newConnection hconnect
    · exact .close
  · exact .stay

theorem handleError_of_connecting {channel : Watch} (hstate : w.connector_.state_ = .kConnecting)
    (hchannel : w.connector_.channel_ = some channel) :
    w.handleError = .ok ((w.detached channel).retry channel.sockfd) := by
  rw [handleError, if_pos hstate, removeAndResetChannel, hchannel]
  rfl

theorem handleError_of_not_connecting (hstate : w.connector_.state_ ≠ .kConnecting) :
    w.handleError = .ok w := if_neg hstate

theorem handleWrite_of_not_connecting {err : ℕ} {isSelf : Bool}
    (hstate : w.connector_.state_ ≠ .kConnecting) :
    w.handleWrite err isSelf =
      check (w.connector_.state_ = .kDisconnected) .handleWrite >>= fun _ => .ok w := if_neg hstate

theorem handleWrite_of_connecting {channel : Watch} {err : ℕ} {isSelf : Bool}
    (hstate : w.connector_.state_ = .kConnecting)
    (hchannel : w.connector_.channel_ = some channel) :
    w.handleWrite err isSelf = .ok (
      if err ≠ 0 then (w.detached channel).record (.soError channel.sockfd err)
      else if isSelf then (w.detached channel).retry channel.sockfd
      else (w.detached channel).established channel.sockfd) := by
  rw [handleWrite, if_pos hstate, removeAndResetChannel, hchannel]
  simp only [ok_bind]
  by_cases herr : err ≠ 0
  · simp only [if_pos herr]
    rfl
  · simp only [if_neg herr]
    by_cases hself : isSelf = true
    · simp only [if_pos hself]
      rfl
    · simp only [if_neg hself]
      rfl

theorem handleEvent_eq (w : World) (revents : Mask) (err : ℕ) (isSelf : Bool) :
    w.handleEvent revents err isSelf =
      (if Channel.triggers revents .error then w.handleError else .ok w) >>= fun w =>
        if Channel.triggers revents .write then w.handleWrite err isSelf else .ok w := by
  have hcallbacks : Channel.handleEventWithGuard isSet revents =
      (if Channel.triggers revents .error then [.error] else []) ++
        if Channel.triggers revents .write then [.write] else [] := by
    simp [Channel.handleEventWithGuard, isSet, List.filter_cons]
    split_ifs <;> rfl
  rw [handleEvent, hcallbacks]
  split_ifs
  · exact congrArg (w.handleError >>= ·) (funext fun _ => bind_pure _)
  · exact congrArg (w.handleError >>= ·) (funext fun _ => rfl)
  · exact bind_pure _
  · rfl

theorem handleEvent_of_connecting {channel : Watch} (hstate : w.connector_.state_ = .kConnecting)
    (hchannel : w.connector_.channel_ = some channel) (revents : Mask) (err : ℕ) (isSelf : Bool) :
    w.handleEvent revents err isSelf = .ok (w.handled channel revents err isSelf) := by
  rw [handleEvent_eq, handled]
  by_cases herror : Channel.triggers revents .error = true
  · -- `handleWrite` finds the connector disconnected after `handleError`
    have hretry : ((w.detached channel).retry channel.sockfd).connector_.state_ = .kDisconnected :=
      state_retry _ _
    rw [if_pos herror, if_pos herror, handleError_of_connecting hstate hchannel, ok_bind]
    split_ifs
    · rw [handleWrite_of_not_connecting (by rw [hretry]; decide), check_of hretry, ok_bind]
    · rfl
  · rw [if_neg herror, if_neg herror, ok_bind]
    by_cases hwrite : Channel.triggers revents .write = true
    · rw [if_pos hwrite, if_pos hwrite, handleWrite_of_connecting hstate hchannel]
    · rw [if_neg hwrite, if_neg hwrite]

theorem handleEvent_of_not_connecting (hstate : w.connector_.state_ ≠ .kConnecting) {revents : Mask}
    {err : ℕ} {isSelf : Bool} (hok : w.handleEvent revents err isSelf = .ok w') : w' = w := by
  rw [handleEvent_eq, handleError_of_not_connecting hstate, ite_self, ok_bind] at hok
  split_ifs at hok
  · rw [handleWrite_of_not_connecting hstate] at hok
    obtain ⟨_, -, hok⟩ := bind_eq_ok.mp hok
    exact (Except.ok.inj hok).symm
  · exact (Except.ok.inj hok).symm

/-! ### Steps -/

/-- `TcpClient::connect` has been called. -/
def wanted (w : World) : World :=
  { w with
    connect_ := true
    connector_ := { w.connector_ with connect_ := true } }.record .connect

/-- `TcpClient::stop` has been called. -/
def unwanted (w : World) : World :=
  { w with
    connect_ := false
    connector_ := { w.connector_ with connect_ := false } }.record .stop

/-- The client has given its connection up. -/
def released (w : World) (conn : ℕ) : World :=
  { w with connection_ := none }.queueInLoop (.connDestroyed conn)

/-- `restart`, before `startInLoop`. -/
def restarted (w : World) : World :=
  { w with connector_ := { w.connector_ with
    state_ := .kDisconnected
    retryDelayMs_ := kInitRetryDelayMs
    connect_ := true } }.record .restart

/-- A connection that has been established and not destroyed. -/
def IsLive (s : Option StateE) : Prop := s = some .kConnected ∨ s = some .kDisconnecting

/-- `shutdown` makes no connection and destroys none. -/
theorem exists_shutdown (w : World) : ∃ conns, w.shutdown = { w with conns } ∧
    ∀ conn, (IsLive (conns conn) ↔ IsLive (w.conns conn)) ∧
      (conns conn = none ↔ w.conns conn = none) := by
  rw [shutdown]
  split
  · next conn hconn =>
    split_ifs with hstate
    · refine ⟨_, rfl, fun conn' => ?_⟩
      by_cases heq : conn' = conn
      · subst heq
        rw [Function.update_self, hstate]
        exact ⟨iff_of_true (.inr rfl) (.inl rfl), iff_of_false (by simp) (by simp)⟩
      · rw [Function.update_of_ne heq]
        exact ⟨Iff.rfl, Iff.rfl⟩
    · exact ⟨w.conns, rfl, fun _ => ⟨Iff.rfl, Iff.rfl⟩⟩
  · exact ⟨w.conns, rfl, fun _ => ⟨Iff.rfl, Iff.rfl⟩⟩

/-- The step calls `Connector::connect`, on this world and with this result. -/
inductive Begins (w : World) : Label → World → Option Errno → Prop where
  | connect {r : Option Errno} (hstate : w.connector_.state_ = .kDisconnected) :
    Begins w (.call true r .connect) w.wanted r
  | runTimer {r : Option Errno} {timer : ℕ} {expired : List ℕ}
    (hexpired : w.expired = timer :: expired) : Begins w (.runTimer r) { w with expired } r
  | startInLoop {r : Option Errno} {fs : List Functor} (hexpired : w.expired = [])
    (hfs : w.pendingFunctors = .startInLoop :: fs)
    (hstate : w.connector_.state_ = .kDisconnected) (hconnect : w.connector_.connect_ = true) :
    Begins w (.runFunctor r) { w with pendingFunctors := fs } r
  | restart {r : Option Errno} {conn : ℕ} (henabled : w.Enabled (.handleClose conn r))
    (hconn : w.connection_ = some conn) (hretry : w.retry_ = true) (hconnect : w.connect_ = true) :
    Begins w (.handleClose conn r) (w.released conn).restarted r

theorem step_of_enabled (h : w.Enabled l) : w.step l = w.act l := if_pos h

theorem Begins.step_eq {v : World} {r : Option Errno} (h : Begins w l v r) :
    w.step l = v.connect r := by
  cases h with
  | connect hstate =>
    rw [step_of_enabled (l := .call true r .connect) trivial]
    refine (bind_of_ok (check_of hstate _) _).trans ?_
    exact if_pos rfl
  | runTimer hexpired =>
    rw [step_of_enabled (l := .runTimer r) trivial, act, hexpired]
  | startInLoop hexpired hfs hstate hconnect =>
    rw [step_of_enabled (l := .runFunctor r) hexpired, act, hfs]
    exact (bind_of_ok (check_of hstate _) _).trans (if_pos hconnect)
  | restart henabled hconn hretry hconnect =>
    rw [step_of_enabled henabled, act]
    refine (bind_of_ok (check_of hconn _) _).trans ?_
    refine (if_pos (by rw [queueInLoop, hretry, hconnect]; rfl)).trans ?_
    exact (bind_of_ok (check_of rfl _) _).trans (if_pos rfl)

/-- What a step can do. -/
inductive Taken (w : World) : Label → World → Prop where
  | stay {l : Label} : Taken w l w
  | attempt {l : Label} {v w' : World} {r : Option Errno} (hbegins : Begins w l v r)
    (h : Attempted v r w') : Taken w l w'
  | connect {r : Option Errno} :
    Taken w (.call false r .connect) (w.wanted.queueInLoop .startInLoop)
  | disconnect {inLoop : Bool} {r : Option Errno} :
    Taken w (.call inLoop r .disconnect) { w with connect_ := false }.shutdown
  | stopInLoop {r : Option Errno} :
    Taken w (.call true r .stop) (w.unwanted.cancelInLoop w.connector_.timerId_)
  | stop {r : Option Errno} : Taken w (.call false r .stop)
    (w.unwanted.queueInLoop (.cancelInLoop w.connector_.timerId_))
  | enableRetry {inLoop : Bool} {r : Option Errno} :
    Taken w (.call inLoop r .enableRetry) { w with retry_ := true }
  | handleEvent {revents : Mask} {err : ℕ} {isSelf : Bool} {channel : Watch}
    (henabled : w.Enabled (.handleEvent revents err isSelf))
    (hstate : w.connector_.state_ = .kConnecting)
    (hchannel : w.connector_.channel_ = some channel) (hregistered : channel.registered = true) :
    Taken w (.handleEvent revents err isSelf) (w.handled channel revents err isSelf)
  | expire {timerIds : List ℕ} (hexpired : w.expired = []) :
    Taken w (.expire timerIds) { w with
      timers := w.timers.filter (· ∉ timerIds)
      expired := w.timers.filter (· ∈ timerIds) }
  | startInLoop {r : Option Errno} {fs : List Functor}
    (hfs : w.pendingFunctors = .startInLoop :: fs) (hstate : w.connector_.state_ = .kDisconnected)
    (hconnect : w.connector_.connect_ = false) :
    Taken w (.runFunctor r) { w with pendingFunctors := fs }
  | resetChannel {r : Option Errno} {fs : List Functor}
    (hfs : w.pendingFunctors = .resetChannel :: fs) :
    Taken w (.runFunctor r) { w with pendingFunctors := fs }.resetChannel
  | cancelInLoop {r : Option Errno} {fs : List Functor} {timerId : Option ℕ}
    (hfs : w.pendingFunctors = .cancelInLoop timerId :: fs) :
    Taken w (.runFunctor r) ({ w with pendingFunctors := fs }.cancelInLoop timerId)
  | connDestroyed {r : Option Errno} {fs : List Functor} {conn : ℕ}
    (hfs : w.pendingFunctors = .connDestroyed conn :: fs)
    (hconn : w.conns conn = some .kConnected ∨ w.conns conn = some .kDisconnecting) :
    Taken w (.runFunctor r) { w with
      pendingFunctors := fs
      conns := Function.update w.conns conn (some .kDisconnected) }
  | handleClose {r : Option Errno} {conn : ℕ} (henabled : w.Enabled (.handleClose conn r))
    (hconn : w.connection_ = some conn) (hretry : ¬(w.retry_ = true ∧ w.connect_ = true)) :
    Taken w (.handleClose conn r) (w.released conn)

theorem Begins.taken {v : World} {r : Option Errno} (h : Begins w l v r)
    (hok : w.step l = .ok w') : Taken w l w' :=
  .attempt h (attempted_of_connect (h.step_eq.symm.trans hok))

theorem taken_of_call {inLoop : Bool} {r : Option Errno} {call : Call}
    (hok : w.call inLoop r call = .ok w') : Taken w (.call inLoop r call) w' := by
  cases call with
  | connect =>
    cases inLoop with
    | true =>
      have hstep := (step_of_enabled (l := .call true r .connect) trivial).trans hok
      obtain ⟨_, hstate, -⟩ := bind_eq_ok.mp hok
      replace hstate : w.connector_.state_ = .kDisconnected := check_eq_ok.mp hstate
      exact (Begins.connect hstate).taken hstep
    | false =>
      obtain rfl := Except.ok.inj hok
      exact .connect
  | disconnect =>
    obtain rfl := Except.ok.inj hok
    exact .disconnect
  | stop =>
    cases inLoop with
    | true =>
      obtain rfl := Except.ok.inj hok
      exact .stopInLoop
    | false =>
      obtain rfl := Except.ok.inj hok
      exact .stop
  | enableRetry =>
    obtain rfl := Except.ok.inj hok
    exact .enableRetry

theorem taken_of_runFunctor {r : Option Errno} (hexpired : w.expired = [])
    (hok : w.act (.runFunctor r) = .ok w') : Taken w (.runFunctor r) w' := by
  have hstep := step_of_enabled (l := .runFunctor r) hexpired
  have hact := hok
  simp only [act] at hok
  split at hok
  · next f fs hfs =>
    cases f with
    | startInLoop =>
      obtain ⟨_, hstate, hok⟩ := bind_eq_ok.mp hok
      replace hstate : w.connector_.state_ = .kDisconnected := check_eq_ok.mp hstate
      by_cases hconnect : w.connector_.connect_ = true
      · exact (Begins.startInLoop hexpired hfs hstate hconnect).taken (hstep.trans hact)
      · rw [if_neg hconnect] at hok
        obtain rfl := Except.ok.inj hok
        exact .startInLoop hfs hstate (Bool.eq_false_of_not_eq_true hconnect)
    | resetChannel =>
      obtain rfl := Except.ok.inj hok
      exact .resetChannel hfs
    | cancelInLoop timerId =>
      obtain rfl := Except.ok.inj hok
      exact .cancelInLoop hfs
    | connDestroyed conn =>
      obtain ⟨_, hconn, hok⟩ := bind_eq_ok.mp hok
      obtain rfl := Except.ok.inj hok
      exact .connDestroyed hfs (check_eq_ok.mp hconn)
  · obtain rfl := Except.ok.inj hok
    exact .stay

theorem taken_of_handleClose {conn : ℕ} {r : Option Errno}
    (henabled : w.Enabled (.handleClose conn r)) (hok : w.removeConnection conn r = .ok w') :
    Taken w (.handleClose conn r) w' := by
  have hstep := (step_of_enabled henabled).trans hok
  obtain ⟨_, hconn, hok⟩ := bind_eq_ok.mp hok
  replace hconn : w.connection_ = some conn := check_eq_ok.mp hconn
  by_cases hretry : w.retry_ = true ∧ w.connect_ = true
  · exact (Begins.restart henabled hconn hretry.1 hretry.2).taken hstep
  · refine (Except.ok.inj ((if_neg ?_).symm.trans hok)) ▸ .handleClose henabled hconn hretry
    rwa [Bool.and_eq_true]

/-- A step that does not fail does one of these. -/
theorem taken_of_step (hok : w.step l = .ok w') : Taken w l w' := by
  rw [step] at hok
  split_ifs at hok with henabled
  · cases l with
    | call inLoop r call => exact taken_of_call hok
    | handleEvent revents err isSelf =>
      obtain ⟨channel, hchannel, hregistered⟩ := (Option.any_eq_true _ _).mp henabled.2
      by_cases hstate : w.connector_.state_ = .kConnecting
      · have heq := handleEvent_of_connecting hstate hchannel revents err isSelf
        obtain rfl := Except.ok.inj (heq.symm.trans hok)
        exact .handleEvent henabled hstate hchannel hregistered
      · obtain rfl := handleEvent_of_not_connecting hstate hok
        exact .stay
    | expire timerIds =>
      obtain rfl := Except.ok.inj hok
      exact .expire henabled
    | runTimer r =>
      simp only [act] at hok
      split at hok
      · next timer expired hexpired =>
        exact .attempt (.runTimer hexpired) (attempted_of_connect hok)
      · obtain rfl := Except.ok.inj hok
        exact .stay
    | runFunctor r => exact taken_of_runFunctor henabled hok
    | handleClose conn r => exact taken_of_handleClose henabled hok
  · obtain rfl := Except.ok.inj hok
    exact .stay

/-- How a step can fail. -/
inductive Failed (w : World) : Label → Failure → Prop where
  /-- The channel of the attempt before has not been reset. -/
  | connecting {l : Label} {v : World} {r : Option Errno} (hbegins : Begins w l v r)
    (hr : verdict r = .connecting) (hchannel : v.connector_.channel_ ≠ none) :
    Failed w l .connecting
  | start {r : Option Errno} (hstate : w.connector_.state_ ≠ .kDisconnected) :
    Failed w (.call true r .connect) .startInLoop
  | startInLoop {r : Option Errno} {fs : List Functor} (hexpired : w.expired = [])
    (hfs : w.pendingFunctors = .startInLoop :: fs)
    (hstate : w.connector_.state_ ≠ .kDisconnected) : Failed w (.runFunctor r) .startInLoop
  | removeConnection {r : Option Errno} {conn : ℕ} (henabled : w.Enabled (.handleClose conn r))
    (hconn : w.connection_ ≠ some conn) : Failed w (.handleClose conn r) .removeConnection
  | handleWrite {revents : Mask} {err : ℕ} {isSelf : Bool}
    (hstate : w.connector_.state_ = .kConnected) :
    Failed w (.handleEvent revents err isSelf) .handleWrite
  | connDestroyed {r : Option Errno} : Failed w (.runFunctor r) .connDestroyed

theorem failed_of_connect {v : World} {r : Option Errno} {e : Failure} (h : Begins w l v r)
    (herror : v.connect r = .error e) : Failed w l e := by
  cases hr : verdict r with
  | connecting =>
    by_cases hchannel : v.connector_.channel_ = none
    · cases (connect_of_connecting hr hchannel).symm.trans herror
    · obtain rfl := Except.error.inj ((connect_of_channel hr hchannel).symm.trans herror)
      exact .connecting h hr hchannel
  | retry => cases (connect_of_retry hr).symm.trans herror
  | close => cases (connect_of_close hr).symm.trans herror

theorem Begins.failed {v : World} {r : Option Errno} {e : Failure} (h : Begins w l v r)
    (herror : w.step l = .error e) : Failed w l e :=
  failed_of_connect h (h.step_eq.symm.trans herror)

theorem failed_of_handleEvent {revents : Mask} {err : ℕ} {isSelf : Bool} {e : Failure}
    (henabled : w.Enabled (.handleEvent revents err isSelf))
    (herror : w.handleEvent revents err isSelf = .error e) :
    Failed w (.handleEvent revents err isSelf) e := by
  obtain ⟨channel, hchannel, -⟩ := (Option.any_eq_true _ _).mp henabled.2
  cases hstate : w.connector_.state_ with
  | kConnecting => cases (handleEvent_of_connecting hstate hchannel ..).symm.trans herror
  | kDisconnected | kConnected =>
    rw [handleEvent_eq, handleError_of_not_connecting (by rw [hstate]; decide), ite_self, ok_bind,
      handleWrite_of_not_connecting (by rw [hstate]; decide)] at herror
    split_ifs at herror
    rcases bind_eq_error.mp herror with hcheck | ⟨_, -, hok⟩
    · obtain ⟨hnot, rfl⟩ := check_eq_error.mp hcheck
      first
      | exact absurd hstate hnot
      | exact .handleWrite hstate
    · cases hok

theorem failed_of_runFunctor {r : Option Errno} {e : Failure} (hexpired : w.expired = [])
    (herror : w.act (.runFunctor r) = .error e) : Failed w (.runFunctor r) e := by
  have hstep := (step_of_enabled (l := .runFunctor r) hexpired).trans herror
  simp only [act] at herror
  split at herror
  · next f fs hfs =>
    cases f with
    | startInLoop =>
      rcases bind_eq_error.mp herror with hcheck | ⟨_, hstate, herror⟩
      · obtain ⟨hstate, rfl⟩ := check_eq_error.mp hcheck
        exact .startInLoop hexpired hfs hstate
      · replace hstate : w.connector_.state_ = .kDisconnected := check_eq_ok.mp hstate
        by_cases hconnect : w.connector_.connect_ = true
        · exact (Begins.startInLoop hexpired hfs hstate hconnect).failed hstep
        · rw [if_neg hconnect] at herror
          cases herror
    | connDestroyed conn =>
      rcases bind_eq_error.mp herror with hcheck | ⟨_, -, hok⟩
      · obtain ⟨-, rfl⟩ := check_eq_error.mp hcheck
        exact .connDestroyed
      · cases hok
    | resetChannel | cancelInLoop => cases herror
  · cases herror

theorem failed_of_handleClose {conn : ℕ} {r : Option Errno} {e : Failure}
    (henabled : w.Enabled (.handleClose conn r))
    (herror : w.removeConnection conn r = .error e) : Failed w (.handleClose conn r) e := by
  have hstep := (step_of_enabled henabled).trans herror
  rcases bind_eq_error.mp herror with hcheck | ⟨_, hconn, herror⟩
  · obtain ⟨hconn, rfl⟩ := check_eq_error.mp hcheck
    exact .removeConnection henabled hconn
  · replace hconn : w.connection_ = some conn := check_eq_ok.mp hconn
    by_cases hretry : w.retry_ = true ∧ w.connect_ = true
    · exact (Begins.restart henabled hconn hretry.1 hretry.2).failed hstep
    · cases (if_neg (by rwa [Bool.and_eq_true])).symm.trans herror

/-- A step fails only so. -/
theorem failed_of_step {e : Failure} (herror : w.step l = .error e) : Failed w l e := by
  have hstep := herror
  rw [step] at herror
  split_ifs at herror with henabled
  cases l with
  | call inLoop r call =>
    cases call with
    | connect =>
      cases inLoop with
      | true =>
        by_cases hstate : w.connector_.state_ = .kDisconnected
        · exact (Begins.connect hstate).failed hstep
        · rcases bind_eq_error.mp herror with hcheck | ⟨_, hok, -⟩
          · obtain ⟨-, rfl⟩ := check_eq_error.mp hcheck
            exact .start hstate
          · exact absurd (check_eq_ok.mp hok) hstate
      | false => cases herror
    | stop => cases inLoop <;> cases herror
    | disconnect | enableRetry => cases herror
  | handleEvent revents err isSelf => exact failed_of_handleEvent henabled herror
  | expire => cases herror
  | runTimer r =>
    simp only [act] at herror
    split at herror
    · next timer expired hexpired => exact (Begins.runTimer hexpired).failed hstep
    · cases herror
  | runFunctor r => exact failed_of_runFunctor henabled herror
  | handleClose conn r => exact failed_of_handleClose henabled herror

end World

end TcpClient

end MuduoRebuild
