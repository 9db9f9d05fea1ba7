import MuduoRebuild.TcpConnection.Basic

/-!
# `TcpClient` and `Connector`: making a connection

A `TcpClient` keeps at most one `TcpConnection`, which its `Connector` makes for it. The connector
calls `::connect` on a new socket, waits on a channel for the outcome, and tries again after a
delay if it has failed. A connection that is closed may be made again.

`World` is a client with its connector, the queue of functors and the retry timers of its loop, and
the connections it has made. A public call, of the loop's thread or another, and a callback of the
loop are one step each, in any order. What `::connect` and `SO_ERROR` report, which events occur,
when timers expire and when connections close is not determined: the labels of the steps say it.

Sockets are numbered as they are created, so that a number is never used again. The channel and
the poller are reduced to whether the poller has the channel, and a connection to its state. The
destructors and the user's callbacks are left out; the code of the user may call the client at any
time.
-/

namespace MuduoRebuild

namespace TcpClient

open TcpConnection (StateE)

/-- The values of `errno` after `::connect` that the connector names, and the others. -/
inductive Errno where
  | EINPROGRESS
  | EINTR
  | EISCONN
  | EAGAIN
  | EADDRINUSE
  | EADDRNOTAVAIL
  | ECONNREFUSED
  | ENETUNREACH
  | EACCES
  | EPERM
  | EAFNOSUPPORT
  | EALREADY
  | EBADF
  | EFAULT
  | ENOTSOCK
  | other (n : ℕ)
  deriving DecidableEq, Repr

/-- What is to be done about the result of `::connect`. -/
inductive Verdict where
  | connecting
  | retry
  | close
  deriving DecidableEq, Repr

/-- The `switch` of `Connector::connect`; `none` is success. -/
def verdict : Option Errno → Verdict
  | none | some .EINPROGRESS | some .EINTR | some .EISCONN => .connecting
  | some .EAGAIN | some .EADDRINUSE | some .EADDRNOTAVAIL | some .ECONNREFUSED
  | some .ENETUNREACH => .retry
  | some .EACCES | some .EPERM | some .EAFNOSUPPORT | some .EALREADY | some .EBADF
  | some .EFAULT | some .ENOTSOCK | some (.other _) => .close

/-- `Connector::State`. -/
inductive State where
  | kDisconnected
  | kConnecting
  | kConnected
  deriving DecidableEq, Repr

/-- A channel of the connector: its socket, and whether the poller has it. -/
structure Watch where
  sockfd : ℕ
  registered : Bool
  deriving DecidableEq, Repr

/-- The public member functions of `TcpClient` that change it. -/
inductive Call where
  | connect
  | disconnect
  | stop
  | enableRetry
  deriving DecidableEq, Repr

/-- A functor for the loop of the client. -/
inductive Functor where
  | startInLoop
  | resetChannel
  /-- `TimerQueue::cancelInLoop`, for a retry timer. -/
  | cancelInLoop (timerId : Option ℕ)
  | connDestroyed (conn : ℕ)
  deriving DecidableEq, Repr

/-- How a step can fail: an `assert` of the function fails. -/
inductive Failure where
  | startInLoop
  | connecting
  | handleWrite
  | removeConnection
  | connDestroyed
  /-- `channel_` is dereferenced while it is null. -/
  | nullPointer
  deriving DecidableEq, Repr

/-- What has happened to a client, for stating properties of runs. -/
inductive Event where
  /-- `TcpClient::connect` has been called. -/
  | connect
  /-- `TcpClient::stop` has been called. -/
  | stop
  /-- `Connector::restart` has been called. -/
  | restart
  /-- A socket has been created for an attempt. -/
  | socket (sockfd : ℕ)
  /-- The connector has closed a socket. -/
  | close (sockfd : ℕ)
  /-- `newConnectionCallback_` has been called. -/
  | newConnection (sockfd : ℕ)
  /-- A retry timer has been scheduled, with this delay. -/
  | runAfter (timerId delayMs : ℕ)
  /-- `handleWrite` has found a socket connected, and not to itself. -/
  | connected (sockfd : ℕ)
  /-- `handleWrite` has found an error. -/
  | soError (sockfd err : ℕ)
  deriving DecidableEq, Repr

/-- The data members of a `Connector` that change. -/
structure Connector where
  state_ : State
  connect_ : Bool
  retryDelayMs_ : ℕ
  channel_ : Option Watch
  timerId_ : Option ℕ

end TcpClient

/-- The data members of a `TcpClient` that change. -/
structure TcpClient where
  retry_ : Bool
  connect_ : Bool
  nextConnId_ : ℕ
  connection_ : Option ℕ
  connector_ : TcpClient.Connector

namespace TcpClient

open TcpConnection (StateE)

def kMaxRetryDelayMs : ℕ := 30 * 1000

def kInitRetryDelayMs : ℕ := 500

/-- A client and its surroundings. -/
structure World extends TcpClient where
  pendingFunctors : List Functor
  /-- The retry timers that have not expired. -/
  timers : List ℕ
  /-- The retry timers that have expired and are about to call back. -/
  expired : List ℕ
  nextTimer : ℕ
  nextSocket : ℕ
  /-- The states of the connections that the client has made. -/
  conns : ℕ → Option StateE
  log : List Event

namespace World

/-- A client that has just been made. -/
def init : World where
  retry_ := false
  connect_ := true
  nextConnId_ := 1
  connection_ := none
  connector_ :=
    { state_ := .kDisconnected
      connect_ := false
      retryDelayMs_ := kInitRetryDelayMs
      channel_ := none
      timerId_ := none }
  pendingFunctors := []
  timers := []
  expired := []
  nextTimer := 0
  nextSocket := 0
  conns := fun _ => none
  log := []

variable (w : World)

/-- The event is appended to the history. -/
def record (e : Event) : World := { w with log := w.log ++ [e] }

/-- `EventLoop::queueInLoop`. -/
def queueInLoop (f : Functor) : World := { w with pendingFunctors := w.pendingFunctors ++ [f] }

/-! ### `Connector` -/

def setState (state_ : State) : World := { w with connector_ := { w.connector_ with state_ } }

/-- `connecting`: the channel waits until the socket is writable. -/
def connecting (sockfd : ℕ) : Except Failure World := do
  let w := w.setState .kConnecting
  Fallible.check (w.connector_.channel_ = none) .connecting
  return { w with connector_ := { w.connector_ with channel_ := some ⟨sockfd, true⟩ } }

def resetChannel : World := { w with connector_ := { w.connector_ with channel_ := none } }

/-- `removeAndResetChannel`, with the socket of the channel. -/
def removeAndResetChannel : Except Failure (World × ℕ) :=
  match w.connector_.channel_ with
  | none => .error .nullPointer
  | some channel =>
    let w := { w with
      connector_ := { w.connector_ with channel_ := some { channel with registered := false } } }
    .ok (w.queueInLoop .resetChannel, channel.sockfd)

/-- `loop_->runAfter`, in the loop's thread. -/
def runAfter (delayMs : ℕ) : World := { w with
  connector_ := { w.connector_ with timerId_ := some w.nextTimer }
  timers := w.timers ++ [w.nextTimer]
  nextTimer := w.nextTimer + 1
  log := w.log ++ [.runAfter w.nextTimer delayMs] }

def retry (sockfd : ℕ) : World :=
  let w := (w.record (.close sockfd)).setState .kDisconnected
  if w.connector_.connect_ then
    let w := w.runAfter w.connector_.retryDelayMs_
    { w with connector_ := { w.connector_ with
      retryDelayMs_ := min (w.connector_.retryDelayMs_ * 2) kMaxRetryDelayMs } }
  else w

/-- `Connector::connect`; `r` is the result of `::connect`. -/
def connect (r : Option Errno) : Except Failure World :=
  let sockfd := w.nextSocket
  let w := { w with nextSocket := sockfd + 1 }.record (.socket sockfd)
  match verdict r with
  | .connecting => w.connecting sockfd
  | .retry => .ok (w.retry sockfd)
  | .close => .ok (w.record (.close sockfd))

def startInLoop (r : Option Errno) : Except Failure World := do
  Fallible.check (w.connector_.state_ = .kDisconnected) .startInLoop
  if w.connector_.connect_ then w.connect r else return w

def restart (r : Option Errno) : Except Failure World :=
  let w := w.record .restart
  { w with connector_ := { w.connector_ with
    state_ := .kDisconnected
    retryDelayMs_ := kInitRetryDelayMs
    connect_ := true } }.startInLoop r

/-- `TimerQueue::cancelInLoop`, which is too late for a timer that has expired. -/
def cancelInLoop (timerId : Option ℕ) : World :=
  { w with timers := w.timers.filter (some · ≠ timerId) }

/-- `TcpClient::newConnection`: a connection is made and established. -/
def newConnection (sockfd : ℕ) : World :=
  { w with
    nextConnId_ := w.nextConnId_ + 1
    connection_ := some w.nextConnId_
    conns := Function.update w.conns w.nextConnId_ (some .kConnected) }.record
      (.newConnection sockfd)

/-- `handleWrite`; `err` is `SO_ERROR`, and `isSelf` whether the socket is connected to itself. -/
def handleWrite (err : ℕ) (isSelf : Bool) : Except Failure World := do
  if w.connector_.state_ = .kConnecting then
    let (w, sockfd) ← w.removeAndResetChannel
    if err ≠ 0 then
      return w.record (.soError sockfd err)
    else if isSelf then
      return w.retry sockfd
    else
      let w := (w.setState .kConnected).record (.connected sockfd)
      return if w.connector_.connect_ then w.newConnection sockfd else w.record (.close sockfd)
  else
    Fallible.check (w.connector_.state_ = .kDisconnected) .handleWrite
    return w

/-- `handleError`, which only logs the error. -/
def handleError : Except Failure World := do
  if w.connector_.state_ = .kConnecting then
    let (w, sockfd) ← w.removeAndResetChannel
    return w.retry sockfd
  else
    return w

/-! ### `TcpClient` -/

/-- `TcpClient::removeConnection`; `r` is the result of `::connect` if the connector restarts. -/
def removeConnection (conn : ℕ) (r : Option Errno) : Except Failure World := do
  Fallible.check (w.connection_ = some conn) .removeConnection
  let w := { w with connection_ := none }.queueInLoop (.connDestroyed conn)
  if w.retry_ && w.connect_ then w.restart r else return w

/-- `connection_->shutdown()`, if there is a connection. -/
def shutdown : World :=
  match w.connection_ with
  | some conn =>
    if w.conns conn = some .kConnected then
      { w with conns := Function.update w.conns conn (some .kDisconnecting) }
    else w
  | none => w

/-- `connDestroyed` of a connection. -/
def connDestroyed (conn : ℕ) : Except Failure World := do
  Fallible.check (w.conns conn = some .kConnected ∨ w.conns conn = some .kDisconnecting)
    .connDestroyed
  return { w with conns := Function.update w.conns conn (some .kDisconnected) }

/-! ### Steps -/

/-- A functor is run in the loop's thread. -/
def invoke (r : Option Errno) : Functor → Except Failure World
  | .startInLoop => w.startInLoop r
  | .resetChannel => .ok w.resetChannel
  | .cancelInLoop timerId => .ok (w.cancelInLoop timerId)
  | .connDestroyed conn => w.connDestroyed conn

/-- `EventLoop::runInLoop`, in the loop's thread or another. -/
def runInLoop (inLoop : Bool) (r : Option Errno) (f : Functor) : Except Failure World :=
  if inLoop then w.invoke r f else .ok (w.queueInLoop f)

/-- `Connector::start`. -/
def start (inLoop : Bool) (r : Option Errno) : Except Failure World :=
  { w with connector_ := { w.connector_ with connect_ := true } }.runInLoop inLoop r .startInLoop

/-- `Connector::stop`. -/
def stop (inLoop : Bool) : Except Failure World :=
  { w with connector_ := { w.connector_ with connect_ := false } }.runInLoop inLoop none
    (.cancelInLoop w.connector_.timerId_)

/-- A public member function of `TcpClient` is called, in the loop's thread or another. -/
def call (inLoop : Bool) (r : Option Errno) : Call → Except Failure World
  | .connect => { w with connect_ := true }.record .connect |>.start inLoop r
  | .disconnect => .ok { w with connect_ := false }.shutdown
  | .stop => { w with connect_ := false }.record .stop |>.stop inLoop
  | .enableRetry => .ok { w with retry_ := true }

/-- The callbacks of its channel that the connector sets. -/
def isSet : Channel.Callback → Bool
  | .error | .write => true
  | .close | .read => false

/-- `Channel::handleEvent` of the connector's channel. -/
def handleEvent (revents : Mask) (err : ℕ) (isSelf : Bool) : Except Failure World :=
  (Channel.handleEventWithGuard isSet revents).foldlM
    (fun w callback =>
      match callback with
      | .error => w.handleError
      | .write => w.handleWrite err isSelf
      | .close | .read => .ok w) w

/-- A step of the loop's thread or of another. The result `r` is that of `::connect`, if the step
calls it. -/
inductive Label where
  | call (inLoop : Bool) (r : Option Errno) (call : Call)
  /-- Events on the connector's channel. -/
  | handleEvent (revents : Mask) (err : ℕ) (isSelf : Bool)
  /-- These timers expire. -/
  | expire (timerIds : List ℕ)
  /-- The next expired timer calls `Connector::connect`. -/
  | runTimer (r : Option Errno)
  | runFunctor (r : Option Errno)
  /-- `handleClose` of a connection, which calls `TcpClient::removeConnection`. -/
  | handleClose (conn : ℕ) (r : Option Errno)
  deriving DecidableEq, Repr

/-- Whether a step can be taken. Expired timers come first; the user may call from any callback. A
connection is closed only before `connDestroyed`. -/
def Enabled : Label → Prop
  | .call .. | .runTimer _ => True
  | .handleEvent .. =>
    w.expired = [] ∧ (w.connector_.channel_.any (·.registered)) = true
  | .expire _ | .runFunctor _ => w.expired = []
  | .handleClose conn _ => w.expired = [] ∧
      (w.conns conn = some .kConnected ∨ w.conns conn = some .kDisconnecting)

instance (l : Label) : Decidable (w.Enabled l) :=
  match l with
  | .call .. | .runTimer _ => inferInstanceAs (Decidable True)
  | .handleEvent .. => inferInstanceAs (Decidable (w.expired = [] ∧
      (w.connector_.channel_.any (·.registered)) = true))
  | .expire _ | .runFunctor _ => inferInstanceAs (Decidable (w.expired = []))
  | .handleClose conn _ => inferInstanceAs (Decidable (w.expired = [] ∧
      (w.conns conn = some .kConnected ∨ w.conns conn = some .kDisconnecting)))

def act : Label → Except Failure World
  | .call inLoop r call => w.call inLoop r call
  | .handleEvent revents err isSelf => w.handleEvent revents err isSelf
  | .expire timerIds => .ok { w with
      timers := w.timers.filter (· ∉ timerIds)
      expired := w.timers.filter (· ∈ timerIds) }
  | .runTimer r =>
    match w.expired with
    | _ :: expired => { w with expired }.connect r
    | [] => .ok w
  | .runFunctor r =>
    match w.pendingFunctors with
    | f :: fs => { w with pendingFunctors := fs }.invoke r f
    | [] => .ok w
  | .handleClose conn r => w.removeConnection conn r

/-- One step; a step that cannot be taken now leaves everything as it is. -/
def step (l : Label) : Except Failure World :=
  if w.Enabled l then w.act l else .ok w

end World

end TcpClient

end MuduoRebuild
