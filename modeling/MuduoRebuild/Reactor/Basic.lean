import MuduoRebuild.TcpClient.Basic
import MuduoRebuild.TcpServer.Basic

/-!
# The reactor

All of the library at work: event loops with their pollers, a server with its acceptor and its
connections, clients with their connectors and connections, and the timers and functors by which
they act on each other. `World` is the state of the process, and `World.step` one step of an
arbitrary interleaving of its threads: an iteration of `EventLoop::loop` is a `poll`, the calls of
`handleEvent` one after another, and `doPendingFunctors`.

The subject is the lifetime of channels and their owners. A `TcpConnection` is destroyed, and its
descriptor closed, when the last `TcpConnectionPtr` to it is gone; a `Connector` destroys its
channel in `resetChannel`; `~TcpServer` and `~TcpClient` are steps of their own. Functors and timers
hold what they hold in the source, a pointer or only `this`, and a run ends where a destroyed object
is used. A channel is never used again after its destruction, but its descriptor is.

What the kernel answers is not determined, nor what a `::write` leaves in the output buffer, whose
bytes are left out; the labels of the steps say it. A call of the user is one step, in any thread
and at any time, so that the user's callbacks and functors need no steps. `assertInLoopThread` is
left out except where a functor begins: see `OneLoopPerThread.one_loop_per_thread`.
-/

namespace MuduoRebuild

namespace Reactor

open TcpServer (LoopId)
open TcpClient (Errno verdict)
open TcpConnection (StateE)

/-! ### Names -/

/-- A `TcpConnection`. -/
inductive ConnId where
  /-- The server has made it for this loop, with this value of `nextConnId_`. -/
  | ofServer (ioLoop : LoopId) (n : ℕ)
  /-- The client `j` has made it. -/
  | ofClient (j n : ℕ)
  deriving DecidableEq, Repr

/-- A `Channel`. -/
inductive ChannelId where
  | wakeup (l : LoopId)
  | timerQueue (l : LoopId)
  | acceptor
  /-- The channel that the connector of the client `j` has made after `n` others. -/
  | connector (j n : ℕ)
  | conn (k : ConnId)
  deriving DecidableEq, Repr

/-- The channels that exist from the start. -/
def ChannelId.isPermanent : ChannelId → Bool
  | wakeup _ | timerQueue _ | acceptor => true
  | connector .. | conn _ => false

/-- Which callbacks of a channel are set. -/
def ChannelId.isSet : ChannelId → Channel.Callback → Bool
  | conn _ => TcpConnection.wiring
  | connector .. => TcpClient.World.isSet
  | wakeup _ | timerQueue _ | acceptor => fun callback => callback = .read

/-- What is fixed when the program starts. -/
structure Setup where
  /-- The number of IO loops of the server. -/
  numThreads : ℕ
  /-- The loop of each client. -/
  clientLoop : ℕ → LoopId
  /-- Whether the server has a write-complete callback. -/
  wriComCb : Bool
  /-- The descriptors of the channels that exist from the start. -/
  fd : ChannelId → ℕ
  fd_inj : ∀ ch ch', ch.isPermanent = true → ch'.isPermanent = true → fd ch = fd ch' → ch = ch'
  /-- The descriptors that are open at the start. -/
  isOpen : ℕ → Bool
  isOpen_fd : ∀ ch, ch.isPermanent = true → isOpen (fd ch) = true

namespace Setup

variable (c : Setup)

/-- The loop of a connection. -/
def loopOf : ConnId → LoopId
  | .ofServer ioLoop _ => ioLoop
  | .ofClient j _ => c.clientLoop j

/-- The loop of a channel. -/
def home : ChannelId → LoopId
  | .wakeup l | .timerQueue l => l
  | .acceptor => .base
  | .connector j _ => c.clientLoop j
  | .conn k => c.loopOf k

end Setup

/-! ### What is queued -/

/-- What a timer calls. The timers of the user are left out. -/
inductive TimerCallback where
  /-- `Connector::connect`. -/
  | connect (j : ℕ)
  /-- `TcpConnection::forceClose`. -/
  | forceClose (k : ConnId)
  deriving DecidableEq, Repr

/-- A functor in the queue of a loop. -/
inductive Functor where
  /-- `Acceptor::listen`. -/
  | listen
  | connEstablished (k : ConnId)
  | removeConnectionInLoop (k : ConnId)
  | connDestroyed (k : ConnId)
  | sendInLoop (k : ConnId)
  | shutdownInLoop (k : ConnId)
  | forceCloseInLoop (k : ConnId)
  /-- `wriComCb_`. -/
  | wriComCb (k : ConnId)
  /-- `setCloseCallback` with `removeConnection_base`. -/
  | setCloseCallback (k : ConnId)
  | startInLoop (j : ℕ)
  | resetChannel (j : ℕ)
  | addTimerInLoop (id : ℕ) (cb : TimerCallback)
  | cancelInLoop (id : Option ℕ)
  deriving DecidableEq, Repr

/-- The connection to which a functor holds a `TcpConnectionPtr`. The others hold at most `this`. -/
def Functor.ptr : Functor → Option ConnId
  | connEstablished k | removeConnectionInLoop k | connDestroyed k | wriComCb k
  | setCloseCallback k => some k
  | listen | sendInLoop _ | shutdownInLoop _ | forceCloseInLoop _ | startInLoop _
  | resetChannel _ | addTimerInLoop .. | cancelInLoop _ => none

/-- The loop whose thread the function asserts that it runs in. -/
def Functor.assertedLoop (c : Setup) : Functor → Option LoopId
  | listen | removeConnectionInLoop _ => some .base
  | connEstablished k | connDestroyed k | sendInLoop k | shutdownInLoop k | forceCloseInLoop k =>
    some (c.loopOf k)
  | startInLoop j => some (c.clientLoop j)
  | wriComCb _ | setCloseCallback _ | resetChannel _ | addTimerInLoop .. | cancelInLoop _ => none

/-- What the thread of a loop has still to do in a `handleEvent` or a functor. -/
inductive Task where
  /-- A callback of a channel. -/
  | handle (ch : ChannelId) (callback : Channel.Callback)
  /-- A timer that has expired. -/
  | timer (cb : TimerCallback)
  /-- `loop_->removeChannel(channel_.get())` in `connDestroyed`. -/
  | removeChannel (k : ConnId)
  deriving DecidableEq, Repr

/-! ### Objects -/

/-- The object that `closeCb_` is bound to. -/
inductive CloseCallback where
  | tcpServer
  | tcpClient (j : ℕ)
  /-- `removeConnection_base`, when the client has been destroyed. -/
  | base (l : LoopId)
  deriving DecidableEq, Repr

/-- A `TcpConnection`, and how many pointers the user holds. -/
structure Conn where
  state_ : StateE
  closeCb_ : CloseCallback
  refs : ℕ
  deriving DecidableEq, Repr

/-- A `TcpServer`, with its acceptor and its thread pool. -/
structure Server where
  listenning_ : Bool
  nextConnId_ : ℕ
  connections_ : List ConnId
  next_ : ℕ
  deriving DecidableEq, Repr

/-- A `Connector`. -/
structure Connector where
  state_ : TcpClient.State
  connect_ : Bool
  /-- The number of the channel. -/
  channel_ : Option ℕ
  timerId_ : Option ℕ
  /-- How many channels it has made. -/
  made : ℕ
  deriving DecidableEq, Repr

/-- A `TcpClient`. -/
structure Client where
  retry_ : Bool
  connect_ : Bool
  nextConnId_ : ℕ
  connection_ : Option ConnId
  connector_ : Connector
  deriving DecidableEq, Repr

/-- Where the thread of a loop is in `EventLoop::loop`. -/
inductive Phase where
  /-- Before `poll`. -/
  | polling
  /-- In the loop over `activeChannels_`. -/
  | handling
  /-- In `doPendingFunctors`. -/
  | functors
  deriving DecidableEq, Repr

/-- An `EventLoop`. -/
structure LoopState where
  poller : EpollPoller ChannelId
  pendingFunctors_ : List Functor
  /-- The timers that have been set, with their numbers. -/
  timers : List (ℕ × TimerCallback)
  phase : Phase
  /-- `activeChannels_` from the next channel on, each with its `revents_`. -/
  activeChannels_ : List (ChannelId × Mask)
  /-- The channel whose `handleEvent` has been called and has not returned. -/
  current : Option ChannelId
  work : List Task
  /-- The functors that `doPendingFunctors` has still to run. -/
  functors : List Functor
  /-- The functors that it has run. They are destroyed with the others. -/
  ran : List Functor

/-- The functors that will be run. -/
def LoopState.toRun (s : LoopState) : List Functor := s.functors ++ s.pendingFunctors_

/-- How a step can end a run. -/
inductive Halt where
  /-- `assertInLoopThread` ends the process. -/
  | exited
  | faulted (f : Fault)
  /-- A destroyed object is used. -/
  | destroyed
  /-- The kernel does not answer this. -/
  | impossible
  deriving DecidableEq, Repr

/-- `assert(p)`. -/
def Halt.assertThat (p : Prop) [Decidable p] : Except Halt Unit :=
  Fallible.check p (.faulted .assertFailed)

/-- An object that has to exist. -/
def alive {α : Type} : Option α → Except Halt α
  | some a => .ok a
  | none => .error .destroyed

/-- What the kernel answers during a step. -/
structure Answer where
  /-- The result of `::connect`; `none` is success. -/
  connect : Option Errno := none
  /-- The descriptor of a socket that is created or accepted. -/
  fd : ℕ := 0
  /-- Whether `::accept4` succeeds. -/
  accepts : Bool := true
  /-- `SO_ERROR`. -/
  soError : ℕ := 0
  /-- Whether the socket is connected to itself. -/
  isSelf : Bool := false
  /-- What `readv` returns, if it does not fail. -/
  read : Option ℕ := none
  /-- Whether `::write` leaves something to be written. -/
  left : Bool := false
  /-- The timers that have expired. -/
  expired : List ℕ := []
  deriving DecidableEq, Repr

/-- The process. An object that does not exist, or not any more, is `none`. -/
structure World where
  loops : LoopId → LoopState
  fd : ChannelId → ℕ
  events : ChannelId → Mask
  index : ChannelId → ℤ
  isOpen : ℕ → Bool
  server : Option Server
  client : ℕ → Option Client
  conn : ConnId → Option Conn
  nextTimer : ℕ

namespace World

variable (c : Setup) (w : World)

/-! ### Descriptors and channels -/

/-- The kernel opens a descriptor, which is closed. -/
def openFd (fd : ℕ) : Except Halt World := do
  Fallible.check (w.isOpen fd = false) .impossible
  return { w with isOpen := Function.update w.isOpen fd true }

/-- `::close`: the kernel takes the descriptor out of the interest sets. -/
def closeFd (fd : ℕ) : World := { w with
  isOpen := Function.update w.isOpen fd false
  loops := fun l => { w.loops l with poller := { (w.loops l).poller with
    interest := Function.update (w.loops l).poller.interest fd none } } }

/-- `Channel::Channel`. -/
def newChannel (ch : ChannelId) (fd : ℕ) : World := { w with
  fd := Function.update w.fd ch fd
  events := Function.update w.events ch Channel.kNonEvent
  index := Function.update w.index ch (-1) }

/-- An operation on a channel, by way of its loop. -/
def perform (ch : ChannelId) (op : Channel.Op ChannelId) : Except Halt World :=
  match op.perform w.fd ⟨(w.loops (c.home ch)).poller, w.events, w.index⟩ with
  | .error f => .error (.faulted f)
  | .ok s => .ok { w with
      loops := Function.update w.loops (c.home ch)
        { w.loops (c.home ch) with poller := s.poller }
      events := s.events
      index := s.index }

/-- `enableReading`, …, `disableAll` of a channel. -/
def update (u : Channel.Update) (ch : ChannelId) : Except Halt World :=
  w.perform c ch (.update u ch)

/-- `EventLoop::removeChannel`. -/
def removeChannel (ch : ChannelId) : Except Halt World := w.perform c ch (.remove ch)

def isWriting (k : ConnId) : Bool := Channel.isWriting (w.events (.conn k))

/-! ### Functors and timers -/

/-- The loop is changed. -/
def modify (l : LoopId) (f : LoopState → LoopState) : World :=
  { w with loops := Function.update w.loops l (f (w.loops l)) }

/-- `EventLoop::queueInLoop`. -/
def queueInLoop (l : LoopId) (f : Functor) : World :=
  w.modify l fun s => { s with pendingFunctors_ := s.pendingFunctors_ ++ [f] }

/-- `EventLoop::runInLoop`, in the thread of the loop `t` or in one without a loop. -/
def runInLoop (t : Option LoopId) (l : LoopId) (f : Functor) (run : World → Except Halt World) :
    Except Halt World :=
  if t = some l then run w else .ok (w.queueInLoop l f)

def addTimerInLoop (l : LoopId) (id : ℕ) (cb : TimerCallback) : World :=
  w.modify l fun s => { s with timers := s.timers ++ [(id, cb)] }

/-- `TimerQueue::cancelInLoop`, which is too late for a timer that has expired. -/
def cancelInLoop (l : LoopId) (id : Option ℕ) : World :=
  w.modify l fun s => { s with timers := s.timers.filter (some ·.1 ≠ id) }

/-- `EventLoop::runAfter`. The number of the timer is `nextTimer`. -/
def runAfter (t : Option LoopId) (l : LoopId) (cb : TimerCallback) : Except Halt World :=
  let id := w.nextTimer
  { w with nextTimer := id + 1 }.runInLoop t l (.addTimerInLoop id cb) fun w =>
    .ok (w.addTimerInLoop l id cb)

/-- `EventLoop::cancel`. -/
def cancel (t : Option LoopId) (l : LoopId) (id : Option ℕ) : Except Halt World :=
  w.runInLoop t l (.cancelInLoop id) fun w => .ok (w.cancelInLoop l id)

/-- `TimerQueue::handleRead`, up to the first timer. -/
def expire (l : LoopId) (ids : List ℕ) : World :=
  w.modify l fun s => { s with
    timers := s.timers.filter (·.1 ∉ ids)
    work := (s.timers.filter (·.1 ∈ ids)).map (.timer ·.2) ++ s.work }

/-! ### Pointers -/

def setConn (k : ConnId) (conn : Conn) : World :=
  { w with conn := Function.update w.conn k (some conn) }

def setClient (j : ℕ) (client : Client) : World :=
  { w with client := Function.update w.client j (some client) }

/-- All functors of a loop. -/
def allFunctors (l : LoopId) : List Functor := (w.loops l).ran ++ (w.loops l).toRun

/-- The loops that have functors for a connection. -/
def loopsFor (k : ConnId) : List LoopId :=
  if c.loopOf k = .base then [.base] else [c.loopOf k, .base]

/-- How many times `connections_` of the server has the connection. -/
def inServer (k : ConnId) : ℕ := w.server.elim 0 fun server => server.connections_.count k

/-- Whether `connection_` of the client is the connection. -/
def inClient : ConnId → ℕ
  | .ofServer .. => 0
  | .ofClient j n => (w.client j).elim 0 fun client =>
    if client.connection_ = some (.ofClient j n) then 1 else 0

/-- `use_count`. -/
def useCount (k : ConnId) : ℕ :=
  w.inServer k + w.inClient k +
    ((loopsFor c k).flatMap w.allFunctors).countP (·.ptr = some k) + (w.conn k).elim 0 Conn.refs

/-- A pointer to the connection is gone: `~TcpConnection`, if it was the last one. -/
def release (k : ConnId) : World :=
  if (w.conn k).isSome ∧ w.useCount c k = 0 then
    { w with conn := Function.update w.conn k none }.closeFd (w.fd (.conn k))
  else w

/-- The pointers to these connections are gone. -/
def releaseAll (ks : List ConnId) : World := ks.foldl (fun w k => w.release c k) w

/-! ### `TcpConnection` -/

/-- `wriComCb_` is queued, if it is set. -/
def queueWriComCb : ConnId → World
  | .ofServer ioLoop n =>
    if c.wriComCb then w.queueInLoop ioLoop (.wriComCb (.ofServer ioLoop n)) else w
  | .ofClient .. => w

/-- `std::make_shared<TcpConnection>`. -/
def newConn (k : ConnId) (fd : ℕ) (closeCb_ : CloseCallback) : World :=
  (w.setConn k { state_ := .kConnecting, closeCb_, refs := 0 }).newChannel (.conn k) fd

def connEstablished (k : ConnId) : Except Halt World := do
  let conn ← alive (w.conn k)
  Halt.assertThat (conn.state_ = .kConnecting)
  (w.setConn k { conn with state_ := .kConnected }).update c .enableReading (.conn k)

/-- `connDestroyed`, up to `connCb_`. -/
def connDestroyed (k : ConnId) : Except Halt World := do
  let conn ← alive (w.conn k)
  Halt.assertThat (conn.state_ = .kConnected ∨ conn.state_ = .kDisconnecting)
  let w ← (w.setConn k { conn with state_ := .kDisconnected }).update c .disableAll (.conn k)
  return w.modify (c.loopOf k) fun s => { s with work := .removeChannel k :: s.work }

def sendInLoop (k : ConnId) (left : Bool) : Except Halt World := do
  let _ ← alive (w.conn k)
  if w.isWriting k then return w
  else if left then w.update c .enableWriting (.conn k)
  else return w.queueWriComCb c k

/-- `shutdownInLoop`, which changes only the socket. -/
def shutdownInLoop (k : ConnId) : Except Halt World := do
  let _ ← alive (w.conn k)
  return w

def handleWrite (k : ConnId) (left : Bool) : Except Halt World := do
  let _ ← alive (w.conn k)
  if w.isWriting k then
    if left then return w
    else
      let w ← w.update c .disableWriting (.conn k)
      return w.queueWriComCb c k
  else return w

/-- A call sets `state_` if the connection is open. -/
def disconnecting (k : ConnId) (conn : Conn) : World :=
  w.setConn k { conn with state_ := .kDisconnecting }

def send (t : Option LoopId) (k : ConnId) (left : Bool) : Except Halt World := do
  let conn ← alive (w.conn k)
  if conn.state_ = .kConnected then
    w.runInLoop t (c.loopOf k) (.sendInLoop k) fun w => w.sendInLoop c k left
  else return w

def shutdown (t : Option LoopId) (k : ConnId) : Except Halt World := do
  let conn ← alive (w.conn k)
  if conn.state_ = .kConnected then
    (w.disconnecting k conn).runInLoop t (c.loopOf k) (.shutdownInLoop k) fun w =>
      w.shutdownInLoop k
  else return w

def forceClose (k : ConnId) : Except Halt World := do
  let conn ← alive (w.conn k)
  if conn.state_ = .kConnected ∨ conn.state_ = .kDisconnecting then
    return (w.disconnecting k conn).queueInLoop (c.loopOf k) (.forceCloseInLoop k)
  else return w

def forceCloseWithDelay (t : Option LoopId) (k : ConnId) : Except Halt World := do
  let conn ← alive (w.conn k)
  if conn.state_ = .kConnected ∨ conn.state_ = .kDisconnecting then
    (w.disconnecting k conn).runAfter t (c.loopOf k) (.forceClose k)
  else return w

/-! ### `Connector` -/

def setConnector (j : ℕ) (client : Client) (connector_ : Connector) : World :=
  w.setClient j { client with connector_ }

/-- `connecting`: a channel waits until the socket is writable. -/
def connecting (j sockfd : ℕ) : Except Halt World := do
  let client ← alive (w.client j)
  let connector := client.connector_
  Halt.assertThat (connector.channel_ = none)
  let n := connector.made
  let w := w.setConnector j client
    { connector with state_ := .kConnecting, channel_ := some n, made := n + 1 }
  (w.newChannel (.connector j n) sockfd).update c .enableWriting (.connector j n)

def resetChannel (j : ℕ) : Except Halt World := do
  let client ← alive (w.client j)
  return w.setConnector j client { client.connector_ with channel_ := none }

/-- `removeAndResetChannel`, with the socket of the channel. -/
def removeAndResetChannel (j : ℕ) : Except Halt (World × ℕ) := do
  let client ← alive (w.client j)
  match client.connector_.channel_ with
  | none => .error (.faulted .outOfBounds)
  | some n =>
    let w ← w.update c .disableAll (.connector j n)
    let w ← w.removeChannel c (.connector j n)
    return (w.queueInLoop (c.clientLoop j) (.resetChannel j), w.fd (.connector j n))

def retry (j sockfd : ℕ) : Except Halt World := do
  let w := w.closeFd sockfd
  let client ← alive (w.client j)
  let connector := { client.connector_ with state_ := .kDisconnected }
  if connector.connect_ then
    let w := w.setConnector j client { connector with timerId_ := some w.nextTimer }
    w.runAfter (some (c.clientLoop j)) (c.clientLoop j) (.connect j)
  else return w.setConnector j client connector

/-- `Connector::connect`. -/
def connect (j : ℕ) (a : Answer) : Except Halt World := do
  let w ← w.openFd a.fd
  match verdict a.connect with
  | .connecting => w.connecting c j a.fd
  | .retry => w.retry c j a.fd
  | .close =>
    let _ ← alive (w.client j)
    return w.closeFd a.fd

def startInLoop (j : ℕ) (a : Answer) : Except Halt World := do
  let client ← alive (w.client j)
  Halt.assertThat (client.connector_.state_ = .kDisconnected)
  if client.connector_.connect_ then w.connect c j a else return w

def restart (j : ℕ) (a : Answer) : Except Halt World := do
  let client ← alive (w.client j)
  let w := w.setConnector j client
    { client.connector_ with state_ := .kDisconnected, connect_ := true }
  w.startInLoop c j a

/-! ### Closing -/

/-- `TcpClient::removeConnection`. -/
def removeConnectionOfClient (j : ℕ) (k : ConnId) (a : Answer) : Except Halt World := do
  let client ← alive (w.client j)
  Halt.assertThat (client.connection_ = some k)
  let w := (w.setClient j { client with connection_ := none }).queueInLoop (c.clientLoop j)
    (.connDestroyed k)
  if client.retry_ && client.connect_ then w.restart c j a else return w

/-- `TcpServer::removeConnectionInLoop`. -/
def removeConnectionInLoop (k : ConnId) : Except Halt World := do
  let server ← alive w.server
  Halt.assertThat (server.connections_.count k = 1)
  let w := { w with server := some { server with connections_ := server.connections_.erase k } }
  return w.queueInLoop (c.loopOf k) (.connDestroyed k)

/-- `TcpServer::removeConnection`. -/
def removeConnectionOfServer (t : Option LoopId) (k : ConnId) : Except Halt World := do
  let _ ← alive w.server
  w.runInLoop t .base (.removeConnectionInLoop k) fun w => w.removeConnectionInLoop c k

def closeCb (k : ConnId) (a : Answer) : CloseCallback → Except Halt World
  | .tcpServer => w.removeConnectionOfServer c (some (c.loopOf k)) k
  | .tcpClient j => w.removeConnectionOfClient c j k a
  | .base l => .ok (w.queueInLoop l (.connDestroyed k))

def handleClose (k : ConnId) (a : Answer) : Except Halt World := do
  let conn ← alive (w.conn k)
  Halt.assertThat (conn.state_ = .kConnected ∨ conn.state_ = .kDisconnecting)
  let w ← w.update c .disableAll (.conn k)
  w.closeCb c k a conn.closeCb_

/-- `handleRead`; what the user does in `messaCb_` are other steps. -/
def handleRead (k : ConnId) (a : Answer) : Except Halt World := do
  let _ ← alive (w.conn k)
  if a.read = some 0 then w.handleClose c k a else return w

def forceCloseInLoop (k : ConnId) (a : Answer) : Except Halt World := do
  let conn ← alive (w.conn k)
  if conn.state_ = .kConnected ∨ conn.state_ = .kDisconnecting then w.handleClose c k a
  else return w

/-! ### Opening -/

/-- `TcpClient::newConnection`. The connection before it loses a pointer. -/
def newConnectionOfClient (j sockfd : ℕ) : Except Halt World := do
  let client ← alive (w.client j)
  let k := .ofClient j client.nextConnId_
  let w := (w.newConn k sockfd (.tcpClient j)).setClient j
    { client with nextConnId_ := client.nextConnId_ + 1, connection_ := some k }
  (w.releaseAll c client.connection_.toList).connEstablished c k

/-- `Connector::handleWrite`. -/
def handleConnected (j : ℕ) (a : Answer) : Except Halt World := do
  let client ← alive (w.client j)
  if client.connector_.state_ = .kConnecting then
    let (w, sockfd) ← w.removeAndResetChannel c j
    if a.soError ≠ 0 then return w
    else if a.isSelf then w.retry c j sockfd
    else
      let w := w.setConnector j client { client.connector_ with state_ := .kConnected }
      if client.connector_.connect_ then w.newConnectionOfClient c j sockfd
      else return w.closeFd sockfd
  else
    Halt.assertThat (client.connector_.state_ = .kDisconnected)
    return w

/-- `Connector::handleError`. -/
def handleError (j : ℕ) : Except Halt World := do
  let client ← alive (w.client j)
  if client.connector_.state_ = .kConnecting then
    let (w, sockfd) ← w.removeAndResetChannel c j
    w.retry c j sockfd
  else return w

/-- `EventLoopThreadPool::getNextLoop`, with the new value of `next_`. -/
def getNextLoop (server : Server) : LoopId × ℕ :=
  if c.numThreads = 0 then (.base, server.next_)
  else (.io server.next_, if c.numThreads ≤ server.next_ + 1 then 0 else server.next_ + 1)

/-- `TcpServer::newConnection`. -/
def newConnectionOfServer (sockfd : ℕ) : Except Halt World := do
  let server ← alive w.server
  let (ioLoop, next_) := getNextLoop c server
  let k := .ofServer ioLoop server.nextConnId_
  let w := { w.newConn k sockfd .tcpServer with server := some { server with
    nextConnId_ := server.nextConnId_ + 1
    connections_ := k :: server.connections_
    next_ } }
  w.runInLoop (some .base) ioLoop (.connEstablished k) fun w => w.connEstablished c k

/-- `Acceptor::handleRead`. -/
def handleAccept (a : Answer) : Except Halt World := do
  let _ ← alive w.server
  if a.accepts then
    let w ← w.openFd a.fd
    w.newConnectionOfServer c a.fd
  else return w

/-- `Acceptor::listen`. -/
def listen : Except Halt World := do
  let server ← alive w.server
  { w with server := some { server with listenning_ := true } }.update c .enableReading .acceptor

/-! ### Calls of the user -/

/-- A public function of a server, a client or a connection. -/
inductive Call where
  | start
  | connect (j : ℕ)
  | disconnect (j : ℕ)
  | stop (j : ℕ)
  | enableRetry (j : ℕ)
  | send (k : ConnId)
  | shutdown (k : ConnId)
  | forceClose (k : ConnId)
  | forceCloseWithDelay (k : ConnId)
  deriving DecidableEq, Repr

/-- `TcpServer::start`. -/
def start (t : Option LoopId) : Except Halt World := do
  let server ← alive w.server
  if server.listenning_ then return w else w.runInLoop t .base .listen fun w => w.listen c

/-- `TcpClient::connect`. -/
def connectClient (t : Option LoopId) (j : ℕ) (a : Answer) : Except Halt World := do
  let client ← alive (w.client j)
  let w := w.setClient j { client with
    connect_ := true
    connector_ := { client.connector_ with connect_ := true } }
  w.runInLoop t (c.clientLoop j) (.startInLoop j) fun w => w.startInLoop c j a

def disconnect (t : Option LoopId) (j : ℕ) : Except Halt World := do
  let client ← alive (w.client j)
  let w := w.setClient j { client with connect_ := false }
  match client.connection_ with
  | some k => w.shutdown c t k
  | none => return w

def stop (t : Option LoopId) (j : ℕ) : Except Halt World := do
  let client ← alive (w.client j)
  let w := w.setClient j { client with
    connect_ := false
    connector_ := { client.connector_ with connect_ := false } }
  w.cancel t (c.clientLoop j) client.connector_.timerId_

def enableRetry (j : ℕ) : Except Halt World := do
  let client ← alive (w.client j)
  return w.setClient j { client with retry_ := true }

def call (t : Option LoopId) (a : Answer) : Call → Except Halt World
  | .start => w.start c t
  | .connect j => w.connectClient c t j a
  | .disconnect j => w.disconnect c t j
  | .stop j => w.stop c t j
  | .enableRetry j => w.enableRetry j
  | .send k => w.send c t k a.left
  | .shutdown k => w.shutdown c t k
  | .forceClose k => w.forceClose c k
  | .forceCloseWithDelay k => w.forceCloseWithDelay c t k

/-- The user copies a pointer, or drops one. -/
def setRefs (k : ConnId) (f : ℕ → ℕ) : Except Halt World := do
  let conn ← alive (w.conn k)
  return w.setConn k { conn with refs := f conn.refs }

/-! ### Destructors -/

/-- `setCloseCallback` with `removeConnection_base`. -/
def setCloseCallback (k : ConnId) (l : LoopId) : Except Halt World := do
  let conn ← alive (w.conn k)
  return w.setConn k { conn with closeCb_ := .base l }

/-- `~TcpServer`, with `~Acceptor`. -/
def destroyServer : Except Halt World := do
  let server ← alive w.server
  return ({ w with server := none }.releaseAll c server.connections_).closeFd (w.fd .acceptor)

/-- The body of `~TcpClient`. -/
def leaveConnection (t : Option LoopId) (j : ℕ) : Option ConnId → Except Halt World
  | none => .ok w
  | some k => do
    let isUnique := w.useCount c k = 1
    let w ← w.runInLoop t (c.clientLoop j) (.setCloseCallback k) fun w =>
      w.setCloseCallback k (c.clientLoop j)
    if isUnique then w.forceClose c k else return w

/-- `~TcpClient`, with `~Connector`. In another thread, too, it is one step between two steps of the
loops: `setCloseCallback` is not run before the destructor has returned. A step that uses the
destroyed objects ends the run. -/
def destroyClient (t : Option LoopId) (j : ℕ) : Except Halt World := do
  let client ← alive (w.client j)
  let w ← w.leaveConnection c t j client.connection_
  let w := { w with client := Function.update w.client j none }
  let w ← w.cancel t (c.clientLoop j) client.connector_.timerId_
  return w.releaseAll c client.connection_.toList

/-! ### Steps -/

/-- What a functor calls, in the thread of the loop `l`. -/
def invoke (l : LoopId) (a : Answer) : Functor → Except Halt World
  | .listen => w.listen c
  | .connEstablished k => w.connEstablished c k
  | .removeConnectionInLoop k => w.removeConnectionInLoop c k
  | .connDestroyed k => w.connDestroyed c k
  | .sendInLoop k => w.sendInLoop c k a.left
  | .shutdownInLoop k => w.shutdownInLoop k
  | .forceCloseInLoop k => w.forceCloseInLoop c k a
  | .wriComCb _ => .ok w
  | .setCloseCallback k => w.setCloseCallback k l
  | .startInLoop j => w.startInLoop c j a
  | .resetChannel j => w.resetChannel j
  | .addTimerInLoop id cb => .ok (w.addTimerInLoop l id cb)
  | .cancelInLoop id => .ok (w.cancelInLoop l id)

/-- A functor is run in the thread of the loop `l`. -/
def runFunctor (l : LoopId) (a : Answer) (f : Functor) : Except Halt World := do
  Fallible.check (∀ l' ∈ f.assertedLoop c, l = l') .exited
  w.invoke c l a f

/-- A callback of a channel is called. -/
def callback (a : Answer) : ChannelId → Channel.Callback → Except Halt World
  | .conn k, .close => w.handleClose c k a
  | .conn k, .read => w.handleRead c k a
  | .conn k, .write => w.handleWrite c k a.left
  | .conn _, .error => .ok w
  | .connector j _, .write => w.handleConnected c j a
  | .connector j _, .error => w.handleError c j
  | .connector .., .close | .connector .., .read => .ok w
  | .acceptor, .read => w.handleAccept c a
  | .timerQueue l, .read => .ok (w.expire l a.expired)
  | .acceptor, _ | .timerQueue _, _ | .wakeup _, _ => .ok w

/-- A timer calls back. -/
def timeout (a : Answer) : TimerCallback → Except Halt World
  | .connect j => w.connect c j a
  | .forceClose k => w.forceClose c k

/-- The channel and the object that owns it exist. -/
def Exists : ChannelId → Prop
  | .wakeup _ | .timerQueue _ => True
  | .acceptor => w.server.isSome
  | .connector j n => (w.client j).any (·.connector_.channel_ = some n)
  | .conn k => (w.conn k).isSome

instance : (ch : ChannelId) → Decidable (w.Exists ch)
  | .wakeup _ | .timerQueue _ => inferInstanceAs (Decidable True)
  | .acceptor => inferInstanceAs (Decidable (w.server.isSome = true))
  | .connector j n =>
    inferInstanceAs (Decidable ((w.client j).any (·.connector_.channel_ = some n) = true))
  | .conn k => inferInstanceAs (Decidable ((w.conn k).isSome = true))

def runTask (a : Answer) : Task → Except Halt World
  | .handle ch callback => do
    Fallible.check (w.Exists ch) .destroyed
    w.callback c a ch callback
  | .timer cb => w.timeout c a cb
  | .removeChannel k => w.removeChannel c (.conn k)

/-- A step of one of the threads. -/
inductive Label where
  /-- `poll` returns these channels, with these events. -/
  | poll (l : LoopId) (ready : List (ChannelId × Mask))
  /-- `handleEvent` of the next active channel is called. -/
  | handleEvent (l : LoopId)
  /-- The thread goes on with what it has to do, or returns from `handleEvent`. -/
  | runTask (l : LoopId) (a : Answer)
  /-- `doPendingFunctors` takes the functors. -/
  | takeFunctors (l : LoopId)
  | runFunctor (l : LoopId) (a : Answer)
  /-- `doPendingFunctors` returns. -/
  | dropFunctors (l : LoopId)
  /-- A function is called in the thread of a loop, or in another. -/
  | call (t : Option LoopId) (a : Answer) (call : Call)
  /-- The user copies a pointer. -/
  | copy (k : ConnId)
  /-- The user drops a pointer. -/
  | drop (k : ConnId)
  | destroyServer
  | destroyClient (t : Option LoopId) (j : ℕ)
  deriving DecidableEq, Repr

/-- The object on which a function is called exists. -/
def HasTarget : Call → Prop
  | .start => w.server.isSome
  | .connect j | .disconnect j | .stop j | .enableRetry j => (w.client j).isSome
  | .send k | .shutdown k | .forceClose k | .forceCloseWithDelay k => (w.conn k).isSome

instance (call : Call) : Decidable (w.HasTarget call) :=
  match call with
  | .start => inferInstanceAs (Decidable (w.server.isSome = true))
  | .connect j | .disconnect j | .stop j | .enableRetry j =>
    inferInstanceAs (Decidable ((w.client j).isSome = true))
  | .send k | .shutdown k | .forceClose k | .forceCloseWithDelay k =>
    inferInstanceAs (Decidable ((w.conn k).isSome = true))

/-- The poller has the channel in its interest set. -/
def Watched (l : LoopId) (ch : ChannelId) : Prop :=
  ((w.loops l).poller.interest (w.fd ch)).map (·.ptr) = some ch

instance (l : LoopId) (ch : ChannelId) : Decidable (w.Watched l ch) :=
  inferInstanceAs (Decidable (_ = _))

/-- The thread of the loop is between two channels or functors. -/
def Between (l : LoopId) : Prop := (w.loops l).work = [] ∧ (w.loops l).current = none

instance (l : LoopId) : Decidable (w.Between l) := inferInstanceAs (Decidable (_ ∧ _))

/-- Whether a step can be taken. A descriptor is reported once by a `poll`. -/
def Enabled : Label → Prop
  | .poll l ready => (w.loops l).phase = .polling ∧ (ready.map Prod.fst).Nodup ∧
      ∀ r ∈ ready, w.Watched l r.1
  | .handleEvent l => (w.loops l).phase = .handling ∧ w.Between l
  | .runTask _ _ => True
  | .takeFunctors l => (w.loops l).phase = .handling ∧ w.Between l ∧
      (w.loops l).activeChannels_ = []
  | .runFunctor l _ => (w.loops l).phase = .functors ∧ w.Between l
  | .dropFunctors l => (w.loops l).phase = .functors ∧ w.Between l ∧ (w.loops l).functors = []
  | .call _ _ call => w.HasTarget call
  | .copy k => (w.conn k).isSome
  | .drop k => (w.conn k).any (0 < ·.refs)
  | .destroyServer => w.server.isSome ∧ w.Between .base
  | .destroyClient _ j => (w.client j).isSome ∧ w.Between (c.clientLoop j)

instance (l : Label) : Decidable (w.Enabled c l) :=
  match l with
  | .poll l ready => inferInstanceAs (Decidable ((w.loops l).phase = .polling ∧
      (ready.map Prod.fst).Nodup ∧ ∀ r ∈ ready, w.Watched l r.1))
  | .handleEvent l => inferInstanceAs (Decidable ((w.loops l).phase = .handling ∧ w.Between l))
  | .runTask _ _ => inferInstanceAs (Decidable True)
  | .takeFunctors l => inferInstanceAs (Decidable ((w.loops l).phase = .handling ∧ w.Between l ∧
      (w.loops l).activeChannels_ = []))
  | .runFunctor l _ => inferInstanceAs (Decidable ((w.loops l).phase = .functors ∧ w.Between l))
  | .dropFunctors l => inferInstanceAs (Decidable ((w.loops l).phase = .functors ∧ w.Between l ∧
      (w.loops l).functors = []))
  | .call _ _ call => inferInstanceAs (Decidable (w.HasTarget call))
  | .copy k => inferInstanceAs (Decidable ((w.conn k).isSome = true))
  | .drop k => inferInstanceAs (Decidable ((w.conn k).any (0 < ·.refs) = true))
  | .destroyServer => inferInstanceAs (Decidable (w.server.isSome = true ∧ w.Between .base))
  | .destroyClient _ j =>
    inferInstanceAs (Decidable ((w.client j).isSome = true ∧ w.Between (c.clientLoop j)))

def act : Label → Except Halt World
  -- the assertion is that of `fillActiveChannels`
  | .poll l ready => do
    Halt.assertThat (∀ r ∈ ready, (w.loops l).poller.channels (w.fd r.1) = some r.1)
    return w.modify l fun s => { s with phase := .handling, activeChannels_ := ready }
  | .handleEvent l =>
    match (w.loops l).activeChannels_ with
    | [] => .ok w
    | (ch, revents) :: rest => .ok (w.modify l fun s => { s with
        activeChannels_ := rest
        current := some ch
        work := (Channel.handleEventWithGuard ch.isSet revents).map (.handle ch) })
  | .runTask l a =>
    match (w.loops l).work with
    | [] => .ok (w.modify l fun s => { s with current := none })
    | task :: work => (w.modify l fun s => { s with work }).runTask c a task
  | .takeFunctors l => .ok (w.modify l fun s => { s with
      phase := .functors
      functors := s.pendingFunctors_
      pendingFunctors_ := [] })
  | .runFunctor l a =>
    match (w.loops l).functors with
    | [] => .ok w
    | f :: functors =>
      (w.modify l fun s => { s with functors, ran := s.ran ++ [f] }).runFunctor c l a f
  | .dropFunctors l =>
    .ok ((w.modify l fun s => { s with phase := .polling, ran := [] }).releaseAll c
      ((w.loops l).ran.filterMap Functor.ptr))
  | .call t a call => w.call c t a call
  | .copy k => w.setRefs k (· + 1)
  | .drop k => do
    let w ← w.setRefs k (· - 1)
    return w.release c k
  | .destroyServer => w.destroyServer c
  | .destroyClient t j => w.destroyClient c t j

/-- One step; a step that cannot be taken now leaves everything as it is. -/
def step (l : Label) : Except Halt World :=
  if w.Enabled c l then w.act c l else .ok w

end World

/-- The start of the program: the loops have been made, and the channels of each are registered.
All clients have been made, but nothing has been called. -/
def World.init (c : Setup) : World where
  loops := fun l =>
    { poller :=
        { channels := fun n =>
            if n = c.fd (.wakeup l) then some (.wakeup l)
            else if n = c.fd (.timerQueue l) then some (.timerQueue l)
            else none
          interest := fun n =>
            if n = c.fd (.wakeup l) then some ⟨Channel.kReadEvent, .wakeup l⟩
            else if n = c.fd (.timerQueue l) then some ⟨Channel.kReadEvent, .timerQueue l⟩
            else none }
      pendingFunctors_ := []
      timers := []
      phase := .polling
      activeChannels_ := []
      current := none
      work := []
      functors := []
      ran := [] }
  fd := c.fd
  events := fun
    | .wakeup _ | .timerQueue _ => Channel.kReadEvent
    | .acceptor | .connector .. | .conn _ => Channel.kNonEvent
  index := fun
    | .wakeup _ | .timerQueue _ => EpollPoller.kAdded
    | .acceptor | .connector .. | .conn _ => EpollPoller.kNew
  isOpen := c.isOpen
  server := some { listenning_ := false, nextConnId_ := 1, connections_ := [], next_ := 0 }
  client := fun _ => some
    { retry_ := false
      connect_ := true
      nextConnId_ := 1
      connection_ := none
      connector_ :=
        { state_ := .kDisconnected
          connect_ := false
          channel_ := none
          timerId_ := none
          made := 0 } }
  conn := fun _ => none
  nextTimer := 0

end Reactor

end MuduoRebuild
