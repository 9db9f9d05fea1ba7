import MuduoRebuild.Poller.EpollPoller

/-!
# `TcpConnection`: a connection, its loop and its owner

A `TcpConnection` lives in one event loop. Its channel calls `handleRead`, `handleWrite` and
`handleClose`; its user calls `send`, `shutdown`, `forceClose` and `forceCloseWithDelay` from
any thread. Outside the loop's thread these put a functor into the queue of the loop. When a
connection closes, its owner, a `TcpServer` or a `TcpClient`, forgets it and queues
`connDestroyed`.

`World` is a connection with everything it depends on: its channel and the poller of its loop,
the queue of functors, the handler or functor in progress, the calls of other threads in
progress, and its owner. `World.step` takes one step of an arbitrary interleaving, and the log
of a world tells what has happened. `Setup` is what is fixed when a connection is made.

The poller is the default one, an `EpollPoller`, and the channel is the only one of interest in
it. The output buffer is the sequence of its bytes. What `::write` accepts, what `readv`
returns and which events occur is not determined: the labels of the steps say it. The contents
of the input buffer are left out.
-/

namespace MuduoRebuild

namespace TcpConnection

/-- `TcpConnection::StateE`. -/
inductive StateE where
  | kConnecting
  | kConnected
  | kDisconnecting
  | kDisconnected
  deriving DecidableEq, Repr

/-- The object that `closeCb_` is bound to. -/
inductive Owner where
  /-- A server, whose base loop may do the IO itself. -/
  | tcpServer (baseIsIoLoop : Bool)
  | tcpClient
  deriving DecidableEq, Repr

/-- What is fixed when a connection is made. -/
structure Setup where
  sockfd : ℕ
  owner : Owner
  /-- Which callbacks of the channel are set. -/
  isSet : Channel.Callback → Bool
  /-- Whether `wriComCb_` is set. -/
  wriComCb : Bool

/-- The callbacks of the channel that the constructor of `TcpConnection` sets. -/
def wiring : Channel.Callback → Bool
  | .read | .close => true
  | .error | .write => false

/-- `TcpServer::newConnection`; `wriComCb` says whether the server has a write-complete
callback. -/
def Setup.server (sockfd : ℕ) (baseIsIoLoop wriComCb : Bool) : Setup where
  sockfd
  owner := .tcpServer baseIsIoLoop
  isSet := wiring
  wriComCb

/-- `TcpClient::newConnection`, which passes on no write-complete callback. -/
def Setup.client (sockfd : ℕ) : Setup where
  sockfd
  owner := .tcpClient
  isSet := wiring
  wriComCb := false

/-! ### Threads, calls and functors -/

/-- A thread: that of the loop, or another. -/
inductive Thread where
  | loop
  | other (n : ℕ)
  deriving DecidableEq, Repr

/-- What the overloads of `send` are given. -/
inductive Payload where
  | pointer (message : List UInt8) (len : ℕ)
  | buffer (content : List UInt8)
  | string (message : List UInt8)
  deriving DecidableEq, Repr

/-- The message that `send` passes to `sendInLoop`. -/
def Payload.message : Payload → List UInt8
  | .pointer message len => message.take len
  | .buffer content => content
  | .string message => message

/-- A call of a public member function, by the user of the connection. -/
inductive Call where
  | send (payload : Payload)
  | shutdown
  | forceClose
  | forceCloseWithDelay
  deriving DecidableEq, Repr

/-- A functor for the loop of the connection. -/
inductive Functor where
  | connEstablished
  | connDestroyed
  | sendInLoop (sender : Thread) (message : List UInt8)
  | shutdownInLoop
  | forceCloseInLoop
  /-- `wriComCb_`. -/
  | wriComCb
  /-- `TimerQueue::addTimerInLoop`, for the timer of `forceCloseWithDelay`. -/
  | addTimerInLoop
  deriving DecidableEq, Repr

/-- An atomic part of a call. -/
inductive Action where
  | setState (s : StateE)
  | runInLoop (f : Functor)
  | queueInLoop (f : Functor)
  deriving DecidableEq, Repr

/-- The condition on `state_` under which a call has an effect. -/
def Call.guard : Call → StateE → Prop
  | .send _, s | .shutdown, s => s = .kConnected
  | .forceClose, s | .forceCloseWithDelay, s => s = .kConnected ∨ s = .kDisconnecting

instance (call : Call) (s : StateE) : Decidable (call.guard s) :=
  match call with
  | .send _ | .shutdown => inferInstanceAs (Decidable (s = .kConnected))
  | .forceClose | .forceCloseWithDelay =>
    inferInstanceAs (Decidable (s = .kConnected ∨ s = .kDisconnecting))

/-- What a call does after its check of `state_`. -/
def Call.body (caller : Thread) : Call → List Action
  | .send payload => [.runInLoop (.sendInLoop caller payload.message)]
  | .shutdown => [.setState .kDisconnecting, .runInLoop .shutdownInLoop]
  | .forceClose => [.setState .kDisconnecting, .queueInLoop .forceCloseInLoop]
  | .forceCloseWithDelay => [.setState .kDisconnecting, .runInLoop .addTimerInLoop]

/-- What the loop's thread has still to do for the handler or the functor in progress. -/
inductive Task where
  /-- A callback of the channel. -/
  | handle (callback : Channel.Callback)
  /-- The call of `connCb_`. -/
  | connCb
  /-- The code of the user in one of its callbacks. -/
  | userCode
  /-- `loop_->removeChannel(channel_.get())`. -/
  | removeChannel
  deriving DecidableEq, Repr

/-- What has happened to a connection, for stating properties of runs. -/
inductive Event where
  /-- A call has passed its check of `state_`. -/
  | called (thread : Thread) (call : Call)
  | returned (thread : Thread)
  /-- `sendInLoop` has been executed. -/
  | sent (sender : Thread) (message : List UInt8)
  /-- One `::write`: the bytes it was given, and how many it accepted if it did not fail. -/
  | wrote (data : List UInt8) (n : Option ℕ)
  | shutdownWrite
  /-- `wriComCb_` has been queued. -/
  | wriComCb
  /-- `connCb_` has been called, with this value of `connected()`. -/
  | connection (connected : Bool)
  /-- `messaCb_` has been called. -/
  | message
  /-- `closeCb_` has been called. -/
  | close
  deriving DecidableEq, Repr

end TcpConnection

/-- The data members of a `TcpConnection` that change. -/
structure TcpConnection where
  state : TcpConnection.StateE
  outputBuffer : List UInt8

namespace TcpConnection

/-- A connection and its surroundings. -/
structure World extends TcpConnection where
  /-- The poller of the loop, and `events_` and `index_` of the channel. -/
  loop : Loop (EpollPoller Unit) Unit
  pendingFunctors : List Functor
  /-- The timers of `forceCloseWithDelay` that have not expired. -/
  timers : ℕ
  /-- The functors `removeConnectionInLoop` in the queue of the server's base loop. -/
  removals : ℕ
  /-- Whether `connections_` or `connection_` of the owner holds the connection. -/
  owned : Bool
  work : List Task
  /-- What the other threads have still to do for their calls. -/
  calls : ℕ → List Action
  log : List Event

namespace World

/-- The connection when `connEstablished` has been passed to its loop. -/
def init : World where
  state := .kConnecting
  outputBuffer := []
  loop := EpollPoller.init
  pendingFunctors := [.connEstablished]
  timers := 0
  removals := 0
  owned := true
  work := []
  calls := fun _ => []
  log := []

variable (c : Setup) (w : World)

def isReading : Bool := Channel.isReading (w.loop.events ())

def isWriting : Bool := Channel.isWriting (w.loop.events ())

/-- The event is appended to the history. -/
def record (e : Event) : World := { w with log := w.log ++ [e] }

/-- `EventLoop::queueInLoop`. -/
def queueInLoop (f : Functor) : World := { w with pendingFunctors := w.pendingFunctors ++ [f] }

/-- `enableReading`, …, `disableAll` of the channel. -/
def update (u : Channel.Update) : Except Fault World := do
  let loop ← (Channel.Op.update u ()).perform (fun _ => c.sockfd) w.loop
  return { w with loop }

/-- `loop_->removeChannel(channel_.get())`. -/
def removeChannel : Except Fault World := do
  let loop ← (Channel.Op.remove ()).perform (fun _ => c.sockfd) w.loop
  return { w with loop }

/-! ### Writing -/

/-- `::write`, which accepts a prefix of the bytes or fails. -/
def write (n : Option ℕ) (data : List UInt8) : World × Option ℕ :=
  let n := n.map (min data.length)
  (w.record (.wrote data n), n)

/-- `wriComCb_` is queued, if it is set. -/
def queueWriComCb : World :=
  if c.wriComCb then (w.queueInLoop .wriComCb).record .wriComCb else w

/-- `shutdownInLoop`. -/
def shutdownInLoop : World := if w.isWriting then w else w.record .shutdownWrite

/-- The first part of `sendInLoop`, and the number of bytes that it has written. -/
def sendDirectly (n : Option ℕ) (message : List UInt8) : World × ℕ :=
  if w.isWriting = false ∧ w.outputBuffer.length = 0 then
    match w.write n message with
    | (w, none) => (w, 0)
    | (w, some n) => if n < message.length then (w, n) else (w.queueWriComCb c, n)
  else (w, 0)

/-- The second part of `sendInLoop`. -/
def buffer (rest : List UInt8) : Except Fault World :=
  let w : World := { w with outputBuffer := w.outputBuffer ++ rest }
  if w.isWriting then .ok w else w.update c .enableWriting

def sendInLoop (n : Option ℕ) (sender : Thread) (message : List UInt8) : Except Fault World :=
  let (w, n) := (w.record (.sent sender message)).sendDirectly c n message
  if n < message.length then w.buffer c (message.drop n) else .ok w

/-- `handleWrite`, once the output buffer has become empty. -/
def drained : Except Fault World := do
  let w ← w.update c .disableWriting
  let w := w.queueWriComCb c
  return if w.state = .kDisconnecting then w.shutdownInLoop else w

def handleWrite (n : Option ℕ) : Except Fault World :=
  if w.isWriting then
    match w.write n w.outputBuffer with
    | (w, some (n + 1)) =>
      let w : World := { w with outputBuffer := w.outputBuffer.drop (n + 1) }
      if w.outputBuffer.length = 0 then w.drained c else .ok w
    | (w, _) => .ok w
  else .ok w

/-! ### Opening and closing -/

/-- `TcpServer::removeConnectionInLoop` and `TcpClient::removeConnection`: the owner gives the
connection up, and `connDestroyed` is queued. -/
def removeConnectionInLoop : Except Fault World := do
  assertThat (w.owned = true)
  return { w with owned := false }.queueInLoop .connDestroyed

/-- `TcpServer::removeConnection` and `TcpClient::removeConnection`. -/
def removeConnection : Except Fault World :=
  match c.owner with
  | .tcpServer false => .ok { w with removals := w.removals + 1 }
  | .tcpServer true | .tcpClient => w.removeConnectionInLoop

def handleClose : Except Fault World := do
  assertThat (w.state = .kConnected ∨ w.state = .kDisconnecting)
  let w ← w.update c .disableAll
  (w.record .close).removeConnection c

/-- `handleRead`; `n` is the number of bytes that `readv` returns if it does not fail. The user's
code in `messaCb_` is left to do. -/
def handleRead (n : Option ℕ) : Except Fault World :=
  match n with
  | some (_ + 1) => .ok { w.record .message with work := .userCode :: w.work }
  | some 0 => w.handleClose c
  | none => .ok w

def forceCloseInLoop : Except Fault World :=
  if w.state = .kConnected ∨ w.state = .kDisconnecting then w.handleClose c else .ok w

/-- `connEstablished`, up to `connCb_`. -/
def connEstablished : Except Fault World := do
  assertThat (w.state = .kConnecting)
  let w ← { w with state := .kConnected }.update c .enableReading
  return { w with work := .connCb :: .userCode :: w.work }

/-- `connDestroyed`, up to `connCb_`. -/
def connDestroyed : Except Fault World := do
  assertThat (w.state = .kConnected ∨ w.state = .kDisconnecting)
  let w ← { w with state := .kDisconnected }.update c .disableAll
  return { w with work := .connCb :: .userCode :: .removeChannel :: w.work }

/-! ### Steps -/

/-- A functor is run in the loop's thread. -/
def invoke (n : Option ℕ) : Functor → Except Fault World
  | .connEstablished => w.connEstablished c
  | .connDestroyed => w.connDestroyed c
  | .sendInLoop sender message => w.sendInLoop c n sender message
  | .shutdownInLoop => .ok w.shutdownInLoop
  | .forceCloseInLoop => w.forceCloseInLoop c
  | .wriComCb => .ok { w with work := .userCode :: w.work }
  | .addTimerInLoop => .ok { w with timers := w.timers + 1 }

/-- An action in the loop's thread, where `runInLoop` runs the functor at once. -/
def performInLoop (n : Option ℕ) : Action → Except Fault World
  | .setState s => .ok { w with state := s }
  | .runInLoop f => w.invoke c n f
  | .queueInLoop f => .ok (w.queueInLoop f)

/-- A call in the loop's thread. -/
def callInLoop (n : Option ℕ) (call : Call) : Except Fault World :=
  if call.guard w.state then do
    let w := w.record (.called .loop call)
    let w ← (call.body .loop).foldlM (fun w a => w.performInLoop c n a) w
    return w.record (.returned .loop)
  else .ok w

/-- Another thread calls a member function, and checks `state_`. -/
def call (t : ℕ) (call : Call) : World :=
  if call.guard w.state then
    let w : World := { w with calls := Function.update w.calls t (call.body (.other t)) }
    w.record (.called (.other t) call)
  else w

/-- An action in another thread, where `runInLoop` is `queueInLoop`. -/
def perform : Action → World
  | .setState s => { w with state := s }
  | .runInLoop f | .queueInLoop f => w.queueInLoop f

/-- Another thread goes on with its call. -/
def continueCall (t : ℕ) : World :=
  match w.calls t with
  | [] => w
  | a :: as =>
    let w : World := { w with calls := Function.update w.calls t as }.perform a
    if as = [] then w.record (.returned (.other t)) else w

/-- The loop's thread goes on with the handler or the functor in progress. -/
def runTask (n : Option ℕ) : Except Fault World :=
  match w.work with
  | [] => .ok w
  | task :: work =>
    let w : World := { w with work }
    match task with
    | .handle .error => .ok w
    | .handle .close => w.handleClose c
    | .handle .read => w.handleRead c n
    | .handle .write => w.handleWrite c n
    | .connCb => .ok (w.record (.connection (w.state = .kConnected)))
    | .userCode => .ok w
    | .removeChannel => w.removeChannel c

/-- `Channel::handleEvent`, up to the first callback. -/
def handleEvent (revents : Mask) : World :=
  { w with work := (Channel.handleEventWithGuard c.isSet revents).map .handle }

/-- A step of the loop's thread, of another thread or of the base loop. The number `n` is what
the `::write` or `readv` of the step returns, if it does one and does not fail. -/
inductive Label where
  | callInLoop (n : Option ℕ) (call : Call)
  | call (t : ℕ) (call : Call)
  | continueCall (t : ℕ)
  | handleEvent (revents : Mask)
  | runTask (n : Option ℕ)
  | runFunctor (n : Option ℕ)
  /-- A timer of `forceCloseWithDelay` expires. -/
  | timeout
  /-- The base loop runs a functor `removeConnectionInLoop`. -/
  | removeConnectionInLoop
  deriving DecidableEq, Repr

/-- Whether a step can be taken. The user's code runs in the loop's thread in its callbacks on
this connection, or outside of the connection's handlers and functors. -/
def Enabled : Label → Prop
  | .callInLoop .. => w.work = [] ∨ w.work.head? = some .userCode
  | .call t _ => w.calls t = []
  | .handleEvent _ => w.work = [] ∧ (w.loop.poller.interest c.sockfd).isSome
  | .runFunctor _ => w.work = []
  | .timeout => w.work = [] ∧ 0 < w.timers
  | .removeConnectionInLoop => 0 < w.removals
  | .continueCall _ | .runTask _ => True

instance (l : Label) : Decidable (w.Enabled c l) :=
  match l with
  | .callInLoop .. => inferInstanceAs (Decidable (w.work = [] ∨ w.work.head? = some .userCode))
  | .call t _ => inferInstanceAs (Decidable (w.calls t = []))
  | .handleEvent _ =>
    inferInstanceAs (Decidable (w.work = [] ∧ (w.loop.poller.interest c.sockfd).isSome))
  | .runFunctor _ => inferInstanceAs (Decidable (w.work = []))
  | .timeout => inferInstanceAs (Decidable (w.work = [] ∧ 0 < w.timers))
  | .removeConnectionInLoop => inferInstanceAs (Decidable (0 < w.removals))
  | .continueCall _ | .runTask _ => inferInstanceAs (Decidable True)

def act : Label → Except Fault World
  | .callInLoop n call => w.callInLoop c n call
  | .call t call => .ok (w.call t call)
  | .continueCall t => .ok (w.continueCall t)
  | .handleEvent revents => .ok (w.handleEvent c revents)
  | .runTask n => w.runTask c n
  | .runFunctor n =>
    match w.pendingFunctors with
    | f :: fs => { w with pendingFunctors := fs }.invoke c n f
    | [] => .ok w
  | .timeout => { w with timers := w.timers - 1 }.callInLoop c none .forceClose
  | .removeConnectionInLoop => { w with removals := w.removals - 1 }.removeConnectionInLoop

/-- One step; a step that cannot be taken now leaves everything as it is. -/
def step (l : Label) : Except Fault World :=
  if w.Enabled c l then w.act c l else .ok w

end World

end TcpConnection

end MuduoRebuild
