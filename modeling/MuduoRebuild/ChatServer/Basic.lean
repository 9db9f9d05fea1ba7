import MuduoRebuild.Codec.RoundTrip
import MuduoRebuild.Foundations.Multicast
import MuduoRebuild.TcpConnection.Basic

/-!
# `ChatServer`: a chat room in one loop

The chat server decodes what its clients send, and sends every message to all clients in its own
set `connections_`, the sender included. Without IO threads all connections live in the base loop,
so `runInLoop` always runs its functor at once, and only `connDestroyed` is queued.

`World` is the server with its `TcpServer`, all connections it has made, their channels and the
poller of the loop. The input buffers and output buffers are the sequences of their bytes. What
`accept4` and `readv` return, which events occur and where `std::set` puts a new connection is not
determined: the labels of the steps say it. What `::write` returns is part of the `Setup`.
-/

namespace MuduoRebuild

namespace ChatServer

open TcpConnection (StateE)
open Multicast (Post)

/-- What is not determined by the program. -/
structure Setup where
  /-- What the `i`-th `::write` accepts, if it does not fail. -/
  accepts : ℕ → Option ℕ

/-- What has happened. -/
inductive Event where
  /-- The codec has called `onStringMessage` with a message of this connection, while these were
  the connections in `connections_` in the state `kConnected`. -/
  | decoded (sender : ℕ) (message : List UInt8) (clients : List ℕ)
  /-- `sendInLoop` of a connection has been called with this string. -/
  | sent (k : ℕ) (string : List UInt8)
  | shutdownWrite (k : ℕ)
  deriving DecidableEq, Repr

/-- The string that `sendInLoop` of the connection `k` was called with. -/
def Event.sentTo? (k : ℕ) : Event → Option (List UInt8)
  | sent j string => if j = k then some string else none
  | decoded .. | shutdownWrite _ => none

/-- The message that was decoded, for the clients that there were. -/
def Event.post? : Event → Option (Post ℕ (List UInt8))
  | decoded _ message clients => some ⟨message, clients⟩
  | sent .. | shutdownWrite _ => none

/-- The data members of a `TcpConnection` that change, and its descriptor. -/
structure Conn where
  sockfd : ℕ
  state : StateE
  inputBuffer : List UInt8
  outputBuffer : List UInt8

/-- A chat server; a connection is given by the number of those made before it. -/
structure World where
  /-- The poller of the loop, and `events_` and `index_` of the channels of the connections. -/
  loop : Loop (EpollPoller ℕ) ℕ
  made : ℕ
  conn : ℕ → Conn
  /-- Whether `connections_` of the `TcpServer` has a connection, under its name. -/
  entered : ℕ → Bool
  /-- `connections_` of the `ChatServer`, in its order. -/
  connections : List ℕ
  /-- The connections whose `connDestroyed` is queued. -/
  pendingFunctors : List ℕ
  /-- The callbacks of a channel that `handleEvent` has still to call. -/
  work : List (ℕ × Channel.Callback)
  /-- The number of calls of `::write`. -/
  writes : ℕ
  log : List Event

namespace World

/-- A chat server that has been started. -/
def init : World where
  loop := EpollPoller.init
  made := 0
  conn := fun _ => ⟨0, .kConnecting, [], []⟩
  entered := fun _ => false
  connections := []
  pendingFunctors := []
  work := []
  writes := 0
  log := []

variable (c : Setup) (w : World) (k : ℕ)

/-- The event is appended to the history. -/
def record (e : Event) : World := { w with log := w.log ++ [e] }

def modify (f : Conn → Conn) : World :=
  { w with conn := Function.update w.conn k (f (w.conn k)) }

def isWriting : Bool := Channel.isWriting (w.loop.events k)

/-- `enableReading`, …, `disableAll` of the channel of a connection. -/
def update (u : Channel.Update) : Except Fault World := do
  let loop ← (Channel.Op.update u k).perform (fun j => (w.conn j).sockfd) w.loop
  return { w with loop }

/-- `loop_->removeChannel(channel_.get())`. -/
def removeChannel : Except Fault World := do
  let loop ← (Channel.Op.remove k).perform (fun j => (w.conn j).sockfd) w.loop
  return { w with loop }

/-- Whether a connection is a client: it is in `connections_`, in the state `kConnected`. -/
def IsClient : Prop := k ∈ w.connections ∧ (w.conn k).state = .kConnected

instance : Decidable (w.IsClient k) :=
  inferInstanceAs (Decidable (k ∈ w.connections ∧ (w.conn k).state = .kConnected))

/-- The connections in `connections_` in the state `kConnected`. -/
def clients : List ℕ := w.connections.filter fun k => (w.conn k).state = .kConnected

/-- The strings that `sendInLoop` of a connection was called with. -/
def received : List (List UInt8) := w.log.filterMap (Event.sentTo? k)

/-- The messages that were decoded, each with the clients that there were. -/
def posts : List (Post ℕ (List UInt8)) := w.log.filterMap Event.post?

/-! ### `TcpConnection`: sending -/

/-- `::write`, which accepts a prefix of the bytes or fails. -/
def write (data : List UInt8) : World × Option ℕ :=
  ({ w with writes := w.writes + 1 }, (c.accepts w.writes).map (min data.length))

/-- The first part of `sendInLoop`, and the number of bytes that it has written. -/
def sendDirectly (message : List UInt8) : World × ℕ :=
  if w.isWriting k = false ∧ (w.conn k).outputBuffer.length = 0 then
    match w.write c message with
    | (w, n) => (w, n.getD 0)
  else (w, 0)

/-- The second part of `sendInLoop`. -/
def buffer (rest : List UInt8) : Except Fault World :=
  let w := w.modify k fun conn => { conn with outputBuffer := conn.outputBuffer ++ rest }
  if w.isWriting k then .ok w else w.update k .enableWriting

/-- `sendInLoop`; the chat server installs no write-complete callback. -/
def sendInLoop (message : List UInt8) : Except Fault World :=
  let (w, n) := (w.record (.sent k message)).sendDirectly c k message
  if n < message.length then w.buffer k (message.drop n) else .ok w

/-- `send`, of a buffer with this content. -/
def send (content : List UInt8) : Except Fault World :=
  if (w.conn k).state = .kConnected then w.sendInLoop c k content else .ok w

/-- `shutdownInLoop`. -/
def shutdownInLoop : World := if w.isWriting k then w else w.record (.shutdownWrite k)

def shutdown : World :=
  if (w.conn k).state = .kConnected then
    (w.modify k fun conn => { conn with state := .kDisconnecting }).shutdownInLoop k
  else w

/-! ### `LengthHeaderCodec` and `ChatServer` -/

/-- `LengthHeaderCodec::send`. -/
def codecSend (message : List UInt8) : Except Fault World := do
  let content ← LengthHeaderCodec.send message
  w.send c k content

/-- `ChatServer::onStringMessage`. -/
def onStringMessage (message : List UInt8) : Except Fault World :=
  let w := w.record (.decoded k message w.clients)
  w.connections.foldlM (fun w j => w.codecSend c j message) w

/-- What `LengthHeaderCodec::onMessage` does with what it cuts off the input buffer. The messages
are cut off before the first of them is passed on, because the callback does not touch the
buffer. -/
def deliver (parsed : Framing.Parsed UInt8 (List UInt8)) : Except Fault World := do
  let w ← parsed.items.foldlM (fun w message => w.onStringMessage c k message) w
  let w := w.modify k fun conn => { conn with inputBuffer := parsed.rest }
  return if parsed.stopped then w.shutdown k else w

/-- `LengthHeaderCodec::onMessage`. -/
def onMessage : Except Fault World :=
  w.deliver c k (LengthHeaderCodec.onMessage (w.conn k).inputBuffer)

/-- `ChatServer::onConnection`; `place` is where `std::set` puts a new connection. -/
def onConnection (place : ℕ) : World :=
  if (w.conn k).state = .kConnected then
    if k ∈ w.connections then w
    else { w with connections := w.connections.take place ++ k :: w.connections.drop place }
  else { w with connections := w.connections.erase k }

/-! ### `TcpConnection`: opening, closing and events -/

/-- `connEstablished`. -/
def connEstablished (place : ℕ) : Except Fault World := do
  assertThat ((w.conn k).state = .kConnecting)
  let w ← (w.modify k fun conn => { conn with state := .kConnected }).update k .enableReading
  return w.onConnection k place

/-- `connDestroyed`. -/
def connDestroyed : Except Fault World := do
  assertThat ((w.conn k).state = .kConnected ∨ (w.conn k).state = .kDisconnecting)
  let w ← (w.modify k fun conn => { conn with state := .kDisconnected }).update k .disableAll
  (w.onConnection k 0).removeChannel k

/-- `TcpServer::removeConnectionInLoop`. -/
def removeConnectionInLoop : Except Fault World := do
  assertThat (w.entered k = true)
  return { w with
    entered := Function.update w.entered k false
    pendingFunctors := w.pendingFunctors ++ [k] }

/-- `handleClose`; in one loop `TcpServer::removeConnection` removes the connection at once. -/
def handleClose : Except Fault World := do
  assertThat ((w.conn k).state = .kConnected ∨ (w.conn k).state = .kDisconnecting)
  let w ← w.update k .disableAll
  w.removeConnectionInLoop k

/-- `handleRead`; the bytes are those that `readv` returns, if it does not fail. -/
def handleRead (bytes : Option (List UInt8)) : Except Fault World :=
  match bytes with
  | some [] => w.handleClose k
  | some bytes =>
    (w.modify k fun conn => { conn with inputBuffer := conn.inputBuffer ++ bytes }).onMessage c k
  | none => .ok w

/-- `handleWrite`, after a `::write` that has accepted `n` bytes. -/
def written (n : ℕ) : Except Fault World := do
  let w := w.modify k fun conn => { conn with outputBuffer := conn.outputBuffer.drop n }
  if (w.conn k).outputBuffer.length = 0 then
    let w ← w.update k .disableWriting
    return if (w.conn k).state = .kDisconnecting then w.shutdownInLoop k else w
  else return w

def handleWrite : Except Fault World :=
  if w.isWriting k then
    match w.write c (w.conn k).outputBuffer with
    | (w, some (n + 1)) => w.written k (n + 1)
    | (w, _) => .ok w
  else .ok w

/-- `TcpServer::newConnection`. -/
def newConnection (sockfd place : ℕ) : Except Fault World :=
  let k := w.made
  { w with
    made := w.made + 1
    conn := Function.update w.conn k ⟨sockfd, .kConnecting, [], []⟩
    entered := Function.update w.entered k true }.connEstablished k place

/-! ### Steps -/

/-- A step of the loop. -/
inductive Label where
  /-- The acceptor passes on a descriptor. -/
  | accept (sockfd place : ℕ)
  /-- The loop calls `handleEvent` of the channel of a connection. -/
  | handleEvent (k : ℕ) (revents : Mask)
  /-- The next callback of the channel. -/
  | runTask (bytes : Option (List UInt8))
  /-- The loop runs the next functor. -/
  | runFunctor
  deriving DecidableEq, Repr

/-- Whether a step can be taken. Events occur only on a channel that the poller knows. -/
def Enabled : Label → Prop
  | .accept .. | .runFunctor => w.work = []
  | .handleEvent k _ =>
    w.work = [] ∧ w.loop.poller.channels (w.conn k).sockfd = some k
  | .runTask _ => True

instance (l : Label) : Decidable (w.Enabled l) :=
  match l with
  | .accept .. | .runFunctor => inferInstanceAs (Decidable (w.work = []))
  | .handleEvent k _ =>
    inferInstanceAs (Decidable (w.work = [] ∧ w.loop.poller.channels (w.conn k).sockfd = some k))
  | .runTask _ => inferInstanceAs (Decidable True)

/-- The next callback of a channel. -/
def runTask (bytes : Option (List UInt8)) : Except Fault World :=
  match w.work with
  | [] => .ok w
  | (k, callback) :: work =>
    let w : World := { w with work }
    match callback with
    | .error => .ok w
    | .close => w.handleClose k
    | .read => w.handleRead c k bytes
    | .write => w.handleWrite c k

def act : Label → Except Fault World
  | .accept sockfd place => w.newConnection sockfd place
  | .handleEvent k revents =>
    .ok { w with work :=
      (Channel.handleEventWithGuard TcpConnection.wiring revents).map fun callback =>
        (k, callback) }
  | .runTask bytes => w.runTask c bytes
  | .runFunctor =>
    match w.pendingFunctors with
    | [] => .ok w
    | k :: ks => { w with pendingFunctors := ks }.connDestroyed k

/-- One step; a step that cannot be taken now leaves everything as it is. -/
def step (l : Label) : Except Fault World := if w.Enabled l then w.act c l else .ok w

end World

end ChatServer

end MuduoRebuild
