import MuduoRebuild.TcpConnection.Basic

/-!
# `TcpServer`: a server and its event loops

A `TcpServer` lives in its base loop. It makes a connection for every descriptor that its acceptor
passes on, gives it to one of the IO loops of its thread pool in turn, or to the base loop if
there are none, and enters it in `connections_`. The connection is established in its own loop.
When it closes, the removal from `connections_` is run in the base loop, and `connDestroyed` in
the loop of the connection again.

Every function here is given the thread that executes it, a loop standing for its thread:
`runInLoop` executes its functor at once in the thread of the loop, and puts it into the queue of
the loop otherwise. `World` is a server with the connections it has made and the queues of all
its loops, and `World.step` one step of an arbitrary interleaving of their threads.
-/

namespace MuduoRebuild

namespace TcpServer

open TcpConnection (StateE)

/-- What is fixed when a server has been started. -/
structure Setup where
  /-- `name_`. -/
  name : String
  /-- `loops_.size()` of the thread pool. -/
  numThreads : ℕ

/-- An event loop, and its thread. -/
inductive LoopId where
  /-- The loop of the server and its acceptor. -/
  | base
  /-- A loop of the thread pool. -/
  | io (i : ℕ)
  deriving DecidableEq, Repr

/-- A functor in the queue of a loop, for a connection. -/
inductive Functor where
  | connEstablished (k : ℕ)
  | removeConnectionInLoop (k : ℕ)
  | connDestroyed (k : ℕ)
  deriving DecidableEq, Repr

/-- The connection that a functor is for. -/
def Functor.conn : Functor → ℕ
  | connEstablished k | removeConnectionInLoop k | connDestroyed k => k

/-- What has happened to the connections. -/
inductive Event where
  /-- `connEstablished` has been executed. -/
  | established (k : ℕ) (thread : LoopId)
  /-- `closeCb_` has been called. -/
  | closed (k : ℕ)
  /-- `removeConnectionInLoop` has been executed, and has found this entry to erase. -/
  | removed (k : ℕ) (entry : Option ℕ)
  /-- `connDestroyed` has been executed. -/
  | destroyed (k : ℕ) (thread : LoopId)
  deriving DecidableEq, Repr

/-- The connection that an event is about. -/
def Event.conn : Event → ℕ
  | established k _ | closed k | removed k _ | destroyed k _ => k

/-- The data members of a `TcpConnection` that matter to its server. -/
structure Conn where
  name : String
  loop : LoopId
  state : StateE

end TcpServer

/-- The data members of a `TcpServer` and of its thread pool that change. -/
structure TcpServer where
  nextConnId : ℕ
  /-- `connections_`; a connection is given by the number of those made before it. -/
  connections : String → Option ℕ
  /-- `next_` of the thread pool. -/
  next : ℕ

namespace TcpServer

open TcpConnection (StateE)

/-- `EventLoop::assertInLoopThread`. -/
def assertInLoopThread (thread loop : LoopId) : Except Stop Unit :=
  Fallible.check (thread = loop) .exited

/-- A server, the connections it has made, and the queues of its loops. -/
structure World extends TcpServer where
  made : ℕ
  conn : ℕ → Conn
  queue : LoopId → List Functor
  log : List Event

namespace World

/-- A server that has been started. -/
def init : World where
  nextConnId := 1
  connections := fun _ => none
  next := 0
  made := 0
  conn := fun _ => ⟨"", .base, .kConnecting⟩
  queue := fun _ => []
  log := []

variable (c : Setup) (w : World) (thread : LoopId)

/-- The event is appended to the history. -/
def record (e : Event) : World := { w with log := w.log ++ [e] }

/-- `EventLoop::queueInLoop`. -/
def queueInLoop (loop : LoopId) (f : Functor) : World :=
  { w with queue := Function.update w.queue loop (w.queue loop ++ [f]) }

def setState (k : ℕ) (s : StateE) : World :=
  { w with conn := Function.update w.conn k { w.conn k with state := s } }

/-! ### Functors -/

/-- `TcpConnection::connEstablished`. -/
def connEstablished (k : ℕ) : Except Stop World := do
  assertInLoopThread thread (w.conn k).loop
  Stop.assertThat ((w.conn k).state = .kConnecting)
  return (w.setState k .kConnected).record (.established k thread)

/-- `TcpConnection::connDestroyed`. -/
def connDestroyed (k : ℕ) : Except Stop World := do
  assertInLoopThread thread (w.conn k).loop
  Stop.assertThat ((w.conn k).state = .kConnected ∨ (w.conn k).state = .kDisconnecting)
  return (w.setState k .kDisconnected).record (.destroyed k thread)

def removeConnectionInLoop (k : ℕ) : Except Stop World := do
  assertInLoopThread thread .base
  let name := (w.conn k).name
  let entry := w.connections name
  let w := { w with connections := Function.update w.connections name none }
  Stop.assertThat (entry.toList.length = 1)
  return (w.record (.removed k entry)).queueInLoop (w.conn k).loop (.connDestroyed k)

/-- A functor is executed. -/
def invoke : Functor → Except Stop World
  | .connEstablished k => w.connEstablished thread k
  | .removeConnectionInLoop k => w.removeConnectionInLoop thread k
  | .connDestroyed k => w.connDestroyed thread k

/-- `EventLoop::runInLoop`. -/
def runInLoop (loop : LoopId) (f : Functor) : Except Stop World :=
  if thread = loop then w.invoke thread f else .ok (w.queueInLoop loop f)

/-! ### Accepting and closing -/

/-- `EventLoopThreadPool::getNextLoop`. -/
def getNextLoop : Except Stop (World × LoopId) := do
  assertInLoopThread thread .base
  if c.numThreads = 0 then return (w, .base)
  else
    Fallible.check (w.next < c.numThreads) (.faulted .outOfBounds)
    let loop := .io w.next
    let next := w.next + 1
    return ({ w with next := if c.numThreads ≤ next then 0 else next }, loop)

/-- `TcpServer::newConnection`. -/
def newConnection : Except Stop World := do
  assertInLoopThread thread .base
  let name := c.name ++ ("#" ++ w.nextConnId.repr)
  let w := { w with nextConnId := w.nextConnId + 1 }
  let (w, ioLoop) ← w.getNextLoop c thread
  let k := w.made
  let w : World := { w with
    made := w.made + 1
    conn := Function.update w.conn k ⟨name, ioLoop, .kConnecting⟩
    connections := Function.update w.connections name (some k) }
  w.runInLoop thread ioLoop (.connEstablished k)

/-- `TcpServer::removeConnection`. -/
def removeConnection (k : ℕ) : Except Stop World :=
  w.runInLoop thread .base (.removeConnectionInLoop k)

/-- `TcpConnection::handleClose`. -/
def handleClose (k : ℕ) : Except Stop World := do
  assertInLoopThread thread (w.conn k).loop
  Stop.assertThat ((w.conn k).state = .kConnected ∨ (w.conn k).state = .kDisconnecting)
  (w.record (.closed k)).removeConnection thread k

/-! ### Steps -/

/-- A step of one of the threads. -/
inductive Label where
  /-- The acceptor passes on a descriptor, in the thread of the base loop. -/
  | accept
  /-- A connection is closed in the thread of its loop. -/
  | close (k : ℕ)
  /-- `shutdown`, `forceClose` or `forceCloseWithDelay` sets `state_`, in any thread. -/
  | disconnect (k : ℕ)
  /-- A loop runs the next functor of its queue. -/
  | runFunctor (loop : LoopId)
  deriving DecidableEq, Repr

/-- Whether a step can be taken. A connection has no events, and its user no reference to it,
before it is established. -/
def Enabled : Label → Prop
  | .close k | .disconnect k => k < w.made ∧ (w.conn k).state ≠ .kConnecting
  | .accept | .runFunctor _ => True

instance (l : Label) : Decidable (w.Enabled l) :=
  match l with
  | .close k | .disconnect k =>
    inferInstanceAs (Decidable (k < w.made ∧ (w.conn k).state ≠ .kConnecting))
  | .accept | .runFunctor _ => inferInstanceAs (Decidable True)

def act : Label → Except Stop World
  | .accept => w.newConnection c .base
  | .close k => w.handleClose (w.conn k).loop k
  | .disconnect k => .ok (w.setState k .kDisconnecting)
  | .runFunctor loop =>
    match w.queue loop with
    | [] => .ok w
    | f :: fs => { w with queue := Function.update w.queue loop fs }.invoke loop f

/-- One step; a step that cannot be taken now leaves everything as it is. -/
def step (l : Label) : Except Stop World := if w.Enabled l then w.act c l else .ok w

end World

end TcpServer

end MuduoRebuild
