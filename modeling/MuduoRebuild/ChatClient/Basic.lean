import MuduoRebuild.Codec.Basic
import MuduoRebuild.TcpConnection.Basic

/-!
# `ChatClient`: a terminal and a connection

The chat client reads lines from the terminal in one thread, and has its connection in the loop of
another. Before each line it looks at `connected_`; if there is a connection, the line goes through
the codec into `TcpConnection::send`, and from there to the loop. `onConnection`, in the loop's
thread, sets or resets `connection_` and `connected_`, and the two threads lock `mutex_` for what
they do with `connection_`.

`World` is a client with its connection and the thread of the terminal, one statement at a time. The
client never calls `enableRetry`, so there is one connection only.
-/

namespace MuduoRebuild

namespace ChatClient

open TcpConnection (Setup StateE)

/-- What the thread of the terminal does next. -/
inductive Place where
  /-- `std::getline(std::cin, line)` -/
  | getline
  /-- `client.connected()` -/
  | connected (line : List UInt8)
  /-- `write`, which locks `mutex_`. -/
  | lock (line : List UInt8)
  /-- `if (connection_)` -/
  | testConnection (line : List UInt8)
  /-- `codec_.send(connection_, message)`, up to the check of `state_` in `TcpConnection::send`. -/
  | send (line : List UInt8)
  /-- It goes on with the call of `TcpConnection::send`. -/
  | sending
  /-- The end of `write`. -/
  | unlock
  /-- `client.disconnect()`, up to the check of `state_` in `TcpConnection::shutdown`. -/
  | disconnect
  /-- It goes on with the call of `TcpConnection::shutdown`. -/
  | disconnecting
  /-- The end of `main`. -/
  | returned
  deriving DecidableEq, Repr

/-- The number of the terminal's thread among those that call the connection. -/
def terminal : ℕ := 0

/-- A chat client. -/
structure World where
  conn : TcpConnection.World
  /-- Whether `connection_` holds the connection. -/
  connection : Bool
  /-- `connected_` -/
  connected : Bool
  /-- Whether the terminal's thread has locked `mutex_`. -/
  locked : Bool
  /-- The loop's thread is about to run `onConnection`. -/
  announcing : Bool
  place : Place
  /-- The lines that have not been read. -/
  input : List (List UInt8)

namespace World

/-- A client that has called `connect`, with what will be typed. -/
def init (lines : List (List UInt8)) : World where
  conn := .init
  connection := false
  connected := false
  locked := false
  announcing := false
  place := .getline
  input := lines

/-- A step of the terminal's thread or of the loop's thread. -/
inductive Label where
  | main
  | handleEvent (revents : Mask)
  | runTask (n : Option ℕ)
  | runFunctor (n : Option ℕ)
  /-- `LengthHeaderCodec::onMessage` comes to an invalid length, and calls `shutdown`. -/
  | invalidLength
  deriving DecidableEq, Repr

variable (c : Setup) (w : World)

/-- A step of the connection. -/
def connStep (l : TcpConnection.World.Label) : Except Fault World := do
  let conn ← w.conn.step c l
  return { w with conn }

/-- The terminal's thread goes on with its call of a member function of the connection. -/
def continueCall (next : Place) : Except Fault World :=
  if w.conn.calls terminal = [] then .ok { w with place := next }
  else w.connStep c (.continueCall terminal)

/-- The next statement of `main` or of what it calls. -/
def main : Except Fault World :=
  match w.place with
  | .getline =>
    match w.input with
    | [] => .ok { w with place := .disconnect }
    | line :: input => .ok { w with input, place := .connected line }
  | .connected line => .ok { w with place := if w.connected then .lock line else .disconnect }
  | .lock line => .ok { w with locked := true, place := .testConnection line }
  | .testConnection line => .ok { w with place := if w.connection then .send line else .unlock }
  | .send line => do
    let bytes ← LengthHeaderCodec.send line
    let w ← w.connStep c (.call terminal (.send (.buffer bytes)))
    return { w with place := .sending }
  | .sending => w.continueCall c .unlock
  | .unlock => .ok { w with locked := false, place := .getline }
  | .disconnect => do
    let w ← if w.conn.owned then w.connStep c (.call terminal .shutdown) else .ok w
    return { w with place := .disconnecting }
  | .disconnecting => w.continueCall c .returned
  | .returned => .ok w

/-- `onConnection`. -/
def onConnection : World :=
  let connected : Bool := w.conn.state = .kConnected
  { w with connection := connected, connected, announcing := false }

/-- The loop's thread goes on with a handler or a functor. The user's code that it comes to is
`onConnection`, after a call of `connCb_`, or the codec's `onMessage`, which prints the messages and
may shut the connection down in a step of its own. -/
def runTask (n : Option ℕ) : Except Fault World :=
  match w.conn.work with
  | .connCb :: _ => { w with announcing := true }.connStep c (.runTask n)
  | .userCode :: _ => (if w.announcing then w.onConnection else w).connStep c (.runTask n)
  | _ => w.connStep c (.runTask n)

/-- Whether a step can be taken: `onConnection` locks `mutex_`, and `onMessage` is the user's code
after a read. -/
def Enabled : Label → Prop
  | .runTask _ => w.announcing = true → w.locked = false
  | .invalidLength => w.announcing = false ∧ w.conn.work.head? = some .userCode
  | .main | .handleEvent _ | .runFunctor _ => True

instance (l : Label) : Decidable (w.Enabled l) :=
  match l with
  | .runTask _ => inferInstanceAs (Decidable (w.announcing = true → w.locked = false))
  | .invalidLength =>
    inferInstanceAs (Decidable (w.announcing = false ∧ w.conn.work.head? = some .userCode))
  | .main | .handleEvent _ | .runFunctor _ => inferInstanceAs (Decidable True)

def act : Label → Except Fault World
  | .main => w.main c
  | .handleEvent revents => w.connStep c (.handleEvent revents)
  | .runTask n => w.runTask c n
  | .runFunctor n => w.connStep c (.runFunctor n)
  | .invalidLength => w.connStep c (.callInLoop none .shutdown)

/-- One step; a step that cannot be taken now leaves everything as it is. -/
def step (l : Label) : Except Fault World :=
  if w.Enabled l then w.act c l else .ok w

end World

end ChatClient

end MuduoRebuild
