import MuduoRebuild.Foundations.Affinity
import MuduoRebuild.TcpServer.Basic

/-!
# One loop per thread

Every function of the library, as far as threads matter: which loop it asserts to run in, which
resources of a loop it changes, and what it calls, passes to `runInLoop` or `queueInLoop` of a loop
or sets as a timer. What depends on data is left open, and so are the user's callbacks, which may
call any of the public functions on any object. Every run of the program is a run of `library`,
with one server in the base loop, its connections in any number of IO loops, clients in any loops
(an IO loop that the pool does not have may be a loop of its own) and any number of other threads.

`MayRun` says in which threads each function may be called, and `discipline` checks each function
against it. So no `assertInLoopThread` ends the process, and the interests of channels, the
registrations of pollers, timer queues, output buffers and the server's connections are changed
only by the thread of their own loop (`one_loop_per_thread`).
-/

namespace MuduoRebuild

namespace OneLoopPerThread

open Affinity (Thread)
open TcpServer (LoopId)

/-- What is fixed when the program starts. -/
structure Setup where
  /-- The number of IO loops of the server. -/
  numThreads : ℕ
  /-- The loop of each `TcpClient`. -/
  clientLoop : ℕ → LoopId

/-- A `TcpConnection`. -/
inductive ConnId where
  /-- The server has made it for this loop. -/
  | ofServer (ioLoop : LoopId) (n : ℕ)
  /-- A client has made it. -/
  | ofClient (j n : ℕ)
  deriving DecidableEq, Repr

/-- A `Channel`. -/
inductive ChannelId where
  | acceptor
  | conn (k : ConnId)
  | connector (j : ℕ)
  | wakeup (l : LoopId)
  | timerQueue (l : LoopId)
  deriving DecidableEq, Repr

/-- What belongs to one loop. -/
inductive Resource where
  /-- `events_` of a channel. -/
  | interest (ch : ChannelId)
  /-- `channels_` of the poller and its interest set. -/
  | registration (l : LoopId)
  /-- The sets of a timer queue. -/
  | timers (l : LoopId)
  | outputBuffer (k : ConnId)
  /-- `connections_` of the server. -/
  | connections
  deriving DecidableEq, Repr

/-! ### Functions -/

/-- What a timer calls. -/
inductive TimerCallback where
  | user
  /-- `TcpConnection::forceClose`. -/
  | forceClose (k : ConnId)
  /-- `Connector::connect`. -/
  | connect (j : ℕ)
  deriving DecidableEq, Repr

/-- The member functions of `TcpConnection`. -/
inductive ConnFunction where
  | send
  | shutdown
  | forceClose
  | forceCloseWithDelay
  | connEstablished
  | connDestroyed
  | handleRead
  | handleWrite
  | handleClose
  | handleError
  | sendInLoop
  | shutdownInLoop
  | forceCloseInLoop
  deriving DecidableEq, Repr

/-- The member functions of `TcpServer`. -/
inductive ServerFunction where
  | start
  | newConnection
  | removeConnection (k : ConnId)
  | removeConnectionInLoop (k : ConnId)
  deriving DecidableEq, Repr

/-- The member functions of `Acceptor`. -/
inductive AcceptorFunction where
  | listen
  | handleRead
  deriving DecidableEq, Repr

/-- The member functions of `TcpClient`; `n` is the number of a connection of the client. -/
inductive ClientFunction where
  | connect
  | disconnect
  | stop
  | newConnection
  | removeConnection (n : ℕ)
  deriving DecidableEq, Repr

/-- The member functions of `Connector`. -/
inductive ConnectorFunction where
  | start
  | startInLoop
  | restart
  | stop
  | connect
  | connecting
  | resetChannel
  | removeAndResetChannel
  | retry
  | handleWrite
  | handleError
  deriving DecidableEq, Repr

/-- The member functions of `EventLoop`. Functors are those of the user. -/
inductive LoopFunction where
  | ctor
  | updateChannel
  | removeChannel
  | runInLoop
  | queueInLoop
  | runAt (cb : TimerCallback)
  | runAfter (cb : TimerCallback)
  | runEvery (cb : TimerCallback)
  | cancel
  | quit
  | handleRead
  deriving DecidableEq, Repr

/-- The member functions of `TimerQueue`. -/
inductive TimerQueueFunction where
  | ctor
  | addTimer (cb : TimerCallback)
  | addTimerInLoop (cb : TimerCallback)
  | cancel
  | cancelInLoop
  | handleRead
  deriving DecidableEq, Repr

/-- A member function of an object, or a function of the user. -/
inductive Function where
  | conn (k : ConnId) (f : ConnFunction)
  | server (f : ServerFunction)
  | acceptor (f : AcceptorFunction)
  | client (j : ℕ) (f : ClientFunction)
  | connector (j : ℕ) (f : ConnectorFunction)
  | loop (l : LoopId) (f : LoopFunction)
  | timerQueue (l : LoopId) (f : TimerQueueFunction)
  | user
  deriving DecidableEq, Repr

def TimerCallback.function : TimerCallback → Function
  | user => .user
  | forceClose k => .conn k .forceClose
  | connect j => .connector j .connect

abbrev Code := Affinity.Code LoopId Resource Function

namespace Setup

variable (c : Setup)

/-- The loop of a connection. -/
def loopOf : ConnId → LoopId
  | .ofServer ioLoop _ => ioLoop
  | .ofClient j _ => c.clientLoop j

/-- The loop of a channel. -/
def channelLoop : ChannelId → LoopId
  | .acceptor => .base
  | .conn k => c.loopOf k
  | .connector j => c.clientLoop j
  | .wakeup l | .timerQueue l => l

/-- The loop that a resource belongs to. -/
def owner : Resource → LoopId
  | .interest ch => c.channelLoop ch
  | .registration l | .timers l => l
  | .outputBuffer k => c.loopOf k
  | .connections => .base

/-- `threadPool_->getNextLoop()`; `next` is `next_`, which is below `loops_.size()` then. -/
def nextLoop (next : ℕ) : LoopId :=
  if c.numThreads = 0 then .base else .io (next % c.numThreads)

end Setup

/-! ### What they do -/

open Affinity.Code

/-- `EventLoop::runInLoop`. -/
def runInLoop (l : LoopId) (f : Function) : Code := .ifInLoop l (.call f) (.queue l f)

section Code

variable (c : Setup)

/-- `enableReading`, …, `disableAll` of a channel. -/
def update (ch : ChannelId) : Code :=
  block [.access (.interest ch), .call (.loop (c.channelLoop ch) .updateChannel)]

/-- `loop_->removeChannel`. -/
def remove (ch : ChannelId) : Code := .call (.loop (c.channelLoop ch) .removeChannel)

/-- What `closeCb_` of a connection is bound to. -/
def closeCb : ConnId → Function
  | .ofServer ioLoop n => .server (.removeConnection (.ofServer ioLoop n))
  | .ofClient j n => .client j (.removeConnection n)

def ConnFunction.code (k : ConnId) : ConnFunction → Code
  | send =>
    optional (.ifInLoop (c.loopOf k) (.call (.conn k sendInLoop))
      (runInLoop (c.loopOf k) (.conn k sendInLoop)))
  | shutdown => optional (runInLoop (c.loopOf k) (.conn k shutdownInLoop))
  | forceClose => optional (.queue (c.loopOf k) (.conn k forceCloseInLoop))
  | forceCloseWithDelay => optional (.call (.loop (c.loopOf k) (.runAfter (.forceClose k))))
  -- the user's code here and below is `connCb_`, `messaCb_` or `wriComCb_`
  | connEstablished => block [.assertInLoop (c.loopOf k), update c (.conn k), .anything]
  | connDestroyed =>
    block [.assertInLoop (c.loopOf k), update c (.conn k), .anything, remove c (.conn k)]
  | handleRead => oneOf [.anything, .call (.conn k handleClose), .call (.conn k handleError)]
  | handleWrite =>
    block [.assertInLoop (c.loopOf k), optional (block [.access (.outputBuffer k),
      optional (block [update c (.conn k), optional (.queue (c.loopOf k) .user),
        optional (.call (.conn k shutdownInLoop))])])]
  | handleClose => block [.assertInLoop (c.loopOf k), update c (.conn k), .call (closeCb k)]
  | handleError => .skip
  | sendInLoop =>
    block [.assertInLoop (c.loopOf k), optional (.queue (c.loopOf k) .user),
      optional (block [.access (.outputBuffer k), optional (update c (.conn k))])]
  | shutdownInLoop => .assertInLoop (c.loopOf k)
  | forceCloseInLoop =>
    block [.assertInLoop (c.loopOf k), optional (.call (.conn k handleClose))]

def ServerFunction.code : ServerFunction → Code
  | start => block [optional (.assertInLoop .base), optional (runInLoop .base (.acceptor .listen))]
  | newConnection =>
    -- the second assertion is that of `getNextLoop`
    block [.assertInLoop .base, .assertInLoop .base, .choose fun next => .choose fun n =>
      block [.access .connections, runInLoop (c.nextLoop next)
        (.conn (.ofServer (c.nextLoop next) n) .connEstablished)]]
  | removeConnection k => runInLoop .base (.server (removeConnectionInLoop k))
  | removeConnectionInLoop k =>
    block [.assertInLoop .base, .access .connections,
      .queue (c.loopOf k) (.conn k .connDestroyed)]

def AcceptorFunction.code : AcceptorFunction → Code
  | listen => block [.assertInLoop .base, update c .acceptor]
  | handleRead => block [.assertInLoop .base, optional (.call (.server .newConnection))]

def ClientFunction.code (j : ℕ) : ClientFunction → Code
  | connect => .call (.connector j .start)
  | disconnect => .choose fun n => optional (.call (.conn (.ofClient j n) .shutdown))
  | stop => .call (.connector j .stop)
  | newConnection =>
    block [.assertInLoop (c.clientLoop j),
      .choose fun n => .call (.conn (.ofClient j n) .connEstablished)]
  | removeConnection n =>
    block [.assertInLoop (c.clientLoop j),
      .queue (c.clientLoop j) (.conn (.ofClient j n) .connDestroyed),
      optional (.call (.connector j .restart))]

def ConnectorFunction.code (j : ℕ) : ConnectorFunction → Code
  | start => runInLoop (c.clientLoop j) (.connector j startInLoop)
  | startInLoop =>
    block [.assertInLoop (c.clientLoop j), optional (.call (.connector j connect))]
  | restart => block [.assertInLoop (c.clientLoop j), .call (.connector j startInLoop)]
  | stop => .call (.loop (c.clientLoop j) .cancel)
  | connect => optional (oneOf [.call (.connector j connecting), .call (.connector j retry)])
  | connecting => update c (.connector j)
  | resetChannel => .skip
  | removeAndResetChannel =>
    block [update c (.connector j), remove c (.connector j),
      .queue (c.clientLoop j) (.connector j resetChannel)]
  | retry => optional (.call (.loop (c.clientLoop j) (.runAfter (.connect j))))
  | handleWrite =>
    optional (block [.call (.connector j removeAndResetChannel),
      optional (oneOf [.call (.connector j retry), .call (.client j .newConnection)])])
  | handleError =>
    optional (block [.call (.connector j removeAndResetChannel), .call (.connector j retry)])

def LoopFunction.code (l : LoopId) : LoopFunction → Code
  | ctor => block [.call (.timerQueue l .ctor), update c (.wakeup l)]
  -- the second assertion is that of the poller
  | updateChannel | removeChannel =>
    block [.assertInLoop l, .assertInLoop l, .access (.registration l)]
  | runInLoop => OneLoopPerThread.runInLoop l .user
  | queueInLoop => .queue l .user
  | runAt cb | runEvery cb => .call (.timerQueue l (.addTimer cb))
  | runAfter cb => .call (.loop l (runAt cb))
  | cancel => .call (.timerQueue l .cancel)
  | quit | handleRead => .skip

def TimerQueueFunction.code (l : LoopId) : TimerQueueFunction → Code
  | ctor => update c (.timerQueue l)
  | addTimer cb => runInLoop l (.timerQueue l (addTimerInLoop cb))
  | addTimerInLoop cb =>
    block [.assertInLoop l, .access (.timers l), .schedule l cb.function]
  | cancel => runInLoop l (.timerQueue l cancelInLoop)
  | cancelInLoop => block [.assertInLoop l, optional (.access (.timers l))]
  | handleRead =>
    block [.assertInLoop l, .access (.timers l), .runTimers l, .access (.timers l)]

def Function.code : Function → Code
  | conn k f => f.code c k
  | server f => f.code c
  | acceptor f => f.code c
  | client j f => f.code c j
  | connector j f => f.code c j
  | loop l f => f.code c l
  | timerQueue l f => f.code c l
  | user => .anything

end Code

/-- What the user may call, in any thread. -/
def Function.isPublic : Function → Bool
  | conn _ .send | conn _ .shutdown | conn _ .forceClose | conn _ .forceCloseWithDelay => true
  | client _ .connect | client _ .disconnect | client _ .stop => true
  | loop _ .runInLoop | loop _ .queueInLoop | loop _ .cancel | loop _ .quit => true
  | loop _ (.runAt cb) | loop _ (.runAfter cb) | loop _ (.runEvery cb) => cb = .user
  | _ => false

/-- The callbacks of the channels of a loop. -/
def Setup.handles (c : Setup) (l : LoopId) : Function → Bool
  | .conn k .handleRead | .conn k .handleWrite | .conn k .handleClose | .conn k .handleError =>
    c.loopOf k = l
  | .acceptor .handleRead => l = .base
  | .connector j .handleWrite | .connector j .handleError => c.clientLoop j = l
  | .loop l' .handleRead | .timerQueue l' .handleRead => l' = l
  | _ => false

/-- The program. -/
def library (c : Setup) : Affinity.System LoopId Resource Function where
  owner := c.owner
  code := Function.code c
  isPublic := Function.isPublic
  handles := c.handles

/-! ### Where they may be called -/

section MayRun

variable (c : Setup) (t : Thread LoopId)

/-- A timer of a loop may call this. -/
def TimerCallback.MayExpire (l : LoopId) : TimerCallback → Prop
  | user | forceClose _ => True
  | connect j => c.clientLoop j = l

def ConnFunction.MayRun (k : ConnId) : ConnFunction → Prop
  | send | shutdown | forceClose | forceCloseWithDelay => True
  | connEstablished | connDestroyed | handleRead | handleWrite | handleClose | handleError
  | sendInLoop | shutdownInLoop | forceCloseInLoop => t = .loop (c.loopOf k)

def ServerFunction.MayRun : ServerFunction → Prop
  | removeConnection _ => True
  | start | newConnection | removeConnectionInLoop _ => t = .loop .base

def ClientFunction.MayRun (j : ℕ) : ClientFunction → Prop
  | connect | disconnect | stop => True
  | newConnection | removeConnection _ => t = .loop (c.clientLoop j)

def ConnectorFunction.MayRun (j : ℕ) : ConnectorFunction → Prop
  | start | stop => True
  | startInLoop | restart | connect | connecting | resetChannel | removeAndResetChannel | retry
  | handleWrite | handleError => t = .loop (c.clientLoop j)

def LoopFunction.MayRun (l : LoopId) : LoopFunction → Prop
  | ctor | updateChannel | removeChannel | handleRead => t = .loop l
  | runAt cb | runAfter cb | runEvery cb => cb.MayExpire c l
  | runInLoop | queueInLoop | cancel | quit => True

def TimerQueueFunction.MayRun (l : LoopId) : TimerQueueFunction → Prop
  | addTimer cb => cb.MayExpire c l
  | cancel => True
  | addTimerInLoop cb => t = .loop l ∧ cb.MayExpire c l
  | ctor | cancelInLoop | handleRead => t = .loop l

/-- The function may be called in the thread. -/
def Function.MayRun : Function → Prop
  | conn k f => f.MayRun c t k
  | server f => f.MayRun t
  | acceptor _ => t = .loop .base
  | client j f => f.MayRun c t j
  | connector j f => f.MayRun c t j
  | loop l f => f.MayRun c t l
  | timerQueue l f => f.MayRun c t l
  | user => True

end MayRun

section Discipline

variable {c : Setup} {t : Thread LoopId}

/-- What `MayRun` says, as the discipline of a program. -/
def may (c : Setup) (f : Function) (t : Thread LoopId) : Prop := f.MayRun c t

/-- The code is safe in a thread. -/
abbrev Safe (c : Setup) (t : Thread LoopId) (p : Code) : Prop := p.Safe c.owner (may c) t

@[simp]
theorem safe_runInLoop {l : LoopId} {f : Function} :
    Safe c t (runInLoop l f) ↔ may c f (.loop l) := by
  refine ⟨fun h => ?_, fun h => ⟨fun ht => ht ▸ h, fun _ => h⟩⟩
  by_cases ht : t = .loop l
  · exact ht ▸ h.1 ht
  · exact h.2 ht

@[simp]
theorem safe_update {ch : ChannelId} :
    Safe c t (update c ch) ↔ t = .loop (c.channelLoop ch) := by
  refine safe_block.trans (List.forall_mem_cons.trans ?_)
  exact (and_congr_right' List.forall_mem_singleton).trans (and_self_iff)

@[simp]
theorem safe_remove {ch : ChannelId} :
    Safe c t (remove c ch) ↔ t = .loop (c.channelLoop ch) := Iff.rfl

theorem may_of_mayExpire {l : LoopId} {cb : TimerCallback} (h : cb.MayExpire c l) :
    may c cb.function (.loop l) := by
  cases cb with
  | user | forceClose => exact trivial
  | connect j => exact congrArg Thread.loop h.symm

/-- A connection belongs to the loop of its channel, and `closeCb_` hands it over to the loop of its
server or client. -/
theorem may_closeCb (k : ConnId) : may c (closeCb k) (.loop (c.loopOf k)) := by
  cases k with
  | ofServer => exact trivial
  | ofClient => exact rfl

-- that a function is safe comes down to equations between threads; `-may` keeps `may` where a lemma
-- is stated for it
attribute [local simp] Affinity.Code.Safe Setup.channelLoop Setup.owner may Function.MayRun
  ConnFunction.MayRun ServerFunction.MayRun ClientFunction.MayRun ConnectorFunction.MayRun
  LoopFunction.MayRun TimerQueueFunction.MayRun TimerCallback.MayExpire
  ConnFunction.code ServerFunction.code AcceptorFunction.code ClientFunction.code
  ConnectorFunction.code LoopFunction.code TimerQueueFunction.code

theorem safe_conn (k : ConnId) (f : ConnFunction) (h : f.MayRun c t k) : Safe c t (f.code c k) := by
  cases f with
  | send | shutdown | forceClose | forceCloseWithDelay =>
    simp
  | handleClose =>
    obtain rfl := h
    simp [-may, may_closeCb]
  | _ =>
    obtain rfl := h
    simp

theorem safe_server (f : ServerFunction) (h : f.MayRun t) : Safe c t (f.code c) := by
  cases f with
  | removeConnection => exact safe_runInLoop.mpr rfl
  | start =>
    obtain rfl := h
    simp
  | newConnection =>
    obtain rfl := h
    simp [Setup.loopOf]
  | removeConnectionInLoop =>
    obtain rfl := h
    simp

theorem safe_acceptor (f : AcceptorFunction) : Safe c (.loop .base) (f.code c) := by
  cases f with
  | listen | handleRead =>
    simp

theorem safe_client (j : ℕ) (f : ClientFunction) (h : f.MayRun c t j) :
    Safe c t (f.code c j) := by
  cases f with
  | connect | disconnect | stop =>
    simp
  | newConnection | removeConnection =>
    obtain rfl := h
    simp [Setup.loopOf]

theorem safe_connector (j : ℕ) (f : ConnectorFunction) (h : f.MayRun c t j) :
    Safe c t (f.code c j) := by
  cases f with
  | start | stop =>
    simp
  | _ =>
    obtain rfl := h
    simp

theorem safe_loop (l : LoopId) (f : LoopFunction) (h : f.MayRun c t l) :
    Safe c t (f.code c l) := by
  cases f with
  | runInLoop => exact safe_runInLoop.mpr trivial
  | queueInLoop | cancel | quit => exact trivial
  | runAt | runAfter | runEvery => exact h
  | ctor | updateChannel | removeChannel | handleRead =>
    obtain rfl := h
    simp

theorem safe_timerQueue (l : LoopId) (f : TimerQueueFunction) (h : f.MayRun c t l) :
    Safe c t (f.code c l) := by
  cases f with
  | addTimer => exact safe_runInLoop.mpr ⟨rfl, h⟩
  | cancel => exact safe_runInLoop.mpr rfl
  | addTimerInLoop cb =>
    obtain ⟨rfl, hcb⟩ := h
    simp [-may, may_of_mayExpire hcb]
  | ctor | cancelInLoop | handleRead =>
    obtain rfl := h
    simp

theorem safe_code (f : Function) (h : may c f t) : Safe c t (f.code c) := by
  cases f with
  | conn k f => exact safe_conn k f h
  | server f => exact safe_server f h
  | acceptor f =>
    obtain rfl : t = .loop .base := h
    exact safe_acceptor f
  | client j f => exact safe_client j f h
  | connector j f => exact safe_connector j f h
  | loop l f => exact safe_loop l f h
  | timerQueue l f => exact safe_timerQueue l f h
  | user => exact trivial

theorem may_of_isPublic {f : Function} (h : f.isPublic = true) : may c f t := by
  cases f with
  | conn k f => cases f <;> first | exact trivial | cases h
  | client j f => cases f <;> first | exact trivial | cases h
  | loop l f =>
    cases f with
    | runInLoop | queueInLoop | cancel | quit => exact trivial
    | runAt cb | runAfter cb | runEvery cb =>
      obtain rfl : cb = .user := of_decide_eq_true h
      exact trivial
    | _ => cases h
  | user | server | acceptor | connector | timerQueue => cases h

theorem may_of_handles {l : LoopId} {f : Function} (h : c.handles l f = true) :
    may c f (.loop l) := by
  cases f with
  | conn k f =>
    cases f with
    | handleRead | handleWrite | handleClose | handleError =>
      exact congrArg Thread.loop (of_decide_eq_true h).symm
    | _ => cases h
  | acceptor f =>
    cases f with
    | handleRead => exact congrArg Thread.loop (of_decide_eq_true h)
    | listen => cases h
  | connector j f =>
    cases f with
    | handleWrite | handleError => exact congrArg Thread.loop (of_decide_eq_true h).symm
    | _ => cases h
  | loop l f =>
    cases f with
    | handleRead => exact congrArg Thread.loop (of_decide_eq_true h).symm
    | _ => cases h
  | timerQueue l f =>
    cases f with
    | handleRead => exact congrArg Thread.loop (of_decide_eq_true h).symm
    | _ => cases h
  | user | server | client => cases h

/-- Every function of the library may do what it does in the threads in which it is called. -/
def discipline (c : Setup) : Affinity.Discipline (library c) where
  may := may c
  safe := fun f _ h => safe_code f h
  isPublic := fun _ h _ => may_of_isPublic h
  handles := fun _ _ h => may_of_handles h

/-- What the thread of a loop does first: it makes the loop, and then it is the user's program,
which starts the server in the thread of the base loop. -/
def main : LoopId → List Function
  | .base => [.loop .base .ctor, .user, .server .start, .user]
  | .io i => [.loop (.io i) .ctor, .user]

theorem may_main (l : LoopId) : ∀ f ∈ main l, may c f (.loop l) := by
  cases l with
  | base => simp [main]
  | io i => simp [main]

/-- **One loop per thread.** Whatever the threads call and in whatever order they are run, no
assertion on the thread fails, and what belongs to a loop is changed only by its own thread. -/
theorem one_loop_per_thread (c : Setup) (ls : List (Affinity.Label LoopId Function)) :
    Machine.Along (library c).step (Machine.onResult (Machine.Succeeds fun s => s.Confined c.owner))
      (.start main) ls :=
  (discipline c).along_confined may_main ls

end Discipline

end OneLoopPerThread

end MuduoRebuild
