import MuduoRebuild.Fault
import MuduoRebuild.Foundations.OrderedSet

/-!
# `TimerQueue`: timers, their callbacks and their owners

A `TimerQueue` keeps its timers in two sets, ordered by expiration and by address. When the
timerfd fires, `handleRead` moves the expired timers out of both, runs their callbacks one after
the other, and then `reset` schedules the periodic ones again and deletes the rest. Callbacks
may add and cancel timers; so may other threads, whose calls wait in the loop's queue of
functors.

`World` is the queue with everything it depends on: the live `Timer` objects, the next sequence
number, the waiting functors, and the round of callbacks in progress. `World.step` takes one
step of an arbitrary interleaving. A fault is a failed `assert`, or an access to a timer that has
been deleted (`Fault.outOfBounds`).

Times are in microseconds; `interval` is the number of them that `addTime` adds.
-/

namespace MuduoRebuild

/-- A `Timer *`; the null pointer is `0`. -/
abbrev Address := ℕ

/-- `UINTPTR_MAX`, an address that no object has. -/
def uintptrMax : ℕ := 2 ^ 64 - 1

/-- The data members of a `Timer`. -/
structure Timer where
  expiration : ℤ
  interval : ℤ
  repeats : Bool
  sequence : ℕ
  deriving DecidableEq, Repr

def Timer.restart (t : Timer) (now : ℤ) : Timer :=
  { t with expiration := if t.repeats then now + t.interval else 0 }

/-- `TimerId`. -/
structure TimerId where
  timer : Address
  sequence : ℕ
  deriving DecidableEq, Repr

namespace TimerQueue

/-- `TimerQueue::Entry`: expiration and timer, in lexicographic order. -/
abbrev Entry := ℤ ×ₗ Address

def Entry.time (e : Entry) : ℤ := (ofLex e).1

def Entry.timer (e : Entry) : Address := (ofLex e).2

/-- `TimerQueue::ActiveTimer`: timer and sequence number, in lexicographic order. -/
abbrev ActiveTimer := Address ×ₗ ℕ

def ActiveTimer.timer (p : ActiveTimer) : Address := (ofLex p).1

end TimerQueue

/-- `ActiveTimer timer(timerId.timer_, timerId.sequence_)`. -/
def TimerId.active (id : TimerId) : TimerQueue.ActiveTimer := toLex (id.timer, id.sequence)

/-- `struct timespec`. -/
structure Timespec where
  tvSec : ℤ
  tvNsec : ℤ
  deriving DecidableEq, Repr

/-- `howMuchTimeFromNow`, with the clock reading that it takes. -/
def howMuchTimeFromNow (clock when_ : ℤ) : Timespec :=
  let microSeconds := when_ - clock
  let microSeconds := if microSeconds < 100 then 100 else microSeconds
  { tvSec := microSeconds / 1000000, tvNsec := microSeconds % 1000000 * 1000 }

/-- What `timerfd_settime` was last called with, and when. -/
structure Arming where
  setAt : ℤ
  value : Timespec
  deriving DecidableEq, Repr

/-- The time at which the descriptor becomes readable. -/
def Arming.deadline (a : Arming) : ℤ := a.setAt + a.value.tvSec * 1000000 + a.value.tvNsec / 1000

/-- The data members of a `TimerQueue`. -/
structure TimerQueue where
  timers : OrderedSet TimerQueue.Entry
  activeTimers : OrderedSet TimerQueue.ActiveTimer
  cancelingTimers : OrderedSet TimerQueue.ActiveTimer
  callingExpiredTimers : Bool

namespace TimerQueue

/-- A functor that another thread has put into the loop's queue. -/
inductive Functor where
  | addTimerInLoop (timer : Address)
  | cancelInLoop (id : TimerId)
  deriving DecidableEq, Repr

/-- A call of `handleRead` in progress: its local variables `now` and `expired`, and the entries
whose callbacks have not been started. -/
structure Round where
  now : ℤ
  expired : List Entry
  todo : List Entry

/-- What has happened to timers, for stating properties of runs. -/
inductive Event where
  | created (id : TimerId)
  | inserted (id : TimerId)
  | cancelled (id : TimerId)
  | started (id : TimerId)
  | deleted (id : TimerId)
  deriving DecidableEq, Repr

/-- A timer queue and its surroundings. -/
structure World extends TimerQueue where
  /-- The setting of the timerfd, if it is armed or readable. -/
  timerfd : Option Arming
  /-- The live `Timer` objects. -/
  heap : Address → Option Timer
  /-- The counter `Timer::seq_`. -/
  seq : ℕ
  pendingFunctors : List Functor
  round : Option Round
  log : List Event

namespace World

/-- The queue after its construction. -/
def init : World where
  timers := .empty
  activeTimers := .empty
  cancelingTimers := .empty
  callingExpiredTimers := false
  timerfd := none
  heap := fun _ => none
  seq := 0
  pendingFunctors := []
  round := none
  log := []

variable (w : World)

/-- Access to a timer through a pointer. -/
def deref (a : Address) : Except Fault Timer :=
  match w.heap a with
  | some t => .ok t
  | none => .error .outOfBounds

/-- The event is appended to the history. -/
def record (e : Event) : World := { w with log := w.log ++ [e] }

/-- `resetTimerfd(timerfd_, when)`. -/
def resetTimerfd (clock when_ : ℤ) : World :=
  { w with timerfd := some { setAt := clock, value := howMuchTimeFromNow clock when_ } }

/-- `readTimerfd`: a timerfd that has reached its deadline is read and so disarmed. -/
def readTimerfd (clock : ℤ) : World :=
  { w with timerfd := w.timerfd.filter fun a => clock < a.deadline }

/-- A timer is in both sets. -/
def link (a : Address) (t : Timer) : World :=
  let w' : World := { w with
    timers := w.timers.insert (toLex (t.expiration, a))
    activeTimers := w.activeTimers.insert (toLex (a, t.sequence)) }
  w'.record (.inserted ⟨a, t.sequence⟩)

/-- A timer's memory is free. -/
def free (a : Address) (t : Timer) : World :=
  let w' : World := { w with heap := Function.update w.heap a none }
  w'.record (.deleted ⟨a, t.sequence⟩)

/-- `insert`; the second component is `earliestChanged`. -/
def insert (a : Address) : Except Fault (World × Bool) := do
  let t ← w.deref a
  let earliestChanged := match w.timers.begin? with
    | none => true
    | some e => t.expiration < e.time
  let entry : Entry := toLex (t.expiration, a)
  assertThat (entry ∉ w.timers)
  let active : ActiveTimer := toLex (a, t.sequence)
  assertThat (active ∉ w.activeTimers)
  return (w.link a t, earliestChanged)

def addTimerInLoop (clock : ℤ) (a : Address) : Except Fault World := do
  let (w, earliestChanged) ← w.insert a
  if earliestChanged then
    let t ← w.deref a
    return w.resetTimerfd clock t.expiration
  else
    return w

/-- `delete` of a `Timer *`. -/
def deleteTimer (a : Address) : Except Fault World := do
  let t ← w.deref a
  return w.free a t

def cancelInLoop (id : TimerId) : Except Fault World := do
  let w := w.record (.cancelled id)
  let timer := id.active
  if timer ∈ w.activeTimers then
    let t ← w.deref id.timer
    let removing : Entry := toLex (t.expiration, id.timer)
    assertThat (removing ∈ w.timers)
    let w ← deleteTimer { w with timers := w.timers.erase removing } id.timer
    let w : World := { w with activeTimers := w.activeTimers.erase timer }
    assertThat (w.timers.size = w.activeTimers.size)
    return w
  else
    let w : World := if w.callingExpiredTimers then
      { w with cancelingTimers := w.cancelingTimers.insert timer } else w
    assertThat (w.timers.size = w.activeTimers.size)
    return w

/-- The loop of `getExpired` over `expired`, which takes the timers out of `activeTimers_`. -/
def eraseActive : List Entry → OrderedSet ActiveTimer → Except Fault (OrderedSet ActiveTimer)
  | [], active => .ok active
  | e :: expired, active => do
    let t ← w.deref e.timer
    let timer : ActiveTimer := toLex (e.timer, t.sequence)
    assertThat (timer ∈ active)
    eraseActive expired (active.erase timer)

def getExpired (now : ℤ) : Except Fault (List Entry × World) := do
  let sentry : Entry := toLex (now, uintptrMax)
  let last := (w.timers.above sentry).begin?
  assertThat (last.all (now < ·.time))
  let expired := (w.timers.below sentry).toList
  let timers := w.timers.above sentry
  let activeTimers ← w.eraseActive expired w.activeTimers
  assertThat (timers.size = activeTimers.size)
  return (expired, { w with timers, activeTimers })

/-- `handleRead`, up to the first callback. -/
def handleRead (now clock : ℤ) : Except Fault World := do
  let (expired, w) ← (w.readTimerfd clock).getExpired now
  return { w with
    cancelingTimers := .empty
    callingExpiredTimers := true
    round := some { now, expired, todo := expired } }

/-- One pass of the loop in `handleRead`: `it.second->run()`. -/
def runNext : Except Fault World :=
  match w.round with
  | some { now, expired, todo := e :: todo } => do
    let t ← w.deref e.timer
    let w' : World := { w with round := some { now, expired, todo } }
    return w'.record (.started ⟨e.timer, t.sequence⟩)
  | _ => .ok w

/-- One pass of the loop in `reset`. -/
def resetTimer (now : ℤ) (e : Entry) : Except Fault World := do
  let t ← w.deref e.timer
  let timer : ActiveTimer := toLex (e.timer, t.sequence)
  if t.repeats ∧ timer ∉ w.cancelingTimers then
    let (w, _) ← insert { w with heap := Function.update w.heap e.timer (some (t.restart now)) }
      e.timer
    return w
  else
    w.deleteTimer e.timer

/-- The loop in `reset`. -/
def resetTimers (now : ℤ) : List Entry → World → Except Fault World
  | [], w => .ok w
  | e :: expired, w => do
    let w ← w.resetTimer now e
    resetTimers now expired w

def reset (clock now : ℤ) (expired : List Entry) : Except Fault World := do
  let w ← resetTimers now expired w
  match w.timers.begin? with
  | some e =>
    let t ← w.deref e.timer
    return if 0 < t.expiration then w.resetTimerfd clock t.expiration else w
  | none => return w

/-- `handleRead`, after the last callback. -/
def finish (clock : ℤ) : Except Fault World :=
  match w.round with
  | some { now, expired, todo := [] } =>
    reset { w with callingExpiredTimers := false, round := none } clock now expired
  | _ => .ok w

/-! ### Steps -/

/-- A step of the loop thread or of another thread. The allocator chooses the address of a new
timer, and each step is given the clock readings that it takes. -/
inductive Label where
  | addTimer (inLoop : Bool) (a : Address) (when_ interval : ℤ) (repeats : Bool) (clock : ℤ)
  | cancel (inLoop : Bool) (id : TimerId)
  | runFunctor (clock : ℤ)
  | handleRead (now clock : ℤ)
  | runNext
  | finish (clock : ℤ)

/-- User code is running in the loop thread: an event handler or a functor, or the callback of
a timer, once `handleRead` has started one. -/
def userRuns : Prop := ∀ r ∈ w.round, r.todo.length < r.expired.length

instance : Decidable w.userRuns :=
  inferInstanceAs (Decidable (∀ r ∈ w.round, r.todo.length < r.expired.length))

/-- Whether a step can be taken. -/
def Enabled : Label → Prop
  | .addTimer inLoop a .. =>
    (w.heap a = none ∧ 0 < a ∧ a < uintptrMax) ∧ (inLoop = true → w.userRuns)
  | .cancel inLoop _ => inLoop = true → w.userRuns
  | .runFunctor _ | .handleRead .. => w.round = none
  | .runNext | .finish _ => True

instance (l : Label) : Decidable (w.Enabled l) :=
  match l with
  | .addTimer inLoop a .. => inferInstanceAs
      (Decidable ((w.heap a = none ∧ 0 < a ∧ a < uintptrMax) ∧ (inLoop = true → w.userRuns)))
  | .cancel inLoop _ => inferInstanceAs (Decidable (inLoop = true → w.userRuns))
  | .runFunctor _ => decidable_of_iff _ Option.isNone_iff_eq_none
  | .handleRead .. => decidable_of_iff _ Option.isNone_iff_eq_none
  | .runNext | .finish _ => inferInstanceAs (Decidable True)

/-- `new Timer(when, cb, interval)`. -/
def newTimer (a : Address) (when_ interval : ℤ) (repeats : Bool) : World :=
  let t : Timer := { expiration := when_, interval, repeats, sequence := w.seq }
  let w' : World := { w with heap := Function.update w.heap a (some t), seq := w.seq + 1 }
  w'.record (.created ⟨a, w.seq⟩)

/-- `queueInLoop`. -/
def queueInLoop (f : Functor) : World := { w with pendingFunctors := w.pendingFunctors ++ [f] }

/-- A functor is run in the loop thread. -/
def call (clock : ℤ) : Functor → Except Fault World
  | .addTimerInLoop a => w.addTimerInLoop clock a
  | .cancelInLoop id => w.cancelInLoop id

/-- `runInLoop`: at once in the loop thread, through the queue in any other. -/
def runInLoop (inLoop : Bool) (clock : ℤ) (f : Functor) : Except Fault World :=
  if inLoop then w.call clock f else .ok (w.queueInLoop f)

def act : Label → Except Fault World
  | .addTimer inLoop a when_ interval repeats clock =>
    (w.newTimer a when_ interval repeats).runInLoop inLoop clock (.addTimerInLoop a)
  | .cancel inLoop id => w.runInLoop inLoop 0 (.cancelInLoop id)
  | .runFunctor clock =>
    match w.pendingFunctors with
    | f :: fs => call { w with pendingFunctors := fs } clock f
    | [] => .ok w
  | .handleRead now clock => w.handleRead now clock
  | .runNext => w.runNext
  | .finish clock => w.finish clock

/-- One step; a step that cannot be taken now leaves everything as it is. -/
def step (l : Label) : Except Fault World :=
  if w.Enabled l then w.act l else .ok w

end World

end TimerQueue

end MuduoRebuild
