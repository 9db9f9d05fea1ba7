import MuduoRebuild.Fault
import MuduoRebuild.Foundations.Handover
import Mathlib.Algebra.Group.Nat.Defs
import Mathlib.Logic.Function.Basic

/-!
# `EventLoop`: polling, functors and wakeups

An `EventLoop` polls, calls the handlers of the active channels, and runs the functors that have
been queued. Any thread may queue a functor. The queue is protected by a mutex, and the loop
takes all of it at once; a thread that has queued a functor then writes to an eventfd, so that
`poll` returns. The loop's own thread does so only while functors are run.

`World` is a loop with everything it depends on: the eventfd, the place that the loop's thread
has reached, and the calls in progress. `World.step` takes one step of an arbitrary interleaving;
a call of `queueInLoop` or `quit` is two steps. What the handlers and the functors do with the
loop is not determined: their calls are steps of the loop's thread.

The variables that the threads share are taken to be sequentially consistent.
-/

namespace MuduoRebuild

namespace EventLoop

/-- A thread: that of the loop, or another. -/
inductive Thread where
  | loop
  | other (n : ℕ)
  deriving DecidableEq, Repr

/-- A functor in the queue, with the number and the thread of the call that put it there. -/
structure Pending (φ : Type) where
  functor : φ
  ticket : ℕ
  producer : Thread
  deriving DecidableEq, Repr

/-- A descriptor that `poll` watches. -/
inductive Source where
  | wakeupFd
  | other (fd : ℕ)
  deriving DecidableEq, Repr

/-- What a thread has still to do for its call. -/
inductive Call where
  | none
  /-- `queueInLoop`, after `push_back`. -/
  | queueInLoop (ticket : ℕ)
  /-- `quit`, after `quit_ = true`. -/
  | quit
  deriving DecidableEq, Repr

/-- What the loop's thread does next. -/
inductive Place (φ : Type) where
  /-- The thread is not in `loop()`. -/
  | outside
  /-- `quit_ = false` -/
  | clearQuit
  /-- `while (!quit_)` -/
  | test
  /-- `poller_->poll`, or it is blocked there -/
  | poll
  /-- The handlers of the active channels that are left; one may be running. -/
  | handlers (running : Option Source) (todo : List Source)
  /-- The critical section of `doPendingFunctors`. -/
  | swap
  /-- The functors of the batch that are left; one may be running. -/
  | functors (running : Option (Pending φ)) (todo : List (Pending φ))
  deriving DecidableEq, Repr

/-- What has happened to a loop, for stating properties of runs. -/
inductive Event (φ : Type) where
  /-- The queue of functors has changed, or a functor has been started. -/
  | handover (e : Handover.Event (Pending φ))
  /-- `quit_ = true` has been executed in `quit`. -/
  | quit
  /-- `quit` has returned. -/
  | quitReturned
  /-- `loop()` has left its `while` loop. -/
  | left
  deriving DecidableEq, Repr

def Event.handover? {φ : Type} : Event φ → Option (Handover.Event (Pending φ))
  | .handover e => some e
  | _ => none

end EventLoop

/-- The data members of an `EventLoop` that threads share. -/
structure EventLoop (φ : Type) where
  looping : Bool
  quit : Bool
  callingPendingFunctors : Bool
  pendingFunctors : List (EventLoop.Pending φ)

namespace EventLoop

/-- A loop and its surroundings. -/
structure World (φ : Type) extends EventLoop φ where
  /-- The counter of the eventfd `wakeupFd_`. -/
  counter : ℕ
  place : Place φ
  calls : Thread → Call
  /-- The number of functors that have been queued. -/
  tickets : ℕ
  /-- That number when `loop()` was last entered. -/
  entry : ℕ
  log : List (Event φ)

namespace World

variable {φ : Type}

/-- The loop after its construction. -/
def init : World φ where
  looping := false
  quit := false
  callingPendingFunctors := false
  pendingFunctors := []
  counter := 0
  place := .outside
  calls := fun _ => .none
  tickets := 0
  entry := 0
  log := []

variable (w : World φ)

/-- The event is appended to the history. -/
def record (e : Event φ) : World φ := { w with log := w.log ++ [e] }

def setCall (t : Thread) (call : Call) : World φ :=
  { w with calls := Function.update w.calls t call }

/-- The greatest value of the counter of an eventfd. -/
def eventfdMax : ℕ := 2 ^ 64 - 2

/-- A `write` of 1 to the eventfd, which does not block and fails if the counter is full. -/
def wakeup : World φ := { w with counter := min (w.counter + 1) eventfdMax }

/-- A `read` of the eventfd, which fails if the counter is 0. -/
def handleRead : World φ := { w with counter := 0 }

/-! ### Calls -/

/-- `queueInLoop`, the critical section. -/
def pushBack (t : Thread) (f : φ) : World φ :=
  let pending : Pending φ := { functor := f, ticket := w.tickets, producer := t }
  let w' : World φ := { w with
    pendingFunctors := w.pendingFunctors ++ [pending]
    tickets := w.tickets + 1 }
  (w'.setCall t (.queueInLoop w.tickets)).record (.handover (.pushed pending))

/-- `queueInLoop`, after the critical section. -/
def finishQueueInLoop (t : Thread) : World φ :=
  let w' : World φ := w.setCall t .none
  if t ≠ .loop ∨ w.callingPendingFunctors = true then w'.wakeup else w'

/-- `runInLoop`: in the loop's thread the functor is called at once. -/
def runInLoop (t : Thread) (f : φ) : World φ :=
  match t with
  | .loop => w
  | .other _ => w.pushBack t f

/-- `quit`, the assignment. -/
def setQuit (t : Thread) : World φ :=
  let w' : World φ := { w with quit := true }
  (w'.setCall t .quit).record .quit

/-- `quit`, after the assignment. -/
def finishQuit (t : Thread) : World φ :=
  let w' : World φ := (w.setCall t .none).record .quitReturned
  if t ≠ .loop then w'.wakeup else w'

/-- The rest of a call. -/
def finishCall (t : Thread) : World φ :=
  match w.calls t with
  | .none => w
  | .queueInLoop _ => w.finishQueueInLoop t
  | .quit => w.finishQuit t

/-! ### The loop -/

/-- `loop`, up to `looping_ = true`. -/
def loop : Except Fault (World φ) := do
  assertThat (w.looping = false)
  return { w with looping := true, place := .clearQuit, entry := w.tickets }

/-- The handler of an active channel is called. -/
def handleEvent (s : Source) (todo : List Source) : World φ :=
  let w' : World φ := { w with place := .handlers (some s) todo }
  match s with
  | .wakeupFd => w'.handleRead
  | .other _ => w'

/-- `functors.swap(pendingFunctors_)`. -/
def swap : World φ :=
  let w' : World φ := { w with
    pendingFunctors := []
    place := .functors none w.pendingFunctors }
  w'.record (.handover .swapped)

/-- `func()`. -/
def runFunctor (f : Pending φ) (todo : List (Pending φ)) : World φ :=
  let w' : World φ := { w with place := .functors (some f) todo }
  w'.record (.handover (.started f))

/-- `looping_ = false`, after the `while` loop. -/
def leave : World φ :=
  let w' : World φ := { w with looping := false, place := .outside }
  w'.record .left

/-- The next step of `loop()` and of `doPendingFunctors`; `active` is what `poll` returns. -/
def next (active : List Source) : World φ :=
  match w.place with
  | .outside => w
  | .clearQuit => { w with quit := false, place := .test }
  | .test => if w.quit then w.leave else { w with place := .poll }
  | .poll => { w with place := .handlers none active }
  | .handlers _ (s :: todo) => w.handleEvent s todo
  | .handlers _ [] => { w with callingPendingFunctors := true, place := .swap }
  | .swap => w.swap
  | .functors _ (f :: todo) => w.runFunctor f todo
  | .functors _ [] => { w with callingPendingFunctors := false, place := .test }

/-! ### Steps -/

/-- A step of the loop's thread or of another. -/
inductive Label (φ : Type) where
  | queueInLoop (t : Thread) (f : φ)
  | runInLoop (t : Thread) (f : φ)
  | quit (t : Thread)
  | wakeup (t : Thread)
  | finishCall (t : Thread)
  | loop
  | next (active : List Source)
  deriving DecidableEq, Repr

/-- User code is running in the loop's thread: outside of `loop()`, in a handler or in a
functor. -/
def userRuns : Prop :=
  match w.place with
  | .outside | .handlers (some (.other _)) _ | .functors (some _) _ => True
  | .clearQuit | .test | .poll | .handlers .. | .swap | .functors .. => False

instance : Decidable w.userRuns :=
  match h : w.place with
  | .outside | .handlers (some (.other _)) _ | .functors (some _) _ =>
    .isTrue (by simp only [userRuns, h])
  | .clearQuit | .test | .poll | .handlers none _ | .handlers (some .wakeupFd) _ | .swap
  | .functors none _ => .isFalse (by simp only [userRuns, h, not_false_eq_true])

/-- A thread can begin a call. -/
def CanCall (t : Thread) : Prop := w.calls t = .none ∧ (t = .loop → w.userRuns)

instance (t : Thread) : Decidable (w.CanCall t) :=
  inferInstanceAs (Decidable (w.calls t = .none ∧ (t = .loop → w.userRuns)))

/-- The channels can be what `poll` returns, if it is `poll` that returns: the wakeup channel is
among them when the counter is positive. -/
def Reports (active : List Source) : Prop :=
  match w.place with
  | .poll => .wakeupFd ∈ active ↔ 0 < w.counter
  | _ => True

instance (active : List Source) : Decidable (w.Reports active) :=
  match h : w.place with
  | .poll => decidable_of_iff (.wakeupFd ∈ active ↔ 0 < w.counter) (by simp only [Reports, h])
  | .outside | .clearQuit | .test | .handlers .. | .swap | .functors .. =>
    .isTrue (by simp only [Reports, h])

/-- Whether a step can be taken. -/
def Enabled : Label φ → Prop
  | .queueInLoop t _ | .runInLoop t _ | .quit t | .wakeup t => w.CanCall t
  | .finishCall _ => True
  | .loop => w.CanCall .loop
  | .next active => w.calls .loop = .none ∧ w.Reports active

instance (l : Label φ) : Decidable (w.Enabled l) :=
  match l with
  | .queueInLoop t _ | .runInLoop t _ | .quit t | .wakeup t =>
    inferInstanceAs (Decidable (w.CanCall t))
  | .finishCall _ => inferInstanceAs (Decidable True)
  | .loop => inferInstanceAs (Decidable (w.CanCall .loop))
  | .next active => inferInstanceAs (Decidable (w.calls .loop = .none ∧ w.Reports active))

def act : Label φ → Except Fault (World φ)
  | .queueInLoop t f => .ok (w.pushBack t f)
  | .runInLoop t f => .ok (w.runInLoop t f)
  | .quit t => .ok (w.setQuit t)
  | .wakeup _ => .ok w.wakeup
  | .finishCall t => .ok (w.finishCall t)
  | .loop => w.loop
  | .next active => .ok (w.next active)

/-- One step; a step that cannot be taken now leaves everything as it is. -/
def step (l : Label φ) : Except Fault (World φ) :=
  if w.Enabled l then w.act l else .ok w

/-! ### What a step can do -/

/-- The effects of `loop()` and `doPendingFunctors`, each with what is known when it takes
place. -/
inductive Advance (w : World φ) (active : List Source) : World φ → Prop where
  | clearQuit (h : w.place = .clearQuit) : Advance w active { w with quit := false, place := .test }
  | leave (h : w.place = .test) (hquit : w.quit = true) : Advance w active w.leave
  | poll (h : w.place = .test) (hquit : w.quit = false) : Advance w active { w with place := .poll }
  | report (h : w.place = .poll) (hactive : w.Reports active) :
    Advance w active { w with place := .handlers none active }
  | handleEvent {running : Option Source} {s : Source} {todo : List Source}
    (h : w.place = .handlers running (s :: todo)) : Advance w active (w.handleEvent s todo)
  | endHandlers {running : Option Source} (h : w.place = .handlers running []) :
    Advance w active { w with callingPendingFunctors := true, place := .swap }
  | swap (h : w.place = .swap) : Advance w active w.swap
  | runFunctor {running : Option (Pending φ)} {f : Pending φ} {todo : List (Pending φ)}
    (h : w.place = .functors running (f :: todo)) : Advance w active (w.runFunctor f todo)
  | endFunctors {running : Option (Pending φ)} (h : w.place = .functors running []) :
    Advance w active { w with callingPendingFunctors := false, place := .test }

/-- The effects of the steps, each with what is known when it takes place. -/
inductive Move (w : World φ) : Label φ → World φ → Prop where
  | stay (l : Label φ) : Move w l w
  | queueInLoop {t : Thread} (f : φ) (h : w.CanCall t) :
    Move w (.queueInLoop t f) (w.pushBack t f)
  | runInLoop {n : ℕ} (f : φ) (h : w.CanCall (.other n)) :
    Move w (.runInLoop (.other n) f) (w.pushBack (.other n) f)
  | quit {t : Thread} (h : w.CanCall t) : Move w (.quit t) (w.setQuit t)
  | wakeup (t : Thread) : Move w (.wakeup t) w.wakeup
  | finishQueueInLoop {t : Thread} {ticket : ℕ} (h : w.calls t = .queueInLoop ticket) :
    Move w (.finishCall t) (w.finishQueueInLoop t)
  | finishQuit {t : Thread} (h : w.calls t = .quit) : Move w (.finishCall t) (w.finishQuit t)
  | loop (h : w.CanCall .loop) (hout : w.looping = false) :
    Move w .loop { w with looping := true, place := .clearQuit, entry := w.tickets }
  | next {active : List Source} {w' : World φ} (hidle : w.calls .loop = .none)
    (h : Advance w active w') : Move w (.next active) w'

variable {w} {w' : World φ} {l : Label φ}

theorem counter_wakeup_pos (w : World φ) : 0 < w.wakeup.counter :=
  Nat.lt_min.mpr ⟨Nat.succ_pos _, by decide⟩

theorem next_eq_self_or_advance {active : List Source} (hactive : w.Reports active) :
    w.next active = w ∨ Advance w active (w.next active) := by
  rw [next]
  split
  case h_1 => exact .inl rfl
  case h_2 h => exact .inr (.clearQuit h)
  case h_3 h =>
    split_ifs with hquit
    · exact .inr (.leave h hquit)
    · exact .inr (.poll h (Bool.eq_false_iff.mpr hquit))
  case h_4 h => exact .inr (.report h hactive)
  case h_5 h => exact .inr (.handleEvent h)
  case h_6 h => exact .inr (.endHandlers h)
  case h_7 h => exact .inr (.swap h)
  case h_8 h => exact .inr (.runFunctor h)
  case h_9 h => exact .inr (.endFunctors h)

theorem move_of_step (hok : w.step l = .ok w') : Move w l w' := by
  rw [step] at hok
  split_ifs at hok with henabled
  · cases l with
    | queueInLoop t f =>
      obtain rfl := Except.ok.inj hok
      exact .queueInLoop f henabled
    | runInLoop t f =>
      obtain rfl := Except.ok.inj hok
      cases t with
      | loop => exact .stay _
      | other n => exact .runInLoop f henabled
    | quit t =>
      obtain rfl := Except.ok.inj hok
      exact .quit henabled
    | wakeup t =>
      obtain rfl := Except.ok.inj hok
      exact .wakeup t
    | finishCall t =>
      obtain rfl := Except.ok.inj hok
      rw [finishCall]
      split
      · exact .stay _
      · next h => exact .finishQueueInLoop h
      · next h => exact .finishQuit h
    | loop =>
      obtain ⟨_, hout, hok⟩ := Fallible.bind_eq_ok.mp hok
      obtain rfl := Except.ok.inj hok
      exact .loop henabled (Fallible.check_eq_ok.mp hout)
    | next active =>
      obtain rfl := Except.ok.inj hok
      rcases next_eq_self_or_advance henabled.2 with hself | hadvance
      · rw [hself]
        exact .stay _
      · exact .next henabled.1 hadvance
  · obtain rfl := Except.ok.inj hok
    exact .stay _

end World

/-! ### The flags -/

/-- The value of `looping_` at this place. -/
def Place.looping {φ : Type} : Place φ → Bool
  | .outside => false
  | .clearQuit | .test | .poll | .handlers .. | .swap | .functors .. => true

/-- The value of `callingPendingFunctors_` at this place. -/
def Place.calling {φ : Type} : Place φ → Bool
  | .swap | .functors .. => true
  | .outside | .clearQuit | .test | .poll | .handlers .. => false

namespace World

variable {φ : Type} {w w' : World φ} {l : Label φ}

/-- The flags tell the place of the loop's thread, which makes calls only in user code. -/
structure Placed (w : World φ) : Prop where
  looping_eq : w.looping = w.place.looping
  calling_eq : w.callingPendingFunctors = w.place.calling
  calls_loop : w.calls .loop ≠ .none → w.userRuns

theorem placed_init : Placed (init : World φ) := ⟨rfl, rfl, fun h => absurd rfl h⟩

theorem Placed.place_eq_outside (h : Placed w) (hout : w.looping = false) :
    w.place = .outside := by
  have hlooping := h.looping_eq
  rw [hout] at hlooping
  cases hplace : w.place with
  | outside => rfl
  | _ =>
    rw [hplace] at hlooping
    cases hlooping

/-- A part of a call changes neither the flags nor the place. -/
theorem Placed.of_call (h : Placed w) {t : Thread} {call : Call}
    (hcall : t = .loop → call ≠ .none → w.userRuns) (hlooping : w'.looping = w.looping)
    (hcalling : w'.callingPendingFunctors = w.callingPendingFunctors)
    (hplace : w'.place = w.place) (hcalls : w'.calls = Function.update w.calls t call) :
    Placed w' := by
  refine ⟨?_, ?_, ?_⟩
  · rw [hlooping, hplace]
    exact h.looping_eq
  · rw [hcalling, hplace]
    exact h.calling_eq
  · rw [hcalls, userRuns, hplace]
    intro hne
    rw [Function.update_apply] at hne
    split_ifs at hne with ht
    · exact hcall ht.symm hne
    · exact h.calls_loop hne

/-- A step of the loop is not taken during a call, and sets the flags for its new place. -/
theorem placed_of_idle (hidle : w'.calls .loop = .none) (hlooping : w'.looping = w'.place.looping)
    (hcalling : w'.callingPendingFunctors = w'.place.calling) : Placed w' :=
  ⟨hlooping, hcalling, fun h => absurd hidle h⟩

theorem Placed.advance {active : List Source} (h : Placed w) (hidle : w.calls .loop = .none)
    (hadvance : Advance w active w') : Placed w' := by
  have hlooping := h.looping_eq
  have hcalling := h.calling_eq
  cases hadvance with
  | leave hplace =>
    rw [hplace] at hcalling
    exact placed_of_idle hidle rfl hcalling
  | @handleEvent _ s todo hplace =>
    rw [hplace] at hlooping hcalling
    cases s with
    | wakeupFd => exact placed_of_idle hidle hlooping hcalling
    | other fd => exact placed_of_idle hidle hlooping hcalling
  | endHandlers hplace =>
    rw [hplace] at hlooping
    exact placed_of_idle hidle hlooping rfl
  | endFunctors hplace =>
    rw [hplace] at hlooping
    exact placed_of_idle hidle hlooping rfl
  | clearQuit hplace | poll hplace | report hplace | swap hplace | runFunctor hplace =>
    rw [hplace] at hlooping hcalling
    exact placed_of_idle hidle hlooping hcalling

theorem Placed.move (h : Placed w) (hmove : Move w l w') : Placed w' := by
  cases hmove with
  | stay => exact h
  | queueInLoop f hcan => exact h.of_call (fun ht _ => hcan.2 ht) rfl rfl rfl rfl
  | runInLoop f hcan => exact h.of_call (fun ht _ => hcan.2 ht) rfl rfl rfl rfl
  | quit hcan => exact h.of_call (fun ht _ => hcan.2 ht) rfl rfl rfl rfl
  | wakeup => exact { h with }
  | finishQueueInLoop =>
    rw [finishQueueInLoop]
    split_ifs
    · exact h.of_call (fun _ hne => absurd rfl hne) rfl rfl rfl rfl
    · exact h.of_call (fun _ hne => absurd rfl hne) rfl rfl rfl rfl
  | finishQuit =>
    rw [finishQuit]
    split_ifs
    · exact h.of_call (fun _ hne => absurd rfl hne) rfl rfl rfl rfl
    · exact h.of_call (fun _ hne => absurd rfl hne) rfl rfl rfl rfl
  | loop hcan hout =>
    have hcalling := h.calling_eq
    rw [h.place_eq_outside hout] at hcalling
    exact placed_of_idle hcan.1 rfl hcalling
  | next hidle hadvance => exact h.advance hidle hadvance

end World

end EventLoop

end MuduoRebuild
