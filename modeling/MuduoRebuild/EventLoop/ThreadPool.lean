import Mathlib.Algebra.BigOperators.Intervals
import MuduoRebuild.EventLoop.EventLoopThread
import MuduoRebuild.Foundations.Drain

/-!
# `EventLoopThreadPool`: starting the workers

`start` makes the threads of the pool one after the other, and waits for each until it has
published the address of its loop. The worker stores the address and notifies with the mutex locked;
`startLoop` tests it once without the mutex, and then again with it, before each wait. Here every
statement that locks, unlocks, waits or notifies is a step of its own, for the creating thread and
all the workers.

`start_completes` says that no wakeup is lost and nobody waits for ever. `refines_startLoop`
connects this with `EventLoop/EventLoopThread.lean`, where the handshake is a single step.
-/

namespace MuduoRebuild

namespace EventLoopThreadPool

open Fallible

/-- What a worker does next in `threadFunc`. -/
inductive Stage where
  | notStarted
  /-- `EventLoop loop;` -/
  | construct
  /-- `std::lock_guard<std::mutex> lk(mutex_);` -/
  | lock
  /-- `loop_ = &loop;` -/
  | publish
  /-- `cond_.notify_one();` -/
  | notify
  /-- The end of the block. -/
  | unlock
  /-- `loop.loop();` -/
  | callLoop
  | inLoop
  deriving DecidableEq, Repr

/-- What the creating thread does next, in `start` or in the `startLoop` that it calls. -/
inductive Place where
  /-- `assert(!started_)`, `started_ = true`. -/
  | start
  /-- `i < numThreads_` -/
  | test
  /-- `new EventLoopThread()`, and `thread_.start()`. -/
  | startThread
  /-- `if (loop_ == nullptr)` -/
  | testLoop
  /-- The mutex is locked for the first time, or again after a wakeup. -/
  | lock
  /-- The predicate of `cond_.wait`. -/
  | testPredicate
  /-- It is blocked in `cond_.wait`. -/
  | wait
  /-- The end of the block. -/
  | unlock
  /-- `return loop_`, and `loops_.push_back` with what it returns. -/
  | pushBack
  | returned
  deriving DecidableEq, Repr

/-- Who has locked a mutex. -/
inductive Holder where
  | creator
  | worker
  deriving DecidableEq, Repr

/-- A worker can go on: the mutex is free, if it is to be locked. -/
def Stage.canGo (mutex : Option Holder) : Stage → Bool
  | .lock => mutex.isNone
  | .notStarted | .inLoop => false
  | .construct | .publish | .notify | .unlock | .callLoop => true

/-- The creating thread can go on: the mutex is free, if it is to be locked, and nobody goes on from
a `wait` by himself. -/
def Place.canGo (mutex : Option Holder) : Place → Bool
  | .lock => mutex.isNone
  | .wait | .returned => false
  | .start | .test | .startThread | .testLoop | .testPredicate | .unlock | .pushBack => true

/-- The data members of an `EventLoopThread`, and where its thread is. The address of a loop is
given by the number of the thread in which the loop is. -/
structure Worker where
  stage : Stage
  /-- `loop_` -/
  loop : Option ℕ
  /-- Who has locked `mutex_`. -/
  mutex : Option Holder

/-- The constructor of `EventLoopThread`. -/
def Worker.init : Worker := ⟨.notStarted, none, none⟩

/-- The data members of a thread pool, where the creating thread is, and the threads. -/
structure World where
  started : Bool
  loops : List (Option ℕ)
  /-- The local variable `i` of `start`. -/
  i : ℕ
  place : Place
  worker : ℕ → Worker

namespace World

def init : World where
  started := false
  loops := []
  i := 0
  place := .start
  worker := fun _ => .init

/-- A step of the creating thread, of a worker, or of a `wait` that returns without a `notify`. -/
inductive Label where
  | creator
  | worker (j : ℕ)
  | spuriousWakeup
  deriving DecidableEq, Repr

variable (numThreads : ℤ) (w : World)

/-- The data members of one worker change. -/
def setWorker (j : ℕ) (k : Worker) : World := { w with worker := Function.update w.worker j k }

/-- A step can be taken. -/
def Enabled : Label → Prop
  | .creator => w.place.canGo (w.worker w.i).mutex = true
  | .worker j => (w.worker j).stage.canGo (w.worker j).mutex = true
  | .spuriousWakeup => w.place = .wait

instance (l : Label) : Decidable (w.Enabled l) :=
  match l with
  | .creator => inferInstanceAs (Decidable (_ = true))
  | .worker _ => inferInstanceAs (Decidable (_ = true))
  | .spuriousWakeup => inferInstanceAs (Decidable (_ = Place.wait))

/-- The next statement of `EventLoopThreadPool::start`, or of `EventLoopThread::startLoop`. `start`
is called in the thread of the base loop, where its `assertInLoopThread` has no effect. -/
def create : Except Fault World :=
  let k := w.worker w.i
  match w.place with
  | .start => do
    assertThat (w.started = false)
    return { w with started := true, place := .test }
  | .test => .ok { w with place := if (w.i : ℤ) < numThreads then .startThread else .returned }
  | .startThread => do
    assertThat (k.stage = .notStarted)
    return { w.setWorker w.i { k with stage := .construct } with place := .testLoop }
  | .testLoop => .ok { w with place := if k.loop = none then .lock else .pushBack }
  | .lock => .ok { w.setWorker w.i { k with mutex := some .creator } with place := .testPredicate }
  | .testPredicate =>
    if k.loop = none then .ok { w.setWorker w.i { k with mutex := none } with place := .wait }
    else .ok { w with place := .unlock }
  | .unlock => .ok { w.setWorker w.i { k with mutex := none } with place := .pushBack }
  | .pushBack => .ok { w with loops := w.loops ++ [k.loop], i := w.i + 1, place := .test }
  | .wait | .returned => .ok w

/-- `cond_.notify_one()`: the creating thread goes on if it waits for this worker. -/
def notify (j : ℕ) : World :=
  if j = w.i ∧ w.place = .wait then { w with place := .lock } else w

/-- The next statement of `EventLoopThread::threadFunc`. -/
def threadFunc (j : ℕ) : World :=
  let k := w.worker j
  match k.stage with
  | .construct => w.setWorker j { k with stage := .lock }
  | .lock => w.setWorker j { k with stage := .publish, mutex := some .worker }
  | .publish => w.setWorker j { k with stage := .notify, loop := some j }
  | .notify => (w.setWorker j { k with stage := .unlock }).notify j
  | .unlock => w.setWorker j { k with stage := .callLoop, mutex := none }
  | .callLoop => w.setWorker j { k with stage := .inLoop }
  | .notStarted | .inLoop => w

def act : Label → Except Fault World
  | .creator => w.create numThreads
  | .worker j => .ok (w.threadFunc j)
  | .spuriousWakeup => .ok { w with place := .lock }

/-- One step; a step that cannot be taken now leaves everything as it is. -/
def step (l : Label) : Except Fault World :=
  if w.Enabled l then w.act numThreads l else .ok w

/-! ### One handshake -/

/-- Where the creating thread is with a worker. -/
def placeOf (j : ℕ) : Place :=
  if j < w.i then .pushBack else if j = w.i then w.place else .test

end World

/-- The steps that the creating thread and a worker take in the handshake between them. -/
inductive Handshake (j : ℕ) : Place → Worker → Place → Worker → Prop where
  | startThread {loop mutex} :
    Handshake j .startThread ⟨.notStarted, loop, mutex⟩ .testLoop ⟨.construct, loop, mutex⟩
  | testLoop_none {stage mutex} :
    Handshake j .testLoop ⟨stage, none, mutex⟩ .lock ⟨stage, none, mutex⟩
  | testLoop_some {stage a mutex} :
    Handshake j .testLoop ⟨stage, some a, mutex⟩ .pushBack ⟨stage, some a, mutex⟩
  | creatorLocks {stage loop} :
    Handshake j .lock ⟨stage, loop, none⟩ .testPredicate ⟨stage, loop, some .creator⟩
  | waits {stage mutex} :
    Handshake j .testPredicate ⟨stage, none, mutex⟩ .wait ⟨stage, none, none⟩
  | goesOn {stage a mutex} :
    Handshake j .testPredicate ⟨stage, some a, mutex⟩ .unlock ⟨stage, some a, mutex⟩
  | creatorUnlocks {stage loop mutex} :
    Handshake j .unlock ⟨stage, loop, mutex⟩ .pushBack ⟨stage, loop, none⟩
  | construct {p loop mutex} :
    Handshake j p ⟨.construct, loop, mutex⟩ p ⟨.lock, loop, mutex⟩
  | workerLocks {p loop} :
    Handshake j p ⟨.lock, loop, none⟩ p ⟨.publish, loop, some .worker⟩
  | publish {p loop mutex} :
    Handshake j p ⟨.publish, loop, mutex⟩ p ⟨.notify, some j, mutex⟩
  | notify {p loop mutex} : Handshake j p ⟨.notify, loop, mutex⟩
      (if p = .wait then .lock else p) ⟨.unlock, loop, mutex⟩
  | workerUnlocks {p loop mutex} :
    Handshake j p ⟨.unlock, loop, mutex⟩ p ⟨.callLoop, loop, none⟩
  | callLoop {p loop mutex} :
    Handshake j p ⟨.callLoop, loop, mutex⟩ p ⟨.inLoop, loop, mutex⟩

/-- `loop_` has been stored. -/
def Stage.published : Stage → Bool
  | .notify | .unlock | .callLoop | .inLoop => true
  | .notStarted | .construct | .lock | .publish => false

/-- The worker has locked the mutex. -/
def Stage.locks : Stage → Bool
  | .publish | .notify | .unlock => true
  | .notStarted | .construct | .lock | .callLoop | .inLoop => false

/-- The worker is still to call `notify_one`. -/
def Stage.willNotify : Stage → Bool
  | .construct | .lock | .publish | .notify => true
  | .notStarted | .unlock | .callLoop | .inLoop => false

/-- The creating thread has locked the mutex. -/
def Place.locks : Place → Bool
  | .testPredicate | .unlock => true
  | .start | .test | .startThread | .testLoop | .lock | .wait | .pushBack | .returned => false

/-- The creating thread has not started the worker. -/
def Place.idle : Place → Bool
  | .start | .test | .startThread | .returned => true
  | .testLoop | .lock | .testPredicate | .wait | .unlock | .pushBack => false

/-- The creating thread is in the body of the loop of `start`. -/
def Place.inBody : Place → Bool
  | .startThread | .testLoop | .lock | .testPredicate | .wait | .unlock | .pushBack => true
  | .start | .test | .returned => false

/-- The values that `i` can have, if there are `n` workers. -/
def Place.InRange (i n : ℕ) : Place → Prop
  | .start => i = 0
  | .test => i ≤ n
  | .returned => i = n
  | .startThread | .testLoop | .lock | .testPredicate | .wait | .unlock | .pushBack => i < n

theorem Place.ne_start_of_inBody {p : Place} (hp : p.inBody = true) : p ≠ .start := by
  rintro rfl
  cases hp

theorem Place.inRange_iff_of_inBody {p : Place} {i n : ℕ} (hp : p.inBody = true) :
    p.InRange i n ↔ i < n := by
  cases p with
  | startThread | testLoop | lock | testPredicate | wait | unlock | pushBack => exact Iff.rfl
  | start | test | returned => cases hp

/-- What holds between the creating thread and a worker at any time. -/
structure Paired (j : ℕ) (p : Place) (k : Worker) : Prop where
  notStarted_iff : k.stage = .notStarted ↔ p.idle = true
  loop_eq : k.loop = if k.stage.published then some j else none
  worker_iff : k.mutex = some .worker ↔ k.stage.locks = true
  creator_iff : k.mutex = some .creator ↔ p.locks = true
  willNotify : p = .wait → k.stage.willNotify = true
  published : p = .unlock ∨ p = .pushBack → k.stage.published = true

theorem paired_init {j : ℕ} {p : Place} (hp : p.idle = true) : Paired j p .init where
  notStarted_iff := iff_of_true rfl hp
  loop_eq := rfl
  worker_iff := by decide
  creator_iff := by cases p <;> first | decide | cases hp
  willNotify := by rintro rfl; cases hp
  published := by rintro (rfl | rfl) <;> cases hp

variable {j : ℕ} {p p' : Place} {k k' : Worker}

/-- A worker that has been started and has not stored `loop_` is still to notify. -/
theorem Stage.willNotify_of_published_eq_false {s : Stage} (hs : s ≠ .notStarted)
    (hpublished : s.published = false) : s.willNotify = true := by
  cases s with
  | notStarted => exact absurd rfl hs
  | construct | lock | publish | notify => rfl
  | unlock | callLoop | inLoop => cases hpublished

theorem Paired.published_eq_true_iff (h : Paired j p k) :
    k.stage.published = true ↔ k.loop ≠ none := by
  rw [h.loop_eq]
  split_ifs with hpublished
  · exact iff_of_true hpublished (Option.some_ne_none j)
  · exact iff_of_false hpublished (not_not_intro rfl)

/-- The creating thread waits only while the worker is still to notify, which takes the mutex. -/
theorem Paired.waits {s : Stage} {mutex : Option Holder}
    (h : Paired j .testPredicate ⟨s, none, mutex⟩) : Paired j .wait ⟨s, none, none⟩ := by
  have hcreator : mutex = some .creator := h.creator_iff.mpr rfl
  have hworker : ¬s.locks = true := by
    rw [← h.worker_iff, hcreator]
    simp
  have hstarted : s ≠ .notStarted := fun hs => by cases h.notStarted_iff.mp hs
  have hpublished : s.published = false :=
    Bool.eq_false_iff.mpr fun hs => h.published_eq_true_iff.mp hs rfl
  exact {
    notStarted_iff := iff_of_false hstarted (by decide)
    loop_eq := h.loop_eq
    worker_iff := iff_of_false (by simp) hworker
    creator_iff := iff_of_false (by simp) (by decide)
    willNotify := fun _ => s.willNotify_of_published_eq_false hstarted hpublished
    published := by rintro (hp | hp) <;> cases hp }

/-- Every step of the handshake keeps the mutex exclusive, and no wakeup is lost. -/
theorem Paired.handshake (h : Paired j p k) (hstep : Handshake j p k p' k') : Paired j p' k' := by
  cases hstep with
  | waits => exact h.waits
  | _ =>
    obtain ⟨hstarted, hloop, hworker, hcreator, hnotify, hpublished⟩ := h
    constructor <;>
      grind [Stage.published, Stage.locks, Stage.willNotify, Place.locks, Place.idle]

theorem Place.locks_of_idle (hp : p.idle = true) : p.locks = false := by
  cases p with
  | start | test | startThread | returned => rfl
  | testLoop | lock | testPredicate | wait | unlock | pushBack => cases hp

/-- Before the worker is started, it does not matter where the creating thread is. -/
theorem Paired.of_idle (h : Paired j p k) (hp : p.idle = true) (hp' : p'.idle = true) :
    Paired j p' k where
  notStarted_iff := iff_of_true (h.notStarted_iff.mpr hp) hp'
  loop_eq := h.loop_eq
  worker_iff := h.worker_iff
  creator_iff := by
    rw [h.creator_iff, Place.locks_of_idle hp, Place.locks_of_idle hp']
  willNotify := by
    rintro rfl
    cases hp'
  published := by
    rintro (rfl | rfl) <;> cases hp'

/-- A worker that takes steps has been started. -/
theorem Paired.inBody (h : Paired j p k) (hs : k.stage ≠ .notStarted) : p.inBody = true := by
  cases p with
  | start | test | returned => exact absurd (h.notStarted_iff.mpr rfl) hs
  | startThread | testLoop | lock | testPredicate | wait | unlock | pushBack => rfl

theorem Handshake.inBody (hstep : Handshake j p k p' k') (h : Paired j p k) :
    p.inBody = true ∧ p'.inBody = true := by
  cases hstep with
  | startThread | testLoop_none | testLoop_some | creatorLocks | waits | goesOn | creatorUnlocks =>
    exact ⟨rfl, rfl⟩
  | construct | workerLocks | publish | workerUnlocks | callLoop =>
    exact and_self_iff.mpr (h.inBody (by simp))
  | notify =>
    refine ⟨h.inBody (by simp), ?_⟩
    split_ifs with hwait
    · rfl
    · exact h.inBody (by simp)

/-- A wakeup without a `notify` only makes the predicate be tested again. -/
theorem Paired.spuriousWakeup (h : Paired j .wait k) : Paired j .lock k where
  notStarted_iff := h.notStarted_iff
  loop_eq := h.loop_eq
  worker_iff := h.worker_iff
  creator_iff := h.creator_iff
  willNotify := by rintro ⟨⟩
  published := by rintro (hp | hp) <;> cases hp

/-- One of the two can go on, unless the worker is in its loop and the creating thread has done with
it. -/
theorem Paired.canGo_or (h : Paired j p k) (hp : p.idle = false) :
    k.stage.canGo k.mutex = true ∨ p.canGo k.mutex = true ∧ p ≠ .pushBack ∨
      p = .pushBack ∧ k.stage = .inLoop := by
  cases hstage : k.stage with
  | construct | publish | notify | unlock | callLoop => exact .inl rfl
  | notStarted =>
    rw [h.notStarted_iff.mp hstage] at hp
    cases hp
  | lock =>
    cases hmutex : k.mutex with
    | none => exact .inl rfl
    | some holder =>
      cases holder with
      | worker =>
        have hlocks := h.worker_iff.mp hmutex
        rw [hstage] at hlocks
        cases hlocks
      | creator =>
        -- the creating thread will unlock the mutex
        have hlocks := h.creator_iff.mp hmutex
        cases p with
        | testPredicate | unlock => exact .inr (.inl ⟨rfl, by decide⟩)
        | start | test | startThread | testLoop | lock | wait | pushBack | returned => cases hlocks
  | inLoop =>
    cases p with
    | testLoop | testPredicate | unlock => exact .inr (.inl ⟨rfl, by decide⟩)
    | pushBack => exact .inr (.inr ⟨rfl, rfl⟩)
    | start | test | startThread | returned => cases hp
    | wait =>
      have hnotify := h.willNotify rfl
      rw [hstage] at hnotify
      cases hnotify
    | lock =>
      cases hmutex : k.mutex with
      | none => exact .inr (.inl ⟨rfl, by decide⟩)
      | some holder =>
        cases holder with
        | worker =>
          have hlocks := h.worker_iff.mp hmutex
          rw [hstage] at hlocks
          cases hlocks
        | creator => cases h.creator_iff.mp hmutex

/-! ### The pool -/

namespace World

variable {numThreads : ℤ} {w w' : World} {l : Label}

/-- The handshake with one worker goes on. -/
structure Proceeds (j : ℕ) (w w' : World) : Prop where
  started_eq : w'.started = w.started
  loops_eq : w'.loops = w.loops
  i_eq : w'.i = w.i
  handshake : Handshake j (w.placeOf j) (w.worker j) (w'.placeOf j) (w'.worker j)
  placeOf_eq : ∀ m ≠ j, w'.placeOf m = w.placeOf m
  worker_eq : ∀ m ≠ j, w'.worker m = w.worker m

/-- The effects of the steps. -/
inductive Move (numThreads : ℤ) (w : World) : Label → World → Prop where
  | stay {l : Label} (h : ¬w.Enabled l) : Move numThreads w l w
  | start (h : w.place = .start) (hstarted : w.started = false) :
    Move numThreads w .creator { w with started := true, place := .test }
  | startThread (h : w.place = .test) (hlt : (w.i : ℤ) < numThreads) :
    Move numThreads w .creator { w with place := .startThread }
  | returns (h : w.place = .test) (hle : numThreads ≤ w.i) :
    Move numThreads w .creator { w with place := .returned }
  | pushBack (h : w.place = .pushBack) : Move numThreads w .creator
      { w with loops := w.loops ++ [(w.worker w.i).loop], i := w.i + 1, place := .test }
  | spuriousWakeup (h : w.place = .wait) :
    Move numThreads w .spuriousWakeup { w with place := .lock }
  | proceed {l : Label} {j : ℕ} {w' : World} (h : Proceeds j w w') : Move numThreads w l w'

@[simp]
theorem placeOf_i (w : World) : w.placeOf w.i = w.place := by
  rw [placeOf, if_neg (Nat.lt_irrefl _), if_pos rfl]

/-- Elsewhere only the number of the worker counts. -/
theorem placeOf_of_ne {m : ℕ} (hm : m ≠ w.i) (hi : w'.i = w.i) : w'.placeOf m = w.placeOf m := by
  rw [placeOf, placeOf, hi, if_neg hm, if_neg hm]

/-- The creating thread takes a step with the worker that it is starting. -/
theorem proceeds_create (h : Handshake w.i w.place (w.worker w.i) p k) :
    Proceeds w.i w { w.setWorker w.i k with place := p } where
  started_eq := rfl
  loops_eq := rfl
  i_eq := rfl
  handshake := by
    have hplace : World.placeOf { w.setWorker w.i k with place := p } w.i = p := placeOf_i _
    have hworker : (w.setWorker w.i k).worker w.i = k := Function.update_self ..
    rw [placeOf_i, hplace]
    exact hworker.symm ▸ h
  placeOf_eq _ hm := placeOf_of_ne hm rfl
  worker_eq _ hm := Function.update_of_ne hm ..

/-- It only looks at the worker. -/
theorem proceeds_place (h : Handshake w.i w.place (w.worker w.i) p (w.worker w.i)) :
    Proceeds w.i w { w with place := p } := by
  have hproceeds := proceeds_create h
  rwa [setWorker, Function.update_eq_self] at hproceeds

/-- A worker takes a step by itself. -/
theorem proceeds_setWorker (hk : w.worker j = k)
    (h : Handshake j (w.placeOf j) k (w.placeOf j) k') : Proceeds j w (w.setWorker j k') where
  started_eq := rfl
  loops_eq := rfl
  i_eq := rfl
  handshake := by
    have hworker : (w.setWorker j k').worker j = k' := Function.update_self ..
    rw [hk, hworker]
    exact h
  placeOf_eq _ _ := rfl
  worker_eq _ hm := Function.update_of_ne hm ..

theorem proceeds_notify {loop : Option ℕ} {mutex : Option Holder}
    (hk : w.worker j = ⟨.notify, loop, mutex⟩) :
    Proceeds j w ((w.setWorker j ⟨.unlock, loop, mutex⟩).notify j) := by
  have hstep : Handshake j (w.placeOf j) ⟨.notify, loop, mutex⟩
      (if w.placeOf j = .wait then .lock else w.placeOf j) ⟨.unlock, loop, mutex⟩ := .notify
  rw [notify]
  split_ifs with hwaits
  · change j = w.i ∧ w.place = .wait at hwaits
    obtain ⟨rfl, hplace⟩ := hwaits
    rw [placeOf_i, if_pos hplace, ← hk] at hstep
    exact proceeds_create hstep
  · have hplace : w.placeOf j ≠ .wait := by
      intro hwait
      rcases Decidable.eq_or_ne j w.i with rfl | hj
      · exact hwaits ⟨rfl, (placeOf_i w).symm.trans hwait⟩
      · rw [placeOf, if_neg hj] at hwait
        split_ifs at hwait
    rw [if_neg hplace] at hstep
    exact proceeds_setWorker hk hstep

theorem move_of_create (henabled : w.Enabled .creator) (hok : w.create numThreads = .ok w') :
    Move numThreads w .creator w' := by
  rw [Enabled] at henabled
  rw [create] at hok
  rcases hk : w.worker w.i with ⟨stage, loop, mutex⟩
  rw [hk] at henabled hok
  cases hplace : w.place with
  | start =>
    rw [hplace] at hok
    obtain ⟨_, hstarted, hok⟩ := bind_eq_ok.mp hok
    obtain rfl := Except.ok.inj hok
    exact .start hplace (check_eq_ok.mp hstarted)
  | test =>
    rw [hplace] at hok
    obtain rfl := Except.ok.inj hok
    split_ifs with hlt
    · exact .startThread hplace hlt
    · exact .returns hplace (not_lt.mp hlt)
  | startThread =>
    rw [hplace] at hok
    obtain ⟨_, hstage, hok⟩ := bind_eq_ok.mp hok
    obtain rfl : stage = .notStarted := check_eq_ok.mp hstage
    obtain rfl := Except.ok.inj hok
    refine .proceed (proceeds_create ?_)
    rw [hplace, hk]
    exact .startThread
  | testLoop =>
    rw [hplace] at hok
    obtain rfl := Except.ok.inj hok
    refine .proceed (proceeds_place ?_)
    rw [hplace, hk]
    cases loop with
    | none => exact .testLoop_none
    | some a => exact .testLoop_some
  | lock =>
    rw [hplace] at hok henabled
    obtain rfl : mutex = none := Option.isNone_iff_eq_none.mp henabled
    obtain rfl := Except.ok.inj hok
    refine .proceed (proceeds_create ?_)
    rw [hplace, hk]
    exact .creatorLocks
  | testPredicate =>
    rw [hplace] at hok
    cases loop with
    | none =>
      obtain rfl := Except.ok.inj hok
      refine .proceed (proceeds_create ?_)
      rw [hplace, hk]
      exact .waits
    | some a =>
      obtain rfl := Except.ok.inj hok
      refine .proceed (proceeds_place ?_)
      rw [hplace, hk]
      exact .goesOn
  | unlock =>
    rw [hplace] at hok
    obtain rfl := Except.ok.inj hok
    refine .proceed (proceeds_create ?_)
    rw [hplace, hk]
    exact .creatorUnlocks
  | pushBack =>
    rw [hplace, ← hk] at hok
    obtain rfl := Except.ok.inj hok
    exact .pushBack hplace
  | wait | returned =>
    rw [hplace] at henabled
    cases henabled

theorem proceeds_threadFunc (henabled : w.Enabled (.worker j)) : Proceeds j w (w.threadFunc j) := by
  rw [Enabled] at henabled
  rcases hk : w.worker j with ⟨stage, loop, mutex⟩
  rw [hk] at henabled
  rw [threadFunc, hk]
  cases stage with
  | notStarted | inLoop => cases henabled
  | construct => exact proceeds_setWorker hk .construct
  | lock =>
    obtain rfl : mutex = none := Option.isNone_iff_eq_none.mp henabled
    exact proceeds_setWorker hk .workerLocks
  | publish => exact proceeds_setWorker hk .publish
  | notify => exact proceeds_notify hk
  | unlock => exact proceeds_setWorker hk .workerUnlocks
  | callLoop => exact proceeds_setWorker hk .callLoop

theorem move_of_step (hok : w.step numThreads l = .ok w') : Move numThreads w l w' := by
  rw [step] at hok
  split_ifs at hok with henabled
  · cases l with
    | creator => exact move_of_create henabled hok
    | worker j =>
      obtain rfl := Except.ok.inj hok
      exact .proceed (proceeds_threadFunc henabled)
    | spuriousWakeup =>
      obtain rfl := Except.ok.inj hok
      exact .spuriousWakeup henabled
  · obtain rfl := Except.ok.inj hok
    exact .stay henabled

/-! ### The invariant -/

/-- What holds between any two steps of `start` with `n` workers. -/
structure Starting (n : ℕ) (w : World) : Prop where
  paired : ∀ j, Paired j (w.placeOf j) (w.worker j)
  loops_eq : w.loops = (List.range w.i).map some
  started_iff : w.started = true ↔ w.place ≠ .start
  inRange : w.place.InRange w.i n

variable {n : ℕ}

theorem starting_init (n : ℕ) : Starting n init where
  paired j := by
    refine paired_init ?_
    have hj : ¬j < init.i := Nat.not_lt_zero j
    rw [placeOf, if_neg hj]
    split_ifs <;> rfl
  loops_eq := rfl
  started_iff := by decide
  inRange := rfl

/-- The creating thread alone goes on. -/
theorem Starting.place (h : Starting n w) {started : Bool} (hp : Paired w.i p (w.worker w.i))
    (hstarted : started = true ↔ p ≠ .start) (hrange : p.InRange w.i n) :
    Starting n { w with started, place := p } where
  paired m := by
    rcases Decidable.eq_or_ne m w.i with rfl | hm
    · have hplace : World.placeOf { w with started, place := p } w.i = p := placeOf_i _
      rw [hplace]
      exact hp
    · have hplace : World.placeOf { w with started, place := p } m = w.placeOf m :=
        placeOf_of_ne hm rfl
      rw [hplace]
      exact h.paired m
  loops_eq := h.loops_eq
  started_iff := hstarted
  inRange := hrange

theorem Starting.paired_i (h : Starting n w) : Paired w.i w.place (w.worker w.i) := by
  rw [← placeOf_i w]
  exact h.paired w.i

/-- The creating thread is in the body of the loop, if it takes part. -/
theorem Proceeds.inBody (hstep : Proceeds j w w') (h : Starting n w) :
    w'.place = w.place ∨ w.place.inBody = true ∧ w'.place.inBody = true := by
  rw [← placeOf_i w, ← placeOf_i w', hstep.i_eq]
  rcases Decidable.eq_or_ne w.i j with rfl | hj
  · exact .inr (hstep.handshake.inBody (h.paired w.i))
  · exact .inl (hstep.placeOf_eq w.i hj)

theorem Starting.proceeds (h : Starting n w) (hstep : Proceeds j w w') : Starting n w' := by
  have hbody := hstep.inBody h
  refine ⟨fun m => ?_, ?_, ?_, ?_⟩
  · rcases Decidable.eq_or_ne m j with rfl | hm
    · exact (h.paired m).handshake hstep.handshake
    · rw [hstep.placeOf_eq m hm, hstep.worker_eq m hm]
      exact h.paired m
  · rw [hstep.loops_eq, hstep.i_eq, h.loops_eq]
  · rw [hstep.started_eq, h.started_iff]
    rcases hbody with hplace | ⟨hbody, hbody'⟩
    · rw [hplace]
    · exact iff_of_true (Place.ne_start_of_inBody hbody) (Place.ne_start_of_inBody hbody')
  · rw [hstep.i_eq]
    rcases hbody with hplace | ⟨hbody, hbody'⟩
    · rw [hplace]
      exact h.inRange
    · exact (Place.inRange_iff_of_inBody hbody').mpr
        ((Place.inRange_iff_of_inBody hbody).mp h.inRange)

/-- The worker whose loop has been stored is the one before the next. -/
theorem placeOf_pushBack (hplace : w.place = .pushBack) (loops : List (Option ℕ)) (m : ℕ) :
    World.placeOf { w with loops, i := w.i + 1, place := .test } m = w.placeOf m := by
  rw [placeOf, placeOf, hplace]
  dsimp only
  split_ifs <;> first | rfl | omega

theorem Starting.pushBack (h : Starting n w) (hplace : w.place = .pushBack) : Starting n
    { w with loops := w.loops ++ [(w.worker w.i).loop], i := w.i + 1, place := .test } where
  paired m := by
    rw [placeOf_pushBack hplace]
    exact h.paired m
  loops_eq := by
    have hpaired := h.paired_i
    have hloop : (w.worker w.i).loop = some w.i := by
      rw [hpaired.loop_eq, if_pos (hpaired.published (.inr hplace))]
    change w.loops ++ [(w.worker w.i).loop] = _
    rw [h.loops_eq, hloop, List.range_succ, List.map_append]
    rfl
  started_iff := iff_of_true (h.started_iff.mpr (by simp [hplace])) (by simp)
  inRange := by
    have hrange := h.inRange
    rw [hplace] at hrange
    exact hrange

theorem Starting.move (h : Starting numThreads.toNat w) (hmove : Move numThreads w l w') :
    Starting numThreads.toNat w' := by
  have hpaired := h.paired_i
  have hrange := h.inRange
  cases hmove with
  | stay => exact h
  | start hplace =>
    rw [hplace] at hpaired hrange
    have hzero : w.i = 0 := hrange
    exact h.place (hpaired.of_idle rfl rfl) (by simp) (hzero.trans_le (Nat.zero_le _))
  | startThread hplace hlt =>
    rw [hplace] at hpaired
    have hstarted := h.started_iff.mpr (by simp [hplace])
    exact h.place (hpaired.of_idle rfl rfl) (by simp [hstarted]) (Int.lt_toNat.mpr hlt)
  | returns hplace hle =>
    rw [hplace] at hpaired hrange
    have hstarted := h.started_iff.mpr (by simp [hplace])
    exact h.place (hpaired.of_idle rfl rfl) (by simp [hstarted])
      (Nat.le_antisymm hrange (Int.toNat_le.mpr hle))
  | pushBack hplace => exact h.pushBack hplace
  | spuriousWakeup hplace =>
    rw [hplace] at hpaired hrange
    have hstarted := h.started_iff.mpr (by simp [hplace])
    exact h.place hpaired.spuriousWakeup (by simp [hstarted]) hrange
  | proceed hstep => exact h.proceeds hstep

/-- No assert fails. -/
theorem Starting.exists_step (h : Starting numThreads.toNat w) (l : Label) :
    ∃ w', w.step numThreads l = .ok w' := by
  rw [step]
  split_ifs with henabled
  · cases l with
    | worker j => exact ⟨_, rfl⟩
    | spuriousWakeup => exact ⟨_, rfl⟩
    | creator =>
      rw [act, create]
      have hpaired := h.paired_i
      cases hplace : w.place with
      | start =>
        have hstarted : w.started = false := by
          rw [Bool.eq_false_iff, Ne, h.started_iff, hplace]
          exact fun hne => hne rfl
        exact ⟨_, bind_of_ok (check_of hstarted _) _⟩
      | startThread =>
        rw [hplace] at hpaired
        exact ⟨_, bind_of_ok (check_of (hpaired.notStarted_iff.mpr rfl) _) _⟩
      | testPredicate =>
        dsimp only
        split_ifs
        · exact ⟨_, rfl⟩
        · exact ⟨_, rfl⟩
      | test | testLoop | lock | wait | unlock | pushBack | returned => exact ⟨_, rfl⟩
  · exact ⟨w, rfl⟩

/-- Unless `start` has returned and all workers are in their loops, somebody can go on. -/
theorem Starting.done_of_not_enabled (h : Starting n w)
    (hstuck : ∀ l, w.Enabled l → l = .spuriousWakeup) :
    w.place = .returned ∧ ∀ j < n, (w.worker j).stage = .inLoop := by
  have hworker : ∀ j, ¬(w.worker j).stage.canGo (w.worker j).mutex = true := fun j hgo => by
    cases hstuck (.worker j) hgo
  have hcreator : ¬w.place.canGo (w.worker w.i).mutex = true := fun hgo => by
    cases hstuck .creator hgo
  have hplace : w.place = .returned := by
    have hor := (h.paired_i).canGo_or
    cases hp : w.place with
    | returned => rfl
    | start | test | startThread | testLoop | testPredicate | unlock | pushBack =>
      rw [hp] at hcreator
      exact absurd rfl hcreator
    | lock | wait =>
      rw [hp] at hor hcreator
      rcases hor rfl with hgo | ⟨hgo, -⟩ | ⟨hback, -⟩
      · exact absurd hgo (hworker w.i)
      · exact absurd hgo hcreator
      · cases hback
  refine ⟨hplace, fun j hj => ?_⟩
  have hi : w.i = n := by
    have hrange := h.inRange
    rwa [hplace] at hrange
  have hback : w.placeOf j = .pushBack := by
    rw [placeOf, if_pos (hi ▸ hj)]
  have hpaired := h.paired j
  rw [hback] at hpaired
  rcases hpaired.canGo_or rfl with hgo | ⟨-, hne⟩ | ⟨-, hin⟩
  · exact absurd hgo (hworker j)
  · exact absurd rfl hne
  · exact hin

/-! ### How long it takes -/

end World

/-- The steps that the creating thread still takes with a worker. -/
def Place.rank : Place → ℕ
  | .start | .test => 7
  | .startThread => 6
  | .testLoop => 5
  | .lock => 4
  | .testPredicate => 3
  | .wait => 2
  | .unlock => 1
  | .pushBack | .returned => 0

/-- The steps that a worker still takes. Two more are counted for those that its `notify_one` gives
back to the creating thread. -/
def Stage.rank : Stage → ℕ
  | .notStarted | .construct => 8
  | .lock => 7
  | .publish => 6
  | .notify => 5
  | .unlock => 2
  | .callLoop => 1
  | .inLoop => 0

/-- Every step of a handshake is one less to take. -/
theorem Handshake.rank_lt (hstep : Handshake j p k p' k') :
    p'.rank + k'.stage.rank < p.rank + k.stage.rank := by
  cases hstep with
  | startThread | testLoop_none | testLoop_some | creatorLocks | waits | goesOn | creatorUnlocks
  | construct | workerLocks | publish | workerUnlocks | callLoop => simp [Place.rank, Stage.rank]
  | notify =>
    split_ifs with hwait
    · simp [hwait, Place.rank, Stage.rank]
    · simp [Stage.rank]

namespace World

variable {numThreads : ℤ} {w w' : World} {l : Label} {n : ℕ}

/-- The steps that are still to be taken with one worker. -/
def workWith (w : World) (j : ℕ) : ℕ := (w.placeOf j).rank + (w.worker j).stage.rank

/-- The steps of the creating thread outside of `startLoop`. -/
def rest (n : ℕ) (w : World) : ℕ :=
  match w.place with
  | .start => n + 2
  | .returned => 0
  | .test | .startThread | .testLoop | .lock | .testPredicate | .wait | .unlock | .pushBack =>
    n - w.i + 1

/-- All the steps that are still to be taken. -/
def work (n : ℕ) (w : World) : ℕ := ∑ j ∈ Finset.range n, w.workWith j + rest n w

/-- The steps that count: not those that have to wait, and not the wakeups without a `notify`. -/
def taken (w : World) (l : Label) : ℕ := if w.Enabled l ∧ l ≠ .spuriousWakeup then 1 else 0

/-- After a wakeup without a `notify`, the mutex is locked and the predicate is tested again. -/
def again (_ : World) (l : Label) : ℕ := if l = .spuriousWakeup then 2 else 0

theorem rest_of_place (hplace : w.place = .test ∨ w.place.inBody = true) :
    rest n w = n - w.i + 1 := by
  rw [rest]
  rcases hplace with hplace | hplace
  · rw [hplace]
  · cases hp : w.place with
    | test | startThread | testLoop | lock | testPredicate | wait | unlock | pushBack => rfl
    | start | returned =>
      rw [hp] at hplace
      cases hplace

/-- The work with one worker changes. -/
theorem sum_workWith_add {j : ℕ} (hj : j < n) (hne : ∀ m ≠ j, w'.workWith m = w.workWith m) :
    ∑ m ∈ Finset.range n, w'.workWith m + w.workWith j =
      ∑ m ∈ Finset.range n, w.workWith m + w'.workWith j := by
  have hmem := Finset.mem_range.mpr hj
  have hrest : ∑ m ∈ (Finset.range n).erase j, w'.workWith m =
      ∑ m ∈ (Finset.range n).erase j, w.workWith m :=
    Finset.sum_congr rfl fun m hm => hne m (Finset.ne_of_mem_erase hm)
  rw [← Finset.add_sum_erase _ _ hmem, ← Finset.add_sum_erase (Finset.range n) w.workWith hmem,
    hrest]
  omega

theorem workWith_place (w : World) (started : Bool) (p : Place) :
    workWith { w with started, place := p } w.i = p.rank + (w.worker w.i).stage.rank := by
  rw [workWith]
  exact congrArg (fun q : Place => q.rank + _) (placeOf_i { w with started, place := p })

theorem workWith_of_ne (w : World) (started : Bool) (p : Place) {m : ℕ} (hm : m ≠ w.i) :
    workWith { w with started, place := p } m = w.workWith m := by
  rw [workWith, workWith]
  exact congrArg (fun q : Place => q.rank + _) (placeOf_of_ne hm rfl)

/-- The creating thread alone goes on with a worker. -/
theorem sum_workWith_place (w : World) (started : Bool) (p : Place) (hi : w.i < n) :
    ∑ m ∈ Finset.range n, workWith { w with started, place := p } m + w.place.rank =
      ∑ m ∈ Finset.range n, w.workWith m + p.rank := by
  have hsum := sum_workWith_add hi (fun m hm => workWith_of_ne w started p hm)
  have hafter := workWith_place w started p
  have hbefore : w.workWith w.i = w.place.rank + (w.worker w.i).stage.rank := by
    rw [workWith, placeOf_i]
  omega

/-- After the last worker, there is no work with the next one. -/
theorem sum_workWith_place_of_le (w : World) (started : Bool) (p : Place) (hi : n ≤ w.i) :
    ∑ m ∈ Finset.range n, workWith { w with started, place := p } m =
      ∑ m ∈ Finset.range n, w.workWith m := by
  refine Finset.sum_congr rfl fun m hm => workWith_of_ne w started p ?_
  have hm := Finset.mem_range.mp hm
  omega

theorem Starting.lt_of_inBody (h : Starting n w) {j : ℕ} (hbody : (w.placeOf j).inBody = true) :
    j < n := by
  have hrange := h.inRange
  rw [placeOf] at hbody
  split_ifs at hbody with hlt heq
  · refine Nat.lt_of_lt_of_le hlt ?_
    cases hp : w.place <;> rw [hp, Place.InRange] at hrange <;> omega
  · rw [heq]
    exact (Place.inRange_iff_of_inBody hbody).mp hrange
  · cases hbody

theorem taken_le_one (w : World) (l : Label) : w.taken l ≤ 1 := by
  rw [taken]
  split_ifs
  · exact Nat.le_refl 1
  · exact Nat.zero_le 1

theorem Starting.work_pushBack (h : Starting n w) (hplace : w.place = .pushBack) :
    work n { w with loops := w.loops ++ [(w.worker w.i).loop], i := w.i + 1, place := .test } + 1 =
      work n w := by
  have hrange := h.inRange
  rw [hplace] at hrange
  have hlt : w.i < n := hrange
  have hsum : ∑ m ∈ Finset.range n, workWith
      { w with loops := w.loops ++ [(w.worker w.i).loop], i := w.i + 1, place := .test } m =
        ∑ m ∈ Finset.range n, w.workWith m := by
    refine Finset.sum_congr rfl fun m _ => ?_
    rw [workWith, placeOf_pushBack hplace, workWith]
  have hrest : rest n w = n - w.i + 1 := rest_of_place (.inr (by rw [hplace]; rfl))
  rw [work, work, hrest, hsum, rest_of_place (.inl rfl)]
  dsimp only
  omega

theorem Starting.work_proceeds (h : Starting n w) {j : ℕ} (hstep : Proceeds j w w') :
    work n w' < work n w := by
  have hinBody := hstep.handshake.inBody (h.paired j)
  have hlt : w'.workWith j < w.workWith j := hstep.handshake.rank_lt
  have hne : ∀ m ≠ j, w'.workWith m = w.workWith m := fun m hm => by
    rw [workWith, workWith, hstep.placeOf_eq m hm, hstep.worker_eq m hm]
  have hsum := sum_workWith_add (h.lt_of_inBody hinBody.1) hne
  have hrest : rest n w' = rest n w := by
    rcases hstep.inBody h with hplace | ⟨hbody, hbody'⟩
    · rw [rest, rest, hplace, hstep.i_eq]
    · rw [rest_of_place (.inr hbody), rest_of_place (.inr hbody'), hstep.i_eq]
  rw [work, work, hrest]
  omega

theorem Starting.work_start (h : Starting n w) (hplace : w.place = .start) :
    work n { w with started := true, place := .test } + 1 = work n w := by
  have hrange := h.inRange
  rw [hplace] at hrange
  have hzero : w.i = 0 := hrange
  have hsum : ∑ m ∈ Finset.range n, workWith { w with started := true, place := .test } m =
      ∑ m ∈ Finset.range n, w.workWith m := by
    rcases Nat.lt_or_ge w.i n with hlt | hle
    · have hsum := sum_workWith_place w true .test hlt
      rw [hplace] at hsum
      exact Nat.add_right_cancel hsum
    · exact sum_workWith_place_of_le w true .test hle
  have hrest : rest n w = n + 2 := by
    rw [rest, hplace]
  rw [work, work, hrest, hsum, rest_of_place (.inl rfl)]
  dsimp only
  omega

theorem Starting.work_returns (h : Starting n w) (hplace : w.place = .test) (hle : n ≤ w.i) :
    work n { w with place := .returned } + 1 = work n w := by
  have hrange := h.inRange
  rw [hplace] at hrange
  have hi : w.i = n := Nat.le_antisymm hrange hle
  have hrest : rest n w = n - w.i + 1 := rest_of_place (.inl hplace)
  rw [work, work, hrest, sum_workWith_place_of_le w w.started .returned hle]
  change _ + 0 + 1 = _
  omega

/-- The creating thread alone goes on in the body of the loop. -/
theorem work_place (w : World) (hi : w.i < n) (hplace : w.place = .test ∨ w.place.inBody = true)
    (hp : p.inBody = true) : work n { w with place := p } + w.place.rank = work n w + p.rank := by
  have hsum := sum_workWith_place w w.started p hi
  have hrest : rest n { w with place := p } = rest n w := by
    rw [rest_of_place hplace, rest_of_place (.inr hp)]
  rw [work, work, hrest]
  omega

/-- Every step that counts leaves less to do. -/
theorem Starting.work_move (h : Starting numThreads.toNat w) (hmove : Move numThreads w l w') :
    work numThreads.toNat w' + w.taken l ≤ work numThreads.toNat w + w.again l := by
  have htaken := taken_le_one w l
  cases hmove with
  | stay hstay =>
    have hnone : w.taken l = 0 := if_neg fun ht => hstay ht.1
    omega
  | start hplace =>
    have hwork := h.work_start hplace
    omega
  | startThread hplace hlt =>
    have hwork := work_place w (Int.lt_toNat.mpr hlt) (.inl hplace)
      (show Place.startThread.inBody = true from rfl)
    rw [hplace] at hwork
    simp only [Place.rank] at hwork
    omega
  | returns hplace hle =>
    have hwork := h.work_returns hplace (Int.toNat_le.mpr hle)
    omega
  | pushBack hplace =>
    have hwork := h.work_pushBack hplace
    omega
  | spuriousWakeup hplace =>
    have hbody : w.place.inBody = true := by rw [hplace]; rfl
    have hlt := (Place.inRange_iff_of_inBody hbody).mp h.inRange
    have hwork := work_place w hlt (.inr hbody) (show Place.lock.inBody = true from rfl)
    rw [hplace] at hwork
    simp only [Place.rank] at hwork
    have hnone : w.taken .spuriousWakeup = 0 := if_neg fun ht => ht.2 rfl
    have hagain : w.again .spuriousWakeup = 2 := if_pos rfl
    omega
  | proceed hstep =>
    have hwork := h.work_proceeds hstep
    omega

theorem work_init (n : ℕ) : work n init = 16 * n + 2 := by
  have hwith : ∀ j, workWith init j = 15 := by
    intro j
    have hj : ¬j < init.i := Nat.not_lt_zero j
    rw [workWith, placeOf, if_neg hj]
    split_ifs <;> rfl
  have hsum : ∑ j ∈ Finset.range n, workWith init j = n * 15 := by
    rw [Finset.sum_const_nat fun j _ => hwith j, Finset.card_range]
  have hrest : rest n init = n + 2 := rfl
  rw [work, hsum, hrest]
  omega

/-- No assert fails, in whatever order the threads take their steps. -/
theorem succeeds_starting (numThreads : ℤ) (ls : List Label) :
    Machine.Succeeds (Starting numThreads.toNat) (Machine.run (step numThreads) init ls) := by
  refine Machine.succeeds_run (fun w l h => ?_) (starting_init _) ls
  obtain ⟨w', hok⟩ := h.exists_step l
  exact ⟨w', hok, h.move (move_of_step hok)⟩

/-- **Starting the pool completes.** Whatever the order in which the creating thread and the workers
take their steps, and whatever wakeups there are without a `notify`: no assert fails; `loops_` has
the loops of the first workers in order, which have all been constructed; all of them when `start`
has returned; only then, and with all workers in their loops, there is nobody who can go on; and so
it comes to that after at most 16 steps for each worker and two more, and two for each wakeup
without a `notify`. -/
theorem start_completes (numThreads : ℤ) (ls : List Label) :
    ∃ w, Machine.run (step numThreads) init ls = .ok w ∧
      w.loops = (List.range w.i).map some ∧
      (∀ j < w.i, (w.worker j).stage.published = true) ∧
      (w.place = .returned → w.i = numThreads.toNat) ∧
      ((∀ l, w.Enabled l → l = .spuriousWakeup) →
        w.place = .returned ∧ ∀ j < numThreads.toNat, (w.worker j).stage = .inLoop) ∧
      Machine.cost (step numThreads) taken init ls ≤
        16 * numThreads.toNat + 2 + 2 * ls.count .spuriousWakeup := by
  obtain ⟨w, hrun, h⟩ := succeeds_starting numThreads ls
  refine ⟨w, hrun, h.loops_eq, fun j hj => ?_, fun hplace => ?_, h.done_of_not_enabled, ?_⟩
  · have hback : w.placeOf j = .pushBack := by
      rw [placeOf, if_pos hj]
    exact (h.paired j).published (.inr hback)
  · have hrange := h.inRange
    rwa [hplace] at hrange
  · have hstep : ∀ (w : World) (l : Label) (w' : World), Starting numThreads.toNat w → True →
        w.step numThreads l = .ok w' → Starting numThreads.toNat w' ∧
          work numThreads.toNat w' + taken w l ≤ work numThreads.toNat w + again w l := by
      intro w l w' h _ hok
      have hmove := move_of_step hok
      exact ⟨h.move hmove, h.work_move hmove⟩
    have hwork := (Machine.work_add_cost_le hstep (starting_init _) (fun _ _ => trivial) hrun).2
    have hagain : Machine.cost (step numThreads) again init ls ≤ 2 * ls.count .spuriousWakeup :=
      Machine.cost_le_mul_count (fun _ _ => Nat.le_refl _) _ _
    rw [work_init] at hwork
    omega

end World

/-! ### The handshake in one step -/

/-- The worker in `EventLoop/EventLoopThread.lean`, which does not see the mutex. -/
def Stage.view : Stage → EventLoopThread.Stage
  | .notStarted => .notStarted
  | .construct => .construct
  | .lock | .publish => .publish
  | .notify | .unlock | .callLoop => .callLoop
  | .inLoop => .inLoop

/-- The creating thread there. -/
def Place.view : Place → EventLoopThread.Creator
  | .start | .test | .startThread | .returned => .outside
  | .testLoop | .lock | .testPredicate | .wait | .unlock => .inStartLoop
  | .pushBack => .returned

variable {φ : Type}

/-- The local variable `loop` of `threadFunc`, as long as it is not used. -/
def Stage.loop : Stage → EventLoop.World φ
  | .inLoop => { EventLoop.World.init with looping := true, place := .clearQuit }
  | .notStarted | .construct | .lock | .publish | .notify | .unlock | .callLoop => .init

/-- A worker and the creating thread, in `EventLoop/EventLoopThread.lean`. -/
def view (p : Place) (k : Worker) : EventLoopThread.World φ where
  stage := k.stage.view
  creator := p.view
  published := k.loop.isSome
  loop := k.stage.loop

/-- A step of `startLoop` or `threadFunc`. -/
def OfHandshake : EventLoopThread.World.Label φ → Prop
  | .startLoop | .startLoopReturns | .threadFunc => True
  | .inLoop _ => False

/-- A step of the handshake is a step there, or is not seen. -/
theorem Handshake.simulates (hstep : Handshake j p k p' k') (h : Paired j p k) :
    (view p' k' : EventLoopThread.World φ) = view p k ∨ ∃ l : EventLoopThread.World.Label φ,
      OfHandshake l ∧ (view p k).step l = .ok (view p' k') := by
  cases hstep with
  | testLoop_none | creatorLocks | waits | goesOn | workerLocks | workerUnlocks => exact .inl rfl
  | notify =>
    left
    split_ifs with hwait
    · rw [hwait]
      rfl
    · rfl
  | startThread => exact .inr ⟨.startLoop, trivial, rfl⟩
  | testLoop_some => exact .inr ⟨.startLoopReturns, trivial, rfl⟩
  | creatorUnlocks =>
    -- `loop_` has been stored, so that `startLoop` can return
    have hloop := h.published_eq_true_iff.mp (h.published (.inl rfl))
    obtain ⟨a, rfl⟩ := Option.ne_none_iff_exists'.mp hloop
    exact .inr ⟨.startLoopReturns, trivial, rfl⟩
  | construct | publish | callLoop => exact .inr ⟨.threadFunc, trivial, rfl⟩

namespace World

variable {numThreads : ℤ} {w w' : World} {l : Label}

/-- One worker of the pool, in `EventLoop/EventLoopThread.lean`. -/
def view (w : World) (j : ℕ) : EventLoopThread.World φ :=
  EventLoopThreadPool.view (w.placeOf j) (w.worker j)

/-- Where the creating thread is outside of `startLoop` is not seen. -/
theorem view_place (w : World) (started : Bool) (p : Place) (hp : p.view = w.place.view) (j : ℕ) :
    (view { w with started, place := p } j : EventLoopThread.World φ) = w.view j := by
  rcases Decidable.eq_or_ne j w.i with rfl | hj
  · have hafter : World.placeOf { w with started, place := p } w.i = p := placeOf_i _
    rw [view, view, hafter, placeOf_i, EventLoopThreadPool.view, EventLoopThreadPool.view, hp]
  · have hafter : World.placeOf { w with started, place := p } j = w.placeOf j :=
      placeOf_of_ne hj rfl
    rw [view, view, hafter]

theorem Move.simulates (hmove : Move numThreads w l w') (h : Starting numThreads.toNat w) (j : ℕ) :
    (w'.view j : EventLoopThread.World φ) = w.view j ∨ ∃ l : EventLoopThread.World.Label φ,
      OfHandshake l ∧ (w.view j).step l = .ok (w'.view j) := by
  cases hmove with
  | stay => exact .inl rfl
  | start hplace => exact .inl (view_place w true .test (hplace ▸ rfl) j)
  | startThread hplace => exact .inl (view_place w w.started .startThread (hplace ▸ rfl) j)
  | returns hplace => exact .inl (view_place w w.started .returned (hplace ▸ rfl) j)
  | spuriousWakeup hplace => exact .inl (view_place w w.started .lock (hplace ▸ rfl) j)
  | pushBack hplace =>
    left
    rw [view, view, placeOf_pushBack hplace]
  | @proceed _ m w' hstep =>
    rcases Decidable.eq_or_ne j m with rfl | hj
    · exact hstep.handshake.simulates (h.paired j)
    · left
      rw [view, view, hstep.placeOf_eq j hj, hstep.worker_eq j hj]

/-- **The handshake is a single step.** Whatever the threads do while the pool is started, what can
be seen of a worker and the creating thread, if the mutex and the waiting are not looked at, is a
run of `startLoop` and `threadFunc` in which the address is published and the wait ends in one step
each. -/
theorem refines_startLoop (numThreads : ℤ) (ls : List Label) :
    ∃ w, Machine.run (step numThreads) init ls = .ok w ∧ ∀ j,
      ∃ ls' : List (EventLoopThread.World.Label φ), (∀ l ∈ ls', OfHandshake l) ∧
        Machine.run EventLoopThread.World.step .init ls' = .ok (w.view j) := by
  obtain ⟨w, hrun, -⟩ := succeeds_starting numThreads ls
  refine ⟨w, hrun, fun j => ?_⟩
  have hinit : (init.view j : EventLoopThread.World φ) = .init := by
    have hj : ¬j < init.i := Nat.not_lt_zero j
    rw [view, placeOf, if_neg hj]
    split_ifs <;> rfl
  have hsim : ∀ (w : World) (l : Label) (w' : World), Starting numThreads.toNat w →
      w.step numThreads l = .ok w' → Starting numThreads.toNat w' ∧
        ((w'.view j : EventLoopThread.World φ) = w.view j ∨
          ∃ l : EventLoopThread.World.Label φ,
            OfHandshake l ∧ (w.view j).step l = .ok (w'.view j)) := by
    intro w l w' h hok
    have hmove := move_of_step hok
    exact ⟨h.move hmove, hmove.simulates h j⟩
  rw [← hinit]
  exact Machine.exists_run_of_view hsim (starting_init _) hrun

end World

end EventLoopThreadPool

end MuduoRebuild
