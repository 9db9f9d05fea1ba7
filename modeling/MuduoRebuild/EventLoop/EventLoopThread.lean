import MuduoRebuild.EventLoop.Basic
import MuduoRebuild.Foundations.Run

/-!
# `EventLoopThread`: a loop in a thread of its own

`startLoop` starts a worker thread and waits until it has constructed an `EventLoop` and published
its address; then the worker calls `loop()`. The address is out before `loop()` has begun, and
`loop()` begins with `quit_ = false`, so that a `quit()` may come too early and be forgotten.

`quit_kept_iff` says that this is the only way in which a `quit()` can get lost.
-/

namespace MuduoRebuild

namespace EventLoop

namespace World

variable {φ : Type} {w w' : World φ} {l : Label φ}

/-- A `quit()` that has been executed is not forgotten while the loop's thread is in its `while`
loop, and one that has returned does not leave it in `poll` without a wakeup. -/
structure QuitKept (w : World φ) : Prop where
  kept : .quit ∈ w.log → .left ∉ w.log → w.quit = true
  woken : .quitReturned ∈ w.log → w.place = .poll → w.quit = true ∧ 0 < w.counter

/-- What holds between any two steps, as long as no `quit()` has been forgotten. -/
structure Quitting (w : World φ) : Prop extends QuitKept w where
  placed : Placed w
  outside_of_left : .left ∈ w.log → w.place = .outside
  mem_of_quit : w.quit = true → .quit ∈ w.log
  mem_of_call : ∀ t, w.calls t = .quit → .quit ∈ w.log
  mem_of_returned : .quitReturned ∈ w.log → .quit ∈ w.log

theorem quitting_init : Quitting (init : World φ) where
  kept h := absurd h List.not_mem_nil
  woken h := absurd h List.not_mem_nil
  placed := placed_init
  outside_of_left h := absurd h List.not_mem_nil
  mem_of_quit h := by cases h
  mem_of_call t h := by cases h
  mem_of_returned h := absurd h List.not_mem_nil

/-- A step that has nothing to do with `quit_` and does not go to `poll`. -/
theorem Quitting.of_same (h : Quitting w) (hplaced : Placed w') (hquit : w'.quit = w.quit)
    (hlog : ∀ e : Event φ, e.handover? = none → (e ∈ w'.log ↔ e ∈ w.log))
    (hcalls : ∀ t, w'.calls t = .quit → w.calls t = .quit)
    (houtside : w.place = .outside → w'.place = .outside)
    (hpoll : w'.place = .poll → w.place = .poll ∧ (0 < w.counter → 0 < w'.counter)) :
    Quitting w' where
  kept := by
    rw [hlog _ rfl, hlog _ rfl, hquit]
    exact h.kept
  woken := by
    rw [hlog _ rfl, hquit]
    intro hreturned hplace
    obtain ⟨hplace, hcounter⟩ := hpoll hplace
    exact (h.woken hreturned hplace).imp id hcounter
  placed := hplaced
  outside_of_left := by
    rw [hlog _ rfl]
    exact fun hleft => houtside (h.outside_of_left hleft)
  mem_of_quit := by
    rw [hlog _ rfl, hquit]
    exact h.mem_of_quit
  mem_of_call := by
    intro t ht
    rw [hlog _ rfl]
    exact h.mem_of_call t (hcalls t ht)
  mem_of_returned := by
    rw [hlog _ rfl, hlog _ rfl]
    exact h.mem_of_returned

/-- Another event is not the last one of a history. -/
theorem mem_of_mem_concat {log : List (Event φ)} {e f : Event φ} (hne : e ≠ f)
    (he : e ∈ log ++ [f]) : e ∈ log := by
  rcases List.mem_append.mp he with he | he
  · exact he
  · exact absurd (List.mem_singleton.mp he) hne

theorem mem_record_handover {e : Event φ} (he : e.handover? = none)
    (f : Handover.Event (Pending φ)) : e ∈ (w.record (.handover f)).log ↔ e ∈ w.log := by
  rw [record, List.mem_append, List.mem_singleton]
  refine or_iff_left ?_
  rintro rfl
  cases he

/-- A call that is not `quit` begins or ends. -/
theorem call_of_update {t u : Thread} {call : Call} (hcall : call ≠ .quit)
    (hquit : Function.update w.calls t call u = .quit) : w.calls u = .quit := by
  rw [Function.update_apply] at hquit
  split_ifs at hquit
  · exact absurd hquit hcall
  · exact hquit

theorem Quitting.pushBack (h : Quitting w) {t : Thread} (f : φ)
    (hplaced : Placed (w.pushBack t f)) : Quitting (w.pushBack t f) :=
  h.of_same hplaced rfl (fun _ he => mem_record_handover he _)
    (fun _ ht => call_of_update (by simp) ht) id fun hplace => ⟨hplace, id⟩

/-- `quit_ = true`. -/
theorem Quitting.setQuit (h : Quitting w) {t : Thread} (hplaced : Placed (w.setQuit t)) :
    Quitting (w.setQuit t) := by
  have hmem : .quit ∈ (w.setQuit t).log := List.mem_append_right _ List.mem_cons_self
  refine ⟨⟨fun _ _ => rfl, ?_⟩, hplaced, ?_, fun _ => hmem, fun _ _ => hmem, fun _ => hmem⟩
  · intro hreturned hplace
    exact ⟨rfl, (h.woken (mem_of_mem_concat (by simp) hreturned) hplace).2⟩
  · intro hleft
    exact h.outside_of_left (mem_of_mem_concat (by simp) hleft)

/-- Another thread's `quit` returns after its wakeup; in the loop's own thread there is no
`poll`. -/
theorem Quitting.finishQuit (h : Quitting w) {t : Thread} (hcall : w.calls t = .quit)
    (hplaced : Placed (w.finishQuit t)) : Quitting (w.finishQuit t) := by
  have hquit : .quit ∈ w.log := h.mem_of_call t hcall
  have hfields : (w.finishQuit t).log = w.log ++ [.quitReturned] ∧
      (w.finishQuit t).quit = w.quit ∧ (w.finishQuit t).place = w.place ∧
      (w.finishQuit t).calls = Function.update w.calls t .none := by
    rw [World.finishQuit]
    split_ifs
    · exact ⟨rfl, rfl, rfl, rfl⟩
    · exact ⟨rfl, rfl, rfl, rfl⟩
  obtain ⟨hlog, hsame, hplace, hcalls⟩ := hfields
  have hmem : ∀ e : Event φ, e ≠ .quitReturned → (e ∈ (w.finishQuit t).log ↔ e ∈ w.log) := by
    intro e hne
    rw [hlog, List.mem_append, List.mem_singleton]
    exact or_iff_left hne
  refine ⟨⟨?_, ?_⟩, hplaced, ?_, ?_, ?_, ?_⟩
  · rw [hmem _ (by simp), hmem _ (by simp), hsame]
    exact h.kept
  · rw [hplace]
    intro _ hpoll
    have hkept : w.quit = true := by
      refine h.kept hquit fun hleft => ?_
      have houtside := h.outside_of_left hleft
      rw [hpoll] at houtside
      cases houtside
    refine ⟨hsame.trans hkept, ?_⟩
    rw [World.finishQuit]
    split_ifs with ht
    · exact counter_wakeup_pos _
    · -- the loop's thread is in no call
      rw [not_not] at ht
      have huser := h.placed.calls_loop (by rw [← ht, hcall]; simp)
      rw [userRuns, hpoll] at huser
      exact huser.elim
  · rw [hmem _ (by simp), hplace]
    exact h.outside_of_left
  · rw [hmem _ (by simp), hsame]
    exact h.mem_of_quit
  · intro u hu
    rw [hmem _ (by simp)]
    rw [hcalls] at hu
    exact h.mem_of_call u (call_of_update (by simp) hu)
  · intro _
    exact (hmem _ (by simp)).mpr hquit

/-- The loop tests `quit_`, and goes to `poll` only if no `quit` has been executed. -/
theorem Quitting.poll (h : Quitting w) (hplace : w.place = .test) (hquit : w.quit = false)
    (hplaced : Placed { w with place := .poll }) : Quitting { w with place := .poll } := by
  have hleft : .left ∉ w.log := by
    intro hleft
    have houtside := h.outside_of_left hleft
    rw [hplace] at houtside
    cases houtside
  refine { h with
    placed := hplaced
    woken := fun hreturned _ => ?_
    outside_of_left := fun hleft' => absurd hleft' hleft }
  have hkept := h.kept (h.mem_of_returned hreturned) hleft
  rw [hquit] at hkept
  cases hkept

theorem Quitting.leave (h : Quitting w) (hplaced : Placed w.leave) : Quitting w.leave := by
  have hgrow : ∀ e, e ∈ w.log → e ∈ w.leave.log := fun e he => List.mem_append_left _ he
  refine ⟨⟨?_, ?_⟩, hplaced, fun _ => rfl, fun hquit => hgrow _ (h.mem_of_quit hquit),
    fun t ht => hgrow _ (h.mem_of_call t ht), fun hreturned => ?_⟩
  · intro _ hleft
    exact absurd (List.mem_append_right _ List.mem_cons_self) hleft
  · intro _ hplace
    cases hplace
  · exact hgrow _ (h.mem_of_returned (mem_of_mem_concat (by simp) hreturned))

/-- `loop()` overwrites no `quit_ = true`. -/
theorem Quitting.clearQuit (h : Quitting w) (hplace : w.place = .clearQuit)
    (hquit : w.quit = false) (hplaced : Placed { w with quit := false, place := .test }) :
    Quitting { w with quit := false, place := .test } := by
  refine h.of_same hplaced hquit.symm (fun _ _ => Iff.rfl) (fun _ ht => ht) ?_ ?_
  · intro houtside
    rw [hplace] at houtside
    cases houtside
  · intro hpoll
    cases hpoll

theorem Quitting.advance (h : Quitting w) {active : List Source}
    (hclear : w.place = .clearQuit → w.quit = false) (hplaced : Placed w')
    (hadvance : Advance w active w') : Quitting w' := by
  cases hadvance with
  | clearQuit hplace => exact h.clearQuit hplace (hclear hplace) hplaced
  | leave => exact h.leave hplaced
  | poll hplace hquit => exact h.poll hplace hquit hplaced
  | @handleEvent _ s todo hplace =>
    cases s with
    | wakeupFd =>
      exact h.of_same hplaced rfl (fun _ _ => Iff.rfl) (fun _ ht => ht) (by simp [hplace])
        fun hpoll => by cases hpoll
    | other fd =>
      exact h.of_same hplaced rfl (fun _ _ => Iff.rfl) (fun _ ht => ht) (by simp [hplace])
        fun hpoll => by cases hpoll
  | swap hplace | runFunctor hplace =>
    exact h.of_same hplaced rfl (fun _ he => mem_record_handover he _) (fun _ ht => ht)
      (by simp [hplace]) fun hpoll => by cases hpoll
  | report hplace | endHandlers hplace | endFunctors hplace =>
    exact h.of_same hplaced rfl (fun _ _ => Iff.rfl) (fun _ ht => ht) (by simp [hplace])
      fun hpoll => by cases hpoll

/-- Only `quit_ = false` can make a `quit()` forgotten, and `loop()` is called once. -/
theorem Quitting.move (h : Quitting w) (hmove : Move w l w')
    (hclear : ∀ active, l = .next active → w.place = .clearQuit → w.quit = false)
    (honce : l = .loop → .left ∉ w.log) : Quitting w' := by
  have hplaced := h.placed.move hmove
  cases hmove with
  | stay => exact h
  | queueInLoop f => exact h.pushBack f hplaced
  | runInLoop f => exact h.pushBack f hplaced
  | quit => exact h.setQuit hplaced
  | wakeup =>
    exact h.of_same hplaced rfl (fun _ _ => Iff.rfl) (fun _ ht => ht) id fun hpoll =>
      ⟨hpoll, fun _ => counter_wakeup_pos w⟩
  | finishQueueInLoop =>
    rw [finishQueueInLoop] at hplaced ⊢
    split_ifs at hplaced ⊢
    · exact h.of_same hplaced rfl (fun _ _ => Iff.rfl) (fun _ ht => call_of_update (by simp) ht)
        id fun hpoll => ⟨hpoll, fun _ => counter_wakeup_pos _⟩
    · exact h.of_same hplaced rfl (fun _ _ => Iff.rfl) (fun _ ht => call_of_update (by simp) ht)
        id fun hpoll => ⟨hpoll, id⟩
  | finishQuit hcall => exact h.finishQuit hcall hplaced
  | loop =>
    refine { h with
      placed := hplaced
      woken := fun _ hpoll => ?_
      outside_of_left := fun hleft => absurd hleft (honce rfl) }
    cases hpoll
  | next hidle hadvance => exact h.advance (hclear _ rfl) hplaced hadvance

end World

end EventLoop

namespace EventLoopThread

open EventLoop (Thread)
open EventLoop.World (QuitKept Quitting)

/-- What the worker does next in `threadFunc`. -/
inductive Stage where
  | notStarted
  /-- `EventLoop loop;` -/
  | construct
  /-- `loop_ = &loop; cond_.notify_one();` -/
  | publish
  /-- `loop.loop();` -/
  | callLoop
  | inLoop
  deriving DecidableEq, Repr

/-- What the creating thread does. -/
inductive Creator where
  | outside
  /-- It waits in `startLoop` for `loop_ != nullptr`. -/
  | inStartLoop
  | returned
  deriving DecidableEq, Repr

/-- A thread with a loop, and the thread that has created it. -/
structure World (φ : Type) where
  stage : Stage
  creator : Creator
  /-- `loop_ != nullptr` -/
  published : Bool
  /-- The local variable `loop` of `threadFunc`. -/
  loop : EventLoop.World φ

namespace World

variable {φ : Type}

/-- The state after the construction of the `EventLoopThread`. -/
def init : World φ where
  stage := .notStarted
  creator := .outside
  published := false
  loop := .init

/-- A step of the creating thread in `startLoop`, of the worker in `threadFunc`, or of any thread
in the loop. -/
inductive Label (φ : Type) where
  | startLoop
  | startLoopReturns
  | threadFunc
  | inLoop (l : EventLoop.World.Label φ)
  deriving DecidableEq, Repr

variable (w : World φ)

/-- The thread that takes a step. -/
def thread : EventLoop.World.Label φ → Thread
  | .queueInLoop t _ | .runInLoop t _ | .quit t | .wakeup t | .finishCall t => t
  | .loop | .next _ => .loop

/-- Whether a step can be taken. The worker has no code of its own outside of `loop()`, and the
other threads get the address of the loop from `startLoop`. -/
def Enabled : Label φ → Prop
  | .startLoop => w.creator ≠ .inStartLoop
  | .startLoopReturns => w.creator = .inStartLoop ∧ w.published = true
  | .threadFunc => True
  | .inLoop l =>
    match thread l with
    | .loop => w.stage = .inLoop ∧ w.loop.looping = true
    | .other _ => w.creator = .returned

instance (l : Label φ) : Decidable (w.Enabled l) :=
  match l with
  | .startLoop => inferInstanceAs (Decidable (w.creator ≠ .inStartLoop))
  | .startLoopReturns =>
    inferInstanceAs (Decidable (w.creator = .inStartLoop ∧ w.published = true))
  | .threadFunc => inferInstanceAs (Decidable True)
  | .inLoop l =>
    match h : thread l with
    | .loop => decidable_of_iff (w.stage = .inLoop ∧ w.loop.looping = true)
        (by simp only [Enabled, h])
    | .other _ => decidable_of_iff (w.creator = .returned) (by simp only [Enabled, h])

/-- `startLoop`, up to the wait. -/
def startLoop : Except Fault (World φ) := do
  assertThat (w.stage = .notStarted)
  return { w with stage := .construct, creator := .inStartLoop }

/-- The next statement of `threadFunc`. -/
def threadFunc : Except Fault (World φ) :=
  match w.stage with
  | .construct => .ok { w with stage := .publish, loop := .init }
  | .publish => .ok { w with stage := .callLoop, published := true }
  | .callLoop => do
    let loop ← w.loop.step .loop
    return { w with stage := .inLoop, loop }
  | .notStarted | .inLoop => .ok w

def act : Label φ → Except Fault (World φ)
  | .startLoop => w.startLoop
  | .startLoopReturns => .ok { w with creator := .returned }
  | .threadFunc => w.threadFunc
  | .inLoop l => do
    let loop ← w.loop.step l
    return { w with loop }

/-- One step; a step that cannot be taken now leaves everything as it is. -/
def step (l : Label φ) : Except Fault (World φ) :=
  if w.Enabled l then w.act l else .ok w

/-! ### The invariant -/

variable {w} {w' : World φ} {l : Label φ}

/-- What holds between any two steps, as long as no `quit()` has been forgotten. -/
structure Kept (w : World φ) : Prop where
  quitting : Quitting w.loop
  inLoop_of_entered : w.loop.looping = true ∨ .left ∈ w.loop.log → w.stage = .inLoop

theorem kept_init : Kept (init : World φ) := by
  refine ⟨EventLoop.World.quitting_init, ?_⟩
  rintro (hlooping | hleft)
  · cases hlooping
  · cases hleft

/-- `quit_ = false` in `loop()` is executed while `quit_` is false. -/
def ClearsNothing (w : World φ) : Label φ → Prop
  | .inLoop (.next _) => w.loop.place = .clearQuit → w.loop.quit = false
  | _ => True

/-- Before `loop()` is called, nothing says that it has been. -/
theorem Kept.of_stage_ne (h : Kept w) (hstage : w.stage ≠ .inLoop) (hloop : w'.loop = w.loop) :
    Kept w' := by
  refine ⟨hloop ▸ h.quitting, fun hentered => absurd (h.inLoop_of_entered ?_) hstage⟩
  rwa [← hloop]

/-- The worker's call of `loop()`. -/
theorem Kept.callLoop (h : Kept w) (hstage : w.stage = .callLoop) {loop : EventLoop.World φ}
    (hok : w.loop.step .loop = .ok loop) : Kept { w with stage := .inLoop, loop } := by
  refine ⟨h.quitting.move (EventLoop.World.move_of_step hok) ?_ ?_, fun _ => rfl⟩
  · intro active hl
    cases hl
  · intro _ hleft
    have hin := h.inLoop_of_entered (.inr hleft)
    rw [hstage] at hin
    cases hin

/-- The steps of other threads do not enter or leave `loop()`. -/
theorem entered_of_other {w w' : EventLoop.World φ} {l : EventLoop.World.Label φ} {n : ℕ}
    (hmove : EventLoop.World.Move w l w') (hl : thread l = .other n)
    (hentered : w'.looping = true ∨ .left ∈ w'.log) : w.looping = true ∨ .left ∈ w.log := by
  cases hmove with
  | stay | wakeup => exact hentered
  | queueInLoop | runInLoop | quit =>
    exact hentered.imp id fun hleft => EventLoop.World.mem_of_mem_concat (by simp) hleft
  | finishQueueInLoop =>
    rw [EventLoop.World.finishQueueInLoop] at hentered
    split_ifs at hentered
    · exact hentered
    · exact hentered
  | finishQuit =>
    rw [EventLoop.World.finishQuit] at hentered
    split_ifs at hentered
    · exact hentered.imp id fun hleft => EventLoop.World.mem_of_mem_concat (by simp) hleft
    · exact hentered.imp id fun hleft => EventLoop.World.mem_of_mem_concat (by simp) hleft
  | loop | next => cases hl

/-- The loop's thread is in `loop()` when it takes a step there. -/
theorem Kept.inLoop (h : Kept w) {l : EventLoop.World.Label φ}
    (hclear : w.ClearsNothing (.inLoop l)) (henabled : w.Enabled (.inLoop l))
    {loop : EventLoop.World φ} (hok : w.loop.step l = .ok loop) : Kept { w with loop } := by
  have hmove := EventLoop.World.move_of_step hok
  constructor
  · refine h.quitting.move hmove ?_ ?_
    · rintro active rfl
      exact hclear
    · rintro rfl hleft
      have hlooping := h.quitting.placed.looping_eq
      rw [h.quitting.outside_of_left hleft, henabled.2] at hlooping
      cases hlooping
  · intro hentered
    simp only [Enabled] at henabled
    split at henabled
    · exact henabled.1
    · next hl => exact h.inLoop_of_entered (entered_of_other hmove hl hentered)

theorem Kept.step (h : Kept w) (hclear : w.ClearsNothing l) (hok : w.step l = .ok w') :
    Kept w' := by
  rw [World.step] at hok
  split_ifs at hok with henabled
  · cases l with
    | startLoop =>
      obtain ⟨_, hstage, hok⟩ := Fallible.bind_eq_ok.mp hok
      have hstage : w.stage = .notStarted := Fallible.check_eq_ok.mp hstage
      obtain rfl := Except.ok.inj hok
      exact h.of_stage_ne (by simp [hstage]) rfl
    | startLoopReturns =>
      obtain rfl := Except.ok.inj hok
      exact { h with }
    | threadFunc =>
      simp only [act, threadFunc] at hok
      split at hok
      case h_1 =>
        obtain rfl := Except.ok.inj hok
        refine ⟨EventLoop.World.quitting_init, fun hentered => ?_⟩
        simp [EventLoop.World.init] at hentered
      case h_2 hstage =>
        obtain rfl := Except.ok.inj hok
        exact h.of_stage_ne (by simp [hstage]) rfl
      case h_3 hstage =>
        obtain ⟨loop, hloop, hok⟩ := Fallible.bind_eq_ok.mp hok
        obtain rfl := Except.ok.inj hok
        exact h.callLoop hstage hloop
      case h_4 | h_5 =>
        obtain rfl := Except.ok.inj hok
        exact h
    | inLoop l =>
      obtain ⟨loop, hloop, hok⟩ := Fallible.bind_eq_ok.mp hok
      obtain rfl := Except.ok.inj hok
      exact h.inLoop hclear henabled hloop
  · obtain rfl := Except.ok.inj hok
    exact h

/-! ### The result -/

theorem Kept.step_clearQuit (h : Kept w) (hplace : w.loop.place = .clearQuit)
    (active : List EventLoop.Source) :
    w.step (.inLoop (.next active)) =
      .ok { w with loop := { w.loop with quit := false, place := .test } } := by
  have hlooping : w.loop.looping = true := by
    rw [h.quitting.placed.looping_eq, hplace]
    rfl
  have hidle : w.loop.calls .loop = .none := by
    by_contra hcall
    have huser := h.quitting.placed.calls_loop hcall
    rw [EventLoop.World.userRuns, hplace] at huser
    exact huser
  have hreports : w.loop.Reports active := by
    rw [EventLoop.World.Reports, hplace]
    trivial
  have hnext : w.loop.step (.next active) =
      .ok { w.loop with quit := false, place := .test } := by
    refine (if_pos ⟨hidle, hreports⟩).trans ?_
    simp only [EventLoop.World.act, EventLoop.World.next, hplace]
  have henabled : w.Enabled (.inLoop (.next active)) :=
    ⟨h.inLoop_of_entered (.inl hlooping), hlooping⟩
  exact (if_pos henabled).trans (Fallible.bind_of_ok hnext _)

/-- A step keeps every `quit()` exactly when it clears nothing. -/
theorem Kept.unlessFault_iff (h : Kept w) (l : Label φ) :
    Machine.UnlessFault (fun w' : World φ => QuitKept w'.loop) (w.step l) ↔
      w.ClearsNothing l := by
  constructor
  · intro hkept
    cases l with
    | inLoop l =>
      cases l with
      | next active =>
        intro hplace
        by_contra hquit
        have hquit : w.loop.quit = true := by simpa using hquit
        have hleft : .left ∉ w.loop.log := by
          intro hleft
          have houtside := h.quitting.outside_of_left hleft
          rw [hplace] at houtside
          cases houtside
        have hcleared := (hkept _ (h.step_clearQuit hplace active)).kept
          (h.quitting.mem_of_quit hquit) hleft
        cases hcleared
      | _ => trivial
    | _ => trivial
  · intro hclear w' hok
    exact (h.step hclear hok).quitting.toQuitKept

/-- **No lost quit.** In every interleaving of `startLoop`, `threadFunc` and calls of `quit` and
`queueInLoop` by any threads after `startLoop` has returned, each `quit()` that has been executed
is kept until `loop()` has left its `while` loop, and none that has returned leaves the worker in
`poll` without a wakeup, exactly when `loop()` executes `quit_ = false` only while `quit_` is
false. -/
theorem quit_kept_iff (ls : List (Label φ)) :
    Machine.Along step (Machine.onResult (Machine.UnlessFault fun w => QuitKept w.loop)) init ls ↔
      Machine.Along step (Machine.onInput ClearsNothing) init ls := by
  refine Machine.along_iff_along kept_init (fun w l h => h.unlessFault_iff l) ?_
  intro w l w' h hgood hok
  exact h.step ((h.unlessFault_iff l).mp hgood) hok

/-- `quit` is called as soon as `startLoop` has returned; only then does the worker call
`loop()`. -/
def tooEarly : List (Label Unit) :=
  [.startLoop, .threadFunc, .threadFunc, .startLoopReturns, .inLoop (.quit (.other 0)),
    .inLoop (.finishCall (.other 0)), .threadFunc, .inLoop (.next []), .inLoop (.next []),
    .inLoop (.next [.wakeupFd]), .inLoop (.next []), .inLoop (.next []), .inLoop (.next []),
    .inLoop (.next []), .inLoop (.next [])]

/-- The worker is blocked in `poll` for good, though `quit` has returned. -/
theorem quit_forgotten :
    (∃ w : World Unit, Machine.run step init tooEarly = .ok w ∧ .quitReturned ∈ w.loop.log ∧
      w.loop.place = .poll ∧ w.loop.quit = false ∧ w.loop.counter = 0) ∧
    ¬Machine.Along step (Machine.onResult (Machine.UnlessFault fun w => QuitKept w.loop)) init
      tooEarly := by
  refine ⟨⟨_, rfl, by decide, rfl, rfl, rfl⟩, ?_⟩
  intro h
  have hkept := h.of_run_eq_ok EventLoop.World.quitting_init.toQuitKept rfl
  cases (hkept.woken (by decide) rfl).1

end World

end EventLoopThread

end MuduoRebuild
