import MuduoRebuild.EventLoop.Basic
import MuduoRebuild.Foundations.Run

/-!
# No wakeup is lost

A thread that queues a functor pushes it first and writes to the eventfd afterwards; the loop's
own thread writes only while functors are run, because what its handlers queue is taken by the
swap of the same iteration. `Woken` is the invariant behind `no_lost_wakeup`: from the swap on
until `poll` returns, each functor in the queue has made the eventfd readable, or the call that
put it there is about to.
-/

namespace MuduoRebuild

namespace EventLoop

/-- From the swap on until `poll` returns. -/
def Place.BeforeHandlers {φ : Type} : Place φ → Prop
  | .clearQuit | .test | .poll | .functors .. => True
  | .outside | .handlers .. | .swap => False

namespace World

variable {φ : Type} {w w' : World φ} {l : Label φ} {f : Pending φ}

/-- The functor was queued after `loop()` was entered. -/
def QueuedSinceEntry (w : World φ) (f : Pending φ) : Prop :=
  f ∈ w.pendingFunctors ∧ w.entry ≤ f.ticket

/-- The eventfd is readable, or the call that queued the functor has not written to it yet. -/
def Announced (w : World φ) (f : Pending φ) : Prop :=
  0 < w.counter ∨ w.calls f.producer = .queueInLoop f.ticket

/-- What holds between any two steps. -/
structure Woken (w : World φ) : Prop where
  placed : Placed w
  ticket_lt : ∀ f ∈ w.pendingFunctors, f.ticket < w.tickets
  announced : w.place.BeforeHandlers → ∀ f, w.QueuedSinceEntry f → w.Announced f

/-- A wakeup announces every functor. -/
theorem announced_wakeup (w : World φ) (f : Pending φ) : w.wakeup.Announced f :=
  .inl (counter_wakeup_pos w)

/-- A call that begins is not the one that has queued a functor before. -/
theorem Announced.setCall {t : Thread} {call : Call} (h : w.Announced f)
    (ht : ∀ ticket, w.calls t ≠ .queueInLoop ticket) : (w.setCall t call).Announced f := by
  refine h.imp id fun hcall => ?_
  have hne : f.producer ≠ t := by
    rintro rfl
    exact ht _ hcall
  exact (Function.update_of_ne hne ..).trans hcall

/-- A functor is pushed, and its call has still to write to the eventfd. -/
theorem Woken.pushBack (h : Woken w) {t : Thread} (hcan : w.CanCall t) (g : φ)
    (hplaced : Placed (w.pushBack t g)) : Woken (w.pushBack t g) := by
  refine ⟨hplaced, ?_, ?_⟩
  · intro f hf
    rcases List.mem_append.mp hf with hf | hf
    · exact Nat.lt_succ_of_lt (h.ticket_lt f hf)
    · rw [List.mem_singleton.mp hf]
      exact Nat.lt_succ_self _
  · rintro hplace f ⟨hf, hentry⟩
    rcases List.mem_append.mp hf with hf | hf
    · refine (h.announced hplace f ⟨hf, hentry⟩).setCall ?_
      intro ticket
      rw [hcan.1]
      simp
    · rw [List.mem_singleton.mp hf]
      exact .inr (Function.update_self ..)

/-- The queue stays as it is, and what was announced stays so. -/
theorem Woken.of_same_queue (h : Woken w) (hplaced : Placed w')
    (hqueue : w'.pendingFunctors = w.pendingFunctors) (htickets : w'.tickets = w.tickets)
    (hentry : w'.entry = w.entry)
    (hannounced : w'.place.BeforeHandlers → w.place.BeforeHandlers ∧
      ∀ f, w.Announced f → w'.Announced f) : Woken w' := by
  refine ⟨hplaced, ?_, ?_⟩
  · rw [hqueue, htickets]
    exact h.ticket_lt
  · rintro hplace f ⟨hf, hle⟩
    obtain ⟨hbefore, himp⟩ := hannounced hplace
    exact himp f (h.announced hbefore f ⟨hqueue ▸ hf, hentry ▸ hle⟩)

theorem Woken.finishQueueInLoop (h : Woken w) {t : Thread} {ticket : ℕ}
    (hcall : w.calls t = .queueInLoop ticket) (hplaced : Placed (w.finishQueueInLoop t)) :
    Woken (w.finishQueueInLoop t) := by
  rw [World.finishQueueInLoop] at hplaced ⊢
  split_ifs at hplaced ⊢ with hwake
  · exact h.of_same_queue hplaced rfl rfl rfl fun hplace =>
      ⟨hplace, fun f _ => announced_wakeup _ f⟩
  · -- the loop's own thread, and no functor is running
    rw [not_or, not_not] at hwake
    refine h.of_same_queue hplaced rfl rfl rfl fun hplace => absurd hplace ?_
    have huser : w.userRuns := h.placed.calls_loop (by rw [← hwake.1, hcall]; simp)
    have hcalling := h.placed.calling_eq
    rw [Bool.eq_false_iff.mpr hwake.2] at hcalling
    rw [userRuns] at huser
    change ¬w.place.BeforeHandlers
    cases hw : w.place with
    | outside | handlers | swap => simp [Place.BeforeHandlers]
    | functors =>
      rw [hw] at hcalling
      cases hcalling
    | clearQuit | test | poll =>
      rw [hw] at huser
      exact huser.elim

theorem Woken.finishQuit (h : Woken w) {t : Thread} (hcall : w.calls t = .quit)
    (hplaced : Placed (w.finishQuit t)) : Woken (w.finishQuit t) := by
  have hset : ∀ f, w.Announced f → (w.setCall t .none).Announced f := fun f hf =>
    hf.setCall fun ticket => by rw [hcall]; simp
  rw [World.finishQuit] at hplaced ⊢
  split_ifs at hplaced ⊢
  · exact h.of_same_queue hplaced rfl rfl rfl fun hplace =>
      ⟨hplace, fun f _ => announced_wakeup _ f⟩
  · exact h.of_same_queue hplaced rfl rfl rfl fun hplace => ⟨hplace, hset⟩

theorem Woken.advance (h : Woken w) {active : List Source} (hplaced : Placed w')
    (hadvance : Advance w active w') : Woken w' := by
  cases hadvance with
  | clearQuit hplace | poll hplace =>
    exact h.of_same_queue hplaced rfl rfl rfl fun _ => ⟨by rw [hplace]; trivial, fun _ hf => hf⟩
  | runFunctor hplace | endFunctors hplace =>
    exact h.of_same_queue hplaced rfl rfl rfl fun _ => ⟨by rw [hplace]; trivial, fun _ hf => hf⟩
  | leave | report | endHandlers =>
    exact h.of_same_queue hplaced rfl rfl rfl fun hbefore => hbefore.elim
  | @handleEvent _ s todo hplace =>
    cases s with
    | wakeupFd => exact h.of_same_queue hplaced rfl rfl rfl fun hbefore => hbefore.elim
    | other fd => exact h.of_same_queue hplaced rfl rfl rfl fun hbefore => hbefore.elim
  | swap =>
    refine ⟨hplaced, ?_, ?_⟩
    · intro f hf
      cases hf
    · rintro - f ⟨hf, -⟩
      cases hf

theorem Woken.move (h : Woken w) (hmove : Move w l w') : Woken w' := by
  have hplaced := h.placed.move hmove
  cases hmove with
  | stay => exact h
  | queueInLoop g hcan => exact h.pushBack hcan g hplaced
  | runInLoop g hcan => exact h.pushBack hcan g hplaced
  | quit hcan =>
    refine h.of_same_queue hplaced rfl rfl rfl fun hplace => ⟨hplace, fun f hf => hf.setCall ?_⟩
    intro ticket
    rw [hcan.1]
    simp
  | wakeup =>
    exact h.of_same_queue hplaced rfl rfl rfl fun hplace =>
      ⟨hplace, fun f _ => announced_wakeup _ f⟩
  | finishQueueInLoop hcall => exact h.finishQueueInLoop hcall hplaced
  | finishQuit hcall => exact h.finishQuit hcall hplaced
  | loop =>
    refine ⟨hplaced, h.ticket_lt, ?_⟩
    -- nothing has been queued since
    rintro - f ⟨hf, hle⟩
    exact absurd (h.ticket_lt f hf) (Nat.not_lt.mpr hle)
  | next hidle hadvance => exact h.advance hplaced hadvance

end World

end EventLoop

end MuduoRebuild
