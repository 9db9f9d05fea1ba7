import MuduoRebuild.EventLoop.Basic
import MuduoRebuild.Foundations.Run

/-!
# Functors are started once and in order

`pendingFunctors_` and the local variable `functors` of `doPendingFunctors` are a queue that is
handed over in batches, a `Handover`. Every step of a loop is one of its steps or leaves it alone
(`handover_of_move`), so that its laws hold in every run.
-/

namespace MuduoRebuild

namespace EventLoop

open Handover (pushes starts)

/-- The functors of the batch that have not been started. -/
def Place.batch {φ : Type} : Place φ → List (Pending φ)
  | .functors _ todo => todo
  | .outside | .clearQuit | .test | .poll | .handlers .. | .swap => []

namespace World

variable {φ : Type} {w w' : World φ} {l : Label φ}

/-- What has happened to the functors. -/
def history (w : World φ) : List (Handover.Event (Pending φ)) := w.log.filterMap Event.handover?

/-- The functors, as a queue that is handed over in batches. -/
def handover (w : World φ) : Handover (Pending φ) where
  queue := w.pendingFunctors
  batch := w.place.batch
  history := w.history

theorem history_record (w : World φ) (e : Handover.Event (Pending φ)) :
    (w.record (.handover e)).history = w.history ++ [e] := by
  simp [history, record, Event.handover?]

theorem history_record_of_none (w : World φ) {e : Event φ} (he : e.handover? = none) :
    (w.record e).history = w.history := by
  simp [history, record, he]

/-- Another place without a batch is no change. -/
theorem handover_eq (hqueue : w'.pendingFunctors = w.pendingFunctors)
    (hbatch : w'.place.batch = w.place.batch) (hhistory : w'.history = w.history) :
    w'.handover = w.handover := by
  rw [handover, handover, hqueue, hbatch, hhistory]

theorem pushBack_step (w : World φ) (t : Thread) (f : φ) :
    Handover.Step w.handover (w.pushBack t f).handover := by
  have hpush := Handover.Step.push (m := w.handover)
    { functor := f, ticket := w.tickets, producer := t }
  rwa [handover, ← history_record] at hpush

theorem handover_of_advance {active : List Source} (h : Advance w active w') :
    w'.handover = w.handover ∨ Handover.Step w.handover w'.handover := by
  cases h with
  | leave h =>
    exact .inl (handover_eq rfl (by rw [h]; rfl) (history_record_of_none _ rfl))
  | @handleEvent _ s todo h =>
    cases s with
    | wakeupFd => exact .inl (handover_eq rfl (by rw [h]; rfl) rfl)
    | other fd => exact .inl (handover_eq rfl (by rw [h]; rfl) rfl)
  | swap h =>
    have hbatch : w.handover.batch = [] := by
      rw [handover, h]
      rfl
    have hswap := Handover.Step.swap hbatch
    rw [handover, ← history_record] at hswap
    exact .inr hswap
  | @runFunctor _ f todo h =>
    have hbatch : w.handover.batch = f :: todo := by
      rw [handover, h]
      rfl
    have hstart := Handover.Step.start hbatch
    rw [handover, ← history_record] at hstart
    exact .inr hstart
  | clearQuit h | poll h | report h | endHandlers h | endFunctors h =>
    exact .inl (handover_eq rfl (by rw [h]; rfl) rfl)

/-- A step changes the queue in one of its ways, or leaves it alone. -/
theorem handover_of_move (hplaced : Placed w) (h : Move w l w') :
    w'.handover = w.handover ∨ Handover.Step w.handover w'.handover := by
  cases h with
  | stay => exact .inl rfl
  | queueInLoop f => exact .inr (pushBack_step w _ f)
  | runInLoop f => exact .inr (pushBack_step w _ f)
  | quit => exact .inl (handover_eq rfl rfl (history_record_of_none _ rfl))
  | wakeup => exact .inl rfl
  | finishQueueInLoop =>
    rw [finishQueueInLoop]
    split_ifs
    · exact .inl rfl
    · exact .inl rfl
  | finishQuit =>
    rw [finishQuit]
    split_ifs
    · exact .inl (handover_eq rfl rfl (history_record_of_none _ rfl))
    · exact .inl (handover_eq rfl rfl (history_record_of_none _ rfl))
  | loop hcan hout =>
    have hplace := hplaced.place_eq_outside hout
    exact .inl (handover_eq rfl (by rw [hplace]; rfl) rfl)
  | next hidle hadvance => exact handover_of_advance hadvance

/-! ### The result -/

/-- Where the functors are that have been queued. -/
structure HandedOver (w : World φ) : Prop where
  started_prefix : starts w.history <+: pushes w.history
  /-- What has not been started is left of the batch or waits in the queue. -/
  none_lost : pushes w.history = starts w.history ++ w.place.batch ++ w.pendingFunctors
  /-- The batch ends with the last functor that was queued before the swap. -/
  batch_fixed : ∀ pre post, w.history = pre ++ .swapped :: post → .swapped ∉ post →
    pushes pre = starts w.history ++ w.place.batch

/-- What holds between any two steps. -/
structure Accounted (w : World φ) : Prop where
  placed : Placed w
  handover : w.handover.Exact

theorem accounted_init : Accounted (init : World φ) := by
  refine ⟨placed_init, rfl, ?_⟩
  intro pre post heq
  exact absurd heq.symm (List.append_ne_nil_of_right_ne_nil pre (List.cons_ne_nil _ post))

theorem Accounted.move (h : Accounted w) (hmove : Move w l w') : Accounted w' := by
  refine ⟨h.placed.move hmove, ?_⟩
  rcases handover_of_move h.placed hmove with heq | hstep
  · rw [heq]
    exact h.handover
  · exact h.handover.step hstep

theorem Accounted.handedOver (h : Accounted w) : HandedOver w :=
  ⟨h.handover.starts_prefix, h.handover.in_order, h.handover.batch_fixed⟩

theorem batch_suffix_of_advance {active : List Source} (hswap : w.place ≠ .swap)
    (h : Advance w active w') : w'.place.batch <:+ w.place.batch := by
  cases h with
  | swap h => exact absurd h hswap
  | @handleEvent _ s todo h =>
    cases s with
    | wakeupFd => exact List.nil_suffix
    | other fd => exact List.nil_suffix
  | @runFunctor _ f todo h =>
    rw [h]
    exact List.suffix_cons f todo
  | clearQuit | leave | poll | report | endHandlers | endFunctors => exact List.nil_suffix

/-- Only a swap adds functors to the batch. -/
theorem batch_suffix_of_move (hswap : w.place ≠ .swap) (h : Move w l w') :
    w'.place.batch <:+ w.place.batch := by
  cases h with
  | finishQueueInLoop =>
    rw [finishQueueInLoop]
    split_ifs
    · exact List.suffix_refl _
    · exact List.suffix_refl _
  | finishQuit =>
    rw [finishQuit]
    split_ifs
    · exact List.suffix_refl _
    · exact List.suffix_refl _
  | loop => exact List.nil_suffix
  | next hidle hadvance => exact batch_suffix_of_advance hswap hadvance
  | stay | queueInLoop | runInLoop | quit | wakeup => exact List.suffix_refl _

/-- **Exactly-once hand-over in order.** In every interleaving of calls of `queueInLoop` and
`runInLoop`, from handlers, from running functors and from other threads, with the steps of the
loop, the functors started are a prefix of the functors queued, and a batch of
`doPendingFunctors` is what was queued when it was taken: other steps only shorten it. -/
theorem handed_over (ls : List (Label φ)) :
    Machine.Along step (fun w _ r => Machine.UnlessFault (fun w' => HandedOver w' ∧
      (w.place ≠ .swap → w'.place.batch <:+ w.place.batch)) r) init ls := by
  refine Machine.along_of_step accounted_init ?_ ?_
  · intro w l h w' hstep
    have hmove := move_of_step hstep
    exact ⟨(h.move hmove).handedOver, fun hswap => batch_suffix_of_move hswap hmove⟩
  · intro w l w' h hstep
    exact h.move (move_of_step hstep)

end World

end EventLoop

end MuduoRebuild
