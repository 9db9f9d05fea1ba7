import Mathlib.Order.Nat
import MuduoRebuild.EventLoop.Basic
import MuduoRebuild.Foundations.Drain

/-!
# A loop that is told to quit ends

`quit` sets `quit_` and, in another thread than the loop's, makes the eventfd readable. The loop
tests `quit_` once in each iteration only, so it goes on with the iteration it is in: it calls the
handlers that are left, takes the queue and runs its functors. `work` counts the steps of the loop's
thread for that. Meanwhile `queueInLoop` can add to the queue, and `poll` can report channels;
`quit_leaves` says that nothing else keeps the loop from ending, and that the thread does not wait
in `poll` for good.
-/

namespace MuduoRebuild

namespace EventLoop

namespace World

variable {φ : Type} {w w' : World φ} {l : Label φ} {active : List Source}

/-- The steps that the loop's thread takes to leave `loop()`, if `quit_` is set and nothing comes
in. -/
def work (w : World φ) : ℕ :=
  match w.place with
  | .outside | .clearQuit => 0
  | .test => 1
  | .functors _ todo => todo.length + 2
  | .swap => w.pendingFunctors.length + 3
  | .handlers _ todo => todo.length + w.pendingFunctors.length + 4
  | .poll => w.pendingFunctors.length + 5

/-- One, if the loop's thread goes on in `loop()`. -/
def turn (w : World φ) : Label φ → ℕ
  | .next active => if w.Enabled (.next active) ∧ w.looping = true then 1 else 0
  | _ => 0

/-- The functors and the active channels that come in. -/
def arrival (w : World φ) : Label φ → ℕ
  | .queueInLoop .. | .runInLoop .. => 1
  | .next active =>
    match w.place with
    | .poll => active.length
    | _ => 0
  | _ => 0

/-- The loop has been told to quit, and ends with this iteration; or it has ended. -/
structure Ending (w : World φ) : Prop where
  placed : Placed w
  quit_eq : w.looping = true → w.quit = true
  place_ne : w.place ≠ .clearQuit

theorem Ending.quit_of_place (h : Ending w) (hplace : w.place.looping = true) : w.quit = true :=
  h.quit_eq (h.placed.looping_eq.trans hplace)

/-- A part of a call does not change the place, and does not clear `quit_`. -/
theorem Ending.of_place_eq (h : Ending w) (hplaced : Placed w') (hplace : w'.place = w.place)
    (hquit : w.quit = true → w'.quit = true) : Ending w' where
  placed := hplaced
  quit_eq := fun hlooping => by
    rw [hplaced.looping_eq, hplace] at hlooping
    exact hquit (h.quit_of_place hlooping)
  place_ne := hplace ▸ h.place_ne

theorem Ending.advance (h : Ending w) (hplaced : Placed w') (hadvance : Advance w active w') :
    Ending w' := by
  cases hadvance with
  | clearQuit hplace => exact absurd hplace h.place_ne
  | leave => exact ⟨hplaced, fun hlooping => (by cases hlooping), fun hplace => by cases hplace⟩
  | poll hplace hquit =>
    rw [h.quit_of_place (by rw [hplace]; rfl)] at hquit
    cases hquit
  | @handleEvent _ s todo hplace =>
    have hquit : w.quit = true := h.quit_of_place (by rw [hplace]; rfl)
    cases s with
    | wakeupFd => exact ⟨hplaced, fun _ => hquit, fun hplace => by cases hplace⟩
    | other fd => exact ⟨hplaced, fun _ => hquit, fun hplace => by cases hplace⟩
  | report hplace | endHandlers hplace | swap hplace | runFunctor hplace | endFunctors hplace =>
    have hquit : w.quit = true := h.quit_of_place (by rw [hplace]; rfl)
    exact ⟨hplaced, fun _ => hquit, fun hplace => by cases hplace⟩

theorem Ending.move (h : Ending w) (hl : l ≠ .loop) (hmove : Move w l w') : Ending w' := by
  have hplaced : Placed w' := h.placed.move hmove
  cases hmove with
  | stay => exact h
  | queueInLoop | runInLoop | wakeup => exact h.of_place_eq hplaced rfl id
  | quit => exact h.of_place_eq hplaced rfl fun _ => rfl
  | @finishQueueInLoop t =>
    rw [finishQueueInLoop] at hplaced ⊢
    split_ifs at hplaced ⊢
    · exact h.of_place_eq hplaced rfl id
    · exact h.of_place_eq hplaced rfl id
  | @finishQuit t =>
    rw [finishQuit] at hplaced ⊢
    split_ifs at hplaced ⊢
    · exact h.of_place_eq hplaced rfl id
    · exact h.of_place_eq hplaced rfl id
  | loop => exact absurd rfl hl
  | next _ hadvance => exact h.advance hplaced hadvance

/-! ### How long it takes -/

/-- What comes in between two steps of the loop's thread. -/
theorem work_le_of_place_eq (hplace : w'.place = w.place) {n : ℕ}
    (hqueue : w'.pendingFunctors.length ≤ w.pendingFunctors.length + n) :
    w'.work ≤ w.work + n := by
  rw [work, work, hplace]
  cases w.place <;> simp only <;> omega

theorem work_pushBack_le {t : Thread} {f : φ} : (w.pushBack t f).work ≤ w.work + 1 := by
  have hqueue : (w.pushBack t f).pendingFunctors.length = w.pendingFunctors.length + 1 :=
    List.length_append
  refine work_le_of_place_eq ?_ ?_
  · rfl
  · exact hqueue.le

/-- A step of the loop's thread in `loop()` does one piece of the work. -/
theorem Ending.work_next (h : Ending w) (hlooping : w.looping = true) :
    (w.next active).work + 1 = w.work + w.arrival (.next active) := by
  have hquit := h.quit_eq hlooping
  have hinside := h.placed.looping_eq
  rw [hlooping] at hinside
  cases hplace : w.place with
  | outside =>
    rw [hplace] at hinside
    cases hinside
  | clearQuit => exact absurd hplace h.place_ne
  | test => simp [next, work, hplace, hquit, arrival, leave, record]
  | poll =>
    simp only [next, work, hplace, arrival]
    omega
  | handlers running todo =>
    cases todo with
    | nil => simp [next, work, hplace, arrival]
    | cons s todo =>
      cases s <;> simp only [next, work, hplace, arrival, handleEvent, handleRead,
        List.length_cons] <;> omega
  | swap => simp [next, work, hplace, arrival, World.swap, record]
  | functors running todo =>
    cases todo with
    | nil => simp [next, work, hplace, arrival]
    | cons f todo => simp [next, work, hplace, arrival, runFunctor, record]

/-- Outside of `loop()` the loop's thread takes no step in it. -/
theorem next_of_outside (hplace : w.place = .outside) : w.next active = w := by
  rw [next, hplace]

theorem Ending.work_add_turn_le (h : Ending w) (hl : l ≠ .loop) (hok : w.step l = .ok w') :
    w'.work + w.turn l ≤ w.work + w.arrival l := by
  rw [World.step] at hok
  split_ifs at hok with henabled
  · cases l with
    | next active =>
      obtain rfl := Except.ok.inj hok
      by_cases hlooping : w.looping = true
      · rw [turn, if_pos ⟨henabled, hlooping⟩]
        exact (h.work_next hlooping).le
      · rw [turn, if_neg fun hand => hlooping hand.2,
          next_of_outside (h.placed.place_eq_outside (Bool.eq_false_iff.mpr hlooping))]
        exact Nat.le_add_right _ _
    | queueInLoop t f =>
      obtain rfl := Except.ok.inj hok
      exact work_pushBack_le
    | runInLoop t f =>
      obtain rfl := Except.ok.inj hok
      cases t with
      | loop => exact Nat.le_add_right _ _
      | other n => exact work_pushBack_le
    | quit t =>
      obtain rfl := Except.ok.inj hok
      exact work_le_of_place_eq rfl le_rfl
    | wakeup t =>
      obtain rfl := Except.ok.inj hok
      exact work_le_of_place_eq rfl le_rfl
    | finishCall t =>
      obtain rfl := Except.ok.inj hok
      rw [finishCall]
      split
      · exact le_rfl
      · rw [finishQueueInLoop]
        split_ifs
        · exact work_le_of_place_eq rfl le_rfl
        · exact work_le_of_place_eq rfl le_rfl
      · rw [finishQuit]
        split_ifs
        · exact work_le_of_place_eq rfl le_rfl
        · exact work_le_of_place_eq rfl le_rfl
    | loop => exact absurd rfl hl
  · obtain rfl := Except.ok.inj hok
    have hturn : w.turn l = 0 := by
      cases l with
      | next active => exact if_neg fun hand => henabled hand.1
      | _ => rfl
    rw [hturn]
    exact Nat.le_add_right _ _

/-- In `loop()` there is work left. -/
theorem Ending.work_pos (h : Ending w) (hlooping : w.looping = true) : 0 < w.work := by
  have hinside := h.placed.looping_eq
  rw [hlooping] at hinside
  cases hplace : w.place with
  | outside =>
    rw [hplace] at hinside
    cases hinside
  | clearQuit => exact absurd hplace h.place_ne
  | test | poll | handlers | swap | functors => simp [work, hplace]

/-! ### The end of a poll -/

/-- While the loop's thread is in `poll` after a `quit`, the eventfd is readable, or the call of
`quit` has not written to it yet. -/
structure Roused (w : World φ) : Prop where
  placed : Placed w
  roused : w.place = .poll → w.quit = true → 0 < w.counter ∨ ∃ t, w.calls t = .quit

theorem roused_init : Roused (init : World φ) := ⟨placed_init, fun hplace => by cases hplace⟩

/-- A call that is not `quit` begins or ends. -/
theorem Roused.of_call (h : Roused w) (hplaced : Placed w') {t : Thread} {call : Call}
    (hcall : w.calls t ≠ .quit) (hplace : w'.place = w.place) (hquit : w'.quit = w.quit)
    (hcounter : w'.counter = w.counter) (hcalls : w'.calls = Function.update w.calls t call) :
    Roused w' := by
  refine ⟨hplaced, fun hpoll hq => ?_⟩
  rw [hplace] at hpoll
  rw [hquit] at hq
  refine (h.roused hpoll hq).imp (hcounter ▸ ·) fun ⟨u, hu⟩ => ⟨u, ?_⟩
  have hne : u ≠ t := fun heq => hcall (heq ▸ hu)
  rw [hcalls, Function.update_of_ne hne, hu]

theorem Roused.of_counter_pos (hplaced : Placed w) (hcounter : 0 < w.counter) : Roused w :=
  ⟨hplaced, fun _ _ => .inl hcounter⟩

theorem Roused.advance (hplaced : Placed w') (hadvance : Advance w active w') : Roused w' := by
  refine ⟨hplaced, fun hpoll hquit => ?_⟩
  cases hadvance with
  | poll _ hq =>
    rw [hq] at hquit
    cases hquit
  | @handleEvent _ s todo hplace => cases s <;> cases hpoll
  | clearQuit | leave | report | endHandlers | swap | runFunctor | endFunctors => cases hpoll

theorem Roused.move (h : Roused w) (hmove : Move w l w') : Roused w' := by
  have hplaced : Placed w' := h.placed.move hmove
  cases hmove with
  | stay => exact h
  | queueInLoop f hcan =>
    exact h.of_call hplaced (by rw [hcan.1]; simp) rfl rfl rfl rfl
  | runInLoop f hcan =>
    exact h.of_call hplaced (by rw [hcan.1]; simp) rfl rfl rfl rfl
  | @quit t => exact ⟨hplaced, fun _ _ => .inr ⟨t, Function.update_self ..⟩⟩
  | wakeup => exact .of_counter_pos hplaced (counter_wakeup_pos w)
  | @finishQueueInLoop t ticket hcall =>
    rw [finishQueueInLoop] at hplaced ⊢
    split_ifs at hplaced ⊢
    · exact .of_counter_pos hplaced (counter_wakeup_pos _)
    · exact h.of_call hplaced (by rw [hcall]; simp) rfl rfl rfl rfl
  | @finishQuit t hcall =>
    have huser := h.placed.calls_loop
    rw [finishQuit] at hplaced ⊢
    split_ifs at hplaced ⊢ with ht
    · exact .of_counter_pos hplaced (counter_wakeup_pos _)
    · -- the loop's thread is in no call while it is in `poll`
      rw [not_not] at ht
      refine ⟨hplaced, fun hpoll _ => ?_⟩
      have hplace : w.place = .poll := hpoll
      rw [← ht, hcall, userRuns, hplace] at huser
      exact (huser (by simp)).elim
  | loop => exact ⟨hplaced, fun hpoll => by cases hpoll⟩
  | next _ hadvance => exact .advance hplaced hadvance

/-- **A loop that is told to quit ends.** Let `quit_` be set while the loop's thread is past the
beginning of `loop()`, in any state that a run reaches. However the calls of the threads are
interleaved from there on, until `loop()` is called again its thread takes at most `work` steps in
it, one more for each functor that is queued and one for each channel that `poll` reports; if it is
still in `loop()`, it has taken fewer. And while it is in `poll`, the eventfd is readable or the
`quit()` is about to make it so. -/
theorem quit_leaves {ls more : List (Label φ)} (hrun : Machine.run step init ls = .ok w)
    (hquit : w.quit = true) (hplace : w.place ≠ .clearQuit) (hloop : ∀ l ∈ more, l ≠ .loop)
    (hmore : Machine.run step w more = .ok w') :
    Machine.cost step turn w more ≤ w.work + Machine.cost step arrival w more ∧
      (w'.looping = true →
        Machine.cost step turn w more < w.work + Machine.cost step arrival w more) ∧
      (w'.place = .poll → 0 < w'.counter ∨ ∃ t, w'.calls t = .quit) := by
  have hroused : Roused w :=
    Machine.invariant_of_run roused_init (fun _ _ _ h hok => Roused.move h (move_of_step hok)) hrun
  have hroused' : Roused w' :=
    Machine.invariant_of_run hroused (fun _ _ _ h hok => Roused.move h (move_of_step hok)) hmore
  have hending : Ending w := ⟨hroused.placed, fun _ => hquit, hplace⟩
  have hstep : ∀ (v : World φ) l v', Ending v → l ≠ .loop → step v l = .ok v' →
      Ending v' ∧ v'.work + v.turn l ≤ v.work + v.arrival l := fun v l v' h hl hok =>
    ⟨h.move hl (move_of_step hok), h.work_add_turn_le hl hok⟩
  obtain ⟨hending', hwork⟩ := Machine.work_add_cost_le hstep hending hloop hmore
  refine ⟨by omega, fun hlooping => ?_, fun hpoll => ?_⟩
  · have hpos := hending'.work_pos hlooping
    omega
  · exact hroused'.roused hpoll (hending'.quit_of_place (by rw [hpoll]; rfl))

/-- Another thread quits while the loop is in `poll`, and a third one queues a functor. -/
theorem quit_leaves_polling : ∃ w w' : World Unit,
    Machine.run step init [.loop, .next [], .next [], .quit (.other 0)] = .ok w ∧
    Machine.run step w [.finishCall (.other 0), .queueInLoop (.other 1) (), .next [.wakeupFd],
      .next [], .next [], .next [], .next [], .next [], .next []] = .ok w' ∧
    w'.looping = false ∧
    Machine.cost step turn w [.finishCall (.other 0), .queueInLoop (.other 1) (),
      .next [.wakeupFd], .next [], .next [], .next [], .next [], .next [], .next []] ≤ 7 := by
  have hrun : Machine.run step (init : World Unit) [.loop, .next [], .next [], .quit (.other 0)] =
    .ok _ := rfl
  exact ⟨_, _, hrun, rfl, rfl, (quit_leaves hrun rfl (by decide) (by decide) rfl).1⟩

end World

end EventLoop

end MuduoRebuild
