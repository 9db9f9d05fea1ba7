import MuduoRebuild.TimerQueue.Identity

/-!
# `addTimer` from another thread

`TimerQueue::addTimer` creates a timer, hands it to the loop thread through `runInLoop`, and only
then reads its sequence number, to return it in the `TimerId`. In a thread other than the loop's
these are two steps, and the loop thread may insert the timer, run its callback and delete it
between them.

`Callers` is a timer queue together with the threads that are between the two steps. `Waits` says
that a step of the loop thread disposes of none of their timers. `addTimer_returns_iff` says that
this is exactly what `addTimer` needs to find the timer alive and to return its own `TimerId`.
-/

namespace MuduoRebuild

namespace TimerQueue

open Fallible

namespace World

/-- The step deletes the timer: by a cancel that finds it scheduled, or at the end of a round whose
batch it is in, if it is a one-shot timer or there is a note of its cancellation. -/
def Disposes (w : World) (l : Label) (id : TimerId) : Prop :=
  w.Executes l id ∧ id.active ∈ w.activeTimers ∨
    ∃ clock now batch t, l = .finish clock ∧ w.round = some ⟨now, batch, []⟩ ∧
      id.timer ∈ batch.map Entry.timer ∧ w.heap id.timer = some t ∧ t.sequence = id.sequence ∧
      ¬(t.repeats = true ∧ id.active ∉ w.cancelingTimers)

variable {w w' : World} {l : Label} {id : TimerId}

/-- A step deletes the timers that it disposes of. -/
theorem Consistent.not_live_of_disposes (h : Consistent w) (hok : w.step l = .ok w')
    (hdisposes : w.Disposes l id) : ¬w'.Live id := by
  rintro ⟨u, hu, -⟩
  rcases hdisposes with ⟨hexec, hactive⟩ | ⟨clock, now, batch, t, rfl, hround, hmem, ht, hseq, hnot⟩
  · obtain ⟨fs, hcancels, -⟩ := h.executes hexec hok
    cases (hcancels.gone hactive).symm.trans hu
  · obtain ⟨hre, -⟩ := h.rearranges_of_finish hround hok
    have hkey : (toLex (id.timer, t.sequence) : ActiveTimer) = id.active := by
      rw [hseq]
      rfl
    cases (hre.gone id.timer hmem t ht (hkey ▸ hnot)).symm.trans hu

/-- A step deletes no other timers. -/
theorem Consistent.live_of_not_disposes (h : Consistent w) (hok : w.step l = .ok w')
    (hid : w.Live id) (hnot : ¬w.Disposes l id) : w'.Live id := by
  by_cases hexec : ∃ i, w.Executes l i
  · obtain ⟨i, hexec⟩ := hexec
    obtain ⟨fs, hcancels, -⟩ := h.executes hexec hok
    refine (hcancels.keeps id.timer fun hactive heq => ?_).live_iff.mpr hid
    -- the timer that is deleted would be this one
    obtain ⟨place, howned, -⟩ := h.owned
    have hi := ((howned.active_iff i.timer i.sequence).mp hactive).2
    obtain rfl := hid.eq hi heq
    exact hnot (.inl ⟨hexec, hactive⟩)
  rw [World.step] at hok
  split_ifs at hok with henabled
  · cases l with
    | addTimer inLoop a when_ interval repeats clock =>
      refine (keeps_addTimer hok ?_).live_iff.mpr hid
      rintro rfl
      obtain ⟨t, ht, -⟩ := hid
      cases ht.symm.trans henabled.1.1
    | cancel inLoop i =>
      cases inLoop with
      | true => exact absurd ⟨i, henabled, rfl⟩ hexec
      | false => exact Except.ok.inj hok ▸ hid
    | runFunctor clock =>
      simp only [act] at hok
      split at hok
      · next f fs hfs =>
        cases f with
        | addTimerInLoop a =>
          obtain ⟨t, -, ⟨-, rfl⟩ | ⟨-, rfl⟩⟩ := addTimerInLoop_eq_ok hok
          · exact hid
          · exact hid
        | cancelInLoop i =>
          refine absurd ⟨i, henabled, ?_⟩ hexec
          simp only [World.cancels, hfs]
      · exact Except.ok.inj hok ▸ hid
    | handleRead now clock =>
      obtain ⟨place, howned, -⟩ := h.owned
      rw [expired, henabled] at howned
      have hread : Owned (w.readTimerfd clock) [] place := { howned with }
      obtain ⟨active', hget, -⟩ := hread.getExpired now
      obtain rfl := Except.ok.inj (hok.symm.trans (bind_of_ok hget _))
      exact hid
    | runNext =>
      rw [act, World.runNext] at hok
      split at hok
      · obtain ⟨t, -, hok⟩ := bind_eq_ok.mp hok
        obtain rfl := Except.ok.inj hok
        exact hid
      · exact Except.ok.inj hok ▸ hid
    | finish clock =>
      cases hround : w.round with
      | none =>
        rw [act, World.finish, hround] at hok
        exact Except.ok.inj hok ▸ hid
      | some r =>
        obtain ⟨now, batch, todo⟩ := r
        cases todo with
        | cons e todo =>
          rw [act, World.finish, hround] at hok
          exact Except.ok.inj hok ▸ hid
        | nil =>
          obtain ⟨hre, -⟩ := h.rearranges_of_finish hround hok
          obtain ⟨t, ht, hseq⟩ := hid
          have hkey : (toLex (id.timer, t.sequence) : ActiveTimer) = id.active := by
            rw [hseq]
            rfl
          by_cases hmem : id.timer ∈ batch.map Entry.timer
          · have hagain : t.repeats = true ∧ id.active ∉ w.cancelingTimers := by
              by_contra hgone
              exact hnot (.inr ⟨clock, now, batch, t, rfl, hround, hmem, ht, hseq, hgone⟩)
            obtain ⟨hheap, -⟩ :=
              hre.again id.timer hmem t ht hagain.1 (hkey ▸ hagain.2)
            exact ⟨_, hheap, hseq⟩
          · exact ((hre.keeps id.timer hmem).live_iff).mpr ⟨t, ht, hseq⟩
  · exact Except.ok.inj hok ▸ hid

end World

/-! ### Threads inside `addTimer` -/

/-- A timer queue, and the threads that have handed a timer to it and not read its number yet. -/
structure Callers where
  world : World
  /-- The timer that a thread has created and handed over. -/
  reading : ℕ → Option TimerId
  /-- The timers created by calls that have returned, with what these have returned. -/
  returned : List (TimerId × TimerId)

namespace Callers

open World (Consistent Live Disposes)

/-- A queue after its construction, without callers. -/
def init : Callers := ⟨.init, fun _ => none, []⟩

/-- A step of a thread that is inside `addTimer`, or of any other. -/
inductive Label where
  /-- `new Timer`, and `runInLoop` from a thread other than the loop's. -/
  | handOver (thread : ℕ) (a : Address) (when_ interval : ℤ) (repeats : Bool)
  /-- `return TimerId(timer, timer->sequence())`. -/
  | readSequence (thread : ℕ)
  | other (l : World.Label)

variable (s : Callers)

def step : Label → Except Fault Callers
  | .handOver thread a when_ interval repeats =>
    let l : World.Label := .addTimer false a when_ interval repeats 0
    if s.reading thread = none ∧ s.world.Enabled l then do
      let world ← s.world.step l
      return { s with
        world
        reading := Function.update s.reading thread (some ⟨a, s.world.seq⟩) }
    else
      .ok s
  | .readSequence thread =>
    match s.reading thread with
    | some id => do
      let t ← s.world.deref id.timer
      return { s with
        reading := Function.update s.reading thread none
        returned := s.returned ++ [(id, ⟨id.timer, t.sequence⟩)] }
    | none => .ok s
  | .other l => do
    let world ← s.world.step l
    return { s with world }

/-- Every timer whose number is still to be read is alive, and every call that has returned has
returned the timer that it created. -/
structure Returns : Prop where
  live : ∀ thread id, s.reading thread = some id → s.world.Live id
  returned : ∀ p ∈ s.returned, p.2 = p.1

/-- The step disposes of no timer whose number is still to be read. -/
def Waits : Label → Prop
  | .other l => ∀ thread id, s.reading thread = some id → ¬s.world.Disposes l id
  | .handOver .. | .readSequence _ => True

variable {s} {s' : Callers} {l : Label}

/-- What holds between any two steps of a run in which nothing has gone wrong so far. -/
structure Sound (s : Callers) : Prop extends Returns s where
  consistent : Consistent s.world

theorem sound_init : Sound init where
  live := fun _ _ h => by cases h
  returned := fun _ h => by cases h
  consistent := World.consistent_init

/-- The hand-over of a new timer. -/
theorem Sound.handOver (h : Sound s) (thread : ℕ) (a : Address) (when_ interval : ℤ)
    (repeats : Bool) :
    ∃ s', s.step (.handOver thread a when_ interval repeats) = .ok s' ∧ Returns s' := by
  by_cases henabled : s.reading thread = none ∧
      s.world.Enabled (.addTimer false a when_ interval repeats 0)
  · obtain ⟨world, hok, -⟩ := h.consistent.step (.addTimer false a when_ interval repeats 0)
    refine ⟨_, (if_pos henabled).trans (bind_of_ok hok _), fun u id hid => ?_, h.returned⟩
    dsimp only at hid ⊢
    rw [Function.update_apply] at hid
    split_ifs at hid with hu
    · -- the new timer is in the heap
      obtain rfl := Option.some.inj hid
      have hact := (if_pos henabled.2).symm.trans hok
      obtain rfl := Except.ok.inj hact
      exact ⟨_, Function.update_self .., rfl⟩
    · refine h.consistent.live_of_not_disposes hok (h.live u id hid) ?_
      rintro (⟨hexec, -⟩ | ⟨_, _, _, _, hl, -⟩)
      · cases hexec.2
      · cases hl
  · exact ⟨s, if_neg henabled, h.toReturns⟩

/-- The number of a timer that is alive is its own. -/
theorem Sound.readSequence (h : Sound s) (thread : ℕ) :
    ∃ s', s.step (.readSequence thread) = .ok s' ∧ Returns s' := by
  simp only [step]
  cases hid : s.reading thread with
  | none => exact ⟨s, rfl, h.toReturns⟩
  | some id =>
    obtain ⟨t, ht, hseq⟩ := h.live thread id hid
    refine ⟨_, bind_of_ok (World.deref_of ht) _, fun u i hi => ?_, fun p hp => ?_⟩
    · dsimp only at hi
      rw [Function.update_apply] at hi
      split_ifs at hi with hu
      exact h.live u i hi
    · rcases List.mem_append.mp hp with hp | hp
      · exact h.returned p hp
      · obtain rfl := List.mem_singleton.mp hp
        rw [hseq]

/-- Any other step goes well exactly if it waits for the threads inside `addTimer`. -/
theorem Sound.other (h : Sound s) (l : World.Label) :
    ∃ s', s.step (.other l) = .ok s' ∧ (Returns s' ↔ s.Waits (.other l)) := by
  obtain ⟨world, hok, -⟩ := h.consistent.step l
  refine ⟨_, bind_of_ok hok _, fun hreturns thread id hid hdisposes => ?_, fun hwaits => ?_⟩
  · exact h.consistent.not_live_of_disposes hok hdisposes (hreturns.live thread id hid)
  · refine ⟨fun thread id hid => ?_, h.returned⟩
    exact h.consistent.live_of_not_disposes hok (h.live thread id hid) (hwaits thread id hid)

/-- The world of a step that succeeds. -/
theorem Sound.consistent_step (h : Sound s) (hok : s.step l = .ok s') : Consistent s'.world := by
  cases l with
  | handOver thread a when_ interval repeats =>
    rw [step] at hok
    split_ifs at hok with henabled
    · obtain ⟨world, hworld, hok⟩ := bind_eq_ok.mp hok
      exact Except.ok.inj hok ▸ h.consistent.of_step hworld
    · exact Except.ok.inj hok ▸ h.consistent
  | readSequence thread =>
    simp only [step] at hok
    split at hok
    · obtain ⟨t, -, hok⟩ := bind_eq_ok.mp hok
      exact Except.ok.inj hok ▸ h.consistent
    · exact Except.ok.inj hok ▸ h.consistent
  | other l =>
    obtain ⟨world, hworld, hok⟩ := bind_eq_ok.mp hok
    exact Except.ok.inj hok ▸ h.consistent.of_step hworld

/-- A step goes well exactly if it waits. -/
theorem Sound.succeeds_iff (h : Sound s) (l : Label) :
    Machine.Succeeds Returns (s.step l) ↔ s.Waits l := by
  cases l with
  | handOver thread a when_ interval repeats =>
    exact iff_of_true (h.handOver thread a when_ interval repeats) trivial
  | readSequence thread => exact iff_of_true (h.readSequence thread) trivial
  | other l =>
    obtain ⟨s', hok, hiff⟩ := h.other l
    refine Iff.trans ⟨?_, fun hreturns => ⟨s', hok, hreturns⟩⟩ hiff
    rintro ⟨s'', hok', hreturns⟩
    exact Except.ok.inj (hok'.symm.trans hok) ▸ hreturns

/-- **When `addTimer` returns the timer that it has created.** In every interleaving of threads that
call `addTimer` with the steps of the loop thread, no step touches a deleted timer, every timer is
alive until its creator has read its number, and every call returns the timer that it has created,
if and only if no step of the loop thread disposes of a timer whose creator has not read its number
yet. -/
theorem addTimer_returns_iff (ls : List Label) :
    Machine.Along step (Machine.onResult (Machine.Succeeds Returns)) init ls ↔
      Machine.Along step (Machine.onInput Waits) init ls := by
  refine Machine.along_iff_along sound_init (fun s l h => h.succeeds_iff l) ?_
  rintro s l s' h ⟨s'', hok', hreturns⟩ hok
  obtain rfl := Except.ok.inj (hok'.symm.trans hok)
  exact ⟨hreturns, h.consistent_step hok⟩

/-- A thread has handed over a timer that is due at once, and the loop thread has inserted it, run
its callback and deleted it. -/
def overtaken : List Label :=
  [.handOver 0 16 100 0 false, .other (.runFunctor 110), .other (.handleRead 200 200),
    .other .runNext, .other (.finish 210)]

/-- The thread reads the number of a deleted timer, or of another timer at the same address. -/
theorem addTimer_overtaken :
    (∃ s, Machine.run step init overtaken = .ok s ∧ s.reading 0 = some ⟨16, 0⟩ ∧
      ¬s.world.Live ⟨16, 0⟩ ∧ s.step (.readSequence 0) = .error .outOfBounds) ∧
    ∃ s, Machine.run step init
        (overtaken ++ [.other (.addTimer true 16 300 0 false 220), .readSequence 0]) = .ok s ∧
      s.returned = [(⟨16, 0⟩, ⟨16, 1⟩)] := by
  refine ⟨⟨_, rfl, rfl, ?_, rfl⟩, _, rfl, rfl⟩
  rintro ⟨t, ht, -⟩
  cases ht

end Callers

end TimerQueue

end MuduoRebuild
