import MuduoRebuild.Foundations.Run
import MuduoRebuild.TimerQueue.Operations

/-!
# Who owns a timer

`Consistent` is the invariant of a timer queue between two steps: every timer is in its place,
and none is in the hands of an operation. Every step keeps it and takes place without a fault.

`ownership` reads the invariant out: in every run no `assert` fails and no deleted timer is
touched, and between any two steps the two sets mirror each other and every timer that was ever
inserted is scheduled, or in the batch in progress, or has been deleted, once.
-/

namespace MuduoRebuild

namespace TimerQueue

open Fallible

namespace World

variable {w w' : World} {batch : List Entry} {place : Address → Place} {a : Address} {t : Timer}

/-- The batch of expired timers between two steps. -/
def expired (w : World) : List Entry := w.round.elim [] Round.expired

/-- What holds between any two steps. -/
structure Consistent (w : World) : Prop where
  owned : ∃ place, Owned w w.expired place ∧ NoneInHand place
  calling_iff : w.callingExpiredTimers = w.round.isSome
  todo_suffix : ∀ r ∈ w.round, r.todo <:+ r.expired

theorem consistent_init : Consistent init := by
  have hnone : ∀ a : Address, ¬(Place.free = .scheduled) := fun _ h => by cases h
  refine ⟨⟨fun _ => .free, ⟨fun a => ⟨fun _ => rfl, fun _ => rfl⟩, fun x a => ?_, fun a n => ?_,
    fun a => ?_, List.nodup_nil, fun a => ?_, List.nodup_nil, fun a h => absurd rfl h,
    fun a t h => ?_, fun a b t u h => ?_, fun id => ?_, fun n h => ?_, List.nodup_nil⟩,
    fun a => ⟨fun h => (by cases h), fun h => (by cases h)⟩⟩, rfl, fun r h => ?_⟩
  · exact iff_of_false OrderedSet.not_mem_empty fun h => hnone a h.1
  · exact iff_of_false OrderedSet.not_mem_empty fun h => hnone a h.1
  · exact iff_of_false List.not_mem_nil fun h => by cases h
  · exact iff_of_false List.not_mem_nil fun h => by cases h
  · cases h
  · cases h
  · refine iff_of_false List.not_mem_nil ?_
    rintro (h | ⟨-, h⟩)
    · cases h
    · exact h
  · cases h
  · cases h

/-! ### Steps -/

/-- `cancelInLoop` keeps the invariant, for any `TimerId`. -/
theorem Consistent.cancelInLoop (h : Consistent w) (id : TimerId) :
    ∃ w', w.cancelInLoop id = .ok w' ∧ Consistent w' := by
  obtain ⟨place, howned, hhand⟩ := h.owned
  by_cases hactive : id.active ∈ w.activeTimers
  · obtain ⟨t, -, -, w', rfl, hcancel, hnext⟩ := howned.cancelInLoop_of_active hactive
    exact ⟨_, hcancel, ⟨_, hnext, hhand.update (by decide)⟩, h.calling_iff, h.todo_suffix⟩
  · obtain ⟨w', heq, hcancel, hnext⟩ := howned.cancelInLoop_of_not_active hactive
    refine ⟨w', hcancel, ?_⟩
    have hround : w'.round = w.round ∧ w'.callingExpiredTimers = w.callingExpiredTimers := by
      rw [heq]
      split_ifs <;> exact ⟨rfl, rfl⟩
    refine ⟨⟨place, ?_, hhand⟩, ?_, ?_⟩
    · rwa [expired, hround.1]
    · rw [hround.1, hround.2]
      exact h.calling_iff
    · rw [hround.1]
      exact h.todo_suffix

/-- `addTimerInLoop` of a new timer leaves every timer in its place. -/
theorem Owned.consistent_addTimerInLoop
    (howned : Owned w w.expired (Function.update place a .fresh)) (hhand : NoneInHand place)
    (hcalling : w.callingExpiredTimers = w.round.isSome)
    (htodo : ∀ r ∈ w.round, r.todo <:+ r.expired) (clock : ℤ) :
    ∃ w', w.addTimerInLoop clock a = .ok w' ∧ Consistent w' := by
  obtain ⟨t, -, hlink, hadd⟩ := howned.addTimerInLoop (Function.update_self ..) clock
  rw [Function.update_idem] at hlink
  have hhand' : NoneInHand (Function.update place a .scheduled) := hhand.update (by decide)
  rcases hadd with hadd | hadd
  · exact ⟨_, hadd, ⟨_, hlink, hhand'⟩, hcalling, htodo⟩
  · exact ⟨_, hadd, ⟨_, { hlink with }, hhand'⟩, hcalling, htodo⟩

/-- `addTimer`, from the loop thread or another. -/
theorem Consistent.addTimer (h : Consistent w) (ha : w.heap a = none) (hmax : a < uintptrMax)
    (inLoop : Bool) (when_ interval : ℤ) (repeats : Bool) (clock : ℤ) :
    ∃ w', (w.newTimer a when_ interval repeats).runInLoop inLoop clock (.addTimerInLoop a) =
      .ok w' ∧ Consistent w' := by
  obtain ⟨place, howned, hhand⟩ := h.owned
  have hnew := howned.newTimer ha hmax when_ interval repeats
  cases inLoop with
  | true => exact hnew.consistent_addTimerInLoop hhand h.calling_iff h.todo_suffix clock
  | false =>
    have hqueue := hnew.queueAdd (Function.update_self ..)
    rw [Function.update_idem] at hqueue
    exact ⟨_, rfl, ⟨_, hqueue, hhand.update (by decide)⟩, h.calling_iff, h.todo_suffix⟩

/-- `cancel`, from the loop thread or another. -/
theorem Consistent.cancel (h : Consistent w) (inLoop : Bool) (id : TimerId) :
    ∃ w', w.runInLoop inLoop 0 (.cancelInLoop id) = .ok w' ∧ Consistent w' := by
  cases inLoop with
  | true => exact h.cancelInLoop id
  | false =>
    obtain ⟨place, howned, hhand⟩ := h.owned
    exact ⟨_, rfl, ⟨place, howned.queueCancel id, hhand⟩, h.calling_iff, h.todo_suffix⟩

/-- One functor of the loop's queue. -/
theorem Consistent.runFunctor (h : Consistent w) (clock : ℤ) :
    ∃ w', w.act (.runFunctor clock) = .ok w' ∧ Consistent w' := by
  obtain ⟨place, howned, hhand⟩ := h.owned
  simp only [act]
  cases hfs : w.pendingFunctors with
  | nil => exact ⟨w, rfl, h⟩
  | cons f fs =>
    cases f with
    | addTimerInLoop a =>
      obtain ⟨-, hpop⟩ := howned.popAdd hfs
      exact hpop.consistent_addTimerInLoop hhand h.calling_iff h.todo_suffix clock
    | cancelInLoop id =>
      have hpop : Consistent { w with pendingFunctors := fs } :=
        ⟨⟨place, howned.popCancel hfs, hhand⟩, h.calling_iff, h.todo_suffix⟩
      exact hpop.cancelInLoop id

/-- The beginning of `handleRead`. -/
theorem Consistent.handleRead (h : Consistent w) (hround : w.round = none) (now clock : ℤ) :
    ∃ w', w.handleRead now clock = .ok w' ∧ Consistent w' := by
  obtain ⟨place, howned, hhand⟩ := h.owned
  rw [expired, hround] at howned
  have hread : Owned (w.readTimerfd clock) [] place := { howned with }
  obtain ⟨active', hget, hnext⟩ := hread.getExpired now
  refine ⟨_, bind_of_ok hget _, ⟨_, { hnext with }, fun b => ?_⟩, rfl, ?_⟩
  · rw [Place.expire]
    split_ifs
    · decide
    · exact hhand b
  · rintro r hr
    obtain rfl := Option.some.inj hr
    exact List.suffix_refl _

/-- The next callback. -/
theorem Consistent.runNext (h : Consistent w) : ∃ w', w.runNext = .ok w' ∧ Consistent w' := by
  obtain ⟨place, howned, hhand⟩ := h.owned
  rw [World.runNext]
  split
  · next now batch e todo hround =>
    rw [expired, hround] at howned
    have hsuffix : e :: todo <:+ batch := h.todo_suffix _ hround
    have hplace : place e.timer = .expired :=
      (howned.expired_iff _).mp (List.mem_map_of_mem (hsuffix.subset List.mem_cons_self))
    obtain ⟨t, ht⟩ := howned.exists_timer (a := e.timer) (by rw [hplace]; decide)
    refine ⟨_, bind_of_ok (deref_of ht) _, ⟨place, ?_, hhand⟩, ?_, ?_⟩
    · exact Owned.record (w := { w with round := some ⟨now, batch, todo⟩ }) { howned with }
        (fun _ => by simp) rfl
    · refine h.calling_iff.trans ?_
      rw [hround]
      rfl
    · rintro r hr
      obtain rfl := Option.some.inj hr
      exact (List.suffix_cons e todo).trans hsuffix
  · exact ⟨w, rfl, h⟩

/-- The end of `handleRead`. -/
theorem Consistent.finish (h : Consistent w) (clock : ℤ) :
    ∃ w', w.finish clock = .ok w' ∧ Consistent w' := by
  obtain ⟨place, howned, hhand⟩ := h.owned
  rw [World.finish]
  split
  · next now batch hround =>
    rw [expired, hround] at howned
    have hcalled : Owned { w with callingExpiredTimers := false, round := none } batch place :=
      { howned with }
    obtain ⟨w', place', hreset, hnext, hhand', hresets⟩ := hcalled.reset hhand clock now
    have hround : w'.round = none := hresets.round_eq
    refine ⟨w', hreset, ⟨place', ?_, hhand'⟩, ?_, ?_⟩
    · rwa [expired, hround]
    · rw [hround]
      exact hresets.calling_eq
    · rw [hround]
      rintro r hr
      cases hr
  · exact ⟨w, rfl, h⟩

/-- Every step takes place without a fault and keeps the invariant. -/
theorem Consistent.step (h : Consistent w) (l : Label) :
    ∃ w', w.step l = .ok w' ∧ Consistent w' := by
  rw [World.step]
  split_ifs with henabled
  · cases l with
    | addTimer inLoop a when_ interval repeats clock =>
      exact h.addTimer henabled.1.1 henabled.1.2.2 inLoop when_ interval repeats clock
    | cancel inLoop id => exact h.cancel inLoop id
    | runFunctor clock => exact h.runFunctor clock
    | handleRead now clock => exact h.handleRead henabled now clock
    | runNext => exact h.runNext
    | finish clock => exact h.finish clock
  · exact ⟨w, rfl, h⟩

theorem Consistent.of_step (h : Consistent w) {l : Label} (hok : w.step l = .ok w') :
    Consistent w' := by
  obtain ⟨w'', hstep, h'⟩ := h.step l
  obtain rfl := Except.ok.inj (hok.symm.trans hstep)
  exact h'

/-- Every state that a run reaches. -/
theorem consistent_of_run {ls : List Label} (hrun : Machine.run step init ls = .ok w) :
    Consistent w :=
  Machine.invariant_of_run consistent_init (fun _ _ _ h => h.of_step) hrun

/-! ### The result -/

/-- Exactly one of three statements is true. -/
def ExactlyOne (p q r : Prop) : Prop := p ∧ ¬q ∧ ¬r ∨ ¬p ∧ q ∧ ¬r ∨ ¬p ∧ ¬q ∧ r

/-- The representation and the ownership of timers, between two steps. -/
structure Ownership (w : World) : Prop where
  /-- The two sets are built from one and the same set of live timers. -/
  mirror : ∃ scheduled : Set Address,
    (∀ a ∈ scheduled, w.heap a ≠ none) ∧
    (∀ e : Entry, e ∈ w.timers ↔
      e.timer ∈ scheduled ∧ ∃ t, w.heap e.timer = some t ∧ t.expiration = e.time) ∧
    ∀ p : ActiveTimer, p ∈ w.activeTimers ↔
      p.timer ∈ scheduled ∧ ∃ t, w.heap p.timer = some t ∧ p = toLex (p.timer, t.sequence)
  /-- A timer that was ever inserted is scheduled, or in the batch, or deleted. -/
  one_place : ∀ id, .inserted id ∈ w.log →
    ExactlyOne (id.active ∈ w.activeTimers) (w.Live id ∧ id.timer ∈ w.expired.map Entry.timer)
      (.deleted id ∈ w.log)
  /-- No timer is deleted twice. -/
  deleted_once : (deletions w.log).Nodup

theorem Consistent.represents (h : Consistent w) : Ownership w := by
  obtain ⟨place, howned, hhand⟩ := h.owned
  refine ⟨⟨{a | place a = .scheduled}, fun a ha hnone => ?_, fun e => howned.timers_iff _ _,
    fun p => ?_⟩, fun id hid => ?_, howned.deleted_once⟩
  · rw [howned.free_iff, ha] at hnone
    cases hnone
  · refine (howned.active_iff p.timer (ofLex p).2).trans (and_congr_right fun _ => ?_)
    refine exists_congr fun t => and_congr_right fun _ => ?_
    exact ⟨fun hseq => Prod.ext rfl hseq.symm, fun heq => (congrArg (Prod.snd ∘ ofLex) heq).symm⟩
  · have hactive := howned.active_iff id.timer id.sequence
    have hexpired := howned.expired_iff id.timer
    have hgone : .deleted id ∈ w.log → ¬w.Live id := by
      rintro hdel ⟨t, ht, hseq⟩
      have hmem : id.sequence ∈ deletions w.log := List.mem_filterMap.mpr ⟨_, hdel, rfl⟩
      exact (howned.deleted_gone _ hmem).2 _ t ht hseq
    change id.active ∈ w.activeTimers ↔ place id.timer = .scheduled ∧ w.Live id at hactive
    rw [ExactlyOne, hactive, hexpired]
    rcases (howned.inserted_iff id).mp hid with hdel | ⟨hlive, hsettled⟩
    · have hdead := hgone hdel
      exact .inr (.inr ⟨fun hs => hdead hs.2, fun he => hdead he.1, hdel⟩)
    · have hkept : .deleted id ∉ w.log := fun hdel => hgone hdel hlive
      cases hplace : place id.timer with
      | scheduled =>
        refine .inl ⟨⟨rfl, hlive⟩, fun he => ?_, hkept⟩
        cases he.2
      | expired =>
        refine .inr (.inl ⟨fun hs => ?_, ⟨hlive, rfl⟩, hkept⟩)
        cases hs.1
      | held => exact absurd hplace (hhand _).2
      | free | fresh | queued =>
        -- a timer that has never been inserted
        rw [hplace] at hsettled
        exact hsettled.elim

end World

end TimerQueue

end MuduoRebuild
