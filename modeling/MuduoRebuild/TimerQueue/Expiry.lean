import MuduoRebuild.TimerQueue.Ownership

/-!
# No expiry is missed

The timerfd is armed in two places: `addTimerInLoop` arms it for a timer that has become the
earliest, and `reset` for the earliest timer after a batch. `cancelInLoop` leaves it alone, and
`reset` leaves it alone too when the earliest timer has no valid expiration, that is, one that
is not positive.

`Punctual` is the invariant behind `no_missed_expiry`. While a batch is in progress the timerfd
may have been read and not armed again; then every timer has a valid expiration, so that `reset`
will arm it.
-/

namespace MuduoRebuild

/-- A value that arms a timerfd. -/
structure Timespec.Proper (ts : Timespec) : Prop where
  tvSec_nonneg : 0 ≤ ts.tvSec
  tvNsec_nonneg : 0 ≤ ts.tvNsec
  tvNsec_lt : ts.tvNsec < 10 ^ 9
  ne_zero : ¬(ts.tvSec = 0 ∧ ts.tvNsec = 0)

theorem howMuchTimeFromNow_proper (clock when_ : ℤ) : (howMuchTimeFromNow clock when_).Proper := by
  obtain ⟨us, hus, hle⟩ : ∃ us : ℤ, us = max (when_ - clock) 100 ∧ 100 ≤ us :=
    ⟨_, rfl, le_max_right _ _⟩
  have hvalue : howMuchTimeFromNow clock when_ = ⟨us / 1000000, us % 1000000 * 1000⟩ := by
    rw [howMuchTimeFromNow, hus, max_def_lt]
  rw [hvalue]
  refine ⟨?_, ?_, ?_, ?_⟩
  all_goals
    dsimp only
    omega

/-- The timerfd becomes readable at the given time, or 100 microseconds after it was armed. -/
theorem deadline_howMuchTimeFromNow (clock when_ : ℤ) :
    Arming.deadline ⟨clock, howMuchTimeFromNow clock when_⟩ = max when_ (clock + 100) := by
  rw [Arming.deadline, howMuchTimeFromNow]
  dsimp only
  split_ifs <;> omega

namespace TimerQueue

open Fallible

namespace World

variable {w w' : World} {batch : List Entry} {a : Address} {t : Timer}

/-- The timerfd is armed or readable, and in time for every timer. -/
def Armed (w : World) : Prop :=
  ∀ e ∈ w.timers, ∃ s, w.timerfd = some s ∧ s.deadline ≤ max e.time (s.setAt + 100)

/-- Every timer has a valid expiration. -/
def AllValid (w : World) : Prop := ∀ e ∈ w.timers, 0 < e.time

/-- What holds between any two steps. -/
structure Punctual (w : World) : Prop where
  armed : w.Armed ∨ w.round ≠ none ∧ w.AllValid
  proper : ∀ s ∈ w.timerfd, s.value.Proper
  now_pos : ∀ r ∈ w.round, 0 < r.now
  interval_nonneg : ∀ a t, w.heap a = some t → t.repeats = true → 0 ≤ t.interval

theorem punctual_init : Punctual init := by
  refine ⟨.inl ?_, ?_, ?_, ?_⟩
  · intro e he
    exact absurd he OrderedSet.not_mem_empty
  · intro s hs
    cases hs
  · intro r hr
    cases hr
  · intro a t ht
    cases ht

/-! ### Inserting timers -/

theorem deref_eq_ok (h : w.deref a = .ok t) : w.heap a = some t := by
  rw [deref] at h
  split at h
  · next u hu =>
    rw [hu, Except.ok.inj h]
  · cases h

/-- `when < timers_.begin()->first`, or there is no timer yet. -/
def IsEarliest (w : World) (x : ℤ) : Prop := ∀ e ∈ w.timers.begin?, x < Entry.time e

theorem insert_eq_ok {p : World × Bool} (hok : w.insert a = .ok p) :
    ∃ t, w.heap a = some t ∧ p.1 = w.link a t ∧ (p.2 = true ↔ w.IsEarliest t.expiration) := by
  obtain ⟨t, ht, hok⟩ := bind_eq_ok.mp hok
  obtain ⟨_, -, hok⟩ := bind_eq_ok.mp hok
  obtain ⟨_, -, hok⟩ := bind_eq_ok.mp hok
  obtain rfl := Except.ok.inj hok
  refine ⟨t, deref_eq_ok ht, rfl, ?_⟩
  rw [IsEarliest]
  cases w.timers.begin? with
  | none => simp
  | some e => simp

/-- `addTimerInLoop` arms the timerfd exactly for a timer that becomes the earliest. -/
theorem addTimerInLoop_eq_ok {clock : ℤ} (hok : w.addTimerInLoop clock a = .ok w') :
    ∃ t, w.heap a = some t ∧
      (w.IsEarliest t.expiration ∧ w' = (w.link a t).resetTimerfd clock t.expiration ∨
        ¬w.IsEarliest t.expiration ∧ w' = w.link a t) := by
  obtain ⟨⟨v, earliest⟩, hinsert, hok⟩ := bind_eq_ok.mp hok
  obtain ⟨t, ht, rfl, hiff⟩ := insert_eq_ok hinsert
  refine ⟨t, ht, ?_⟩
  cases earliest with
  | true =>
    obtain ⟨u, hu, hok⟩ := bind_eq_ok.mp hok
    obtain rfl : t = u := Option.some.inj (ht.symm.trans (deref_eq_ok hu))
    exact .inl ⟨hiff.mp rfl, (Except.ok.inj hok).symm⟩
  | false =>
    refine .inr ⟨fun hearly => ?_, (Except.ok.inj hok).symm⟩
    cases hiff.mpr hearly

theorem mem_link {e : Entry} :
    e ∈ (w.link a t).timers ↔ e = toLex (t.expiration, a) ∨ e ∈ w.timers := OrderedSet.mem_insert

/-- The first timer is the earliest. -/
theorem time_le_of_begin? {e e' : Entry} (he : w.timers.begin? = some e) (he' : e' ∈ w.timers) :
    e.time ≤ e'.time := by
  rcases Prod.Lex.le_iff.mp (OrderedSet.le_of_begin? he he') with hlt | ⟨heq, -⟩
  · exact hlt.le
  · exact heq.le

theorem IsEarliest.le {x : ℤ} (h : w.IsEarliest x) {e : Entry} (he : e ∈ w.timers) :
    x ≤ e.time := by
  cases hbegin : w.timers.begin? with
  | none => exact absurd he (OrderedSet.not_mem_of_begin? hbegin)
  | some e₀ => exact (h e₀ hbegin).le.trans (time_le_of_begin? hbegin he)

theorem exists_le_of_not_isEarliest {x : ℤ} (h : ¬w.IsEarliest x) :
    ∃ e ∈ w.timers, e.time ≤ x := by
  rw [IsEarliest] at h
  push Not at h
  obtain ⟨e, he, hle⟩ := h
  exact ⟨e, OrderedSet.mem_of_begin? he, hle⟩

/-- The timerfd is armed for a time that no timer comes before. -/
theorem armed_resetTimerfd {clock x : ℤ} (hle : ∀ e ∈ w.timers, x ≤ Entry.time e) :
    (w.resetTimerfd clock x).Armed := by
  intro e he
  refine ⟨_, rfl, ?_⟩
  rw [deadline_howMuchTimeFromNow]
  exact max_le_max (hle e he) le_rfl

theorem proper_resetTimerfd (clock x : ℤ) :
    ∀ s ∈ (w.resetTimerfd clock x).timerfd, s.value.Proper := by
  intro s hs
  obtain rfl := Option.some.inj hs
  exact howMuchTimeFromNow_proper _ _

/-- A timer that is not the earliest needs no arming. -/
theorem Armed.link (h : w.Armed) (hlate : ¬w.IsEarliest t.expiration) : (w.link a t).Armed := by
  intro e he
  rcases mem_link.mp he with rfl | he
  · obtain ⟨e₀, he₀, hle⟩ := exists_le_of_not_isEarliest hlate
    obtain ⟨s, hs, hdeadline⟩ := h e₀ he₀
    exact ⟨s, hs, hdeadline.trans (max_le_max hle le_rfl)⟩
  · exact h e he

theorem AllValid.link (h : w.AllValid) (hlate : ¬w.IsEarliest t.expiration) :
    (w.link a t).AllValid := by
  intro e he
  rcases mem_link.mp he with rfl | he
  · obtain ⟨e₀, he₀, hle⟩ := exists_le_of_not_isEarliest hlate
    exact (h e₀ he₀).trans_le hle
  · exact h e he

theorem Punctual.addTimerInLoop (h : Punctual w) {clock : ℤ}
    (hok : w.addTimerInLoop clock a = .ok w') : Punctual w' := by
  obtain ⟨t, -, ⟨hearly, rfl⟩ | ⟨hlate, rfl⟩⟩ := addTimerInLoop_eq_ok hok
  · refine ⟨.inl (armed_resetTimerfd ?_), proper_resetTimerfd _ _, h.now_pos, h.interval_nonneg⟩
    intro e he
    rcases mem_link.mp he with rfl | he
    · exact le_rfl
    · exact hearly.le he
  · refine ⟨?_, h.proper, h.now_pos, h.interval_nonneg⟩
    exact h.armed.imp (fun harmed => harmed.link hlate)
      fun hround => ⟨hround.1, hround.2.link hlate⟩

/-- `new Timer(when, cb, interval)`. -/
theorem Punctual.newTimer (h : Punctual w) (a : Address) (when_ : ℤ) {interval : ℤ}
    {repeats : Bool} (hinterval : repeats = true → 0 ≤ interval) :
    Punctual (w.newTimer a when_ interval repeats) := by
  refine { h with interval_nonneg := ?_ }
  intro b t ht hrepeats
  simp only [World.newTimer, World.record, Function.update_apply] at ht
  split_ifs at ht with hb
  · obtain rfl := Option.some.inj ht
    exact hinterval hrepeats
  · exact h.interval_nonneg b t ht hrepeats

/-! ### Taking timers out -/

/-- Timers are taken out and the timerfd is left alone. -/
theorem Punctual.of_subset (h : Punctual w) (hround : w'.round = w.round)
    (htimerfd : w'.timerfd = w.timerfd) (htimers : ∀ e ∈ w'.timers, e ∈ w.timers)
    (hheap : ∀ a t, w'.heap a = some t → w.heap a = some t) : Punctual w' := by
  refine ⟨?_, ?_, ?_, fun a t ht => h.interval_nonneg a t (hheap a t ht)⟩
  · rw [hround]
    refine h.armed.imp ?_ fun hvalid => ⟨hvalid.1, fun e he => hvalid.2 e (htimers e he)⟩
    intro harmed e he
    rw [htimerfd]
    exact harmed e (htimers e he)
  · rw [htimerfd]
    exact h.proper
  · rw [hround]
    exact h.now_pos

theorem Punctual.cancelInLoop (h : Punctual w) (hc : Consistent w) {id : TimerId}
    (hok : w.cancelInLoop id = .ok w') : Punctual w' := by
  obtain ⟨place, howned, -⟩ := hc.owned
  by_cases hactive : id.active ∈ w.activeTimers
  · obtain ⟨t, -, -, w'', rfl, hcancel, -⟩ := howned.cancelInLoop_of_active hactive
    obtain rfl := Except.ok.inj (hok.symm.trans hcancel)
    refine h.of_subset rfl rfl (fun e he => (OrderedSet.mem_erase.mp he).1) ?_
    intro b u hu
    simp only [World.free, World.record, Function.update_apply] at hu
    split_ifs at hu with hb
    exact hu
  · obtain ⟨w'', hw'', hcancel, -⟩ := howned.cancelInLoop_of_not_active hactive
    obtain rfl := Except.ok.inj (hok.symm.trans hcancel)
    split_ifs at hw''
    all_goals
      subst hw''
      exact h.of_subset rfl rfl (fun e he => he) (fun _ _ ht => ht)

/-! ### A batch of expired timers -/

/-- The timerfd may now have been read, but every timer that is left is due later. -/
theorem Punctual.handleRead (h : Punctual w) (hc : Consistent w) (hround : w.round = none)
    {now clock : ℤ} (hnow : 0 < now) (hok : w.handleRead now clock = .ok w') : Punctual w' := by
  obtain ⟨place, howned, -⟩ := hc.owned
  rw [expired, hround] at howned
  have hread : Owned (w.readTimerfd clock) [] place := { howned with }
  obtain ⟨active', hget, -⟩ := hread.getExpired now
  obtain rfl := Except.ok.inj (hok.symm.trans (bind_of_ok hget _))
  refine ⟨.inr ⟨by simp, ?_⟩, ?_, ?_, h.interval_nonneg⟩
  · intro e he
    have hlate := (OrderedSet.mem_above.mp he).2
    rw [Prod.Lex.lt_iff, not_or] at hlate
    exact hnow.trans_le (not_lt.mp hlate.1)
  · intro s hs
    exact h.proper s (Option.mem_filter_iff.mp hs).1
  · intro r hr
    obtain rfl := Option.some.inj hr
    exact hnow

/-- `it.second->run()`. -/
theorem Punctual.runNext (h : Punctual w) (hok : w.runNext = .ok w') : Punctual w' := by
  rw [World.runNext] at hok
  split at hok
  · next now batch e todo hround =>
    obtain ⟨t, -, hok⟩ := bind_eq_ok.mp hok
    obtain rfl := Except.ok.inj hok
    refine ⟨h.armed.imp id fun hvalid => ⟨by simp [record], hvalid.2⟩, h.proper, ?_,
      h.interval_nonneg⟩
    intro r hr
    obtain rfl := Option.some.inj hr
    exact h.now_pos ⟨now, batch, e :: todo⟩ hround
  · obtain rfl := Except.ok.inj hok
    exact h

/-- What the loop in `reset` does to the timers: periodic ones come back, due no sooner than
now. -/
structure Rescheduled (now : ℤ) (w w' : World) : Prop where
  timerfd_eq : w'.timerfd = w.timerfd
  subset : ∀ e ∈ w.timers, e ∈ w'.timers
  mem_or_le : ∀ e ∈ w'.timers, e ∈ w.timers ∨ now ≤ Entry.time e
  interval_nonneg : ∀ a t, w'.heap a = some t → t.repeats = true → 0 ≤ t.interval

theorem resetTimer_eq_ok {now : ℤ} {e : Entry} (hok : w.resetTimer now e = .ok w') :
    ∃ t, w.heap e.timer = some t ∧
      ((t.repeats = true ∧ (toLex (e.timer, t.sequence) : ActiveTimer) ∉ w.cancelingTimers) ∧
          w' = World.link
            { w with heap := Function.update w.heap e.timer (some (t.restart now)) }
            e.timer (t.restart now) ∨
        ¬(t.repeats = true ∧ (toLex (e.timer, t.sequence) : ActiveTimer) ∉ w.cancelingTimers) ∧
          w' = w.free e.timer t) := by
  obtain ⟨t, ht, hok⟩ := bind_eq_ok.mp hok
  have ht := deref_eq_ok ht
  refine ⟨t, ht, ?_⟩
  dsimp only at hok
  split_ifs at hok with hagain
  · obtain ⟨p, hinsert, hok⟩ := bind_eq_ok.mp hok
    obtain ⟨u, hu, hlink, -⟩ := insert_eq_ok hinsert
    obtain rfl : t.restart now = u := by
      simpa [Function.update_self] using hu
    exact .inl ⟨hagain, (Except.ok.inj hok).symm.trans hlink⟩
  · obtain ⟨u, hu, hok⟩ := bind_eq_ok.mp hok
    obtain rfl : t = u := Option.some.inj (ht.symm.trans (deref_eq_ok hu))
    exact .inr ⟨hagain, (Except.ok.inj hok).symm⟩

theorem rescheduled_of_resetTimer {now : ℤ} {e : Entry}
    (hinterval : ∀ a t, w.heap a = some t → t.repeats = true → 0 ≤ t.interval)
    (hok : w.resetTimer now e = .ok w') : Rescheduled now w w' := by
  obtain ⟨t, ht, ⟨⟨hrepeats, -⟩, rfl⟩ | ⟨-, rfl⟩⟩ := resetTimer_eq_ok hok
  · have hlate : now ≤ (t.restart now).expiration := by
      rw [Timer.restart, if_pos hrepeats]
      exact le_add_of_nonneg_right (hinterval _ t ht hrepeats)
    refine ⟨rfl, fun e' he' => mem_link.mpr (.inr he'), ?_, ?_⟩
    · intro e' he'
      rcases mem_link.mp he' with rfl | he'
      · exact .inr hlate
      · exact .inl he'
    · intro b u hu hu'
      simp only [World.link, World.record, Function.update_apply] at hu
      split_ifs at hu with hb
      · obtain rfl := Option.some.inj hu
        exact hinterval _ t ht hrepeats
      · exact hinterval b u hu hu'
  · refine ⟨rfl, fun _ he' => he', fun _ he' => .inl he', ?_⟩
    intro b u hu hu'
    simp only [World.free, World.record, Function.update_apply] at hu
    split_ifs at hu with hb
    exact hinterval b u hu hu'

theorem rescheduled_of_resetTimers {now : ℤ} {batch : List Entry}
    (hinterval : ∀ a t, w.heap a = some t → t.repeats = true → 0 ≤ t.interval)
    (hok : resetTimers now batch w = .ok w') : Rescheduled now w w' := by
  induction batch generalizing w with
  | nil =>
    obtain rfl := Except.ok.inj hok
    exact ⟨rfl, fun _ he => he, fun _ he => .inl he, hinterval⟩
  | cons e batch ih =>
    obtain ⟨w₁, hfst, hok⟩ := bind_eq_ok.mp hok
    have hone := rescheduled_of_resetTimer hinterval hfst
    have hrest := ih hone.interval_nonneg hok
    refine ⟨hrest.timerfd_eq.trans hone.timerfd_eq,
      fun e' he' => hrest.subset e' (hone.subset e' he'), ?_, hrest.interval_nonneg⟩
    intro e' he'
    rcases hrest.mem_or_le e' he' with he' | hle
    · exact hone.mem_or_le e' he'
    · exact .inr hle

/-- `reset` arms the timerfd for the earliest timer, unless that has no valid expiration. -/
theorem Owned.reset_eq_ok {place : Address → Place} (h : Owned w batch place)
    (hhand : NoneInHand place) {clock now : ℤ} (hok : w.reset clock now batch = .ok w') :
    ∃ w₁, World.resetTimers now batch w = .ok w₁ ∧
      (w₁.timers.begin? = none ∧ w' = w₁ ∨ ∃ e, w₁.timers.begin? = some e ∧
        w' = if 0 < e.time then w₁.resetTimerfd clock e.time else w₁) := by
  obtain ⟨w₁, place', hreset, howned, -⟩ := h.resetTimers hhand now
  rw [World.reset, hreset, ok_bind] at hok
  refine ⟨w₁, hreset, ?_⟩
  cases hbegin : w₁.timers.begin? with
  | none =>
    simp only [hbegin] at hok
    exact .inl ⟨rfl, (Except.ok.inj hok).symm⟩
  | some e =>
    obtain ⟨-, t, ht, htime⟩ := (howned.timers_iff (Entry.time e) (Entry.timer e)).mp
      (OrderedSet.mem_of_begin? hbegin)
    simp only [hbegin, deref_of ht, ok_bind, htime] at hok
    exact .inr ⟨e, rfl, (Except.ok.inj hok).symm⟩

/-- After the batch the timerfd is armed. -/
theorem Punctual.finish (h : Punctual w) (hc : Consistent w) {clock : ℤ}
    (hok : w.finish clock = .ok w') : Punctual w' := by
  obtain ⟨place, howned, hhand⟩ := hc.owned
  rw [World.finish] at hok
  split at hok
  · next now batch hround =>
    rw [expired, hround] at howned
    have hcalled : Owned { w with callingExpiredTimers := false, round := none } batch place :=
      { howned with }
    obtain ⟨w₁, hreset, hcase⟩ := hcalled.reset_eq_ok hhand hok
    have hagain := rescheduled_of_resetTimers
      (w := { w with callingExpiredTimers := false, round := none }) h.interval_nonneg hreset
    have hnow : 0 < now := h.now_pos ⟨now, batch, []⟩ hround
    have hround₁ : w₁.round = none := by
      obtain ⟨w₂, -, hreset', -, -, hresets⟩ := hcalled.resetTimers hhand now
      obtain rfl := Except.ok.inj (hreset.symm.trans hreset')
      exact hresets.round_eq
    -- what the timerfd needs, whether or not it is armed once more
    have hpunctual : ∀ w₂ : World, w₂.Armed → (∀ s ∈ w₂.timerfd, s.value.Proper) →
        w₂.round = none → w₂.heap = w₁.heap → Punctual w₂ := by
      intro w₂ harmed hproper hnone hheap
      refine ⟨.inl harmed, hproper, ?_, hheap ▸ hagain.interval_nonneg⟩
      rw [hnone]
      exact fun r hr => by cases hr
    have hproper₁ : ∀ s ∈ w₁.timerfd, s.value.Proper := by
      rw [hagain.timerfd_eq]
      exact h.proper
    rcases hcase with ⟨hempty, rfl⟩ | ⟨e, hbegin, rfl⟩
    · refine hpunctual _ ?_ hproper₁ hround₁ rfl
      exact fun e he => absurd he (OrderedSet.not_mem_of_begin? hempty)
    · split_ifs with hvalid
      · refine hpunctual _ ?_ (proper_resetTimerfd _ _) hround₁ rfl
        exact armed_resetTimerfd fun e' he' => time_le_of_begin? hbegin he'
      · -- the earliest timer has been there before, so the timerfd was armed for it
        refine hpunctual _ ?_ hproper₁ hround₁ rfl
        have hold : e ∈ w.timers :=
          (hagain.mem_or_le e (OrderedSet.mem_of_begin? hbegin)).resolve_right
            fun hle => hvalid (hnow.trans_le hle)
        have harmed : w.Armed := h.armed.resolve_right fun hall => hvalid (hall.2 e hold)
        obtain ⟨s, hs, hdeadline⟩ := harmed e hold
        intro e' he'
        refine ⟨s, hagain.timerfd_eq.trans hs, hdeadline.trans ?_⟩
        exact max_le_max (time_le_of_begin? hbegin he') le_rfl
  · obtain rfl := Except.ok.inj hok
    exact h

/-! ### The result -/

/-- What the clocks and callers promise: `gettimeofday` counts from the Epoch, and a timer is
periodic when its interval is positive. -/
def Label.WellTimed : Label → Prop
  | .addTimer _ _ _ interval repeats _ => repeats = true → 0 ≤ interval
  | .handleRead now _ => 0 < now
  | .cancel .. | .runFunctor _ | .runNext | .finish _ => True

theorem Punctual.call (h : Punctual w) (hc : Consistent w) {clock : ℤ} {f : Functor}
    (hok : w.call clock f = .ok w') : Punctual w' := by
  cases f with
  | addTimerInLoop a => exact h.addTimerInLoop hok
  | cancelInLoop id => exact h.cancelInLoop hc hok

theorem Punctual.step (h : Punctual w) (hc : Consistent w) {l : Label} (hl : l.WellTimed)
    (hok : w.step l = .ok w') : Punctual w' := by
  rw [World.step] at hok
  split_ifs at hok with henabled
  · cases l with
    | addTimer inLoop a when_ interval repeats clock =>
      have hnew := h.newTimer a when_ hl
      cases inLoop with
      | true => exact hnew.addTimerInLoop hok
      | false =>
        obtain rfl := Except.ok.inj hok
        exact { hnew with }
    | cancel inLoop id =>
      cases inLoop with
      | true => exact h.cancelInLoop hc hok
      | false =>
        obtain rfl := Except.ok.inj hok
        exact { h with }
    | runFunctor clock =>
      simp only [act] at hok
      split at hok
      · next f fs hfs =>
        have hpop : Punctual { w with pendingFunctors := fs } := { h with }
        cases f with
        | addTimerInLoop a => exact hpop.addTimerInLoop hok
        | cancelInLoop id =>
          obtain ⟨place, howned, hhand⟩ := hc.owned
          exact hpop.cancelInLoop
            ⟨⟨place, howned.popCancel hfs, hhand⟩, hc.calling_iff, hc.todo_suffix⟩ hok
      · obtain rfl := Except.ok.inj hok
        exact h
    | handleRead now clock => exact h.handleRead hc henabled hl hok
    | runNext => exact h.runNext hok
    | finish clock => exact h.finish hc hok
  · obtain rfl := Except.ok.inj hok
    exact h

/-- The timerfd was never disarmed, and outside of `handleRead` it is armed or readable, in time
for every timer. -/
structure Expires (w : World) : Prop where
  proper : ∀ s ∈ w.timerfd, s.value.Proper
  armed : w.round = none → w.Armed

theorem Punctual.expires (h : Punctual w) : Expires w :=
  ⟨h.proper, fun hround => h.armed.resolve_right fun hvalid => hvalid.1 hround⟩

/-- **No missed expiry.** In every interleaving of `addTimer`, `cancel`, expirations at any times,
wakeups without an expired timer and callbacks that add and cancel timers, with timers that are
already past or not positive, whenever no `handleRead` is in progress the timerfd is armed or
readable if there is a timer, no later than the earliest timer or 100 microseconds after it was
armed. It is always armed with a proper value. -/
theorem no_missed_expiry (ls : List Label) (hls : ∀ l ∈ ls, l.WellTimed) :
    Machine.Along step (Machine.onResult (Machine.Succeeds Expires)) init ls := by
  refine Machine.Along.of_invariant (fun w => Punctual w ∧ Consistent w)
    ⟨punctual_init, consistent_init⟩ ?_ ?_ (Machine.along_onInput hls)
  · rintro w l ⟨h, hc⟩ hl
    obtain ⟨w', hstep, -⟩ := hc.step l
    exact ⟨w', hstep, (h.step hc hl hstep).expires⟩
  · rintro w l w' ⟨h, hc⟩ hl hstep
    obtain ⟨w'', hstep', hc'⟩ := hc.step l
    obtain rfl := Except.ok.inj (hstep.symm.trans hstep')
    exact ⟨h.step hc hl hstep, hc'⟩

/-- A timer that is not positive is added in the callback of a periodic one, and the other timer
is cancelled before it is due. -/
theorem no_missed_expiry_callback :
    Machine.Along step (Machine.onResult (Machine.Succeeds Expires)) init
      [.addTimer true 8 1000 500 true 700, .addTimer false 16 5000 0 false 710, .runFunctor 720,
        .handleRead 1001 1001, .runNext, .addTimer true 24 (-3) 0 false 1010, .finish 1020,
        .cancel false ⟨16, 1⟩, .runFunctor 1030, .handleRead 1110 1110, .runNext,
        .finish 1115, .handleRead 1120 1120, .finish 1121] := by
  refine no_missed_expiry _ ?_
  simp [Label.WellTimed]

end World

end TimerQueue

end MuduoRebuild
