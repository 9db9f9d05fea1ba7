import MuduoRebuild.TimerQueue.Expiry

/-!
# One round of callbacks

A round begins when `handleRead` takes the due timers out of both sets, and ends when `reset` has
put the periodic ones back. Meanwhile callbacks and other threads add and cancel timers.

`Passes` says what one step in the middle of a round can do: it starts at most the next callback of
the batch, it leaves the timers of the batch alone, whoever cancels them, and any other timer that
it does not cancel. `Rearranges` says what `reset` does to each timer of the batch. From these,
`one_round` says which callbacks a round starts, and what has become of every timer afterwards.
-/

namespace MuduoRebuild

namespace TimerQueue

open Fallible

/-- The timer whose callback has been started. -/
def Event.started? : Event → Option TimerId
  | .started id => some id
  | _ => none

/-- The timers whose callbacks are started in a history, in order. -/
def starts (log : List Event) : List TimerId := log.filterMap Event.started?

theorem mem_starts {log : List Event} {id : TimerId} : id ∈ starts log ↔ .started id ∈ log := by
  rw [starts, List.mem_filterMap]
  constructor
  · rintro ⟨e, he, hid⟩
    cases e with
    | started i => exact Option.some.inj hid ▸ he
    | created | inserted | cancelled | deleted => cases hid
  · exact fun h => ⟨_, h, rfl⟩

theorem starts_append (log es : List Event) : starts (log ++ es) = starts log ++ starts es :=
  List.filterMap_append

theorem TimerId.active_injective {i j : TimerId} (h : i.active = j.active) : i = j := by
  obtain ⟨a, n⟩ := i
  obtain ⟨b, m⟩ := j
  obtain ⟨rfl, rfl⟩ := Prod.mk.inj (congrArg ofLex h)
  rfl

namespace World

/-- The timer of an entry. -/
def idOf (w : World) (e : Entry) : TimerId := ⟨e.timer, (w.heap e.timer).elim 0 Timer.sequence⟩

variable {w w' w'' : World} {batch : List Entry} {place : Address → Place} {a b : Address}
  {t : Timer}

theorem idOf_of {e : Entry} (ht : w.heap e.timer = some t) : w.idOf e = ⟨e.timer, t.sequence⟩ := by
  rw [idOf, ht]
  rfl

/-! ### What is left alone -/

/-- The timer at an address is as it was, in the sets or out of them. -/
structure Keeps (a : Address) (w w' : World) : Prop where
  heap_eq : w'.heap a = w.heap a
  timers_iff : ∀ x, (toLex (x, a) : Entry) ∈ w'.timers ↔ (toLex (x, a) : Entry) ∈ w.timers
  active_iff : ∀ n, (toLex (a, n) : ActiveTimer) ∈ w'.activeTimers ↔
    (toLex (a, n) : ActiveTimer) ∈ w.activeTimers

theorem keeps_of_eq (hheap : w'.heap = w.heap) (htimers : w'.timers = w.timers)
    (hactive : w'.activeTimers = w.activeTimers) (a : Address) : Keeps a w w' :=
  ⟨congrFun hheap a, fun _ => htimers ▸ Iff.rfl, fun _ => hactive ▸ Iff.rfl⟩

theorem Keeps.trans (h : Keeps a w w') (h' : Keeps a w' w'') : Keeps a w w'' :=
  ⟨h'.heap_eq.trans h.heap_eq, fun x => (h'.timers_iff x).trans (h.timers_iff x),
    fun n => (h'.active_iff n).trans (h.active_iff n)⟩

theorem Keeps.live_iff {id : TimerId} (h : Keeps id.timer w w') : w'.Live id ↔ w.Live id := by
  rw [Live, Live, h.heap_eq]

theorem keeps_link (hb : b ≠ a) : Keeps b w (w.link a t) where
  heap_eq := rfl
  timers_iff := fun x => by simp [link, record, hb]
  active_iff := fun n => by simp [link, record, hb]

theorem keeps_newTimer (hb : b ≠ a) (when_ interval : ℤ) (repeats : Bool) :
    Keeps b w (w.newTimer a when_ interval repeats) where
  heap_eq := Function.update_of_ne hb ..
  timers_iff := fun _ => Iff.rfl
  active_iff := fun _ => Iff.rfl

theorem keeps_free (hb : b ≠ a) : Keeps b w (w.free a t) where
  heap_eq := Function.update_of_ne hb ..
  timers_iff := fun _ => Iff.rfl
  active_iff := fun _ => Iff.rfl

/-- `addTimerInLoop` leaves the other timers alone. -/
theorem keeps_addTimerInLoop {clock : ℤ} (hok : w.addTimerInLoop clock a = .ok w') (hb : b ≠ a) :
    Keeps b w w' := by
  obtain ⟨t, -, ⟨-, rfl⟩ | ⟨-, rfl⟩⟩ := addTimerInLoop_eq_ok hok
  · exact (keeps_link hb).trans ⟨rfl, fun _ => Iff.rfl, fun _ => Iff.rfl⟩
  · exact keeps_link hb

/-- `addTimer` leaves the other timers alone. -/
theorem keeps_addTimer {inLoop : Bool} {when_ interval : ℤ} {repeats : Bool} {clock : ℤ}
    (hok : (w.newTimer a when_ interval repeats).runInLoop inLoop clock (.addTimerInLoop a) =
      .ok w') (hb : b ≠ a) : Keeps b w w' := by
  have hnew := keeps_newTimer (w := w) hb when_ interval repeats
  cases inLoop with
  | true => exact hnew.trans (keeps_addTimerInLoop hok hb)
  | false =>
    obtain rfl := Except.ok.inj hok
    exact hnew.trans ⟨rfl, fun _ => Iff.rfl, fun _ => Iff.rfl⟩

/-- Two timers that exist at one address are one. -/
theorem Live.eq {i j : TimerId} (hi : w.Live i) (hj : w.Live j) (hij : i.timer = j.timer) :
    i = j := by
  obtain ⟨a, n⟩ := i
  obtain ⟨b, m⟩ := j
  obtain ⟨t, ht, rfl⟩ := hi
  obtain ⟨u, hu, rfl⟩ := hj
  obtain rfl : a = b := hij
  obtain rfl : t = u := Option.some.inj (ht.symm.trans hu)
  rfl

/-- `cancelInLoop` deletes its timer if it is scheduled, and leaves a note otherwise if a round is
in progress. All other timers are left alone. -/
structure Cancels (id : TimerId) (w w' : World) : Prop where
  round_eq : w'.round = w.round
  pendingFunctors_eq : w'.pendingFunctors = w.pendingFunctors
  seq_eq : w'.seq = w.seq
  log_eq : ∃ es, w'.log = w.log ++ .cancelled id :: es ∧ ∀ e ∈ es, ∃ i, e = .deleted i
  noted : ∀ p ∈ w'.cancelingTimers, p ∈ w.cancelingTimers ∨ p = id.active
  notes : ∀ p ∈ w.cancelingTimers, p ∈ w'.cancelingTimers
  keeps : ∀ b, (id.active ∈ w.activeTimers → b ≠ id.timer) → Keeps b w w'
  gone : id.active ∈ w.activeTimers → w'.heap id.timer = none
  note : id.active ∉ w.activeTimers → w.round.isSome = true → id.active ∈ w'.cancelingTimers

theorem Consistent.cancels (h : Consistent w) {id : TimerId} (hok : w.cancelInLoop id = .ok w') :
    Cancels id w w' := by
  obtain ⟨place, howned, -⟩ := h.owned
  by_cases hactive : id.active ∈ w.activeTimers
  · obtain ⟨t, ht, -, w'', rfl, hcancel, -⟩ := howned.cancelInLoop_of_active hactive
    obtain rfl := Except.ok.inj (hok.symm.trans hcancel)
    refine ⟨rfl, rfl, rfl, ⟨[.deleted ⟨id.timer, t.sequence⟩], List.append_assoc .., ?_⟩,
      fun p hp => .inl hp, fun p hp => hp, fun b hb => ⟨?_, fun x => ?_, fun n => ?_⟩, fun _ => ?_,
      fun hout => absurd hactive hout⟩
    · intro e he
      exact ⟨_, List.mem_singleton.mp he⟩
    · exact Function.update_of_ne (hb hactive) ..
    · simp [World.free, World.record, hb hactive]
    · have hne : (toLex (b, n) : ActiveTimer) ≠ id.active :=
        fun heq => hb hactive (congrArg ActiveTimer.timer heq)
      simp [World.free, World.record, hne]
    · exact Function.update_self ..
  · obtain ⟨w'', hw'', hcancel, -⟩ := howned.cancelInLoop_of_not_active hactive
    obtain rfl := Except.ok.inj (hok.symm.trans hcancel)
    have hcalling := h.calling_iff
    split_ifs at hw'' with hcall
    · subst hw''
      refine ⟨rfl, rfl, rfl, ⟨[], rfl, fun e he => by cases he⟩, fun p hp => ?_,
        fun p hp => OrderedSet.mem_insert.mpr (.inr hp),
        fun b _ => ⟨rfl, fun _ => Iff.rfl, fun _ => Iff.rfl⟩, fun hin => absurd hin hactive,
        fun _ _ => ?_⟩
      · exact (OrderedSet.mem_insert.mp hp).symm
      · exact OrderedSet.mem_insert.mpr (.inl rfl)
    · subst hw''
      refine ⟨rfl, rfl, rfl, ⟨[], rfl, fun e he => by cases he⟩, fun p hp => .inl hp,
        fun p hp => hp, fun b _ => ⟨rfl, fun _ => Iff.rfl, fun _ => Iff.rfl⟩,
        fun hin => absurd hin hactive, fun _ hround => ?_⟩
      exact absurd (hcalling.trans hround) hcall

/-! ### In the middle of a round -/

/-- What a step in the middle of a round can do, when `es` is what it adds to the history. -/
structure Passes (r : Round) (es : List Event) (w w' : World) : Prop where
  log_eq : w'.log = w.log ++ es
  round : w'.round = some r ∧ starts es = [] ∨
    ∃ e todo, r.todo = e :: todo ∧ w'.round = some { r with todo } ∧ starts es = [w.idOf e]
  batch : ∀ a ∈ r.expired.map Entry.timer, Keeps a w w'
  noted : ∀ p ∈ w'.cancelingTimers, p ∈ w.cancelingTimers ∨
    ∃ id : TimerId, p = id.active ∧ .cancelled id ∈ es
  keeps : ∀ id, w.Live id → .cancelled id ∉ es → Keeps id.timer w w'

variable {r : Round}

/-- A step that does not change what the queue holds. -/
theorem passes_of_eq (hround : w.round = some r) (hlog : w'.log = w.log)
    (hround' : w'.round = w.round) (hheap : w'.heap = w.heap) (htimers : w'.timers = w.timers)
    (hactive : w'.activeTimers = w.activeTimers)
    (hcanceling : w'.cancelingTimers = w.cancelingTimers) : Passes r [] w w' where
  log_eq := hlog.trans (List.append_nil _).symm
  round := .inl ⟨hround'.trans hround, rfl⟩
  batch := fun a _ => keeps_of_eq hheap htimers hactive a
  noted := fun _ hp => .inl (hcanceling ▸ hp)
  keeps := fun id _ _ => keeps_of_eq hheap htimers hactive id.timer

/-- The place of a timer of the batch. -/
theorem Consistent.exists_place (h : Consistent w) (hround : w.round = some r) :
    ∃ place, Owned w r.expired place ∧ NoneInHand place := by
  obtain ⟨place, howned, hhand⟩ := h.owned
  rw [expired, hround] at howned
  exact ⟨place, howned, hhand⟩

/-- A timer that is created in the middle of a round. -/
theorem Consistent.passes_addTimer (h : Consistent w) (hround : w.round = some r)
    (ha : w.heap a = none) {inLoop : Bool} {when_ interval : ℤ} {repeats : Bool} {clock : ℤ}
    (hok : (w.newTimer a when_ interval repeats).runInLoop inLoop clock (.addTimerInLoop a) =
      .ok w') : ∃ es, Passes r es w w' := by
  obtain ⟨place, howned, -⟩ := h.exists_place hround
  have hbatch : ∀ b ∈ r.expired.map Entry.timer, b ≠ a := by
    rintro b hb rfl
    rw [howned.free_iff, (howned.expired_iff b).mp hb] at ha
    cases ha
  have hlive : ∀ id, w.Live id → id.timer ≠ a := by
    rintro id ⟨t, ht, -⟩ rfl
    cases ht.symm.trans ha
  have hkeeps : ∀ b ≠ a, Keeps b w w' := fun b hb => keeps_addTimer hok hb
  cases inLoop with
  | true =>
    obtain ⟨t, -, hcase⟩ := addTimerInLoop_eq_ok (w := w.newTimer a when_ interval repeats) hok
    have hlog : w'.log = w.log ++ [.created ⟨a, w.seq⟩, .inserted ⟨a, t.sequence⟩] ∧
        w'.round = some r ∧ w'.cancelingTimers = w.cancelingTimers := by
      rcases hcase with ⟨-, rfl⟩ | ⟨-, rfl⟩
      · exact ⟨List.append_assoc .., hround, rfl⟩
      · exact ⟨List.append_assoc .., hround, rfl⟩
    exact ⟨_, hlog.1, .inl ⟨hlog.2.1, rfl⟩, fun b hb => hkeeps b (hbatch b hb),
      fun p hp => .inl (hlog.2.2 ▸ hp), fun id hid _ => hkeeps _ (hlive id hid)⟩
  | false =>
    obtain rfl := Except.ok.inj hok
    exact ⟨_, rfl, .inl ⟨hround, rfl⟩, fun b hb => hkeeps b (hbatch b hb), fun p hp => .inl hp,
      fun id hid _ => hkeeps _ (hlive id hid)⟩

/-- A cancel in the middle of a round. -/
theorem Consistent.passes_cancel (h : Consistent w) (hround : w.round = some r) {inLoop : Bool}
    {id : TimerId} (hok : w.runInLoop inLoop 0 (.cancelInLoop id) = .ok w') :
    ∃ es, Passes r es w w' := by
  cases inLoop with
  | true =>
    have hcancels : Cancels id w w' := h.cancels hok
    obtain ⟨place, howned, -⟩ := h.exists_place hround
    obtain ⟨es, hlog, hes⟩ := hcancels.log_eq
    have hstarts : starts (.cancelled id :: es) = [] := by
      refine List.eq_nil_iff_forall_not_mem.mpr fun i hi => ?_
      rcases List.mem_cons.mp (mem_starts.mp hi) with heq | hmem
      · cases heq
      · obtain ⟨j, hj⟩ := hes _ hmem
        cases hj
    refine ⟨_, hlog, .inl ⟨hcancels.round_eq.trans hround, hstarts⟩, fun b hb => ?_,
      fun p hp => ?_, fun i hi hnot => ?_⟩
    · -- a timer of the batch is not scheduled
      refine hcancels.keeps b fun hactive heq => ?_
      have hscheduled := ((howned.active_iff id.timer id.sequence).mp hactive).1
      rw [← heq, (howned.expired_iff b).mp hb] at hscheduled
      cases hscheduled
    · exact (hcancels.noted p hp).imp_right fun heq => ⟨id, heq, List.mem_cons_self⟩
    · refine hcancels.keeps i.timer fun hactive heq => hnot ?_
      have hid := ((howned.active_iff id.timer id.sequence).mp hactive).2
      exact hi.eq hid heq ▸ List.mem_cons_self
  | false =>
    obtain rfl := Except.ok.inj hok
    exact ⟨[], passes_of_eq hround rfl rfl rfl rfl rfl rfl⟩

/-- The next callback. -/
theorem passes_runNext (hround : w.round = some r) (hok : w.runNext = .ok w') :
    ∃ es, Passes r es w w' := by
  obtain ⟨now, expired, todo⟩ := r
  rw [World.runNext, hround] at hok
  cases todo with
  | nil =>
    obtain rfl := Except.ok.inj hok
    exact ⟨[], passes_of_eq hround rfl rfl rfl rfl rfl rfl⟩
  | cons e todo =>
    obtain ⟨t, hderef, hok⟩ := bind_eq_ok.mp hok
    obtain rfl := Except.ok.inj hok
    refine ⟨[.started ⟨e.timer, t.sequence⟩], rfl, .inr ⟨e, todo, rfl, rfl, ?_⟩,
      fun b _ => ⟨rfl, fun _ => Iff.rfl, fun _ => Iff.rfl⟩, fun p hp => .inl hp,
      fun id _ _ => ⟨rfl, fun _ => Iff.rfl, fun _ => Iff.rfl⟩⟩
    rw [idOf_of (deref_eq_ok hderef)]
    rfl

/-- Every step that does not end the round. -/
theorem Consistent.passes (h : Consistent w) (hround : w.round = some r) {l : Label}
    (hok : w.step l = .ok w') (hround' : w'.round.isSome = true) : ∃ es, Passes r es w w' := by
  have hidle : w' = w → ∃ es, Passes r es w w' := by
    rintro rfl
    exact ⟨[], passes_of_eq hround rfl rfl rfl rfl rfl rfl⟩
  rw [World.step] at hok
  split_ifs at hok with henabled
  · cases l with
    | addTimer inLoop a when_ interval repeats clock =>
      exact h.passes_addTimer hround henabled.1.1 hok
    | cancel inLoop id => exact h.passes_cancel hround hok
    | runFunctor clock => cases hround.symm.trans henabled
    | handleRead now clock => cases hround.symm.trans henabled
    | runNext => exact passes_runNext hround hok
    | finish clock =>
      obtain ⟨now, expired, todo⟩ := r
      rw [act, World.finish, hround] at hok
      cases todo with
      | cons e todo => exact hidle (Except.ok.inj hok).symm
      | nil =>
        -- this would end the round
        obtain ⟨place, howned, hhand⟩ := h.exists_place hround
        have hcalled : Owned { w with callingExpiredTimers := false, round := none } expired
          place := { howned with }
        obtain ⟨v, -, hreset, -, -, hresets⟩ := hcalled.reset hhand clock now
        obtain rfl := Except.ok.inj (hok.symm.trans hreset)
        rw [hresets.round_eq] at hround'
        cases hround'
  · exact hidle (Except.ok.inj hok).symm

/-! ### The end of a round -/

/-- What the loop in `reset` does to the timers: those of the batch that are periodic, and of whose
cancellation there is no note, are scheduled again, and the others are deleted. -/
structure Rearranges (now : ℤ) (batch : List Entry) (w w' : World) : Prop where
  keeps : ∀ a ∉ batch.map Entry.timer, Keeps a w w'
  again : ∀ a ∈ batch.map Entry.timer, ∀ t, w.heap a = some t → t.repeats = true →
    (toLex (a, t.sequence) : ActiveTimer) ∉ w.cancelingTimers →
    w'.heap a = some (t.restart now) ∧
      (toLex ((t.restart now).expiration, a) : Entry) ∈ w'.timers ∧
      (toLex (a, t.sequence) : ActiveTimer) ∈ w'.activeTimers
  gone : ∀ a ∈ batch.map Entry.timer, ∀ t, w.heap a = some t →
    ¬(t.repeats = true ∧ (toLex (a, t.sequence) : ActiveTimer) ∉ w.cancelingTimers) →
    w'.heap a = none
  log_eq : ∃ es, w'.log = w.log ++ es ∧ ∀ e ∈ es,
    (∃ id : TimerId, e = .inserted id ∧ w.Live id ∧ id.active ∉ w.cancelingTimers) ∨
      ∃ id, e = .deleted id

/-- One pass of the loop. -/
theorem rearranges_of_resetTimer {now : ℤ} {e : Entry} (hok : w.resetTimer now e = .ok w') :
    Rearranges now [e] w w' ∧ w'.cancelingTimers = w.cancelingTimers ∧
      ∀ id, w'.Live id → w.Live id := by
  obtain ⟨t, ht, ⟨hagain, rfl⟩ | ⟨hgone, rfl⟩⟩ := resetTimer_eq_ok hok
  · refine ⟨⟨fun a ha => ?_, fun a ha u hu _ _ => ?_, fun a ha u hu hnot => ?_, [_], rfl, ?_⟩, rfl,
      (resets_link ht now hagain.2).live⟩
    · have hne : a ≠ e.timer := fun heq => ha (List.mem_singleton.mpr heq)
      have hrestart : Keeps a w { w with
          heap := Function.update w.heap e.timer (some (t.restart now)) } :=
        ⟨Function.update_of_ne hne .., fun _ => Iff.rfl, fun _ => Iff.rfl⟩
      exact hrestart.trans (keeps_link hne)
    · obtain rfl : a = e.timer := List.mem_singleton.mp ha
      obtain rfl := Option.some.inj (ht.symm.trans hu)
      exact ⟨Function.update_self .., OrderedSet.mem_insert.mpr (.inl rfl),
        OrderedSet.mem_insert.mpr (.inl rfl)⟩
    · obtain rfl : a = e.timer := List.mem_singleton.mp ha
      obtain rfl := Option.some.inj (ht.symm.trans hu)
      exact absurd hagain hnot
    · intro f hf
      exact .inl ⟨_, List.mem_singleton.mp hf, ⟨t, ht, rfl⟩, hagain.2⟩
  · refine ⟨⟨fun a ha => keeps_free fun heq => ha (List.mem_singleton.mpr heq),
      fun a ha u hu hrepeats hnot => ?_, fun a ha _ _ _ => ?_, [_], rfl, ?_⟩, rfl,
      (resets_free w e t).live⟩
    · obtain rfl : a = e.timer := List.mem_singleton.mp ha
      obtain rfl := Option.some.inj (ht.symm.trans hu)
      exact absurd ⟨hrepeats, hnot⟩ hgone
    · obtain rfl : a = e.timer := List.mem_singleton.mp ha
      exact Function.update_self ..
    · intro f hf
      exact .inr ⟨_, List.mem_singleton.mp hf⟩

/-- The loop, in which every timer of the batch has one pass. -/
theorem rearranges_of_resetTimers {now : ℤ} {batch : List Entry}
    (honce : (batch.map Entry.timer).Nodup) (hok : resetTimers now batch w = .ok w') :
    Rearranges now batch w w' := by
  induction batch generalizing w with
  | nil =>
    obtain rfl := Except.ok.inj hok
    refine ⟨fun a _ => keeps_of_eq rfl rfl rfl a, fun a ha => ?_, fun a ha => ?_, [],
      (List.append_nil _).symm, fun e he => ?_⟩
    · cases ha
    · cases ha
    · cases he
  | cons e batch ih =>
    obtain ⟨w₁, hfst, hok⟩ := bind_eq_ok.mp hok
    rw [List.map_cons, List.nodup_cons] at honce
    obtain ⟨hone, hcanceling, hlive⟩ := rearranges_of_resetTimer hfst
    have hrest := ih honce.2 hok
    -- a timer is passed over by the first pass, or by all others
    have hfirst : ∀ a, a ≠ e.timer → Keeps a w w₁ := fun a ha =>
      hone.keeps a fun hmem => ha (List.mem_singleton.mp hmem)
    have hlater : Keeps e.timer w₁ w' := hrest.keeps e.timer honce.1
    have hself : e.timer ∈ [e].map Entry.timer := List.mem_singleton_self _
    have hne : ∀ a ∈ batch.map Entry.timer, a ≠ e.timer := by
      rintro a ha rfl
      exact honce.1 ha
    refine ⟨?keeps, ?again, ?gone, ?log⟩
    case keeps =>
      intro a ha
      rw [List.map_cons, List.mem_cons, not_or] at ha
      exact (hfirst a ha.1).trans (hrest.keeps a ha.2)
    case again =>
      intro a ha t ht hrepeats hnot
      rcases List.mem_cons.mp ha with rfl | ha
      · obtain ⟨hheap, htimers, hactive⟩ := hone.again _ hself t ht hrepeats hnot
        exact ⟨hlater.heap_eq.trans hheap, (hlater.timers_iff _).mpr htimers,
          (hlater.active_iff _).mpr hactive⟩
      · exact hrest.again a ha t ((hfirst a (hne a ha)).heap_eq.trans ht) hrepeats
          (hcanceling ▸ hnot)
    case gone =>
      intro a ha t ht hnot
      rcases List.mem_cons.mp ha with rfl | ha
      · exact hlater.heap_eq.trans (hone.gone _ hself t ht hnot)
      · exact hrest.gone a ha t ((hfirst a (hne a ha)).heap_eq.trans ht) (hcanceling ▸ hnot)
    case log =>
      obtain ⟨es, hlog, hes⟩ := hone.log_eq
      obtain ⟨fs, hlog', hfs⟩ := hrest.log_eq
      refine ⟨es ++ fs, by rw [hlog', hlog, List.append_assoc], fun f hf => ?_⟩
      rcases List.mem_append.mp hf with hf | hf
      · exact hes f hf
      · refine (hfs f hf).imp_left ?_
        rintro ⟨id, rfl, hid, hnot⟩
        exact ⟨id, rfl, hlive id hid, hcanceling ▸ hnot⟩

/-- The end of a round. -/
theorem Consistent.rearranges_of_finish (h : Consistent w) {now clock : ℤ}
    (hround : w.round = some ⟨now, batch, []⟩) (hok : w.finish clock = .ok w') :
    Rearranges now batch w w' ∧ w'.round = none ∧ w'.seq = w.seq ∧
      ∀ id, w'.Live id → w.Live id := by
  obtain ⟨place, howned, hhand⟩ := h.exists_place hround
  have hcalled : Owned { w with callingExpiredTimers := false, round := none } batch place :=
    { howned with }
  rw [World.finish, hround] at hok
  obtain ⟨w₂, -, hreset, -, -, hresets⟩ := hcalled.reset hhand clock now
  obtain rfl := Except.ok.inj (hok.symm.trans hreset)
  obtain ⟨w₁, hloop, hcase⟩ := hcalled.reset_eq_ok hhand hok
  have hre := rearranges_of_resetTimers hcalled.expired_once hloop
  refine ⟨?_, hresets.round_eq, hresets.seq_eq, hresets.live⟩
  -- arming the timerfd changes none of this
  have hsame : w'.heap = w₁.heap ∧ w'.timers = w₁.timers ∧ w'.activeTimers = w₁.activeTimers ∧
      w'.log = w₁.log := by
    rcases hcase with ⟨-, rfl⟩ | ⟨e, -, rfl⟩
    · exact ⟨rfl, rfl, rfl, rfl⟩
    · split_ifs
      · exact ⟨rfl, rfl, rfl, rfl⟩
      · exact ⟨rfl, rfl, rfl, rfl⟩
  obtain ⟨hheap, htimers, hactive, hlog⟩ := hsame
  refine ⟨fun a ha => ?_, ?_, ?_, ?_⟩
  · have hkeeps := hre.keeps a ha
    exact ⟨(congrFun hheap a).trans hkeeps.heap_eq, fun x => htimers ▸ hkeeps.timers_iff x,
      fun n => hactive ▸ hkeeps.active_iff n⟩
  · rw [hheap, htimers, hactive]
    exact hre.again
  · rw [hheap]
    exact hre.gone
  · rw [hlog]
    exact hre.log_eq

/-! ### A whole round -/

/-- A state in the middle of the round that began in `w` at the time `now`, `es` being what has
happened since. -/
structure Amid (w : World) (now : ℤ) (es : List Event) (v : World) : Prop where
  log_eq : v.log = w.log ++ es
  round : ∃ ran todo, w.due now = ran ++ todo ∧ v.round = some ⟨now, w.due now, todo⟩ ∧
    starts es = ran.map w.idOf
  batch : ∀ a ∈ (w.due now).map Entry.timer, v.heap a = w.heap a
  noted : ∀ p ∈ v.cancelingTimers, ∃ id : TimerId, p = id.active ∧ .cancelled id ∈ es
  keeps : ∀ id, w.Live id → id.timer ∉ (w.due now).map Entry.timer → .cancelled id ∉ es →
    Keeps id.timer w v

/-- A timer that exists is due if it is scheduled and its expiration has come. -/
theorem Owned.mem_due_iff_of_live (h : Owned w batch place) {id : TimerId} (hid : w.Live id)
    (now : ℤ) : id.timer ∈ (w.due now).map Entry.timer ↔
      id.active ∈ w.activeTimers ∧ ∃ t, w.heap id.timer = some t ∧ t.expiration ≤ now := by
  obtain ⟨t, ht, hseq⟩ := hid
  have hactive := h.active_iff id.timer id.sequence
  have htimer := h.timers_iff t.expiration id.timer
  constructor
  · intro hdue
    have hplace := h.place_of_due hdue
    have hlt := (h.mem_due_iff (htimer.mpr ⟨hplace, t, ht, rfl⟩)).mp hdue
    refine ⟨hactive.mpr ⟨hplace, t, ht, hseq⟩, t, ht, ?_⟩
    rcases Prod.Lex.lt_iff.mp hlt with hlt | ⟨heq, -⟩
    · exact hlt.le
    · exact heq.le
  · rintro ⟨hin, u, hu, hle⟩
    obtain rfl := Option.some.inj (ht.symm.trans hu)
    have hplace := (hactive.mp hin).1
    have hmax := h.lt_max id.timer (by rw [hplace]; decide)
    refine (h.mem_due_iff (htimer.mpr ⟨hplace, t, ht, rfl⟩)).mpr (Prod.Lex.lt_iff.mpr ?_)
    exact hle.lt_or_eq.imp_right fun heq => ⟨heq, hmax⟩

/-- The beginning of a round. -/
theorem Consistent.amid_of_handleRead (h : Consistent w) (hround : w.round = none) {now clock : ℤ}
    (hok : w.handleRead now clock = .ok w') : Amid w now [] w' := by
  obtain ⟨place, howned, -⟩ := h.owned
  rw [expired, hround] at howned
  have hread : Owned (w.readTimerfd clock) [] place := { howned with }
  obtain ⟨active', hget, hnext⟩ := hread.getExpired now
  obtain rfl := Except.ok.inj (hok.symm.trans (bind_of_ok hget _))
  refine ⟨(List.append_nil _).symm, ⟨[], w.due now, rfl, rfl, rfl⟩, fun _ _ => rfl,
    fun p hp => absurd hp OrderedSet.not_mem_empty, fun id hid hdue _ => ⟨rfl, fun x => ?_,
    fun n => ?_⟩⟩
  · -- what is above the sentry stays
    refine OrderedSet.mem_above.trans (and_iff_left_of_imp fun hx hlt => hdue ?_)
    exact (hread.mem_due_iff hx).mpr hlt
  · have hout : id.timer ∉ ((w.readTimerfd clock).due now).map Entry.timer := hdue
    refine (hnext.active_iff id.timer n).trans (Iff.trans ?_ (howned.active_iff id.timer n).symm)
    rw [Place.expire, if_neg hout]
    exact Iff.rfl

/-- Every step that does not end the round. -/
theorem Amid.step {v v' : World} {now : ℤ} {es : List Event} (h : Amid w now es v)
    (hc : Consistent v) {l : Label} (hok : v.step l = .ok v') (hround : v'.round.isSome = true) :
    ∃ es', Amid w now (es ++ es') v' ∧ v'.log = v.log ++ es' ∧
      ∀ id, v.Live id → .cancelled id ∉ es' → Keeps id.timer v v' := by
  obtain ⟨ran, todo, hdue, hv, hstarts⟩ := h.round
  obtain ⟨es', hpass⟩ := hc.passes hv hok hround
  refine ⟨es', ⟨?_, ?_, fun a ha => ?_, fun p hp => ?_, fun id hid hnot hcancel => ?_⟩,
    hpass.log_eq, hpass.keeps⟩
  · rw [hpass.log_eq, h.log_eq, List.append_assoc]
  · rcases hpass.round with ⟨hv', hes'⟩ | ⟨e, todo', htodo, hv', hes'⟩
    · refine ⟨ran, todo, hdue, hv', ?_⟩
      rw [starts_append, hes', List.append_nil, hstarts]
    · dsimp only at htodo hv'
      refine ⟨ran ++ [e], todo', ?_, hv', ?_⟩
      · rw [hdue, htodo, List.append_assoc]
        rfl
      · have he : e.timer ∈ (w.due now).map Entry.timer := by
          rw [hdue, htodo]
          exact List.mem_map_of_mem (List.mem_append_right _ List.mem_cons_self)
        have hid : v.idOf e = w.idOf e := by
          rw [idOf, idOf, h.batch _ he]
        rw [starts_append, hes', hstarts, List.map_append, hid]
        rfl
  · exact (hpass.batch a ha).heap_eq.trans (h.batch a ha)
  · rcases hpass.noted p hp with hp | ⟨id, rfl, hid⟩
    · obtain ⟨id, rfl, hid⟩ := h.noted p hp
      exact ⟨id, rfl, List.mem_append_left _ hid⟩
    · exact ⟨id, rfl, List.mem_append_right _ hid⟩
  · rw [List.mem_append, not_or] at hcancel
    have hkeeps := h.keeps id hid hnot hcancel.1
    exact hkeeps.trans (hpass.keeps id (hkeeps.live_iff.mpr hid) hcancel.2)

/-- Every run that does not end the round. -/
theorem Amid.run {v v' : World} {now : ℤ} {es : List Event} {ls : List Label}
    (h : Amid w now es v) (hc : Consistent v)
    (hls : Machine.Along World.step (Machine.onResult (Machine.UnlessFault fun u : World =>
      u.round.isSome = true)) v ls) (hrun : Machine.run World.step v ls = .ok v') :
    ∃ es', Amid w now (es ++ es') v' ∧ v'.log = v.log ++ es' ∧
      ∀ id, v.Live id → .cancelled id ∉ es' → Keeps id.timer v v' := by
  induction ls generalizing v es with
  | nil =>
    obtain rfl := Except.ok.inj hrun
    refine ⟨[], ?_, (List.append_nil _).symm, fun id _ _ => keeps_of_eq rfl rfl rfl id.timer⟩
    rwa [List.append_nil]
  | cons l ls ih =>
    obtain ⟨u, hstep, hrun⟩ := Machine.run_cons_eq_ok.mp hrun
    obtain ⟨es₁, h₁, hlog₁, hkeeps₁⟩ := h.step hc hstep (hls.1 u hstep)
    obtain ⟨es₂, h₂, hlog₂, hkeeps₂⟩ := ih h₁ (hc.of_step hstep) (hls.2 u hstep) hrun
    refine ⟨es₁ ++ es₂, ?_, ?_, fun id hid hcancel => ?_⟩
    · rwa [← List.append_assoc]
    · rw [hlog₂, hlog₁, List.append_assoc]
    · rw [List.mem_append, not_or] at hcancel
      have hkeeps := hkeeps₁ id hid hcancel.1
      exact hkeeps.trans (hkeeps₂ id (hkeeps.live_iff.mpr hid) hcancel.2)

/-- The callbacks that are left can be started one after the other. -/
theorem Consistent.run_runNext {v : World} (h : Consistent v) {now : ℤ} {todo : List Entry}
    (hround : v.round = some ⟨now, batch, todo⟩) :
    ∃ v', Machine.run World.step v (List.replicate todo.length .runNext) = .ok v' ∧
      v'.round = some ⟨now, batch, []⟩ := by
  induction todo generalizing v with
  | nil => exact ⟨v, rfl, hround⟩
  | cons e todo ih =>
    obtain ⟨v₁, hstep, h₁⟩ := h.step .runNext
    have hround₁ : v₁.round = some ⟨now, batch, todo⟩ := by
      have hok : v.runNext = .ok v₁ := hstep
      rw [World.runNext, hround] at hok
      obtain ⟨t, -, hok⟩ := bind_eq_ok.mp hok
      exact Except.ok.inj hok ▸ rfl
    obtain ⟨v', hrun, hv'⟩ := ih h₁ hround₁
    exact ⟨v', (Machine.run_cons_ok hstep).trans hrun, hv'⟩

/-- What a round that began in `w` at the time `now` has done to the timers that were there, when
it has ended in `w'` and `es` is what has happened meanwhile. -/
structure Exact (w : World) (now : ℤ) (es : List Event) (w' : World) : Prop where
  /-- The callbacks started are those of the scheduled timers whose expiration has come. -/
  started_iff : ∀ id, .started id ∈ es ↔
    id.active ∈ w.activeTimers ∧ ∃ t, w.heap id.timer = some t ∧ t.expiration ≤ now
  started_once : (starts es).Nodup
  started_in_order : (starts es).Pairwise fun i j => ∀ t u, w.heap i.timer = some t →
    w.heap j.timer = some u → t.expiration ≤ u.expiration
  /-- A one-shot timer of the batch does not exist any more. -/
  gone : ∀ id t, .started id ∈ es → w.heap id.timer = some t → t.repeats = false →
    w'.heap id.timer = none
  /-- A periodic one is scheduled again, unless it has been cancelled. -/
  again : ∀ id t, .started id ∈ es → w.heap id.timer = some t → t.repeats = true →
    .cancelled id ∉ es → id.active ∈ w'.activeTimers ∧
      (toLex (now + t.interval, id.timer) : Entry) ∈ w'.timers
  /-- All others are as they were, unless they have been cancelled. -/
  kept : ∀ id, w.Live id → .started id ∉ es → .cancelled id ∉ es → Keeps id.timer w w'

/-- A round in which every callback has been started ends exactly. -/
theorem Amid.exact {v v' : World} {now clock : ℤ} {es : List Event} (h : Amid w now es v)
    (hw : Consistent w) (hround : w.round = none) (hc : Consistent v)
    (hdone : v.round = some ⟨now, w.due now, []⟩) (hok : v.finish clock = .ok v') :
    ∃ es', v'.log = w.log ++ (es ++ es') ∧ Exact w now (es ++ es') v' := by
  obtain ⟨hre, -⟩ := hc.rearranges_of_finish hdone hok
  obtain ⟨place, howned, -⟩ := hw.owned
  rw [expired, hround] at howned
  obtain ⟨fs, hlog, hfs⟩ := hre.log_eq
  -- the loop in `reset` starts and cancels nothing
  have hnone : starts fs = [] := by
    refine List.eq_nil_iff_forall_not_mem.mpr fun i hi => ?_
    rcases hfs _ (mem_starts.mp hi) with ⟨j, hj, -⟩ | ⟨j, hj⟩
    · cases hj
    · cases hj
  have hstarts : starts (es ++ fs) = (w.due now).map w.idOf := by
    obtain ⟨ran, todo, hdue, hv, hstarts⟩ := h.round
    obtain rfl : todo = [] := congrArg Round.todo (Option.some.inj (hv.symm.trans hdone))
    rw [starts_append, hnone, List.append_nil, hstarts, hdue, List.append_nil]
  have hcancelled : ∀ id, .cancelled id ∉ es ++ fs → .cancelled id ∉ es :=
    fun id hid hmem => hid (List.mem_append_left _ hmem)
  have hentry : ∀ e ∈ w.due now, ∃ t, w.heap e.timer = some t ∧ t.expiration = e.time ∧
      w.idOf e = ⟨e.timer, t.sequence⟩ := by
    intro e he
    obtain ⟨-, t, ht, htime⟩ :=
      (howned.timers_iff e.time e.timer).mp (OrderedSet.mem_below.mp he).1
    exact ⟨t, ht, htime, idOf_of ht⟩
  have hiff : ∀ id, .started id ∈ es ++ fs ↔
      w.Live id ∧ id.timer ∈ (w.due now).map Entry.timer := by
    intro id
    rw [← mem_starts, hstarts, List.mem_map, List.mem_map]
    constructor
    · rintro ⟨e, he, rfl⟩
      obtain ⟨t, ht, -, hid⟩ := hentry e he
      rw [hid]
      exact ⟨⟨t, ht, rfl⟩, e, he, rfl⟩
    · rintro ⟨⟨t, ht, hseq⟩, e, he, htimer⟩
      refine ⟨e, he, ?_⟩
      rw [← htimer] at ht
      rw [idOf_of ht, hseq, htimer]
  refine ⟨fs, by rw [hlog, h.log_eq, List.append_assoc], ⟨?started, ?once, ?order, ?gone, ?again,
    ?kept⟩⟩
  case started =>
    intro id
    rw [hiff]
    constructor
    · rintro ⟨hid, hdue⟩
      exact (howned.mem_due_iff_of_live hid now).mp hdue
    · rintro ⟨hactive, hle⟩
      have hid := ((howned.active_iff id.timer id.sequence).mp hactive).2
      exact ⟨hid, (howned.mem_due_iff_of_live hid now).mpr ⟨hactive, hle⟩⟩
  case once =>
    rw [hstarts]
    refine List.Nodup.of_map TimerId.timer ?_
    rw [List.map_map]
    exact howned.due_once now
  case order =>
    rw [hstarts, List.pairwise_map]
    refine (OrderedSet.sorted _).imp_of_mem fun {d e} hd he hlt t u ht hu => ?_
    obtain ⟨t', ht', htime, -⟩ := hentry d hd
    obtain ⟨u', hu', htime', -⟩ := hentry e he
    obtain rfl := Option.some.inj (ht.symm.trans ht')
    obtain rfl := Option.some.inj (hu.symm.trans hu')
    rw [htime, htime']
    rcases Prod.Lex.lt_iff.mp hlt with hlt | ⟨heq, -⟩
    · exact hlt.le
    · exact heq.le
  case gone =>
    intro id t hid ht hrepeats
    have hdue := ((hiff id).mp hid).2
    refine hre.gone id.timer hdue t ((h.batch _ hdue).trans ht) fun hagain => ?_
    rw [hrepeats] at hagain
    cases hagain.1
  case again =>
    intro id t hid ht hrepeats hnot
    obtain ⟨⟨u, hu, hseq⟩, hdue⟩ := (hiff id).mp hid
    obtain rfl := Option.some.inj (ht.symm.trans hu)
    have hkey : (toLex (id.timer, t.sequence) : ActiveTimer) = id.active := by
      rw [hseq]
      rfl
    have hnote : (toLex (id.timer, t.sequence) : ActiveTimer) ∉ v.cancelingTimers := by
      intro hmem
      obtain ⟨i, heq, hi⟩ := h.noted _ hmem
      obtain rfl := TimerId.active_injective (hkey.symm.trans heq)
      exact hnot (List.mem_append_left _ hi)
    obtain ⟨-, htimers, hactive⟩ :=
      hre.again id.timer hdue t ((h.batch _ hdue).trans ht) hrepeats hnote
    rw [Timer.restart, if_pos hrepeats] at htimers
    exact ⟨hkey ▸ hactive, htimers⟩
  case kept =>
    intro id hid hnot hcancel
    have hdue : id.timer ∉ (w.due now).map Entry.timer :=
      fun hdue => hnot ((hiff id).mpr ⟨hid, hdue⟩)
    exact (h.keeps id hid hdue (hcancelled id hcancel)).trans (hre.keeps id.timer hdue)

/-! ### The result -/

/-- The states of the round that a `handleRead` begins. -/
theorem Consistent.amid_of_run {v : World} {now clock : ℤ} {ls : List Label} (h : Consistent w)
    (hround : w.round = none)
    (hls : Machine.Along World.step (Machine.onResult (Machine.UnlessFault fun u : World =>
      u.round.isSome = true)) w (.handleRead now clock :: ls))
    (hrun : Machine.run World.step w (.handleRead now clock :: ls) = .ok v) :
    ∃ es, Amid w now es v ∧ Consistent v := by
  obtain ⟨w₁, hstep, hrun⟩ := Machine.run_cons_eq_ok.mp hrun
  have hok : w.handleRead now clock = .ok w₁ := (if_pos hround).symm.trans hstep
  have h₁ := h.of_step hstep
  obtain ⟨es, hamid, -⟩ := (h.amid_of_handleRead hround hok).run h₁ (hls.2 w₁ hstep) hrun
  exact ⟨_, hamid, Machine.invariant_of_run h₁ (fun _ _ _ hu => hu.of_step) hrun⟩

/-- **One round is exact.** Let a round begin in any state that a run reaches, and go on with any
steps of callbacks and other threads. The callbacks that are left can be started one after the
other. When there is none left, the round has started exactly the callbacks of the timers that were
scheduled when it began and had an expiration up to `now`, each once and in the order of their
expirations, and it leaves all timers as `Exact` says. A timer that is added in the middle of the
round is left as it is, too, unless it is cancelled. -/
theorem one_round {ls ls' : List Label} {w v : World} {now clock : ℤ}
    (hw : Machine.run step init ls = .ok w) (hround : w.round = none)
    (hmiddle : Machine.Along step (Machine.onResult (Machine.UnlessFault fun u : World =>
      u.round.isSome = true)) w (.handleRead now clock :: ls'))
    (hv : Machine.run step w (.handleRead now clock :: ls') = .ok v) :
    ∃ todo, v.round = some ⟨now, w.due now, todo⟩ ∧
      (∃ v', Machine.run step v (List.replicate todo.length .runNext) = .ok v' ∧
        v'.round = some ⟨now, w.due now, []⟩) ∧
      (todo = [] → ∀ clock', ∃ w' es, v.step (.finish clock') = .ok w' ∧ w'.round = none ∧
        w'.log = w.log ++ es ∧ Exact w now es w' ∧
        ∀ ls₁ ls₂ u, ls' = ls₁ ++ ls₂ →
          Machine.run step w (.handleRead now clock :: ls₁) = .ok u →
          ∃ es', w'.log = u.log ++ es' ∧ ∀ id, u.Live id →
            id.timer ∉ (w.due now).map Entry.timer → .cancelled id ∉ es' →
            Keeps id.timer u w') := by
  have hc := consistent_of_run hw
  obtain ⟨es, hamid, hcv⟩ := hc.amid_of_run hround hmiddle hv
  obtain ⟨ran, todo, -, hvr, -⟩ := hamid.round
  refine ⟨todo, hvr, hcv.run_runNext hvr, ?_⟩
  rintro rfl clock'
  obtain ⟨w', hfinish, -⟩ := hcv.step (.finish clock')
  have hok : v.finish clock' = .ok w' := hfinish
  obtain ⟨es', hlog, hexact⟩ := hamid.exact hc hround hcv hvr hok
  obtain ⟨hre, hnone, -⟩ := hcv.rearranges_of_finish hvr hok
  refine ⟨w', es ++ es', hfinish, hnone, hlog, hexact, ?_⟩
  rintro ls₁ ls₂ u rfl hu
  rw [← List.cons_append] at hmiddle hv
  rw [Machine.run_append_of_ok hu] at hv
  obtain ⟨fs, hlogf, -⟩ := hre.log_eq
  obtain ⟨esu, hamidu, hcu⟩ := hc.amid_of_run hround hmiddle.of_append_left hu
  obtain ⟨esv, -, hlogv, hkeeps⟩ := hamidu.run hcu (hmiddle.of_append hu) hv
  refine ⟨esv ++ fs, by rw [hlogf, hlogv, List.append_assoc], fun id hid hdue hcancel => ?_⟩
  rw [List.mem_append, not_or] at hcancel
  exact (hkeeps id hid hcancel.1).trans (hre.keeps id.timer hdue)

/-- Two timers are due at the very time of the round, and a third one is due later. The first
callback adds a timer that is due already. -/
theorem one_round_ties : ∃ w v, Machine.run step init
      [.addTimer true 16 90 50 true 10, .addTimer true 8 90 0 false 20,
        .addTimer true 24 91 0 false 30] = .ok w ∧
    Machine.run step w
      [.handleRead 90 95, .runNext, .addTimer true 32 60 0 false 96, .runNext] = .ok v ∧
    ∃ w' es, v.step (.finish 110) = .ok w' ∧ w'.log = w.log ++ es ∧ Exact w 90 es w' := by
  have hw : Machine.run step init [.addTimer true 16 90 50 true 10, .addTimer true 8 90 0 false 20,
    .addTimer true 24 91 0 false 30] = .ok _ := rfl
  obtain ⟨todo, hround, -, hdone⟩ := one_round hw rfl (by decide +kernel)
    (rfl : Machine.run step _ (.handleRead 90 95 ::
      [.runNext, .addTimer true 32 60 0 false 96, .runNext]) = .ok _)
  have htodo : todo = [] := (congrArg Round.todo (Option.some.inj hround)).symm
  obtain ⟨w', es, hstep, -, hlog, hexact, -⟩ := hdone htodo 110
  exact ⟨_, _, rfl, rfl, w', es, hstep, hlog, hexact⟩

end World

end TimerQueue

end MuduoRebuild
