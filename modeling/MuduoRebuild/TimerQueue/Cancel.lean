import MuduoRebuild.Foundations.History
import MuduoRebuild.TimerQueue.Ownership

/-!
# When a cancel is effective

A cancelled timer must not start its callback again. `cancelInLoop` finds a timer that is
scheduled, and leaves a note for `reset` about one whose callback has already been started in
the round in progress. It misses two kinds of timers: one whose turn in the round is still to
come (`handleRead` does not look at the notes), and one that still waits in the loop's queue for
its insertion. `cancel_effective` says that it misses no other.
-/

namespace MuduoRebuild

namespace TimerQueue

open History

namespace World

/-- The timer's turn in the round in progress is still to come, or its insertion is. -/
def Waiting (w : World) (id : TimerId) : Prop :=
  w.Live id ∧ ((∃ r ∈ w.round, id.timer ∈ r.todo.map Entry.timer) ∨
    .addTimerInLoop id.timer ∈ w.pendingFunctors)

instance (w : World) (id : TimerId) : Decidable (w.Live id) :=
  match h : w.heap id.timer with
  | some t => decidable_of_iff (t.sequence = id.sequence)
      ⟨fun hseq => ⟨t, h, hseq⟩, fun ⟨_, hu, hseq⟩ => Option.some.inj (h.symm.trans hu) ▸ hseq⟩
  | none => .isFalse fun ⟨_, hu, _⟩ => nomatch h.symm.trans hu

instance (w : World) (id : TimerId) : Decidable (w.Waiting id) :=
  inferInstanceAs (Decidable (w.Live id ∧ _))

/-- The cancel that a step executes. -/
def cancels (w : World) : Label → Option TimerId
  | .cancel true id => some id
  | .runFunctor _ =>
    match w.pendingFunctors with
    | .cancelInLoop id :: _ => some id
    | _ => none
  | _ => none

/-- If the step executes a cancel, its timer is not waiting. -/
def Timely (w : World) (l : Label) : Prop := ∀ id, w.cancels l = some id → ¬w.Waiting id

instance (w : World) (l : Label) : Decidable (w.Timely l) :=
  match h : w.cancels l with
  | some id => decidable_of_iff (¬w.Waiting id)
      ⟨fun hid _ hi => Option.some.inj (h.symm.trans hi) ▸ hid, fun hall => hall id h⟩
  | none => .isTrue fun _ hid => nomatch h.symm.trans hid

/-- No callback is started after `cancelInLoop` has been executed for its timer. -/
def CancelEffective (w : World) : Prop :=
  ∀ id, NeverAfter (.created id) (.cancelled id) (.started id) w.log

/-- A timer that has been created and then cancelled. -/
def Cancelled (w : World) (id : TimerId) : Prop := Armed (.created id) (.cancelled id) w.log

/-- The timer has had its turn in the round in progress, and `reset` will delete it. -/
def Parked (w : World) (id : TimerId) : Prop :=
  id.active ∈ w.cancelingTimers ∧
    ∃ r ∈ w.round, id.timer ∈ r.expired.map Entry.timer ∧ id.timer ∉ r.todo.map Entry.timer

/-- Cancels have been effective so far, and the cancelled timers that still exist are parked. -/
structure Quiet (w : World) : Prop where
  effective : CancelEffective w
  created_lt : ∀ id, .created id ∈ w.log → id.sequence < w.seq
  parked : ∀ id, w.Cancelled id → w.Live id → w.Parked id

variable {w w' : World} {batch : List Entry} {place : Address → Place} {a : Address} {t : Timer}

/-- Insertions and deletions. -/
def Housekeeping (es : List Event) : Prop :=
  ∀ e ∈ es, (∃ id, e = .inserted id) ∨ ∃ id, e = .deleted id

theorem Housekeeping.not_mem {es : List Event} (h : Housekeeping es) (id : TimerId) :
    .created id ∉ es ∧ .cancelled id ∉ es ∧ .started id ∉ es := by
  refine ⟨fun hmem => ?_, fun hmem => ?_, fun hmem => ?_⟩
  all_goals
    rcases h _ hmem with ⟨_, heq⟩ | ⟨_, heq⟩
    · cases heq
    · cases heq

/-- An operation that cancels, creates and starts nothing. -/
theorem Quiet.frame (h : Quiet w) {es : List Event} (hlog : w'.log = w.log ++ es)
    (hes : Housekeeping es) (hseq : w'.seq = w.seq) (hlive : ∀ id, w'.Live id → w.Live id)
    (hparked : ∀ id, w'.Live id → w.Parked id → w'.Parked id) : Quiet w' := by
  refine ⟨?_, ?_, ?_⟩
  · intro id
    rw [hlog]
    exact (h.effective id).append (hes.not_mem id).2.2
  · intro id hid
    rw [hlog] at hid
    rw [hseq]
    exact h.created_lt id ((List.mem_append.mp hid).resolve_right (hes.not_mem id).1)
  · intro id hid hl
    rw [Cancelled, hlog, armed_append_of_not_mem (hes.not_mem id).2.1] at hid
    exact hparked id hl (h.parked id hid (hlive id hl))

/-- A new timer is not a cancelled one. -/
theorem Quiet.newTimer (h : Quiet w) (a : Address) (when_ interval : ℤ) (repeats : Bool) :
    Quiet (w.newTimer a when_ interval repeats) := by
  refine ⟨fun id => (h.effective id).concat (fun hid => by cases hid), ?_, ?_⟩
  · intro id hid
    rcases List.mem_append.mp hid with hold | hnew
    · exact (h.created_lt id hold).trans (Nat.lt_succ_self _)
    · obtain rfl : id = ⟨a, w.seq⟩ := by simpa using hnew
      exact Nat.lt_succ_self _
  · rintro id hid ⟨t, ht, hseq⟩
    have hold : w.Cancelled id := (armed_concat.mp hid).resolve_right (fun hc => by cases hc.1)
    simp only [World.newTimer, World.record, Function.update_apply] at ht
    split_ifs at ht with hida
    · obtain rfl := Option.some.inj ht
      exact absurd (h.created_lt id hold.mem) (by rw [← hseq]; exact lt_irrefl _)
    · exact h.parked id hold ⟨t, ht, hseq⟩

/-- A cancel after which its timer does not exist, or is parked. -/
theorem Quiet.cancel (h : Quiet w) {id : TimerId} {es : List Event}
    (hlog : w'.log = w.log ++ .cancelled id :: es) (hes : Housekeeping es) (hseq : w'.seq = w.seq)
    (hlive : ∀ i, w'.Live i → w.Live i) (hparked : ∀ i, w'.Live i → w.Parked i → w'.Parked i)
    (hid : w'.Live id → w'.Parked id) : Quiet w' := by
  rw [List.append_cons] at hlog
  refine ⟨?_, ?_, ?_⟩
  · intro i
    rw [hlog]
    exact ((h.effective i).concat fun heq => by cases heq).append (hes.not_mem i).2.2
  · intro i hi
    rw [hlog] at hi
    rw [hseq]
    have hi := (List.mem_append.mp hi).resolve_right (hes.not_mem i).1
    exact h.created_lt i ((List.mem_append.mp hi).resolve_right (by simp))
  · intro i hi hl
    rw [Cancelled, hlog, armed_append_of_not_mem (hes.not_mem i).2.1, armed_concat] at hi
    rcases hi with hold | ⟨heq, -⟩
    · exact hparked i hl (h.parked i hold (hlive i hl))
    · obtain rfl := Event.cancelled.inj heq
      exact hid hl

/-- A timer that exists, is not scheduled and is not waiting has had its turn in the round in
progress. -/
theorem Consistent.had_its_turn (hc : Consistent w) {id : TimerId}
    (hactive : id.active ∉ w.activeTimers) (hid : ¬w.Waiting id) (hl : w.Live id) :
    ∃ r ∈ w.round, id.timer ∈ r.expired.map Entry.timer ∧ id.timer ∉ r.todo.map Entry.timer := by
  obtain ⟨place, howned, hhand⟩ := hc.owned
  have hqueued : .addTimerInLoop id.timer ∉ w.pendingFunctors := fun hf => hid ⟨hl, .inr hf⟩
  cases hplace : place id.timer with
  | free =>
    obtain ⟨t, ht, -⟩ := hl
    rw [← howned.free_iff, ht] at hplace
    cases hplace
  | fresh => exact absurd hplace (hhand _).1
  | held => exact absurd hplace (hhand _).2
  | queued =>
    obtain ⟨f, hf, hfid⟩ := List.mem_filterMap.mp ((howned.queued_iff _).mpr hplace)
    cases f with
    | addTimerInLoop a => exact absurd (Option.some.inj hfid ▸ hf) hqueued
    | cancelInLoop i => cases hfid
  | scheduled => exact absurd ((howned.active_iff _ _).mpr ⟨hplace, hl⟩) hactive
  | expired =>
    have hexpired := (howned.expired_iff _).mpr hplace
    rw [expired] at hexpired
    cases hround : w.round with
    | none =>
      rw [hround] at hexpired
      cases hexpired
    | some r =>
      rw [hround] at hexpired
      exact ⟨r, rfl, hexpired, fun htodo => hid ⟨hl, .inl ⟨r, hround, htodo⟩⟩⟩

/-- A timely cancel leaves its timer deleted or parked. -/
theorem Quiet.cancelInLoop (h : Quiet w) (hc : Consistent w) {id : TimerId} (hid : ¬w.Waiting id)
    (hok : w.cancelInLoop id = .ok w') : Quiet w' := by
  obtain ⟨place, howned, hhand⟩ := hc.owned
  by_cases hactive : id.active ∈ w.activeTimers
  · obtain ⟨t, ht, -, w'', rfl, hcancel, -⟩ := howned.cancelInLoop_of_active hactive
    obtain rfl := Except.ok.inj (hok.symm.trans hcancel)
    have hlive : ∀ i : TimerId, i.timer ≠ id.timer ∧ w.Live i ↔ Live (World.free
        { (w.record (.cancelled id)) with
          timers := w.timers.erase (toLex (t.expiration, id.timer))
          activeTimers := w.activeTimers.erase id.active } id.timer t) i := by
      intro i
      by_cases hi : i.timer = id.timer
      · simp [Live, World.free, World.record, hi]
      · simp [Live, World.free, World.record, hi]
    refine h.cancel (List.append_assoc ..) (fun e he => ?_) rfl (fun i hl => ((hlive i).mpr hl).2)
      (fun i _ hp => hp) (fun hl => absurd rfl ((hlive id).mpr hl).1)
    exact .inr ⟨_, List.mem_singleton.mp he⟩
  · obtain ⟨w'', hw'', hcancel, -⟩ := howned.cancelInLoop_of_not_active hactive
    obtain rfl := Except.ok.inj (hok.symm.trans hcancel)
    have hturn := hc.had_its_turn hactive hid
    have hcalling := hc.calling_iff
    split_ifs at hw'' with hcall
    · -- the note makes `reset` delete the timer
      subst hw''
      refine h.cancel rfl (fun e he => by cases he) rfl (fun i hl => hl) ?_ ?_
      · intro i _ hp
        exact ⟨OrderedSet.mem_insert.mpr (.inr hp.1), hp.2⟩
      · intro hl
        exact ⟨OrderedSet.mem_insert.mpr (.inl rfl), hturn hl⟩
    · -- no round is in progress, so that the timer does not exist
      subst hw''
      refine h.cancel rfl (fun e he => by cases he) rfl (fun i hl => hl) (fun i _ hp => hp) ?_
      intro hl
      obtain ⟨r, hr, -⟩ := hturn hl
      rw [hr] at hcalling
      exact absurd hcalling hcall

/-- `addTimerInLoop` of a new timer. -/
theorem Quiet.addTimerInLoop (h : Quiet w) (howned : Owned w batch place) (ha : place a = .fresh)
    {clock : ℤ} (hok : w.addTimerInLoop clock a = .ok w') : Quiet w' := by
  obtain ⟨t, -, -, hadd⟩ := howned.addTimerInLoop ha clock
  have hes : Housekeeping [.inserted ⟨a, t.sequence⟩] :=
    fun e he => .inl ⟨_, List.mem_singleton.mp he⟩
  rcases hadd with hadd | hadd
  · obtain rfl := Except.ok.inj (hok.symm.trans hadd)
    exact h.frame rfl hes rfl (fun i hl => hl) (fun i _ hp => hp)
  · obtain rfl := Except.ok.inj (hok.symm.trans hadd)
    exact h.frame rfl hes rfl (fun i hl => hl) (fun i _ hp => hp)

/-- A functor is queued, or taken out of the queue. -/
theorem Quiet.pendingFunctors (h : Quiet w) (fs : List Functor) :
    Quiet { w with pendingFunctors := fs } :=
  h.frame (List.append_nil _).symm (fun e he => by cases he) rfl (fun i hl => hl)
    (fun i _ hp => hp)

/-- The beginning of `handleRead`. The notes are thrown away, and no cancelled timer needs
one. -/
theorem Quiet.handleRead (h : Quiet w) (hc : Consistent w) (hround : w.round = none)
    {now clock : ℤ} (hok : w.handleRead now clock = .ok w') : Quiet w' := by
  obtain ⟨place, howned, hhand⟩ := hc.owned
  rw [expired, hround] at howned
  have hread : Owned (w.readTimerfd clock) [] place := { howned with }
  obtain ⟨active', hget, -⟩ := hread.getExpired now
  obtain rfl := Except.ok.inj (hok.symm.trans (Fallible.bind_of_ok hget _))
  refine h.frame (List.append_nil _).symm (fun e he => by cases he) rfl (fun i hl => hl) ?_
  rintro i - ⟨-, r, hr, -⟩
  rw [hround] at hr
  cases hr

/-- The next callback is not that of a cancelled timer. -/
theorem Quiet.runNext (h : Quiet w) (hok : w.runNext = .ok w') :
    Quiet w' := by
  rw [World.runNext] at hok
  split at hok
  · next now batch e todo hround =>
    obtain ⟨t, hderef, hok⟩ := Fallible.bind_eq_ok.mp hok
    obtain rfl := Except.ok.inj hok
    have ht : w.heap e.timer = some t := by
      rw [deref] at hderef
      split at hderef
      · next u hu =>
        rw [hu, Except.ok.inj hderef]
      · cases hderef
    refine ⟨fun id => (h.effective id).concat ?_, ?_, ?_⟩
    · -- a parked timer has had its turn
      intro heq harmed
      obtain rfl := Event.started.inj heq
      obtain ⟨-, r, hr, -, htodo⟩ := h.parked _ harmed ⟨t, ht, rfl⟩
      obtain rfl := Option.some.inj (hround.symm.trans hr)
      exact htodo (List.mem_cons_self ..)
    · intro id hid
      exact h.created_lt id ((List.mem_append.mp hid).resolve_right (by simp))
    · intro id hid hl
      have hold : w.Cancelled id := (armed_concat.mp hid).resolve_right fun hc => by cases hc.1
      obtain ⟨hnote, r, hr, hin, htodo⟩ := h.parked id hold hl
      obtain rfl := Option.some.inj (hround.symm.trans hr)
      refine ⟨hnote, _, rfl, hin, ?_⟩
      intro hmem
      exact htodo (List.mem_cons_of_mem _ hmem)
  · obtain rfl := Except.ok.inj hok
    exact h

/-- The end of `handleRead` deletes the parked timers. -/
theorem Quiet.finish (h : Quiet w) (hc : Consistent w) {clock : ℤ}
    (hok : w.finish clock = .ok w') : Quiet w' := by
  obtain ⟨place, howned, hhand⟩ := hc.owned
  rw [World.finish] at hok
  split at hok
  · next now batch hround =>
    rw [expired, hround] at howned
    have hcalled : Owned { w with callingExpiredTimers := false, round := none } batch place :=
      { howned with }
    obtain ⟨w'', -, hreset, -, -, hresets⟩ := hcalled.reset hhand clock now
    obtain rfl := Except.ok.inj (hok.symm.trans hreset)
    obtain ⟨es, hlog, hes⟩ := hresets.log_eq
    refine h.frame hlog hes hresets.seq_eq hresets.live ?_
    rintro i hl ⟨hnote, r, hr, hin, -⟩
    obtain rfl := Option.some.inj (hround.symm.trans hr)
    exact absurd hl (hresets.cancelled i hin hnote)
  · obtain rfl := Except.ok.inj hok
    exact h

/-- A timely step keeps cancels effective. -/
theorem Quiet.step (h : Quiet w) (hc : Consistent w) {l : Label} (htimely : w.Timely l)
    (hok : w.step l = .ok w') : Quiet w' := by
  rw [World.step] at hok
  split_ifs at hok with henabled
  · cases l with
    | addTimer inLoop a when_ interval repeats clock =>
      obtain ⟨place, howned, -⟩ := hc.owned
      have hnew := howned.newTimer henabled.1.1 henabled.1.2.2 when_ interval repeats
      have hquiet := h.newTimer a when_ interval repeats
      cases inLoop with
      | true => exact hquiet.addTimerInLoop hnew (Function.update_self ..) hok
      | false =>
        obtain rfl := Except.ok.inj hok
        exact hquiet.pendingFunctors _
    | cancel inLoop id =>
      cases inLoop with
      | true => exact h.cancelInLoop hc (htimely id rfl) hok
      | false =>
        obtain rfl := Except.ok.inj hok
        exact h.pendingFunctors _
    | runFunctor clock =>
      obtain ⟨place, howned, hhand⟩ := hc.owned
      simp only [act] at hok
      cases hfs : w.pendingFunctors with
      | nil =>
        rw [hfs] at hok
        obtain rfl := Except.ok.inj hok
        exact h
      | cons f fs =>
        rw [hfs] at hok
        cases f with
        | addTimerInLoop a =>
          obtain ⟨-, hpop⟩ := howned.popAdd hfs
          exact (h.pendingFunctors fs).addTimerInLoop hpop (Function.update_self ..) hok
        | cancelInLoop id =>
          have hpop : Consistent { w with pendingFunctors := fs } :=
            ⟨⟨place, howned.popCancel hfs, hhand⟩, hc.calling_iff, hc.todo_suffix⟩
          have hcancels : w.cancels (.runFunctor clock) = some id := by
            simp only [cancels, hfs]
          refine (h.pendingFunctors fs).cancelInLoop hpop (fun hw => ?_) hok
          refine htimely id hcancels ⟨hw.1, hw.2.imp_right fun hf => ?_⟩
          rw [hfs]
          exact List.mem_cons_of_mem _ hf
    | handleRead now clock => exact h.handleRead hc henabled hok
    | runNext => exact h.runNext hok
    | finish clock => exact h.finish hc hok
  · obtain rfl := Except.ok.inj hok
    exact h

end World

end TimerQueue

end MuduoRebuild
