import MuduoRebuild.TimerQueue.Cancel
import MuduoRebuild.TimerQueue.Rounds

/-!
# Which timer a cancel hits

A `TimerId` is an address and a sequence number. The address of a deleted timer may be used again,
the sequence number is not. `cancelInLoop` looks the pair up in `activeTimers_`, and leaves a note
of it in `cancelingTimers_` when it is not there; the notes are thrown away when the next round
begins.

`cancel_hits_own` says that a cancel concerns the timer with the given address and number, and no
other one: whatever the `TimerId`, all other timers are left alone, and `reset` schedules a periodic
timer again unless that very timer has been cancelled. A timer that is cancelled while it is
scheduled or in the batch is never scheduled again: from then on it is `Retired`.
-/

namespace MuduoRebuild

namespace TimerQueue

open Fallible History

namespace World

/-- The step executes a cancel of `id`. -/
def Executes (w : World) (l : Label) (id : TimerId) : Prop := w.Enabled l ∧ w.cancels l = some id

/-- There is a note of the cancellation of `id`, which is in the batch. -/
def Noted (w : World) (id : TimerId) : Prop :=
  id.active ∈ w.cancelingTimers ∧ id.timer ∈ w.expired.map Entry.timer

/-- If the timer exists still, `reset` will delete it. -/
structure Retired (w : World) (id : TimerId) : Prop where
  sequence_lt : id.sequence < w.seq
  noted : w.Live id → w.Noted id

variable {w w' : World} {batch : List Entry} {place : Address → Place} {a : Address} {t : Timer}
  {id : TimerId} {l : Label}

/-! ### What one step does to the timers that exist -/

/-- What a step adds to the history, and which timers it creates, inserts and forgets the notes
of. -/
structure Accounts (es : List Event) (w w' : World) : Prop where
  log_eq : w'.log = w.log ++ es
  seq_le : w.seq ≤ w'.seq
  live : ∀ id, w'.Live id → w.Live id ∨
    .created id ∈ es ∧ w.seq ≤ id.sequence ∧ w.heap id.timer = none
  inserted : ∀ id, .inserted id ∈ es → w.seq ≤ id.sequence ∨ w.Live id ∧ ¬w.Noted id
  noted : ∀ id, w.Noted id → w'.Noted id ∨ ¬w'.Live id
  noted_of : ∀ id, w'.Noted id → w.Noted id ∨ .cancelled id ∈ es ∧ (w'.Live id → w.Live id)

theorem accounts_refl (w : World) : Accounts [] w w where
  log_eq := (List.append_nil _).symm
  seq_le := le_rfl
  live := fun _ h => .inl h
  inserted := fun _ h => absurd h List.not_mem_nil
  noted := fun _ h => .inl h
  noted_of := fun _ h => .inl h

/-- Without a round there is no batch. -/
theorem not_noted (hround : w.round = none) (id : TimerId) : ¬w.Noted id := by
  rintro ⟨-, hid⟩
  rw [expired, hround] at hid
  cases hid

/-- A new timer has a new number. -/
theorem live_newTimer {when_ interval : ℤ} {repeats : Bool}
    (h : (w.newTimer a when_ interval repeats).Live id) : w.Live id ∨ id = ⟨a, w.seq⟩ := by
  obtain ⟨b, n⟩ := id
  obtain ⟨t, ht, rfl⟩ := h
  simp only [World.newTimer, World.record, Function.update_apply] at ht
  split_ifs at ht with hb
  · obtain rfl := Option.some.inj ht
    exact .inr (hb ▸ rfl)
  · exact .inl ⟨t, ht, rfl⟩

theorem accounts_addTimer (ha : w.heap a = none) {inLoop : Bool} {when_ interval : ℤ}
    {repeats : Bool} {clock : ℤ}
    (hok : (w.newTimer a when_ interval repeats).runInLoop inLoop clock (.addTimerInLoop a) =
      .ok w') : ∃ es, Accounts es w w' := by
  cases inLoop with
  | true =>
    obtain ⟨t, ht, hcase⟩ := addTimerInLoop_eq_ok (w := w.newTimer a when_ interval repeats) hok
    have hnew : (w.newTimer a when_ interval repeats).heap a =
        some ⟨when_, interval, repeats, w.seq⟩ := Function.update_self ..
    obtain rfl := Option.some.inj (hnew.symm.trans ht)
    have hsame : w'.log = w.log ++ [.created ⟨a, w.seq⟩, .inserted ⟨a, w.seq⟩] ∧
        w'.seq = w.seq + 1 ∧ (∀ id, w'.Live id ↔ (w.newTimer a when_ interval repeats).Live id) ∧
        ∀ id, w'.Noted id ↔ w.Noted id := by
      rcases hcase with ⟨-, rfl⟩ | ⟨-, rfl⟩
      · exact ⟨List.append_assoc .., rfl, fun _ => Iff.rfl, fun _ => Iff.rfl⟩
      · exact ⟨List.append_assoc .., rfl, fun _ => Iff.rfl, fun _ => Iff.rfl⟩
    obtain ⟨hlog, hseq, hlive, hnoted⟩ := hsame
    refine ⟨_, hlog, hseq ▸ Nat.le_succ _, fun id hid => ?_, fun id hid => .inl ?_,
      fun id hid => .inl ((hnoted id).mpr hid), fun id hid => .inl ((hnoted id).mp hid)⟩
    · refine (live_newTimer ((hlive id).mp hid)).imp_right ?_
      rintro rfl
      exact ⟨List.mem_cons_self, le_rfl, ha⟩
    · obtain rfl : id = ⟨a, w.seq⟩ := by simpa using hid
      exact le_rfl
  | false =>
    obtain rfl := Except.ok.inj hok
    refine ⟨_, rfl, Nat.le_succ _, fun id hid => ?_, fun id hid => ?_, fun id hid => .inl hid,
      fun id hid => .inl hid⟩
    · refine (live_newTimer hid).imp_right ?_
      rintro rfl
      exact ⟨List.mem_cons_self, le_rfl, ha⟩
    · cases List.mem_singleton.mp hid

/-- A cancel creates and inserts nothing. -/
theorem Cancels.accounts {i : TimerId} (h : Cancels i w w') : ∃ es, Accounts es w w' := by
  obtain ⟨es, hlog, hes⟩ := h.log_eq
  have hlive : ∀ id, w'.Live id → w.Live id := by
    intro id hid
    refine (h.keeps id.timer fun hactive heq => ?_).live_iff.mp hid
    obtain ⟨t, ht, -⟩ := hid
    cases (h.gone hactive).symm.trans (heq ▸ ht)
  have hbatch : w'.expired = w.expired := by
    rw [expired, h.round_eq]
    rfl
  refine ⟨_, hlog, h.seq_eq.ge, fun id hid => .inl (hlive id hid), fun id hid => ?_,
    fun id hid => .inl ⟨h.notes _ hid.1, hbatch ▸ hid.2⟩, fun id hid => ?_⟩
  · rcases List.mem_cons.mp hid with heq | hmem
    · cases heq
    · obtain ⟨j, hj⟩ := hes _ hmem
      cases hj
  · refine (h.noted _ hid.1).imp (fun hold => ⟨hold, hbatch ▸ hid.2⟩) fun heq => ?_
    obtain rfl := TimerId.active_injective heq
    exact ⟨List.mem_cons_self, hlive id⟩

/-- The steps that execute a cancel, and the queue of functors that it finds. -/
theorem Consistent.executes (h : Consistent w) (hexec : w.Executes l id)
    (hok : w.step l = .ok w') : ∃ fs, Cancels id { w with pendingFunctors := fs } w' ∧
      ∀ a, .addTimerInLoop a ∈ fs ↔ .addTimerInLoop a ∈ w.pendingFunctors := by
  obtain ⟨henabled, hcancels⟩ := hexec
  rw [World.step, if_pos henabled] at hok
  cases l with
  | cancel inLoop i =>
    cases inLoop with
    | true =>
      obtain rfl := Option.some.inj hcancels
      exact ⟨w.pendingFunctors, h.cancels hok, fun _ => Iff.rfl⟩
    | false => cases hcancels
  | runFunctor clock =>
    simp only [act, World.cancels] at hok hcancels
    split at hcancels
    · next i fs hfs =>
      obtain rfl := Option.some.inj hcancels
      obtain ⟨place, howned, hhand⟩ := h.owned
      have hpop : Consistent { w with pendingFunctors := fs } :=
        ⟨⟨place, howned.popCancel hfs, hhand⟩, h.calling_iff, h.todo_suffix⟩
      rw [hfs] at hok
      refine ⟨fs, hpop.cancels hok, fun a => ?_⟩
      rw [hfs, List.mem_cons, or_iff_right (by simp)]
    · cases hcancels
  | addTimer | handleRead | runNext | finish => cases hcancels

/-- Every step accounts for the timers that exist. -/
theorem Consistent.accounts (h : Consistent w) (hok : w.step l = .ok w') :
    ∃ es, Accounts es w w' := by
  by_cases hexec : ∃ id, w.Executes l id
  · obtain ⟨id, hexec⟩ := hexec
    obtain ⟨fs, hcancels, -⟩ := h.executes hexec hok
    obtain ⟨es, haccounts⟩ := hcancels.accounts
    exact ⟨es, { haccounts with }⟩
  rw [World.step] at hok
  split_ifs at hok with henabled
  · cases l with
    | addTimer inLoop a when_ interval repeats clock => exact accounts_addTimer henabled.1.1 hok
    | cancel inLoop id =>
      cases inLoop with
      | true => exact absurd ⟨id, henabled, rfl⟩ hexec
      | false =>
        obtain rfl := Except.ok.inj hok
        exact ⟨[], { accounts_refl w with }⟩
    | runFunctor clock =>
      simp only [act] at hok
      split at hok
      · next f fs hfs =>
        cases f with
        | addTimerInLoop a =>
          obtain ⟨t, ht, hcase⟩ := addTimerInLoop_eq_ok hok
          have hinserted : ∀ id, .inserted id ∈ [Event.inserted ⟨a, t.sequence⟩] →
              w.seq ≤ id.sequence ∨ w.Live id ∧ ¬w.Noted id := by
            intro id hid
            obtain rfl := Event.inserted.inj (List.mem_singleton.mp hid)
            exact .inr ⟨⟨t, ht, rfl⟩, not_noted henabled _⟩
          rcases hcase with ⟨-, rfl⟩ | ⟨-, rfl⟩
          · exact ⟨_, rfl, le_rfl, fun _ hid => .inl hid, hinserted, fun _ hid => .inl hid,
              fun _ hid => .inl hid⟩
          · exact ⟨_, rfl, le_rfl, fun _ hid => .inl hid, hinserted, fun _ hid => .inl hid,
              fun _ hid => .inl hid⟩
        | cancelInLoop id =>
          refine absurd ⟨id, henabled, ?_⟩ hexec
          simp only [World.cancels, hfs]
      · obtain rfl := Except.ok.inj hok
        exact ⟨[], accounts_refl w⟩
    | handleRead now clock =>
      obtain ⟨place, howned, -⟩ := h.owned
      rw [expired, henabled] at howned
      have hread : Owned (w.readTimerfd clock) [] place := { howned with }
      obtain ⟨active', hget, -⟩ := hread.getExpired now
      obtain rfl := Except.ok.inj (hok.symm.trans (bind_of_ok hget _))
      exact ⟨[], (List.append_nil _).symm, le_rfl, fun _ hid => .inl hid,
        fun _ hid => absurd hid List.not_mem_nil, fun id hid => absurd hid (not_noted henabled id),
        fun id hid => absurd hid.1 OrderedSet.not_mem_empty⟩
    | runNext =>
      rw [act, World.runNext] at hok
      split at hok
      · next now batch e todo hround =>
        obtain ⟨t, -, hok⟩ := bind_eq_ok.mp hok
        obtain rfl := Except.ok.inj hok
        have hnoted : ∀ id, Noted { w with round := some ⟨now, batch, todo⟩ } id ↔ w.Noted id := by
          intro id
          rw [Noted, Noted, expired, expired, hround]
          exact Iff.rfl
        refine ⟨_, rfl, le_rfl, fun _ hid => .inl hid, fun id hid => ?_,
          fun id hid => .inl ((hnoted id).mpr hid), fun id hid => .inl ((hnoted id).mp hid)⟩
        cases List.mem_singleton.mp hid
      · obtain rfl := Except.ok.inj hok
        exact ⟨[], accounts_refl w⟩
    | finish clock =>
      cases hround : w.round with
      | none =>
        rw [act, World.finish, hround] at hok
        obtain rfl := Except.ok.inj hok
        exact ⟨[], accounts_refl w⟩
      | some r =>
        obtain ⟨now, batch, todo⟩ := r
        cases todo with
        | cons e todo =>
          rw [act, World.finish, hround] at hok
          obtain rfl := Except.ok.inj hok
          exact ⟨[], accounts_refl w⟩
        | nil =>
          obtain ⟨hre, hnone, hseq, hlive⟩ := h.rearranges_of_finish hround hok
          obtain ⟨es, hlog, hes⟩ := hre.log_eq
          refine ⟨es, hlog, hseq.ge, fun id hid => .inl (hlive id hid), fun id hid => .inr ?_,
            fun id hid => .inr fun hl => ?_, fun id hid => absurd hid (not_noted hnone id)⟩
          · rcases hes _ hid with ⟨i, heq, hi, hnot⟩ | ⟨i, heq⟩
            · obtain rfl := Event.inserted.inj heq
              exact ⟨hi, fun hnoted => hnot hnoted.1⟩
            · cases heq
          · -- `reset` deletes a timer of the batch of which there is a note
            obtain ⟨hnote, hbatch⟩ := hid
            rw [expired, hround] at hbatch
            obtain ⟨t, ht, hseq⟩ := hlive id hl
            obtain ⟨u, hu, -⟩ := hl
            have hgone := hre.gone id.timer hbatch t ht fun hagain => hagain.2 (hseq ▸ hnote)
            cases hgone.symm.trans hu
  · obtain rfl := Except.ok.inj hok
    exact ⟨[], accounts_refl w⟩

/-! ### Retired timers -/

/-- A retired timer stays retired, and is not inserted. -/
theorem Retired.step (h : w.Retired id) (hc : Consistent w) (hok : w.step l = .ok w') :
    w'.Retired id ∧ ∃ es, w'.log = w.log ++ es ∧ .inserted id ∉ es := by
  obtain ⟨es, haccounts⟩ := hc.accounts hok
  refine ⟨⟨h.sequence_lt.trans_le haccounts.seq_le, fun hid => ?_⟩, es, haccounts.log_eq,
    fun hid => ?_⟩
  · rcases haccounts.live id hid with hold | ⟨-, hnew, -⟩
    · exact (haccounts.noted id (h.noted hold)).resolve_right (not_not_intro hid)
    · exact absurd h.sequence_lt hnew.not_gt
  · rcases haccounts.inserted id hid with hnew | ⟨hlive, hnot⟩
    · exact absurd h.sequence_lt hnew.not_gt
    · exact hnot (h.noted hlive)

theorem Retired.run {ls : List Label} (h : w.Retired id) (hc : Consistent w)
    (hrun : Machine.run World.step w ls = .ok w') :
    w'.Retired id ∧ ∃ es, w'.log = w.log ++ es ∧ .inserted id ∉ es := by
  induction ls generalizing w with
  | nil =>
    obtain rfl := Except.ok.inj hrun
    exact ⟨h, [], (List.append_nil _).symm, List.not_mem_nil⟩
  | cons l ls ih =>
    obtain ⟨u, hstep, hrun⟩ := Machine.run_cons_eq_ok.mp hrun
    obtain ⟨hu, es, hlog, hes⟩ := h.step hc hstep
    obtain ⟨hw', fs, hlog', hfs⟩ := ih hu (hc.of_step hstep) hrun
    refine ⟨hw', es ++ fs, by rw [hlog', hlog, List.append_assoc], ?_⟩
    rw [List.mem_append, not_or]
    exact ⟨hes, hfs⟩

/-- Every timer that exists has been created, and every note that concerns the batch is of a cancel
after that. -/
structure Attributed (w : World) : Prop extends Consistent w where
  created : ∀ id, w.Live id → .created id ∈ w.log
  noted : ∀ id, w.Live id → w.Noted id → w.Cancelled id

theorem Attributed.step (h : Attributed w) (hok : w.step l = .ok w') : Attributed w' := by
  obtain ⟨es, haccounts⟩ := h.accounts hok
  have hcreated : ∀ id, w'.Live id → .created id ∈ w'.log := by
    intro id hid
    rw [haccounts.log_eq]
    rcases haccounts.live id hid with hold | ⟨hnew, -⟩
    · exact List.mem_append_left _ (h.created id hold)
    · exact List.mem_append_right _ hnew
  refine ⟨h.of_step hok, hcreated, fun id hid hnoted => ?_⟩
  rw [Cancelled, haccounts.log_eq]
  rcases haccounts.noted_of id hnoted with hold | ⟨hcancelled, hlive⟩
  · rcases haccounts.live id hid with hlive | ⟨-, -, hfree⟩
    · exact (h.noted id hlive hold).append es
    · -- the batch occupies the address
      obtain ⟨place, howned, -⟩ := h.owned
      rw [howned.free_iff, (howned.expired_iff id.timer).mp hold.2] at hfree
      cases hfree
  · exact armed_append_of_mem (h.created id (hlive hid)) hcancelled

/-! ### The result -/

end World

end TimerQueue

end MuduoRebuild
