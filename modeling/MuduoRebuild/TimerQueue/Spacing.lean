import MuduoRebuild.TimerQueue.Identity
import Mathlib.Data.List.Chain

/-!
# When the callback of a timer is started

A round starts the callbacks of its batch at the time `now` that `handleRead` has read, and
`restart` schedules a periodic timer for its interval after that time. So the callback of a timer is
started for the first time in a round that is not before its expiration, and every other time at
least the interval after the last one. This is `startTimes_spaced`, for every timer of every run,
whatever is added and cancelled meanwhile.

`Moves` says what one step does to the round and to the timers that exist: it is the only place
where the steps are looked into. `Paced` is the invariant of one timer, and `Spent` that of a
one-shot timer whose callback has been started.
-/

namespace MuduoRebuild

namespace TimerQueue

open Fallible

namespace World

/-- The timer whose callback a step starts, and the time of the round. -/
def starting (w : World) : Label → Option (TimerId × ℤ)
  | .runNext =>
    match w.round with
    | some { now, todo := e :: _, .. } => some (w.idOf e, now)
    | _ => none
  | _ => none

/-- The time of the round, if the step starts the callback of the timer. -/
def startedAt (w : World) (id : TimerId) (l : Label) : List ℤ :=
  ((w.starting l).filter (·.1 = id)).toList.map Prod.snd

/-- The times of the rounds in which a run starts the callback of a timer. -/
def startTimes (id : TimerId) (w : World) (ls : List Label) : List ℤ :=
  Machine.emitted step (fun v l => v.startedAt id l) w ls

variable {w w' : World} {batch : List Entry} {a : Address} {t : Timer} {id : TimerId} {l : Label}
  {now prev interval : ℤ} {repeats : Bool}

theorem startTimes_cons_ok (h : w.step l = .ok w') (ls : List Label) :
    startTimes id w (l :: ls) = w.startedAt id l ++ startTimes id w' ls :=
  Machine.emitted_cons_ok h ls

theorem startedAt_of_none (h : w.starting l = none) : w.startedAt id l = [] := by
  rw [startedAt, h]
  rfl

theorem startedAt_of_some {i : TimerId} (h : w.starting l = some (i, now)) :
    w.startedAt id l = if i = id then [now] else [] := by
  rw [startedAt, h]
  split_ifs with heq
  · simp [heq]
  · simp [heq]

/-! ### What a step does to the round -/

/-- A step starts nothing and leaves the timers of the batch and those that exist afterwards alone,
or it begins the round, starts a callback or ends the round. -/
inductive Moves (w : World) (l : Label) (w' : World) : Prop where
  | stays (starting_eq : w.starting l = none) (round_eq : w'.round = w.round)
      (heap_eq : ∀ id, w.Live id → w'.Live id → w'.heap id.timer = w.heap id.timer)
      (batch : ∀ a ∈ w.expired.map Entry.timer, w'.heap a = w.heap a)
  | begins (now : ℤ) (starting_eq : w.starting l = none) (round_eq : w.round = none)
      (round_eq' : w'.round = some ⟨now, w.due now, w.due now⟩) (heap_eq : w'.heap = w.heap)
  | starts (now : ℤ) (batch todo : List Entry) (e : Entry)
      (starting_eq : w.starting l = some (w.idOf e, now))
      (round_eq : w.round = some ⟨now, batch, e :: todo⟩)
      (round_eq' : w'.round = some ⟨now, batch, todo⟩) (heap_eq : w'.heap = w.heap)
  | ends (now : ℤ) (batch : List Entry) (starting_eq : w.starting l = none)
      (round_eq : w.round = some ⟨now, batch, []⟩) (round_eq' : w'.round = none)
      (rearranges : Rearranges now batch w w')

theorem moves_refl (hstarting : w.starting l = none) : Moves w l w :=
  .stays hstarting rfl (fun _ _ _ => rfl) fun _ _ => rfl

/-- A timer of the batch is not scheduled. -/
theorem Consistent.not_active_of_expired (h : Consistent w)
    (ha : id.timer ∈ w.expired.map Entry.timer) : id.active ∉ w.activeTimers := by
  obtain ⟨place, howned, -⟩ := h.owned
  intro hactive
  have hplace := ((howned.active_iff id.timer id.sequence).mp hactive).1
  rw [(howned.expired_iff id.timer).mp ha] at hplace
  cases hplace

/-- A new timer is not one of those that exist. -/
theorem Consistent.moves_addTimer (h : Consistent w) (ha : w.heap a = none) {inLoop : Bool}
    {when_ clock : ℤ}
    (hok : (w.newTimer a when_ interval repeats).runInLoop inLoop clock (.addTimerInLoop a) =
      .ok w') : Moves w (.addTimer inLoop a when_ interval repeats clock) w' := by
  obtain ⟨place, howned, -⟩ := h.owned
  refine .stays rfl ?_ (fun i hi _ => (keeps_addTimer hok ?_).heap_eq)
    fun b hb => (keeps_addTimer hok ?_).heap_eq
  · cases inLoop with
    | true =>
      obtain ⟨t, -, ⟨-, rfl⟩ | ⟨-, rfl⟩⟩ :=
        addTimerInLoop_eq_ok (w := w.newTimer a when_ interval repeats) hok
      · rfl
      · rfl
    | false => exact Except.ok.inj hok ▸ rfl
  · obtain ⟨t, ht, -⟩ := hi
    rintro rfl
    cases ht.symm.trans ha
  · rintro rfl
    rw [howned.free_iff, (howned.expired_iff b).mp hb] at ha
    cases ha

/-- A cancel deletes its timer, if it is scheduled, and no other one. -/
theorem Consistent.moves_cancel (h : Consistent w) {i : TimerId} {fs : List Functor}
    (hcancels : Cancels i { w with pendingFunctors := fs } w') (hstarting : w.starting l = none) :
    Moves w l w' := by
  refine .stays hstarting hcancels.round_eq
    (fun j _ hj => (hcancels.keeps j.timer fun hactive heq => ?_).heap_eq)
    fun a ha => (hcancels.keeps a fun hactive heq => ?_).heap_eq
  · obtain ⟨t, ht, -⟩ := hj
    cases (hcancels.gone hactive).symm.trans (heq ▸ ht)
  · exact h.not_active_of_expired (heq ▸ ha) hactive

theorem Consistent.moves (h : Consistent w) (hok : w.step l = .ok w') : Moves w l w' := by
  by_cases hexec : ∃ id, w.Executes l id
  · obtain ⟨i, hexec⟩ := hexec
    obtain ⟨fs, hcancels, -⟩ := h.executes hexec hok
    refine h.moves_cancel hcancels ?_
    obtain ⟨-, hcancels⟩ := hexec
    cases l with
    | cancel | runFunctor => rfl
    | addTimer | handleRead | runNext | finish => cases hcancels
  rw [World.step] at hok
  split_ifs at hok with henabled
  · cases l with
    | addTimer inLoop a when_ interval repeats clock => exact h.moves_addTimer henabled.1.1 hok
    | cancel inLoop i =>
      cases inLoop with
      | true => exact absurd ⟨i, henabled, rfl⟩ hexec
      | false =>
        obtain rfl := Except.ok.inj hok
        exact .stays rfl rfl (fun _ _ _ => rfl) fun _ _ => rfl
    | runFunctor clock =>
      simp only [act] at hok
      split at hok
      · next f fs hfs =>
        cases f with
        | addTimerInLoop a =>
          obtain ⟨t, -, ⟨-, rfl⟩ | ⟨-, rfl⟩⟩ := addTimerInLoop_eq_ok hok
          · exact .stays rfl rfl (fun _ _ _ => rfl) fun _ _ => rfl
          · exact .stays rfl rfl (fun _ _ _ => rfl) fun _ _ => rfl
        | cancelInLoop i =>
          refine absurd ⟨i, henabled, ?_⟩ hexec
          simp only [World.cancels, hfs]
      · obtain rfl := Except.ok.inj hok
        exact moves_refl rfl
    | handleRead now clock =>
      obtain ⟨place, howned, -⟩ := h.owned
      rw [expired, henabled] at howned
      have hread : Owned (w.readTimerfd clock) [] place := { howned with }
      obtain ⟨active', hget, -⟩ := hread.getExpired now
      obtain rfl := Except.ok.inj (hok.symm.trans (bind_of_ok hget _))
      exact .begins now rfl henabled rfl rfl
    | runNext =>
      rw [act, World.runNext] at hok
      split at hok
      · next now batch e todo hround =>
        obtain ⟨t, -, hok⟩ := bind_eq_ok.mp hok
        obtain rfl := Except.ok.inj hok
        refine .starts now batch todo e ?_ hround rfl rfl
        simp only [starting, hround]
      · next hround =>
        obtain rfl := Except.ok.inj hok
        refine moves_refl ?_
        simp only [starting]
    | finish clock =>
      cases hround : w.round with
      | none =>
        rw [act, World.finish, hround] at hok
        exact Except.ok.inj hok ▸ moves_refl rfl
      | some r =>
        obtain ⟨now, batch, todo⟩ := r
        cases todo with
        | cons e todo =>
          rw [act, World.finish, hround] at hok
          exact Except.ok.inj hok ▸ moves_refl rfl
        | nil =>
          obtain ⟨hre, hnone, -⟩ := h.rearranges_of_finish hround hok
          exact .ends now batch rfl hround hnone hre
  · exact Except.ok.inj hok ▸ moves_refl (by
      cases l with
      | runNext => exact absurd trivial henabled
      | addTimer | cancel | runFunctor | handleRead | finish => rfl)

/-! ### One timer -/

/-- The callback of the timer has been started in the round in progress, at the time `now`. -/
def Ran (w : World) (id : TimerId) (now : ℤ) : Prop :=
  ∃ r, w.round = some r ∧ r.now = now ∧ id.timer ∈ r.expired.map Entry.timer ∧
    id.timer ∉ r.todo.map Entry.timer

/-- The timers that are left in a round are due. -/
structure Prompt (w : World) : Prop extends Consistent w where
  due : ∀ r, w.round = some r → ∀ e ∈ r.todo, ∀ t, w.heap e.timer = some t → t.expiration ≤ r.now

/-- The callback of a timer has been started at the time `prev` last, or the timer has been made
for the time `prev + interval`. -/
structure Paced (prev interval : ℤ) (repeats : Bool) (id : TimerId) (w : World) : Prop where
  sequence_lt : id.sequence < w.seq
  timer : ∀ t, w.heap id.timer = some t → t.sequence = id.sequence →
    t.interval = interval ∧ t.repeats = repeats ∧
      (w.Ran id prev ∨ (∀ now, ¬w.Ran id now) ∧ prev + interval ≤ t.expiration)

/-- The callback of a one-shot timer has been started. -/
structure Spent (id : TimerId) (w : World) : Prop where
  sequence_lt : id.sequence < w.seq
  timer : ∀ t, w.heap id.timer = some t → t.sequence = id.sequence →
    t.repeats = false ∧ ∃ now, w.Ran id now

theorem Ran.congr (h : w.Ran id now) (hround : w'.round = w.round) : w'.Ran id now := by
  rwa [Ran, hround]

theorem not_ran_of_none (hround : w.round = none) (id : TimerId) (now : ℤ) : ¬w.Ran id now := by
  rintro ⟨r, hr, -⟩
  cases hr.symm.trans hround

theorem prompt_init : Prompt init where
  toConsistent := consistent_init
  due := by
    rintro r ⟨⟩

theorem Prompt.step (h : Prompt w) (hok : w.step l = .ok w') : Prompt w' := by
  refine ⟨h.of_step hok, fun r hr e he t ht => ?_⟩
  cases h.moves hok with
  | stays _ hround _ hbatch =>
    rw [hround] at hr
    have hsuffix := h.todo_suffix r hr
    have hexpired : e.timer ∈ w.expired.map Entry.timer := by
      rw [expired, hr]
      exact List.mem_map_of_mem (hsuffix.subset he)
    rw [hbatch e.timer hexpired] at ht
    exact h.due r hr e he t ht
  | begins now _ hround hround' hheap =>
    obtain rfl := Option.some.inj (hround'.symm.trans hr)
    obtain ⟨place, howned, -⟩ := h.owned
    obtain ⟨hmem, hlt⟩ := OrderedSet.mem_below.mp he
    obtain ⟨hplace, u, hu, htime⟩ := (howned.timers_iff e.time e.timer).mp hmem
    rw [hheap] at ht
    obtain rfl := Option.some.inj (hu.symm.trans ht)
    rw [htime]
    rcases Prod.Lex.lt_iff.mp hlt with hlt | ⟨heq, -⟩
    · exact hlt.le
    · exact heq.le
  | starts now batch todo d _ hround hround' hheap =>
    obtain rfl := Option.some.inj (hround'.symm.trans hr)
    rw [hheap] at ht
    exact h.due _ hround e (List.mem_cons_of_mem d he) t ht
  | ends now batch _ _ hround' =>
    cases hround'.symm.trans hr

/-- The timers of a batch are different. -/
theorem Consistent.expired_once (h : Consistent w) {r : Round} (hround : w.round = some r) :
    (r.todo.map Entry.timer).Nodup := by
  obtain ⟨place, howned, -⟩ := h.exists_place hround
  exact howned.expired_once.sublist ((h.todo_suffix r hround).map _).sublist

/-- Which callbacks have been started does not depend on other callbacks of the batch. -/
theorem ran_starts_iff {todo : List Entry} {e : Entry}
    (hround : w.round = some ⟨now, batch, e :: todo⟩) (hround' : w'.round = some ⟨now, batch, todo⟩)
    (hne : e.timer ≠ id.timer) (x : ℤ) : w'.Ran id x ↔ w.Ran id x := by
  have hmem : id.timer ∈ (e :: todo).map Entry.timer ↔ id.timer ∈ todo.map Entry.timer := by
    rw [List.map_cons, List.mem_cons, or_iff_right hne.symm]
  constructor
  · rintro ⟨r, hr, hnow, hbatch, htodo⟩
    obtain rfl := Option.some.inj (hround'.symm.trans hr)
    exact ⟨_, hround, hnow, hbatch, fun h => htodo (hmem.mp h)⟩
  · rintro ⟨r, hr, hnow, hbatch, htodo⟩
    obtain rfl := Option.some.inj (hround.symm.trans hr)
    exact ⟨_, hround', hnow, hbatch, fun h => htodo (hmem.mpr h)⟩

/-- A timer whose callback is left in the round exists. -/
theorem Consistent.exists_of_todo (h : Consistent w) {r : Round} (hround : w.round = some r)
    {e : Entry} (he : e ∈ r.todo) : ∃ t, w.heap e.timer = some t := by
  obtain ⟨place, howned, -⟩ := h.exists_place hround
  have hmem : e ∈ r.expired := (h.todo_suffix r hround).subset he
  have hplace := (howned.expired_iff e.timer).mp (List.mem_map_of_mem hmem)
  refine Option.ne_none_iff_exists'.mp fun hnone => ?_
  cases hplace.symm.trans ((howned.free_iff e.timer).mp hnone)

/-- The callback that a step starts has been started then. -/
theorem Consistent.ran_of_starts (h : Consistent w) {todo : List Entry} {e : Entry}
    (hround : w.round = some ⟨now, batch, e :: todo⟩)
    (hround' : w'.round = some ⟨now, batch, todo⟩) (he : e.timer = id.timer) : w'.Ran id now := by
  have hsuffix : (e :: todo) <:+ batch := h.todo_suffix _ hround
  have honce : ((e :: todo).map Entry.timer).Nodup := h.expired_once hround
  rw [List.map_cons, List.nodup_cons] at honce
  exact ⟨_, hround', rfl, he ▸ List.mem_map_of_mem (hsuffix.subset List.mem_cons_self),
    he ▸ honce.1⟩

/-- A timer that exists after a step has existed before, unless it is new. -/
theorem Consistent.live_of_step (h : Consistent w) (hok : w.step l = .ok w')
    (hlt : id.sequence < w.seq) (hid : w'.Live id) : w.Live id ∧ w.seq ≤ w'.seq := by
  obtain ⟨es, haccounts⟩ := h.accounts hok
  refine ⟨(haccounts.live id hid).resolve_right ?_, haccounts.seq_le⟩
  rintro ⟨-, hle, -⟩
  exact absurd hlt hle.not_gt

theorem Consistent.seq_le (h : Consistent w) (hok : w.step l = .ok w') : w.seq ≤ w'.seq := by
  obtain ⟨es, haccounts⟩ := h.accounts hok
  exact haccounts.seq_le

/-- A step starts the callback of a timer at least the interval after the last time, or not at
all. -/
theorem Paced.step (h : Paced prev interval repeats id w) (hw : Prompt w)
    (hok : w.step l = .ok w') :
    w.startedAt id l = [] ∧ Paced prev interval repeats id w' ∨
      ∃ now, w.startedAt id l = [now] ∧ prev + interval ≤ now ∧
        Paced now interval repeats id w' ∧ (repeats = false → Spent id w') := by
  have hlt : id.sequence < w'.seq := h.sequence_lt.trans_le (hw.seq_le hok)
  have hlive : ∀ t, w'.heap id.timer = some t → t.sequence = id.sequence → w.Live id :=
    fun t ht hseq => (hw.live_of_step hok h.sequence_lt ⟨t, ht, hseq⟩).1
  cases hw.moves hok with
  | stays hstarting hround hheap _ =>
    refine .inl ⟨startedAt_of_none hstarting, hlt, fun t ht hseq => ?_⟩
    have hran : ∀ x, w'.Ran id x ↔ w.Ran id x :=
      fun x => ⟨fun hx => hx.congr hround.symm, fun hx => hx.congr hround⟩
    rw [hheap id (hlive t ht hseq) ⟨t, ht, hseq⟩] at ht
    obtain ⟨hinterval, hrepeats, hcase⟩ := h.timer t ht hseq
    simp only [hran]
    exact ⟨hinterval, hrepeats, hcase⟩
  | begins now hstarting hround hround' hheap =>
    refine .inl ⟨startedAt_of_none hstarting, hlt, fun t ht hseq => ?_⟩
    rw [hheap] at ht
    obtain ⟨hinterval, hrepeats, hcase⟩ := h.timer t ht hseq
    refine ⟨hinterval, hrepeats, .inr ⟨?_, (hcase.resolve_left (not_ran_of_none hround _ _)).2⟩⟩
    -- all callbacks of the batch are left
    rintro x ⟨r, hr, -, hbatch, htodo⟩
    obtain rfl := Option.some.inj (hround'.symm.trans hr)
    exact htodo hbatch
  | starts now batch todo e hstarting hround hround' hheap =>
    rw [startedAt_of_some hstarting]
    obtain ⟨u, hu⟩ := hw.exists_of_todo hround List.mem_cons_self
    by_cases heq : w.idOf e = id
    · rw [if_pos heq]
      subst heq
      rw [idOf_of hu] at h hlt hlive ⊢
      have hran : w'.Ran ⟨e.timer, u.sequence⟩ now := hw.ran_of_starts hround hround' rfl
      obtain ⟨hinterval, hrepeats, hcase⟩ := h.timer u hu rfl
      have hdue : prev + interval ≤ u.expiration := by
        refine (hcase.resolve_left ?_).2
        rintro ⟨r, hr, -, -, htodo⟩
        obtain rfl := Option.some.inj (hround.symm.trans hr)
        exact htodo (List.mem_map_of_mem List.mem_cons_self)
      refine .inr ⟨now, rfl, hdue.trans (hw.due _ hround e List.mem_cons_self u hu),
        ⟨hlt, fun t ht _ => ?_⟩, fun hone => ⟨hlt, fun t ht _ => ?_⟩⟩
      · obtain rfl : u = t := Option.some.inj (hu.symm.trans (hheap ▸ ht))
        exact ⟨hinterval, hrepeats, .inl hran⟩
      · obtain rfl : u = t := Option.some.inj (hu.symm.trans (hheap ▸ ht))
        exact ⟨hrepeats.trans hone, now, hran⟩
    · rw [if_neg heq]
      refine .inl ⟨rfl, hlt, fun t ht hseq => ?_⟩
      rw [hheap] at ht
      have hne : e.timer ≠ id.timer := by
        intro htimer
        rw [idOf_of (htimer ▸ ht), htimer, hseq] at heq
        exact heq rfl
      simp only [ran_starts_iff hround hround' hne]
      exact h.timer t ht hseq
  | ends now batch hstarting hround hround' hre =>
    refine .inl ⟨startedAt_of_none hstarting, hlt, fun t ht hseq => ?_⟩
    obtain ⟨u, hu, hsame⟩ := hlive t ht hseq
    obtain ⟨hinterval, hrepeats, hcase⟩ := h.timer u hu hsame
    by_cases hbatch : id.timer ∈ batch.map Entry.timer
    · -- the timer has been restarted
      have hran : w.Ran id now := ⟨_, hround, rfl, hbatch, List.not_mem_nil⟩
      obtain rfl : now = prev := by
        obtain ⟨r, hr, hnow, -⟩ := hcase.resolve_right fun hnot => hnot.1 now hran
        obtain rfl := Option.some.inj (hround.symm.trans hr)
        exact hnow
      have hagain : u.repeats = true ∧
          (toLex (id.timer, u.sequence) : ActiveTimer) ∉ w.cancelingTimers := by
        by_contra hgone
        cases (hre.gone id.timer hbatch u hu hgone).symm.trans ht
      have hheap := (hre.again id.timer hbatch u hu hagain.1 hagain.2).1
      obtain rfl := Option.some.inj (hheap.symm.trans ht)
      refine ⟨hinterval, hrepeats, .inr ⟨not_ran_of_none hround' id, ?_⟩⟩
      rw [Timer.restart, if_pos hagain.1, hinterval]
    · obtain rfl : u = t := Option.some.inj
        (hu.symm.trans ((hre.keeps id.timer hbatch).heap_eq.symm.trans ht))
      refine ⟨hinterval, hrepeats, .inr ⟨not_ran_of_none hround' id, (hcase.resolve_left ?_).2⟩⟩
      rintro ⟨r, hr, -, hmem, -⟩
      obtain rfl := Option.some.inj (hround.symm.trans hr)
      exact hbatch hmem

/-- The callback of a one-shot timer is not started again. -/
theorem Spent.step (h : Spent id w) (hw : Prompt w) (hok : w.step l = .ok w') :
    w.startedAt id l = [] ∧ Spent id w' := by
  have hlt : id.sequence < w'.seq := h.sequence_lt.trans_le (hw.seq_le hok)
  have hlive : ∀ t, w'.heap id.timer = some t → t.sequence = id.sequence → w.Live id :=
    fun t ht hseq => (hw.live_of_step hok h.sequence_lt ⟨t, ht, hseq⟩).1
  cases hw.moves hok with
  | stays hstarting hround hheap _ =>
    refine ⟨startedAt_of_none hstarting, hlt, fun t ht hseq => ?_⟩
    rw [hheap id (hlive t ht hseq) ⟨t, ht, hseq⟩] at ht
    obtain ⟨hone, now, hran⟩ := h.timer t ht hseq
    exact ⟨hone, now, hran.congr hround⟩
  | begins now hstarting hround _ hheap =>
    refine ⟨startedAt_of_none hstarting, hlt, fun t ht hseq => ?_⟩
    obtain ⟨-, x, hran⟩ := h.timer t (hheap ▸ ht) hseq
    exact absurd hran (not_ran_of_none hround id x)
  | starts now batch todo e hstarting hround hround' hheap =>
    have hne : w.Live id → e.timer ≠ id.timer := by
      rintro ⟨t, ht, hseq⟩ htimer
      obtain ⟨-, x, r, hr, -, -, htodo⟩ := h.timer t ht hseq
      obtain rfl := Option.some.inj (hround.symm.trans hr)
      exact htodo (htimer ▸ List.mem_map_of_mem List.mem_cons_self)
    refine ⟨?_, hlt, fun t ht hseq => ?_⟩
    · rw [startedAt_of_some hstarting, if_neg]
      rintro rfl
      obtain ⟨u, hu⟩ := hw.exists_of_todo hround List.mem_cons_self
      rw [idOf_of hu] at hne
      exact hne ⟨u, hu, rfl⟩ rfl
    · rw [hheap] at ht
      obtain ⟨hone, x, hran⟩ := h.timer t ht hseq
      exact ⟨hone, x, (ran_starts_iff hround hround' (hne ⟨t, ht, hseq⟩) x).mpr hran⟩
  | ends now batch hstarting hround hround' hre =>
    refine ⟨startedAt_of_none hstarting, hlt, fun t ht hseq => ?_⟩
    obtain ⟨u, hu, hsame⟩ := hlive t ht hseq
    obtain ⟨hone, x, r, hr, -, hbatch, -⟩ := h.timer u hu hsame
    obtain rfl := Option.some.inj (hround.symm.trans hr)
    have hgone := hre.gone id.timer hbatch u hu fun hagain => by
      cases hone.symm.trans hagain.1
    cases hgone.symm.trans ht

/-! ### Whole runs -/

theorem Spent.startTimes_eq_nil (h : Spent id w) (hw : Prompt w) (ls : List Label) :
    startTimes id w ls = [] := by
  induction ls generalizing w with
  | nil => rfl
  | cons l ls ih =>
    obtain ⟨w', hok, -⟩ := hw.toConsistent.step l
    obtain ⟨hnone, h'⟩ := h.step hw hok
    rw [startTimes_cons_ok hok, hnone, ih h' (hw.step hok)]
    rfl

/-- From one start to the next there is at least the interval. -/
theorem Paced.isChain (h : Paced prev interval repeats id w) (hw : Prompt w) (ls : List Label) :
    (prev :: startTimes id w ls).IsChain fun s t => s + interval ≤ t := by
  induction ls generalizing w prev with
  | nil => exact .singleton _
  | cons l ls ih =>
    obtain ⟨w', hok, -⟩ := hw.toConsistent.step l
    rw [startTimes_cons_ok hok]
    rcases h.step hw hok with ⟨hnone, h'⟩ | ⟨now, hstart, hle, h', -⟩
    · rw [hnone]
      exact ih h' (hw.step hok)
    · rw [hstart]
      exact .cons_cons hle (ih h' (hw.step hok))

theorem Paced.length_le (h : Paced prev interval false id w) (hw : Prompt w) (ls : List Label) :
    (startTimes id w ls).length ≤ 1 := by
  induction ls generalizing w with
  | nil => exact Nat.zero_le _
  | cons l ls ih =>
    obtain ⟨w', hok, -⟩ := hw.toConsistent.step l
    rw [startTimes_cons_ok hok]
    rcases h.step hw hok with ⟨hnone, h'⟩ | ⟨now, hstart, -, -, hspent⟩
    · rw [hnone]
      exact ih h' (hw.step hok)
    · rw [hstart, (hspent rfl).startTimes_eq_nil (hw.step hok)]
      exact le_rfl

/-- Where each element is at least `d` after the one before, the one at position `k` is at least
`k` times `d` after the first. -/
theorem add_mul_le_getElem {d : ℤ} {ts : List ℤ}
    (h : (prev :: ts).IsChain fun s t => s + d ≤ t) (k : ℕ) (hk : k < ts.length) :
    prev + (k + 1) * d ≤ ts[k] := by
  induction ts generalizing prev k with
  | nil => cases hk
  | cons t ts ih =>
    obtain ⟨hle, hrest⟩ := List.isChain_cons_cons.mp h
    cases k with
    | zero => simpa using hle
    | succ k =>
      have hnext := ih hrest k (Nat.lt_of_succ_lt_succ hk)
      rw [List.getElem_cons_succ]
      push_cast
      linarith

/-- A new timer is made for the time `when_`. -/
theorem Prompt.paced_addTimer (h : Prompt w) {inLoop : Bool} {when_ clock : ℤ}
    (henabled : w.Enabled (.addTimer inLoop a when_ interval repeats clock))
    (hok : w.step (.addTimer inLoop a when_ interval repeats clock) = .ok w') :
    Paced (when_ - interval) interval repeats ⟨a, w.seq⟩ w' := by
  have hfree : w.heap a = none := henabled.1.1
  rw [World.step, if_pos henabled] at hok
  have hnew : (w.newTimer a when_ interval repeats).heap a =
      some ⟨when_, interval, repeats, w.seq⟩ := Function.update_self ..
  have hsame : w'.heap = (w.newTimer a when_ interval repeats).heap ∧ w'.seq = w.seq + 1 ∧
      w'.round = w.round := by
    cases inLoop with
    | true =>
      obtain ⟨t, -, ⟨-, rfl⟩ | ⟨-, rfl⟩⟩ :=
        addTimerInLoop_eq_ok (w := w.newTimer a when_ interval repeats) hok
      · exact ⟨rfl, rfl, rfl⟩
      · exact ⟨rfl, rfl, rfl⟩
    | false => exact Except.ok.inj hok ▸ ⟨rfl, rfl, rfl⟩
  obtain ⟨hheap, hseq, hround⟩ := hsame
  refine ⟨hseq ▸ Nat.lt_succ_self _, fun t ht _ => ?_⟩
  rw [hheap] at ht
  obtain rfl := Option.some.inj (hnew.symm.trans ht)
  refine ⟨rfl, rfl, .inr ⟨?_, (sub_add_cancel when_ interval).le⟩⟩
  -- the address is not one of the batch
  rintro x ⟨r, hr, -, hbatch, -⟩
  rw [hround] at hr
  obtain ⟨place, howned, -⟩ := h.exists_place hr
  cases ((howned.expired_iff a).mp hbatch).symm.trans ((howned.free_iff a).mp hfree)

/-- **Callbacks keep their distance.** In every run, whatever else is added and cancelled, the
callback of a timer is started for the `k`-th time, counted from zero, in a round whose time is at
least its expiration plus `k` times its interval; between two starts there is at least the
interval; and the callback of a one-shot timer is started at most once. -/
theorem startTimes_spaced {ls ls' : List Label} {inLoop : Bool} {when_ clock : ℤ}
    (hrun : Machine.run step init ls = .ok w)
    (henabled : w.Enabled (.addTimer inLoop a when_ interval repeats clock))
    (hadd : w.step (.addTimer inLoop a when_ interval repeats clock) = .ok w') :
    (∀ k (hk : k < (startTimes ⟨a, w.seq⟩ w' ls').length),
      when_ + k * interval ≤ (startTimes ⟨a, w.seq⟩ w' ls')[k]) ∧
    (startTimes ⟨a, w.seq⟩ w' ls').IsChain (fun s t => s + interval ≤ t) ∧
    (repeats = false → (startTimes ⟨a, w.seq⟩ w' ls').length ≤ 1) := by
  have hw : Prompt w :=
    Machine.invariant_of_run prompt_init (fun _ _ _ hu => hu.step) hrun
  have hpaced := hw.paced_addTimer henabled hadd
  have hchain := hpaced.isChain (hw.step hadd) ls'
  refine ⟨fun k hk => ?_, hchain.tail, ?_⟩
  · have hle := add_mul_le_getElem hchain k hk
    linarith
  · rintro rfl
    exact hpaced.length_le (hw.step hadd) ls'

/-- A timer for the time 90 with an interval of 50. Its first round is late, at 95, so it is due
again at 145, and its second round is at 150. -/
theorem startTimes_spaced_late : ∃ w', step init (.addTimer true 16 90 50 true 10) = .ok w' ∧
    startTimes ⟨16, 0⟩ w' [.handleRead 95 95, .runNext, .finish 96, .handleRead 150 150, .runNext] =
      [95, 150] ∧
    [(95 : ℤ), 150].IsChain (fun s t => s + 50 ≤ t) := by
  have hadd : step init (.addTimer true 16 90 50 true 10) = .ok _ := rfl
  have hchain : (startTimes ⟨16, 0⟩ _ [.handleRead 95 95, .runNext, .finish 96,
      .handleRead 150 150, .runNext]).IsChain (fun s t => s + 50 ≤ t) :=
    (startTimes_spaced Machine.run_nil (by decide) hadd).2.1
  exact ⟨_, hadd, rfl, hchain⟩

end World

end TimerQueue

end MuduoRebuild
