import MuduoRebuild.TimerQueue.Places

/-!
# The operations of a timer queue

Each operation of `TimerQueue`, started with every timer in its place, passes all its `assert`s,
touches live timers only, and moves the timers as the lemmas of this file say.
-/

namespace MuduoRebuild

namespace TimerQueue

open Fallible

namespace World

variable {w w' : World} {batch : List Entry} {place : Address → Place} {a : Address} {t : Timer}

/-- Both sets have one element for each scheduled timer. -/
theorem Owned.size_eq (h : Owned w batch place) : w.timers.size = w.activeTimers.size := by
  refine OrderedSet.size_eq_of_matching Entry.timer ActiveTimer.timer ?_ ?_ fun a => ?_
  · intro e he e' he' heq
    obtain ⟨-, t, ht, hx⟩ := (h.timers_iff e.time e.timer).mp he
    obtain ⟨-, t', ht', hx'⟩ := (h.timers_iff e'.time e'.timer).mp he'
    obtain rfl : t = t' := Option.some.inj (ht.symm.trans (heq ▸ ht'))
    exact Prod.ext (hx.symm.trans hx') heq
  · intro p hp q hq heq
    obtain ⟨-, t, ht, hn⟩ := (h.active_iff p.timer (ofLex p).2).mp hp
    obtain ⟨-, t', ht', hn'⟩ := (h.active_iff q.timer (ofLex q).2).mp hq
    obtain rfl : t = t' := Option.some.inj (ht.symm.trans (heq ▸ ht'))
    exact Prod.ext heq (hn.symm.trans hn')
  · constructor
    · rintro ⟨e, he, rfl⟩
      obtain ⟨hplace, t, ht, -⟩ := (h.timers_iff e.time e.timer).mp he
      exact ⟨toLex (e.timer, t.sequence), (h.active_iff _ _).mpr ⟨hplace, t, ht, rfl⟩, rfl⟩
    · rintro ⟨p, hp, rfl⟩
      obtain ⟨hplace, t, ht, -⟩ := (h.active_iff p.timer (ofLex p).2).mp hp
      exact ⟨toLex (t.expiration, p.timer), (h.timers_iff _ _).mpr ⟨hplace, t, ht, rfl⟩, rfl⟩

theorem Owned.exists_timer (h : Owned w batch place) (ha : place a ≠ .free) :
    ∃ t, w.heap a = some t :=
  Option.ne_none_iff_exists'.mp fun hnone => ha ((h.free_iff a).mp hnone)

theorem deref_of (ht : w.heap a = some t) : w.deref a = .ok t := by
  rw [deref, ht]

theorem deleteTimer_of (ht : w.heap a = some t) : w.deleteTimer a = .ok (w.free a t) :=
  bind_of_ok (deref_of ht) _

/-- Neither `assert` of `insert` fails for a timer in hand. -/
theorem Owned.insert (h : Owned w batch place) (ht : w.heap a = some t)
    (ha : place a = .fresh ∨ place a = .held) : ∃ c, w.insert a = .ok (w.link a t, c) := by
  have hplace : place a ≠ .scheduled := by
    rcases ha with ha | ha <;> rw [ha] <;> decide
  have hentry : (toLex (t.expiration, a) : Entry) ∉ w.timers := fun hmem =>
    hplace ((h.timers_iff _ _).mp hmem).1
  have hactive : (toLex (a, t.sequence) : ActiveTimer) ∉ w.activeTimers := fun hmem =>
    hplace ((h.active_iff _ _).mp hmem).1
  simp only [World.insert, deref_of ht, ok_bind, assertThat, check_of hentry, check_of hactive,
    pure_eq_ok]
  exact ⟨_, rfl⟩

/-- `addTimerInLoop` schedules a new timer, and may arm the timerfd for it. -/
theorem Owned.addTimerInLoop (h : Owned w batch place) (ha : place a = .fresh) (clock : ℤ) :
    ∃ t, w.heap a = some t ∧ Owned (w.link a t) batch (Function.update place a .scheduled) ∧
      (w.addTimerInLoop clock a = .ok (w.link a t) ∨
        w.addTimerInLoop clock a = .ok ((w.link a t).resetTimerfd clock t.expiration)) := by
  obtain ⟨t, ht⟩ := h.exists_timer (a := a) (by rw [ha]; decide)
  obtain ⟨c, hinsert⟩ := h.insert ht (.inl ha)
  refine ⟨t, ht, h.link ht (.inl ha), ?_⟩
  rw [World.addTimerInLoop, hinsert, ok_bind]
  cases c with
  | false => exact .inl rfl
  | true =>
    refine .inr ?_
    simp only [if_true]
    rw [deref_of (w := w.link a t) ht]
    rfl

/-- `cancelInLoop` deletes a scheduled timer. -/
theorem Owned.cancelInLoop_of_active {id : TimerId} (h : Owned w batch place)
    (hactive : id.active ∈ w.activeTimers) :
    ∃ t, w.heap id.timer = some t ∧ t.sequence = id.sequence ∧ ∃ w',
      w' = World.free { (w.record (.cancelled id)) with
        timers := w.timers.erase (toLex (t.expiration, id.timer))
        activeTimers := w.activeTimers.erase id.active } id.timer t ∧
      w.cancelInLoop id = .ok w' ∧ Owned w' batch (Function.update place id.timer .free) := by
  obtain ⟨hplace, t, ht, hseq⟩ := (h.active_iff id.timer id.sequence).mp hactive
  have hrec : Owned (w.record (.cancelled id)) batch place :=
    h.record (fun _ => by simp) rfl
  have hentry : (toLex (t.expiration, id.timer) : Entry) ∈ w.timers :=
    (h.timers_iff _ _).mpr ⟨hplace, t, ht, rfl⟩
  have hkey : id.active = toLex (id.timer, t.sequence) := by
    rw [hseq]
    rfl
  have hfree := (hrec.unlink ht hplace).free ht (Function.update_self ..)
  rw [Function.update_idem, ← hkey] at hfree
  refine ⟨t, ht, hseq, _, rfl, ?_, hfree⟩
  refine (if_pos hactive).trans ?_
  refine (bind_of_ok (deref_of ht) _).trans ?_
  refine (bind_of_ok (check_of hentry _) _).trans ?_
  refine (bind_of_ok (deleteTimer_of (w := { w.record (.cancelled id) with
    timers := w.timers.erase (toLex (t.expiration, id.timer)) }) ht) _).trans ?_
  exact bind_of_ok (check_of hfree.size_eq _) _

/-- `cancelInLoop` of any other timer is at most noted for `reset`. -/
theorem Owned.cancelInLoop_of_not_active {id : TimerId} (h : Owned w batch place)
    (hactive : id.active ∉ w.activeTimers) :
    ∃ w', w' = (if w.callingExpiredTimers then { w.record (.cancelled id) with
        cancelingTimers := w.cancelingTimers.insert id.active } else w.record (.cancelled id)) ∧
      w.cancelInLoop id = .ok w' ∧ Owned w' batch place := by
  have hrec : Owned (w.record (.cancelled id)) batch place :=
    h.record (fun _ => by simp) rfl
  have howned : Owned (if w.callingExpiredTimers then { w.record (.cancelled id) with
      cancelingTimers := w.cancelingTimers.insert id.active } else w.record (.cancelled id))
      batch place := by
    split_ifs
    · exact { hrec with }
    · exact hrec
  refine ⟨_, rfl, ?_, howned⟩
  refine (if_neg hactive).trans ?_
  exact bind_of_ok (check_of howned.size_eq _) _

/-- The loop of `getExpired` takes exactly the expired timers out of `activeTimers_`. -/
theorem eraseActive_of {expired : List Entry} {active : OrderedSet ActiveTimer}
    (hlive : ∀ p ∈ active, ∃ t, w.heap p.timer = some t ∧ p = toLex (p.timer, t.sequence))
    (hmem : ∀ e ∈ expired, ∃ p ∈ active, p.timer = e.timer)
    (honce : (expired.map Entry.timer).Nodup) :
    ∃ active', w.eraseActive expired active = .ok active' ∧
      ∀ p, p ∈ active' ↔ p ∈ active ∧ p.timer ∉ expired.map Entry.timer := by
  induction expired generalizing active with
  | nil => exact ⟨active, rfl, fun p => by simp⟩
  | cons e expired ih =>
    rw [List.map_cons, List.nodup_cons] at honce
    obtain ⟨q, hq, hqe⟩ := hmem e List.mem_cons_self
    obtain ⟨t, ht, heq⟩ := hlive q hq
    rw [hqe] at ht heq
    have hkey : (toLex (e.timer, t.sequence) : ActiveTimer) ∈ active := heq ▸ hq
    -- an active timer is determined by its address
    have hsame : ∀ p ∈ active, p.timer = e.timer → p = toLex (e.timer, t.sequence) := by
      intro p hp hpe
      obtain ⟨u, hu, hpu⟩ := hlive p hp
      rw [hpe] at hu hpu
      rw [hpu, Option.some.inj (hu.symm.trans ht)]
    have hrest : ∀ e' ∈ expired,
        ∃ p : ActiveTimer, p ∈ active.erase (toLex (e.timer, t.sequence)) ∧
          p.timer = e'.timer := by
      intro e' he'
      obtain ⟨p, hp, hpe⟩ := hmem e' (List.mem_cons_of_mem e he')
      refine ⟨p, OrderedSet.mem_erase.mpr ⟨hp, fun hpt => honce.1 ?_⟩, hpe⟩
      have hee : e.timer = e'.timer := (congrArg ActiveTimer.timer hpt).symm.trans hpe
      exact hee ▸ List.mem_map_of_mem he'
    obtain ⟨active', herase, hiff⟩ :=
      ih (fun p hp => hlive p (OrderedSet.mem_erase.mp hp).1) hrest honce.2
    refine ⟨active', ?_, ?_⟩
    · refine (bind_of_ok (deref_of ht) _).trans ?_
      exact (bind_of_ok (check_of hkey _) _).trans herase
    · intro p
      rw [hiff, OrderedSet.mem_erase, List.map_cons, List.mem_cons, not_or]
      constructor
      · rintro ⟨⟨hp, hne⟩, hout⟩
        exact ⟨hp, fun hpe => hne (hsame p hp hpe), hout⟩
      · rintro ⟨hp, hne, hout⟩
        exact ⟨⟨hp, fun hpe => hne (congrArg ActiveTimer.timer hpe)⟩, hout⟩

/-- The timers that are due. -/
def due (w : World) (now : ℤ) : List Entry := (w.timers.below (toLex (now, uintptrMax))).toList

/-- The due timers move into the batch. -/
def Place.expire (place : Address → Place) (batch : List Entry) (a : Address) : Place :=
  if a ∈ batch.map Entry.timer then .expired else place a

theorem Owned.place_of_due (h : Owned w batch place) {now : ℤ}
    (ha : a ∈ (w.due now).map Entry.timer) : place a = .scheduled := by
  obtain ⟨e, he, rfl⟩ := List.mem_map.mp ha
  exact ((h.timers_iff e.time e.timer).mp (OrderedSet.mem_below.mp he).1).1

/-- A scheduled timer is due when its entry is below the sentry. -/
theorem Owned.mem_due_iff (h : Owned w batch place) {now x : ℤ}
    (hx : (toLex (x, a) : Entry) ∈ w.timers) :
    a ∈ (w.due now).map Entry.timer ↔ (toLex (x, a) : Entry) < toLex (now, uintptrMax) := by
  constructor
  · intro ha
    obtain ⟨e, he, rfl⟩ := List.mem_map.mp ha
    obtain ⟨he, hlt⟩ := OrderedSet.mem_below.mp he
    obtain ⟨-, t, ht, hxt⟩ := (h.timers_iff e.time e.timer).mp he
    obtain ⟨-, u, hu, hxu⟩ := (h.timers_iff x e.timer).mp hx
    have heq : e = toLex (x, e.timer) :=
      Prod.ext (hxt.symm.trans (Option.some.inj (ht.symm.trans hu) ▸ hxu)) rfl
    exact heq ▸ hlt
  · intro hlt
    exact List.mem_map.mpr ⟨_, OrderedSet.mem_below.mpr ⟨hx, hlt⟩, rfl⟩

theorem Owned.due_once (h : Owned w batch place) (now : ℤ) :
    ((w.due now).map Entry.timer).Nodup := by
  refine List.Nodup.map_on ?_ (OrderedSet.nodup _)
  intro e he e' he' heq
  obtain ⟨-, t, ht, hx⟩ := (h.timers_iff e.time e.timer).mp (OrderedSet.mem_below.mp he).1
  obtain ⟨-, u, hu, hy⟩ := (h.timers_iff e'.time e'.timer).mp (OrderedSet.mem_below.mp he').1
  obtain rfl : t = u := Option.some.inj (ht.symm.trans (heq ▸ hu))
  exact Prod.ext (hx.symm.trans hy) heq

/-- The due timers are all active. -/
theorem Owned.eraseActive_due (h : Owned w batch place) (now : ℤ) :
    ∃ active', w.eraseActive (w.due now) w.activeTimers = .ok active' ∧
      ∀ p, p ∈ active' ↔ p ∈ w.activeTimers ∧ p.timer ∉ (w.due now).map Entry.timer := by
  refine eraseActive_of ?_ ?_ (h.due_once now)
  · intro p hp
    obtain ⟨-, t, ht, hn⟩ := (h.active_iff p.timer (ofLex p).2).mp hp
    exact ⟨t, ht, Prod.ext rfl hn.symm⟩
  · intro e he
    obtain ⟨hplace, t, ht, -⟩ :=
      (h.timers_iff e.time e.timer).mp (OrderedSet.mem_below.mp he).1
    exact ⟨toLex (e.timer, t.sequence), (h.active_iff _ _).mpr ⟨hplace, t, ht, rfl⟩, rfl⟩

/-- The due timers are taken out of both sets. -/
theorem Owned.expire (h : Owned w [] place) (now : ℤ) {active' : OrderedSet ActiveTimer}
    (hactive : ∀ p, p ∈ active' ↔
      p ∈ w.activeTimers ∧ p.timer ∉ (w.due now).map Entry.timer) :
    Owned { w with timers := w.timers.above (toLex (now, uintptrMax)), activeTimers := active' }
      (w.due now) (Place.expire place (w.due now)) := by
  refine owned_of_ownedAt ?_ h.queued_once (h.due_once now) h.seq_inj h.deleted_gone
    h.deleted_once
  intro b
  have hat := h.ownedAt b
  rw [Place.expire]
  split_ifs with hb
  · rw [h.place_of_due hb] at hat
    refine ⟨?free, ?timers, ?active, ?queued, ?expired, fun _ => hat.lt_max (by decide),
      hat.seq_lt, hat.inserted_iff⟩
    case free => simpa using hat.free_iff
    case timers =>
      -- what is due lies below the sentry
      intro x
      have hout : (toLex (x, b) : Entry) ∉ w.timers.above (toLex (now, uintptrMax)) := by
        rw [OrderedSet.mem_above]
        exact fun ⟨hx, hnot⟩ => hnot ((h.mem_due_iff hx).mp hb)
      simpa using hout
    case active =>
      intro n
      have hout : (toLex (b, n) : ActiveTimer) ∉ active' := fun hn => ((hactive _).mp hn).2 hb
      simpa using hout
    case queued => simpa using hat.queued_iff
    case expired => exact iff_of_true hb rfl
  · refine { hat with timers_iff := ?_, active_iff := ?_, expired_iff := ?_ }
    · intro x
      rw [← hat.timers_iff x, OrderedSet.mem_above, and_iff_left_iff_imp]
      exact fun hx hlt => hb ((h.mem_due_iff hx).mpr hlt)
    · intro n
      rw [hactive]
      exact (and_iff_left hb).trans (hat.active_iff n)
    · -- the batch was empty before
      exact iff_of_false hb fun hplace => List.not_mem_nil (hat.expired_iff.mpr hplace)

/-- No timer that is left has expired: no address reaches that of the sentry. -/
theorem Owned.begin?_above (h : Owned w batch place) (now : ℤ) :
    (w.timers.above (toLex (now, uintptrMax))).begin?.all (fun e : Entry => now < e.time) =
      true := by
  rw [Option.all_eq_true]
  intro e he
  obtain ⟨he, hnot⟩ := OrderedSet.mem_above.mp (List.mem_of_head? he)
  have hplace := ((h.timers_iff (Entry.time e) (Entry.timer e)).mp he).1
  have hmax := h.lt_max (Entry.timer e) (by rw [hplace]; decide)
  rw [Prod.Lex.lt_iff, not_or, not_and] at hnot
  refine decide_eq_true (lt_of_le_of_ne (not_lt.mp hnot.1) fun heq => ?_)
  exact hnot.2 heq.symm hmax

/-- `getExpired` moves the due timers into the batch. -/
theorem Owned.getExpired (h : Owned w [] place) (now : ℤ) :
    ∃ active', w.getExpired now = .ok (w.due now, { w with
        timers := w.timers.above (toLex (now, uintptrMax)), activeTimers := active' }) ∧
      Owned { w with timers := w.timers.above (toLex (now, uintptrMax)), activeTimers := active' }
        (w.due now) (Place.expire place (w.due now)) := by
  obtain ⟨active', herase, hactive⟩ := h.eraseActive_due now
  have howned := h.expire now hactive
  refine ⟨active', ?_, howned⟩
  refine (bind_of_ok (check_of (h.begin?_above now) _) _).trans ?_
  refine (bind_of_ok herase _).trans ?_
  exact bind_of_ok (check_of howned.size_eq _) _

/-- One pass of the loop in `reset` schedules the timer again or deletes it. -/
theorem Owned.resetTimer {e : Entry} (h : Owned w (e :: batch) place) (now : ℤ) :
    ∃ t, w.heap e.timer = some t ∧
      ((toLex (e.timer, t.sequence) : ActiveTimer) ∉ w.cancelingTimers ∧
          w.resetTimer now e = .ok (World.link
            { w with heap := Function.update w.heap e.timer (some (t.restart now)) }
            e.timer (t.restart now)) ∧
          Owned (World.link
            { w with heap := Function.update w.heap e.timer (some (t.restart now)) }
            e.timer (t.restart now)) batch (Function.update place e.timer .scheduled) ∨
        w.resetTimer now e = .ok (w.free e.timer t) ∧
          Owned (w.free e.timer t) batch (Function.update place e.timer .free)) := by
  obtain ⟨hplace, htaken⟩ := h.take
  obtain ⟨t, ht⟩ := h.exists_timer (a := e.timer) (by rw [hplace]; decide)
  have hheld : Function.update place e.timer .held e.timer = .held := Function.update_self ..
  refine ⟨t, ht, ?_⟩
  by_cases hagain : t.repeats ∧ (toLex (e.timer, t.sequence) : ActiveTimer) ∉ w.cancelingTimers
  · have hrestart := htaken.restart ht hheld now
    have hnew : (Function.update w.heap e.timer (some (t.restart now))) e.timer =
        some (t.restart now) := Function.update_self ..
    obtain ⟨c, hinsert⟩ := hrestart.insert hnew (.inr hheld)
    have hlink := hrestart.link hnew (.inr hheld)
    rw [Function.update_idem] at hlink
    refine .inl ⟨hagain.2, ?_, hlink⟩
    refine (bind_of_ok (deref_of ht) _).trans ((if_pos hagain).trans ?_)
    exact bind_of_ok hinsert _
  · have hfree := htaken.free ht hheld
    rw [Function.update_idem] at hfree
    refine .inr ⟨?_, hfree⟩
    exact (bind_of_ok (deref_of ht) _).trans ((if_neg hagain).trans (deleteTimer_of ht))

/-- No timer is in the hands of an operation. -/
def NoneInHand (place : Address → Place) : Prop := ∀ a, place a ≠ .fresh ∧ place a ≠ .held

theorem NoneInHand.update (h : NoneInHand place) {p : Place} (hp : p ≠ .fresh ∧ p ≠ .held) :
    NoneInHand (Function.update place a p) := by
  intro b
  by_cases hb : b = a
  · rw [hb, Function.update_self]
    exact hp
  · rw [Function.update_of_ne hb]
    exact h b

/-- What the loop in `reset` does to the rest of the world, and to the timers that are to be
cancelled. -/
structure Resets (batch : List Entry) (w w' : World) : Prop where
  round_eq : w'.round = w.round
  calling_eq : w'.callingExpiredTimers = w.callingExpiredTimers
  canceling_eq : w'.cancelingTimers = w.cancelingTimers
  seq_eq : w'.seq = w.seq
  log_eq : ∃ es, w'.log = w.log ++ es ∧
    ∀ e ∈ es, (∃ id, e = .inserted id) ∨ ∃ id, e = .deleted id
  live : ∀ id, w'.Live id → w.Live id
  cancelled : ∀ id : TimerId, id.timer ∈ batch.map Entry.timer →
    id.active ∈ w.cancelingTimers → ¬w'.Live id

theorem Resets.refl (w : World) : Resets [] w w :=
  ⟨rfl, rfl, rfl, rfl, ⟨[], (List.append_nil _).symm, fun _ h => by cases h⟩, fun _ h => h,
    fun _ h => by cases h⟩

/-- One pass, then the others. -/
theorem Resets.cons {w₁ : World} {e : Entry} (hfst : Resets [e] w w₁) (hrest : Resets batch w₁ w') :
    Resets (e :: batch) w w' := by
  obtain ⟨es, hlog, hes⟩ := hfst.log_eq
  obtain ⟨fs, hlog', hfs⟩ := hrest.log_eq
  refine ⟨hrest.round_eq.trans hfst.round_eq, hrest.calling_eq.trans hfst.calling_eq,
    hrest.canceling_eq.trans hfst.canceling_eq, hrest.seq_eq.trans hfst.seq_eq,
    ⟨es ++ fs, ?_, ?_⟩, fun id hlive => hfst.live id (hrest.live id hlive), ?_⟩
  · rw [hlog', hlog, List.append_assoc]
  · intro f hf
    rcases List.mem_append.mp hf with hf | hf
    · exact hes f hf
    · exact hfs f hf
  · intro id hid hc
    rw [List.map_cons, List.mem_cons] at hid
    rcases hid with heq | hmem
    · exact fun hlive => hfst.cancelled id (List.mem_singleton.mpr heq) hc (hrest.live id hlive)
    · exact hrest.cancelled id hmem (hfst.canceling_eq ▸ hc)

theorem resets_link {e : Entry} (ht : w.heap e.timer = some t) (now : ℤ)
    (hc : (toLex (e.timer, t.sequence) : ActiveTimer) ∉ w.cancelingTimers) :
    Resets [e] w (World.link
      { w with heap := Function.update w.heap e.timer (some (t.restart now)) }
      e.timer (t.restart now)) := by
  have hlive : ∀ id, Live (World.link
      { w with heap := Function.update w.heap e.timer (some (t.restart now)) }
      e.timer (t.restart now)) id → w.Live id := by
    rintro ⟨b, n⟩ ⟨u, hu, rfl⟩
    simp only [World.link, World.record, Function.update_apply] at hu
    split_ifs at hu with hb
    · obtain rfl := Option.some.inj hu
      exact ⟨t, hb ▸ ht, rfl⟩
    · exact ⟨u, hu, rfl⟩
  refine ⟨rfl, rfl, rfl, rfl, ⟨[_], rfl, ?_⟩, hlive, ?_⟩
  · intro f hf
    exact .inl ⟨_, List.mem_singleton.mp hf⟩
  · intro id hid hcid hl
    obtain ⟨u, hu, hseq⟩ := hlive id hl
    have htimer : id.timer = e.timer := List.mem_singleton.mp hid
    obtain rfl : t = u := Option.some.inj (ht.symm.trans (htimer ▸ hu))
    refine hc ?_
    rwa [hseq, ← htimer]

theorem resets_free (w : World) (e : Entry) (t : Timer) : Resets [e] w (w.free e.timer t) := by
  refine ⟨rfl, rfl, rfl, rfl, ⟨[_], rfl, ?_⟩, ?_, ?_⟩
  · intro f hf
    exact .inr ⟨_, List.mem_singleton.mp hf⟩
  · rintro ⟨b, n⟩ ⟨u, hu, rfl⟩
    simp only [World.free, World.record, Function.update_apply] at hu
    split_ifs at hu with hb
    exact ⟨u, hu, rfl⟩
  · rintro id hid - ⟨u, hu, -⟩
    have htimer : id.timer = e.timer := List.mem_singleton.mp hid
    rw [World.free, World.record, htimer] at hu
    exact absurd ((Function.update_self ..).symm.trans hu) (by simp)

/-- The loop in `reset` empties the batch. -/
theorem Owned.resetTimers (h : Owned w batch place) (hhand : NoneInHand place) (now : ℤ) :
    ∃ w' place', World.resetTimers now batch w = .ok w' ∧ Owned w' [] place' ∧
      NoneInHand place' ∧ Resets batch w w' := by
  induction batch generalizing w place with
  | nil => exact ⟨w, place, rfl, h, hhand, .refl w⟩
  | cons e batch ih =>
    obtain ⟨t, ht, ⟨hc, hstep, hnext⟩ | ⟨hstep, hnext⟩⟩ := h.resetTimer now
    · obtain ⟨w', place', hrest, howned, hhand', hresets⟩ := ih hnext (hhand.update (by decide))
      exact ⟨w', place', (bind_of_ok hstep _).trans hrest, howned, hhand',
        (resets_link ht now hc).cons hresets⟩
    · obtain ⟨w', place', hrest, howned, hhand', hresets⟩ := ih hnext (hhand.update (by decide))
      exact ⟨w', place', (bind_of_ok hstep _).trans hrest, howned, hhand',
        (resets_free w e t).cons hresets⟩

/-- `reset` empties the batch and may arm the timerfd. -/
theorem Owned.reset (h : Owned w batch place) (hhand : NoneInHand place) (clock now : ℤ) :
    ∃ w' place', w.reset clock now batch = .ok w' ∧ Owned w' [] place' ∧ NoneInHand place' ∧
      Resets batch w w' := by
  obtain ⟨w₁, place', hreset, howned, hhand', hresets⟩ := h.resetTimers hhand now
  have hbind := fun f => bind_of_ok (β := World) hreset f
  cases hbegin : w₁.timers.begin? with
  | none =>
    refine ⟨w₁, place', (hbind _).trans ?_, howned, hhand', hresets⟩
    simp only [hbegin]
    rfl
  | some e =>
    have he : e ∈ w₁.timers := List.mem_of_head? hbegin
    obtain ⟨-, t, ht, -⟩ := (howned.timers_iff (Entry.time e) (Entry.timer e)).mp he
    refine ⟨if 0 < t.expiration then w₁.resetTimerfd clock t.expiration else w₁, place', ?_, ?_,
      hhand', ?_⟩
    · refine (hbind _).trans ?_
      simp only [hbegin]
      exact bind_of_ok (deref_of ht) _
    · split_ifs
      · exact { howned with }
      · exact howned
    · split_ifs
      · exact { hresets with }
      · exact hresets

end World

end TimerQueue

end MuduoRebuild
