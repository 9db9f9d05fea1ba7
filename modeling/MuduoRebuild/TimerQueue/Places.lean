import MuduoRebuild.TimerQueue.Basic

/-!
# Where the timers are

Every live timer is in one place: it waits in the loop's queue for its insertion, or it is
scheduled, or it belongs to the batch of expired timers in progress. `Owned` records this as a
function from addresses to places, and says how the two sets, the queue, the batch and the
history follow from it. Two more places are for a timer in the hands of the operation in
progress, so that each operation is a sequence of moves from place to place.

A move changes the world at one address only (`SameBut`), so that it is enough to see what
`Owned` says of that address (`OwnedAt`, `Owned.move`). This file has the moves.
-/

namespace MuduoRebuild

namespace TimerQueue

/-- Where a timer is. -/
inductive Place where
  | free
  /-- Created, and not yet handed over. -/
  | fresh
  /-- Waiting in `pendingFunctors_` for `addTimerInLoop`. -/
  | queued
  /-- In `timers_` and `activeTimers_`. -/
  | scheduled
  /-- In `expired`. -/
  | expired
  /-- Taken out of its place by the operation in progress. -/
  | held
  deriving DecidableEq

/-- The timer at this place has been inserted at least once. -/
def Place.Settled : Place → Prop
  | scheduled | expired | held => True
  | free | fresh | queued => False

/-- The timer that a functor will insert. -/
def Functor.timer? : Functor → Option Address
  | .addTimerInLoop a => some a
  | .cancelInLoop _ => none

/-- The sequence number of a timer that has been deleted. -/
def Event.deleted? : Event → Option ℕ
  | .deleted id => some id.sequence
  | _ => none

/-- The sequence numbers of the timers deleted in a history, in order. -/
def deletions (log : List Event) : List ℕ := log.filterMap Event.deleted?

theorem deletions_append (log : List Event) (e : Event) :
    deletions (log ++ [e]) = deletions log ++ e.deleted?.toList := by
  rw [deletions, List.filterMap_append]
  cases h : e.deleted? <;> simp [deletions, h]

namespace World

/-- `id` names a timer that exists. -/
def Live (w : World) (id : TimerId) : Prop :=
  ∃ t, w.heap id.timer = some t ∧ t.sequence = id.sequence

/-- The two sets, the queue of functors, the batch and the history say where each timer is. -/
structure Owned (w : World) (batch : List Entry) (place : Address → Place) : Prop where
  free_iff : ∀ a, w.heap a = none ↔ place a = .free
  timers_iff : ∀ x a, toLex (x, a) ∈ w.timers ↔
    place a = .scheduled ∧ ∃ t, w.heap a = some t ∧ t.expiration = x
  active_iff : ∀ a n, toLex (a, n) ∈ w.activeTimers ↔ place a = .scheduled ∧ w.Live ⟨a, n⟩
  queued_iff : ∀ a, a ∈ w.pendingFunctors.filterMap Functor.timer? ↔ place a = .queued
  queued_once : (w.pendingFunctors.filterMap Functor.timer?).Nodup
  expired_iff : ∀ a, a ∈ batch.map Entry.timer ↔ place a = .expired
  expired_once : (batch.map Entry.timer).Nodup
  lt_max : ∀ a, place a ≠ .free → a < uintptrMax
  seq_lt : ∀ a t, w.heap a = some t → t.sequence < w.seq
  seq_inj : ∀ a b t u, w.heap a = some t → w.heap b = some u → t.sequence = u.sequence → a = b
  inserted_iff : ∀ id, .inserted id ∈ w.log ↔
    .deleted id ∈ w.log ∨ w.Live id ∧ (place id.timer).Settled
  deleted_gone : ∀ n ∈ deletions w.log,
    n < w.seq ∧ ∀ a t, w.heap a = some t → t.sequence ≠ n
  deleted_once : (deletions w.log).Nodup

variable {w w' : World} {batch batch' : List Entry} {place : Address → Place} {a : Address}
  {t : Timer}

/-! ### One address -/

/-- What `Owned` says of one address. -/
structure OwnedAt (w : World) (batch : List Entry) (a : Address) (p : Place) : Prop where
  free_iff : w.heap a = none ↔ p = .free
  timers_iff : ∀ x, toLex (x, a) ∈ w.timers ↔
    p = .scheduled ∧ ∃ t, w.heap a = some t ∧ t.expiration = x
  active_iff : ∀ n, toLex (a, n) ∈ w.activeTimers ↔ p = .scheduled ∧ w.Live ⟨a, n⟩
  queued_iff : a ∈ w.pendingFunctors.filterMap Functor.timer? ↔ p = .queued
  expired_iff : a ∈ batch.map Entry.timer ↔ p = .expired
  lt_max : p ≠ .free → a < uintptrMax
  seq_lt : ∀ t, w.heap a = some t → t.sequence < w.seq
  inserted_iff : ∀ n, .inserted ⟨a, n⟩ ∈ w.log ↔
    .deleted ⟨a, n⟩ ∈ w.log ∨ w.Live ⟨a, n⟩ ∧ p.Settled

/-- Away from one address nothing changes. -/
structure SameBut (a : Address) (w w' : World) (batch batch' : List Entry) : Prop where
  heap_eq : ∀ b ≠ a, w'.heap b = w.heap b
  timers_iff : ∀ b ≠ a, ∀ x, toLex (x, b) ∈ w'.timers ↔ toLex (x, b) ∈ w.timers
  active_iff : ∀ b ≠ a, ∀ n, toLex (b, n) ∈ w'.activeTimers ↔ toLex (b, n) ∈ w.activeTimers
  queued_iff : ∀ b ≠ a, b ∈ w'.pendingFunctors.filterMap Functor.timer? ↔
    b ∈ w.pendingFunctors.filterMap Functor.timer?
  expired_iff : ∀ b ≠ a, b ∈ batch'.map Entry.timer ↔ b ∈ batch.map Entry.timer
  seq_le : w.seq ≤ w'.seq
  inserted_iff : ∀ b ≠ a, ∀ n, .inserted ⟨b, n⟩ ∈ w'.log ↔ .inserted ⟨b, n⟩ ∈ w.log
  deleted_iff : ∀ b ≠ a, ∀ n, .deleted ⟨b, n⟩ ∈ w'.log ↔ .deleted ⟨b, n⟩ ∈ w.log

theorem sameBut_refl (a : Address) (w : World) (batch : List Entry) :
    SameBut a w w batch batch :=
  ⟨fun _ _ => rfl, fun _ _ _ => Iff.rfl, fun _ _ _ => Iff.rfl, fun _ _ => Iff.rfl,
    fun _ _ => Iff.rfl, le_refl _, fun _ _ _ => Iff.rfl, fun _ _ _ => Iff.rfl⟩

theorem Owned.ownedAt (h : Owned w batch place) (a : Address) : OwnedAt w batch a (place a) :=
  ⟨h.free_iff a, fun x => h.timers_iff x a, h.active_iff a, h.queued_iff a, h.expired_iff a,
    h.lt_max a, h.seq_lt a, fun n => h.inserted_iff ⟨a, n⟩⟩

theorem owned_of_ownedAt (hall : ∀ a, OwnedAt w batch a (place a))
    (hqueued : (w.pendingFunctors.filterMap Functor.timer?).Nodup)
    (hexpired : (batch.map Entry.timer).Nodup)
    (hinj : ∀ a b t u, w.heap a = some t → w.heap b = some u → t.sequence = u.sequence → a = b)
    (hgone : ∀ n ∈ deletions w.log, n < w.seq ∧ ∀ a t, w.heap a = some t → t.sequence ≠ n)
    (honce : (deletions w.log).Nodup) : Owned w batch place :=
  ⟨fun a => (hall a).free_iff, fun x a => (hall a).timers_iff x, fun a => (hall a).active_iff,
    fun a => (hall a).queued_iff, hqueued, fun a => (hall a).expired_iff, hexpired,
    fun a => (hall a).lt_max, fun a => (hall a).seq_lt, hinj,
    fun id => (hall id.timer).inserted_iff id.sequence, hgone, honce⟩

theorem OwnedAt.sameBut {b : Address} {p : Place} (h : OwnedAt w batch b p)
    (hsame : SameBut a w w' batch batch') (hb : b ≠ a) : OwnedAt w' batch' b p := by
  have hheap := hsame.heap_eq b hb
  have hlive : ∀ n, w'.Live ⟨b, n⟩ ↔ w.Live ⟨b, n⟩ := fun n => by
    rw [Live, Live, hheap]
  refine ⟨?_, fun x => ?_, fun n => ?_, ?_, ?_, h.lt_max, fun t ht => ?_, fun n => ?_⟩
  · rw [hheap]
    exact h.free_iff
  · rw [hsame.timers_iff b hb, hheap]
    exact h.timers_iff x
  · rw [hsame.active_iff b hb, hlive]
    exact h.active_iff n
  · rw [hsame.queued_iff b hb]
    exact h.queued_iff
  · rw [hsame.expired_iff b hb]
    exact h.expired_iff
  · rw [hheap] at ht
    exact (h.seq_lt t ht).trans_le hsame.seq_le
  · rw [hsame.inserted_iff b hb, hsame.deleted_iff b hb, hlive]
    exact h.inserted_iff n

/-- To move one timer, look at its address only. -/
theorem Owned.move {p : Place} (h : Owned w batch place) (hsame : SameBut a w w' batch batch')
    (hat : OwnedAt w' batch' a p)
    (hqueued : (w'.pendingFunctors.filterMap Functor.timer?).Nodup)
    (hexpired : (batch'.map Entry.timer).Nodup)
    (hinj : ∀ t, w'.heap a = some t → ∀ b u, b ≠ a → w.heap b = some u → u.sequence ≠ t.sequence)
    (hgone : ∀ n ∈ deletions w'.log, n < w'.seq ∧ ∀ b u, w'.heap b = some u → u.sequence ≠ n)
    (honce : (deletions w'.log).Nodup) :
    Owned w' batch' (Function.update place a p) := by
  refine owned_of_ownedAt (fun b => ?_) hqueued hexpired (fun b c u v hu hv heq => ?_) hgone honce
  · by_cases hb : b = a
    · rw [hb, Function.update_self]
      exact hat
    · rw [Function.update_of_ne hb]
      exact (h.ownedAt b).sameBut hsame hb
  · -- two addresses other than `a` have kept their timers, and `hinj` compares `a` with these
    by_cases hb : b = a <;> by_cases hc : c = a
    · rw [hb, hc]
    · rw [hsame.heap_eq c hc] at hv
      exact absurd heq.symm (hinj u (hb ▸ hu) c v hc hv)
    · rw [hsame.heap_eq b hb] at hu
      exact absurd heq (hinj v (hc ▸ hv) b u hb hu)
    · rw [hsame.heap_eq b hb] at hu
      rw [hsame.heap_eq c hc] at hv
      exact h.seq_inj b c u v hu hv heq

/-- Two timers have different sequence numbers. -/
theorem Owned.sequence_ne (h : Owned w batch place) (ht : w.heap a = some t) (b : Address)
    (u : Timer) (hb : b ≠ a) (hu : w.heap b = some u) : u.sequence ≠ t.sequence :=
  fun heq => hb (h.seq_inj b a u t hu ht heq)

theorem live_iff (ht : w.heap a = some t) (n : ℕ) : w.Live ⟨a, n⟩ ↔ t.sequence = n := by
  simp [Live, ht]

/-! ### Moves -/

/-- The history is extended by an event that is neither an insertion nor a deletion. -/
theorem Owned.record (h : Owned w batch place) {e : Event} (hins : ∀ id, e ≠ .inserted id)
    (hdel : e.deleted? = none) : Owned (w.record e) batch place := by
  have hlog : deletions (w.log ++ [e]) = deletions w.log := by
    rw [deletions_append, hdel, Option.toList_none, List.append_nil]
  have hdel' : ∀ id, e ≠ .deleted id := by
    rintro id rfl
    cases hdel
  refine { h with inserted_iff := fun id => ?_, deleted_gone := ?_, deleted_once := ?_ }
  · have hiff := h.inserted_iff id
    simp only [World.record, List.mem_append, List.mem_singleton, (hins id).symm, (hdel' id).symm,
      or_false]
    exact hiff
  · rw [World.record, hlog]
    exact h.deleted_gone
  · rw [World.record, hlog]
    exact h.deleted_once

/-- A timer in hand is put into both sets. -/
theorem Owned.link (h : Owned w batch place) (ht : w.heap a = some t)
    (ha : place a = .fresh ∨ place a = .held) :
    Owned (w.link a t) batch (Function.update place a .scheduled) := by
  have hat := h.ownedAt a
  have hout : place a ≠ .free ∧ place a ≠ .queued ∧ place a ≠ .scheduled ∧ place a ≠ .expired := by
    rcases ha with ha | ha <;> rw [ha] <;> decide
  have hinserted : ∀ id, .inserted id ∈ (w.link a t).log ↔
      .inserted id ∈ w.log ∨ id = ⟨a, t.sequence⟩ := fun id => by
    simp [World.link, World.record]
  have hdeleted : ∀ id, .deleted id ∈ (w.link a t).log ↔ .deleted id ∈ w.log := fun id => by
    simp [World.link, World.record]
  have hlog : deletions (w.link a t).log = deletions w.log :=
    (deletions_append _ _).trans (List.append_nil _)
  refine h.move ?_ ?_ h.queued_once h.expired_once (fun _ => h.sequence_ne)
    (hlog ▸ h.deleted_gone) (hlog ▸ h.deleted_once)
  · refine { sameBut_refl a w batch with
      timers_iff := fun b hb x => ?_, active_iff := fun b hb n => ?_
      inserted_iff := fun b hb n => ?_, deleted_iff := fun b _ n => hdeleted _ }
    · simp [World.link, World.record, hb]
    · simp [World.link, World.record, hb]
    · simp [hinserted, hb]
  · refine ⟨?_, fun x => ?_, fun n => ?_, ?_, ?_, fun _ => hat.lt_max hout.1, hat.seq_lt,
      fun n => ?_⟩
    · simp [World.link, World.record, ht]
    · simp [World.link, World.record, ht, hat.timers_iff, hout, eq_comm]
    · rw [live_iff (w := w.link a t) ht]
      simp [World.link, World.record, hat.active_iff, hout, eq_comm]
    · simpa [World.link, World.record, hout] using hat.queued_iff
    · simpa [hout] using hat.expired_iff
    · have hseq : (⟨a, n⟩ : TimerId) = ⟨a, t.sequence⟩ ↔ t.sequence = n := by simp [eq_comm]
      rw [hinserted, hdeleted, hat.inserted_iff, hseq, live_iff ht, live_iff (w := w.link a t) ht]
      rcases ha with ha | ha <;> simp [ha, Place.Settled]

/-- A timer in hand is deleted. -/
theorem Owned.free (h : Owned w batch place) (ht : w.heap a = some t) (ha : place a = .held) :
    Owned (w.free a t) batch (Function.update place a .free) := by
  have hat := h.ownedAt a
  rw [ha] at hat
  have hnone : (w.free a t).heap a = none := Function.update_self ..
  have hheap : ∀ b ≠ a, (w.free a t).heap b = w.heap b := fun b hb => Function.update_of_ne hb _ _
  have hdead : ∀ n, ¬(w.free a t).Live ⟨a, n⟩ := fun n => by simp [Live, hnone]
  have hinserted : ∀ id, .inserted id ∈ (w.free a t).log ↔ .inserted id ∈ w.log := fun id => by
    simp [World.free, World.record]
  have hdeleted : ∀ id, .deleted id ∈ (w.free a t).log ↔
      .deleted id ∈ w.log ∨ id = ⟨a, t.sequence⟩ := fun id => by
    simp [World.free, World.record]
  have hlog : deletions (w.free a t).log = deletions w.log ++ [t.sequence] :=
    deletions_append _ _
  refine h.move ?_ ?_ h.queued_once h.expired_once (fun u hu => ?_)
    (fun n hn => ?_) ?_
  · exact { sameBut_refl a w batch with
      heap_eq := hheap
      inserted_iff := fun b _ n => hinserted _
      deleted_iff := fun b hb n => by simp [hdeleted, hb] }
  · refine ⟨by simp [hnone], fun x => ?_, fun n => ?_, ?_, ?_, fun hp => absurd rfl hp,
      fun u hu => ?_, fun n => ?_⟩
    · simpa [World.free, World.record] using hat.timers_iff x
    · simpa [World.free, World.record] using hat.active_iff n
    · simpa [World.free, World.record] using hat.queued_iff
    · simpa using hat.expired_iff
    · rw [hnone] at hu
      cases hu
    · rw [hinserted, hdeleted, hat.inserted_iff, live_iff ht]
      simp [hdead, Place.Settled, eq_comm]
  · rw [hnone] at hu
    cases hu
  · rw [hlog, List.mem_append, List.mem_singleton] at hn
    have hlive : ∀ b u, (w.free a t).heap b = some u → b ≠ a ∧ w.heap b = some u := by
      intro b u hu
      by_cases hb : b = a
      · rw [hb, hnone] at hu
        cases hu
      · exact ⟨hb, hheap b hb ▸ hu⟩
    -- the number of the deleted timer is that of no other timer
    rcases hn with hn | rfl
    · exact ⟨(h.deleted_gone n hn).1, fun b u hu => (h.deleted_gone n hn).2 b u (hlive b u hu).2⟩
    · refine ⟨h.seq_lt a t ht, fun b u hu => ?_⟩
      exact h.sequence_ne ht b u (hlive b u hu).1 (hlive b u hu).2
  · -- the timer existed until now, so that its number is not among the deleted ones
    rw [hlog]
    refine List.nodup_append.mpr ⟨h.deleted_once, List.nodup_singleton _, fun n hn m hm heq => ?_⟩
    rw [List.mem_singleton] at hm
    exact (h.deleted_gone n hn).2 a t ht (hm.symm.trans heq.symm)

/-- A scheduled timer is taken out of both sets. -/
theorem Owned.unlink (h : Owned w batch place) (ht : w.heap a = some t)
    (ha : place a = .scheduled) :
    Owned { w with
      timers := w.timers.erase (toLex (t.expiration, a))
      activeTimers := w.activeTimers.erase (toLex (a, t.sequence)) } batch
      (Function.update place a .held) := by
  have hat := h.ownedAt a
  rw [ha] at hat
  refine h.move ?_ ?_ h.queued_once h.expired_once (fun _ => h.sequence_ne) h.deleted_gone
    h.deleted_once
  · refine { sameBut_refl a w batch with
      timers_iff := fun b hb x => ?_, active_iff := fun b hb n => ?_ }
    · simp [hb]
    · simp [hb]
  · refine ⟨?_, fun x => ?_, fun n => ?_, ?_, ?_, fun _ => hat.lt_max (by decide), hat.seq_lt,
      fun n => ?_⟩
    · simp [ht]
    · simp [hat.timers_iff, ht, eq_comm]
    · simp [hat.active_iff, live_iff ht, eq_comm]
    · simpa using hat.queued_iff
    · simpa using hat.expired_iff
    · exact hat.inserted_iff n

/-- A timer in hand is given a new expiration. -/
theorem Owned.restart (h : Owned w batch place) (ht : w.heap a = some t) (ha : place a = .held)
    (now : ℤ) :
    Owned { w with heap := Function.update w.heap a (some (t.restart now)) } batch place := by
  set w' : World := { w with heap := Function.update w.heap a (some (t.restart now)) }
  have hat := h.ownedAt a
  rw [ha] at hat
  have hnew : w'.heap a = some (t.restart now) := Function.update_self ..
  have hheap : ∀ b ≠ a, w'.heap b = w.heap b := fun b hb => Function.update_of_ne hb _ _
  have hlive : ∀ n, w'.Live ⟨a, n⟩ ↔ w.Live ⟨a, n⟩ := fun n =>
    (live_iff hnew n).trans (live_iff ht n).symm
  rw [← Function.update_eq_self a place, ha]
  refine h.move { sameBut_refl a w batch with heap_eq := hheap } ?_ h.queued_once h.expired_once
    (fun u hu => ?_) (fun n hn => ⟨(h.deleted_gone n hn).1, fun b u hu => ?_⟩) h.deleted_once
  · refine { hat with
      free_iff := ?_, timers_iff := fun x => ?_, active_iff := fun n => ?_
      seq_lt := fun u hu => ?_, inserted_iff := fun n => ?_ }
    · simp [hnew]
    · simpa using hat.timers_iff x
    · simpa using hat.active_iff n
    · obtain rfl := Option.some.inj (hnew.symm.trans hu)
      exact h.seq_lt a t ht
    · rw [hlive]
      exact hat.inserted_iff n
  · obtain rfl := Option.some.inj (hnew.symm.trans hu)
    exact fun b v hb hv => h.sequence_ne ht b v hb hv
  · by_cases hb : b = a
    · obtain rfl := Option.some.inj (hnew.symm.trans (hb ▸ hu))
      exact (h.deleted_gone n hn).2 a t ht
    · exact (h.deleted_gone n hn).2 b u (hheap b hb ▸ hu)

/-- The first timer of the batch is taken out of it. -/
theorem Owned.take {e : Entry} (h : Owned w (e :: batch) place) :
    place e.timer = .expired ∧ Owned w batch (Function.update place e.timer .held) := by
  have hmem : place e.timer = .expired := (h.expired_iff e.timer).mp List.mem_cons_self
  have hat := h.ownedAt e.timer
  rw [hmem] at hat
  have honce := h.expired_once
  rw [List.map_cons, List.nodup_cons] at honce
  refine ⟨hmem, h.move ?_ ?_ h.queued_once honce.2 (fun _ => h.sequence_ne) h.deleted_gone
    h.deleted_once⟩
  · refine { sameBut_refl e.timer w batch with expired_iff := fun b hb => ?_ }
    simp [hb]
  · refine ⟨?_, fun x => ?_, fun n => ?_, ?_, ?_, fun _ => hat.lt_max (by decide), hat.seq_lt,
      fun n => ?_⟩
    · simpa using hat.free_iff
    · simpa using hat.timers_iff x
    · simpa using hat.active_iff n
    · simpa using hat.queued_iff
    · simpa using honce.1
    · exact hat.inserted_iff n

/-- A new timer gets a sequence number that no timer has had. -/
theorem Owned.newTimer (h : Owned w batch place) (ha : w.heap a = none) (hmax : a < uintptrMax)
    (when_ interval : ℤ) (repeats : Bool) :
    Owned (w.newTimer a when_ interval repeats) batch (Function.update place a .fresh) := by
  have hat := h.ownedAt a
  rw [(h.free_iff a).mp ha] at hat
  have hdead : ∀ n, ¬w.Live ⟨a, n⟩ := fun n => by simp [Live, ha]
  set w' : World := { w with
    heap := Function.update w.heap a (some ⟨when_, interval, repeats, w.seq⟩)
    seq := w.seq + 1 }
  have hnew : w'.heap a = some ⟨when_, interval, repeats, w.seq⟩ := Function.update_self ..
  have hheap : ∀ b ≠ a, w'.heap b = w.heap b := fun b hb => Function.update_of_ne hb _ _
  suffices howned : Owned w' batch (Function.update place a .fresh) from
    howned.record (fun id => by simp) rfl
  refine h.move { sameBut_refl a w batch with heap_eq := hheap, seq_le := Nat.le_succ _ } ?_
    h.queued_once h.expired_once (fun u hu => ?_) (fun n hn => ?_) h.deleted_once
  · refine ⟨?_, fun x => ?_, fun n => ?_, ?_, ?_, fun _ => hmax, fun u hu => ?_, fun n => ?_⟩
    · simp [hnew]
    · simpa using hat.timers_iff x
    · simpa using hat.active_iff n
    · simpa using hat.queued_iff
    · simpa using hat.expired_iff
    · obtain rfl := Option.some.inj (hnew.symm.trans hu)
      exact Nat.lt_succ_self _
    · simpa [hdead, Place.Settled] using hat.inserted_iff n
  · obtain rfl := Option.some.inj (hnew.symm.trans hu)
    exact fun b v _ hv => (h.seq_lt b v hv).ne
  · obtain ⟨hlt, hgone⟩ := h.deleted_gone n hn
    refine ⟨hlt.trans (Nat.lt_succ_self _), fun b u hu => ?_⟩
    by_cases hb : b = a
    · obtain rfl := Option.some.inj (hnew.symm.trans (hb ▸ hu))
      exact hlt.ne'
    · exact hgone b u (hheap b hb ▸ hu)

/-- A functor that concerns no timer's place is queued. -/
theorem Owned.queueCancel (h : Owned w batch place) (id : TimerId) :
    Owned (w.queueInLoop (.cancelInLoop id)) batch place := by
  have hqueue : (w.pendingFunctors ++ [Functor.cancelInLoop id]).filterMap Functor.timer? =
      w.pendingFunctors.filterMap Functor.timer? := by
    rw [List.filterMap_append]
    exact List.append_nil _
  refine { h with queued_iff := fun b => ?_, queued_once := ?_ }
  · rw [queueInLoop, hqueue]
    exact h.queued_iff b
  · rw [queueInLoop, hqueue]
    exact h.queued_once

/-- A new timer waits for its insertion. -/
theorem Owned.queueAdd (h : Owned w batch place) (ha : place a = .fresh) :
    Owned (w.queueInLoop (.addTimerInLoop a)) batch (Function.update place a .queued) := by
  have hqueue : (w.pendingFunctors ++ [Functor.addTimerInLoop a]).filterMap Functor.timer? =
      w.pendingFunctors.filterMap Functor.timer? ++ [a] := by
    rw [List.filterMap_append]
    rfl
  have hat := h.ownedAt a
  rw [ha] at hat
  refine h.move ?_ ?_ ?_ h.expired_once
    (fun _ => h.sequence_ne) h.deleted_gone h.deleted_once
  · refine { sameBut_refl a w batch with queued_iff := fun b hb => ?_ }
    rw [queueInLoop, hqueue]
    simp [hb]
  · refine ⟨?_, fun x => ?_, fun n => ?_, ?_, ?_, fun _ => hat.lt_max (by decide), hat.seq_lt,
      fun n => ?_⟩
    · simpa [queueInLoop] using hat.free_iff
    · simpa [queueInLoop] using hat.timers_iff x
    · simpa [queueInLoop] using hat.active_iff n
    · rw [queueInLoop, hqueue]
      simp
    · simpa using hat.expired_iff
    · exact hat.inserted_iff n
  · rw [queueInLoop, hqueue]
    refine List.nodup_append.mpr ⟨h.queued_once, List.nodup_singleton _, fun b hb c hc heq => ?_⟩
    rw [heq, List.mem_singleton.mp hc, hat.queued_iff] at hb
    cases hb

/-- A functor that concerns no timer's place is taken out of the queue. -/
theorem Owned.popCancel (h : Owned w batch place) {id : TimerId} {fs : List Functor}
    (hfs : w.pendingFunctors = .cancelInLoop id :: fs) :
    Owned { w with pendingFunctors := fs } batch place := by
  have hqueue : w.pendingFunctors.filterMap Functor.timer? = fs.filterMap Functor.timer? := by
    rw [hfs]
    rfl
  refine { h with queued_iff := fun b => ?_, queued_once := ?_ }
  · exact hqueue ▸ h.queued_iff b
  · exact hqueue ▸ h.queued_once

/-- The insertion of a timer comes up. -/
theorem Owned.popAdd (h : Owned w batch place) {fs : List Functor}
    (hfs : w.pendingFunctors = .addTimerInLoop a :: fs) :
    place a = .queued ∧
      Owned { w with pendingFunctors := fs } batch (Function.update place a .fresh) := by
  have hqueue : w.pendingFunctors.filterMap Functor.timer? =
      a :: fs.filterMap Functor.timer? := by
    rw [hfs]
    rfl
  have ha : place a = .queued := (h.queued_iff a).mp (hqueue ▸ List.mem_cons_self)
  have hat := h.ownedAt a
  rw [ha] at hat
  have honce := h.queued_once
  rw [hqueue, List.nodup_cons] at honce
  refine ⟨ha, h.move ?_ ?_ honce.2 h.expired_once (fun _ => h.sequence_ne) h.deleted_gone
    h.deleted_once⟩
  · refine { sameBut_refl a w batch with queued_iff := fun b hb => ?_ }
    rw [hqueue]
    simp [hb]
  · refine ⟨?_, fun x => ?_, fun n => ?_, ?_, ?_, fun _ => hat.lt_max (by decide), hat.seq_lt,
      fun n => ?_⟩
    · simpa using hat.free_iff
    · simpa using hat.timers_iff x
    · simpa using hat.active_iff n
    · simpa using honce.1
    · simpa using hat.expired_iff
    · exact hat.inserted_iff n

end World

end TimerQueue

end MuduoRebuild
