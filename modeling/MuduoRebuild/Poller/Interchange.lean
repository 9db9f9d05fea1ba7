import MuduoRebuild.Foundations.Run
import MuduoRebuild.Poller.EpollPoller
import MuduoRebuild.Poller.PollPoller

/-!
# The two pollers side by side

`Poller::newDefaultPoller` picks one of two pollers at run time, so a client may not see a
difference. `Both` runs them side by side on the same operations, and the registry beside them.

They part in two places. A channel that has been silenced or removed and is enabled again is
watched by `EpollPoller` only (`Registry.Wakes`). A channel that is updated while it is silent,
in any way, is activated by errors under `EpollPoller` only (`Registry.Stirs`).
`interchangeable_iff` says that these are the only places.
-/

namespace MuduoRebuild

open Channel (Op)
open Fallible Machine

variable {κ : Type}

/-- A loop with each of the two pollers. -/
structure Both (κ : Type) where
  poll : Loop (PollPoller κ) κ
  epoll : Loop (EpollPoller κ) κ

namespace Both

def init : Both κ := ⟨PollPoller.init, EpollPoller.init⟩

variable [DecidableEq κ]

/-- The same operation in both loops. -/
def step (fd : κ → ℕ) (s : Both κ) (op : Op κ) : Except Fault (Both κ) := do
  let poll ← op.perform fd s.poll
  let epoll ← op.perform fd s.epoll
  return { poll, epoll }

theorem step_eq_ok {fd : κ → ℕ} {s s' : Both κ} {op : Op κ} :
    s.step fd op = .ok s' ↔
      op.perform fd s.poll = .ok s'.poll ∧ op.perform fd s.epoll = .ok s'.epoll := by
  simp only [step, bind_eq_ok, pure_eq_ok, Except.ok.injEq]
  constructor
  · rintro ⟨poll, hpoll, epoll, hepoll, rfl⟩
    exact ⟨hpoll, hepoll⟩
  · rintro ⟨hpoll, hepoll⟩
    exact ⟨_, hpoll, _, hepoll, rfl⟩

end Both

/-- Both pollers watch the registered channels that have events, with their masks. -/
def WatchesSame (fd : κ → ℕ) (p : Both κ × Registry κ) : Prop :=
  PollPoller.watched p.1.poll = p.2.watched fd ∧ EpollPoller.watched p.1.epoll = p.2.watched fd

/-- In every state of the descriptors, both pollers activate the same channels. -/
def ActivatesSame (p : Both κ × Registry κ) : Prop :=
  ∀ ready, PollPoller.activated p.1.poll ready = EpollPoller.activated p.1.epoll ready

namespace Registry

/-- The operation enables a channel that is known already but has no events. -/
def Wakes (r : Registry κ) : Op κ → Prop
  | .update u c => u.isEnable = true ∧ r.status c ≠ .unseen ∧ r.events c = 0
  | .remove _ => False

/-- The operation changes the events of a channel that is known already but has no events. -/
def Stirs (r : Registry κ) : Op κ → Prop
  | .update _ c => r.status c ≠ .unseen ∧ r.events c = 0
  | .remove _ => False

theorem Wakes.stirs {r : Registry κ} {op : Op κ} (h : r.Wakes op) : r.Stirs op := by
  rcases op with ⟨u, c⟩ | c
  · exact h.2
  · exact h

end Registry

/-- Both pollers agree with the registry. -/
structure Agrees (fd : κ → ℕ) (p : Both κ × Registry κ) : Prop where
  sane : p.2.Sane
  poll : ∃ order, PollPoller.Tracks fd p.1.poll p.2 order
  epoll : EpollPoller.Tracks fd p.1.epoll p.2

theorem agrees_init (fd : κ → ℕ) : Agrees fd (Both.init, Registry.empty) :=
  ⟨Registry.sane_empty, ⟨[], PollPoller.tracks_init⟩, EpollPoller.tracks_init⟩

variable {fd : κ → ℕ} {p p' : Both κ × Registry κ} {op : Op κ}

theorem Agrees.watchesSame (h : Agrees fd p) : WatchesSame fd p := by
  obtain ⟨order, hpoll⟩ := h.poll
  exact ⟨hpoll.watched_eq h.sane, h.epoll.watched_eq⟩

theorem Agrees.activatesSame (h : Agrees fd p) (hidle : EpollPoller.NoIdle p.1.epoll) :
    ActivatesSame p := by
  obtain ⟨order, hpoll⟩ := h.poll
  intro ready
  rw [hpoll.activated_eq h.sane, h.epoll.activated_eq hidle]

variable [DecidableEq κ]

/-- An update that does not wake a channel keeps `PollPoller` in step with the registry. -/
theorem Agrees.perform_poll {u : Channel.Update} {c : κ} (h : Agrees fd p)
    (hfd : Function.Injective fd) (hop : p.2.Permits (.update u c))
    (hwake : ¬p.2.Wakes (.update u c)) :
    ∃ poll order, (Op.update u c).perform fd p.1.poll = .ok poll ∧
      PollPoller.Tracks fd poll (p.2.step (.update u c)) order := by
  obtain ⟨order, hpoll⟩ := h.poll
  have hhas : u.isEnable = true → u.apply (p.2.events c) ≠ 0 :=
    (h.sane.isEvents c).apply_ne_zero
  cases hc : p.2.status c with
  | unseen =>
    have hu : u.isEnable = true := hop.resolve_right (by rw [hc]; decide)
    obtain ⟨poll, hs, htracks⟩ := hpoll.register hfd hc (hhas hu)
    exact ⟨poll, _, hs, htracks⟩
  | registered =>
    have hu : p.2.events c ≠ 0 ∨ u.apply (p.2.events c) = 0 := by
      refine or_iff_not_imp_left.mpr fun hzero => ?_
      rw [not_not] at hzero
      have hdis : u.isEnable = false := by
        refine Bool.eq_false_iff.mpr fun hu => hwake ⟨hu, ?_, hzero⟩
        rw [hc]
        decide
      rw [hzero, Channel.Update.apply_zero hdis]
    obtain ⟨poll, hs, htracks⟩ := hpoll.modify hc hu
    exact ⟨poll, _, hs, htracks⟩
  | removed =>
    -- only an enable is permitted here, and that would be a wake
    have hreg : p.2.status c ≠ .registered := by
      rw [hc]
      decide
    refine absurd ⟨hop.resolve_right hreg, ?_, h.sane.events_eq_zero c hreg⟩ hwake
    rw [hc]
    decide

/-- An operation that wakes no channel keeps the agreement, and one that stirs no channel
leaves no idle entry behind. -/
theorem Agrees.step (h : Agrees fd p) (hfd : Function.Injective fd) (hop : p.2.Permits op)
    (hwake : ¬p.2.Wakes op) :
    ∃ p', lockstep (Both.step fd) Registry.step p op = .ok p' ∧ Agrees fd p' ∧
      (EpollPoller.NoIdle p.1.epoll → ¬p.2.Stirs op → EpollPoller.NoIdle p'.1.epoll) := by
  rcases op with ⟨u, c⟩ | c
  · obtain ⟨poll, order, hpoll, hptracks⟩ := h.perform_poll hfd hop hwake
    obtain ⟨epoll, hepoll, hetracks, hidle⟩ :=
      h.epoll.update (u := u) (c := c) hfd h.sane
    refine ⟨(⟨poll, epoll⟩, p.2.step (.update u c)),
      lockstep_eq_ok.mpr ⟨Both.step_eq_ok.mpr ⟨hpoll, hepoll⟩, rfl⟩,
      ⟨h.sane.step hop, ⟨order, hptracks⟩, hetracks⟩, fun hnone hstir => hidle hnone ?_⟩
    refine or_iff_not_imp_right.mpr fun hzero => ?_
    rw [not_not] at hzero
    have hunseen : p.2.status c = .unseen := by
      by_contra hseen
      exact hstir ⟨hseen, hzero⟩
    refine (h.sane.isEvents c).apply_ne_zero (hop.resolve_right ?_)
    rw [hunseen]
    decide
  · obtain ⟨order, htracks⟩ := h.poll
    obtain ⟨poll, order', hpoll, hptracks⟩ := htracks.remove hfd hop.1 hop.2
    obtain ⟨epoll, hepoll, hetracks, hidle⟩ := h.epoll.remove hfd hop.1 hop.2
    exact ⟨(⟨poll, epoll⟩, p.2.step (.remove c)),
      lockstep_eq_ok.mpr ⟨Both.step_eq_ok.mpr ⟨hpoll, hepoll⟩, rfl⟩,
      ⟨h.sane.step hop, ⟨order', hptracks⟩, hetracks⟩, fun hnone _ => hidle hnone⟩

/-- After a channel has been woken, the pollers watch different sets, or `PollPoller` has
failed. -/
theorem Agrees.not_watchesSame_of_wakes (h : Agrees fd p) (hfd : Function.Injective fd)
    (hwake : p.2.Wakes op) :
    ¬Succeeds (WatchesSame fd) (lockstep (Both.step fd) Registry.step p op) := by
  rintro ⟨p', hp', hsame, -⟩
  rcases op with ⟨u, c⟩ | c
  · obtain ⟨hu, hseen, hzero⟩ := hwake
    obtain ⟨order, hpoll⟩ := h.poll
    obtain ⟨hboth, hreg⟩ := lockstep_eq_ok.mp hp'
    have hs := (Both.step_eq_ok.mp hboth).1
    cases hc : p.2.status c with
    | unseen => exact hseen hc
    | removed =>
      rw [hpoll.perform_of_removed hc] at hs
      cases hs
    | registered =>
      refine hpoll.not_watched_of_wake hfd hc hzero hs (u.apply (p.2.events c)) ?_
      rw [hsame, hreg]
      refine ⟨c, ?_, ?_, ?_⟩
      · rw [Registry.status_step_update, if_pos rfl]
      · rw [Registry.events_step_update, if_pos rfl]
        exact (h.sane.isEvents c).apply_ne_zero hu
      · rw [Registry.events_step_update, if_pos rfl]
  · exact hwake

/-- After a channel has been stirred, the pollers watch different sets or activate different
channels. -/
theorem Agrees.not_same_of_stirs (h : Agrees fd p) (hfd : Function.Injective fd)
    (hidle : EpollPoller.NoIdle p.1.epoll) (hop : p.2.Permits op) (hstir : p.2.Stirs op) :
    ¬Succeeds (fun p' => WatchesSame fd p' ∧ ActivatesSame p')
      (lockstep (Both.step fd) Registry.step p op) := by
  rintro ⟨p', hp', hwatch, hactivate⟩
  by_cases hwake : p.2.Wakes op
  · exact h.not_watchesSame_of_wakes hfd hwake ⟨p', hp', hwatch⟩
  obtain ⟨p'', hp'', h', -⟩ := h.step hfd hop hwake
  obtain rfl := Except.ok.inj (hp'.symm.trans hp'')
  rcases op with ⟨u, c⟩ | c
  · obtain ⟨hseen, hzero⟩ := hstir
    obtain ⟨hboth, hreg⟩ := lockstep_eq_ok.mp hp'
    -- a stir that is not a wake is a disable of a silent channel
    have hdis : u.isEnable = false :=
      Bool.eq_false_iff.mpr fun hu => hwake ⟨hu, hseen, hzero⟩
    have hc : p.2.status c = .registered := hop.resolve_left (by rw [hdis]; decide)
    have hnone : u.apply (p.2.events c) = 0 := by rw [hzero, Channel.Update.apply_zero hdis]
    have hepoll := h.epoll.activated_of_idle hidle hc hzero hnone (Both.step_eq_ok.mp hboth).2
    obtain ⟨order, hpoll⟩ := h'.poll
    rw [← hactivate, hpoll.activated_eq h'.sane, hreg] at hepoll
    refine hepoll.2.1 ?_
    rw [Registry.events_step_update, if_pos rfl, hnone]
  · exact hstir

/-- **Exactly when the pollers are interchangeable.** For channels with distinct descriptors
and every sequence of operations that a client may ask for: after each operation both pollers
watch the registered channels that have events, and activate the same channels in every state
of the descriptors, exactly when no operation changes the events of a known channel that has
none. The sets they watch, taken alone, are right exactly when no operation enables one. -/
theorem interchangeable_iff (hfd : Function.Injective fd) (ops : List (Op κ))
    (hops : Meets Registry.step Registry.Permits Registry.empty ops) :
    (Along (lockstep (Both.step fd) Registry.step)
        (onResult (Succeeds fun p => WatchesSame fd p ∧ ActivatesSame p))
        (Both.init, Registry.empty) ops ↔
      Meets Registry.step (fun r op => ¬r.Stirs op) Registry.empty ops) ∧
    (Along (lockstep (Both.step fd) Registry.step) (onResult (Succeeds (WatchesSame fd)))
        (Both.init, Registry.empty) ops ↔
      Meets Registry.step (fun r op => ¬r.Wakes op) Registry.empty ops) := by
  constructor
  · refine along_lockstep_iff_meets (fun p => Agrees fd p ∧ EpollPoller.NoIdle p.1.epoll)
      ⟨agrees_init fd, EpollPoller.noIdle_init⟩ hops ?_ ?_
    · rintro p op ⟨h, hidle⟩ hop
      constructor
      · intro hsame hstir
        exact h.not_same_of_stirs hfd hidle hop hstir hsame
      · intro hstir
        obtain ⟨p', hp', h', hidle'⟩ := h.step hfd hop fun hwake => hstir hwake.stirs
        exact ⟨p', hp', h'.watchesSame, h'.activatesSame (hidle' hidle hstir)⟩
    · rintro p op p' ⟨h, hidle⟩ hop hstir hp'
      obtain ⟨p'', hp'', h', hidle'⟩ := h.step hfd hop fun hwake => hstir hwake.stirs
      obtain rfl := Except.ok.inj (hp'.symm.trans hp'')
      exact ⟨h', hidle' hidle hstir⟩
  · refine along_lockstep_iff_meets (Agrees fd) (agrees_init fd) hops ?_ ?_
    · intro p op h hop
      constructor
      · intro hsame hwake
        exact h.not_watchesSame_of_wakes hfd hwake hsame
      · intro hwake
        obtain ⟨p', hp', h', -⟩ := h.step hfd hop hwake
        exact ⟨p', hp', h'.watchesSame⟩
    · intro p op p' h hop hwake hp'
      obtain ⟨p'', hp'', h', -⟩ := h.step hfd hop hwake
      obtain rfl := Except.ok.inj (hp'.symm.trans hp'')
      exact h'

/-- A channel that is registered, silenced, removed and not touched again. -/
theorem interchangeable_iff_retired :
    Function.Injective (fun _ : Unit => 5) ∧
      Meets Registry.step Registry.Permits Registry.empty
        [Op.update .enableReading (), .update .disableAll (), .remove ()] ∧
      (Along (lockstep (Both.step fun _ : Unit => 5) Registry.step)
          (onResult (Succeeds fun p => WatchesSame (fun _ => 5) p ∧ ActivatesSame p))
          (Both.init, Registry.empty)
          [Op.update .enableReading (), .update .disableAll (), .remove ()] ↔
        Meets Registry.step (fun r op => ¬r.Stirs op) Registry.empty
          [Op.update .enableReading (), .update .disableAll (), .remove ()]) := by
  have hfd : Function.Injective (fun _ : Unit => 5) := fun _ _ _ => rfl
  have hops : Meets Registry.step Registry.Permits Registry.empty
      [Op.update .enableReading (), .update .disableAll (), .remove ()] :=
    ⟨.inl rfl, .inr rfl, ⟨rfl, rfl⟩, trivial⟩
  exact ⟨hfd, hops, (interchangeable_iff hfd _ hops).1⟩

/-- A channel that is silenced and woken again: `EpollPoller` watches it, `PollPoller` does
not. -/
theorem woken_watched_by_epoll_only :
    Meets Registry.step Registry.Permits Registry.empty
        [Op.update .enableReading (), .update .disableAll (), .update .enableReading ()] ∧
      ∃ s : Both Unit,
        run (Both.step fun _ => 5) Both.init
          [.update .enableReading (), .update .disableAll (), .update .enableReading ()] = .ok s ∧
        (5, Channel.kReadEvent) ∈ EpollPoller.watched s.epoll ∧
        (5, Channel.kReadEvent) ∉ PollPoller.watched s.poll := by
  refine ⟨⟨.inl rfl, .inr rfl, .inl rfl, trivial⟩, _, rfl, ⟨by decide, _, rfl, rfl⟩, ?_⟩
  rintro ⟨-, pfd, hmem, hfd, -⟩
  obtain rfl := List.mem_singleton.mp hmem
  exact absurd hfd (by decide)

end MuduoRebuild
