import MuduoRebuild.Poller.Basic

/-!
# `EpollPoller`: registration in an epoll interest set

`EpollPoller` registers channels with `epoll_ctl`. A channel's `index_` says how far it has
come: `kNew` if it is unknown, `kAdded` if it is in the interest set of `epollfd_`, `kDeleted`
if it is known but was taken out because it has no events.

Every operation of a client keeps the agreement `EpollPoller.Tracks` with the registry. A
channel that is updated once more while it has no events goes back into the interest set with
an empty mask, where it still reports errors and hang-ups; `NoIdle` says that this has not
happened.
-/

namespace MuduoRebuild

open Fallible Channel

variable {κ : Type}

/-- `struct epoll_event`, with the channel in `data.ptr`. -/
structure EpollEvent (κ : Type) where
  events : Mask
  ptr : κ

/-- The map `channels_` and the interest set of `epollfd_` in the kernel. -/
structure EpollPoller (κ : Type) where
  channels : ChannelMap κ
  interest : ℤ → Option (EpollEvent κ)

namespace EpollPoller

def kNew : ℤ := -1
def kAdded : ℤ := 1
def kDeleted : ℤ := 2

/-- The operations of `epoll_ctl`. -/
inductive Ctl where
  | add
  | mod
  | del
  deriving DecidableEq, Repr

/-- The interest set after `epoll_ctl`, or `none` when it fails with `EEXIST` or `ENOENT`. -/
def epollCtl (interest : ℤ → Option (EpollEvent κ)) (operation : Ctl) (fd : ℤ)
    (event : EpollEvent κ) : Option (ℤ → Option (EpollEvent κ)) :=
  match operation, interest fd with
  | .add, none => some (Function.update interest fd (some event))
  | .mod, some _ => some (Function.update interest fd (some event))
  | .del, some _ => some (Function.update interest fd none)
  | _, _ => none

section Operations

variable [DecidableEq κ] (fd : κ → ℕ) (s : Loop (EpollPoller κ) κ) (c : κ)

/-- `update`: a failed `epoll_ctl` is logged and otherwise ignored. -/
def update (operation : Ctl) : Loop (EpollPoller κ) κ :=
  let event : EpollEvent κ := { events := s.events c, ptr := c }
  match epollCtl s.poller.interest operation (fd c) event with
  | some interest => { s with poller := { s.poller with interest } }
  | none => s

def updateChannel : Except Fault (Loop (EpollPoller κ) κ) :=
  let index := s.index c
  if index = kNew ∨ index = kDeleted then do
    let channels ← (if index = kNew then do
        assertThat (s.poller.channels (fd c) = none)
        .ok (Function.update s.poller.channels (fd c) (some c))
      else do
        assertThat (s.poller.channels (fd c) ≠ none)
        assertThat (s.poller.channels (fd c) = some c)
        .ok s.poller.channels)
    let s : Loop (EpollPoller κ) κ :=
      { s with poller := { s.poller with channels }, index := Function.update s.index c kAdded }
    return update fd s c .add
  else do
    assertThat (s.poller.channels (fd c) ≠ none)
    assertThat (s.poller.channels (fd c) = some c)
    if s.events c = kNonEvent then
      return update fd { s with index := Function.update s.index c kDeleted } c .del
    else
      return update fd s c .mod

def removeChannel : Except Fault (Loop (EpollPoller κ) κ) := do
  assertThat (s.poller.channels (fd c) ≠ none)
  assertThat (s.poller.channels (fd c) = some c)
  assertThat (s.events c = kNonEvent)
  let index := s.index c
  assertThat (index = kAdded ∨ index = kDeleted)
  let s := if index = kAdded then update fd s c .del else s
  return { s with
    poller := { s.poller with channels := Function.update s.poller.channels (fd c) none }
    index := Function.update s.index c kNew }

end Operations

instance [DecidableEq κ] : Poller (EpollPoller κ) κ where
  updateChannel := updateChannel
  removeChannel := removeChannel

/-- A loop with an empty poller and channels that have just been constructed. -/
def init : Loop (EpollPoller κ) κ where
  poller := { channels := fun _ => none, interest := fun _ => none }
  events := fun _ => kNonEvent
  index := fun _ => -1

/-- The descriptors in the interest set, with their masks where these are not empty. -/
def watched (s : Loop (EpollPoller κ) κ) : Set (ℕ × Mask) :=
  {p | p.2 ≠ 0 ∧ ∃ e, s.poller.interest p.1 = some e ∧ e.events = p.2}

/-- The channels that `epoll_wait` reports and `fillActiveChannels` collects. -/
def activated (s : Loop (EpollPoller κ) κ) (ready : ℕ → Mask) : Set (κ × Mask) :=
  {a | a.2 ≠ 0 ∧ ∃ (n : ℕ) (e : EpollEvent κ), s.poller.interest n = some e ∧ e.ptr = a.1 ∧
    a.2 = reported ready n e.events}

/-! ### Agreement with the registry -/

/-- The index and the interest set say what the registry says. -/
structure Tracks (fd : κ → ℕ) (s : Loop (EpollPoller κ) κ) (r : Registry κ) : Prop where
  events_eq : s.events = r.events
  find_eq : ∀ c, s.poller.channels (fd c) = if r.status c = .registered then some c else none
  new : ∀ c, r.status c ≠ .registered → s.index c = kNew ∧ s.poller.interest (fd c) = none
  known : ∀ c, r.status c = .registered →
    s.index c = kAdded ∧ s.poller.interest (fd c) = some ⟨r.events c, c⟩ ∨
      s.index c = kDeleted ∧ r.events c = 0 ∧ s.poller.interest (fd c) = none
  ptr_fd : ∀ n e, s.poller.interest n = some e → n = fd e.ptr

/-- No entry of the interest set has an empty mask. -/
def NoIdle (s : Loop (EpollPoller κ) κ) : Prop :=
  ∀ n e, s.poller.interest n = some e → e.events ≠ 0

variable {fd : κ → ℕ} {s s' : Loop (EpollPoller κ) κ} {r : Registry κ} {c : κ}

theorem tracks_init : Tracks fd init (Registry.empty : Registry κ) where
  events_eq := rfl
  find_eq := fun c => rfl
  new := fun c _ => ⟨rfl, rfl⟩
  known := fun c h => by cases h
  ptr_fd := fun n e h => by cases h

theorem noIdle_init : NoIdle (init : Loop (EpollPoller κ) κ) := fun _ _ h => by cases h

/-- An entry of the interest set belongs to a registered channel and has its events. -/
theorem Tracks.of_interest (h : Tracks fd s r) {n : ℤ} {e : EpollEvent κ}
    (he : s.poller.interest n = some e) :
    n = fd e.ptr ∧ r.status e.ptr = .registered ∧ e.events = r.events e.ptr := by
  obtain rfl := h.ptr_fd n e he
  by_cases hc : r.status e.ptr = .registered
  · rcases h.known _ hc with ⟨-, hi⟩ | ⟨-, -, hi⟩
    · rw [he] at hi
      exact ⟨rfl, hc, congrArg EpollEvent.events (Option.some.inj hi)⟩
    · rw [he] at hi
      cases hi
  · rw [(h.new _ hc).2] at he
    cases he

/-- A registered channel with events is in the interest set. -/
theorem Tracks.interest_eq (h : Tracks fd s r) (hc : r.status c = .registered)
    (hne : r.events c ≠ 0) : s.poller.interest (fd c) = some ⟨r.events c, c⟩ := by
  rcases h.known c hc with ⟨-, hi⟩ | ⟨-, hzero, -⟩
  · exact hi
  · exact absurd hzero hne

/-- A tracked poller watches what the registry says. -/
theorem Tracks.watched_eq (h : Tracks fd s r) : watched s = r.watched fd := by
  ext ⟨n, m⟩
  simp only [watched, Registry.watched, Set.mem_ofPred_eq]
  constructor
  · rintro ⟨hm, e, he, rfl⟩
    obtain ⟨hn, hreg, hevents⟩ := h.of_interest he
    exact ⟨e.ptr, hreg, hevents ▸ hm, by rw [Int.natCast_inj.mp hn, hevents]⟩
  · rintro ⟨c, hc, hne, heq⟩
    obtain ⟨rfl, rfl⟩ := Prod.mk.inj heq
    exact ⟨hne, _, h.interest_eq hc hne, rfl⟩

/-- A tracked poller without idle entries activates what the registry says. -/
theorem Tracks.activated_eq (h : Tracks fd s r) (hidle : NoIdle s) (ready : ℕ → Mask) :
    activated s ready = r.activated fd ready := by
  ext ⟨c, m⟩
  simp only [activated, Registry.activated, Set.mem_ofPred_eq]
  constructor
  · rintro ⟨hm, n, e, he, rfl, heq⟩
    obtain ⟨hn, hreg, hevents⟩ := h.of_interest he
    obtain rfl := Int.natCast_inj.mp hn
    exact ⟨hreg, hevents ▸ hidle _ e he, hevents ▸ heq, hm⟩
  · rintro ⟨hc, hne, heq, hm⟩
    exact ⟨hm, fd c, _, h.interest_eq hc hne, rfl, heq⟩

/-! ### Operations -/

variable {e : EpollEvent κ}

theorem update_add (h : s.poller.interest (fd c) = none) :
    update fd s c .add = { s with poller := { s.poller with
      interest := Function.update s.poller.interest (fd c) (some ⟨s.events c, c⟩) } } := by
  simp only [update, epollCtl, h]

theorem update_mod (h : s.poller.interest (fd c) = some e) :
    update fd s c .mod = { s with poller := { s.poller with
      interest := Function.update s.poller.interest (fd c) (some ⟨s.events c, c⟩) } } := by
  simp only [update, epollCtl, h]

theorem update_del (h : s.poller.interest (fd c) = some e) :
    update fd s c .del = { s with poller := { s.poller with
      interest := Function.update s.poller.interest (fd c) none } } := by
  simp only [update, epollCtl, h]

/-- `epoll_ctl` leaves the map and the indices alone. -/
theorem update_eq (fd : κ → ℕ) (s : Loop (EpollPoller κ) κ) (c : κ) (operation : Ctl) :
    ∃ interest, update fd s c operation = { s with poller := { s.poller with interest } } := by
  rw [update]
  split
  · exact ⟨_, rfl⟩
  · exact ⟨s.poller.interest, rfl⟩

variable [DecidableEq κ] {u : Update}

theorem updateChannel_of_kNew (hindex : s.index c = kNew)
    (hfind : s.poller.channels (fd c) = none) (h : s.poller.interest (fd c) = none) :
    updateChannel fd s c = .ok { s with
      poller :=
        { channels := Function.update s.poller.channels (fd c) (some c)
          interest := Function.update s.poller.interest (fd c) (some ⟨s.events c, c⟩) }
      index := Function.update s.index c kAdded } := by
  simp only [updateChannel, hindex, true_or, if_true, assertThat, check_of hfind, ok_bind]
  exact congrArg Except.ok (update_add h)

theorem updateChannel_of_kDeleted (hindex : s.index c = kDeleted)
    (hfind : s.poller.channels (fd c) = some c) (h : s.poller.interest (fd c) = none) :
    updateChannel fd s c = .ok { s with
      poller := { s.poller with
        interest := Function.update s.poller.interest (fd c) (some ⟨s.events c, c⟩) }
      index := Function.update s.index c kAdded } := by
  have hne : kDeleted ≠ kNew := by decide
  simp only [updateChannel, hindex, or_true, if_true, if_neg hne, assertThat, hfind, ne_eq,
    reduceCtorEq, not_false_eq_true, check_of, ok_bind]
  exact congrArg Except.ok (update_add h)

/-- A channel in the interest set leaves it when it has no events, and changes its mask
otherwise. -/
theorem updateChannel_of_kAdded (hindex : s.index c = kAdded)
    (hfind : s.poller.channels (fd c) = some c) (h : s.poller.interest (fd c) = some e) :
    updateChannel fd s c = .ok (if s.events c = 0 then { s with
      poller := { s.poller with interest := Function.update s.poller.interest (fd c) none }
      index := Function.update s.index c kDeleted }
    else { s with
      poller := { s.poller with
        interest := Function.update s.poller.interest (fd c) (some ⟨s.events c, c⟩) } }) := by
  have hne : ¬(kAdded = kNew ∨ kAdded = kDeleted) := by decide
  simp only [updateChannel, hindex, if_neg hne, assertThat, hfind, ne_eq, reduceCtorEq,
    not_false_eq_true, check_of, ok_bind]
  by_cases hzero : s.events c = 0
  · rw [if_pos hzero, if_pos hzero]
    exact congrArg Except.ok (update_del h)
  · rw [if_neg hzero, if_neg hzero]
    exact congrArg Except.ok (update_mod h)

theorem removeChannel_eq (hindex : s.index c = kAdded ∧ s.poller.interest (fd c) = some e ∨
      s.index c = kDeleted ∧ s.poller.interest (fd c) = none)
    (hfind : s.poller.channels (fd c) = some c) (hevents : s.events c = 0) :
    removeChannel fd s c = .ok { s with
      poller :=
        { channels := Function.update s.poller.channels (fd c) none
          interest := Function.update s.poller.interest (fd c) none }
      index := Function.update s.index c kNew } := by
  have hrange : s.index c = kAdded ∨ s.index c = kDeleted :=
    hindex.imp And.left And.left
  simp only [removeChannel, assertThat, hfind, ne_eq, reduceCtorEq, not_false_eq_true,
    check_of hevents, check_of hrange, check_of, ok_bind]
  rcases hindex with ⟨hadded, h⟩ | ⟨hdeleted, h⟩
  · simp only [if_pos hadded, update_del h]
    rfl
  · have hsame : Function.update s.poller.interest (fd c) none = s.poller.interest := by
      rw [Function.update_eq_self_iff, h]
    rw [if_neg (by rw [hdeleted]; decide), hsame]
    rfl

/-- What an update does: the channel enters the interest set or stays in it, or it leaves the
set because it has lost its events. -/
theorem Tracks.perform_update (h : Tracks fd s r) (hr : r.Sane) :
    ∃ s', (Op.update u c).perform fd s = .ok s' ∧ s'.events = (r.step (.update u c)).events ∧
      s'.poller.channels = Function.update s.poller.channels (fd c) (some c) ∧
      (s'.index = Function.update s.index c kAdded ∧
          s'.poller.interest =
            Function.update s.poller.interest (fd c) (some ⟨u.apply (r.events c), c⟩) ∧
          (u.apply (r.events c) ≠ 0 ∨ r.events c = 0) ∨
        s'.index = Function.update s.index c kDeleted ∧
          s'.poller.interest = Function.update s.poller.interest (fd c) none ∧
          u.apply (r.events c) = 0) := by
  have hevents : Function.update s.events c (u.apply (s.events c)) =
      (r.step (.update u c)).events := by
    rw [h.events_eq]
    rfl
  have hat : (r.step (.update u c)).events c = u.apply (r.events c) := by
    rw [Registry.events_step_update, if_pos rfl]
  simp only [Op.perform, Poller.updateChannel, hevents]
  by_cases hc : r.status c = .registered
  · -- the map has the channel already, and assigning it again changes nothing
    have hfind : s.poller.channels (fd c) = some c := by rw [h.find_eq, if_pos hc]
    have hself : Function.update s.poller.channels (fd c) (some c) = s.poller.channels := by
      rw [Function.update_eq_self_iff, hfind]
    rw [hself, ← hat]
    rcases h.known c hc with ⟨hindex, hinterest⟩ | ⟨hindex, hzero, hinterest⟩
    · refine ⟨_, updateChannel_of_kAdded hindex hfind hinterest, ?_⟩
      dsimp only
      by_cases hnone : (r.step (.update u c)).events c = 0
      · rw [if_pos hnone]
        exact ⟨rfl, rfl, .inr ⟨rfl, rfl, hnone⟩⟩
      · rw [if_neg hnone]
        refine ⟨rfl, rfl, .inl ⟨?_, rfl, .inl hnone⟩⟩
        exact (Function.update_eq_self_iff.mpr hindex.symm).symm
    · -- `EPOLL_CTL_ADD`, even if the channel still has no events
      exact ⟨_, updateChannel_of_kDeleted hindex hfind hinterest, rfl, rfl,
        .inl ⟨rfl, rfl, .inr hzero⟩⟩
  · obtain ⟨hindex, hinterest⟩ := h.new c hc
    have hfind : s.poller.channels (fd c) = none := by rw [h.find_eq, if_neg hc]
    rw [← hat]
    exact ⟨_, updateChannel_of_kNew hindex hfind hinterest, rfl, rfl,
      .inl ⟨rfl, rfl, .inr (hr.events_eq_zero c hc)⟩⟩

/-- Every update keeps the agreement with the registry. It leaves an idle entry behind only if
the channel had no events and still has none. -/
theorem Tracks.update (h : Tracks fd s r) (hfd : Function.Injective fd) (hr : r.Sane) :
    ∃ s', (Op.update u c).perform fd s = .ok s' ∧ Tracks fd s' (r.step (.update u c)) ∧
      (NoIdle s → u.apply (r.events c) ≠ 0 ∨ r.events c ≠ 0 → NoIdle s') := by
  obtain ⟨s', hs', hevents, hchannels, hcase⟩ := h.perform_update (u := u) (c := c) hr
  have hkey : ∀ {d}, d ≠ c → (fd d : ℤ) ≠ fd c :=
    fun hdc heq => hdc (hfd (Int.natCast_inj.mp heq))
  have hother : ∀ d, d ≠ c → s'.index d = s.index d ∧
      s'.poller.interest (fd d) = s.poller.interest (fd d) := by
    intro d hdc
    rcases hcase with ⟨hi, hint, -⟩ | ⟨hi, hint, -⟩
    · rw [hi, hint, Function.update_of_ne hdc, Function.update_of_ne (hkey hdc)]
      exact ⟨rfl, rfl⟩
    · rw [hi, hint, Function.update_of_ne hdc, Function.update_of_ne (hkey hdc)]
      exact ⟨rfl, rfl⟩
  refine ⟨s', hs', ⟨hevents, ?find, ?new, ?known, ?ptr⟩, ?idle⟩
  case find =>
    intro d
    rw [hchannels, Registry.status_step_update]
    by_cases hdc : d = c
    · rw [hdc, if_pos rfl, Function.update_self, if_pos rfl]
    · rw [if_neg hdc, Function.update_of_ne (hkey hdc), h.find_eq]
  case new =>
    intro d hd
    rw [Registry.status_step_update] at hd
    split_ifs at hd with hdc
    · exact absurd rfl hd
    · rw [(hother d hdc).1, (hother d hdc).2]
      exact h.new d hd
  case known =>
    intro d hd
    rw [Registry.events_step_update]
    by_cases hdc : d = c
    · rw [hdc, if_pos rfl]
      rcases hcase with ⟨hi, hint, -⟩ | ⟨hi, hint, hzero⟩
      · exact .inl ⟨by rw [hi, Function.update_self], by rw [hint, Function.update_self]⟩
      · exact .inr ⟨by rw [hi, Function.update_self], hzero, by rw [hint, Function.update_self]⟩
    · rw [Registry.status_step_update, if_neg hdc] at hd
      rw [if_neg hdc, (hother d hdc).1, (hother d hdc).2]
      exact h.known d hd
  case ptr =>
    intro n e he
    rcases hcase with ⟨-, hint, -⟩ | ⟨-, hint, -⟩
    · rw [hint, Function.update_apply] at he
      split_ifs at he with hn
      · obtain rfl := Option.some.inj he
        exact hn
      · exact h.ptr_fd n e he
    · rw [hint, Function.update_apply] at he
      split_ifs at he with hn
      exact h.ptr_fd n e he
  case idle =>
    intro hidle hne n e he
    rcases hcase with ⟨-, hint, hnew⟩ | ⟨-, hint, -⟩
    · rw [hint, Function.update_apply] at he
      split_ifs at he with hn
      · obtain rfl := Option.some.inj he
        exact hne.elim id fun hold => hnew.resolve_right hold
      · exact hidle n e he
    · rw [hint, Function.update_apply] at he
      split_ifs at he with hn
      exact hidle n e he

/-- Removal keeps the agreement with the registry. -/
theorem Tracks.remove (h : Tracks fd s r) (hfd : Function.Injective fd)
    (hc : r.status c = .registered) (hevents : r.events c = 0) :
    ∃ s', (Op.remove c).perform fd s = .ok s' ∧ Tracks fd s' (r.step (.remove c)) ∧
      (NoIdle s → NoIdle s') := by
  have hfind : s.poller.channels (fd c) = some c := by rw [h.find_eq, if_pos hc]
  have hzero : s.events c = 0 := by rw [h.events_eq, hevents]
  have hkey : ∀ {d}, d ≠ c → (fd d : ℤ) ≠ fd c :=
    fun hdc heq => hdc (hfd (Int.natCast_inj.mp heq))
  have hindex : s.index c = kAdded ∧ s.poller.interest (fd c) = some ⟨r.events c, c⟩ ∨
      s.index c = kDeleted ∧ s.poller.interest (fd c) = none :=
    (h.known c hc).imp id fun hk => ⟨hk.1, hk.2.2⟩
  refine ⟨_, removeChannel_eq hindex hfind hzero,
    ⟨h.events_eq, ?find, ?new, ?known, ?ptr⟩, ?idle⟩
  case find =>
    intro d
    rw [Registry.status_step_remove]
    dsimp only
    by_cases hdc : d = c
    · rw [hdc, if_pos rfl, Function.update_self, if_neg (by decide)]
    · rw [if_neg hdc, Function.update_of_ne (hkey hdc), h.find_eq]
  case new =>
    intro d hd
    rw [Registry.status_step_remove] at hd
    dsimp only
    by_cases hdc : d = c
    · rw [hdc, Function.update_self, Function.update_self]
      exact ⟨rfl, rfl⟩
    · rw [if_neg hdc] at hd
      rw [Function.update_of_ne hdc, Function.update_of_ne (hkey hdc)]
      exact h.new d hd
  case known =>
    intro d hd
    rw [Registry.status_step_remove] at hd
    dsimp only
    split_ifs at hd with hdc
    rw [Function.update_of_ne hdc, Function.update_of_ne (hkey hdc)]
    exact h.known d hd
  case ptr =>
    intro n e he
    dsimp only at he
    rw [Function.update_apply] at he
    split_ifs at he with hn
    exact h.ptr_fd n e he
  case idle =>
    intro hidle n e he
    dsimp only at he
    rw [Function.update_apply] at he
    split_ifs at he with hn
    exact hidle n e he

/-- A silent channel that is updated and stays silent goes back into the interest set, where an
error activates it. -/
theorem Tracks.activated_of_idle (h : Tracks fd s r) (hidle : NoIdle s)
    (hc : r.status c = .registered) (hevents : r.events c = 0) (hnone : u.apply (r.events c) = 0)
    (hs : (Op.update u c).perform fd s = .ok s') :
    (c, POLLERR) ∈ activated s' fun _ => POLLERR := by
  have hfind : s.poller.channels (fd c) = some c := by rw [h.find_eq, if_pos hc]
  rcases h.known c hc with ⟨-, hinterest⟩ | ⟨hindex, -, hinterest⟩
  · -- a silent channel is not in the interest set, as no entry is idle
    exact absurd hevents (hidle _ _ hinterest)
  · obtain rfl := Except.ok.inj (hs.symm.trans (updateChannel_of_kDeleted hindex hfind hinterest))
    have herr : POLLERR ≠ 0 := by decide
    refine ⟨herr, fd c, _, Function.update_self .., rfl, ?_⟩
    dsimp only
    rw [Function.update_self, h.events_eq, hnone, reported]
    decide

/-- An update that succeeds has entered the channel, whose place was free or its own. -/
theorem of_perform_update (h : (Op.update u c).perform fd s = .ok s') :
    (s.poller.channels (fd c) = none ∨ s.poller.channels (fd c) = some c) ∧
      s'.poller.channels = Function.update s.poller.channels (fd c) (some c) ∧
      ∃ i, i ≠ kNew ∧ s'.index = Function.update s.index c i := by
  have hself : s.poller.channels (fd c) = some c →
      Function.update s.poller.channels (fd c) (some c) = s.poller.channels :=
    fun hfind => Function.update_eq_self_iff.mpr hfind.symm
  simp only [Op.perform, Poller.updateChannel, updateChannel] at h
  split_ifs at h with hindex hnew hnone
  · obtain ⟨channels, hchannels, h⟩ := bind_eq_ok.mp h
    obtain ⟨_, hfree, hchannels⟩ := bind_eq_ok.mp hchannels
    obtain rfl := Except.ok.inj hchannels
    obtain rfl := Except.ok.inj h
    obtain ⟨interest, hupdate⟩ := update_eq fd { s with
      events := Function.update s.events c (u.apply (s.events c))
      poller := { s.poller with channels := Function.update s.poller.channels (fd c) (some c) }
      index := Function.update s.index c kAdded } c .add
    rw [hupdate]
    exact ⟨.inl (check_eq_ok.mp hfree), rfl, kAdded, by decide, rfl⟩
  · obtain ⟨channels, hchannels, h⟩ := bind_eq_ok.mp h
    obtain ⟨_, -, hchannels⟩ := bind_eq_ok.mp hchannels
    obtain ⟨_, hfind, hchannels⟩ := bind_eq_ok.mp hchannels
    obtain rfl := Except.ok.inj hchannels
    obtain rfl := Except.ok.inj h
    obtain ⟨interest, hupdate⟩ := update_eq fd { s with
      events := Function.update s.events c (u.apply (s.events c))
      index := Function.update s.index c kAdded } c .add
    rw [hupdate]
    have hfind := check_eq_ok.mp hfind
    exact ⟨.inr hfind, (hself hfind).symm, kAdded, by decide, rfl⟩
  · obtain ⟨_, -, h⟩ := bind_eq_ok.mp h
    obtain ⟨_, hfind, h⟩ := bind_eq_ok.mp h
    obtain rfl := Except.ok.inj h
    obtain ⟨interest, hupdate⟩ := update_eq fd { s with
      events := Function.update s.events c (u.apply (s.events c))
      index := Function.update s.index c kDeleted } c .del
    rw [hupdate]
    have hfind := check_eq_ok.mp hfind
    exact ⟨.inr hfind, (hself hfind).symm, kDeleted, by decide, rfl⟩
  · obtain ⟨_, -, h⟩ := bind_eq_ok.mp h
    obtain ⟨_, hfind, h⟩ := bind_eq_ok.mp h
    obtain rfl := Except.ok.inj h
    obtain ⟨interest, hupdate⟩ := update_eq fd { s with
      events := Function.update s.events c (u.apply (s.events c)) } c .mod
    rw [hupdate]
    have hfind := check_eq_ok.mp hfind
    exact ⟨.inr hfind, (hself hfind).symm, s.index c, fun heq => hindex (.inl heq),
      (Function.update_eq_self c s.index).symm⟩

/-- A removal that succeeds has found the channel in its place, and has emptied it. -/
theorem of_perform_remove (h : (Op.remove c).perform fd s = .ok s') :
    s.poller.channels (fd c) = some c ∧ s.events c = 0 ∧
      s'.poller.channels = Function.update s.poller.channels (fd c) none ∧
      s'.index = Function.update s.index c kNew := by
  simp only [Op.perform, Poller.removeChannel, removeChannel] at h
  obtain ⟨_, -, h⟩ := bind_eq_ok.mp h
  obtain ⟨_, hfind, h⟩ := bind_eq_ok.mp h
  obtain ⟨_, hevents, h⟩ := bind_eq_ok.mp h
  obtain ⟨_, -, h⟩ := bind_eq_ok.mp h
  obtain rfl := Except.ok.inj h
  obtain ⟨interest, hupdate⟩ := update_eq fd s c .del
  refine ⟨check_eq_ok.mp hfind, check_eq_ok.mp hevents, ?_, ?_⟩
  · split_ifs
    · rw [hupdate]
    · rfl
  · split_ifs
    · rw [hupdate]
    · rfl

end EpollPoller

end MuduoRebuild
