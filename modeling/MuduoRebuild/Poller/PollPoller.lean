import MuduoRebuild.Foundations.SwapRemove
import MuduoRebuild.Poller.Basic

/-!
# `PollPoller`: registration in a vector of `pollfd`s

`PollPoller` keeps one `pollfd` per channel in a vector; a channel's `index_` is its position
there. A channel without events keeps its entry, with the descriptor `fd` replaced by
`-fd - 1`, which `poll(2)` ignores. Removal swaps the entry with the last one.

`PollPoller.Tracks` says that the vector agrees with the registry. The operations keep it, with
two exceptions: an enable does not undo the replacement of the descriptor
(`not_watched_of_wake`), and a removed channel keeps its `index_`, so that registering it again
fails an `assert` (`perform_of_removed`).
-/

namespace MuduoRebuild

open Fallible SwapRemove Channel

variable {κ : Type}

/-- `struct pollfd`. -/
structure PollFd where
  fd : ℤ
  events : BitVec 16
  revents : BitVec 16
  deriving DecidableEq, Repr

/-- The data members of the class. -/
structure PollPoller (κ : Type) where
  pollfds : List PollFd
  channels : ChannelMap κ

namespace PollPoller

/-- `l[i]`, for an `int` index. -/
def element {α : Type} (l : List α) (i : ℤ) : Except Fault α :=
  if 0 ≤ i then
    match l[i.toNat]? with
    | some a => .ok a
    | none => .error .outOfBounds
  else .error .outOfBounds

theorem element_natCast {α : Type} {l : List α} {i : ℕ} {a : α} (h : l[i]? = some a) :
    element l i = .ok a := by
  rw [element, if_pos (Int.natCast_nonneg i), Int.toNat_natCast, h]

section Operations

variable [DecidableEq κ] (fd : κ → ℕ) (s : Loop (PollPoller κ) κ) (c : κ)

def updateChannel : Except Fault (Loop (PollPoller κ) κ) :=
  if s.index c < 0 then do
    assertThat (s.poller.channels (fd c) = none)
    let pfd : PollFd := { fd := fd c, events := (s.events c).setWidth 16, revents := 0 }
    let pollfds := s.poller.pollfds ++ [pfd]
    let idx : ℤ := pollfds.length - 1
    return { s with
      poller := { pollfds, channels := Function.update s.poller.channels pfd.fd (some c) }
      index := Function.update s.index c idx }
  else do
    assertThat (s.poller.channels (fd c) ≠ none)
    assertThat (s.poller.channels (fd c) = some c)
    let idx := s.index c
    assertThat (0 ≤ idx ∧ idx < s.poller.pollfds.length)
    let pfd ← element s.poller.pollfds idx
    assertThat (pfd.fd = fd c ∨ pfd.fd = -(fd c : ℤ) - 1)
    let pfd := { pfd with events := (s.events c).setWidth 16, revents := 0 }
    let pfd := if s.events c = kNonEvent then { pfd with fd := -(fd c : ℤ) - 1 } else pfd
    return { s with poller := { s.poller with pollfds := s.poller.pollfds.set idx.toNat pfd } }

/-- The descriptor in an entry, silenced or not. -/
def channelAtEnd (pfd : PollFd) : ℤ := if pfd.fd < 0 then -pfd.fd - 1 else pfd.fd

def removeChannel : Except Fault (Loop (PollPoller κ) κ) := do
  assertThat (s.poller.channels (fd c) ≠ none)
  assertThat (s.poller.channels (fd c) = some c)
  assertThat (s.events c = kNonEvent)
  let idx := s.index c
  let pfd ← element s.poller.pollfds idx
  assertThat (pfd.fd = -(fd c : ℤ) - 1 ∧ pfd.events.signExtend 32 = s.events c)
  let channels := Function.update s.poller.channels (fd c) none
  let last : ℤ := s.poller.pollfds.length - 1
  -- the channel at the end moves to `idx`; the index of `c` itself is left alone
  let index ← (if idx ≠ last then do
      let back ← element s.poller.pollfds last
      match channels (channelAtEnd back) with
      | some d => .ok (Function.update s.index d idx)
      | none => .error .outOfBounds
    else .ok s.index)
  return { s with
    poller := { pollfds := swapRemove s.poller.pollfds idx.toNat, channels }
    index }

end Operations

instance [DecidableEq κ] : Poller (PollPoller κ) κ where
  updateChannel := updateChannel
  removeChannel := removeChannel

/-- A loop with an empty poller and channels that have just been constructed. -/
def init : Loop (PollPoller κ) κ where
  poller := { pollfds := [], channels := fun _ => none }
  events := fun _ => kNonEvent
  index := fun _ => -1

/-- The descriptors that `poll(2)` is asked to watch, with their masks. -/
def watched (s : Loop (PollPoller κ) κ) : Set (ℕ × Mask) :=
  {p | p.2 ≠ 0 ∧ ∃ pfd ∈ s.poller.pollfds, pfd.fd = p.1 ∧ pfd.events.signExtend 32 = p.2}

/-- The channels that `fillActiveChannels` finds after `poll(2)` has returned. -/
def activated (s : Loop (PollPoller κ) κ) (ready : ℕ → Mask) : Set (κ × Mask) :=
  {a | a.2 ≠ 0 ∧ ∃ pfd ∈ s.poller.pollfds, 0 ≤ pfd.fd ∧ s.poller.channels pfd.fd = some a.1 ∧
    a.2 = reported ready pfd.fd.toNat (pfd.events.signExtend 32)}

/-! ### Agreement with the registry -/

/-- The entry of a channel with the given events. -/
def entry (fd : κ → ℕ) (events : κ → Mask) (c : κ) : PollFd where
  fd := if events c = 0 then -(fd c : ℤ) - 1 else fd c
  events := (events c).setWidth 16
  revents := 0

/-- The vector holds an entry for each registered channel, in the order `order`. -/
structure Tracks (fd : κ → ℕ) (s : Loop (PollPoller κ) κ) (r : Registry κ) (order : List κ) :
    Prop where
  events_eq : s.events = r.events
  nodup : order.Nodup
  mem_iff : ∀ c, c ∈ order ↔ r.status c = .registered
  pollfds_eq : s.poller.pollfds = order.map (entry fd r.events)
  index_eq : ∀ (i : ℕ) c, order[i]? = some c → s.index c = i
  index_unseen : ∀ c, r.status c = .unseen → s.index c = -1
  index_removed : ∀ c, r.status c = .removed → 0 ≤ s.index c
  find_eq : ∀ c, s.poller.channels (fd c) = if r.status c = .registered then some c else none

/-- `pfd` is an entry for the descriptor `n` and the events `m`. Its descriptor is replaced when
there are no events, and may be replaced otherwise. -/
structure EntryFor (n : ℕ) (m : Mask) (pfd : PollFd) : Prop where
  fd_eq : pfd.fd = n ∨ pfd.fd = -(n : ℤ) - 1
  fd_eq_of_zero : m = 0 → pfd.fd = -(n : ℤ) - 1
  events_eq : pfd.events = m.setWidth 16

/-- The vector holds for each registered channel `c` the entry `e c`, in the order `order`. -/
structure Represents (fd : κ → ℕ) (s : Loop (PollPoller κ) κ) (r : Registry κ) (order : List κ)
    (e : κ → PollFd) : Prop where
  events_eq : s.events = r.events
  nodup : order.Nodup
  mem_iff : ∀ c, c ∈ order ↔ r.status c = .registered
  pollfds_eq : s.poller.pollfds = order.map e
  entryFor : ∀ c ∈ order, EntryFor (fd c) (r.events c) (e c)
  index_eq : ∀ (i : ℕ) c, order[i]? = some c → s.index c = i
  index_unseen : ∀ c, r.status c = .unseen → s.index c = -1
  find_eq : ∀ c, s.poller.channels (fd c) = if r.status c = .registered then some c else none

variable {fd : κ → ℕ} {s s' : Loop (PollPoller κ) κ} {r : Registry κ} {order : List κ} {c : κ}
  {e : κ → PollFd}

theorem tracks_init : Tracks fd init (Registry.empty : Registry κ) [] where
  events_eq := rfl
  nodup := List.nodup_nil
  mem_iff := fun c => iff_of_false List.not_mem_nil (fun h => by cases h)
  pollfds_eq := rfl
  index_eq := fun i c h => by simp at h
  index_unseen := fun c _ => rfl
  index_removed := fun c h => by cases h
  find_eq := fun c => rfl

theorem entryFor_entry (fd : κ → ℕ) (events : κ → Mask) (c : κ) :
    EntryFor (fd c) (events c) (entry fd events c) where
  fd_eq := by
    rw [entry]
    split_ifs
    · exact .inr rfl
    · exact .inl rfl
  fd_eq_of_zero := fun hzero => if_pos hzero
  events_eq := rfl

theorem Tracks.represents (h : Tracks fd s r order) :
    Represents fd s r order (entry fd r.events) where
  events_eq := h.events_eq
  nodup := h.nodup
  mem_iff := h.mem_iff
  pollfds_eq := h.pollfds_eq
  entryFor := fun c _ => entryFor_entry fd r.events c
  index_eq := h.index_eq
  index_unseen := h.index_unseen
  find_eq := h.find_eq

/-- A vector with the entries that belong to the events tracks the registry. -/
theorem Represents.tracks (h : Represents fd s r order e)
    (hentry : ∀ c ∈ order, e c = entry fd r.events c)
    (hindex : ∀ c, r.status c = .removed → 0 ≤ s.index c) : Tracks fd s r order where
  events_eq := h.events_eq
  nodup := h.nodup
  mem_iff := h.mem_iff
  pollfds_eq := h.pollfds_eq.trans (List.map_congr_left hentry)
  index_eq := h.index_eq
  index_unseen := h.index_unseen
  index_removed := hindex
  find_eq := h.find_eq

/-- The position of a registered channel. -/
theorem Represents.exists_index (h : Represents fd s r order e) (hc : r.status c = .registered) :
    ∃ i : ℕ, order[i]? = some c ∧ s.index c = i ∧ s.poller.pollfds[i]? = some (e c) ∧
      EntryFor (fd c) (r.events c) (e c) := by
  have hmem : c ∈ order := (h.mem_iff c).mpr hc
  obtain ⟨i, hi⟩ := List.mem_iff_getElem?.mp hmem
  refine ⟨i, hi, h.index_eq i c hi, ?_, h.entryFor c hmem⟩
  rw [h.pollfds_eq, List.getElem?_map, hi, Option.map_some]

/-- A tracked poller watches what the registry says. -/
theorem Tracks.watched_eq (h : Tracks fd s r order) (hr : r.Sane) :
    watched s = r.watched fd := by
  ext ⟨n, m⟩
  simp only [watched, h.pollfds_eq, Registry.watched, Set.mem_ofPred_eq, List.mem_map]
  constructor
  · rintro ⟨hm, pfd, ⟨c, hc, rfl⟩, hfd, hevents⟩
    simp only [entry, (hr.isEvents c).signExtend_setWidth] at hfd hevents
    have hne : r.events c ≠ 0 := hevents.symm ▸ hm
    rw [if_neg hne, Int.natCast_inj] at hfd
    exact ⟨c, (h.mem_iff c).mp hc, hne, by rw [← hfd, ← hevents]⟩
  · rintro ⟨c, hc, hne, heq⟩
    obtain ⟨rfl, rfl⟩ := Prod.mk.inj heq
    exact ⟨hne, _, ⟨c, (h.mem_iff c).mpr hc, rfl⟩, if_neg hne,
      (hr.isEvents c).signExtend_setWidth⟩

/-- A tracked poller activates what the registry says. -/
theorem Tracks.activated_eq (h : Tracks fd s r order) (hr : r.Sane) (ready : ℕ → Mask) :
    activated s ready = r.activated fd ready := by
  ext ⟨c, m⟩
  simp only [activated, h.pollfds_eq, Registry.activated, Set.mem_ofPred_eq, List.mem_map]
  constructor
  · rintro ⟨hm, pfd, ⟨d, hd, rfl⟩, hpos, hfind, heq⟩
    simp only [entry, (hr.isEvents d).signExtend_setWidth] at hpos hfind heq
    have hne : r.events d ≠ 0 := fun hzero => by
      rw [if_pos hzero] at hpos
      omega
    rw [if_neg hne] at hfind heq
    rw [h.find_eq, if_pos ((h.mem_iff d).mp hd)] at hfind
    obtain rfl := Option.some.inj hfind
    exact ⟨(h.mem_iff d).mp hd, hne, heq, hm⟩
  · rintro ⟨hc, hne, heq, hm⟩
    refine ⟨hm, _, ⟨c, (h.mem_iff c).mpr hc, rfl⟩, ?_⟩
    simp only [entry, if_neg hne, (hr.isEvents c).signExtend_setWidth]
    refine ⟨Int.natCast_nonneg _, ?_, heq⟩
    rw [h.find_eq, if_pos hc]

/-! ### Operations -/

section Equations

variable [DecidableEq κ] {pfd : PollFd} {i : ℕ}

theorem updateChannel_new (hindex : s.index c < 0) (hfind : s.poller.channels (fd c) = none) :
    updateChannel fd s c = .ok { s with
      poller :=
        { pollfds := s.poller.pollfds ++ [⟨fd c, (s.events c).setWidth 16, 0⟩]
          channels := Function.update s.poller.channels (fd c) (some c) }
      index := Function.update s.index c s.poller.pollfds.length } := by
  rw [updateChannel, if_pos hindex]
  simp only [assertThat, check_of hfind, ok_bind, pure_eq_ok, List.length_append,
    List.length_singleton, Int.natCast_add, Int.natCast_one, Int.add_sub_cancel]

theorem updateChannel_known (hindex : s.index c = i) (hfind : s.poller.channels (fd c) = some c)
    (hpfd : s.poller.pollfds[i]? = some pfd) (hfd : pfd.fd = fd c ∨ pfd.fd = -(fd c : ℤ) - 1) :
    updateChannel fd s c = .ok { s with
      poller := { s.poller with
        pollfds := s.poller.pollfds.set i
          { fd := if s.events c = 0 then -(fd c : ℤ) - 1 else pfd.fd
            events := (s.events c).setWidth 16
            revents := 0 } } } := by
  obtain ⟨hlt, -⟩ := List.getElem?_eq_some_iff.mp hpfd
  have hrange : 0 ≤ (i : ℤ) ∧ (i : ℤ) < s.poller.pollfds.length := by omega
  rw [updateChannel, if_neg (by omega)]
  simp only [assertThat, check_of hrange, check_of hfd, hfind, hindex,
    element_natCast hpfd, ok_bind, Int.toNat_natCast, ne_eq, reduceCtorEq, not_false_eq_true,
    check_of, kNonEvent]
  by_cases hzero : s.events c = 0
  · rw [if_pos hzero, if_pos hzero]
    rfl
  · rw [if_neg hzero, if_neg hzero]
    rfl

theorem updateChannel_lost (hindex : 0 ≤ s.index c) (hfind : s.poller.channels (fd c) = none) :
    updateChannel fd s c = .error .assertFailed := by
  rw [updateChannel, if_neg (by omega), assertThat, check_of_not (not_not_intro hfind), error_bind]

/-- Removal of the entry at the end of the vector. -/
theorem removeChannel_last (hindex : s.index c = i) (hfind : s.poller.channels (fd c) = some c)
    (hevents : s.events c = 0) (hpfd : s.poller.pollfds[i]? = some pfd)
    (hfd : pfd.fd = -(fd c : ℤ) - 1 ∧ pfd.events.signExtend 32 = s.events c)
    (hlast : (i : ℤ) = s.poller.pollfds.length - 1) :
    removeChannel fd s c = .ok { s with
      poller :=
        { pollfds := swapRemove s.poller.pollfds i
          channels := Function.update s.poller.channels (fd c) none } } := by
  rw [removeChannel]
  simp only [assertThat, hfind, hindex, element_natCast hpfd, check_of hfd, ok_bind,
    Int.toNat_natCast, ne_eq, reduceCtorEq, not_false_eq_true, check_of hevents, check_of,
    kNonEvent, ← hlast, not_true, if_false]
  rfl

/-- Removal of another entry: the channel of the last entry is told its new position. -/
theorem removeChannel_swap {back : PollFd} {d : κ} (hindex : s.index c = i)
    (hfind : s.poller.channels (fd c) = some c) (hevents : s.events c = 0)
    (hpfd : s.poller.pollfds[i]? = some pfd)
    (hfd : pfd.fd = -(fd c : ℤ) - 1 ∧ pfd.events.signExtend 32 = s.events c)
    (hlast : i ≠ s.poller.pollfds.length - 1)
    (hback : s.poller.pollfds[s.poller.pollfds.length - 1]? = some back)
    (hd : Function.update s.poller.channels (fd c) none (channelAtEnd back) = some d) :
    removeChannel fd s c = .ok { s with
      poller :=
        { pollfds := swapRemove s.poller.pollfds i
          channels := Function.update s.poller.channels (fd c) none }
      index := Function.update s.index d i } := by
  obtain ⟨hlt, -⟩ := List.getElem?_eq_some_iff.mp hpfd
  have hcast : ((s.poller.pollfds.length : ℤ) - 1) = (s.poller.pollfds.length - 1 : ℕ) := by
    omega
  have hne : (i : ℤ) ≠ (s.poller.pollfds.length - 1 : ℕ) := by
    rwa [Ne, Int.natCast_inj]
  rw [removeChannel]
  simp only [assertThat, hfind, hindex, element_natCast hpfd, check_of hfd, ok_bind,
    Int.toNat_natCast, ne_eq, reduceCtorEq, not_false_eq_true, check_of hevents, check_of,
    kNonEvent, hcast, hne, if_true, element_natCast hback, hd]
  rfl

end Equations

/-- The position of the last registered channel. -/
private theorem Represents.exists_back (h : Represents fd s r order e) {i : ℕ}
    (hi : order[i]? = some c) (hlast : i ≠ order.length - 1) :
    ∃ d, order[order.length - 1]? = some d ∧ d ≠ c ∧ r.status d = .registered ∧
      s.poller.pollfds[s.poller.pollfds.length - 1]? = some (e d) ∧
      EntryFor (fd d) (r.events d) (e d) := by
  obtain ⟨hlt, rfl⟩ := List.getElem?_eq_some_iff.mp hi
  have hback : order.length - 1 < order.length := by omega
  have hmem : order[order.length - 1] ∈ order := List.getElem_mem hback
  refine ⟨order[order.length - 1], List.getElem?_eq_getElem hback, fun heq => ?_,
    (h.mem_iff _).mp hmem, ?_, h.entryFor _ hmem⟩
  · exact hlast ((h.nodup.getElem_inj_iff.mp heq).symm)
  · rw [h.pollfds_eq, List.length_map, List.getElem?_map, List.getElem?_eq_getElem hback,
      Option.map_some]

/-- Decoding an entry gives its descriptor back. -/
theorem EntryFor.channelAtEnd_eq {n : ℕ} {m : Mask} {pfd : PollFd} (h : EntryFor n m pfd) :
    channelAtEnd pfd = n := by
  rw [channelAtEnd]
  rcases h.fd_eq with hfd | hfd
  · rw [hfd]
    exact if_neg (by omega)
  · rw [hfd, if_pos (by omega)]
    omega

variable [DecidableEq κ] {u : Update}

/-- The events are changed before the poller is told. -/
private theorem Represents.update_events (h : Represents fd s r order e) (u : Update) (c : κ) :
    Function.update s.events c (u.apply (s.events c)) = (r.step (.update u c)).events := by
  rw [h.events_eq]
  rfl

/-- The first enable of a channel appends an entry. -/
theorem Represents.register (h : Represents fd s r order e) (hfd : Function.Injective fd)
    (hc : r.status c = .unseen) (hne : u.apply (r.events c) ≠ 0) :
    ∃ s', (Op.update u c).perform fd s = .ok s' ∧
      Represents fd s' (r.step (.update u c)) (order ++ [c])
        (Function.update e c ⟨fd c, (u.apply (r.events c)).setWidth 16, 0⟩) ∧
      s'.poller.channels = Function.update s.poller.channels (fd c) (some c) ∧
      ∀ d, d ≠ c → s'.index d = s.index d := by
  have hnew : c ∉ order := fun hmem => by
    rw [h.mem_iff, hc] at hmem
    cases hmem
  have hmem : ∀ d ∈ order, d ≠ c := fun d hd hdc => hnew (hdc ▸ hd)
  have hindex : s.index c < 0 := by
    rw [h.index_unseen c hc]
    decide
  have hfind : s.poller.channels (fd c) = none := by
    rw [h.find_eq, hc]
    rfl
  have hlength : s.poller.pollfds.length = order.length := by rw [h.pollfds_eq, List.length_map]
  have hevents : (r.step (.update u c)).events c = u.apply (r.events c) := by
    rw [Registry.events_step_update, if_pos rfl]
  refine ⟨_, updateChannel_new hindex hfind, ?_, rfl, fun d hdc => Function.update_of_ne hdc ..⟩
  rw [h.update_events u c]
  refine ⟨rfl, ?nodup, ?mem, ?pollfds, ?entry, ?index, ?unseen, ?find⟩
  case nodup =>
    rw [List.nodup_append]
    exact ⟨h.nodup, List.nodup_singleton c, fun a ha b hb => List.mem_singleton.mp hb ▸ hmem a ha⟩
  case mem =>
    intro d
    rw [List.mem_append, List.mem_singleton, h.mem_iff, Registry.status_step_update]
    by_cases hd : d = c
    · simp [hd]
    · simp [hd]
  case pollfds =>
    have hold : order.map (Function.update e c ⟨fd c, (u.apply (r.events c)).setWidth 16, 0⟩) =
        order.map e :=
      List.map_congr_left fun d hd => Function.update_of_ne (hmem d hd) ..
    dsimp only
    rw [List.map_append, List.map_singleton, hold, Function.update_self, hevents, ← h.pollfds_eq]
  case entry =>
    intro d hd
    rcases List.mem_append.mp hd with hd | hd
    · rw [Function.update_of_ne (hmem d hd), Registry.events_step_update, if_neg (hmem d hd)]
      exact h.entryFor d hd
    · obtain rfl := List.mem_singleton.mp hd
      rw [Function.update_self, hevents]
      exact ⟨.inl rfl, fun hzero => absurd hzero hne, rfl⟩
  case index =>
    intro i d hd
    rcases Nat.lt_or_ge i order.length with hlt | hge
    · rw [List.getElem?_append_left hlt] at hd
      exact (Function.update_of_ne (hmem d (List.mem_of_getElem? hd)) ..).trans (h.index_eq i d hd)
    · rw [List.getElem?_append_right hge, List.getElem?_singleton] at hd
      split_ifs at hd with hi
      obtain rfl := Option.some.inj hd
      dsimp only
      rw [Function.update_self, hlength]
      omega
  case unseen =>
    intro d hd
    rw [Registry.status_step_update] at hd
    split_ifs at hd with hdc
    exact (Function.update_of_ne hdc ..).trans (h.index_unseen d hd)
  case find =>
    intro d
    rw [Registry.status_step_update]
    by_cases hdc : d = c
    · rw [hdc, if_pos rfl]
      exact Function.update_self ..
    · rw [if_neg hdc, ← h.find_eq]
      exact Function.update_of_ne (fun heq => hdc (hfd (Int.natCast_inj.mp heq))) ..

/-- Every update of a registered channel changes its entry in place. -/
theorem Represents.modify (h : Represents fd s r order e) (hc : r.status c = .registered) :
    ∃ s', (Op.update u c).perform fd s = .ok s' ∧
      Represents fd s' (r.step (.update u c)) order (Function.update e c
        { fd := if u.apply (r.events c) = 0 then -(fd c : ℤ) - 1 else (e c).fd
          events := (u.apply (r.events c)).setWidth 16
          revents := 0 }) ∧
      s'.poller.channels = s.poller.channels ∧ s'.index = s.index := by
  obtain ⟨i, hi, hindex, hpfd, hentry⟩ := h.exists_index hc
  have hfind : s.poller.channels (fd c) = some c := by rw [h.find_eq, if_pos hc]
  have hevents : (r.step (.update u c)).events c = u.apply (r.events c) := by
    rw [Registry.events_step_update, if_pos rfl]
  have hstatus : (r.step (.update u c)).status = r.status := by
    funext d
    rw [Registry.status_step_update]
    split_ifs with hdc
    · rw [hdc, hc]
    · rfl
  refine ⟨_, updateChannel_known hindex hfind hpfd hentry.fd_eq, ?_, rfl, rfl⟩
  rw [h.update_events u c]
  refine ⟨rfl, h.nodup, hstatus ▸ h.mem_iff, ?pollfds, ?entry, h.index_eq,
    hstatus ▸ h.index_unseen, hstatus ▸ h.find_eq⟩
  case pollfds =>
    obtain ⟨hlt, rfl⟩ := List.getElem?_eq_some_iff.mp hi
    dsimp only
    rw [h.nodup.map_update, if_pos (List.getElem_mem hlt), h.nodup.idxOf_getElem, ← h.pollfds_eq]
    simp only [hevents]
  case entry =>
    intro d hd
    rw [Registry.events_step_update]
    by_cases hdc : d = c
    · rw [hdc, Function.update_self, if_pos rfl]
      refine ⟨?_, fun hzero => if_pos hzero, rfl⟩
      dsimp only
      split_ifs
      · exact .inr rfl
      · exact hentry.fd_eq
    · rw [Function.update_of_ne hdc, if_neg hdc]
      exact h.entryFor d hd

/-- Removal drops the entry and keeps the others. -/
theorem Represents.remove (h : Represents fd s r order e) (hfd : Function.Injective fd)
    (hc : r.status c = .registered) (hevents : r.events c = 0) :
    ∃ s' order', (Op.remove c).perform fd s = .ok s' ∧
      Represents fd s' (r.step (.remove c)) order' e ∧
      s'.poller.channels = Function.update s.poller.channels (fd c) none ∧
      ∀ d, (r.step (.remove c)).status d ≠ .registered → s'.index d = s.index d := by
  obtain ⟨i, hi, hindex, hpfd, hentry⟩ := h.exists_index hc
  have hfind : s.poller.channels (fd c) = some c := by rw [h.find_eq, if_pos hc]
  have hzero : s.events c = 0 := by rw [h.events_eq, hevents]
  have hmuted : (e c).fd = -(fd c : ℤ) - 1 ∧ (e c).events.signExtend 32 = s.events c := by
    refine ⟨hentry.fd_eq_of_zero hevents, ?_⟩
    rw [hentry.events_eq, hzero, hevents]
    rfl
  have hlength : s.poller.pollfds.length = order.length := by rw [h.pollfds_eq, List.length_map]
  obtain ⟨hlt, -⟩ := List.getElem?_eq_some_iff.mp hi
  have hpollfds : swapRemove s.poller.pollfds i = (swapRemove order i).map e := by
    rw [map_swapRemove, h.pollfds_eq]
  have hmem : ∀ d, d ∈ swapRemove order i ↔ (r.step (.remove c)).status d = .registered := by
    intro d
    rw [mem_swapRemove h.nodup hi, h.mem_iff, Registry.status_step_remove]
    by_cases hdc : d = c
    · simp [hdc]
    · simp [hdc]
  have hentries : ∀ d ∈ swapRemove order i, EntryFor (fd d) (r.events d) (e d) :=
    fun d hd => h.entryFor d ((mem_swapRemove h.nodup hi).mp hd).1
  have hfind' : ∀ d, Function.update s.poller.channels (fd c) none (fd d) =
      if (r.step (.remove c)).status d = .registered then some d else none := by
    intro d
    rw [Registry.status_step_remove]
    by_cases hdc : d = c
    · rw [hdc, Function.update_self, if_pos rfl, if_neg (by decide)]
    · rw [Function.update_of_ne (fun heq => hdc (hfd (Int.natCast_inj.mp heq))), if_neg hdc,
        h.find_eq]
  have hunseen : ∀ d, (r.step (.remove c)).status d = .unseen → d ≠ c ∧ r.status d = .unseen := by
    intro d hd
    rw [Registry.status_step_remove] at hd
    split_ifs at hd with hdc
    exact ⟨hdc, hd⟩
  by_cases hlast : i = order.length - 1
  · -- the entry at the end goes, and no other channel moves
    refine ⟨_, swapRemove order i,
      removeChannel_last hindex hfind hzero hpfd hmuted (by omega), ⟨h.events_eq,
      nodup_swapRemove h.nodup hi, hmem, hpollfds, hentries, ?_,
      fun d hd => h.index_unseen d (hunseen d hd).2, hfind'⟩, rfl, fun d _ => rfl⟩
    intro j d hd
    rcases getElem?_of_swapRemove hi hd with ⟨-, hne, -⟩ | ⟨-, -, hj⟩
    · exact absurd hlast hne
    · exact h.index_eq j d hj
  · -- `b` is the channel of the last entry, which takes the place of `c`
    obtain ⟨b, hb, hbc, hreg, hback, hentryb⟩ := h.exists_back hi hlast
    have hreg' : (r.step (.remove c)).status b = .registered := by
      rw [Registry.status_step_remove, if_neg hbc, hreg]
    have hatEnd : Function.update s.poller.channels (fd c) none (channelAtEnd (e b)) = some b := by
      rw [hentryb.channelAtEnd_eq, hfind', if_pos hreg']
    have hkeep : ∀ d, (r.step (.remove c)).status d ≠ .registered →
        Function.update s.index b i d = s.index d := by
      intro d hd
      refine Function.update_of_ne ?_ ..
      rintro rfl
      exact hd hreg'
    refine ⟨_, swapRemove order i, removeChannel_swap hindex hfind hzero hpfd hmuted
      (hlength ▸ hlast) hback hatEnd, ⟨h.events_eq, nodup_swapRemove h.nodup hi, hmem, hpollfds,
      hentries, ?index, ?unseen, hfind'⟩, rfl, hkeep⟩
    case index =>
      -- an element is at the hole, and then it is `b`, or where it was
      intro j d hd
      rcases getElem?_of_swapRemove hi hd with ⟨rfl, -, hj⟩ | ⟨-, hj, hjd⟩
      · obtain rfl : d = b := Option.some.inj (hj.symm.trans hb)
        exact Function.update_self ..
      · refine (Function.update_of_ne ?_ ..).trans (h.index_eq j d hjd)
        rintro rfl
        have hpos : j = order.length - 1 :=
          (List.getElem?_inj (by omega) h.nodup).mp (hjd.trans hb.symm)
        omega
    case unseen =>
      intro d hd
      refine (hkeep d ?_).trans (h.index_unseen d (hunseen d hd).2)
      rw [hd]
      decide

/-- An update changes the entry of its channel only. -/
theorem entry_step (fd : κ → ℕ) (r : Registry κ) (u : Update) (c : κ) :
    entry fd (r.step (.update u c)).events =
      Function.update (entry fd r.events) c (entry fd (r.step (.update u c)).events c) := by
  funext d
  by_cases hd : d = c
  · rw [hd, Function.update_self]
  · rw [Function.update_of_ne hd, entry, entry, Registry.events_step_update, if_neg hd]

/-- The first enable of a channel keeps the agreement with the registry. -/
theorem Tracks.register (h : Tracks fd s r order) (hfd : Function.Injective fd)
    (hc : r.status c = .unseen) (hne : u.apply (r.events c) ≠ 0) :
    ∃ s', (Op.update u c).perform fd s = .ok s' ∧
      Tracks fd s' (r.step (.update u c)) (order ++ [c]) := by
  obtain ⟨s', hs, h', -, hindex⟩ := h.represents.register hfd hc hne
  have hevents : (r.step (.update u c)).events c = u.apply (r.events c) := by
    rw [Registry.events_step_update, if_pos rfl]
  refine ⟨s', hs, h'.tracks (fun d _ => ?_) fun d hd => ?_⟩
  · have hentry : entry fd (r.step (.update u c)).events c =
        ⟨fd c, (u.apply (r.events c)).setWidth 16, 0⟩ := by
      rw [entry, hevents, if_neg hne]
    rw [entry_step, hentry]
  · rw [Registry.status_step_update] at hd
    split_ifs at hd with hdc
    exact (h.index_removed d hd).trans_eq (hindex d hdc).symm

/-- An update of a channel that has events, and a disable of one that has none, keep the agreement
with the registry. -/
theorem Tracks.modify (h : Tracks fd s r order) (hc : r.status c = .registered)
    (hu : r.events c ≠ 0 ∨ u.apply (r.events c) = 0) :
    ∃ s', (Op.update u c).perform fd s = .ok s' ∧ Tracks fd s' (r.step (.update u c)) order := by
  obtain ⟨s', hs, h', -, hindex⟩ := h.represents.modify (u := u) hc
  have hevents : (r.step (.update u c)).events c = u.apply (r.events c) := by
    rw [Registry.events_step_update, if_pos rfl]
  refine ⟨s', hs, h'.tracks (fun d _ => ?_) fun d hd => ?_⟩
  · rw [entry_step]
    refine congrArg (fun pfd => Function.update (entry fd r.events) c pfd d) ?_
    simp only [entry, hevents]
    -- a descriptor that is not replaced now has not been replaced before
    by_cases hzero : u.apply (r.events c) = 0
    · simp only [if_pos hzero]
    · simp only [if_neg hzero, if_neg (hu.resolve_right hzero)]
  · rw [Registry.status_step_update] at hd
    split_ifs at hd with hdc
    exact (h.index_removed d hd).trans_eq (congrFun hindex d).symm

/-- Removal keeps the agreement with the registry. -/
theorem Tracks.remove (h : Tracks fd s r order) (hfd : Function.Injective fd)
    (hc : r.status c = .registered) (hevents : r.events c = 0) :
    ∃ s' order', (Op.remove c).perform fd s = .ok s' ∧
      Tracks fd s' (r.step (.remove c)) order' := by
  obtain ⟨s', order', hs, h', -, hindex⟩ := h.represents.remove hfd hc hevents
  refine ⟨s', order', hs, h'.tracks (fun d _ => rfl) fun d hd => ?_⟩
  rw [hindex d (by rw [hd]; decide)]
  rw [Registry.status_step_remove] at hd
  split_ifs at hd with hdc
  · obtain ⟨i, -, hi, -⟩ := h.represents.exists_index hc
    rw [hdc, hi]
    exact Int.natCast_nonneg i
  · exact h.index_removed d hd

/-- An enable does not undo the silencing of a registered channel. -/
theorem Tracks.not_watched_of_wake (h : Tracks fd s r order) (hfd : Function.Injective fd)
    (hc : r.status c = .registered) (hevents : r.events c = 0)
    (hs : (Op.update u c).perform fd s = .ok s') (m : Mask) : (fd c, m) ∉ watched s' := by
  obtain ⟨i, -, hindex, hpfd, -⟩ := h.represents.exists_index hc
  have hfind : s.poller.channels (fd c) = some c := by rw [h.find_eq, if_pos hc]
  have hentry : (entry fd r.events c).fd = -(fd c : ℤ) - 1 := if_pos hevents
  obtain rfl := Except.ok.inj
    (hs.symm.trans (updateChannel_known hindex hfind hpfd (.inr hentry)))
  rintro ⟨-, pfd, hmem, hpfdfd, -⟩
  -- an entry with this descriptor would be another channel's, or the silenced one
  rcases List.mem_or_eq_of_mem_set hmem with hold | rfl
  · dsimp only at hold
    rw [h.pollfds_eq, List.mem_map] at hold
    obtain ⟨d, -, rfl⟩ := hold
    rw [entry] at hpfdfd
    by_cases hd : r.events d = 0
    · simp only [if_pos hd] at hpfdfd
      omega
    · simp only [if_neg hd, Int.natCast_inj] at hpfdfd
      exact hd (hfd hpfdfd ▸ hevents)
  · dsimp only at hpfdfd
    rw [hentry, ite_self] at hpfdfd
    omega

/-- Any update of a removed channel fails an `assert`. -/
theorem Tracks.perform_of_removed (h : Tracks fd s r order) (hc : r.status c = .removed) :
    (Op.update u c).perform fd s = .error .assertFailed := by
  refine updateChannel_lost (h.index_removed c hc) ?_
  dsimp only
  rw [h.find_eq, hc]
  rfl

end PollPoller

end MuduoRebuild
