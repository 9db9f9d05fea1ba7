import MuduoRebuild.Foundations.Drain
import MuduoRebuild.Poller.Representation
import MuduoRebuild.Poller.Silence

/-!
# Waiting for events

`EventLoop::loop` clears `activeChannels_` and passes it to `Poller::poll`, which asks the kernel
which descriptors are ready and then, in `fillActiveChannels`, looks up their channels, sets their
`revents_` and collects them. `PollPoller.activated` and `EpollPoller.activated` say which channels
these should be.

`PollPoller::fillActiveChannels` stops as soon as it has found as many entries as `::poll` has
counted. `poll_activates` says that it misses none, finds each channel once, and that its asserts
hold.

`::epoll_wait` returns no more events than `events_` has room for, and `EpollPoller::poll` doubles
the size of `events_` when they fill it. `epoll_activates` says that the channels found are right,
and that all are found in all but a few polls: with at most `m` channels in the interest set at any
time, all polls of a run but about `log₂ (m / 8)` are complete, and `events_` never has more than
`max 16 (2 * m)` elements.
-/

namespace MuduoRebuild

open Fallible Channel

variable {κ : Type}

/-- `activeChannels_` of the loop, and the `revents_` of the channels. -/
structure Active (κ : Type) where
  channels : List κ
  revents : κ → Mask

namespace Active

/-- The channels to be handled, with the flags they are handled for. -/
def pairs (a : Active κ) : Set (κ × Mask) := {p | p.1 ∈ a.channels ∧ p.2 = a.revents p.1}

/-- `activeChannels_.clear()`. -/
def clear (a : Active κ) : Active κ := { a with channels := [] }

variable [DecidableEq κ] {a : Active κ} {ps : List (κ × Mask)} {c : κ} {m : Mask}

/-- `channel->set_revents(revents)` and `activeChannels->push_back(channel)`. -/
def push (a : Active κ) (p : κ × Mask) : Active κ where
  channels := a.channels ++ [p.1]
  revents := Function.update a.revents p.1 p.2

theorem channels_foldl_push (a : Active κ) (ps : List (κ × Mask)) :
    (ps.foldl push a).channels = a.channels ++ ps.map Prod.fst := by
  induction ps generalizing a with
  | nil => exact (List.append_nil _).symm
  | cons p ps ih => rw [List.foldl_cons, ih, push, List.append_assoc, List.map_cons]; rfl

theorem revents_foldl_push_of_not_mem (hc : c ∉ ps.map Prod.fst) :
    (ps.foldl push a).revents c = a.revents c := by
  induction ps generalizing a with
  | nil => rfl
  | cons p ps ih =>
    rw [List.map_cons, List.mem_cons, not_or] at hc
    rw [List.foldl_cons, ih hc.2]
    exact Function.update_of_ne hc.1 ..

theorem revents_foldl_push_of_mem (honce : (ps.map Prod.fst).Nodup) (hp : (c, m) ∈ ps) :
    (ps.foldl push a).revents c = m := by
  induction ps generalizing a with
  | nil => cases hp
  | cons p ps ih =>
    rw [List.map_cons, List.nodup_cons] at honce
    rw [List.foldl_cons]
    rcases List.mem_cons.mp hp with rfl | hp
    · rw [revents_foldl_push_of_not_mem honce.1]
      exact Function.update_self ..
    · exact ih honce.2 hp

/-- What has been pushed onto an empty list, each channel once. -/
theorem pairs_foldl_push (hempty : a.channels = []) (honce : (ps.map Prod.fst).Nodup) :
    (ps.foldl push a).channels.Nodup ∧ (ps.foldl push a).pairs = {p | p ∈ ps} := by
  have hchannels : (ps.foldl push a).channels = ps.map Prod.fst := by
    rw [channels_foldl_push, hempty, List.nil_append]
  refine ⟨hchannels ▸ honce, ?_⟩
  ext ⟨c, m⟩
  rw [pairs, Set.mem_ofPred_eq, Set.mem_ofPred_eq, hchannels, List.mem_map]
  constructor
  · rintro ⟨⟨⟨d, n⟩, hmem, rfl⟩, hm⟩
    rw [revents_foldl_push_of_mem honce hmem] at hm
    obtain rfl : m = n := hm
    exact hmem
  · exact fun hmem => ⟨⟨_, hmem, rfl⟩, (revents_foldl_push_of_mem honce hmem).symm⟩

end Active

/-! ### The flags reported -/

/-- The flags reported for a descriptor fit into a `short`, and are positive there unless there are
none. -/
theorem Channel.IsEvents.reported_cases {events : Mask} (h : IsEvents events) (ready : ℕ → Mask)
    (n : ℕ) : ((reported ready n events).setWidth 16).signExtend 32 = reported ready n events ∧
      (0 < ((reported ready n events).setWidth 16).toInt ↔ reported ready n events ≠ 0) ∧
      ((reported ready n events).setWidth 16 = 0 ↔ reported ready n events = 0) := by
  have hsmall : (reported ready n events).toNat ≤ 31 := by
    rw [reported, BitVec.toNat_and]
    refine Nat.and_le_right.trans ?_
    rcases h with rfl | rfl | rfl | rfl <;> decide
  have hall : ∀ k ≤ 31, ((BitVec.ofNat 32 k).setWidth 16).signExtend 32 = BitVec.ofNat 32 k ∧
      (0 < ((BitVec.ofNat 32 k).setWidth 16).toInt ↔ BitVec.ofNat 32 k ≠ 0) ∧
      ((BitVec.ofNat 32 k).setWidth 16 = 0 ↔ BitVec.ofNat 32 k = 0) := by decide
  have hthis := hall _ hsmall
  rwa [BitVec.ofNat_toNat, BitVec.setWidth_eq] at hthis

/-! ### `PollPoller` -/

namespace PollPoller

/-- What `::poll` writes into an entry. -/
def sysPoll (ready : ℕ → Mask) (pfd : PollFd) : PollFd where
  fd := pfd.fd
  events := pfd.events
  revents :=
    if pfd.fd < 0 then 0
    else (reported ready pfd.fd.toNat (pfd.events.signExtend 32)).setWidth 16

/-- The loop in `fillActiveChannels`, from an entry on. -/
def fillActiveChannels [DecidableEq κ] (fd : κ → ℕ) (channels : ChannelMap κ) :
    List PollFd → ℕ → Active κ → Except Fault (Active κ)
  | [], _, active => .ok active
  | pfd :: pfds, numEvents, active =>
    if 0 < numEvents then
      if 0 < pfd.revents.toInt then
        match channels pfd.fd with
        | none => .error .assertFailed
        | some channel => do
          assertThat ((fd channel : ℤ) = pfd.fd)
          fillActiveChannels fd channels pfds (numEvents - 1)
            (active.push (channel, pfd.revents.signExtend 32))
      else fillActiveChannels fd channels pfds numEvents active
    else .ok active

/-- `poll`; there is no `ready` if `::poll` fails. -/
def poll [DecidableEq κ] (fd : κ → ℕ) (s : Loop (PollPoller κ) κ) (ready : Option (ℕ → Mask))
    (activeChannels : Active κ) : Except Fault (Loop (PollPoller κ) κ × Active κ) :=
  match ready with
  | none => .ok (s, activeChannels)
  | some ready => do
    let pollfds := s.poller.pollfds.map (sysPoll ready)
    let numEvents := pollfds.countP (·.revents ≠ 0)
    let s := { s with poller := { s.poller with pollfds } }
    if 0 < numEvents then
      let activeChannels ←
        fillActiveChannels fd s.poller.channels s.poller.pollfds numEvents activeChannels
      return (s, activeChannels)
    else return (s, activeChannels)

/-- The poller of a loop, and the channels that it has found last. -/
structure Polling (κ : Type) where
  loop : Loop (PollPoller κ) κ
  active : Active κ

namespace Polling

/-- An operation on a channel, or an iteration of the loop up to the event handlers. -/
inductive Event (κ : Type) where
  | op (op : Op κ)
  | poll (ready : Option (ℕ → Mask))

def start : Polling κ := ⟨init, ⟨[], fun _ => 0⟩⟩

section

variable [DecidableEq κ] (fd : κ → ℕ) (t : Polling κ)

def step : Event κ → Except Fault (Polling κ)
  | .op op => do return { t with loop := ← op.perform fd t.loop }
  | .poll ready => do
    let (loop, active) ← PollPoller.poll fd t.loop ready t.active.clear
    return { loop, active }

/-- What an event does to the registry. -/
def record (r : Registry κ) : Event κ → Registry κ
  | .op op => r.step op
  | .poll _ => r

/-- The operations of a client that uses no channel after its removal. -/
def Admits (r : Registry κ) : Event κ → Prop
  | .op op => r.PermitsOnce op
  | .poll _ => True

/-- A poll finds the channels that it should, each once. -/
def Activates (t : Polling κ) : Event κ → Except Fault (Polling κ) → Prop
  | .op _, r => Machine.Succeeds (fun t' => t'.active = t.active) r
  | .poll none, r => Machine.Succeeds (fun t' => t'.active.channels = []) r
  | .poll (some ready), r => Machine.Succeeds
      (fun t' => t'.active.channels.Nodup ∧ t'.active.pairs = activated t.loop ready) r

end

end Polling

variable {fd : κ → ℕ} {s : Loop (PollPoller κ) κ} {r : Registry κ} {order : List κ}
  {e : κ → PollFd} {ready : ℕ → Mask}

/-- The channels that the loop finds, with their flags. -/
def hits (channels : ChannelMap κ) (pfds : List PollFd) : List (κ × Mask) :=
  pfds.filterMap fun pfd =>
    if 0 < pfd.revents.toInt then
      (channels pfd.fd).map fun channel => (channel, pfd.revents.signExtend 32)
    else none

/-- The loop stops early, but not before it has found all there is to find. -/
theorem fillActiveChannels_eq [DecidableEq κ] {channels : ChannelMap κ} {pfds : List PollFd}
    {numEvents : ℕ} (hfind : ∀ pfd ∈ pfds, 0 < pfd.revents.toInt →
      ∃ c, channels pfd.fd = some c ∧ (fd c : ℤ) = pfd.fd)
    (hcount : pfds.countP (0 < ·.revents.toInt) = numEvents) (active : Active κ) :
    fillActiveChannels fd channels pfds numEvents active =
      .ok ((hits channels pfds).foldl Active.push active) := by
  induction pfds generalizing numEvents active with
  | nil => rfl
  | cons pfd pfds ih =>
    have hrest := fun pfd' hmem => hfind pfd' (List.mem_cons_of_mem pfd hmem)
    rw [fillActiveChannels, hits, List.filterMap_cons]
    by_cases hready : 0 < pfd.revents.toInt
    · obtain ⟨c, hc, hfd⟩ := hfind pfd List.mem_cons_self hready
      rw [List.countP_cons_of_pos (by simpa using hready)] at hcount
      simp only [if_pos hready, if_pos (Nat.lt_of_lt_of_eq (Nat.succ_pos _) hcount), hc,
        Option.map_some, assertThat, check_of hfd, ok_bind]
      rw [ih hrest (by omega)]
      rfl
    · rw [List.countP_cons_of_neg (by simpa using hready)] at hcount
      simp only [if_neg hready]
      split_ifs with hpos
      · exact ih hrest hcount active
      · -- nothing is left to find
        have hnone : hits channels pfds = [] := by
          refine List.filterMap_eq_nil_iff.mpr fun pfd' hmem => if_neg fun hlt => ?_
          have hzero : pfds.countP (0 < ·.revents.toInt) = 0 := by omega
          exact List.countP_eq_zero.mp hzero pfd' hmem (by simpa using hlt)
        rw [← hits, hnone]
        rfl

/-- What `::poll` reports in the entry of a channel. -/
theorem EntryFor.sysPoll_cases {n : ℕ} {m : Mask} {pfd : PollFd} (h : EntryFor n m pfd)
    (hm : IsEvents m) (ready : ℕ → Mask) :
    pfd.fd < 0 ∧ (sysPoll ready pfd).revents = 0 ∨
      pfd.fd = n ∧ (sysPoll ready pfd).revents = (reported ready n m).setWidth 16 := by
  rcases h.fd_eq with hfd | hfd
  · refine .inr ⟨hfd, ?_⟩
    rw [sysPoll, hfd, if_neg (by omega), Int.toNat_natCast, h.events_eq, hm.signExtend_setWidth]
  · have hneg : pfd.fd < 0 := by omega
    exact .inl ⟨hneg, if_pos hneg⟩

/-- The channels that the loop should find, with their flags. -/
theorem Represents.mem_activated_iff (h : Represents fd s r order e) (hr : r.Sane) {c : κ}
    {m : Mask} : (c, m) ∈ activated s ready ↔
      c ∈ order ∧ 0 < (sysPoll ready (e c)).revents.toInt ∧
        m = (sysPoll ready (e c)).revents.signExtend 32 := by
  have hentry : ∀ d ∈ order, (e d).fd < 0 ∧ (sysPoll ready (e d)).revents = 0 ∨
      (e d).fd = fd d ∧ (sysPoll ready (e d)).revents =
        (reported ready (fd d) (r.events d)).setWidth 16 :=
    fun d hd => (h.entryFor d hd).sysPoll_cases (hr.isEvents d) ready
  simp only [activated, h.pollfds_eq, Set.mem_ofPred_eq, List.mem_map]
  constructor
  · rintro ⟨hne, pfd, ⟨d, hd, rfl⟩, hpos, hfind, hm⟩
    rcases hentry d hd with ⟨hneg, -⟩ | ⟨hfd, hrevents⟩
    · omega
    · rw [hfd, h.find_eq, if_pos ((h.mem_iff d).mp hd)] at hfind
      obtain rfl := Option.some.inj hfind
      rw [hfd, Int.toNat_natCast, (h.entryFor d hd).events_eq,
        (hr.isEvents d).signExtend_setWidth] at hm
      obtain ⟨hsame, hiff, -⟩ := (hr.isEvents d).reported_cases ready (fd d)
      rw [hrevents, hsame]
      exact ⟨hd, hiff.mpr (hm ▸ hne), hm⟩
  · rintro ⟨hc, hpos, hm⟩
    rcases hentry c hc with ⟨-, hzero⟩ | ⟨hfd, hrevents⟩
    · rw [hzero] at hpos
      exact absurd hpos (by decide)
    · obtain ⟨hsame, hiff, -⟩ := (hr.isEvents c).reported_cases ready (fd c)
      rw [hrevents] at hpos hm
      rw [hsame] at hm
      refine ⟨hm ▸ hiff.mp hpos, e c, ⟨c, hc, rfl⟩, hfd ▸ Int.natCast_nonneg _, ?_, ?_⟩
      · rw [hfd, h.find_eq, if_pos ((h.mem_iff c).mp hc)]
      · rw [hfd, Int.toNat_natCast, (h.entryFor c hc).events_eq,
          (hr.isEvents c).signExtend_setWidth]
        exact hm

/-- The entries with flags are counted by `::poll`. -/
theorem Represents.countP_eq (h : Represents fd s r order e) (hr : r.Sane) :
    (s.poller.pollfds.map (sysPoll ready)).countP (0 < ·.revents.toInt) =
      (s.poller.pollfds.map (sysPoll ready)).countP (·.revents ≠ 0) := by
  rw [h.pollfds_eq, List.map_map]
  refine List.countP_congr fun pfd hmem => ?_
  obtain ⟨c, hc, rfl⟩ := List.mem_map.mp hmem
  rw [decide_eq_true_iff, decide_eq_true_iff]
  rcases (h.entryFor c hc).sysPoll_cases (hr.isEvents c) ready with ⟨-, hzero⟩ | ⟨-, hrevents⟩
  · rw [Function.comp_apply, hzero]
    decide
  · obtain ⟨-, hpos, hzero⟩ := (hr.isEvents c).reported_cases ready (fd c)
    rw [Function.comp_apply, hrevents, hpos, Ne, Ne, hzero]

/-- What the loop finds, in the order of the vector. -/
theorem Represents.hits_eq (h : Represents fd s r order e) (hr : r.Sane) :
    hits s.poller.channels (s.poller.pollfds.map (sysPoll ready)) =
      (order.filter fun c => decide (0 < (sysPoll ready (e c)).revents.toInt)).map fun c =>
        (c, (sysPoll ready (e c)).revents.signExtend 32) := by
  rw [h.pollfds_eq, List.map_map, hits, List.filterMap_map, ← List.filterMap_eq_map,
    ← List.filterMap_eq_filter, List.filterMap_filterMap]
  refine List.filterMap_congr fun c hc => ?_
  by_cases hpos : 0 < (sysPoll ready (e c)).revents.toInt
  · rcases (h.entryFor c hc).sysPoll_cases (hr.isEvents c) ready with ⟨-, hzero⟩ | ⟨hfd, -⟩
    · rw [hzero] at hpos
      exact absurd hpos (by decide)
    · have hfind : s.poller.channels (sysPoll ready (e c)).fd = some c := by
        change s.poller.channels (e c).fd = some c
        rw [hfd, h.find_eq, if_pos ((h.mem_iff c).mp hc)]
      simp [hpos, hfind]
  · simp [hpos, Option.guard]

/-- The kernel writes flags only. -/
theorem Represents.sysPoll (h : Represents fd s r order e) (ready : ℕ → Mask) :
    Represents fd
      { s with poller := { s.poller with pollfds := s.poller.pollfds.map (sysPoll ready) } }
      r order (fun c => sysPoll ready (e c)) where
  events_eq := h.events_eq
  nodup := h.nodup
  mem_iff := h.mem_iff
  pollfds_eq := by
    rw [h.pollfds_eq, List.map_map]
    rfl
  entryFor := fun c hc => ⟨(h.entryFor c hc).fd_eq, (h.entryFor c hc).fd_eq_of_zero,
    (h.entryFor c hc).events_eq⟩
  index_eq := h.index_eq
  index_unseen := h.index_unseen
  find_eq := h.find_eq

variable [DecidableEq κ] {a : Active κ}

/-- One poll. -/
theorem Sound.poll (h : Sound fd s r) (ready : ℕ → Mask) (hempty : a.channels = []) :
    ∃ s' a', PollPoller.poll fd s (some ready) a = .ok (s', a') ∧ Sound fd s' r ∧
      a'.channels.Nodup ∧ a'.pairs = activated s ready := by
  obtain ⟨order, e, hrep⟩ := h.represents
  have hsound : Sound fd
      { s with poller := { s.poller with pollfds := s.poller.pollfds.map (sysPoll ready) } } r :=
    ⟨h.sane, h.keyed, order, _, hrep.sysPoll ready⟩
  have hits_eq : hits s.poller.channels (s.poller.pollfds.map (sysPoll ready)) = _ :=
    hrep.hits_eq h.sane
  have honce : ((hits s.poller.channels (s.poller.pollfds.map (sysPoll ready))).map
      Prod.fst).Nodup := by
    rw [hits_eq, List.map_map]
    exact (hrep.nodup.filter _).map_on fun _ _ _ _ heq => heq
  have hmem : {p | p ∈ hits s.poller.channels (s.poller.pollfds.map (sysPoll ready))} =
      activated s ready := by
    ext ⟨c, m⟩
    rw [hrep.mem_activated_iff h.sane, Set.mem_ofPred_eq, hits_eq, List.mem_map]
    constructor
    · rintro ⟨d, hd, heq⟩
      obtain ⟨rfl, rfl⟩ := Prod.mk.inj heq
      obtain ⟨hd, hpos⟩ := List.mem_filter.mp hd
      exact ⟨hd, of_decide_eq_true hpos, rfl⟩
    · rintro ⟨hc, hpos, rfl⟩
      exact ⟨c, List.mem_filter.mpr ⟨hc, decide_eq_true hpos⟩, rfl⟩
  obtain ⟨hnodup, hpairs⟩ := Active.pairs_foldl_push hempty honce
  rw [hmem] at hpairs
  have hcount : (s.poller.pollfds.map (sysPoll ready)).countP (0 < ·.revents.toInt) = _ :=
    hrep.countP_eq h.sane
  rw [PollPoller.poll]
  dsimp only
  split_ifs with hpos
  · have hfind : ∀ pfd ∈ s.poller.pollfds.map (sysPoll ready), 0 < pfd.revents.toInt →
        ∃ c, s.poller.channels pfd.fd = some c ∧ (fd c : ℤ) = pfd.fd := by
      intro pfd hmem hready
      rw [hrep.pollfds_eq, List.map_map] at hmem
      obtain ⟨c, hc, rfl⟩ := List.mem_map.mp hmem
      rcases (hrep.entryFor c hc).sysPoll_cases (h.sane.isEvents c) ready with
        ⟨-, hzero⟩ | ⟨hfd, -⟩
      · rw [Function.comp_apply, hzero] at hready
        exact absurd hready (by decide)
      · refine ⟨c, ?_, hfd.symm⟩
        change s.poller.channels (e c).fd = some c
        rw [hfd, hrep.find_eq, if_pos ((hrep.mem_iff c).mp hc)]
    rw [fillActiveChannels_eq hfind hcount, ok_bind]
    exact ⟨_, _, rfl, hsound, hnodup, hpairs⟩
  · -- `::poll` has returned 0
    have hnone : hits s.poller.channels (s.poller.pollfds.map (sysPoll ready)) = [] := by
      refine List.filterMap_eq_nil_iff.mpr fun pfd hmem => if_neg fun hlt => ?_
      rw [← hcount] at hpos
      exact hpos (List.countP_pos_iff.mpr ⟨pfd, hmem, decide_eq_true hlt⟩)
    rw [hnone] at hnodup hpairs
    exact ⟨_, a, rfl, hsound, hnodup, hpairs⟩

/-- **`PollPoller::poll` finds every ready channel, once.** For channels with distinct descriptors
and every sequence of operations of a client that uses no channel after its removal, with polls in
between, no assert fails, and after a poll `activeChannels` holds exactly the channels that are
ready, each once and with the flags that the kernel reports for it. -/
theorem poll_activates (hfd : Function.Injective fd) (events : List (Polling.Event κ))
    (hevents : Machine.Meets Polling.record Polling.Admits Registry.empty events) :
    Machine.Along (Polling.step fd) Polling.Activates Polling.start events := by
  refine hevents.along (fun t r => Sound fd t.loop r) sound_init (fun t r e h he => ?_)
    fun t r e t' h he ht => ?_
  · cases e with
    | op op =>
      obtain ⟨s', hs, -⟩ := h.step hfd he
      exact ⟨_, bind_of_ok hs _, rfl⟩
    | poll ready =>
      cases ready with
      | none => exact ⟨_, rfl, rfl⟩
      | some ready =>
        obtain ⟨s', a', hpoll, -, hnodup, hpairs⟩ := h.poll ready (a := t.active.clear) rfl
        exact ⟨_, bind_of_ok hpoll _, hnodup, hpairs⟩
  · cases e with
    | op op =>
      obtain ⟨s', hs, h', -⟩ := h.step hfd he
      obtain ⟨s'', hs'', ht⟩ := bind_eq_ok.mp ht
      obtain rfl := Except.ok.inj (hs.symm.trans hs'')
      exact Except.ok.inj ht ▸ h'
    | poll ready =>
      cases ready with
      | none => exact Except.ok.inj ht ▸ h
      | some ready =>
        obtain ⟨s', a', hpoll, h', -⟩ := h.poll ready (a := t.active.clear) rfl
        obtain ⟨p, hp, ht⟩ := bind_eq_ok.mp ht
        obtain rfl := Except.ok.inj (hpoll.symm.trans hp)
        exact Except.ok.inj ht ▸ h'

/-- Of three channels one is readable, one is silenced when its peer hangs up, and one has an
error. -/
theorem poll_activates_silenced :
    Machine.Along (Polling.step fun n : ℕ => n) Polling.Activates Polling.start
      [.op (.update .enableReading 3), .op (.update .enableWriting 4),
        .op (.update .enableReading 5), .op (.update .disableAll 4),
        .poll (some fun n => if n = 3 then POLLIN else if n = 4 then POLLHUP else POLLERR),
        .poll none] :=
  poll_activates Function.injective_id _
    ⟨.inr ⟨rfl, rfl⟩, .inr ⟨rfl, rfl⟩, .inr ⟨rfl, rfl⟩, .inl rfl, trivial, trivial, trivial⟩

end PollPoller

/-! ### `EpollPoller` -/

namespace EpollPoller

def kInitEventListSize : ℕ := 16

/-- The event that `::epoll_wait` returns for a descriptor of the interest set. -/
def report (s : Loop (EpollPoller κ) κ) (ready : ℕ → Mask) (n : ℕ) : Option (EpollEvent κ) :=
  (s.poller.interest n).map fun e => ⟨reported ready n e.events, e.ptr⟩

/-- `fillActiveChannels`, on the events that `::epoll_wait` has put into `events_`. -/
def fillActiveChannels [DecidableEq κ] (fd : κ → ℕ) (channels : ChannelMap κ) (eventsSize : ℕ)
    (events : List (EpollEvent κ)) (activeChannels : Active κ) : Except Fault (Active κ) := do
  assertThat (events.length ≤ eventsSize)
  events.foldlM (fun active event => do
    assertThat (channels (fd event.ptr) ≠ none)
    assertThat (channels (fd event.ptr) = some event.ptr)
    return active.push (event.ptr, event.events)) activeChannels

/-- The poller of a loop with `events_.size()`, and the channels that it has found last. -/
structure Polling (κ : Type) where
  loop : Loop (EpollPoller κ) κ
  eventsSize : ℕ
  active : Active κ

namespace Polling

/-- An operation on a channel, or an iteration of the loop up to the event handlers: which
descriptors are ready, and for which of them `::epoll_wait` returns events, if it does not fail. -/
inductive Event (κ : Type) where
  | op (op : Op κ)
  | poll (ready : ℕ → Mask) (fds : Option (List ℕ))

def start : Polling κ := ⟨init, kInitEventListSize, ⟨[], fun _ => 0⟩⟩

section

variable [DecidableEq κ] (fd : κ → ℕ) (t : Polling κ)

def poll (ready : ℕ → Mask) (fds : Option (List ℕ)) : Except Fault (Polling κ) :=
  match fds with
  | none => .ok t
  | some fds => do
    let events := fds.filterMap (report t.loop ready)
    let numEvents := events.length
    if 0 < numEvents then
      let active ← fillActiveChannels fd t.loop.poller.channels t.eventsSize events t.active
      let eventsSize := if t.eventsSize = numEvents then 2 * t.eventsSize else t.eventsSize
      return { t with eventsSize, active }
    else return t

def step : Event κ → Except Fault (Polling κ)
  | .op op => do return { t with loop := ← op.perform fd t.loop }
  | .poll ready fds => poll fd { t with active := t.active.clear } ready fds

/-- What is known of `::epoll_wait`: it returns events for descriptors that are ready, one for each,
and leaves out a ready one only if there is no room for it. -/
structure EpollWait (ready : ℕ → Mask) (fds : List ℕ) : Prop where
  nodup : fds.Nodup
  isReady : ∀ n ∈ fds, ∃ e, t.loop.poller.interest n = some e ∧ reported ready n e.events ≠ 0
  length_le : fds.length ≤ t.eventsSize
  complete : fds.length < t.eventsSize → ∀ (n : ℕ) e, t.loop.poller.interest n = some e →
    reported ready n e.events ≠ 0 → n ∈ fds

/-- There are at most `m` channels in the interest set. -/
def Crowd (m : ℕ) : Prop :=
  ∃ cs : Finset κ, cs.card ≤ m ∧ ∀ c, t.loop.index c = kAdded → c ∈ cs

/-- Any operation on a channel, and polls of at most `m` channels. -/
def Admits (m : ℕ) : Event κ → Prop
  | .op _ => True
  | .poll ready fds => t.Crowd m ∧ ∀ fds' ∈ fds, t.EpollWait ready fds'

/-- A poll finds channels that it should, each once, and all of them unless `events_` grows, which
has an end. -/
def Activates (m : ℕ) (t : Polling κ) : Event κ → Except Fault (Polling κ) → Prop
  | .op _, r => Machine.UnlessFault (fun t' => t'.active = t.active) r
  | .poll _ none, r => Machine.Succeeds (fun t' => t'.active.channels = []) r
  | .poll ready (some _), r => Machine.Succeeds (fun t' => t'.active.channels.Nodup ∧
      t'.active.pairs ⊆ activated t.loop ready ∧
      (t'.active.pairs = activated t.loop ready ∨ t'.eventsSize = 2 * t.eventsSize) ∧
      t'.eventsSize ≤ max kInitEventListSize (2 * m)) r

/-- The poll leaves out a channel that is ready. -/
def Misses : Event κ → Prop
  | .op _ => False
  | .poll _ none => False
  | .poll ready (some fds) => ∀ t', t.step fd (.poll ready (some fds)) = .ok t' →
      ¬activated t.loop ready ⊆ t'.active.pairs

open Classical in
/-- The number of polls of a run that leave out a channel. -/
noncomputable def misses (t : Polling κ) (events : List (Event κ)) : ℕ :=
  Machine.cost (step fd) (fun t e => if t.Misses fd e then 1 else 0) t events

end

variable {fd : κ → ℕ} {t t' : Polling κ} {ready : ℕ → Mask} {fds : List ℕ} {m : ℕ}

/-- The channels that are reported. -/
def reports (t : Polling κ) (ready : ℕ → Mask) (fds : List ℕ) : List (κ × Mask) :=
  (fds.filterMap (report t.loop ready)).map fun e => (e.ptr, e.events)

theorem mem_reports {c : κ} {x : Mask} : (c, x) ∈ t.reports ready fds ↔
    ∃ n ∈ fds, ∃ e, t.loop.poller.interest n = some e ∧ e.ptr = c ∧
      x = reported ready n e.events := by
  simp only [reports, List.mem_map, List.mem_filterMap, report, Option.map_eq_some_iff]
  constructor
  · rintro ⟨_, ⟨n, hn, e, he, rfl⟩, heq⟩
    obtain ⟨rfl, rfl⟩ := Prod.mk.inj heq
    exact ⟨n, hn, e, he, rfl, rfl⟩
  · rintro ⟨n, hn, e, he, rfl, rfl⟩
    exact ⟨_, ⟨n, hn, e, he, rfl⟩, rfl⟩

theorem length_reports (h : t.EpollWait ready fds) :
    (fds.filterMap (report t.loop ready)).length = fds.length := by
  refine List.filterMap_length_eq_length.mpr fun n hn => ?_
  obtain ⟨e, he, -⟩ := h.isReady n hn
  rw [report, he]
  rfl

/-- Different descriptors have different channels. -/
theorem nodup_reports (h : t.EpollWait ready fds) (hc : Consistent fd t.loop) :
    ((t.reports ready fds).map Prod.fst).Nodup := by
  have hfst : (t.reports ready fds).map Prod.fst =
      fds.filterMap fun n : ℕ => (t.loop.poller.interest n).map EpollEvent.ptr := by
    rw [reports, List.map_map, List.map_filterMap]
    refine List.filterMap_congr fun n _ => ?_
    rw [report, Option.map_map]
    rfl
  rw [hfst]
  refine h.nodup.filterMap fun n n' c hn hn' => ?_
  obtain ⟨e, he, rfl⟩ := Option.map_eq_some_iff.mp hn
  obtain ⟨e', he', hptr⟩ := Option.map_eq_some_iff.mp hn'
  have hfd := ((hc.interest_eq_some _ e).mp he).1
  have hfd' := ((hc.interest_eq_some _ e').mp he').1
  rw [hptr, ← hfd] at hfd'
  exact (Int.natCast_inj.mp hfd').symm

/-- No more channels are reported than there are in the interest set. -/
theorem length_le_of_crowd (h : t.EpollWait ready fds) (hc : Consistent fd t.loop)
    (hm : t.Crowd m) : fds.length ≤ m := by
  classical
  obtain ⟨cs, hcard, hcs⟩ := hm
  have hlength : ((t.reports ready fds).map Prod.fst).length = fds.length := by
    rw [List.length_map, reports, List.length_map, length_reports h]
  have hsub : ((t.reports ready fds).map Prod.fst).toFinset ⊆ cs := by
    intro c hmem
    obtain ⟨⟨d, x⟩, hd, rfl⟩ := List.mem_map.mp (List.mem_toFinset.mp hmem)
    obtain ⟨n, -, e, he, rfl, -⟩ := mem_reports.mp hd
    exact hcs _ ((hc.interest_eq_some _ e).mp he).2.1
  rw [← hlength, ← List.toFinset_card_of_nodup (nodup_reports h hc)]
  exact (Finset.card_le_card hsub).trans hcard

/-- What holds between any two events. -/
structure Sound (fd : κ → ℕ) (m : ℕ) (t : Polling κ) : Prop where
  inOrder : InOrder fd t.loop
  size_ge : kInitEventListSize ≤ t.eventsSize
  size_le : t.eventsSize ≤ max kInitEventListSize (2 * m)

theorem sound_start (fd : κ → ℕ) (m : ℕ) : Sound fd m start where
  inOrder := inOrder_init
  size_ge := le_rfl
  size_le := le_max_left _ _

/-- The channels found are ready, and none is left out unless `events_` is full. -/
theorem pairs_reports (hwait : t.EpollWait ready fds) :
    {p | p ∈ t.reports ready fds} ⊆ activated t.loop ready ∧
      (t.eventsSize ≠ fds.length → {p | p ∈ t.reports ready fds} = activated t.loop ready) := by
  have hsub : {p | p ∈ t.reports ready fds} ⊆ activated t.loop ready := by
    rintro ⟨c, x⟩ hmem
    obtain ⟨n, hn, e, he, hptr, rfl⟩ := mem_reports.mp hmem
    obtain ⟨e', he', hne⟩ := hwait.isReady n hn
    obtain rfl := Option.some.inj (he.symm.trans he')
    exact ⟨hne, n, e, he, hptr, rfl⟩
  refine ⟨hsub, fun hroom => hsub.antisymm ?_⟩
  rintro ⟨c, x⟩ ⟨hne, n, e, he, hptr, rfl⟩
  have hlt : fds.length < t.eventsSize := hwait.length_le.lt_of_ne' hroom
  exact mem_reports.mpr ⟨n, hwait.complete hlt n e he hne, e, he, hptr, rfl⟩

/-- `events_` grows to at most twice the number of channels. -/
theorem Sound.size_le_of_full (h : Sound fd m t) (hwait : t.EpollWait ready fds) (hm : t.Crowd m) :
    (if t.eventsSize = fds.length then 2 * t.eventsSize else t.eventsSize) ≤
      max kInitEventListSize (2 * m) := by
  have hle := length_le_of_crowd hwait h.inOrder.consistent hm
  split_ifs with hfull
  · exact le_max_of_le_right (by omega)
  · exact h.size_le

variable [DecidableEq κ]

/-- The loop in `fillActiveChannels`. -/
theorem fillActiveChannels_eq {channels : ChannelMap κ} {size : ℕ} {events : List (EpollEvent κ)}
    (hsize : events.length ≤ size)
    (hfind : ∀ e ∈ events, channels (fd e.ptr) = some e.ptr) (active : Active κ) :
    fillActiveChannels fd channels size events active =
      .ok ((events.map fun e => (e.ptr, e.events)).foldl Active.push active) := by
  rw [fillActiveChannels, assertThat, check_of hsize, ok_bind]
  clear hsize
  induction events generalizing active with
  | nil => rfl
  | cons e events ih =>
    have hself := hfind e List.mem_cons_self
    have hne : channels (fd e.ptr) ≠ none := by
      rw [hself]
      exact Option.some_ne_none _
    simp only [List.foldlM_cons, assertThat, check_of hne, check_of hself, ok_bind, pure_eq_ok]
    exact ih (fun e' he' => hfind e' (List.mem_cons_of_mem e he')) _

/-- One poll. -/
theorem Sound.poll (h : Sound fd m t) (hwait : t.EpollWait ready fds) :
    ∃ t', t.step fd (.poll ready (some fds)) = .ok t' ∧ t'.loop = t.loop ∧
      t'.active.channels.Nodup ∧ t'.active.pairs = {p | p ∈ t.reports ready fds} ∧
      t'.eventsSize = if t.eventsSize = fds.length then 2 * t.eventsSize else t.eventsSize := by
  have hlength := length_reports hwait
  obtain ⟨hnodup, hpairs⟩ := Active.pairs_foldl_push (a := t.active.clear) rfl
    (nodup_reports hwait h.inOrder.consistent)
  have hfind : ∀ e ∈ fds.filterMap (report t.loop ready),
      t.loop.poller.channels (fd e.ptr) = some e.ptr := by
    intro e he
    obtain ⟨n, -, hn⟩ := List.mem_filterMap.mp he
    obtain ⟨e', he', rfl⟩ := Option.map_eq_some_iff.mp hn
    exact h.inOrder.consistent.find (.inl ((h.inOrder.consistent.interest_eq_some _ e').mp he').2.1)
  rw [Polling.step, Polling.poll]
  dsimp only
  by_cases hpos : 0 < (fds.filterMap (report t.loop ready)).length
  · rw [if_pos hpos, fillActiveChannels_eq (hlength.trans_le hwait.length_le) hfind, ok_bind,
      hlength]
    exact ⟨_, rfl, rfl, hnodup, hpairs, rfl⟩
  · -- there is nothing to report
    rw [if_neg hpos]
    rw [hlength] at hpos
    have hnone : t.reports ready fds = [] := by
      rw [reports, List.map_eq_nil_iff, ← List.length_eq_zero_iff]
      omega
    rw [hnone] at hnodup hpairs ⊢
    refine ⟨{ t with active := t.active.clear }, rfl, rfl, hnodup, hpairs,
      (if_neg fun heq => ?_).symm⟩
    have hge := h.size_ge
    rw [kInitEventListSize] at hge
    omega

/-- One event. -/
theorem Sound.step {e : Event κ} (h : Sound fd m t) (he : t.Admits m e)
    (ht : t.step fd e = .ok t') : Sound fd m t' := by
  cases e with
  | op op =>
    obtain ⟨s, hs, ht⟩ := bind_eq_ok.mp ht
    exact Except.ok.inj ht ▸ ⟨h.inOrder.step hs, h.size_ge, h.size_le⟩
  | poll ready result =>
    cases result with
    | none => exact Except.ok.inj ht ▸ ⟨h.inOrder, h.size_ge, h.size_le⟩
    | some fds =>
      have hwait := he.2 fds rfl
      obtain ⟨u, hu, hloop, -, -, hsize⟩ := h.poll hwait
      obtain rfl := Except.ok.inj (hu.symm.trans ht)
      have hle := h.size_le_of_full hwait he.1
      rw [← hsize] at hle
      refine ⟨hloop ▸ h.inOrder, h.size_ge.trans ?_, hle⟩
      rw [hsize]
      split_ifs
      · exact Nat.le_mul_of_pos_left _ Nat.two_pos
      · exact le_rfl

theorem Sound.activates {e : Event κ} (h : Sound fd m t) (he : t.Admits m e) :
    Activates m t e (t.step fd e) := by
  cases e with
  | op op =>
    intro t' ht
    obtain ⟨s, -, ht⟩ := bind_eq_ok.mp ht
    exact Except.ok.inj ht ▸ rfl
  | poll ready result =>
    cases result with
    | none => exact ⟨_, rfl, rfl⟩
    | some fds =>
      have hwait := he.2 fds rfl
      obtain ⟨u, hu, -, hnodup, hpairs, hsize⟩ := h.poll hwait
      obtain ⟨hsub, hall⟩ := pairs_reports hwait
      refine ⟨u, hu, hnodup, hpairs ▸ hsub, ?_, hsize ▸ h.size_le_of_full hwait he.1⟩
      by_cases hfull : t.eventsSize = fds.length
      · exact .inr (hsize.trans (if_pos hfull))
      · exact .inl (hpairs.trans (hall hfull))

/-- A poll that leaves out a channel doubles the size of `events_`. -/
theorem Sound.eventsSize_of_misses {e : Event κ} (h : Sound fd m t) (he : t.Admits m e)
    (hmiss : t.Misses fd e) (ht : t.step fd e = .ok t') : t'.eventsSize = 2 * t.eventsSize := by
  cases e with
  | op op => exact hmiss.elim
  | poll ready result =>
    cases result with
    | none => exact hmiss.elim
    | some fds =>
      obtain ⟨u, hu, -, -, hcase, -⟩ := h.activates he
      obtain rfl := Except.ok.inj (hu.symm.trans ht)
      exact hcase.resolve_left fun hall => hmiss _ ht hall.superset

/-- No event makes `events_` smaller. -/
theorem Sound.eventsSize_le {e : Event κ} (h : Sound fd m t) (he : t.Admits m e)
    (ht : t.step fd e = .ok t') : t.eventsSize ≤ t'.eventsSize := by
  cases e with
  | op op =>
    obtain ⟨s, -, ht⟩ := bind_eq_ok.mp ht
    exact Except.ok.inj ht ▸ le_rfl
  | poll ready result =>
    cases result with
    | none => exact Except.ok.inj ht ▸ le_rfl
    | some fds =>
      obtain ⟨u, hu, -, -, -, hsize⟩ := h.poll (he.2 fds rfl)
      obtain rfl := Except.ok.inj (hu.symm.trans ht)
      rw [hsize]
      split_ifs
      · exact Nat.le_mul_of_pos_left _ Nat.two_pos
      · exact le_rfl

theorem Sound.misses_le {events : List (Event κ)} (h : Sound fd m t)
    (hevents : Machine.Along (Polling.step fd) (Machine.onInput fun t e => t.Admits m e) t events) :
    t.eventsSize * 2 ^ t.misses fd events ≤ max kInitEventListSize (2 * m) := by
  induction events generalizing t with
  | nil => exact (Nat.mul_one _).trans_le h.size_le
  | cons e es ih =>
    cases ht : t.step fd e with
    | error f =>
      -- only an operation fails
      have hnot : ¬t.Misses fd e := by
        cases e with
        | op op => exact id
        | poll ready result =>
          cases result with
          | none => exact id
          | some fds =>
            obtain ⟨u, hu, -⟩ := h.poll (hevents.1.2 fds rfl)
            cases hu.symm.trans ht
      rw [misses, Machine.cost_cons_error ht, if_neg hnot]
      exact (Nat.mul_one _).trans_le h.size_le
    | ok t' =>
      have hrest := ih (h.step hevents.1 ht) (hevents.2 t' ht)
      rw [misses, Machine.cost_cons_ok ht, ← misses]
      split_ifs with hmiss
      · rw [h.eventsSize_of_misses hevents.1 hmiss ht] at hrest
        rwa [pow_add, pow_one, ← Nat.mul_assoc, Nat.mul_comm _ 2]
      · rw [Nat.zero_add]
        exact (Nat.mul_le_mul_right _ (h.eventsSize_le hevents.1 ht)).trans hrest

/-- **`EpollPoller::poll` finds the ready channels, and all of them but for a few polls.** Whatever
operations are carried out on channels between the polls, as long as at most `m` channels are in the
interest set at a poll: no assert of a poll fails; after it `activeChannels` holds ready channels
only, each once and with the flags that the kernel reports for it, and if one is left out, the size
of `events_` is doubled; this size is never more than `max 16 (2 * m)`; and if `k` polls of a run
leave out a channel, then `16 * 2 ^ k ≤ max 16 (2 * m)`. -/
theorem epoll_activates (fd : κ → ℕ) (m : ℕ) (events : List (Event κ))
    (hevents : Machine.Along (Polling.step fd) (Machine.onInput fun t e => t.Admits m e) start
      events) :
    Machine.Along (step fd) (Activates m) start events ∧
      kInitEventListSize * 2 ^ misses fd start events ≤ max kInitEventListSize (2 * m) :=
  ⟨hevents.of_invariant (Sound fd m) (sound_start fd m) (fun _ _ h he => h.activates he)
    fun _ _ _ h he ht => h.step he ht, (sound_start fd m).misses_le hevents⟩

/-- A channel whose peer hangs up. -/
theorem epoll_activates_hangup :
    Machine.Along (step fun n : ℕ => n) (Activates 1) start
      [.op (.update .enableReading 3), .poll (fun _ => POLLHUP) (some [3])] := by
  refine (epoll_activates (fun n : ℕ => n) 1 [.op (.update .enableReading 3),
    .poll (fun _ => POLLHUP) (some [3])] ⟨trivial, fun t ht => ⟨?_, fun _ _ => trivial⟩⟩).1
  obtain rfl := Except.ok.inj ht
  have hfd : ∀ (n : ℕ) (e : EpollEvent ℕ), Function.update (fun _ : ℤ => none) 3
      (some (⟨kReadEvent, 3⟩ : EpollEvent ℕ)) n = some e → n = 3 := by
    intro n e he
    by_contra hne
    rw [Function.update_of_ne (by omega)] at he
    cases he
  refine ⟨⟨{3}, le_rfl, fun c hc => ?_⟩, ?_⟩
  · by_contra hne
    rw [Finset.mem_singleton] at hne
    have hnew : Function.update (fun _ : ℕ => (-1 : ℤ)) 3 kAdded c = kAdded := hc
    rw [Function.update_of_ne hne] at hnew
    cases hnew
  · rintro _ ⟨⟩
    refine ⟨List.nodup_singleton 3, fun n hn => ?_, by decide, fun _ n e he _ => ?_⟩
    · obtain rfl := List.mem_singleton.mp hn
      exact ⟨⟨kReadEvent, 3⟩, rfl, by decide⟩
    · exact List.mem_singleton.mpr (hfd n e he)

end Polling

end EpollPoller

end MuduoRebuild
