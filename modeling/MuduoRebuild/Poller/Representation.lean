import Mathlib
import MuduoRebuild.Foundations.Run
import MuduoRebuild.Poller.PollPoller

/-!
# The representation of the channels in `PollPoller`

`PollPoller` keeps its channels in a map and their `pollfd`s in a vector, and each channel stores
the position of its entry. `Represented` says that the three fit: the stored positions are a
bijection onto the vector, and each entry has the descriptor of its channel, replaced or not, and
the events of its channel.

Clients that never use a channel again after its removal keep it up, whether or not they enable
channels they have silenced (`representation_invariant`). So the asserts hold, the channel of the
last entry is always found, and a removal leaves the entries of all other channels alone.
-/

namespace MuduoRebuild

open Channel

variable {κ : Type}

/-- The operations of a client that uses no channel after its removal: the first update of a channel
is an enable, and only a registered channel without events is removed. -/
def Registry.PermitsOnce (r : Registry κ) : Op κ → Prop
  | .update u c => r.status c = .registered ∨ r.status c = .unseen ∧ u.isEnable = true
  | .remove c => r.status c = .registered ∧ r.events c = 0

theorem Registry.PermitsOnce.permits {r : Registry κ} {op : Op κ} (h : r.PermitsOnce op) :
    r.Permits op := by
  rcases op with ⟨u, c⟩ | c
  · exact h.symm.imp And.right id
  · exact h

namespace PollPoller

/-- The channels in the map `channels_`. -/
def registered (fd : κ → ℕ) (s : Loop (PollPoller κ) κ) : Set κ :=
  {c | s.poller.channels (fd c) = some c}

/-- The entry of a channel, at the position it has stored. -/
def entryOf (s : Loop (PollPoller κ) κ) (c : κ) : Except Fault PollFd :=
  element s.poller.pollfds (s.index c)

/-- The map, the vector and the stored positions fit. -/
structure Represented (fd : κ → ℕ) (s : Loop (PollPoller κ) κ) : Prop where
  keyed : ∀ n c, s.poller.channels n = some c → n = fd c
  bijOn_index : Set.BijOn s.index (registered fd s) (Set.Ico 0 (s.poller.pollfds.length : ℤ))
  entryOf_eq : ∀ c ∈ registered fd s, ∃ pfd, entryOf s c = .ok pfd ∧
    (pfd.fd = fd c ∨ pfd.fd = -(fd c : ℤ) - 1) ∧ pfd.events.signExtend 32 = s.events c

/-- The removal of a channel leaves every other one registered, with the entry it has. -/
def LeavesOthers (fd : κ → ℕ) (s : Loop (PollPoller κ) κ) :
    Op κ → Except Fault (Loop (PollPoller κ) κ) → Prop
  | .update _ _, _ => True
  | .remove c, r => ∀ s', r = .ok s' → ∀ d ∈ registered fd s, d ≠ c →
      d ∈ registered fd s' ∧ entryOf s' d = entryOf s d

/-! ### From the registry to the representation -/

variable {fd : κ → ℕ} {s s' : Loop (PollPoller κ) κ} {r : Registry κ} {order : List κ} {c : κ}
  {e : κ → PollFd}

theorem Represents.mem_registered_iff (h : Represents fd s r order e) :
    c ∈ registered fd s ↔ r.status c = .registered := by
  rw [registered, Set.mem_ofPred_eq, h.find_eq]
  split_ifs with hc
  · exact iff_of_true rfl hc
  · exact iff_of_false (fun hnone => by cases hnone) hc

theorem Represents.entryOf_eq (h : Represents fd s r order e) (hc : r.status c = .registered) :
    entryOf s c = .ok (e c) := by
  obtain ⟨i, -, hindex, hpfd, -⟩ := h.exists_index hc
  rw [entryOf, hindex]
  exact element_natCast hpfd

/-- The stored positions of the registered channels are the positions of the vector. -/
theorem Represents.bijOn_index (h : Represents fd s r order e) :
    Set.BijOn s.index (registered fd s) (Set.Ico 0 (s.poller.pollfds.length : ℤ)) := by
  have hlength : s.poller.pollfds.length = order.length := by rw [h.pollfds_eq, List.length_map]
  refine ⟨?mapsTo, ?injOn, ?surjOn⟩
  case mapsTo =>
    intro c hc
    obtain ⟨i, hi, hindex, -⟩ := h.exists_index (h.mem_registered_iff.mp hc)
    obtain ⟨hlt, -⟩ := List.getElem?_eq_some_iff.mp hi
    rw [hindex, Set.mem_Ico, hlength]
    omega
  case injOn =>
    intro c hc d hd hcd
    obtain ⟨i, hi, hindex, -⟩ := h.exists_index (h.mem_registered_iff.mp hc)
    obtain ⟨j, hj, hindex', -⟩ := h.exists_index (h.mem_registered_iff.mp hd)
    obtain rfl : i = j := by
      rw [hindex, hindex'] at hcd
      exact Int.natCast_inj.mp hcd
    exact Option.some.inj (hi.symm.trans hj)
  case surjOn =>
    rintro i ⟨hpos, hlt⟩
    obtain ⟨n, rfl⟩ := Int.eq_ofNat_of_zero_le hpos
    have hn : n < order.length := by omega
    refine ⟨order[n], ?_, h.index_eq n _ (List.getElem?_eq_getElem hn)⟩
    exact h.mem_registered_iff.mpr ((h.mem_iff _).mp (List.getElem_mem hn))

theorem Represents.represented (h : Represents fd s r order e) (hr : r.Sane)
    (hkeyed : ∀ n c, s.poller.channels n = some c → n = fd c) : Represented fd s where
  keyed := hkeyed
  bijOn_index := h.bijOn_index
  entryOf_eq := by
    intro c hc
    have hreg := h.mem_registered_iff.mp hc
    have hentry := h.entryFor c ((h.mem_iff c).mpr hreg)
    refine ⟨e c, h.entryOf_eq hreg, hentry.fd_eq, ?_⟩
    rw [hentry.events_eq, h.events_eq, (hr.isEvents c).signExtend_setWidth]

/-! ### One operation -/

/-- What the client has done and what the poller holds, side by side. -/
structure Sound (fd : κ → ℕ) (s : Loop (PollPoller κ) κ) (r : Registry κ) : Prop where
  sane : r.Sane
  keyed : ∀ n c, s.poller.channels n = some c → n = fd c
  represents : ∃ order e, Represents fd s r order e

theorem sound_init : Sound fd init (Registry.empty : Registry κ) where
  sane := Registry.sane_empty
  keyed := fun n c h => by cases h
  represents := ⟨[], entry fd fun _ => kNonEvent, tracks_init.represents⟩

theorem Sound.represented (h : Sound fd s r) : Represented fd s := by
  obtain ⟨order, e, hrep⟩ := h.represents
  exact hrep.represented h.sane h.keyed

variable [DecidableEq κ] {op : Op κ}

/-- Every operation of the client succeeds, and it keeps what the poller holds sound. -/
theorem Sound.step (h : Sound fd s r) (hfd : Function.Injective fd) (hop : r.PermitsOnce op) :
    ∃ s', op.perform fd s = .ok s' ∧ Sound fd s' (r.step op) ∧ LeavesOthers fd s op (.ok s') := by
  obtain ⟨order, e, hrep⟩ := h.represents
  have hsane := h.sane.step hop.permits
  rcases op with ⟨u, c⟩ | c
  · rcases hop with hc | ⟨hc, hu⟩
    · obtain ⟨s', hs, hrep', hchannels, -⟩ := hrep.modify (u := u) hc
      exact ⟨s', hs, ⟨hsane, hchannels ▸ h.keyed, order, _, hrep'⟩, trivial⟩
    · have hne := (h.sane.isEvents c).apply_ne_zero hu
      obtain ⟨s', hs, hrep', hchannels, -⟩ := hrep.register hfd hc hne
      refine ⟨s', hs, ⟨hsane, fun n d hd => ?_, order ++ [c], _, hrep'⟩, trivial⟩
      rw [hchannels, Function.update_apply] at hd
      split_ifs at hd with hn
      · obtain rfl := Option.some.inj hd
        exact hn
      · exact h.keyed n d hd
  · obtain ⟨s', order', hs, hrep', hchannels, -⟩ := hrep.remove hfd hop.1 hop.2
    refine ⟨s', hs, ⟨hsane, fun n d hd => ?_, order', e, hrep'⟩, ?_⟩
    · rw [hchannels, Function.update_apply] at hd
      split_ifs at hd with hn
      exact h.keyed n d hd
    · -- the positions may change, but the entries that belong to the channels do not
      rintro s'' hs'' d hd hdc
      obtain rfl := Except.ok.inj hs''
      have hreg := hrep.mem_registered_iff.mp hd
      have hreg' : (r.step (.remove c)).status d = .registered := by
        rw [Registry.status_step_remove, if_neg hdc, hreg]
      exact ⟨hrep'.mem_registered_iff.mpr hreg',
        (hrep'.entryOf_eq hreg').trans (hrep.entryOf_eq hreg).symm⟩

/-! ### Runs -/

/-- **The representation invariant.** For channels with distinct descriptors and every sequence of
operations of a client that uses no channel after its removal, every operation succeeds, so that
all asserts hold and every lookup finds a channel; after it the stored positions are a bijection
from the registered channels onto the vector, with the entries that belong to them; and a removal
leaves the entries of all other channels alone. -/
theorem representation_invariant (hfd : Function.Injective fd) (ops : List (Op κ))
    (hops : Machine.Meets Registry.step Registry.PermitsOnce Registry.empty ops) :
    Machine.Along (Op.perform fd)
      (fun s op r => Machine.Succeeds (Represented fd) r ∧ LeavesOthers fd s op r) init ops := by
  refine hops.along (Sound fd) sound_init (fun s r op h hop => ?_) fun s r op s' h hop hs => ?_
  · obtain ⟨s', hs, h', hothers⟩ := h.step hfd hop
    rw [hs]
    exact ⟨⟨s', rfl, h'.represented⟩, hothers⟩
  · obtain ⟨s'', hs'', h', -⟩ := h.step hfd hop
    obtain rfl := Except.ok.inj (hs''.symm.trans hs)
    exact h'

/-- Three channels are registered and the first two are silenced; the first one is enabled again and
the second one removed, so that the third one takes its place. -/
theorem representation_invariant_swapped :
    Machine.Along (Op.perform fun n : ℕ => n)
      (fun s op r => Machine.Succeeds (Represented fun n : ℕ => n) r ∧
        LeavesOthers (fun n : ℕ => n) s op r) init
      [.update .enableReading 3, .update .enableWriting 4, .update .enableReading 5,
        .update .disableAll 3, .update .disableWriting 4, .update .enableReading 3, .remove 4] :=
  representation_invariant Function.injective_id _
    ⟨.inr ⟨rfl, rfl⟩, .inr ⟨rfl, rfl⟩, .inr ⟨rfl, rfl⟩, .inl rfl, .inl rfl, .inl rfl, ⟨rfl, rfl⟩,
      trivial⟩

end PollPoller

end MuduoRebuild
