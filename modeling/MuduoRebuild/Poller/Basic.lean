import Mathlib.Data.Set.Basic
import Mathlib.Logic.Function.Basic
import MuduoRebuild.Channel
import MuduoRebuild.Fault

/-!
# `Poller`: what the two pollers have in common

An event loop owns a poller. The owner of a channel changes `events_` and `update()` passes the
channel to `Poller::updateChannel` by way of the loop; `remove()` passes it to
`Poller::removeChannel`. A poller may read and write the channel's `index_`.

The channels are the elements of a type `κ`, and `fd c` is the descriptor of `c`, fixed at
construction. `Registry` is what a client of either poller is entitled to assume: which channels
are registered, and with which events.
-/

namespace MuduoRebuild

variable {π κ : Type}

/-- A poller and the data members `events_` and `index_` of the channels of its loop. -/
structure Loop (π κ : Type) where
  poller : π
  events : κ → Mask
  index : κ → ℤ

/-- `Poller::ChannelMap`, a map from descriptors to channels. -/
abbrev ChannelMap (κ : Type) := ℤ → Option κ

/-- The pure virtual functions of the class `Poller` that a channel reaches. -/
class Poller (π : Type) (κ : outParam (Type)) where
  updateChannel : (κ → ℕ) → Loop π κ → κ → Except Fault (Loop π κ)
  removeChannel : (κ → ℕ) → Loop π κ → κ → Except Fault (Loop π κ)

/-- The flags that `poll` and `epoll_wait` report for an open descriptor: the wanted ones among
those that are ready, and an error or a hang-up whether wanted or not. -/
def reported (ready : ℕ → Mask) (fd : ℕ) (events : Mask) : Mask :=
  ready fd &&& (events ||| (POLLERR ||| POLLHUP))

namespace Channel

/-- An operation on a channel by its owner. -/
inductive Op (κ : Type) where
  | update (u : Update) (c : κ)
  | remove (c : κ)

variable [DecidableEq κ] [Poller π κ] (fd : κ → ℕ)

/-- `enableReading`, …, `disableAll`, and `remove`, in a loop with the poller `π`. -/
def Op.perform (s : Loop π κ) : Op κ → Except Fault (Loop π κ)
  | .update u c =>
    Poller.updateChannel fd { s with events := Function.update s.events c (u.apply (s.events c)) } c
  | .remove c => Poller.removeChannel fd s c

end Channel

/-! ### The registry -/

/-- How far a channel has come. -/
inductive Status where
  | unseen
  | registered
  | removed
  deriving DecidableEq, Repr

/-- Which channels a poller knows, and which events they ask for. -/
structure Registry (κ : Type) where
  status : κ → Status
  events : κ → Mask

namespace Registry

open Channel (Op)

/-- No channel has been registered. -/
def empty : Registry κ := ⟨fun _ => .unseen, fun _ => Channel.kNonEvent⟩

section Step

variable [DecidableEq κ] (r : Registry κ)

def step : Op κ → Registry κ
  | .update u c =>
    { status := Function.update r.status c .registered
      events := Function.update r.events c (u.apply (r.events c)) }
  | .remove c => { r with status := Function.update r.status c .removed }

variable (u : Channel.Update) (c d : κ)

@[simp]
theorem status_step_update :
    (r.step (.update u c)).status d = if d = c then .registered else r.status d :=
  Function.update_apply ..

@[simp]
theorem events_step_update :
    (r.step (.update u c)).events d = if d = c then u.apply (r.events c) else r.events d :=
  Function.update_apply ..

@[simp]
theorem status_step_remove :
    (r.step (.remove c)).status d = if d = c then .removed else r.status d :=
  Function.update_apply ..

@[simp]
theorem events_step_remove : (r.step (.remove c)).events = r.events := rfl

end Step

/-- The operations a client may ask for: the first one on a channel, or the first after its
removal, is an enable; only a registered channel without events is removed. -/
def Permits (r : Registry κ) : Op κ → Prop
  | .update u c => u.isEnable = true ∨ r.status c = .registered
  | .remove c => r.status c = .registered ∧ r.events c = 0

/-- The descriptors to watch, with their masks. -/
def watched (fd : κ → ℕ) (r : Registry κ) : Set (ℕ × Mask) :=
  {p | ∃ c, r.status c = .registered ∧ r.events c ≠ 0 ∧ p = (fd c, r.events c)}

/-- The channels to activate when the descriptors are in the state `ready`, with the flags to
hand to `set_revents`. -/
def activated (fd : κ → ℕ) (r : Registry κ) (ready : ℕ → Mask) : Set (κ × Mask) :=
  {a | r.status a.1 = .registered ∧ r.events a.1 ≠ 0 ∧
    a.2 = reported ready (fd a.1) (r.events a.1) ∧ a.2 ≠ 0}

/-- What holds of every registry a client can produce. -/
structure Sane (r : Registry κ) : Prop where
  isEvents : ∀ c, Channel.IsEvents (r.events c)
  events_eq_zero : ∀ c, r.status c ≠ .registered → r.events c = 0

theorem sane_empty : (empty : Registry κ).Sane :=
  ⟨fun _ => Channel.isEvents_zero, fun _ _ => rfl⟩

theorem Sane.step [DecidableEq κ] {r : Registry κ} (h : r.Sane) {op : Op κ}
    (hop : r.Permits op) : (r.step op).Sane := by
  rcases op with ⟨u, c⟩ | c
  · constructor
    · intro d
      rw [events_step_update]
      split_ifs
      · exact (h.isEvents c).apply u
      · exact h.isEvents d
    · intro d hd
      rw [status_step_update] at hd
      rw [events_step_update]
      split_ifs at hd ⊢ with hdc
      · exact absurd rfl hd
      · exact h.events_eq_zero d hd
  · refine ⟨h.isEvents, ?_⟩
    intro d hd
    rw [status_step_remove] at hd
    rw [events_step_remove]
    split_ifs at hd with hdc
    · rw [hdc, hop.2]
    · exact h.events_eq_zero d hd

end Registry

end MuduoRebuild
