import Mathlib.Data.Int.CardIntervalMod
import MuduoRebuild.TcpServer.Connections

/-!
# The loops take turns

`EventLoopThreadPool::getNextLoop` gives out the loops of the pool one after the other, with the
index `next_` that goes back to zero at the end. So the connection made after `k` others belongs to
the loop `k mod numThreads`, whatever happens to the connections before it, and the loops have been
given the same number of connections, or one more (`loads_even`). Only connections made count for
this: a loop whose connections have been closed does not get more of the new ones.
-/

namespace MuduoRebuild

namespace TcpServer

open Fallible TcpConnection

/-- The loop of the connection that is made after `k` others. -/
def Setup.loopOf (c : Setup) (k : ℕ) : LoopId :=
  if c.numThreads = 0 then .base else .io (k % c.numThreads)

namespace World

variable {c : Setup} {w w' w'' : World} {k : ℕ} {thread loop : LoopId} {f : Functor} {l : Label}

/-- The number of connections that have been given to a loop. -/
def load (w : World) (loop : LoopId) : ℕ := Nat.count (fun k => (w.conn k).loop = loop) w.made

/-- No connection is made, and none gets another loop. -/
structure SameLoops (w w' : World) : Prop where
  next_eq : w'.next = w.next
  made_eq : w'.made = w.made
  loop_eq : ∀ k, (w'.conn k).loop = (w.conn k).loop

theorem SameLoops.trans (h : SameLoops w w') (h' : SameLoops w' w'') : SameLoops w w'' :=
  ⟨h'.next_eq.trans h.next_eq, h'.made_eq.trans h.made_eq,
    fun k => (h'.loop_eq k).trans (h.loop_eq k)⟩

theorem sameLoops_setState (w : World) (k : ℕ) (s : StateE) : SameLoops w (w.setState k s) := by
  refine ⟨rfl, rfl, fun j => ?_⟩
  by_cases hjk : j = k
  · rw [hjk, conn_setState]
  · exact congrArg Conn.loop (Function.update_of_ne hjk ..)

/-! ### Functors -/

theorem sameLoops_connEstablished (h : w.connEstablished thread k = .ok w') : SameLoops w w' := by
  obtain ⟨-, -, h⟩ := bind_eq_ok.mp h
  obtain ⟨-, -, h⟩ := bind_eq_ok.mp h
  obtain rfl := Except.ok.inj h
  exact (sameLoops_setState w k _).trans ⟨rfl, rfl, fun _ => rfl⟩

theorem sameLoops_connDestroyed (h : w.connDestroyed thread k = .ok w') : SameLoops w w' := by
  obtain ⟨-, -, h⟩ := bind_eq_ok.mp h
  obtain ⟨-, -, h⟩ := bind_eq_ok.mp h
  obtain rfl := Except.ok.inj h
  exact (sameLoops_setState w k _).trans ⟨rfl, rfl, fun _ => rfl⟩

theorem sameLoops_removeConnectionInLoop (h : w.removeConnectionInLoop thread k = .ok w') :
    SameLoops w w' := by
  obtain ⟨-, -, h⟩ := bind_eq_ok.mp h
  obtain ⟨-, -, h⟩ := bind_eq_ok.mp h
  obtain rfl := Except.ok.inj h
  exact ⟨rfl, rfl, fun _ => rfl⟩

/-- Whatever functor is executed, and in whatever thread. -/
theorem sameLoops_invoke (h : w.invoke thread f = .ok w') : SameLoops w w' := by
  cases f with
  | connEstablished k => exact sameLoops_connEstablished h
  | removeConnectionInLoop k => exact sameLoops_removeConnectionInLoop h
  | connDestroyed k => exact sameLoops_connDestroyed h

theorem sameLoops_runInLoop (h : w.runInLoop thread loop f = .ok w') : SameLoops w w' := by
  rw [runInLoop] at h
  split_ifs at h
  · exact sameLoops_invoke h
  · obtain rfl := Except.ok.inj h
    exact ⟨rfl, rfl, fun _ => rfl⟩

theorem sameLoops_handleClose (h : w.handleClose thread k = .ok w') : SameLoops w w' := by
  obtain ⟨-, -, h⟩ := bind_eq_ok.mp h
  obtain ⟨-, -, h⟩ := bind_eq_ok.mp h
  have hrecord : SameLoops w (w.record (.closed k)) := ⟨rfl, rfl, fun _ => rfl⟩
  exact hrecord.trans (sameLoops_runInLoop h)

/-! ### Turns -/

/-- The loops have taken turns so far, and it is the turn of the right one. -/
structure Turns (c : Setup) (w : World) : Prop where
  next_eq : c.numThreads ≠ 0 → w.next = w.made % c.numThreads
  loop_eq : ∀ k, k < w.made → (w.conn k).loop = c.loopOf k

theorem turns_init (c : Setup) : Turns c init where
  next_eq := fun _ => (Nat.zero_mod _).symm
  loop_eq := fun _ hk => absurd hk (Nat.not_lt_zero _)

theorem Turns.sameLoops (h : Turns c w) (hsame : SameLoops w w') : Turns c w' := by
  constructor
  · intro hne
    rw [hsame.next_eq, hsame.made_eq, h.next_eq hne]
  · intro k hk
    rw [hsame.loop_eq, h.loop_eq k (hsame.made_eq ▸ hk)]

/-- The index after the one of the loop whose turn it is. -/
theorem wrap_mod_succ {m n : ℕ} (hn : n ≠ 0) :
    (if n ≤ m % n + 1 then 0 else m % n + 1) = (m + 1) % n := by
  have hlt : m % n < n := Nat.mod_lt m (Nat.pos_of_ne_zero hn)
  rw [← Nat.mod_add_mod]
  split_ifs with hwrap
  · have hend : m % n + 1 = n := Nat.le_antisymm hlt hwrap
    rw [hend, Nat.mod_self]
  · rw [Nat.mod_eq_of_lt (Nat.lt_of_not_le hwrap)]

/-- `getNextLoop` gives out the loop whose turn it is. -/
theorem Turns.getNextLoop (h : Turns c w) (hok : w.getNextLoop c thread = .ok (w', loop)) :
    ∃ next, w' = { w with next } ∧ loop = c.loopOf w.made ∧
      (c.numThreads ≠ 0 → next = (w.made + 1) % c.numThreads) := by
  obtain ⟨-, -, hok⟩ := bind_eq_ok.mp hok
  split_ifs at hok with hzero
  · obtain ⟨rfl, rfl⟩ := Prod.mk.inj (Except.ok.inj hok)
    exact ⟨w.next, rfl, (if_pos hzero).symm, fun hne => absurd hzero hne⟩
  · obtain ⟨-, -, hok⟩ := bind_eq_ok.mp hok
    obtain ⟨rfl, rfl⟩ := Prod.mk.inj (Except.ok.inj hok)
    refine ⟨_, rfl, ?_, fun _ => ?_⟩
    · rw [Setup.loopOf, if_neg hzero, h.next_eq hzero]
    · rw [h.next_eq hzero, wrap_mod_succ hzero]

/-- A connection is accepted. -/
theorem Turns.newConnection (h : Turns c w) (hok : w.newConnection c thread = .ok w') :
    Turns c w' := by
  obtain ⟨-, -, hok⟩ := bind_eq_ok.mp hok
  obtain ⟨⟨v, ioLoop⟩, hgive, hok⟩ := bind_eq_ok.mp hok
  have hid : Turns c { w with nextConnId := w.nextConnId + 1 } := ⟨h.next_eq, h.loop_eq⟩
  obtain ⟨next, rfl, rfl, hnext⟩ := hid.getNextLoop hgive
  refine Turns.sameLoops ⟨hnext, fun k hk => ?_⟩ (sameLoops_runInLoop hok)
  dsimp only
  rcases Nat.lt_succ_iff_lt_or_eq.mp hk with hlt | rfl
  · rw [Function.update_of_ne hlt.ne, h.loop_eq k hlt]
  · rw [Function.update_self]

theorem Turns.act (h : Turns c w) (hok : w.act c l = .ok w') : Turns c w' := by
  cases l with
  | accept => exact h.newConnection hok
  | close k => exact h.sameLoops (sameLoops_handleClose hok)
  | disconnect k =>
    obtain rfl := Except.ok.inj hok
    exact h.sameLoops (sameLoops_setState w k _)
  | runFunctor loop =>
    rw [World.act] at hok
    split at hok
    · obtain rfl := Except.ok.inj hok
      exact h
    · next f fs _ =>
      have hpop : SameLoops w { w with queue := Function.update w.queue loop fs } :=
        ⟨rfl, rfl, fun _ => rfl⟩
      exact h.sameLoops (hpop.trans (sameLoops_invoke hok))

theorem Turns.step (h : Turns c w) (hok : w.step c l = .ok w') : Turns c w' := by
  rw [World.step] at hok
  split_ifs at hok
  · exact h.act hok
  · obtain rfl := Except.ok.inj hok
    exact h

/-- The connections of a loop are those with its number. -/
theorem Turns.load_eq (h : Turns c w) {i : ℕ} (hi : i < c.numThreads) :
    w.load (.io i) = w.made / c.numThreads + if i < w.made % c.numThreads then 1 else 0 := by
  have hpos : 0 < c.numThreads := Nat.zero_lt_of_lt hi
  have hturn : ∀ k, k < w.made → ((w.conn k).loop = .io i ↔ k ≡ i [MOD c.numThreads]) := by
    intro k hk
    rw [h.loop_eq k hk, Setup.loopOf, if_neg hpos.ne', LoopId.io.injEq, Nat.ModEq,
      Nat.mod_eq_of_lt hi]
  have hcount := Nat.count_modEq_card w.made hpos i
  rw [Nat.mod_eq_of_lt hi] at hcount
  rw [load, ← hcount]
  simp only [Nat.count_eq_card_filter_range]
  refine congrArg Finset.card (Finset.filter_congr fun k hk => ?_)
  exact hturn k (Finset.mem_range.mp hk)

/-- **The loops take turns.** In every state that a run reaches, whatever the threads have done to
the connections, the connection made after `k` others belongs to the base loop if the pool is empty,
and to the IO loop `k mod numThreads` otherwise; and each IO loop has been given one connection for
each full turn, and one more if it has had its turn since the last one. -/
theorem loads_even (c : Setup) {ls : List Label}
    (hrun : Machine.run (World.step c) init ls = .ok w) :
    (∀ k, k < w.made → (w.conn k).loop = c.loopOf k) ∧
      ∀ i, i < c.numThreads →
        w.load (.io i) = w.made / c.numThreads + if i < w.made % c.numThreads then 1 else 0 := by
  have hturns : Turns c w :=
    Machine.invariant_of_run (turns_init c) (fun _ _ _ h hok => Turns.step h hok) hrun
  exact ⟨hturns.loop_eq, fun _ hi => hturns.load_eq hi⟩

/-- Three loops and five connections; the one of the second loop closes in between, and the loop is
given the fifth connection all the same. -/
theorem loads_even_five : ∃ w, Machine.run (World.step ⟨"server", 3⟩) init
      [.accept, .accept, .runFunctor (.io 1), .close 1, .accept, .accept, .accept] = .ok w ∧
    w.load (.io 0) = 2 ∧ w.load (.io 1) = 2 ∧ w.load (.io 2) = 1 := by
  have hrun : Machine.run (World.step ⟨"server", 3⟩) init
      [.accept, .accept, .runFunctor (.io 1), .close 1, .accept, .accept, .accept] = .ok _ := rfl
  have heven := (loads_even _ hrun).2
  exact ⟨_, hrun, heven 0 (by decide), heven 1 (by decide), heven 2 (by decide)⟩

end World

end TcpServer

end MuduoRebuild
