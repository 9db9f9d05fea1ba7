import Mathlib.Algebra.Order.BigOperators.Group.Finset
import MuduoRebuild.Foundations.Drain
import MuduoRebuild.TcpServer.Connections

/-!
# The queues of a server run empty

When nothing new comes in, the loops of a server have a bounded number of functors to run. Each of
them takes its connection to the next phase, and puts at most the next functor for it into a queue:
`work` counts what is left, and every functor takes one from it. So the loops come to rest after the
same number of functors in whatever order they run them, and then every connection that has been
closed is removed and destroyed, and every other one is established and in `connections_`
(`drains`).
-/

namespace MuduoRebuild

namespace TcpServer

open Fallible TcpConnection

namespace Phase

variable {p : Phase} {k : ℕ} {loop : LoopId} {f : Functor}

/-- The number of functors that have still to be run. -/
def left : Phase → ℕ
  | opened | gone => 0
  | queued | removed => 1
  | leaving => 2

theorem left_eq_zero_iff : p.left = 0 ↔ p.functor? k = none := by
  cases p with
  | opened | gone => exact iff_of_true rfl rfl
  | queued | leaving | removed =>
    exact iff_of_false (Nat.succ_ne_zero _) (Option.some_ne_none _)

theorem left_next (hf : p.functor? k = some f) : p.left = p.next.left + 1 := by
  cases p with
  | queued | leaving | removed => rfl
  | opened | gone => cases hf

theorem left_le_two (p : Phase) : p.left ≤ 2 := by
  cases p <;> decide

/-- The functors do not close a connection. -/
theorem closed_mem_history_next :
    .closed k ∈ p.next.history k loop ↔ .closed k ∈ p.history k loop := by
  cases p <;> simp [next, history]

end Phase

namespace World

variable {c : Setup} {w v v' : World} {k : ℕ} {p : Phase} {l : Label}

/-- A loop runs a functor. -/
def Busy (w : World) : Label → Prop
  | .runFunctor loop => w.queue loop ≠ []
  | .accept | .close _ | .disconnect _ => False

instance (w : World) (l : Label) : Decidable (w.Busy l) :=
  match l with
  | .runFunctor loop => inferInstanceAs (Decidable (w.queue loop ≠ []))
  | .accept | .close _ | .disconnect _ => inferInstanceAs (Decidable False)

/-- No loop has a functor to run. -/
def Idle (w : World) : Prop := ∀ loop, w.queue loop = []

/-- The number of functors that have still to be run for a connection. -/
def remaining (w : World) (k : ℕ) : ℕ :=
  (if .closed k ∈ w.historyOf k then 4 else 1) - (w.historyOf k).length

/-- The number of functors that have still to be run. -/
def work (w : World) : ℕ := ∑ k ∈ Finset.range w.made, w.remaining k

theorem InPhase.closed_mem_iff (h : InPhase w k p) :
    .closed k ∈ w.log ↔ .closed k ∈ p.history k (w.conn k).loop := by
  rw [← h.history, mem_historyOf (k := k) rfl]

theorem InPhase.remaining_eq (h : InPhase w k p) : w.remaining k = p.left := by
  rw [remaining, h.history]
  cases p <;> simp [Phase.history, Phase.left]

/-- As long as there is work, some queue is not empty. -/
theorem Orderly.exists_busy (h : Orderly c w) (hwork : w.work ≠ 0) : ∃ l, w.Busy l := by
  obtain ⟨k, hk, hleft⟩ := Finset.exists_ne_zero_of_sum_ne_zero hwork
  obtain ⟨p, hp⟩ := h.inPhase k (Finset.mem_range.mp hk)
  rw [hp.remaining_eq] at hleft
  refine ⟨.runFunctor (p.home (w.conn k).loop), fun hempty => hleft ?_⟩
  rw [Phase.left_eq_zero_iff (k := k)]
  have hwaiting := hp.waiting (p.home (w.conn k).loop)
  rw [waitingFor, hempty, Phase.waiting, if_pos rfl] at hwaiting
  exact Option.toList_eq_nil_iff.mp hwaiting.symm

/-- As long as some queue is not empty, there is work. -/
theorem Orderly.idle_iff (h : Orderly c w) : Idle w ↔ w.work = 0 := by
  constructor
  · intro hidle
    by_contra hwork
    obtain ⟨l, hbusy⟩ := h.exists_busy hwork
    cases l with
    | runFunctor loop => exact hbusy (hidle loop)
    | accept | close | disconnect => exact hbusy
  · intro hwork loop
    cases hqueue : w.queue loop with
    | nil => rfl
    | cons f fs =>
      obtain ⟨hk, p, hp, hf, -⟩ := h.due hqueue
      have hnone := Finset.sum_eq_zero_iff.mp hwork f.conn (Finset.mem_range.mpr hk)
      rw [hp.remaining_eq, Phase.left_eq_zero_iff (k := f.conn), hf] at hnone
      cases hnone

theorem Orderly.work_le (h : Orderly c w) : w.work ≤ 2 * w.made := by
  have hsum : w.work ≤ ∑ _k ∈ Finset.range w.made, 2 := by
    refine Finset.sum_le_sum fun k hk => ?_
    obtain ⟨p, hp⟩ := h.inPhase k (Finset.mem_range.mp hk)
    rw [hp.remaining_eq]
    exact p.left_le_two
  rwa [Finset.sum_const_nat fun _ _ => rfl, Finset.card_range, Nat.mul_comm] at hsum

/-- A connection goes to its next phase, which is one functor less to be run. -/
theorem Keeps.work_eq (h : Keeps k w v) (hk : k < w.made)
    (hleft : w.remaining k = v.remaining k + 1) : w.work = v.work + 1 := by
  have hmem : k ∈ Finset.range w.made := Finset.mem_range.mpr hk
  have hrest : ∑ j ∈ (Finset.range w.made).erase k, v.remaining j =
      ∑ j ∈ (Finset.range w.made).erase k, w.remaining j := by
    refine Finset.sum_congr rfl fun j hj => ?_
    rw [remaining, remaining, h.history j (Finset.ne_of_mem_erase hj)]
  rw [work, work, h.made_eq, ← Finset.add_sum_erase _ _ hmem, ← Finset.add_sum_erase _ _ hmem,
    hrest, hleft]
  omega

/-! ### Running the functors -/

/-- Only functors have been run since. -/
structure Since (c : Setup) (w v : World) : Prop where
  orderly : Orderly c v
  made_eq : v.made = w.made
  closed_iff : ∀ k, .closed k ∈ v.log ↔ .closed k ∈ w.log

/-- A loop runs a functor. -/
theorem Since.exists_step (h : Since c w v) (hbusy : v.Busy l) :
    ∃ v', v.step c l = .ok v' ∧ Since c w v' ∧ v.work = v'.work + 1 := by
  cases l with
  | accept | close | disconnect => exact hbusy.elim
  | runFunctor loop =>
    obtain ⟨f, fs, hqueue⟩ := List.exists_cons_of_ne_nil hbusy
    obtain ⟨v', p, hok, hk, hkeeps, hp, hf, hp', -⟩ := h.orderly.exists_act_runFunctor hqueue
    refine ⟨v', (if_pos trivial).trans hok,
      ⟨h.orderly.keeps hk hkeeps hp', hkeeps.made_eq.trans h.made_eq, fun k => ?_⟩, ?_⟩
    · rw [← h.closed_iff]
      by_cases hkf : k = f.conn
      · rw [hkf, hp'.closed_mem_iff, hp.closed_mem_iff, hkeeps.loop_eq,
          Phase.closed_mem_history_next]
      · rw [← mem_historyOf (k := k) rfl, ← mem_historyOf (w := v) (k := k) rfl,
          hkeeps.history k hkf]
    · refine hkeeps.work_eq hk ?_
      rw [hp.remaining_eq, hp'.remaining_eq, Phase.left_next hf]

theorem drains_work (c : Setup) (w : World) :
    Machine.Drains (World.step c) Busy (Since c w) work where
  exists_step := fun _ _ h hbusy => h.exists_step hbusy
  exists_input := fun _ h hwork => h.orderly.exists_busy hwork

/-- The connections of a server at rest: those that had been closed are destroyed and not in
`connections_`, and the others are established and in it. -/
structure Settled (w v : World) : Prop where
  made_eq : v.made = w.made
  stays : ∀ k, k < w.made → .closed k ∉ w.log →
    v.historyOf k = [.established k (v.conn k).loop] ∧ v.connections (v.conn k).name = some k
  leaves : ∀ k, k < w.made → .closed k ∈ w.log →
    v.historyOf k = [.established k (v.conn k).loop, .closed k, .removed k (some k),
      .destroyed k (v.conn k).loop] ∧ v.connections (v.conn k).name = none

/-- At rest, a connection is open or gone. -/
theorem InPhase.of_idle (h : InPhase w k p) (hidle : Idle w) : p = .opened ∨ p = .gone := by
  have hwaiting := h.waiting (p.home (w.conn k).loop)
  rw [waitingFor, hidle, Phase.waiting, if_pos rfl] at hwaiting
  cases p with
  | opened => exact .inl rfl
  | gone => exact .inr rfl
  | queued | leaving | removed => cases hwaiting

theorem Since.settled (h : Since c w v) (hidle : Idle v) : Settled w v := by
  refine ⟨h.made_eq, fun k hk hnot => ?_, fun k hk hclosed => ?_⟩
  · obtain ⟨p, hp⟩ := h.orderly.inPhase k (h.made_eq ▸ hk)
    rw [← h.closed_iff, hp.closed_mem_iff] at hnot
    rcases hp.of_idle hidle with rfl | rfl
    · exact ⟨hp.history, hp.entry⟩
    · exact absurd (by simp [Phase.history]) hnot
  · obtain ⟨p, hp⟩ := h.orderly.inPhase k (h.made_eq ▸ hk)
    rw [← h.closed_iff, hp.closed_mem_iff] at hclosed
    rcases hp.of_idle hidle with rfl | rfl
    · simp [Phase.history] at hclosed
    · exact ⟨hp.history, hp.entry⟩

/-- The order that every run keeps. -/
theorem orderly_of_run {ls : List Label}
    (honce : Machine.Along (World.step c) (Machine.onInput ClosesOnce) init ls)
    (hrun : Machine.run (World.step c) init ls = .ok w) : Orderly c w := by
  refine Machine.Along.of_run_eq_ok ?_ (orderly_init c) hrun
  refine honce.of_invariant (Orderly c) (orderly_init c) ?_ ?_
  · intro w l h hl w' hok
    obtain ⟨v, hok', h', -⟩ := h.step hl
    obtain rfl := Except.ok.inj (hok'.symm.trans hok)
    exact h'
  · intro w l w' h hl hok
    obtain ⟨v, hok', h', -⟩ := h.step hl
    obtain rfl := Except.ok.inj (hok'.symm.trans hok)
    exact h'

/-- **The queues run empty.** After any run in which no connection calls its close callback twice,
let the loops run the functors of their queues, in any order, and nothing else happen. No step
fails; the number of functors is at most `work`, and it is `work` exactly when all queues are empty;
then every connection that had been closed has been removed and destroyed, and every other one is
established and in `connections_`. Some order gets there, and `work` is at most twice the number of
connections. -/
theorem drains (c : Setup) {ls : List Label}
    (honce : Machine.Along (World.step c) (Machine.onInput ClosesOnce) init ls)
    (hrun : Machine.run (World.step c) init ls = .ok w) :
    (∀ fs, Machine.Along (World.step c) (Machine.onInput Busy) w fs →
      ∃ v, Machine.run (World.step c) w fs = .ok v ∧ fs.length ≤ w.work ∧
        (fs.length = w.work ↔ Idle v) ∧ (Idle v → Settled w v)) ∧
      (∃ fs, Machine.Along (World.step c) (Machine.onInput Busy) w fs ∧ fs.length = w.work) ∧
      w.work ≤ 2 * w.made := by
  have horderly : Orderly c w := orderly_of_run honce hrun
  have hsince : Since c w w := ⟨horderly, rfl, fun _ => Iff.rfl⟩
  refine ⟨fun fs hbusy => ?_, (drains_work c w).exists_along hsince, horderly.work_le⟩
  obtain ⟨v, hok, hv, hwork⟩ := (drains_work c w).exists_run hsince hbusy
  refine ⟨v, hok, Nat.le.intro (Nat.add_comm .. ▸ hwork.symm), ?_, hv.settled⟩
  rw [hv.orderly.idle_iff, hwork]
  omega

/-- Two connections: the first one closes before the second one is established. Three functors are
left, for the base loop and both IO loops. -/
theorem drains_crossing : ∃ w v, Machine.run (World.step ⟨"server", 2⟩) init
      [.accept, .accept, .runFunctor (.io 0), .close 0] = .ok w ∧ w.work = 3 ∧
    Machine.run (World.step ⟨"server", 2⟩) w
      [.runFunctor .base, .runFunctor (.io 1), .runFunctor (.io 0)] = .ok v ∧ Settled w v := by
  have hrun : Machine.run (World.step ⟨"server", 2⟩) init
      [.accept, .accept, .runFunctor (.io 0), .close 0] = .ok _ := rfl
  have hwork : ∀ w, Machine.run (World.step ⟨"server", 2⟩) init
      [.accept, .accept, .runFunctor (.io 0), .close 0] = .ok w → w.work = 3 := by
    intro w hw
    obtain rfl := Except.ok.inj (hrun.symm.trans hw)
    rfl
  obtain ⟨v, hok, -, hiff, hsettled⟩ := (drains _ (by decide) hrun).1
    [.runFunctor .base, .runFunctor (.io 1), .runFunctor (.io 0)] (by decide)
  exact ⟨_, v, hrun, hwork _ hrun, hok, hsettled (hiff.mp (hwork _ hrun).symm)⟩

end World

end TcpServer

end MuduoRebuild
