import Mathlib.Algebra.Ring.Nat
import MuduoRebuild.TcpClient.Operations
import MuduoRebuild.Foundations.Run

/-!
# The delays between attempts

`Connector::retry` schedules the next attempt after `retryDelayMs_` and doubles it, up to
`kMaxRetryDelayMs`; `restart` puts it back to `kInitRetryDelayMs`. `start` does not: a client that
is stopped and connected again goes on with the delay that it had.

`delays_eq` says that the delays since the last `restart` are 500, 1000, 2000, … milliseconds, and
30000 from the seventh on, in every state that a run reaches.
-/

namespace MuduoRebuild

namespace TcpClient

/-- The delays for which retry timers have been scheduled since the last `restart`. -/
def delays (log : List Event) : List ℕ :=
  log.foldl (fun ds e =>
    match e with
    | .restart => []
    | .runAfter _ delayMs => ds ++ [delayMs]
    | _ => ds) []

/-- The delay of the attempt after `k` failures. -/
def backoff (k : ℕ) : ℕ := min (kInitRetryDelayMs * 2 ^ k) kMaxRetryDelayMs

/-- The event schedules no retry timer and is no `restart`. -/
def Event.isUntimed : Event → Bool
  | .restart | .runAfter .. => false
  | _ => true

section Log

variable {log es : List Event}

theorem delays_append_of_isUntimed (hes : ∀ e ∈ es, e.isUntimed = true) :
    delays (log ++ es) = delays log := by
  rw [delays, List.foldl_append, ← delays]
  generalize delays log = ds
  induction es with
  | nil => rfl
  | cons e es ih =>
    have he := hes e List.mem_cons_self
    have hrest := ih fun e' he' => hes e' (List.mem_cons_of_mem e he')
    cases e with
    | restart | runAfter => cases he
    | _ => exact hrest

theorem delays_concat_runAfter (timerId delayMs : ℕ) :
    delays (log ++ [.runAfter timerId delayMs]) = delays log ++ [delayMs] := by
  rw [delays, List.foldl_append]
  rfl

theorem delays_concat_restart : delays (log ++ [.restart]) = [] := by
  rw [delays, List.foldl_append]
  rfl

end Log

/-- Doubling a delay up to the maximum goes one step further. -/
theorem min_backoff_mul_two (k : ℕ) : min (backoff k * 2) kMaxRetryDelayMs = backoff (k + 1) := by
  have hpow : kInitRetryDelayMs * 2 ^ (k + 1) = kInitRetryDelayMs * 2 ^ k * 2 := by
    rw [Nat.pow_succ, Nat.mul_assoc]
  rw [backoff, backoff, hpow]
  omega

namespace World

variable {w w' : World} {l : Label} {es : List Event} {sockfd : ℕ}

/-- The delays so far are in order, and the next one is due. -/
structure Backed (w : World) : Prop where
  delays_eq : delays w.log = (List.range (delays w.log).length).map backoff
  retryDelayMs_eq : w.connector_.retryDelayMs_ = backoff (delays w.log).length

theorem backed_init : Backed init := ⟨rfl, by decide⟩

/-- Nothing is planned. -/
theorem Backed.quiet (h : Backed w) (hlog : w'.log = w.log ++ es)
    (hes : ∀ e ∈ es, e.isUntimed = true)
    (hdelay : w'.connector_.retryDelayMs_ = w.connector_.retryDelayMs_) : Backed w' := by
  have hdelays : delays w'.log = delays w.log := by rw [hlog, delays_append_of_isUntimed hes]
  exact ⟨hdelays ▸ h.delays_eq, hdelay.trans (hdelays ▸ h.retryDelayMs_eq)⟩

theorem Backed.same (h : Backed w) (hlog : w'.log = w.log)
    (hdelay : w'.connector_.retryDelayMs_ = w.connector_.retryDelayMs_) : Backed w' :=
  h.quiet (hlog.trans (List.append_nil _).symm) (List.forall_mem_nil _) hdelay

theorem Backed.record (h : Backed w) {e : Event} (he : e.isUntimed = true) : Backed (w.record e) :=
  h.quiet rfl (List.forall_mem_singleton.mpr he) rfl

/-- The next attempt is planned. -/
theorem Backed.retry (h : Backed w) (sockfd : ℕ) : Backed (w.retry sockfd) := by
  rw [retry_eq]
  split_ifs
  · have hdelays : delays (w.log ++ [.close sockfd,
        .runAfter w.nextTimer w.connector_.retryDelayMs_]) =
        delays w.log ++ [backoff (delays w.log).length] := by
      rw [List.append_cons, delays_concat_runAfter,
        delays_append_of_isUntimed (List.forall_mem_singleton.mpr rfl), h.retryDelayMs_eq]
    have hlength : (delays w.log ++ [backoff (delays w.log).length]).length =
        (delays w.log).length + 1 := List.length_append
    constructor
    · dsimp only
      rw [hdelays, hlength, List.range_succ, List.map_append, ← h.delays_eq]
      rfl
    · dsimp only
      rw [hdelays, hlength, h.retryDelayMs_eq, min_backoff_mul_two]
  · exact h.quiet rfl (List.forall_mem_singleton.mpr rfl) rfl

theorem Backed.attempted (h : Backed w) {r : Option Errno} (hattempted : Attempted w r w') :
    Backed w' := by
  have hnext : Backed { w with nextSocket := w.nextSocket + 1 } := h.same rfl rfl
  have hsocket : Backed w.withSocket := hnext.record rfl
  cases hattempted with
  | connecting => exact hsocket.same rfl rfl
  | retry => exact hsocket.retry _
  | close => exact hsocket.record rfl

/-- `restart` begins anew. -/
theorem backed_restarted (w : World) : Backed w.restarted := by
  have hnone : delays w.restarted.log = [] := delays_concat_restart
  constructor
  · rw [hnone]
    rfl
  · rw [hnone]
    rfl

theorem Backed.begins (h : Backed w) {v : World} {r : Option Errno} (hbegins : Begins w l v r) :
    Backed v := by
  cases hbegins with
  | connect => exact h.quiet rfl (List.forall_mem_singleton.mpr rfl) rfl
  | runTimer | startInLoop => exact h.same rfl rfl
  | restart => exact backed_restarted _

theorem Backed.outcome (h : Backed w) {channel : Watch} {revents : Mask} {err : ℕ}
    (houtcome : Outcome w channel revents err w') : Backed w' := by
  have hdetached : Backed (w.detached channel) := h.same rfl rfl
  have hstate : Backed ((w.detached channel).setState .kConnected) := hdetached.same rfl rfl
  have hconnected : Backed (w.connected channel) := hstate.record rfl
  cases houtcome with
  | retry => exact hdetached.retry _
  | soError => exact hdetached.record rfl
  | newConnection => exact hconnected.quiet rfl (List.forall_mem_singleton.mpr rfl) rfl
  | close => exact hconnected.record rfl
  | stay => exact h

theorem Backed.step (h : Backed w) (hok : w.step l = .ok w') : Backed w' := by
  cases taken_of_step hok with
  | stay => exact h
  | attempt hbegins hattempted => exact (h.begins hbegins).attempted hattempted
  | disconnect =>
    obtain ⟨conns, heq, -⟩ := exists_shutdown { w with connect_ := false }
    rw [heq]
    exact h.same rfl rfl
  | connect | stopInLoop | stop => exact h.quiet rfl (List.forall_mem_singleton.mpr rfl) rfl
  | handleEvent => exact h.outcome (outcome_handled ..)
  | enableRetry | expire | startInLoop | resetChannel | cancelInLoop | connDestroyed
  | handleClose => exact h.same rfl rfl

/-- **The delays double up to the maximum.** In every state that a run reaches, whatever the calls,
the results of the attempts and the events on their channels have been, the delays for which retry
timers have been scheduled since the last `restart` are 500, 1000, 2000, … milliseconds in this
order, none of them above 30000, and so will be the next one. -/
theorem delays_eq {ls : List Label} (hrun : Machine.run World.step init ls = .ok w) :
    delays w.log = (List.range (delays w.log).length).map backoff ∧
      w.connector_.retryDelayMs_ = backoff (delays w.log).length := by
  have hbacked : Backed w :=
    Machine.invariant_of_run backed_init (fun _ _ _ h hok => Backed.step h hok) hrun
  exact ⟨hbacked.delays_eq, hbacked.retryDelayMs_eq⟩

/-- The server refuses three times. Then the client is stopped and connects again, and the delay is
not put back. -/
theorem delays_eq_refused : ∃ w, Machine.run World.step init
      [.call true (some .ECONNREFUSED) .connect, .expire [0], .runTimer (some .ECONNREFUSED),
        .expire [1], .runTimer (some .ECONNREFUSED), .call true none .stop,
        .call true (some .ECONNREFUSED) .connect] = .ok w ∧
    delays w.log = [500, 1000, 2000, 4000] ∧ w.connector_.retryDelayMs_ = 8000 ∧
    delays w.log = (List.range (delays w.log).length).map backoff := by
  have hrun : Machine.run World.step init
      [.call true (some .ECONNREFUSED) .connect, .expire [0], .runTimer (some .ECONNREFUSED),
        .expire [1], .runTimer (some .ECONNREFUSED), .call true none .stop,
        .call true (some .ECONNREFUSED) .connect] = .ok _ := rfl
  exact ⟨_, hrun, rfl, rfl, (delays_eq hrun).1⟩

end World

end TcpClient

end MuduoRebuild
