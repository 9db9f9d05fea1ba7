import MuduoRebuild.Foundations.History
import MuduoRebuild.Foundations.Run
import MuduoRebuild.TcpClient.Operations

/-!
# `stop` is final

After `TcpClient::stop`, and until `TcpClient::connect` is called again, no connection is passed to
the client and no retry timer is scheduled: `StopIsFinal` says so of the log. The attempt in
progress goes on, and a timer that has expired still makes one more. But both flags `connect_` are
false, that of the client and that of the connector; whatever would make a connection or schedule
a timer asks the second, and `restart`, which sets it, is called only if the first is true.
-/

namespace MuduoRebuild

namespace TcpClient

open History

/-- `stop` has been called, and `connect` has not been called since. -/
def Stopped (log : List Event) : Prop := Standing .stop .connect log

/-- Nothing has been made or planned after a `stop`. -/
structure StopIsFinal (log : List Event) : Prop where
  newConnection : ∀ sockfd, Whenever (.newConnection sockfd) (¬Stopped ·) log
  runAfter : ∀ timerId delayMs, Whenever (.runAfter timerId delayMs) (¬Stopped ·) log

section Log

variable {log es : List Event} {e : Event}

/-- Events after which a client is stopped if it was, and that make or plan nothing. -/
def Event.isMute : Event → Bool
  | .connect | .stop | .newConnection _ | .runAfter .. => false
  | _ => true

theorem stopped_append_iff (hes : ∀ e ∈ es, e.isMute = true) :
    Stopped (log ++ es) ↔ Stopped log :=
  standing_append_iff (fun hstop => by cases hes _ hstop) fun hconnect => by cases hes _ hconnect

theorem not_stopped_append (h : ¬Stopped log) (hes : .stop ∉ es) : ¬Stopped (log ++ es) := by
  induction es generalizing log with
  | nil => rwa [List.append_nil]
  | cons e es ih =>
    rw [List.mem_cons, not_or] at hes
    rw [List.append_cons]
    refine ih (fun hstopped => ?_) hes.2
    exact h ((standing_concat.mp hstopped).resolve_left hes.1).2

theorem StopIsFinal.append (h : StopIsFinal log)
    (hconn : ∀ sockfd, .newConnection sockfd ∉ es)
    (htimer : ∀ timerId delayMs, .runAfter timerId delayMs ∉ es) : StopIsFinal (log ++ es) :=
  ⟨fun sockfd => (h.newConnection sockfd).append (hconn sockfd),
    fun timerId delayMs => (h.runAfter timerId delayMs).append (htimer timerId delayMs)⟩

/-- Anything may happen while the client is not stopped. -/
theorem StopIsFinal.append_of_not_stopped (h : StopIsFinal log) (hlog : ¬Stopped log)
    (hes : .stop ∉ es) : StopIsFinal (log ++ es) := by
  induction es generalizing log with
  | nil => rwa [List.append_nil]
  | cons e es ih =>
    rw [List.mem_cons, not_or] at hes
    rw [List.append_cons]
    refine ih ⟨fun sockfd => ?_, fun timerId delayMs => ?_⟩ ?_ hes.2
    · exact (h.newConnection sockfd).concat fun _ => hlog
    · exact (h.runAfter timerId delayMs).concat fun _ => hlog
    · exact not_stopped_append hlog (by simpa using hes.1)

end Log

namespace World

variable {w w' : World} {l : Label} {es : List Event}

/-- A client that has been stopped has neither of its flags. -/
structure Obedient (w : World) : Prop where
  flags : Stopped w.log → w.connect_ = false ∧ w.connector_.connect_ = false
  final : StopIsFinal w.log

theorem obedient_init : Obedient init :=
  ⟨fun h => absurd h not_standing_nil, fun _ => whenever_nil, fun _ _ => whenever_nil⟩

theorem Obedient.not_stopped (h : Obedient w) (hconnect : w.connector_.connect_ = true) :
    ¬Stopped w.log := by
  intro hstopped
  rw [(h.flags hstopped).2] at hconnect
  cases hconnect

/-- Nothing is made or planned, and no flag is set. -/
theorem Obedient.quiet (h : Obedient w) (hlog : w'.log = w.log ++ es)
    (hes : ∀ e ∈ es, e.isMute = true) (hclient : w.connect_ = false → w'.connect_ = false)
    (hconnector : w.connector_.connect_ = false → w'.connector_.connect_ = false) :
    Obedient w' := by
  constructor
  · rw [hlog, stopped_append_iff hes]
    intro hstopped
    obtain ⟨hc, hk⟩ := h.flags hstopped
    exact ⟨hclient hc, hconnector hk⟩
  · rw [hlog]
    exact h.final.append (fun _ hmem => by cases hes _ hmem) fun _ _ hmem => by cases hes _ hmem

/-- Something is made or planned while the client is not stopped. -/
theorem Obedient.active (h : Obedient w) (hstopped : ¬Stopped w.log) (hlog : w'.log = w.log ++ es)
    (hes : .stop ∉ es) : Obedient w' := by
  constructor
  · rw [hlog]
    exact fun hstopped' => absurd hstopped' (not_stopped_append hstopped hes)
  · rw [hlog]
    exact h.final.append_of_not_stopped hstopped hes

/-- The functions that call nothing back keep the flags and the log. -/
theorem Obedient.same (h : Obedient w) (hlog : w'.log = w.log)
    (hclient : w'.connect_ = w.connect_)
    (hconnector : w'.connector_.connect_ = w.connector_.connect_) : Obedient w' :=
  h.quiet (hlog.trans (List.append_nil _).symm) (List.forall_mem_nil _)
    (fun hc => hclient.trans hc) fun hk => hconnector.trans hk

theorem Obedient.record (h : Obedient w) {e : Event} (he : e.isMute = true) :
    Obedient (w.record e) :=
  h.quiet rfl (List.forall_mem_singleton.mpr he) id id

theorem Obedient.retry (h : Obedient w) (sockfd : ℕ) : Obedient (w.retry sockfd) := by
  rw [retry_eq]
  split_ifs with hconnect
  · exact h.active (h.not_stopped hconnect) rfl (by simp)
  · exact h.quiet rfl (List.forall_mem_singleton.mpr rfl) id id

theorem Obedient.attempted (h : Obedient w) {r : Option Errno} (hattempted : Attempted w r w') :
    Obedient w' := by
  have hnext : Obedient { w with nextSocket := w.nextSocket + 1 } := h.same rfl rfl rfl
  have hsocket : Obedient w.withSocket := hnext.record rfl
  cases hattempted with
  | connecting => exact hsocket.same rfl rfl rfl
  | retry => exact hsocket.retry _
  | close => exact hsocket.record rfl

theorem Obedient.wanted (h : Obedient w) : Obedient w.wanted :=
  ⟨fun hstopped => absurd hstopped (not_standing_concat (by decide)),
    h.final.append (by simp) (by simp)⟩

theorem Obedient.unwanted (h : Obedient w) : Obedient w.unwanted :=
  ⟨fun _ => ⟨rfl, rfl⟩, h.final.append (by simp) (by simp)⟩

/-- An attempt is begun in a step that keeps the order. -/
theorem Obedient.begins (h : Obedient w) {v : World} {r : Option Errno} (hbegins : Begins w l v r) :
    Obedient v := by
  cases hbegins with
  | connect => exact h.wanted
  | runTimer | startInLoop => exact h.same rfl rfl rfl
  | restart _ _ _ hconnect =>
    -- the client would not restart the connector if it were stopped
    refine h.active (fun hstopped => ?_) rfl (by simp)
    rw [(h.flags hstopped).1] at hconnect
    cases hconnect

theorem Obedient.outcome (h : Obedient w) {channel : Watch} {revents : Mask} {err : ℕ}
    (houtcome : Outcome w channel revents err w') : Obedient w' := by
  have hdetached : Obedient (w.detached channel) := h.same rfl rfl rfl
  have hstate : Obedient ((w.detached channel).setState .kConnected) := hdetached.same rfl rfl rfl
  have hconnected : Obedient (w.connected channel) := hstate.record rfl
  cases houtcome with
  | retry => exact hdetached.retry _
  | soError => exact hdetached.record rfl
  | newConnection hconnect =>
    exact hconnected.active (hconnected.not_stopped hconnect) rfl (by simp)
  | close => exact hconnected.record rfl
  | stay => exact h

theorem Obedient.step (h : Obedient w) (hok : w.step l = .ok w') : Obedient w' := by
  cases taken_of_step hok with
  | stay => exact h
  | attempt hbegins hattempted => exact (h.begins hbegins).attempted hattempted
  | connect => exact h.wanted.same rfl rfl rfl
  | disconnect =>
    obtain ⟨conns, heq, -⟩ := exists_shutdown { w with connect_ := false }
    rw [heq]
    exact h.quiet (List.append_nil _).symm (List.forall_mem_nil _) (fun _ => rfl) id
  | stopInLoop | stop => exact h.unwanted.same rfl rfl rfl
  | handleEvent => exact h.outcome (outcome_handled ..)
  | enableRetry | expire | startInLoop | resetChannel | cancelInLoop | connDestroyed
  | handleClose => exact h.same rfl rfl rfl

/-- **Stop is final.** In every state that a run reaches, no connection has been passed to the
client and no retry timer has been scheduled while it was stopped, whatever it was doing when `stop`
was called and whatever happened then. -/
theorem stop_is_final {ls : List Label} (hrun : Machine.run World.step init ls = .ok w) :
    StopIsFinal w.log :=
  (Machine.invariant_of_run obedient_init (fun _ _ _ h hok => Obedient.step h hok) hrun).final

/-- The server refuses the first attempt. The client is stopped when the retry timer has expired;
the timer makes another attempt, which succeeds. -/
def stoppedLate : List Label :=
  [.call true (some .ECONNREFUSED) .connect, .expire [0], .call true none .stop,
    .runTimer (some .EINPROGRESS), .handleEvent POLLOUT 0 false, .runFunctor none]

theorem stop_is_final_stoppedLate : ∃ w, Machine.run World.step init stoppedLate = .ok w ∧
    w.log = [.connect, .socket 0, .close 0, .runAfter 0 500, .stop, .socket 1, .connected 1,
      .close 1] ∧ w.connection_ = none ∧ StopIsFinal w.log := by
  have hrun : Machine.run World.step init stoppedLate = .ok _ := rfl
  exact ⟨_, hrun, rfl, rfl, stop_is_final hrun⟩

end World

end TcpClient

end MuduoRebuild
