import MuduoRebuild.Foundations.History
import MuduoRebuild.TcpClient.Exclusive

/-!
# Connecting again

A client whose connection has been removed, or whose attempt has ended, is to be able to `connect`
again: `startInLoop` is to find the connector disconnected, and to begin an attempt. `Permitted`
says when `connect` may be called, namely when nothing is outstanding, and `Reconnects` what it is
to lead to.

But the state goes back to `kDisconnected` in `retry` and `restart` only. When `handleWrite` has
found the socket connected, or an error, the state stays as it is, also after the connection has
been removed or the socket closed. And `connect` in the loop's thread may come before the functor
that frees `channel_`. `Ready` excludes these, and `reconnects_iff` says that there are no others.
-/

namespace MuduoRebuild

namespace TcpClient

open History

/-- Every attempt that ended in `handleWrite`, connected or with an error, has been followed by a
`restart`. -/
structure Renewed (log : List Event) : Prop where
  connected : ∀ sockfd, ¬Standing (.connected sockfd) .restart log
  soError : ∀ sockfd err, ¬Standing (.soError sockfd err) .restart log

section Log

variable {log es : List Event}

/-- Events that say nothing about the end of an attempt in `handleWrite`. -/
def Event.isNeutral : Event → Bool
  | .connected _ | .soError .. | .restart => false
  | _ => true

theorem renewed_nil : Renewed [] := ⟨fun _ => not_standing_nil, fun _ _ => not_standing_nil⟩

theorem renewed_append_iff (hes : ∀ e ∈ es, e.isNeutral = true) :
    Renewed (log ++ es) ↔ Renewed log := by
  have hrestart : .restart ∉ es := fun hmem => by cases hes _ hmem
  have hconnected : ∀ sockfd, .connected sockfd ∉ es := fun _ hmem => by cases hes _ hmem
  have herror : ∀ sockfd err, .soError sockfd err ∉ es := fun _ _ hmem => by cases hes _ hmem
  constructor
  · intro h
    constructor
    · intro sockfd hlog
      exact h.connected sockfd ((standing_append_iff (hconnected sockfd) hrestart).mpr hlog)
    · intro sockfd err hlog
      exact h.soError sockfd err ((standing_append_iff (herror sockfd err) hrestart).mpr hlog)
  · intro h
    constructor
    · intro sockfd hlog
      exact h.connected sockfd ((standing_append_iff (hconnected sockfd) hrestart).mp hlog)
    · intro sockfd err hlog
      exact h.soError sockfd err ((standing_append_iff (herror sockfd err) hrestart).mp hlog)

theorem renewed_concat_iff {e : Event} (he : e.isNeutral = true) :
    Renewed (log ++ [e]) ↔ Renewed log :=
  renewed_append_iff (List.forall_mem_singleton.mpr he)

theorem renewed_restart (log : List Event) : Renewed (log ++ [.restart]) :=
  ⟨fun _ => not_standing_concat (by simp), fun _ _ => not_standing_concat (by simp)⟩

end Log

namespace World

variable {w w' v : World} {l : Label} {r : Option Errno}

/-- No connection, no attempt in progress and no retry timer. -/
structure Unoccupied (w : World) : Prop where
  connection : w.connection_ = none
  inFlight : w.inFlight = none
  retryTimers : w.retryTimers = []

instance (w : World) : Decidable w.Unoccupied :=
  decidable_of_iff (w.connection_ = none ∧ w.inFlight = none ∧ w.retryTimers = [])
    ⟨fun h => ⟨h.1, h.2.1, h.2.2⟩, fun h => ⟨h.1, h.2, h.3⟩⟩

/-- `connect` is called only when nothing is outstanding, also no `startInLoop`. -/
def Permitted (w : World) : Label → Prop
  | .call _ _ .connect => w.Unoccupied ∧ .startInLoop ∉ w.pendingFunctors
  | _ => True

instance (w : World) (l : Label) : Decidable (w.Permitted l) :=
  match l with
  | .call _ _ .connect =>
    inferInstanceAs (Decidable (w.Unoccupied ∧ .startInLoop ∉ w.pendingFunctors))
  | .call _ _ .disconnect | .call _ _ .stop | .call _ _ .enableRetry | .handleEvent ..
  | .expire _ | .runTimer _ | .runFunctor _ | .handleClose .. => inferInstanceAs (Decidable True)

/-- The step runs `startInLoop` for a `connect`. -/
def Starts (w : World) : Label → Prop
  | .call true _ .connect => True
  | .runFunctor _ => w.expired = [] ∧ w.pendingFunctors.head? = some .startInLoop
  | _ => False

/-- `startInLoop` does not fail, and it creates a socket for an attempt if a connection is still
wanted. -/
def Reconnects (w : World) (l : Label) (r : Except Failure World) : Prop :=
  w.Starts l → Machine.Succeeds (fun w' => w'.connector_.connect_ = true →
    ∃ es, w'.log = w.log ++ es ∧ .socket w.nextSocket ∈ es) r

/-- When `startInLoop` is run, every attempt that ended in `handleWrite` has been followed by a
`restart`, and `channel_` is free if the attempt waits for it. -/
structure Ready (w : World) (l : Label) : Prop where
  renewed : w.Starts l → Renewed w.log
  channel : w.Starts l → ∀ v r, Begins w l v r → verdict r = .connecting →
    w.connector_.channel_ = none

/-! ### Queued calls -/

/-- While a `startInLoop` is queued it is the only one, and nothing is outstanding. -/
structure Queues (w : World) : Prop where
  count_le : w.pendingFunctors.count .startInLoop ≤ 1
  unoccupied : .startInLoop ∈ w.pendingFunctors → w.Unoccupied

theorem queues_init : Queues init := ⟨Nat.zero_le 1, fun h => by cases h⟩

theorem queues_of_not_mem (h : .startInLoop ∉ w.pendingFunctors) : Queues w :=
  ⟨(List.count_eq_zero.mpr h).trans_le (Nat.zero_le 1), fun hmem => absurd hmem h⟩

theorem Queues.of_le (h : Queues w)
    (hfs : w'.pendingFunctors.count .startInLoop ≤ w.pendingFunctors.count .startInLoop)
    (hunoccupied : w.Unoccupied → w'.Unoccupied) : Queues w' := by
  refine ⟨hfs.trans h.count_le, fun hmem => hunoccupied (h.unoccupied ?_)⟩
  exact List.count_pos_iff.mp ((List.count_pos_iff.mpr hmem).trans_le hfs)

theorem Unoccupied.of_eq (h : w.Unoccupied) (hconn : w'.connection_ = w.connection_)
    (hflight : w'.inFlight = w.inFlight)
    (htimers : w'.retryTimers.length ≤ w.retryTimers.length) : w'.Unoccupied := by
  refine ⟨hconn.trans h.connection, hflight.trans h.inFlight, ?_⟩
  rw [h.retryTimers] at htimers
  exact List.eq_nil_of_length_eq_zero (Nat.le_zero.mp htimers)

/-- No other `startInLoop` is queued when an attempt begins. -/
theorem Queues.begins (h : Queues w) (hpermitted : w.Permitted l) (hbegins : Begins w l v r) :
    .startInLoop ∉ v.pendingFunctors := by
  cases hbegins with
  | connect => exact hpermitted.2
  | runTimer hexpired =>
    intro hmem
    have hnil := (h.unoccupied hmem).retryTimers
    rw [World.retryTimers, hexpired] at hnil
    cases hnil
  | startInLoop _ hfs =>
    have hle := h.count_le
    rw [hfs, List.count_cons_self] at hle
    exact List.count_eq_zero.mp (Nat.le_zero.mp (Nat.le_of_succ_le_succ hle))
  | restart _ hconn =>
    intro hmem
    have hqueued := mem_of_mem_queueInLoop (by simp) hmem
    cases hconn.symm.trans (h.unoccupied hqueued).connection

/-- No retry timer is scheduled when an attempt begins. -/
theorem Queues.retryTimers_eq_nil (h : Queues w) (hturns : Turns w) (hpermitted : w.Permitted l)
    (hbegins : Begins w l v r) : v.retryTimers = [] := by
  cases hbegins with
  | connect => exact hpermitted.1.retryTimers
  | startInLoop _ hfs => exact (h.unoccupied (hfs ▸ List.mem_cons_self)).retryTimers
  | runTimer hexpired => exact hturns.retryTimers_of_runTimer hexpired
  | restart _ hconn =>
    by_contra hne
    cases hconn.symm.trans (hturns.waiting hne).2.2

theorem Queues.pop (h : Queues w) {f : Functor} {fs : List Functor}
    (hfs : w.pendingFunctors = f :: fs) : Queues { w with pendingFunctors := fs } := by
  refine h.of_le ?_ fun hunoccupied => hunoccupied.of_eq rfl rfl le_rfl
  rw [hfs]
  exact List.count_le_count_cons

theorem attempted_pendingFunctors (hattempted : Attempted w r w') :
    w'.pendingFunctors = w.pendingFunctors := by
  cases hattempted with
  | retry => exact pendingFunctors_retry _ _
  | connecting | close => rfl

/-- An event on the channel of an attempt queues at most a `resetChannel`. -/
theorem not_mem_outcome (h : .startInLoop ∉ w.pendingFunctors) {channel : Watch} {revents : Mask}
    {err : ℕ} (houtcome : Outcome w channel revents err w') :
    .startInLoop ∉ w'.pendingFunctors := by
  have hdetached : .startInLoop ∉ (w.detached channel).pendingFunctors := fun hmem =>
    h (mem_of_mem_queueInLoop (by simp) hmem)
  cases houtcome with
  | retry => rwa [pendingFunctors_retry]
  | soError | newConnection | close => exact hdetached
  | stay => exact h

theorem Queues.step (h : Queues w) (hresets : Resets w) (hpermitted : w.Permitted l)
    (hok : w.step l = .ok w') : Queues w' := by
  cases taken_of_step hok with
  | stay => exact h
  | attempt hbegins hattempted =>
    refine queues_of_not_mem ?_
    rw [attempted_pendingFunctors hattempted]
    exact h.begins hpermitted hbegins
  | connect =>
    obtain ⟨hunoccupied, hnone⟩ := hpermitted
    refine ⟨?_, fun _ => hunoccupied.of_eq rfl rfl le_rfl⟩
    rw [World.queueInLoop, List.count_append]
    exact (congrArg (· + 1) (List.count_eq_zero.mpr hnone)).le
  | disconnect =>
    obtain ⟨conns, heq, -⟩ := exists_shutdown { w with connect_ := false }
    rw [heq]
    exact h.of_le le_rfl fun hunoccupied => hunoccupied.of_eq rfl rfl le_rfl
  | stopInLoop =>
    exact h.of_le le_rfl fun hunoccupied => hunoccupied.of_eq rfl rfl
      (length_retryTimers_cancelInLoop w.unwanted _)
  | stop =>
    refine h.of_le ?_ fun hunoccupied => hunoccupied.of_eq rfl rfl le_rfl
    rw [World.queueInLoop, List.count_append]
    exact Nat.le_refl _
  | handleEvent _ _ hchannel hregistered =>
    refine queues_of_not_mem (not_mem_outcome (fun hmem => ?_) (outcome_handled ..))
    exact inFlight_ne_none hchannel hregistered (h.unoccupied hmem).inFlight
  | expire hexpired =>
    refine h.of_le le_rfl fun hunoccupied => hunoccupied.of_eq rfl rfl ?_
    exact (length_retryTimers_expire hexpired _).le
  | startInLoop hfs | connDestroyed hfs =>
    exact (h.pop hfs).of_le le_rfl fun hunoccupied => hunoccupied.of_eq rfl rfl le_rfl
  | resetChannel hfs =>
    have hnone := hresets.inFlight_eq_none (hfs ▸ List.mem_cons_self)
    exact (h.pop hfs).of_le le_rfl fun hunoccupied => hunoccupied.of_eq rfl hnone.symm le_rfl
  | cancelInLoop hfs =>
    exact (h.pop hfs).of_le le_rfl fun hunoccupied => hunoccupied.of_eq rfl rfl
      (length_retryTimers_cancelInLoop _ _)
  | handleClose _ hconn =>
    refine queues_of_not_mem fun hmem => ?_
    have hqueued := mem_of_mem_queueInLoop (by simp) hmem
    cases hconn.symm.trans (h.unoccupied hqueued).connection
  | enableRetry => exact h.of_le le_rfl fun hunoccupied => hunoccupied.of_eq rfl rfl le_rfl

/-! ### What the state tells -/

/-- The connector is disconnected exactly when no attempt is in progress and every attempt that
ended in `handleWrite` has been followed by a `restart`. -/
structure Tells (w : World) : Prop where
  disconnected_iff : w.connector_.state_ = .kDisconnected ↔ Renewed w.log ∧ w.inFlight = none
  flying : w.inFlight ≠ none → Renewed w.log

theorem tells_init : Tells init :=
  ⟨iff_of_true rfl ⟨renewed_nil, rfl⟩, fun hne => absurd rfl hne⟩

theorem Tells.of_eq (h : Tells w) {es : List Event} (hlog : w'.log = w.log ++ es)
    (hes : ∀ e ∈ es, e.isNeutral = true) (hstate : w'.connector_.state_ = w.connector_.state_)
    (hflight : w'.inFlight = w.inFlight) : Tells w' := by
  constructor
  · rw [hstate, hlog, renewed_append_iff hes, hflight]
    exact h.disconnected_iff
  · rw [hflight, hlog, renewed_append_iff hes]
    exact h.flying

theorem Tells.same (h : Tells w) (hlog : w'.log = w.log)
    (hstate : w'.connector_.state_ = w.connector_.state_) (hflight : w'.inFlight = w.inFlight) :
    Tells w' :=
  h.of_eq (hlog.trans (List.append_nil _).symm) (List.forall_mem_nil _) hstate hflight

theorem tells_retry (hlog : Renewed w.log) (hflight : w.inFlight = none) (sockfd : ℕ) :
    Tells (w.retry sockfd) := by
  have hflight' : (w.retry sockfd).inFlight = none :=
    (inFlight_of_channel (channel_retry w sockfd)).trans hflight
  obtain ⟨es, heq, hes⟩ := exists_log_retry w sockfd
  have hlog' : Renewed (w.retry sockfd).log := by
    rw [heq, List.append_assoc, renewed_append_iff]
    · exact hlog
    · intro e he
      rcases List.mem_append.mp he with hclose | htimer
      · rw [List.mem_singleton.mp hclose]
        rfl
      · obtain ⟨timerId, delayMs, rfl⟩ := hes e htimer
        rfl
  exact ⟨iff_of_true (state_retry w sockfd) ⟨hlog', hflight'⟩, fun _ => hlog'⟩

/-- Before an attempt, all attempts that ended in `handleWrite` have been followed by a
`restart`. -/
theorem Tells.begins (h : Tells w) (hturns : Turns w) (hbegins : Begins w l v r) :
    Renewed v.log := by
  cases hbegins with
  | connect hstate =>
    exact (renewed_concat_iff rfl).mpr (h.disconnected_iff.mp hstate).1
  | startInLoop _ _ hstate => exact (h.disconnected_iff.mp hstate).1
  | runTimer hexpired =>
    have hstate := (hturns.waiting (by rw [World.retryTimers, hexpired]; simp)).1
    exact (h.disconnected_iff.mp hstate).1
  | restart => exact renewed_restart _

theorem tells_attempted (hlog : Renewed w.log) (hstate : w.connector_.state_ = .kDisconnected)
    (hflight : w.inFlight = none) (hattempted : Attempted w r w') : Tells w' := by
  have hsocket : Renewed w.withSocket.log := (renewed_concat_iff rfl).mpr hlog
  cases hattempted with
  | connecting =>
    exact ⟨iff_of_false (by simp [awaiting]) fun hand => Option.some_ne_none _ hand.2,
      fun _ => hsocket⟩
  | retry => exact tells_retry (w := w.withSocket) hsocket hflight _
  | close =>
    have hclose : Renewed (w.withSocket.record (.close w.nextSocket)).log :=
      (renewed_concat_iff rfl).mpr hsocket
    exact ⟨iff_of_true hstate ⟨hclose, hflight⟩, fun _ => hclose⟩

/-- An attempt has ended in `handleWrite`, and the state stays as it is. -/
theorem tells_of_not_renewed (hstate : w.connector_.state_ ≠ .kDisconnected)
    (hflight : w.inFlight = none) (hlog : ¬Renewed w.log) : Tells w :=
  ⟨iff_of_false hstate fun hand => hlog hand.1, fun hne => absurd hflight hne⟩

theorem Tells.outcome (h : Tells w) {channel : Watch}
    (hstate : w.connector_.state_ = .kConnecting)
    (hchannel : w.connector_.channel_ = some channel) (hregistered : channel.registered = true)
    {revents : Mask} {err : ℕ} (houtcome : Outcome w channel revents err w') : Tells w' := by
  have hlog : Renewed w.log := h.flying (inFlight_ne_none hchannel hregistered)
  have hover : (w.detached channel).inFlight = none := rfl
  have hconnecting : (w.detached channel).connector_.state_ ≠ .kDisconnected := by
    intro heq
    cases hstate.symm.trans heq
  have hconnected : ¬Renewed (w.log ++ [.connected channel.sockfd]) := fun hrenewed =>
    hrenewed.connected channel.sockfd (standing_concat.mpr (.inl rfl))
  cases houtcome with
  | retry => exact tells_retry (w := w.detached channel) hlog hover _
  | soError =>
    refine tells_of_not_renewed hconnecting hover fun hrenewed => ?_
    exact hrenewed.soError channel.sockfd err (standing_concat.mpr (.inl rfl))
  | newConnection | close =>
    refine tells_of_not_renewed State.noConfusion hover fun hrenewed => hconnected ?_
    exact (renewed_concat_iff rfl).mp hrenewed
  | stay => exact h

theorem Tells.step (h : Tells w) (hresets : Resets w) (hturns : Turns w)
    (hok : w.step l = .ok w') : Tells w' := by
  cases taken_of_step hok with
  | stay => exact h
  | attempt hbegins hattempted =>
    obtain ⟨hstate, hflight, -⟩ := hturns.begins hbegins
    exact tells_attempted (h.begins hturns hbegins) hstate hflight hattempted
  | connect | stopInLoop | stop =>
    exact h.of_eq rfl (List.forall_mem_singleton.mpr rfl) rfl rfl
  | disconnect =>
    obtain ⟨conns, heq, -⟩ := exists_shutdown { w with connect_ := false }
    rw [heq]
    exact h.same rfl rfl rfl
  | handleEvent _ hstate hchannel hregistered =>
    exact h.outcome hstate hchannel hregistered (outcome_handled ..)
  | resetChannel hfs =>
    have hnone := hresets.inFlight_eq_none (hfs ▸ List.mem_cons_self)
    exact h.same rfl rfl hnone.symm
  | enableRetry | expire | startInLoop | cancelInLoop | connDestroyed | handleClose =>
    exact h.same rfl rfl rfl

/-! ### The result -/

/-- What holds of a world reached by permitted steps. -/
structure Renewable (w : World) : Prop where
  resets : Resets w
  turns : Turns w
  queues : Queues w
  tells : Tells w

theorem renewable_init : Renewable init := ⟨rfl, turns_init, queues_init, tells_init⟩

theorem Renewable.step (h : Renewable w) (hpermitted : w.Permitted l) (hok : w.step l = .ok w') :
    Renewable w' := by
  refine ⟨h.resets.step hok, h.turns.step h.resets (fun v r hbegins _ => ?_) hok,
    h.queues.step h.resets hpermitted hok, h.tells.step h.resets h.turns hok⟩
  exact h.queues.retryTimers_eq_nil h.turns hpermitted hbegins

/-- `startInLoop` is run by a `connect` in the loop's thread or from the queue. -/
theorem Starts.exists_eq (h : w.Starts l) : (∃ r, l = .call true r .connect) ∨
    ∃ r fs, l = .runFunctor r ∧ w.expired = [] ∧ w.pendingFunctors = .startInLoop :: fs := by
  cases l with
  | call inLoop r call =>
    cases inLoop with
    | true =>
      cases call with
      | connect => exact .inl ⟨r, rfl⟩
      | disconnect | stop | enableRetry => exact h.elim
    | false => cases call <;> exact h.elim
  | runFunctor r =>
    obtain ⟨fs, hfs⟩ := List.head?_eq_some_iff.mp h.2
    exact .inr ⟨r, fs, rfl, h.1, hfs⟩
  | _ => exact h.elim

/-- When `startInLoop` is run nothing is outstanding. -/
theorem Renewable.unoccupied (h : Renewable w) (hpermitted : w.Permitted l) (hstarts : w.Starts l) :
    w.Unoccupied := by
  rcases hstarts.exists_eq with ⟨r, rfl⟩ | ⟨r, fs, rfl, -, hfs⟩
  · exact hpermitted.1
  · exact h.queues.unoccupied (hfs ▸ List.mem_cons_self)

/-- A step that runs `startInLoop` on a disconnected connector begins an attempt, or no connection
is wanted any more. -/
theorem Starts.begins_or (h : w.Starts l) (hstate : w.connector_.state_ = .kDisconnected) :
    (∃ v r, Begins w l v r) ∨ ∃ w', w.step l = .ok w' ∧ w'.connector_.connect_ = false := by
  rcases h.exists_eq with ⟨r, rfl⟩ | ⟨r, fs, rfl, hexpired, hfs⟩
  · exact .inl ⟨_, _, .connect hstate⟩
  · by_cases hconnect : w.connector_.connect_ = true
    · exact .inl ⟨_, _, .startInLoop hexpired hfs hstate hconnect⟩
    · refine .inr ⟨{ w with pendingFunctors := fs }, ?_, Bool.eq_false_of_not_eq_true hconnect⟩
      rw [step_of_enabled (l := .runFunctor r) hexpired, act, hfs]
      exact (Fallible.bind_of_ok (Fallible.check_of hstate _) _).trans (if_neg hconnect)

theorem Begins.exists_log (h : Begins w l v r) :
    v.nextSocket = w.nextSocket ∧ ∃ es, v.log = w.log ++ es := by
  cases h with
  | connect | restart => exact ⟨rfl, _, rfl⟩
  | runTimer | startInLoop => exact ⟨rfl, [], (List.append_nil _).symm⟩

/-- An attempt creates a socket. -/
theorem Begins.succeeds (h : Begins w l v r)
    (hchannel : verdict r = .connecting → v.connector_.channel_ = none) :
    Machine.Succeeds (fun w' => ∃ es, w'.log = w.log ++ es ∧ .socket w.nextSocket ∈ es)
      (w.step l) := by
  obtain ⟨hsocket, es, hlog⟩ := h.exists_log
  have hcreated : v.withSocket.log = w.log ++ (es ++ [.socket w.nextSocket]) := by
    rw [withSocket, record, hsocket, ← List.append_assoc]
    exact congrArg (· ++ _) hlog
  suffices hgrows : Machine.Succeeds (fun w' => ∃ es', w'.log = v.withSocket.log ++ es')
      (w.step l) by
    obtain ⟨w', hok, es', hes'⟩ := hgrows
    refine ⟨w', hok, es ++ [.socket w.nextSocket] ++ es', ?_, by simp⟩
    rw [hes', hcreated, List.append_assoc]
  rw [h.step_eq]
  cases hr : verdict r with
  | connecting =>
    exact ⟨_, connect_of_connecting hr (hchannel hr), [], (List.append_nil _).symm⟩
  | retry =>
    obtain ⟨es', hretry, -⟩ := exists_log_retry v.withSocket v.nextSocket
    exact ⟨_, connect_of_retry hr, _, hretry.trans (List.append_assoc ..)⟩
  | close => exact ⟨_, connect_of_close hr, _, rfl⟩

/-- `startInLoop` needs a disconnected connector. -/
theorem Starts.state_eq (h : w.Starts l) (hok : w.step l = .ok w') :
    w.connector_.state_ = .kDisconnected := by
  by_contra hstate
  rcases h.exists_eq with ⟨r, rfl⟩ | ⟨r, fs, rfl, hexpired, hfs⟩
  · rw [step_of_enabled (l := .call true r .connect) trivial] at hok
    obtain ⟨_, hcheck, -⟩ := Fallible.bind_eq_ok.mp hok
    exact hstate (Fallible.check_eq_ok.mp hcheck)
  · rw [step_of_enabled (l := .runFunctor r) hexpired, act, hfs] at hok
    obtain ⟨_, hcheck, -⟩ := Fallible.bind_eq_ok.mp hok
    exact hstate (Fallible.check_eq_ok.mp hcheck)

/-- A permitted step reconnects exactly when it is `Ready`. -/
theorem Renewable.ready_iff (h : Renewable w) (hpermitted : w.Permitted l) :
    Reconnects w l (w.step l) ↔ Ready w l := by
  constructor
  · intro hreconnects
    refine ⟨fun hstarts => ?_, fun hstarts v r hbegins hr => ?_⟩
    · obtain ⟨w', hok, -⟩ := hreconnects hstarts
      exact (h.tells.disconnected_iff.mp (hstarts.state_eq hok)).1
    · by_contra hchannel
      rw [← hbegins.channel_eq] at hchannel
      obtain ⟨w', hok, -⟩ := hreconnects hstarts
      cases hok.symm.trans (hbegins.step_eq.trans (connect_of_channel hr hchannel))
  · intro hready hstarts
    have hflight := (h.unoccupied hpermitted hstarts).inFlight
    have hstate := h.tells.disconnected_iff.mpr ⟨hready.renewed hstarts, hflight⟩
    rcases hstarts.begins_or hstate with ⟨v, r, hbegins⟩ | ⟨w', hok, hconnect⟩
    · obtain ⟨w', hok, hlog⟩ := hbegins.succeeds fun hr =>
        hbegins.channel_eq.trans (hready.channel hstarts v r hbegins hr)
      exact ⟨w', hok, fun _ => hlog⟩
    · refine ⟨w', hok, fun hwanted => ?_⟩
      cases hconnect.symm.trans hwanted

/-- **Connecting again.** In any run in which `connect` is called only when nothing is outstanding,
each call leads to a `startInLoop` that finds the connector disconnected and begins an attempt, if
one is still wanted, exactly when every step is `Ready`. -/
theorem reconnects_iff (ls : List Label)
    (hls : Machine.Along step (Machine.onInput Permitted) init ls) :
    Machine.Along step Reconnects init ls ↔ Machine.Along step (Machine.onInput Ready) init ls := by
  have hboth :
      Machine.Along step (fun w l r => Machine.onInput Permitted w l r ∧ Reconnects w l r) init ls ↔
        Machine.Along step
          (fun w l r => Machine.onInput Permitted w l r ∧ Machine.onInput Ready w l r) init ls :=
    Machine.along_iff_along renewable_init
      (fun w l h => and_congr_right fun hpermitted => h.ready_iff hpermitted)
      fun w l w' h hgood hok => h.step hgood.1 hok
  rw [Machine.along_and, Machine.along_and] at hboth
  exact (and_congr_right_iff.mp hboth) hls

/-- A connection is made, and removed when the peer has closed it. -/
def removed : List Label :=
  [.call true (some .EINPROGRESS) .connect, .handleEvent POLLOUT 0 false, .runFunctor none,
    .handleClose 1 none, .runFunctor none]

/-- Every connection is made again at once when it is closed, and the next attempt is refused. -/
def retried : List Label :=
  [.call true none .enableRetry, .call false none .connect, .runFunctor (some .EINPROGRESS),
    .handleEvent POLLOUT 0 false, .runFunctor none, .handleClose 1 (some .ECONNREFUSED),
    .call false none .stop, .runFunctor none, .runFunctor none]

/-- After a `restart` the client can connect again. -/
theorem reconnects_iff_retried :
    Machine.Along step Reconnects init (retried ++ [.call true (some .EINTR) .connect]) ↔
      Machine.Along step (Machine.onInput Ready) init
        (retried ++ [.call true (some .EINTR) .connect]) :=
  reconnects_iff _ (by decide)

/-- The client does not hold anything, and it cannot connect again. -/
theorem not_reconnected : ∃ w, Machine.run step init removed = .ok w ∧
    w.connection_ = none ∧ w.inFlight = none ∧ w.retryTimers = [] ∧ w.pendingFunctors = [] ∧
    w.step (.call true (some .EINPROGRESS) .connect) = .error .startInLoop ∧
    Machine.Along step (Machine.onInput Permitted) init
      (removed ++ [.call true (some .EINPROGRESS) .connect]) ∧
    ¬Machine.Along step Reconnects init
      (removed ++ [.call true (some .EINPROGRESS) .connect]) := by
  refine ⟨_, rfl, rfl, rfl, rfl, rfl, rfl, by decide, fun h => ?_⟩
  obtain ⟨w', hok, -⟩ := (h.of_append rfl).1 trivial
  cases hok

end World

end TcpClient

end MuduoRebuild
