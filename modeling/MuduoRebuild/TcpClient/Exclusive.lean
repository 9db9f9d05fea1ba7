import MuduoRebuild.TcpClient.Attempts

/-!
# One attempt at a time

A client is to have one connection. So at any time there should be at most one of these: a socket
whose attempt is in progress, a retry timer, and a connection (`outstanding`). Then the channel of
an attempt finds `channel_` free, and a connection that is closed is the one the client has.

Nothing in `start` looks for a retry timer. When `connect` is called during the delay after a
failure, or a timer has expired and can no longer be cancelled, the next attempt comes beside the
timer. Also `channel_` is freed by a functor only, and an attempt that begins before it has run
fails in an `assert`. Finally a connection may be closed twice. `Sole` excludes these, and
`exclusive_iff` says that a run is as it should be exactly when each of its steps is `Sole`.
-/

namespace MuduoRebuild

namespace TcpClient

namespace World

variable {w w' v : World} {l : Label} {r : Option Errno}

/-- The attempts in progress, the retry timers and the connection. -/
def outstanding (w : World) : ℕ :=
  (if w.connector_.state_ = .kConnecting ∧ w.connector_.channel_ ≠ none then 1 else 0) +
    w.retryTimers.length + if w.connection_ = none then 0 else 1

/-- The step leaves at most one thing outstanding, and neither the `assert` of `connecting` nor
that of `removeConnection` fails in it. -/
structure Exclusive (r : Except Failure World) : Prop where
  connecting : r ≠ .error .connecting
  removeConnection : r ≠ .error .removeConnection
  outstanding : ∀ w', r = .ok w' → w'.outstanding ≤ 1

/-- The step begins no attempt beside a retry timer or before `channel_` is free, and closes no
connection twice. -/
structure Sole (w : World) (l : Label) : Prop where
  timers : ∀ v r, Begins w l v r → verdict r ≠ .close → v.retryTimers = []
  channel : ∀ v r, Begins w l v r → verdict r = .connecting → w.connector_.channel_ = none
  closes : ∀ conn r, l = .handleClose conn r → w.Enabled l →
    .connDestroyed conn ∉ w.pendingFunctors

/-! ### Taking turns -/

/-- An attempt, a retry timer and a connection exclude each other, and the state tells which it
is. -/
structure Turns (w : World) : Prop where
  flying : w.inFlight ≠ none →
    w.connector_.state_ = .kConnecting ∧ w.retryTimers = [] ∧ w.connection_ = none
  waiting : w.retryTimers ≠ [] →
    w.connector_.state_ = .kDisconnected ∧ w.retryTimers.length = 1 ∧ w.connection_ = none
  connected : w.connection_ ≠ none → w.connector_.state_ = .kConnected

theorem turns_init : Turns init :=
  ⟨fun h => absurd rfl h, fun h => absurd rfl h, fun h => absurd rfl h⟩

theorem Turns.outstanding_le (h : Turns w) : w.outstanding ≤ 1 := by
  rw [outstanding]
  by_cases hconn : w.connection_ = none
  · rw [if_pos hconn]
    by_cases htimers : w.retryTimers = []
    · rw [htimers]
      split_ifs <;> simp
    · obtain ⟨hstate, hone, -⟩ := h.waiting htimers
      rw [hone, if_neg (by rw [hstate]; simp)]
  · have hstate := h.connected hconn
    have htimers : w.retryTimers = [] := by
      by_contra hne
      exact hconn (h.waiting hne).2.2
    rw [htimers, if_neg (by rw [hstate]; simp), if_neg hconn]
    rfl

/-- At most a retry timer goes away. -/
theorem Turns.of_le (h : Turns w) (hstate : w'.connector_.state_ = w.connector_.state_)
    (hflight : w'.inFlight = w.inFlight) (hconn : w'.connection_ = w.connection_)
    (htimers : w'.retryTimers.length ≤ w.retryTimers.length) : Turns w' := by
  constructor
  · rw [hflight, hstate, hconn]
    intro hne
    obtain ⟨hs, hnil, hc⟩ := h.flying hne
    rw [hnil] at htimers
    exact ⟨hs, List.eq_nil_of_length_eq_zero (Nat.le_zero.mp htimers), hc⟩
  · rw [hstate, hconn]
    intro hne
    have hpos := List.length_pos_of_ne_nil hne
    obtain ⟨hs, hone, hc⟩ := h.waiting (List.ne_nil_of_length_pos (hpos.trans_le htimers))
    exact ⟨hs, le_antisymm (hone ▸ htimers) hpos, hc⟩
  · rw [hstate, hconn]
    exact h.connected

/-- Nothing is outstanding when the connector is disconnected and waits for no timer. -/
theorem Turns.eq_none (h : Turns w) (hstate : w.connector_.state_ = .kDisconnected) :
    w.inFlight = none ∧ w.connection_ = none := by
  constructor
  · by_contra hne
    rw [(h.flying hne).1] at hstate
    cases hstate
  · by_contra hne
    rw [h.connected hne] at hstate
    cases hstate

/-- Before an attempt the connector is disconnected, and there is no connection. -/
theorem Turns.begins (h : Turns w) (hbegins : Begins w l v r) :
    v.connector_.state_ = .kDisconnected ∧ v.inFlight = none ∧ v.connection_ = none := by
  cases hbegins with
  | connect hstate | startInLoop _ _ hstate => exact ⟨hstate, h.eq_none hstate⟩
  | runTimer hexpired =>
    have hstate := (h.waiting (by rw [retryTimers, hexpired]; simp)).1
    exact ⟨hstate, h.eq_none hstate⟩
  | restart _ hconn =>
    refine ⟨rfl, ?_, rfl⟩
    -- there was a connection, so that no attempt is in progress
    by_contra hne
    have hnone := (h.flying hne).2.2
    rw [hconn] at hnone
    cases hnone

theorem Turns.length_retryTimers_le (h : Turns w) : w.retryTimers.length ≤ 1 := by
  by_cases htimers : w.retryTimers = []
  · rw [htimers]
    exact Nat.zero_le 1
  · exact (h.waiting htimers).2.1.le

/-- There is no other retry timer when one calls back. -/
theorem Turns.retryTimers_of_runTimer (h : Turns w) {timer : ℕ} {expired : List ℕ}
    (hexpired : w.expired = timer :: expired) : { w with expired }.retryTimers = [] := by
  have hle := h.length_retryTimers_le
  rw [retryTimers, hexpired, List.cons_append, List.length_cons] at hle
  exact List.eq_nil_of_length_eq_zero (Nat.le_zero.mp (Nat.le_of_succ_le_succ hle))

/-- The timers left when an attempt begins are at most one, and none if the attempt may not be
followed by another. -/
theorem Turns.length_le (h : Turns w) (hbegins : Begins w l v r) :
    v.retryTimers.length ≤ 1 ∧ (v.connector_.connect_ = true ∨ v.retryTimers = []) := by
  have hle := h.length_retryTimers_le
  cases hbegins with
  | connect | restart => exact ⟨hle, .inl rfl⟩
  | startInLoop _ _ _ hconnect => exact ⟨hle, .inl hconnect⟩
  | runTimer hexpired =>
    have hnil := h.retryTimers_of_runTimer hexpired
    exact ⟨(congrArg List.length hnil).trans_le (Nat.zero_le 1), .inr hnil⟩

theorem turns_retry (hflight : w.inFlight = none) (htimers : w.retryTimers = [])
    (hconn : w.connection_ = none) (sockfd : ℕ) : Turns (w.retry sockfd) := by
  constructor
  · rw [inFlight_of_channel (channel_retry w sockfd)]
    exact fun hne => absurd hflight hne
  · rw [retryTimers_retry, htimers, state_retry, connection_retry]
    intro hne
    split_ifs at hne ⊢
    · exact ⟨rfl, rfl, hconn⟩
    · exact absurd rfl hne
  · rw [connection_retry]
    exact fun hne => absurd hconn hne

theorem turns_attempted (hstate : w.connector_.state_ = .kDisconnected)
    (hflight : w.inFlight = none) (hconn : w.connection_ = none) (hle : w.retryTimers.length ≤ 1)
    (htimers : verdict r ≠ .close → w.retryTimers = []) (hattempted : Attempted w r w') :
    Turns w' := by
  cases hattempted with
  | connecting hr hchannel =>
    have hnil : w.retryTimers = [] := htimers (by rw [hr]; decide)
    exact ⟨fun _ => ⟨rfl, hnil, hconn⟩, fun hne => absurd hnil hne, fun hne => absurd hconn hne⟩
  | retry hr =>
    have hnil : w.withSocket.retryTimers = [] := htimers (by rw [hr]; decide)
    exact turns_retry (w := w.withSocket) hflight hnil hconn _
  | close =>
    refine ⟨fun hne => absurd hflight hne, fun hne => ⟨hstate, ?_, hconn⟩,
      fun hne => absurd hconn hne⟩
    exact le_antisymm hle (List.length_pos_of_ne_nil hne)

/-- The attempt is over, and there is no retry timer. -/
theorem turns_of_none (hflight : w.inFlight = none) (htimers : w.retryTimers = [])
    (hconn : w.connection_ ≠ none → w.connector_.state_ = .kConnected) : Turns w :=
  ⟨fun hne => absurd hflight hne, fun hne => absurd htimers hne, hconn⟩

/-- An event on the channel of an attempt in progress. -/
theorem Turns.outcome (h : Turns w) {channel : Watch}
    (hchannel : w.connector_.channel_ = some channel) (hregistered : channel.registered = true)
    {revents : Mask} {err : ℕ} (houtcome : Outcome w channel revents err w') : Turns w' := by
  obtain ⟨hstate, htimers, hconn⟩ := h.flying (inFlight_ne_none hchannel hregistered)
  have hover : (w.detached channel).inFlight = none := rfl
  have hnil : (w.detached channel).retryTimers = [] := htimers
  have hnone : (w.detached channel).connection_ = none := hconn
  cases houtcome with
  | retry => exact turns_retry hover hnil hnone _
  | soError => exact turns_of_none hover hnil fun hne => absurd hnone hne
  | newConnection | close => exact turns_of_none hover hnil fun _ => rfl
  | stay => exact h

theorem length_retryTimers_cancelInLoop (w : World) (timerId : Option ℕ) :
    (w.cancelInLoop timerId).retryTimers.length ≤ w.retryTimers.length := by
  rw [retryTimers, retryTimers, List.length_append, List.length_append]
  exact Nat.add_le_add_left (List.length_filter_le ..) _

theorem length_retryTimers_expire (hexpired : w.expired = []) (timerIds : List ℕ) :
    { w with
      timers := w.timers.filter (· ∉ timerIds)
      expired := w.timers.filter (· ∈ timerIds) }.retryTimers.length = w.retryTimers.length := by
  rw [retryTimers, retryTimers, hexpired, List.nil_append, List.length_append]
  rw [List.length_eq_length_filter_add (l := w.timers) (· ∈ timerIds)]
  simp only [decide_not]

theorem Turns.step (h : Turns w) (hresets : Resets w)
    (htimers : ∀ v r, Begins w l v r → verdict r ≠ .close → v.retryTimers = [])
    (hok : w.step l = .ok w') : Turns w' := by
  cases taken_of_step hok with
  | stay => exact h
  | attempt hbegins hattempted =>
    obtain ⟨hstate, hflight, hconn⟩ := h.begins hbegins
    exact turns_attempted hstate hflight hconn (h.length_le hbegins).1 (htimers _ _ hbegins)
      hattempted
  | disconnect =>
    obtain ⟨conns, heq, -⟩ := exists_shutdown { w with connect_ := false }
    rw [heq]
    exact h.of_le rfl rfl rfl le_rfl
  | stopInLoop =>
    exact h.of_le rfl rfl rfl (length_retryTimers_cancelInLoop w.unwanted _)
  | handleEvent _ _ hchannel hregistered =>
    exact h.outcome hchannel hregistered (outcome_handled ..)
  | expire hexpired => exact h.of_le rfl rfl rfl (length_retryTimers_expire hexpired _).le
  | resetChannel hfs =>
    have hnone := hresets.inFlight_eq_none (hfs ▸ List.mem_cons_self)
    exact h.of_le rfl hnone.symm rfl le_rfl
  | cancelInLoop => exact h.of_le rfl rfl rfl (length_retryTimers_cancelInLoop _ _)
  | handleClose =>
    refine ⟨fun hne => ?_, fun hne => ?_, fun hne => absurd rfl hne⟩
    · exact ⟨(h.flying hne).1, (h.flying hne).2.1, rfl⟩
    · exact ⟨(h.waiting hne).1, (h.waiting hne).2.1, rfl⟩
  | connect | stop | enableRetry | startInLoop | connDestroyed => exact h.of_le rfl rfl rfl le_rfl

/-! ### The connections -/

/-- A connection that has not been destroyed is that of the client, or `connDestroyed` is queued for
it. -/
structure Known (w : World) : Prop where
  live : ∀ conn, IsLive (w.conns conn) →
    w.connection_ = some conn ∨ .connDestroyed conn ∈ w.pendingFunctors
  current : ∀ conn, w.connection_ = some conn → .connDestroyed conn ∉ w.pendingFunctors
  made : ∀ conn, w.conns conn ≠ none ∨ .connDestroyed conn ∈ w.pendingFunctors →
    conn < w.nextConnId_

theorem known_init : Known init := by
  refine ⟨fun conn hlive => ?_, fun conn hconn => ?_, fun conn hmade => ?_⟩
  · rcases hlive with hs | hs <;> cases hs
  · cases hconn
  · rcases hmade with hne | hmem
    · exact absurd rfl hne
    · cases hmem

theorem Known.of_iff (h : Known w)
    (hconns : ∀ conn, (IsLive (w'.conns conn) ↔ IsLive (w.conns conn)) ∧
      (w'.conns conn = none ↔ w.conns conn = none))
    (hfs : ∀ conn, .connDestroyed conn ∈ w'.pendingFunctors ↔
      .connDestroyed conn ∈ w.pendingFunctors)
    (hconn : w'.connection_ = w.connection_) (hnext : w'.nextConnId_ = w.nextConnId_) :
    Known w' := by
  refine ⟨fun conn => ?_, fun conn => ?_, fun conn => ?_⟩
  · rw [(hconns conn).1, hconn, hfs]
    exact h.live conn
  · rw [hconn, hfs]
    exact h.current conn
  · rw [Ne, (hconns conn).2, hfs, hnext]
    exact h.made conn

theorem Known.of_eq (h : Known w) (hconns : w'.conns = w.conns)
    (hfs : w'.pendingFunctors = w.pendingFunctors) (hconn : w'.connection_ = w.connection_)
    (hnext : w'.nextConnId_ = w.nextConnId_) : Known w' :=
  h.of_iff (fun _ => (by rw [hconns]; exact ⟨Iff.rfl, Iff.rfl⟩)) (fun _ => (by rw [hfs])) hconn
    hnext

/-- A functor other than `connDestroyed` is queued. -/
theorem Known.queueInLoop (h : Known w) {f : Functor} (hf : ∀ conn, f ≠ .connDestroyed conn) :
    Known (w.queueInLoop f) := by
  refine h.of_iff (fun _ => ⟨Iff.rfl, Iff.rfl⟩) (fun conn => ?_) rfl rfl
  rw [World.queueInLoop, List.mem_append, or_iff_left]
  exact fun hmem => hf conn (List.mem_singleton.mp hmem).symm

/-- A functor other than `connDestroyed` is taken out of the queue. -/
theorem Known.pop (h : Known w) {f : Functor} {fs : List Functor}
    (hfs : w.pendingFunctors = f :: fs) (hf : ∀ conn, f ≠ .connDestroyed conn) :
    Known { w with pendingFunctors := fs } := by
  refine h.of_iff (fun _ => ⟨Iff.rfl, Iff.rfl⟩) (fun conn => ?_) rfl rfl
  rw [hfs, List.mem_cons, or_iff_right]
  exact fun heq => hf conn heq.symm

/-- The client gives up the connection that it has. -/
theorem Known.released (h : Known w) {conn : ℕ} (hconn : w.connection_ = some conn)
    (hlive : IsLive (w.conns conn)) : Known (w.released conn) := by
  refine ⟨fun conn' hlive' => .inr ?_, fun _ hconn' => (by cases hconn'), fun conn' hmade => ?_⟩
  · rcases h.live conn' hlive' with hcurrent | hqueued
    · obtain rfl := Option.some.inj (hconn.symm.trans hcurrent)
      exact List.mem_append_right _ List.mem_cons_self
    · exact List.mem_append_left _ hqueued
  · rcases hmade with hmade | hmem
    · exact h.made conn' (.inl hmade)
    · rcases List.mem_append.mp hmem with hqueued | hnew
      · exact h.made conn' (.inr hqueued)
      · obtain rfl := Functor.connDestroyed.inj (List.mem_singleton.mp hnew)
        refine h.made conn' (.inl fun hnone => ?_)
        rcases hlive with hs | hs <;> cases hnone.symm.trans hs

/-- A connection is made when there is none. -/
theorem Known.newConnection (h : Known w) (hnone : w.connection_ = none) (sockfd : ℕ) :
    Known (w.newConnection sockfd) := by
  have hnew : .connDestroyed w.nextConnId_ ∉ w.pendingFunctors := fun hmem =>
    Nat.lt_irrefl _ (h.made _ (.inr hmem))
  refine ⟨fun conn hlive => ?_, fun conn hconn => ?_, fun conn hmade => ?_⟩
  · by_cases heq : conn = w.nextConnId_
    · exact .inl (congrArg some heq.symm)
    · have hlive' : IsLive (w.conns conn) := by
        simpa only [World.newConnection, record, Function.update_of_ne heq] using hlive
      rcases h.live conn hlive' with hcurrent | hqueued
      · cases hnone.symm.trans hcurrent
      · exact .inr hqueued
  · obtain rfl := Option.some.inj hconn
    exact hnew
  · by_cases heq : conn = w.nextConnId_
    · rw [heq]
      exact Nat.lt_succ_self _
    · have hmade' : w.conns conn ≠ none ∨ .connDestroyed conn ∈ w.pendingFunctors := by
        simpa only [World.newConnection, record, Function.update_of_ne heq] using hmade
      exact (h.made conn hmade').trans (Nat.lt_succ_self _)

/-- A connection that has been given up is destroyed. -/
theorem Known.connDestroyed (h : Known w) {conn : ℕ} {fs : List Functor}
    (hfs : w.pendingFunctors = .connDestroyed conn :: fs) :
    Known { w with
      pendingFunctors := fs
      conns := Function.update w.conns conn (some .kDisconnected) } := by
  have hmem : ∀ {conn'}, .connDestroyed conn' ∈ fs → .connDestroyed conn' ∈ w.pendingFunctors := by
    intro conn' hmem
    rw [hfs]
    exact List.mem_cons_of_mem _ hmem
  have hconn : conn < w.nextConnId_ := h.made conn (.inr (hfs ▸ List.mem_cons_self))
  refine ⟨fun conn' hlive => ?_, fun conn' hcurrent hqueued => ?_, fun conn' hmade => ?_⟩
  · by_cases heq : conn' = conn
    · subst heq
      simp [IsLive] at hlive
    · have hlive' : IsLive (w.conns conn') := by
        simpa only [Function.update_of_ne heq] using hlive
      refine (h.live conn' hlive').imp_right fun hqueued => ?_
      rw [hfs] at hqueued
      refine (List.mem_cons.mp hqueued).resolve_left fun hsame => ?_
      exact heq (Functor.connDestroyed.inj hsame)
  · exact h.current conn' hcurrent (hmem hqueued)
  · by_cases heq : conn' = conn
    · rwa [heq]
    · refine h.made conn' (hmade.imp (fun hne => ?_) hmem)
      simpa only [Function.update_of_ne heq] using hne

theorem Known.begins (h : Known w) (hbegins : Begins w l v r) : Known v := by
  cases hbegins with
  | connect | runTimer => exact h.of_eq rfl rfl rfl rfl
  | startInLoop _ hfs => exact h.pop hfs (by simp)
  | restart henabled hconn => exact (h.released hconn henabled.2).of_eq rfl rfl rfl rfl

theorem Known.retry (h : Known w) (sockfd : ℕ) : Known (w.retry sockfd) :=
  h.of_eq (conns_retry ..) (pendingFunctors_retry ..) (connection_retry ..) (nextConnId_retry ..)

theorem Known.attempted (h : Known w) (hattempted : Attempted w r w') : Known w' := by
  have hsocket : Known w.withSocket := h.of_eq rfl rfl rfl rfl
  cases hattempted with
  | connecting | close => exact hsocket.of_eq rfl rfl rfl rfl
  | retry => exact hsocket.retry _

/-- An event makes a connection only for an attempt, when there is none. -/
theorem Known.outcome (h : Known w) (hconn : w.connection_ = none) {channel : Watch}
    {revents : Mask} {err : ℕ} (houtcome : Outcome w channel revents err w') : Known w' := by
  have hchannel : Known { w with connector_ := { w.connector_ with
      channel_ := some { channel with registered := false } } } := h.of_eq rfl rfl rfl rfl
  have hdetached : Known (w.detached channel) := hchannel.queueInLoop (by simp)
  have hconnected : Known (w.connected channel) := hdetached.of_eq rfl rfl rfl rfl
  cases houtcome with
  | retry => exact hdetached.retry _
  | soError => exact hdetached.of_eq rfl rfl rfl rfl
  | newConnection => exact hconnected.newConnection hconn _
  | close => exact hconnected.of_eq rfl rfl rfl rfl
  | stay => exact h

theorem Known.step (h : Known w) (hturns : Turns w) (hok : w.step l = .ok w') : Known w' := by
  cases taken_of_step hok with
  | stay => exact h
  | attempt hbegins hattempted => exact (h.begins hbegins).attempted hattempted
  | disconnect =>
    obtain ⟨conns, heq, hconns⟩ := exists_shutdown { w with connect_ := false }
    rw [heq]
    exact h.of_iff hconns (fun _ => Iff.rfl) rfl rfl
  | connect =>
    have hwanted : Known w.wanted := h.of_eq rfl rfl rfl rfl
    exact hwanted.queueInLoop (by simp)
  | stop =>
    have hunwanted : Known w.unwanted := h.of_eq rfl rfl rfl rfl
    exact hunwanted.queueInLoop (by simp)
  | handleEvent _ _ hchannel hregistered =>
    have hconn := (hturns.flying (inFlight_ne_none hchannel hregistered)).2.2
    exact h.outcome hconn (outcome_handled ..)
  | startInLoop hfs => exact h.pop hfs (by simp)
  | resetChannel hfs | cancelInLoop hfs => exact (h.pop hfs (by simp)).of_eq rfl rfl rfl rfl
  | connDestroyed hfs => exact h.connDestroyed hfs
  | handleClose henabled hconn => exact h.released hconn henabled.2
  | stopInLoop | enableRetry | expire => exact h.of_eq rfl rfl rfl rfl

/-! ### The result -/

/-- What holds of a world reached by steps that are `Sole`. -/
structure Single (w : World) : Prop where
  resets : Resets w
  turns : Turns w
  known : Known w

theorem single_init : Single init := ⟨rfl, turns_init, known_init⟩

theorem Single.step (h : Single w) (hsole : Sole w l) (hok : w.step l = .ok w') : Single w' :=
  ⟨h.resets.step hok, h.turns.step h.resets hsole.timers hok, h.known.step h.turns hok⟩

/-- A step that is `Sole` is as it should be. -/
theorem Single.exclusive (h : Single w) (hsole : Sole w l) : Exclusive (w.step l) := by
  refine ⟨fun herror => ?_, fun herror => ?_, fun w' hok => ?_⟩
  · cases failed_of_step herror with
    | connecting hbegins hr hchannel =>
      exact hchannel (hbegins.channel_eq.trans (hsole.channel _ _ hbegins hr))
  · cases failed_of_step herror with
    | @removeConnection r conn henabled hconn =>
      -- the connection is live, and has not been closed before
      rcases h.known.live conn henabled.2 with hcurrent | hqueued
      · exact hconn hcurrent
      · exact hsole.closes conn r rfl henabled hqueued
  · exact (h.turns.step h.resets hsole.timers hok).outstanding_le

/-- An attempt that is not given up adds to what is outstanding, or fails in the `assert` of
`connecting`. -/
theorem exists_two_le_outstanding (hbegins : Begins w l v r) (hr : verdict r ≠ .close)
    (htimers : v.retryTimers ≠ []) (hconnect : v.connector_.connect_ = true) :
    w.step l = .error .connecting ∨ ∃ w', w.step l = .ok w' ∧ 2 ≤ w'.outstanding := by
  have hpos := List.length_pos_of_ne_nil htimers
  cases hverdict : verdict r with
  | connecting =>
    by_cases hchannel : v.connector_.channel_ = none
    · refine .inr ⟨v.awaiting, hbegins.step_eq.trans (connect_of_connecting hverdict hchannel), ?_⟩
      have hflying : v.awaiting.connector_.state_ = .kConnecting ∧
          v.awaiting.connector_.channel_ ≠ none := ⟨rfl, Option.some_ne_none _⟩
      have htimers' : v.awaiting.retryTimers = v.retryTimers := rfl
      rw [outstanding, if_pos hflying, htimers']
      omega
    · exact .inl (hbegins.step_eq.trans (connect_of_channel hverdict hchannel))
  | retry =>
    refine .inr ⟨_, hbegins.step_eq.trans (connect_of_retry hverdict), ?_⟩
    have hconnect' : v.withSocket.connector_.connect_ = true := hconnect
    have htimers' : v.withSocket.retryTimers = v.retryTimers := rfl
    rw [outstanding, retryTimers_retry, if_pos hconnect', htimers', List.length_append,
      List.length_singleton]
    omega
  | close => exact absurd hverdict hr

/-- A step that is as it should be is `Sole`. -/
theorem Single.sole (h : Single w) (hexclusive : Exclusive (w.step l)) : Sole w l := by
  refine ⟨fun v r hbegins hr => ?_, fun v r hbegins hr => ?_, ?_⟩
  · by_contra htimers
    have hconnect := (h.turns.length_le hbegins).2.resolve_right htimers
    rcases exists_two_le_outstanding hbegins hr htimers hconnect with herror | ⟨w', hok, htwo⟩
    · exact hexclusive.connecting herror
    · exact absurd (hexclusive.outstanding w' hok) (Nat.not_le_of_lt htwo)
  · by_contra hchannel
    rw [← hbegins.channel_eq] at hchannel
    exact hexclusive.connecting (hbegins.step_eq.trans (connect_of_channel hr hchannel))
  · rintro conn r rfl henabled hqueued
    have hconn : ¬w.connection_ = some conn := fun hconn => h.known.current conn hconn hqueued
    refine hexclusive.removeConnection ((step_of_enabled henabled).trans ?_)
    rw [act, removeConnection, Fallible.check_of_not hconn]
    rfl

/-- **One attempt at a time.** For any run of a client: in every state at most one of an attempt in
progress, a retry timer and a connection is there, and the `assert`s of `connecting` and
`removeConnection` do not fail, exactly when every step is `Sole`. -/
theorem exclusive_iff (ls : List Label) :
    Machine.Along step (Machine.onResult Exclusive) init ls ↔
      Machine.Along step (Machine.onInput Sole) init ls := by
  refine Machine.along_iff_along single_init (fun w l h => ⟨h.sole, h.exclusive⟩) ?_
  intro w l w' h hexclusive hok
  exact h.step (h.sole hexclusive) hok

/-- `connect` is called again while the connector waits to retry. -/
def connectedTwice : List Label :=
  [.call true (some .ECONNREFUSED) .connect, .call true (some .EINPROGRESS) .connect, .expire [0]]

/-- The second attempt is in progress when the timer of the first one expires. -/
theorem connected_twice : ∃ w, Machine.run step init connectedTwice = .ok w ∧
    w.outstanding = 2 ∧ w.step (.runTimer (some .EINPROGRESS)) = .error .connecting ∧
    ¬Machine.Along step (Machine.onResult Exclusive) init connectedTwice := by
  refine ⟨_, rfl, rfl, rfl, fun h => ?_⟩
  have htwo := (h.2 _ rfl).2 _ rfl |>.1.outstanding _ rfl
  exact absurd htwo (by decide)

end World

end TcpClient

end MuduoRebuild
