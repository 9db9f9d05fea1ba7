import MuduoRebuild.Foundations.Run
import MuduoRebuild.TcpClient.Operations

/-!
# How attempts end

An attempt to connect owns a socket. `Settled` says what is to become of it: while the attempt is in
progress the connector holds the socket, and at its end it has been passed to
`newConnectionCallback_` or closed, once. After a failure the connector is disconnected, and one
retry timer is scheduled if a connection is still wanted.

One way to end an attempt does neither: `handleWrite` only logs an error that it finds, so that the
socket is lost. And an attempt that begins while a retry timer is scheduled leaves two of them when
it fails. `attempts_settled_iff` says that these are the only exceptions.
-/

namespace MuduoRebuild

namespace TcpClient

/-- How often a socket has been passed on or closed by the connector. -/
def disposals (sockfd : ℕ) (log : List Event) : ℕ :=
  log.count (.newConnection sockfd) + log.count (.close sockfd)

/-! ### The sockets -/

/-- All sockets up to `n` have been created and all but the one in flight have been disposed of,
once. -/
structure Accounted (log : List Event) (n : ℕ) (flight : Option ℕ) : Prop where
  created : ∀ sockfd, .socket sockfd ∈ log ↔ sockfd < n
  disposed : ∀ sockfd, disposals sockfd log = if sockfd < n ∧ flight ≠ some sockfd then 1 else 0
  flight_lt : ∀ sockfd, flight = some sockfd → sockfd < n

section Accounting

variable {log es : List Event} {n sockfd : ℕ} {flight : Option ℕ}

/-- Events that create no socket and dispose of none. -/
def Event.isIdle : Event → Bool
  | .socket _ | .newConnection _ | .close _ => false
  | _ => true

@[simp]
theorem disposals_append (sockfd : ℕ) (log es : List Event) :
    disposals sockfd (log ++ es) = disposals sockfd log + disposals sockfd es := by
  rw [disposals, disposals, disposals, List.count_append, List.count_append]
  omega

theorem disposals_of_isIdle (h : ∀ e ∈ es, e.isIdle = true) : disposals sockfd es = 0 := by
  have hconn : .newConnection sockfd ∉ es := fun hmem => by cases h _ hmem
  have hclose : .close sockfd ∉ es := fun hmem => by cases h _ hmem
  rw [disposals, List.count_eq_zero.mpr hconn, List.count_eq_zero.mpr hclose]

theorem accounted_nil : Accounted [] 0 none :=
  ⟨by simp, by simp [disposals], by simp⟩

theorem Accounted.append (h : Accounted log n flight) (hes : ∀ e ∈ es, e.isIdle = true) :
    Accounted (log ++ es) n flight := by
  refine ⟨fun sockfd => ?_, fun sockfd => ?_, h.flight_lt⟩
  · rw [List.mem_append, h.created, or_iff_left]
    exact fun hmem => by cases hes _ hmem
  · rw [disposals_append, disposals_of_isIdle hes, h.disposed, Nat.add_zero]

/-- A socket is created for an attempt. -/
theorem Accounted.create (h : Accounted log n none) :
    Accounted (log ++ [.socket n]) (n + 1) (some n) := by
  refine ⟨fun sockfd => ?_, fun sockfd => ?_, fun sockfd hsockfd => ?_⟩
  · rw [List.mem_append, h.created, List.mem_singleton, Event.socket.injEq]
    omega
  · have hnone : disposals sockfd [.socket n] = 0 := by simp [disposals]
    rw [disposals_append, h.disposed, hnone]
    refine if_congr ?_ rfl rfl
    simp only [ne_eq, reduceCtorEq, not_false_eq_true, and_true, Option.some.injEq]
    omega
  · obtain rfl := Option.some.inj hsockfd
    exact Nat.lt_succ_self n

/-- A socket is created for an attempt that fails at once. -/
theorem Accounted.refuse (h : Accounted log n flight) :
    Accounted (log ++ [.socket n, .close n]) (n + 1) flight := by
  have hne : flight ≠ some n := fun heq => Nat.lt_irrefl n (h.flight_lt n heq)
  refine ⟨fun sockfd => ?_, fun sockfd => ?_, fun sockfd hsockfd => ?_⟩
  · rw [List.mem_append, h.created]
    simp only [List.mem_cons, List.not_mem_nil, Event.socket.injEq, reduceCtorEq, or_false]
    omega
  · rw [disposals_append, h.disposed]
    by_cases heq : n = sockfd
    · subst heq
      simp [disposals, hne]
    · simp only [disposals, List.count_cons, List.count_nil, beq_iff_eq, Event.close.injEq, heq,
        reduceCtorEq, if_false, Nat.add_zero]
      refine if_congr (and_congr_left fun _ => ?_) rfl rfl
      omega
  · exact (h.flight_lt sockfd hsockfd).trans (Nat.lt_succ_self n)

/-- The socket in flight is passed on or closed. -/
theorem Accounted.dispose (h : Accounted log n (some sockfd)) {e : Event}
    (he : e = .newConnection sockfd ∨ e = .close sockfd) : Accounted (log ++ [e]) n none := by
  refine ⟨fun sockfd' => ?_, fun sockfd' => ?_, fun sockfd' hsockfd => by cases hsockfd⟩
  · rw [List.mem_append, h.created, or_iff_left]
    rcases he with rfl | rfl <;> simp
  · have hone : disposals sockfd' [e] = if sockfd = sockfd' then 1 else 0 := by
      rcases he with rfl | rfl
      · simp [disposals, List.count_cons]
      · simp [disposals, List.count_cons]
    rw [disposals_append, h.disposed, hone]
    have hlt := h.flight_lt sockfd rfl
    by_cases heq : sockfd = sockfd'
    · subst heq
      simp [hlt]
    · simp [heq]

end Accounting

namespace World

variable {w w' v : World} {l : Label}

/-! ### The channel -/

/-- The functors `resetChannel` that are due: one for a channel that the poller has no more. -/
def due (w : World) : ℕ :=
  w.connector_.channel_.elim 0 fun channel => if channel.registered then 0 else 1

/-- A channel that has been taken out of the poller, and no other, is about to be reset. -/
def Resets (w : World) : Prop := w.pendingFunctors.count .resetChannel = w.due

theorem due_of_channel (h : w'.connector_.channel_ = w.connector_.channel_) : w'.due = w.due := by
  rw [due, due, h]

theorem inFlight_of_channel (h : w'.connector_.channel_ = w.connector_.channel_) :
    w'.inFlight = w.inFlight := by
  rw [inFlight, inFlight, h]

theorem inFlight_of_none (h : w.connector_.channel_ = none) : w.inFlight = none := by
  rw [inFlight, h, Option.bind_none]

theorem inFlight_of_registered {channel : Watch} (hchannel : w.connector_.channel_ = some channel)
    (hregistered : channel.registered = true) : w.inFlight = some channel.sockfd := by
  rw [inFlight, hchannel, Option.bind_some, if_pos hregistered]

theorem inFlight_ne_none {channel : Watch} (hchannel : w.connector_.channel_ = some channel)
    (hregistered : channel.registered = true) : w.inFlight ≠ none := by
  rw [inFlight_of_registered hchannel hregistered]
  exact Option.some_ne_none _

/-- No channel that is waiting is reset. -/
theorem Resets.inFlight_eq_none (h : Resets w) (hmem : .resetChannel ∈ w.pendingFunctors) :
    w.inFlight = none := by
  have hpos := List.count_pos_iff.mpr hmem
  rw [h, due] at hpos
  rw [inFlight]
  cases hchannel : w.connector_.channel_ with
  | none => rfl
  | some channel =>
    rw [hchannel, Option.elim_some] at hpos
    rw [Option.bind_some]
    split_ifs at hpos ⊢ with hregistered
    · exact absurd hpos (Nat.lt_irrefl 0)
    · rfl

theorem Resets.of_eq (h : Resets w)
    (hfs : w'.pendingFunctors.count .resetChannel = w.pendingFunctors.count .resetChannel)
    (hchannel : w'.connector_.channel_ = w.connector_.channel_) : Resets w' := by
  rw [Resets, hfs, due_of_channel hchannel]
  exact h

/-- A functor is queued that is not `resetChannel`. -/
theorem count_resetChannel_append {fs : List Functor} {f : Functor} (hf : f ≠ .resetChannel) :
    (fs ++ [f]).count .resetChannel = fs.count .resetChannel := by
  rw [List.count_append, List.count_singleton, if_neg (by simpa using hf), Nat.add_zero]

theorem count_resetChannel_pop {fs : List Functor} {f : Functor}
    (hfs : w.pendingFunctors = f :: fs) (hf : f ≠ .resetChannel) :
    fs.count .resetChannel = w.pendingFunctors.count .resetChannel := by
  rw [hfs, List.count_cons_of_ne hf]

theorem Begins.count_resetChannel {r : Option Errno} (h : Begins w l v r) :
    v.pendingFunctors.count .resetChannel = w.pendingFunctors.count .resetChannel := by
  cases h with
  | connect | runTimer => rfl
  | startInLoop _ hfs => exact count_resetChannel_pop hfs (by simp)
  | restart => exact count_resetChannel_append (by simp)

theorem Begins.channel_eq {r : Option Errno} (h : Begins w l v r) :
    v.connector_.channel_ = w.connector_.channel_ := by
  cases h <;> rfl

theorem Resets.attempted (h : Resets w) {r : Option Errno} (hattempted : Attempted w r w') :
    Resets w' := by
  cases hattempted with
  | connecting _ hchannel =>
    rw [Resets, due, hchannel, Option.elim_none] at h
    exact h
  | retry => exact h.of_eq (by rw [pendingFunctors_retry]; rfl) (by rw [channel_retry]; rfl)
  | close => exact h.of_eq rfl rfl

theorem resets_detached (h : Resets w) {channel : Watch}
    (hchannel : w.connector_.channel_ = some channel) (hregistered : channel.registered = true) :
    Resets (w.detached channel) := by
  rw [Resets, due, hchannel, Option.elim_some, if_pos hregistered] at h
  rw [Resets, detached, queueInLoop, List.count_append]
  exact congrArg (· + 1) h

/-- An event takes the channel out of the poller and queues its reset, or does neither. -/
theorem Resets.outcome (h : Resets w) {channel : Watch}
    (hchannel : w.connector_.channel_ = some channel) (hregistered : channel.registered = true)
    {revents : Mask} {err : ℕ} (houtcome : Outcome w channel revents err w') : Resets w' := by
  have hdetached := resets_detached h hchannel hregistered
  cases houtcome with
  | retry => exact hdetached.of_eq (by rw [pendingFunctors_retry]) (channel_retry _ _)
  | soError | newConnection | close => exact hdetached.of_eq rfl rfl
  | stay => exact h

theorem Resets.step (h : Resets w) (hok : w.step l = .ok w') : Resets w' := by
  cases taken_of_step hok with
  | stay => exact h
  | attempt hbegins hattempted =>
    exact (h.of_eq hbegins.count_resetChannel hbegins.channel_eq).attempted hattempted
  | disconnect =>
    obtain ⟨conns, heq, -⟩ := exists_shutdown { w with connect_ := false }
    rw [heq]
    exact h.of_eq rfl rfl
  | connect | stop => exact h.of_eq (count_resetChannel_append (by simp)) rfl
  | handleEvent _ _ hchannel hregistered =>
    exact h.outcome hchannel hregistered (outcome_handled ..)
  | resetChannel hfs =>
    have hone : w.due ≤ 1 := by
      rw [due]
      cases w.connector_.channel_ with
      | none => exact Nat.zero_le 1
      | some channel =>
        rw [Option.elim_some]
        split_ifs <;> decide
    rw [Resets, hfs, List.count_cons_self] at h
    exact Nat.le_zero.mp (Nat.le_of_succ_le_succ (h.trans_le hone))
  | startInLoop hfs | cancelInLoop hfs | connDestroyed hfs =>
    exact h.of_eq (count_resetChannel_pop hfs (by simp)) rfl
  | handleClose => exact h.of_eq (count_resetChannel_append (by simp)) rfl
  | stopInLoop | enableRetry | expire => exact h.of_eq rfl rfl

/-! ### Losing a socket -/

/-- The step is a `handleWrite` that finds an error. -/
def Loses (w : World) : Label → Prop
  | .handleEvent revents err isSelf => w.Enabled (.handleEvent revents err isSelf) ∧
      w.connector_.state_ = .kConnecting ∧ Channel.triggers revents .error = false ∧
      Channel.triggers revents .write = true ∧ err ≠ 0
  | _ => False

/-- The sockets are accounted for. -/
def Holds (w : World) : Prop := Accounted w.log w.nextSocket w.inFlight

theorem Holds.append (h : Holds w) {es : List Event} (hlog : w'.log = w.log ++ es)
    (hes : ∀ e ∈ es, e.isIdle = true) (hsocket : w'.nextSocket = w.nextSocket)
    (hflight : w'.inFlight = w.inFlight) : Holds w' := by
  rw [Holds, hlog, hsocket, hflight]
  exact Accounted.append h hes

theorem Holds.same (h : Holds w) (hlog : w'.log = w.log) (hsocket : w'.nextSocket = w.nextSocket)
    (hflight : w'.inFlight = w.inFlight) : Holds w' :=
  h.append (hlog.trans (List.append_nil _).symm) (List.forall_mem_nil _) hsocket hflight

theorem Begins.holds {r : Option Errno} (hbegins : Begins w l v r) (h : Holds w) : Holds v := by
  cases hbegins with
  | connect | restart => exact h.append rfl (List.forall_mem_singleton.mpr rfl) rfl rfl
  | runTimer | startInLoop => exact h.same rfl rfl rfl

theorem isIdle_of_runAfter {es : List Event}
    (hes : ∀ e ∈ es, ∃ timerId delayMs, e = .runAfter timerId delayMs) :
    ∀ e ∈ es, e.isIdle = true := by
  intro e he
  obtain ⟨timerId, delayMs, rfl⟩ := hes e he
  rfl

theorem Holds.attempted (h : Holds w) {r : Option Errno} (hattempted : Attempted w r w') :
    Holds w' := by
  cases hattempted with
  | connecting _ hchannel =>
    rw [Holds, inFlight_of_none hchannel] at h
    exact h.create
  | retry =>
    obtain ⟨es, hlog, hes⟩ := exists_log_retry w.withSocket w.nextSocket
    rw [Holds, hlog, nextSocket_retry, inFlight_of_channel (channel_retry _ _)]
    refine Accounted.append ?_ (isIdle_of_runAfter hes)
    rw [withSocket, record, List.append_assoc]
    exact Accounted.refuse h
  | close =>
    rw [Holds, record, withSocket, record, List.append_assoc]
    exact Accounted.refuse h

/-- The socket of an attempt in progress is closed, or passed on. -/
theorem Holds.outcome (h : Holds w) {channel : Watch}
    (hchannel : w.connector_.channel_ = some channel) (hregistered : channel.registered = true)
    {revents : Mask} {err : ℕ} (hloses : Channel.triggers revents .error = false →
      Channel.triggers revents .write = true → err = 0)
    (houtcome : Outcome w channel revents err w') : Holds w' := by
  have hflying : Accounted w.log w.nextSocket (some channel.sockfd) := by
    rw [← inFlight_of_registered hchannel hregistered]
    exact h
  have hconnected : Accounted (w.log ++ [.connected channel.sockfd]) w.nextSocket
      (some channel.sockfd) := hflying.append (List.forall_mem_singleton.mpr rfl)
  cases houtcome with
  | retry =>
    obtain ⟨es, hlog, hes⟩ := exists_log_retry (w.detached channel) channel.sockfd
    rw [Holds, hlog, nextSocket_retry, inFlight_of_channel (channel_retry _ _)]
    exact (hflying.dispose (.inr rfl)).append (isIdle_of_runAfter hes)
  | soError herror hwrite herr => exact absurd (hloses herror hwrite) herr
  | newConnection => exact hconnected.dispose (.inl rfl)
  | close => exact hconnected.dispose (.inr rfl)
  | stay => exact h

theorem Holds.step (h : Holds w) (hresets : Resets w) (hloses : ¬w.Loses l)
    (hok : w.step l = .ok w') : Holds w' := by
  cases taken_of_step hok with
  | stay => exact h
  | attempt hbegins hattempted => exact (hbegins.holds h).attempted hattempted
  | disconnect =>
    obtain ⟨conns, heq, -⟩ := exists_shutdown { w with connect_ := false }
    rw [heq]
    exact h.same rfl rfl rfl
  | connect | stop | stopInLoop =>
    exact h.append rfl (List.forall_mem_singleton.mpr rfl) rfl rfl
  | handleEvent henabled hstate hchannel hregistered =>
    refine h.outcome hchannel hregistered (fun herror hwrite => ?_) (outcome_handled ..)
    by_contra herr
    exact hloses ⟨henabled, hstate, herror, hwrite, herr⟩
  | resetChannel hfs =>
    have hnone := hresets.inFlight_eq_none (hfs ▸ List.mem_cons_self)
    exact h.same rfl rfl hnone.symm
  | enableRetry | expire | startInLoop | cancelInLoop | connDestroyed | handleClose =>
    exact h.same rfl rfl rfl

/-! ### Failing -/

/-- An attempt fails in the step, for a reason to try again. The attempt is made, or was in
progress, in the world `v`. -/
inductive Fails (w : World) : Label → World → Prop where
  | refused {l : Label} {v : World} {r : Option Errno} (hbegins : Begins w l v r)
      (hr : verdict r = .retry) : Fails w l v
  | error {revents : Mask} {err : ℕ} {isSelf : Bool}
    (henabled : w.Enabled (.handleEvent revents err isSelf))
    (hstate : w.connector_.state_ = .kConnecting)
    (herror : Channel.triggers revents .error = true) : Fails w (.handleEvent revents err isSelf) w
  | soError {revents : Mask} {err : ℕ} {isSelf : Bool}
    (henabled : w.Enabled (.handleEvent revents err isSelf))
    (hstate : w.connector_.state_ = .kConnecting)
    (herror : Channel.triggers revents .error = false)
    (hwrite : Channel.triggers revents .write = true) (herr : err ≠ 0) :
    Fails w (.handleEvent revents err isSelf) w
  | selfConnection {revents : Mask} (henabled : w.Enabled (.handleEvent revents 0 true))
    (hstate : w.connector_.state_ = .kConnecting)
    (herror : Channel.triggers revents .error = false)
    (hwrite : Channel.triggers revents .write = true) : Fails w (.handleEvent revents 0 true) w

/-- Every socket has one owner, and a failed attempt leaves one retry timer if a connection is
wanted. -/
structure Settled (w : World) (l : Label) (w' : World) : Prop where
  /-- The connector has the socket of the attempt in progress. All others it has passed on or
  closed, once. -/
  sockets : ∀ sockfd, .socket sockfd ∈ w'.log →
    disposals sockfd w'.log = if w'.inFlight = some sockfd then 0 else 1
  failed : ∀ v, w.Fails l v → w'.connector_.state_ = .kDisconnected ∧
    w'.retryTimers.length = if w'.connector_.connect_ then 1 else 0

/-- The step loses no socket, and no attempt fails while a retry timer is scheduled. -/
structure Careful (w : World) (l : Label) : Prop where
  loses : ¬w.Loses l
  alone : ∀ v, w.Fails l v → v.retryTimers = []

theorem exists_channel_of_enabled {revents : Mask} {err : ℕ} {isSelf : Bool}
    (h : w.Enabled (.handleEvent revents err isSelf)) :
    ∃ channel, w.connector_.channel_ = some channel ∧ channel.registered = true :=
  (Option.any_eq_true _ _).mp h.2

/-- A failure leads to `retry`, unless the socket is lost. -/
theorem Fails.exists_step_eq (h : Fails w l v) (hloses : ¬w.Loses l) :
    ∃ (u : World) (sockfd : ℕ),
      w.step l = .ok (u.retry sockfd) ∧ u.retryTimers = v.retryTimers := by
  have hevent : ∀ {revents err isSelf}, w.Enabled (.handleEvent revents err isSelf) →
      w.connector_.state_ = .kConnecting → ∃ channel, w.step (.handleEvent revents err isSelf) =
        .ok (w.handled channel revents err isSelf) := by
    intro revents err isSelf henabled hstate
    obtain ⟨channel, hchannel, -⟩ := exists_channel_of_enabled henabled
    refine ⟨channel, (step_of_enabled henabled).trans ?_⟩
    exact handleEvent_of_connecting hstate hchannel revents err isSelf
  cases h with
  | refused hbegins hr =>
    exact ⟨v.withSocket, v.nextSocket, hbegins.step_eq.trans (connect_of_retry hr), rfl⟩
  | error henabled hstate herror =>
    obtain ⟨channel, hstep⟩ := hevent henabled hstate
    refine ⟨w.detached channel, channel.sockfd, ?_, rfl⟩
    rw [hstep, handled, if_pos herror]
  | soError henabled hstate herror hwrite herr =>
    exact absurd ⟨henabled, hstate, herror, hwrite, herr⟩ hloses
  | selfConnection henabled hstate herror hwrite =>
    obtain ⟨channel, hstep⟩ := hevent henabled hstate
    refine ⟨w.detached channel, channel.sockfd, ?_, rfl⟩
    rw [hstep, handled, if_neg (by rw [herror]; decide), if_pos hwrite, if_neg (by decide),
      if_pos rfl]

theorem length_retryTimers_retry_iff (u : World) (sockfd : ℕ) :
    (u.retry sockfd).retryTimers.length =
      (if (u.retry sockfd).connector_.connect_ then 1 else 0) ↔ u.retryTimers = [] := by
  rw [retryTimers_retry, connect_retry, List.length_append, ← List.length_eq_zero_iff]
  split_ifs
  · rw [List.length_singleton]
    omega
  · rw [List.length_nil, Nat.add_zero]

/-- What holds of a world reached by careful steps. -/
def Owns (w : World) : Prop := Resets w ∧ Holds w

theorem owns_init : Owns init := ⟨rfl, accounted_nil⟩

theorem Owns.sockets (h : Owns w) (sockfd : ℕ) (hsocket : .socket sockfd ∈ w.log) :
    disposals sockfd w.log = if w.inFlight = some sockfd then 0 else 1 := by
  have hlt := (h.2.created sockfd).mp hsocket
  rw [h.2.disposed]
  by_cases hflight : w.inFlight = some sockfd
  · rw [if_pos hflight, if_neg fun hother => hother.2 hflight]
  · rw [if_neg hflight, if_pos ⟨hlt, hflight⟩]

/-- A step that loses a socket leaves it without an owner. -/
theorem not_settled_of_loses (h : Owns w) (hloses : w.Loses l) :
    ¬Machine.UnlessFault (Settled w l) (w.step l) := by
  cases l with
  | handleEvent revents err isSelf =>
    obtain ⟨henabled, hstate, herror, hwrite, herr⟩ := hloses
    obtain ⟨channel, hchannel, hregistered⟩ := exists_channel_of_enabled henabled
    have hstep : w.step (.handleEvent revents err isSelf) =
        .ok ((w.detached channel).record (.soError channel.sockfd err)) := by
      rw [step_of_enabled henabled]
      refine (handleEvent_of_connecting hstate hchannel revents err isSelf).trans ?_
      rw [handled, if_neg (by rw [herror]; decide), if_pos hwrite, if_pos herr]
    have hflight := inFlight_of_registered hchannel hregistered
    have hcreated : .socket channel.sockfd ∈ w.log :=
      (h.2.created _).mpr (h.2.flight_lt _ hflight)
    intro hsettled
    have hone := (hsettled _ hstep).sockets channel.sockfd (List.mem_append_left _ hcreated)
    have hnone : disposals channel.sockfd (w.log ++ [.soError channel.sockfd err]) = 0 := by
      rw [disposals_append, h.sockets _ hcreated, if_pos hflight]
      simp [disposals]
    cases hnone.symm.trans hone
  | _ => exact hloses.elim

/-- A step settles the attempts exactly when it is careful. -/
theorem Owns.settled_iff (h : Owns w) (l : Label) :
    Machine.UnlessFault (Settled w l) (w.step l) ↔ Careful w l := by
  constructor
  · intro hsettled
    have hloses : ¬w.Loses l := fun hloses => not_settled_of_loses h hloses hsettled
    refine ⟨hloses, fun v hfails => ?_⟩
    obtain ⟨u, sockfd, hstep, htimers⟩ := hfails.exists_step_eq hloses
    rw [← htimers, ← length_retryTimers_retry_iff u sockfd]
    exact ((hsettled _ hstep).failed v hfails).2
  · intro hcareful w' hok
    have hnext : Owns w' := ⟨h.1.step hok, h.2.step h.1 hcareful.loses hok⟩
    refine ⟨hnext.sockets, fun v hfails => ?_⟩
    obtain ⟨u, sockfd, hstep, htimers⟩ := hfails.exists_step_eq hcareful.loses
    obtain rfl := Except.ok.inj (hstep.symm.trans hok)
    refine ⟨state_retry u sockfd, (length_retryTimers_retry_iff u sockfd).mpr ?_⟩
    rw [htimers, hcareful.alone v hfails]

/-- **Attempt outcome.** For any run of a client: in every state each socket that was created is
that of the attempt in progress, or has been passed to `newConnectionCallback_` or closed, once, and
every failed attempt leaves the connector disconnected, with one retry timer if a connection is
wanted and none otherwise, exactly when every step is careful. -/
theorem attempts_settled_iff (ls : List Label) :
    Machine.Along step (fun w l r => Machine.UnlessFault (Settled w l) r) init ls ↔
      Machine.Along step (Machine.onInput Careful) init ls := by
  refine Machine.along_iff_along owns_init (fun w l h => Owns.settled_iff h l) ?_
  intro w l w' h hsettled hok
  have hcareful := (Owns.settled_iff h l).mp hsettled
  exact ⟨h.1.step hok, h.2.step h.1 hcareful.loses hok⟩

/-- The server accepts and resets the connection before `handleWrite` asks for the error. -/
def resetEarly : List Label :=
  [.call true (some .EINPROGRESS) .connect, .handleEvent POLLOUT 104 false, .runFunctor none]

/-- The socket is lost, and the client waits for nothing. -/
theorem socket_lost : ∃ w, Machine.run step init resetEarly = .ok w ∧
    w.log = [.connect, .socket 0, .soError 0 104] ∧ w.connector_.state_ = .kConnecting ∧
    w.connector_.connect_ = true ∧ w.connector_.channel_ = none ∧ w.retryTimers = [] ∧
    ¬Machine.Along step (fun w l r => Machine.UnlessFault (Settled w l) r) init resetEarly := by
  refine ⟨_, rfl, rfl, rfl, rfl, rfl, rfl, fun h => ?_⟩
  have hsettled := (h.2 _ rfl).1 _ rfl
  exact absurd (hsettled.sockets 0 (by decide)) (by decide)

end World

end TcpClient

end MuduoRebuild
