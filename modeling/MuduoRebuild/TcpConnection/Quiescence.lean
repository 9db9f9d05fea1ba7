import MuduoRebuild.TcpConnection.Lifecycle

/-!
# After a connection has been closed

`handleClose` disables the channel, and `connDestroyed` removes it from the poller. `StaysQuiet`
says that a step leaves it at that. There are two ways to wake the channel up. `sendInLoop` does
not look at `state_`: a functor left in the queue, or a call of `send` in the loop's thread
before `connDestroyed` has run, enables writing if it cannot write the whole message. And
`handleClose` updates the channel once more if it is called again after `connDestroyed`, which
needs a thread that sets `kDisconnecting` late.

`quiescence_iff` says that the channel stays quiet exactly when every step is `Restful`.
-/

namespace MuduoRebuild

namespace TcpConnection

open Fallible

variable {c : Setup}

namespace World

variable {w w' : World} {l : Label}

/-- The channel keeps quiet once it has been disabled, and unregistered once it has been
removed. -/
structure StaysQuiet (c : Setup) (w w' : World) : Prop where
  silent : .close ∈ w'.log → w'.loop.events () = Channel.kNonEvent
  removed : w.state ≠ .kConnecting → ¬Registered c.sockfd w.loop → ¬Registered c.sockfd w'.loop

/-! ### Restful steps -/

/-- The socket does not take the whole message at once: `::write` is not called, fails, or accepts
less. -/
def Unsent (w : World) (n : Option ℕ) (message : List UInt8) : Prop :=
  (if w.isWriting = false ∧ w.outputBuffer = [] then n.getD 0 else 0) < message.length

/-- The step is a `sendInLoop` that has to put something into the output buffer. -/
def Buffers (w : World) : Label → Prop
  | .callInLoop n (.send payload) => (w.work = [] ∨ w.work.head? = some .userCode) ∧
      w.state = .kConnected ∧ w.Unsent n payload.message
  | .runFunctor n => w.work = [] ∧ ∃ sender message,
      w.pendingFunctors.head? = some (.sendInLoop sender message) ∧ w.Unsent n message
  | _ => False

instance (w : World) (n : Option ℕ) (message : List UInt8) : Decidable (w.Unsent n message) :=
  inferInstanceAs (Decidable (_ < _))

instance (w : World) (n : Option ℕ) : Decidable (∃ sender message,
    w.pendingFunctors.head? = some (.sendInLoop sender message) ∧ w.Unsent n message) :=
  decidable_of_iff (∃ m ∈ waiting w.pendingFunctors.head?.toList, w.Unsent n m.2) <| by
    rcases w.pendingFunctors.head? with _ | f
    · simp [waiting]
    · cases f <;> simp [waiting]

instance (w : World) (l : Label) : Decidable (w.Buffers l) :=
  match l with
  | .callInLoop n (.send payload) => inferInstanceAs (Decidable ((w.work = [] ∨
      w.work.head? = some .userCode) ∧ w.state = .kConnected ∧ w.Unsent n payload.message))
  | .runFunctor n => inferInstanceAs (Decidable (w.work = [] ∧ ∃ sender message,
      w.pendingFunctors.head? = some (.sendInLoop sender message) ∧ w.Unsent n message))
  | .callInLoop _ .shutdown | .callInLoop _ .forceClose | .callInLoop _ .forceCloseWithDelay
  | .call .. | .continueCall _ | .handleEvent _ | .runTask _ | .timeout | .removeConnectionInLoop =>
    inferInstanceAs (Decidable False)

/-- The step does not wake a closed connection up. -/
structure Restful (c : Setup) (w : World) (l : Label) : Prop where
  sends : .close ∈ w.log → ¬w.Buffers l
  /-- For any other owner a second `handleClose` fails in an `assert`. -/
  closes : c.owner = .tcpServer false → w.state = .kConnected ∨ w.state = .kDisconnecting →
    ¬Registered c.sockfd w.loop → ¬w.Closes l

theorem Restful.registered (h : Restful c w l) (hcloses : w.Closes l)
    (howner : c.owner = .tcpServer false)
    (hstate : w.state = .kConnected ∨ w.state = .kDisconnecting) : Registered c.sockfd w.loop := by
  by_contra hreg
  exact h.closes howner hstate hreg hcloses

/-! ### The channel -/

end World

section Tracked

variable {fd : ℕ} {s : Loop (EpollPoller Unit) Unit}

/-- A channel that waits for events is registered. -/
theorem Tracked.registered (h : Tracked fd s) (hevents : s.events () ≠ 0) : Registered fd s := by
  obtain ⟨r, htracks, hsane⟩ := h
  have hstatus : r.status () = .registered := by
    by_contra hne
    exact hevents (htracks.events_eq ▸ hsane.events_eq_zero () hne)
  rw [Registered, htracks.find_eq (), if_pos hstatus]

/-- `epoll_wait` can report it. -/
theorem Tracked.isSome_interest (h : Tracked fd s) (hevents : s.events () ≠ 0) :
    (s.poller.interest fd).isSome := by
  obtain ⟨r, htracks, hsane⟩ := h
  rw [htracks.events_eq] at hevents
  have hstatus : r.status () = .registered := by
    by_contra hne
    exact hevents (hsane.events_eq_zero () hne)
  rw [htracks.interest_eq hstatus hevents]
  rfl

/-- What `epoll_wait` can report is registered. -/
theorem Tracked.registered_of_isSome (h : Tracked fd s)
    (hsome : (s.poller.interest fd).isSome) : Registered fd s := by
  obtain ⟨r, htracks, -⟩ := h
  have hstatus : r.status () = .registered := by
    by_contra hne
    rw [(htracks.new () hne).2] at hsome
    cases hsome
  rw [Registered, htracks.find_eq (), if_pos hstatus]

end Tracked

theorem events_ne_zero_of_isReading {events : Mask} (h : Channel.isReading events = true) :
    events ≠ 0 := by
  rintro rfl
  rw [Channel.isReading_zero] at h
  cases h

theorem events_ne_zero_of_isWriting {events : Mask} (h : Channel.isWriting events = true) :
    events ≠ 0 := by
  rintro rfl
  cases h

namespace World

variable {w w' : World} {l : Label}

/-- The number of bytes that `sendInLoop` writes is less than the message when some are unsent. -/
theorem sendDirectly_lt_iff (n : Option ℕ) (message : List UInt8) (e : Event) :
    ((w.record e).sendDirectly c n message).2 < message.length ↔ w.Unsent n message := by
  rw [Unsent, sendDirectly]
  by_cases hdirect : w.isWriting = false ∧ w.outputBuffer = []
  · have hcond : (w.record e).isWriting = false ∧ (w.record e).outputBuffer.length = 0 :=
      ⟨hdirect.1, by rw [show (w.record e).outputBuffer = [] from hdirect.2]; rfl⟩
    rw [if_pos hcond, if_pos hdirect]
    cases n with
    | none => exact Iff.rfl
    | some m =>
      simp only [write, Option.map_some, Option.getD_some]
      split_ifs
      · omega
      · omega
  · have hcond : ¬((w.record e).isWriting = false ∧ (w.record e).outputBuffer.length = 0) := by
      rw [List.length_eq_zero_iff]
      exact hdirect
    rw [if_neg hcond, if_neg hdirect]

/-- What `sendInLoop` does to the channel. -/
theorem exists_sendInLoop_loop (h : Tracked c.sockfd w.loop) (n : Option ℕ) (sender : Thread)
    (message : List UInt8) : ∃ w', w.sendInLoop c n sender message = .ok w' ∧
      (¬w.Unsent n message ∧ w'.loop = w.loop ∨
        w.Unsent n message ∧ Channel.isWriting (w'.loop.events ()) = true) := by
  obtain ⟨k, es, fs, hdirect, -⟩ :=
    exists_sendDirectly (c := c) (w := w) n message (.sent sender message)
  have hlt := sendDirectly_lt_iff (c := c) (w := w) n message (.sent sender message)
  rw [hdirect] at hlt
  rw [sendInLoop, hdirect]
  dsimp only
  split_ifs with hk
  · obtain ⟨loop, hbuffer, -, -, hwriting⟩ := exists_buffer (c := c) (w := { w with
        pendingFunctors := w.pendingFunctors ++ fs
        log := w.log ++ .sent sender message :: es }) h (message.drop k)
    exact ⟨_, hbuffer, .inr ⟨hlt.mp hk, hwriting⟩⟩
  · exact ⟨_, rfl, .inl ⟨fun hunsent => hk (hlt.mpr hunsent), rfl⟩⟩

theorem loop_shutdownInLoop (w : World) :
    w.shutdownInLoop.loop = w.loop ∧ w.shutdownInLoop.work = w.work := by
  rw [shutdownInLoop]
  split_ifs
  · exact ⟨rfl, rfl⟩
  · exact ⟨rfl, rfl⟩

/-- Only `send` can change the channel. -/
theorem loop_eq_of_callInLoop {n : Option ℕ} {call : Call}
    (hcall : ∀ payload, call ≠ .send payload) (hok : w.callInLoop c n call = .ok w') :
    w'.loop = w.loop := by
  rw [callInLoop] at hok
  split_ifs at hok
  · obtain ⟨v, hv, hok⟩ := bind_eq_ok.mp hok
    obtain rfl := Except.ok.inj hok
    cases call with
    | send payload => exact absurd rfl (hcall payload)
    | shutdown =>
      obtain rfl := Except.ok.inj hv
      exact (loop_shutdownInLoop _).1
    | forceClose | forceCloseWithDelay =>
      obtain rfl := Except.ok.inj hv
      rfl
  · rw [Except.ok.inj hok]

/-! ### Where the channel is in its life -/

/-- Who keeps the channel registered. -/
inductive Custody where
  /-- The owner. -/
  | owned
  /-- A functor `connDestroyed` in the queue. -/
  | queued
  /-- `connDestroyed`, which is in progress. -/
  | leaving
  /-- Nobody: the channel has been removed. -/
  | gone
  deriving DecidableEq

namespace Custody

def isOwned : Custody → Bool
  | owned => true
  | queued | leaving | gone => false

/-- The functors `connDestroyed` in the queue. -/
def destroys : Custody → ℕ
  | queued => 1
  | owned | leaving | gone => 0

/-- The calls of `removeChannel` that are left to do. -/
def removes : Custody → ℕ
  | leaving => 1
  | owned | queued | gone => 0

end Custody

/-- An established connection, whose channel has been quiet if the connection is closed. -/
structure InCustody (c : Setup) (k : Custody) (w : World) : Prop where
  state : w.state ≠ .kConnecting
  establishes : .connEstablished ∉ w.pendingFunctors
  owned_eq : w.owned = k.isOwned
  destroys_eq : w.pendingFunctors.count .connDestroyed = k.destroys
  removes_eq : w.work.count .removeChannel = k.removes
  reading : .close ∉ w.log → w.isReading = true
  silent : .close ∈ w.log → w.loop.events () = Channel.kNonEvent
  closed : k ≠ .owned ∨ 0 < w.removals → .close ∈ w.log
  registered_iff : Registered c.sockfd w.loop ↔ k ≠ .gone

/-- The state, the owner and the functors that decide on the life of the channel stay as they
are. -/
structure Still (w w' : World) : Prop where
  state : w.state ≠ .kConnecting → w'.state ≠ .kConnecting
  reading_eq : w'.isReading = w.isReading
  owned_eq : w'.owned = w.owned
  removals_eq : w'.removals = w.removals
  close_iff : .close ∈ w'.log ↔ .close ∈ w.log
  establishes : .connEstablished ∈ w'.pendingFunctors ↔ .connEstablished ∈ w.pendingFunctors
  destroys_eq : w'.pendingFunctors.count .connDestroyed = w.pendingFunctors.count .connDestroyed

theorem Neutral.still (h : Neutral w w') : Still w w' := by
  obtain ⟨es, hes, hclose, -⟩ := h.log_eq
  refine ⟨?_, h.reading_eq, h.owned_eq, h.removals_eq, ?_, ?_, h.functors.2⟩
  · intro hstate
    rcases h.state with hs | hs
    · exact hs ▸ hstate
    · rw [hs]
      decide
  · rw [hes, List.mem_append]
    exact or_iff_left hclose
  · rw [← List.count_pos_iff, h.functors.1, List.count_pos_iff]

variable {k : Custody}

/-- A channel that is read, or that is left alone, stays registered or not. -/
theorem InCustody.still (h : InCustody c k w) (hstill : Still w w')
    (htracked : Tracked c.sockfd w'.loop)
    (hwork : w'.work.count .removeChannel = w.work.count .removeChannel)
    (hloop : .close ∈ w.log → w'.loop = w.loop) : InCustody c k w' := by
  refine ⟨hstill.state h.state, ?_, hstill.owned_eq.trans h.owned_eq,
    hstill.destroys_eq.trans h.destroys_eq, hwork.trans h.removes_eq, ?_, ?_, ?_, ?_⟩
  · rw [hstill.establishes]
    exact h.establishes
  · rw [hstill.close_iff, hstill.reading_eq]
    exact h.reading
  · rw [hstill.close_iff]
    intro hclose
    rw [hloop hclose]
    exact h.silent hclose
  · rw [hstill.close_iff, hstill.removals_eq]
    exact h.closed
  · by_cases hclose : .close ∈ w.log
    · rw [hloop hclose]
      exact h.registered_iff
    · have hreading := hstill.reading_eq.trans (h.reading hclose)
      have howned : k = .owned := by
        by_contra hne
        exact hclose (h.closed (.inl hne))
      exact iff_of_true (htracked.registered (events_ne_zero_of_isReading hreading))
        (by rw [howned]; decide)

/-- A channel that has been removed stays so. -/
def Onward (c : Setup) (k : Custody) (w : World) : Prop :=
  ∃ k', InCustody c k' w ∧ (k = .gone → k' = .gone)

/-! ### Closing and removing -/

/-- `handleClose` disables the channel. It is a channel that is still registered, or an `assert`
fails. -/
theorem InCustody.handleClose (h : InCustody c k w) (htracked : Tracked c.sockfd w.loop)
    (hreg : c.owner = .tcpServer false → w.state = .kConnected ∨ w.state = .kDisconnecting →
      Registered c.sockfd w.loop)
    (hok : w.handleClose c = .ok w') : Onward c k w' := by
  obtain ⟨_, hstate, hclose⟩ := bind_eq_ok.mp hok
  obtain ⟨loop, hloop, -, hnow, hevents⟩ := exists_update (w := w) htracked .disableAll
  rw [bind_of_ok hloop] at hclose
  have hsilent : loop.events () = Channel.kNonEvent := hevents
  cases removeConnection_eq_ok hclose with
  | posted howner =>
    refine ⟨k, ⟨h.state, h.establishes, h.owned_eq, h.destroys_eq, h.removes_eq, ?_,
      fun _ => hsilent, fun _ => by simp [record], ?_⟩, id⟩
    · intro hopen
      simp [record] at hopen
    · exact iff_of_true hnow (h.registered_iff.mp (hreg howner (check_eq_ok.mp hstate)))
  | dropped _ howned =>
    -- the connection had not been given up before
    have hk : k = .owned := by
      have heq := h.owned_eq.symm.trans howned
      cases k with
      | owned => rfl
      | queued | leaving | gone => cases heq
    subst hk
    refine ⟨.queued, ⟨h.state, ?_, rfl, ?_, h.removes_eq, ?_, fun _ => hsilent,
      fun _ => by simp [record], iff_of_true hnow (by decide)⟩, by decide⟩
    · simpa [record] using h.establishes
    · simp [record, List.count_append, h.destroys_eq, Custody.destroys]
    · intro hopen
      simp [record] at hopen

theorem InCustody.removeConnectionInLoop (h : InCustody c k w) (hremovals : 0 < w.removals)
    (hok : { w with removals := w.removals - 1 }.removeConnectionInLoop = .ok w') :
    Onward c k w' := by
  obtain ⟨howned, rfl⟩ := removeConnectionInLoop_eq_ok hok
  have hclose := h.closed (.inr hremovals)
  have hk : k = .owned := by
    have heq := h.owned_eq.symm.trans howned
    cases k with
    | owned => rfl
    | queued | leaving | gone => cases heq
  subst hk
  refine ⟨.queued, ⟨h.state, ?_, rfl, ?_, h.removes_eq, h.reading, h.silent, fun _ => hclose, ?_⟩,
    by decide⟩
  · simpa using h.establishes
  · simp [List.count_append, h.destroys_eq, Custody.destroys]
  · exact h.registered_iff.trans (by decide)

theorem InCustody.connDestroyed (h : InCustody c k w) (htracked : Tracked c.sockfd w.loop)
    {fs : List Functor} (hfs : w.pendingFunctors = .connDestroyed :: fs) (hidle : w.work = [])
    (hok : { w with pendingFunctors := fs }.connDestroyed c = .ok w') :
    Onward c k w' := by
  obtain ⟨_, -, hok⟩ := bind_eq_ok.mp hok
  obtain ⟨loop, hloop, -, hreg, hevents⟩ := exists_update
    (w := { w with pendingFunctors := fs, state := .kDisconnected }) htracked .disableAll
  rw [bind_of_ok hloop] at hok
  obtain rfl := Except.ok.inj hok
  have hdestroys := h.destroys_eq
  have hest := h.establishes
  rw [hfs, List.count_cons_self] at hdestroys
  rw [hfs, List.mem_cons, not_or] at hest
  have hk : k = .queued := by
    cases k with
    | queued => rfl
    | owned | leaving | gone => cases hdestroys
  subst hk
  have hclose := h.closed (.inl (by decide))
  refine ⟨.leaving, ⟨by simp, hest.2, h.owned_eq, Nat.succ.inj hdestroys, ?_,
    fun hopen => absurd hclose hopen, fun _ => hevents, fun _ => hclose,
    iff_of_true hreg (by decide)⟩, by decide⟩
  rw [hidle]
  rfl

theorem InCustody.removeChannel (h : InCustody c k w) (htracked : Tracked c.sockfd w.loop)
    {work : List Task} (hwork : w.work = .removeChannel :: work)
    (hok : { w with work }.removeChannel c = .ok w') : Onward c k w' := by
  have hgone := not_registered_of_removeChannel hok
  have hremoves := h.removes_eq
  rw [hwork, List.count_cons_self] at hremoves
  have hk : k = .leaving := by
    cases k with
    | leaving => rfl
    | owned | queued | gone => cases hremoves
  subst hk
  have hclose := h.closed (.inl (by decide))
  obtain ⟨loop, hremove, -, hevents⟩ := exists_removeChannel (c := c) (w := { w with work })
    htracked (h.registered_iff.mpr (by decide)) (h.silent hclose)
  obtain rfl := Except.ok.inj (hremove.symm.trans hok)
  exact ⟨.gone, ⟨h.state, h.establishes, h.owned_eq, h.destroys_eq, Nat.succ.inj hremoves,
    fun hopen => absurd hclose hopen, fun _ => hevents, fun _ => hclose,
    iff_of_false hgone (by decide)⟩, fun _ => rfl⟩

/-! ### Restful steps keep quiet -/

/-- `sendInLoop`, which leaves the channel of a closed connection alone if it can. -/
theorem InCustody.sendInLoop (h : InCustody c k w) (htracked : Tracked c.sockfd w.loop)
    {n : Option ℕ} {sender : Thread} {message : List UInt8}
    (hsent : .close ∈ w.log → ¬w.Unsent n message)
    (hok : w.sendInLoop c n sender message = .ok w') : InCustody c k w' := by
  obtain ⟨v, hsend, hneutral, hwork⟩ := exists_neutral_sendInLoop htracked n sender message
  obtain rfl := Except.ok.inj (hok.symm.trans hsend)
  obtain ⟨v, hsend, hloop⟩ := exists_sendInLoop_loop htracked n sender message
  obtain rfl := Except.ok.inj (hok.symm.trans hsend)
  refine h.still hneutral.still (sends_sendInLoop htracked hok).tracked (by rw [hwork]) ?_
  intro hclose
  rcases hloop with ⟨-, heq⟩ | ⟨hunsent, -⟩
  · exact heq
  · exact absurd hunsent (hsent hclose)

/-- `handleWrite`, which does nothing on a channel that is not writing. -/
theorem InCustody.handleWrite (h : InCustody c k w) (htracked : Tracked c.sockfd w.loop)
    {n : Option ℕ} (hok : w.handleWrite c n = .ok w') : InCustody c k w' := by
  obtain ⟨v, hwrite, hneutral, hwork⟩ := exists_neutral_handleWrite htracked n
  obtain rfl := Except.ok.inj (hok.symm.trans hwrite)
  obtain ⟨loop, _, _, _, hwrite, -, htracked', -⟩ := exists_handleWrite (c := c) htracked n
  obtain rfl := Except.ok.inj (hok.symm.trans hwrite)
  refine h.still hneutral.still htracked' (by rw [hwork]) ?_
  intro hclose
  have hidle : ¬w.isWriting = true := by
    rw [isWriting, h.silent hclose]
    decide
  rw [World.handleWrite, if_neg hidle] at hok
  rw [Except.ok.inj hok]

theorem InCustody.onward (h : InCustody c k w) : Onward c k w := ⟨k, h, id⟩

/-- A part of the work that is not `removeChannel` is done. -/
theorem InCustody.pop (h : InCustody c k w) {task : Task} {work : List Task}
    (hwork : w.work = task :: work) (htask : task ≠ .removeChannel) :
    InCustody c k { w with work } := by
  refine { h with removes_eq := ?_ }
  rw [← h.removes_eq, hwork, List.count_cons_of_ne htask]

/-- `handleRead`. -/
theorem InCustody.handleRead (h : InCustody c k w) (htracked : Tracked c.sockfd w.loop)
    {n : Option ℕ} (hreg : n = some 0 → c.owner = .tcpServer false →
      w.state = .kConnected ∨ w.state = .kDisconnecting → Registered c.sockfd w.loop)
    (hok : w.handleRead c n = .ok w') : Onward c k w' := by
  rcases n with _ | _ | n
  · obtain rfl := Except.ok.inj hok
    exact h.onward
  · exact h.handleClose htracked (hreg rfl) hok
  · obtain rfl := Except.ok.inj hok
    refine InCustody.onward { h with removes_eq := ?_, reading := ?_, silent := ?_, closed := ?_ }
    · simpa using h.removes_eq
    · exact fun hopen => h.reading fun hclose => hopen (List.mem_append_left _ hclose)
    · simpa [record] using h.silent
    · simpa [record] using h.closed

/-- The loop's thread goes on with the handler or the functor in progress. -/
theorem InCustody.runTask (h : InCustody c k w) (htracked : Tracked c.sockfd w.loop)
    {n : Option ℕ} (hrestful : Restful c w (.runTask n)) (hok : w.runTask c n = .ok w') :
    Onward c k w' := by
  rw [World.runTask] at hok
  split at hok
  · obtain rfl := Except.ok.inj hok
    exact h.onward
  · next task work hwork =>
    have hhead : w.work.head? = some task := by rw [hwork, List.head?_cons]
    have hpop : task ≠ .removeChannel → InCustody c k { w with work } := h.pop hwork
    cases task with
    | handle callback =>
      cases callback with
      | error =>
        obtain rfl := Except.ok.inj hok
        exact (hpop (by simp)).onward
      | close =>
        exact (hpop (by simp)).handleClose htracked (hrestful.registered (.inl hhead)) hok
      | read =>
        refine (hpop (by simp)).handleRead htracked (fun hn => ?_) hok
        exact hrestful.registered (.inr ⟨hhead, hn⟩)
      | write => exact ((hpop (by simp)).handleWrite htracked hok).onward
    | connCb =>
      obtain rfl := Except.ok.inj hok
      refine InCustody.onward (InCustody.still (hpop (by simp)) ?_ htracked rfl fun _ => rfl)
      exact ⟨id, rfl, rfl, rfl, by simp [record], Iff.rfl, rfl⟩
    | userCode =>
      obtain rfl := Except.ok.inj hok
      exact (hpop (by simp)).onward
    | removeChannel => exact h.removeChannel htracked hwork hok

/-- The loop runs a functor of its queue. -/
theorem InCustody.runFunctor (h : InCustody c k w) (htracked : Tracked c.sockfd w.loop)
    (hidle : w.work = []) {n : Option ℕ} (hrestful : Restful c w (.runFunctor n))
    (hok : w.act c (.runFunctor n) = .ok w') : Onward c k w' := by
  simp only [act] at hok
  split at hok
  · next f fs hfs =>
    have hhead : w.pendingFunctors.head? = some f := by rw [hfs, List.head?_cons]
    have hpop : f ≠ .connDestroyed → InCustody c k { w with pendingFunctors := fs } := by
      intro hf
      refine { h with establishes := ?_, destroys_eq := ?_ }
      · exact fun hmem => h.establishes (hfs ▸ List.mem_cons_of_mem f hmem)
      · rw [← h.destroys_eq, hfs, List.count_cons_of_ne hf]
    cases f with
    | connEstablished => exact absurd (hfs ▸ List.mem_cons_self) h.establishes
    | connDestroyed => exact h.connDestroyed htracked hfs hidle hok
    | sendInLoop sender message =>
      refine ((hpop (by simp)).sendInLoop htracked (fun hclose => ?_) hok).onward
      exact fun hunsent => hrestful.sends hclose ⟨hidle, sender, message, hhead, hunsent⟩
    | shutdownInLoop =>
      obtain rfl := Except.ok.inj hok
      have hshut := loop_shutdownInLoop { w with pendingFunctors := fs }
      refine ((hpop (by simp)).still (neutral_shutdownInLoop _).still ?_ ?_ fun _ => hshut.1).onward
      · rw [hshut.1]
        exact htracked
      · rw [hshut.2]
    | forceCloseInLoop =>
      rw [invoke, World.forceCloseInLoop] at hok
      split_ifs at hok with hstate
      · exact (hpop (by simp)).handleClose htracked
          (hrestful.registered ⟨hidle, hhead, hstate⟩) hok
      · obtain rfl := Except.ok.inj hok
        exact (hpop (by simp)).onward
    | wriComCb =>
      obtain rfl := Except.ok.inj hok
      have hkept := hpop (by simp)
      exact InCustody.onward { hkept with removes_eq := by simpa using hkept.removes_eq }
    | addTimerInLoop =>
      obtain rfl := Except.ok.inj hok
      exact InCustody.onward { hpop (by simp) with }
  · obtain rfl := Except.ok.inj hok
    exact h.onward

/-- An event that is not about the channel is logged. -/
theorem InCustody.record (h : InCustody c k w) (htracked : Tracked c.sockfd w.loop) {e : Event}
    (he : e ≠ .close) : InCustody c k (w.record e) := by
  refine h.still ⟨id, rfl, rfl, rfl, ?_, Iff.rfl, rfl⟩ htracked rfl fun _ => rfl
  simp [World.record, he.symm]

/-- A call of `send` in the loop's thread. -/
theorem InCustody.send (h : InCustody c k w) (htracked : Tracked c.sockfd w.loop) {n : Option ℕ}
    {payload : Payload}
    (hsent : w.state = .kConnected → .close ∈ w.log → ¬w.Unsent n payload.message)
    (hok : w.callInLoop c n (.send payload) = .ok w') : InCustody c k w' := by
  rw [World.callInLoop] at hok
  split_ifs at hok with hguard
  · obtain ⟨v, hv, hok⟩ := bind_eq_ok.mp hok
    obtain rfl := Except.ok.inj hok
    rw [Call.body, List.foldlM_cons] at hv
    obtain ⟨u, hu, hv⟩ := bind_eq_ok.mp hv
    obtain rfl := Except.ok.inj hv
    have hcalled := h.record htracked (e := .called .loop (.send payload)) (by simp)
    have hsend : InCustody c k u := by
      refine hcalled.sendInLoop htracked (fun hclose => hsent hguard ?_) hu
      simpa [World.record] using hclose
    exact hsend.record (sends_sendInLoop (w := w.record _) htracked hu).tracked (by simp)
  · obtain rfl := Except.ok.inj hok
    exact h

/-- A call in the loop's thread. -/
theorem InCustody.callInLoop (h : InCustody c k w) (htracked : Tracked c.sockfd w.loop)
    {n : Option ℕ} {call : Call}
    (hsent : ∀ payload, call = .send payload → w.state = .kConnected → .close ∈ w.log →
      ¬w.Unsent n payload.message)
    (hok : w.callInLoop c n call = .ok w') : InCustody c k w' := by
  cases call with
  | send payload => exact h.send htracked (hsent payload rfl) hok
  | shutdown | forceClose | forceCloseWithDelay =>
    obtain ⟨v, hcall, hneutral, hwork, -⟩ := exists_neutral_callInLoop htracked n _
    obtain rfl := Except.ok.inj (hok.symm.trans hcall)
    have hloop := loop_eq_of_callInLoop (fun _ hcall => by cases hcall) hok
    exact h.still hneutral.still (hloop ▸ htracked) (by rw [hwork]) fun _ => hloop

/-- Another thread calls a member function, or goes on with its call. -/
theorem InCustody.aside (h : InCustody c k w) (htracked : Tracked c.sockfd w.loop)
    (haside : Neutral w w' ∧ w'.work = w.work ∧ w'.loop = w.loop) : InCustody c k w' := by
  obtain ⟨hneutral, hwork, hloop⟩ := haside
  exact h.still hneutral.still (hloop ▸ htracked) (by rw [hwork]) fun _ => hloop

/-- A restful step keeps the channel of an established connection quiet. -/
theorem InCustody.step (h : InCustody c k w) (hsound : Sound c w) (hrestful : Restful c w l)
    (hok : w.step c l = .ok w') : Onward c k w' := by
  have htracked := hsound.tracked
  rw [World.step] at hok
  split_ifs at hok with henabled
  · cases l with
    | callInLoop n call =>
      refine (h.callInLoop htracked ?_ hok).onward
      rintro payload rfl hstate hclose hunsent
      exact hrestful.sends hclose ⟨henabled, hstate, hunsent⟩
    | call t call =>
      obtain rfl := Except.ok.inj hok
      exact (h.aside htracked (neutral_call w t call)).onward
    | continueCall t =>
      obtain rfl := Except.ok.inj hok
      exact (h.aside htracked (neutral_continueCall hsound t)).onward
    | handleEvent revents =>
      obtain rfl := Except.ok.inj hok
      refine InCustody.onward { h with removes_eq := ?_ }
      rw [← h.removes_eq, henabled.1, List.count_nil, List.count_eq_zero]
      intro hmem
      obtain ⟨callback, -, hcallback⟩ := List.mem_map.mp hmem
      cases hcallback
    | runTask n => exact h.runTask htracked hrestful hok
    | runFunctor n => exact h.runFunctor htracked henabled hrestful hok
    | timeout =>
      have hpop : InCustody c k { w with timers := w.timers - 1 } := { h with }
      exact (hpop.callInLoop htracked (fun payload hcall => by cases hcall) hok).onward
    | removeConnectionInLoop => exact h.removeConnectionInLoop henabled hok
  · obtain rfl := Except.ok.inj hok
    exact h.onward

/-! ### Only restful steps keep quiet -/

theorem Buffers.exists_step (h : w.Buffers l) (htracked : Tracked c.sockfd w.loop)
    (hclose : .close ∈ w.log) : ∃ w', w.step c l = .ok w' ∧
      Channel.isWriting (w'.loop.events ()) = true ∧ .close ∈ w'.log ∧ w'.work = w.work := by
  have hsend : ∀ (v : World) (n : Option ℕ) (sender : Thread) (message : List UInt8),
      Tracked c.sockfd v.loop → v.Unsent n message → .close ∈ v.log →
      ∃ w', v.sendInLoop c n sender message = .ok w' ∧
        Channel.isWriting (w'.loop.events ()) = true ∧ .close ∈ w'.log ∧ w'.work = v.work := by
    intro v n sender message hv hunsent hmem
    obtain ⟨w', hok, hloop⟩ := exists_sendInLoop_loop hv n sender message
    obtain ⟨w'', hok', hneutral, hwork⟩ := exists_neutral_sendInLoop hv n sender message
    obtain rfl := Except.ok.inj (hok.symm.trans hok')
    refine ⟨w', hok, ?_, hneutral.still.close_iff.mpr hmem, hwork⟩
    rcases hloop with ⟨hsent, -⟩ | ⟨-, hwriting⟩
    · exact absurd hunsent hsent
    · exact hwriting
  cases l with
  | callInLoop n call =>
    cases call with
    | send payload =>
      obtain ⟨henabled, hstate, hunsent⟩ := h
      obtain ⟨w', hok, hwriting, hmem, hwork⟩ := hsend (w.record (.called .loop (.send payload))) n
        .loop payload.message htracked hunsent (List.mem_append_left _ hclose)
      refine ⟨w'.record (.returned .loop), ?_, hwriting, List.mem_append_left _ hmem, hwork⟩
      refine (step_of_enabled (l := .callInLoop n (.send payload)) henabled).trans ?_
      refine (if_pos hstate).trans (bind_of_ok ?_ _)
      exact bind_of_ok hok _
    | shutdown | forceClose | forceCloseWithDelay => exact h.elim
  | runFunctor n =>
    obtain ⟨hidle, sender, message, hhead, hunsent⟩ := h
    obtain ⟨fs, hfs⟩ := List.head?_eq_some_iff.mp hhead
    obtain ⟨w', hok, hwriting, hmem, hwork⟩ :=
      hsend { w with pendingFunctors := fs } n sender message htracked hunsent hclose
    refine ⟨w', ?_, hwriting, hmem, hwork⟩
    rw [step_of_enabled (l := .runFunctor n) hidle, act, hfs]
    exact hok
  | _ => exact h.elim

/-- A step that keeps the channel quiet is restful. -/
theorem restful_of_staysQuiet (htracked : Tracked c.sockfd w.loop) (hstate : w.state ≠ .kConnecting)
    (hquiet : Machine.UnlessFault (StaysQuiet c w) (w.step c l)) : Restful c w l := by
  constructor
  · intro hclose hbuffers
    obtain ⟨w', hstep, hwriting, hmem, -⟩ := hbuffers.exists_step htracked hclose
    exact events_ne_zero_of_isWriting hwriting ((hquiet w' hstep).silent hmem)
  · intro howner hopen hreg hcloses
    obtain ⟨v, -, hloop, hsame, hstep⟩ := hcloses.exists_step_eq (c := c)
    obtain ⟨loop, hupdate, -, hnow, -⟩ := exists_update (w := v) (hloop ▸ htracked) .disableAll
    have hremove : World.removeConnection c ({ v with loop }.record .close) = .ok
        { v.record .close with loop, removals := v.removals + 1 } := by
      rw [removeConnection, howner]
      rfl
    have hok : v.handleClose c = .ok { v.record .close with loop, removals := v.removals + 1 } :=
      (bind_of_ok (check_of (hsame ▸ hopen) _) _).trans ((bind_of_ok hupdate _).trans hremove)
    exact (hquiet _ (hstep.trans hok)).removed hstate hreg hnow

/-! ### The result -/

/-- What holds of a world reached by restful steps. -/
def Calm (c : Setup) (w : World) : Prop := Sound c w ∧ (w = init ∨ ∃ k, InCustody c k w)

theorem InPhase.inCustody (h : InPhase c .announcing w) (htracked : Tracked c.sockfd w.loop) :
    InCustody c .owned w := by
  obtain ⟨howned, hremovals, hdestroys⟩ := h.held
  have hopen : .close ∉ w.log := List.count_eq_zero.mp h.closes_eq
  refine ⟨?_, h.establishes, howned, hdestroys, ?_, fun _ => h.reading,
    fun hclose => absurd hclose hopen, ?_, ?_⟩
  · rcases h.state with hs | hs <;> rw [hs] <;> decide
  · rw [show w.work = [.connCb, .userCode] from h.work]
    rfl
  · rintro (hne | hpos)
    · exact absurd rfl hne
    · omega
  · exact iff_of_true (htracked.registered (events_ne_zero_of_isReading h.reading)) (by decide)

theorem InCustody.staysQuiet (h : InCustody c k w) (hnext : Onward c k w') :
    StaysQuiet c w w' := by
  obtain ⟨k', h', hgone⟩ := hnext
  refine ⟨h'.silent, fun _ hreg => ?_⟩
  rw [h.registered_iff, not_not] at hreg
  rw [h'.registered_iff, not_not]
  exact hgone hreg

theorem Calm.step (h : Calm c w) (hrestful : Restful c w l) (hok : w.step c l = .ok w') :
    Calm c w' ∧ StaysQuiet c w w' := by
  have hsound := (transfers_step h.1 hok).sound
  rcases h.2 with rfl | ⟨k, hk⟩
  · obtain ⟨v, hv, hnext⟩ := exists_step_init c l
    obtain rfl := Except.ok.inj (hok.symm.trans hv)
    rcases hnext with rfl | ⟨hphase, -⟩
    · exact ⟨h, fun hclose => absurd hclose List.not_mem_nil, fun hstate => absurd rfl hstate⟩
    · have hk := hphase.inCustody hsound.tracked
      exact ⟨⟨hsound, .inr ⟨_, hk⟩⟩, hk.silent, fun hstate => absurd rfl hstate⟩
  · have hnext := hk.step h.1 hrestful hok
    have hquiet := hk.staysQuiet hnext
    obtain ⟨k', hk', -⟩ := hnext
    exact ⟨⟨hsound, .inr ⟨k', hk'⟩⟩, hquiet⟩

/-- A step keeps the channel quiet exactly when it is restful. -/
theorem Calm.staysQuiet_iff (h : Calm c w) (l : Label) :
    Machine.UnlessFault (StaysQuiet c w) (w.step c l) ↔ Restful c w l := by
  constructor
  · intro hquiet
    rcases h.2 with rfl | ⟨k, hk⟩
    · refine ⟨fun hclose => absurd hclose List.not_mem_nil, fun _ hstate => ?_⟩
      rcases hstate with hs | hs <;> cases hs
    · exact restful_of_staysQuiet h.1.tracked hk.state hquiet
  · intro hrestful w' hok
    exact (h.step hrestful hok).2

end World

open World

/-- **Quiescence after close.** For a connection of a server or a client and any interleaving of
calls, events, functors and timers: once `handleClose` has disabled the channel it waits for no
events, and once `connDestroyed` has removed it no step registers it again, exactly when every
step is restful. -/
theorem quiescence_iff (c : Setup) (ls : List Label) :
    Machine.Along (World.step c) (fun w _ r => Machine.UnlessFault (StaysQuiet c w) r) World.init
        ls ↔
      Machine.Along (World.step c) (Machine.onInput (Restful c)) World.init ls := by
  have hinit : Calm c World.init := ⟨sound_init c, .inl rfl⟩
  refine Machine.along_iff_along hinit (fun w l h => Calm.staysQuiet_iff h l) ?_
  intro w l w' h hgood hok
  exact (Calm.step h ((Calm.staysQuiet_iff h l).mp hgood) hok).1

/-- Thread 7 has called `send` when the peer closes; `connDestroyed` comes first. -/
def sentLate : List Label :=
  [.runFunctor none, .runTask none, .runTask none, .call 7 (.send (.string [1, 2])),
    .handleEvent POLLIN, .runTask (some 0), .continueCall 7, .runFunctor none, .runTask none,
    .runTask none, .runTask none]

/-- `sendInLoop` writes one of two bytes, and the channel that has been removed is back. -/
theorem woken_up : ∃ w w', Machine.run (World.step (.client 5)) World.init sentLate = .ok w ∧
    World.step (.client 5) w (.runFunctor (some 1)) = .ok w' ∧ .close ∈ w.log ∧
    ¬Registered 5 w.loop ∧ Registered 5 w'.loop ∧ w'.isWriting = true ∧
    ¬Machine.Along (World.step (.client 5))
      (fun w _ r => Machine.UnlessFault (StaysQuiet (.client 5) w) r) World.init
      (sentLate ++ [.runFunctor (some 1)]) := by
  refine ⟨_, _, rfl, rfl, by decide, ?_, rfl, rfl, fun h => ?_⟩
  · intro hreg
    cases hreg
  · have hquiet := (h.of_append rfl).1 _ rfl
    exact absurd (hquiet.silent (by decide)) (by decide)

end TcpConnection

end MuduoRebuild
