import MuduoRebuild.Foundations.History
import MuduoRebuild.TcpConnection.OutputStream

/-!
# The life of a connection

A connection is established, announced to its user, used, closed, announced again, and taken out
of the poller. `Lifecycle` says what may be seen of this in the log: `closeCb_` is called at most
once, `connCb_` first with `connected()` and then without, and `messaCb_` only in between.

A connection that goes well passes through the `Phase`s of its life in order: a step leaves it in
its phase or takes it to the next (`InPhase.step`). Three things can go wrong at a step, and an
`Orderly` step is one at which they do not: a connection is closed that has been closed before,
data is received after `connDestroyed`, and `connEstablished` announces a connection that is not
connected any more. `lifecycle_iff` says that a run goes well, without a failing `assert`, exactly
when each of its steps is orderly.
-/

namespace MuduoRebuild

namespace TcpConnection

open Fallible

/-- The calls of `connCb_`, with the values of `connected()`. -/
def connections (log : List Event) : List Bool :=
  log.filterMap fun
    | .connection connected => some connected
    | _ => none

/-- What the user and the owner of a connection may see. -/
structure Lifecycle (w : World) : Prop where
  closes : w.log.count .close ≤ 1
  connections : connections w.log <+: [true, false]
  /-- Once established, the connection has been announced, or is about to be. -/
  announced : w.state ≠ .kConnecting →
    w.work.head? = some .connCb ∨ TcpConnection.connections w.log ≠ []
  messages : History.Whenever .message (TcpConnection.connections · = [true]) w.log

/-! ### Orderly steps -/

namespace World

variable (w : World)

/-- The step calls `handleClose`. -/
def Closes : Label → Prop
  | .runTask n => w.work.head? = some (.handle .close) ∨
      w.work.head? = some (.handle .read) ∧ n = some 0
  | .runFunctor _ => w.work = [] ∧ w.pendingFunctors.head? = some .forceCloseInLoop ∧
      (w.state = .kConnected ∨ w.state = .kDisconnecting)
  | _ => False

instance (l : Label) : Decidable (w.Closes l) :=
  match l with
  | .runTask n => inferInstanceAs (Decidable (w.work.head? = some (.handle .close) ∨
      w.work.head? = some (.handle .read) ∧ n = some 0))
  | .runFunctor _ => inferInstanceAs (Decidable (w.work = [] ∧
      w.pendingFunctors.head? = some .forceCloseInLoop ∧
        (w.state = .kConnected ∨ w.state = .kDisconnecting)))
  | .callInLoop .. | .call .. | .continueCall _ | .handleEvent _ | .timeout
  | .removeConnectionInLoop => inferInstanceAs (Decidable False)

/-- The step is a `handleRead` that receives data. -/
def Receives : Label → Prop
  | .runTask (some (_ + 1)) => w.work.head? = some (.handle .read)
  | _ => False

/-- The step is the call of `connCb_` in `connEstablished`. -/
def Announces : Label → Prop
  | .runTask _ => w.work.head? = some .connCb ∧ connections w.log = []
  | _ => False

/-- Nothing goes wrong in the step. -/
structure Orderly (l : Label) : Prop where
  /-- A connection that is closed is one that still reads. -/
  closes : w.Closes l → w.isReading = true
  /-- Nothing is received after `connDestroyed`. -/
  receives : w.Receives l → false ∉ connections w.log
  /-- A connection that is announced is still connected. -/
  announces : w.Announces l → w.state = .kConnected

end World

/-! ### Phases -/

/-- Where a connection is in its life, once it has been established. -/
inductive Phase where
  /-- `connEstablished` is about to call `connCb_`. -/
  | announcing
  | opened
  /-- `handleClose` has been called, and `connDestroyed` is yet to come. -/
  | closing
  /-- `connDestroyed` is about to call `connCb_`. -/
  | leaving
  /-- `connDestroyed` is about to remove the channel. -/
  | removing
  | gone

namespace Phase

def connections : Phase → List Bool
  | announcing => []
  | opened | closing | leaving => [true]
  | removing | gone => [true, false]

def closes : Phase → ℕ
  | announcing | opened => 0
  | closing | leaving | removing | gone => 1

def isReading : Phase → Bool
  | announcing | opened => true
  | closing | leaving | removing | gone => false

/-- `connDestroyed` is in progress. -/
def isLeaving : Phase → Bool
  | leaving | removing => true
  | announcing | opened | closing | gone => false

/-- `connDestroyed` has set `kDisconnected`. -/
def isDown : Phase → Bool
  | leaving | removing | gone => true
  | announcing | opened | closing => false

def Allows : Phase → StateE → Prop
  | announcing, s | opened, s | closing, s => s = .kConnected ∨ s = .kDisconnecting
  -- another thread may still be about to set kDisconnecting
  | leaving, s | removing, s | gone, s => s = .kDisconnected ∨ s = .kDisconnecting

def Work : Phase → List Task → Prop
  | announcing, work => work = [.connCb, .userCode]
  | leaving, work => work = [.connCb, .userCode, .removeChannel]
  | removing, work => work = [.userCode, .removeChannel] ∨ work = [.removeChannel]
  | opened, work | closing, work | gone, work =>
    ∀ task ∈ work, task = .userCode ∨ ∃ callback, task = .handle callback

/-- Neither `connEstablished` nor `connDestroyed` is in progress. -/
def isOrdinary : Phase → Bool
  | opened | closing | gone => true
  | announcing | leaving | removing => false

variable {p : Phase} {work : List Task}

theorem work_iff (hp : p.isOrdinary = true) : p.Work work ↔
    ∀ task ∈ work, task = .userCode ∨ ∃ callback, task = .handle callback := by
  cases p <;> first | exact Iff.rfl | cases hp

theorem isDown_of_isLeaving (hp : p.isLeaving = true) : p.isDown = true := by
  cases p with
  | leaving | removing => rfl
  | announcing | opened | closing | gone => cases hp

theorem Allows.ne_kConnected {s : StateE} (h : p.Allows s) (hp : p.isDown = true) :
    s ≠ .kConnected := by
  rintro rfl
  cases p with
  | leaving | removing | gone => rcases h with habsurd | habsurd <;> cases habsurd
  | announcing | opened | closing => cases hp

theorem isLeaving_eq_false (hp : p.isOrdinary = true) : p.isLeaving = false := by
  cases p with
  | opened | closing | gone => rfl
  | announcing | leaving | removing => cases hp

theorem isOrdinary_of_idle (h : p.Work []) : p.isOrdinary = true := by
  cases p with
  | opened | closing | gone => rfl
  | announcing | leaving => cases h
  | removing => rcases h with h | h <;> cases h

/-- Who is to call `connDestroyed`: the owner, the base loop, or the functor in the queue. -/
def Held : Phase → Bool → ℕ → ℕ → Prop
  | announcing, owned, removals, destroys | opened, owned, removals, destroys =>
    owned = true ∧ removals = 0 ∧ destroys = 0
  | closing, owned, removals, destroys =>
    owned = true ∧ removals = 1 ∧ destroys = 0 ∨ owned = false ∧ removals = 0 ∧ destroys = 1
  | leaving, owned, removals, destroys | removing, owned, removals, destroys
  | gone, owned, removals, destroys => owned = false ∧ removals = 0 ∧ destroys = 0

end Phase

namespace World

variable {c : Setup} {p : Phase} {w w' : World}

/-- The phases that a step to the world `w` can lead to. -/
inductive Passes (c : Setup) (w : World) : Phase → Phase → Prop where
  | stays (p : Phase) : Passes c w p p
  | announced : Passes c w .announcing .opened
  | closed : Passes c w .opened .closing
  | destroyed : Passes c w .closing .leaving
  | left : Passes c w .leaving .removing
  /-- The channel is no longer in the poller, and the loop has nothing left to do. -/
  | removed (hreg : ¬Registered c.sockfd w.loop) (hwork : w.work = []) :
    Passes c w .removing .gone

/-- A connection in a phase of its life. -/
structure InPhase (c : Setup) (p : Phase) (w : World) : Prop where
  state : p.Allows w.state
  connections_eq : connections w.log = p.connections
  closes_eq : w.log.count .close = p.closes
  messages : History.Whenever .message (connections · = [true]) w.log
  reading : w.isReading = p.isReading
  silent : p.isLeaving = true → Registered c.sockfd w.loop ∧ w.loop.events () = 0
  work : p.Work w.work
  establishes : .connEstablished ∉ w.pendingFunctors
  held : p.Held w.owned w.removals (w.pendingFunctors.count .connDestroyed)

theorem InPhase.lifecycle (h : InPhase c p w) : Lifecycle w := by
  refine ⟨?_, ?_, ?_, h.messages⟩
  · rw [h.closes_eq]
    cases p <;> decide
  · rw [h.connections_eq]
    cases p <;> decide
  · intro _
    rw [h.connections_eq]
    cases p with
    | announcing => exact .inl (by rw [show w.work = _ from h.work]; rfl)
    | _ => exact .inr (by decide)

/-! ### Steps within a phase -/

/-- The state, the owner, the events and the functors that decide on the life of a connection stay
as they are, but for `setState(kDisconnecting)`. -/
structure Neutral (w w' : World) : Prop where
  state : w'.state = w.state ∨ w'.state = .kDisconnecting
  reading_eq : w'.isReading = w.isReading
  owned_eq : w'.owned = w.owned
  removals_eq : w'.removals = w.removals
  log_eq : ∃ es, w'.log = w.log ++ es ∧ .close ∉ es ∧ .message ∉ es ∧ connections es = []
  functors : w'.pendingFunctors.count .connEstablished = w.pendingFunctors.count .connEstablished ∧
    w'.pendingFunctors.count .connDestroyed = w.pendingFunctors.count .connDestroyed

theorem neutral_refl (w : World) : Neutral w w :=
  ⟨.inl rfl, rfl, rfl, rfl, ⟨[], (List.append_nil _).symm, by simp, by simp, rfl⟩, rfl, rfl⟩

theorem connections_append (l l' : List Event) :
    connections (l ++ l') = connections l ++ connections l' := List.filterMap_append

theorem Neutral.trans {w'' : World} (h : Neutral w w') (h' : Neutral w' w'') : Neutral w w'' := by
  obtain ⟨es, hes, hclose, hmessage, hconn⟩ := h.log_eq
  obtain ⟨es', hes', hclose', hmessage', hconn'⟩ := h'.log_eq
  refine ⟨?_, h'.reading_eq.trans h.reading_eq, h'.owned_eq.trans h.owned_eq,
    h'.removals_eq.trans h.removals_eq, ⟨es ++ es', ?_, ?_, ?_, ?_⟩,
    h'.functors.1.trans h.functors.1, h'.functors.2.trans h.functors.2⟩
  · rcases h'.state with hs | hs
    · exact h.state.imp hs.trans hs.trans
    · exact .inr hs
  · rw [hes', hes, List.append_assoc]
  · simp [hclose, hclose']
  · simp [hmessage, hmessage']
  · rw [connections_append, hconn, hconn', List.append_nil]

theorem neutral_record (w : World) {e : Event} (hclose : e ≠ .close) (hmessage : e ≠ .message)
    (hconn : connections [e] = []) : Neutral w (w.record e) :=
  { neutral_refl w with
    log_eq := ⟨[e], rfl, by simpa using hclose.symm, by simpa using hmessage.symm, hconn⟩ }

theorem neutral_queueInLoop (w : World) {f : Functor} (hest : f ≠ .connEstablished)
    (hdest : f ≠ .connDestroyed) : Neutral w (w.queueInLoop f) :=
  { neutral_refl w with
    functors := by simp [queueInLoop, List.count_append, hest, hdest] }

theorem neutral_shutdownInLoop (w : World) : Neutral w w.shutdownInLoop := by
  rw [shutdownInLoop]
  split_ifs
  · exact neutral_refl w
  · exact neutral_record w (by simp) (by simp) rfl

/-- A step that is neutral leaves a connection in its phase. -/
theorem InPhase.neutral (h : InPhase c p w) (hn : Neutral w w') (hwork : p.Work w'.work)
    (hsilent : p.isLeaving = true → w'.loop = w.loop) : InPhase c p w' := by
  obtain ⟨es, hes, hclose, hmessage, hconn⟩ := hn.log_eq
  refine ⟨?state, ?connections, ?closes, ?messages, hn.reading_eq.trans h.reading, ?silent, hwork,
    ?establishes, ?held⟩
  case state =>
    rcases hn.state with hs | hs
    · exact hs ▸ h.state
    · rw [hs]
      cases p <;> exact .inr rfl
  case connections =>
    rw [hes, connections_append, hconn, List.append_nil]
    exact h.connections_eq
  case closes =>
    rw [hes, List.count_append, List.count_eq_zero.mpr hclose]
    exact h.closes_eq
  case messages =>
    rw [hes]
    exact h.messages.append hmessage
  case silent =>
    intro hp
    rw [hsilent hp]
    exact h.silent hp
  case establishes =>
    rw [← List.count_eq_zero, hn.functors.1, List.count_eq_zero]
    exact h.establishes
  case held =>
    rw [hn.owned_eq, hn.removals_eq, hn.functors.2]
    exact h.held

theorem InPhase.neutral_of_isOrdinary (h : InPhase c p w) (hp : p.isOrdinary = true)
    (hn : Neutral w w') (hwork : w'.work = w.work) : InPhase c p w' := by
  refine h.neutral hn (hwork ▸ h.work) ?_
  intro hleaving
  rw [Phase.isLeaving_eq_false hp] at hleaving
  cases hleaving

/-- What is logged and queued by a write has no part in the life of a connection. -/
def Minor (es : List Event) (fs : List Functor) : Prop :=
  (.close ∉ es ∧ .message ∉ es ∧ connections es = []) ∧
    .connEstablished ∉ fs ∧ .connDestroyed ∉ fs

theorem minor_completion (c : Setup) : Minor c.completed c.completion := by
  rw [Setup.completed, Setup.completion]
  split_ifs <;> simp [Minor, connections]

theorem minor_of_sending {message : List UInt8} {k : ℕ} {es : List Event} {fs : List Functor}
    (h : Sending c w message k es fs) : Minor es fs := by
  cases h with
  | whole => simpa [Minor, connections] using minor_completion c
  | _ => simp [Minor, connections]

theorem minor_of_flushing {k : ℕ} {es : List Event} {fs : List Functor}
    (h : Flushing c w k es fs) : Minor es fs := by
  cases h with
  | drained =>
    have hcompletion := minor_completion c
    split_ifs <;> simpa [Minor, connections, connections_append] using hcompletion
  | _ => simp [Minor, connections]

theorem exists_neutral_sendInLoop (h : Tracked c.sockfd w.loop) (n : Option ℕ) (sender : Thread)
    (message : List UInt8) :
    ∃ w', w.sendInLoop c n sender message = .ok w' ∧ Neutral w w' ∧ w'.work = w.work := by
  obtain ⟨loop, k, es, fs, hsend, hsending, -, hreading, -⟩ :=
    exists_sendInLoop (c := c) (w := w) h n sender message
  obtain ⟨⟨hclose, hmessage, hconn⟩, hest, hdest⟩ := minor_of_sending hsending
  refine ⟨_, hsend, ⟨.inl rfl, hreading, rfl, rfl, ⟨_, rfl, ?_, ?_, hconn⟩, ?_, ?_⟩, rfl⟩
  · simpa using hclose
  · simpa using hmessage
  · simp [List.count_append, List.count_eq_zero.mpr hest]
  · simp [List.count_append, List.count_eq_zero.mpr hdest]

theorem exists_neutral_handleWrite (h : Tracked c.sockfd w.loop) (n : Option ℕ) :
    ∃ w', w.handleWrite c n = .ok w' ∧ Neutral w w' ∧ w'.work = w.work := by
  obtain ⟨loop, k, es, fs, hwrite, hflushing, -, hreading, -⟩ :=
    exists_handleWrite (c := c) (w := w) h n
  obtain ⟨hes, hest, hdest⟩ := minor_of_flushing hflushing
  refine ⟨_, hwrite, ⟨.inl rfl, hreading, rfl, rfl, ⟨_, rfl, hes⟩, ?_, ?_⟩, rfl⟩
  · simp [List.count_append, List.count_eq_zero.mpr hest]
  · simp [List.count_append, List.count_eq_zero.mpr hdest]

/-- A call in the loop's thread; only `send` can change the channel. -/
theorem exists_neutral_callInLoop (h : Tracked c.sockfd w.loop) (n : Option ℕ) (call : Call) :
    ∃ w', w.callInLoop c n call = .ok w' ∧ Neutral w w' ∧ w'.work = w.work ∧
      (w'.loop = w.loop ∨ w.state = .kConnected) := by
  rw [callInLoop]
  split_ifs with hguard
  · have hcalled : Neutral w (w.record (.called .loop call)) :=
      neutral_record w (by simp) (by simp) rfl
    have hreturned : ∀ v : World, Neutral v (v.record (.returned .loop)) := fun v =>
      neutral_record v (by simp) (by simp) rfl
    have hset : Neutral w { w.record (.called .loop call) with state := .kDisconnecting } :=
      { hcalled with state := .inr rfl }
    cases call with
    | send payload =>
      obtain ⟨w', hsend, hneutral, hwork⟩ := exists_neutral_sendInLoop (c := c)
        (w := w.record (.called .loop (.send payload))) h n .loop payload.message
      refine ⟨w'.record (.returned .loop), ?_, (hcalled.trans hneutral).trans (hreturned w'), hwork,
        .inr hguard⟩
      exact bind_of_ok (bind_of_ok hsend _) _
    | shutdown =>
      have hshut := hset.trans (neutral_shutdownInLoop _)
      refine ⟨_, rfl, hshut.trans (hreturned _), ?_, .inl ?_⟩
      · simp only [shutdownInLoop]
        split_ifs <;> rfl
      · simp only [shutdownInLoop]
        split_ifs <;> rfl
    | forceClose =>
      have hqueue := hset.trans (neutral_queueInLoop _ (f := .forceCloseInLoop) (by simp) (by simp))
      exact ⟨_, rfl, hqueue.trans (hreturned _), rfl, .inl rfl⟩
    | forceCloseWithDelay =>
      exact ⟨_, rfl, { hset.trans (hreturned _) with }, rfl, .inl rfl⟩
  · exact ⟨w, rfl, neutral_refl w, rfl, .inl rfl⟩

/-- An action of a call in another thread. -/
theorem neutral_perform {t : Thread} {call : Call} {a : Action} (ha : a ∈ call.body t) (w : World) :
    Neutral w (w.perform a) ∧ (w.perform a).work = w.work ∧ (w.perform a).loop = w.loop := by
  have hqueue : ∀ f, f ≠ .connEstablished → f ≠ .connDestroyed → Neutral w (w.queueInLoop f) :=
    fun f => neutral_queueInLoop w
  cases call with
  | send payload =>
    obtain rfl := List.mem_singleton.mp ha
    exact ⟨hqueue _ (by simp) (by simp), rfl, rfl⟩
  | shutdown | forceClose | forceCloseWithDelay =>
    rcases List.mem_pair.mp ha with rfl | rfl
    · exact ⟨{ neutral_refl w with state := .inr rfl }, rfl, rfl⟩
    · exact ⟨hqueue _ (by simp) (by simp), rfl, rfl⟩

/-- Another thread calls a member function. -/
theorem neutral_call (w : World) (t : ℕ) (call : Call) : Neutral w (w.call t call) ∧
    (w.call t call).work = w.work ∧ (w.call t call).loop = w.loop := by
  rw [World.call]
  split_ifs
  · have hcalled := neutral_record w (e := .called (.other t) call) (by simp) (by simp) rfl
    exact ⟨{ hcalled with }, rfl, rfl⟩
  · exact ⟨neutral_refl w, rfl, rfl⟩

/-- Another thread goes on with its call. -/
theorem neutral_continueCall (h : Sound c w) (t : ℕ) : Neutral w (w.continueCall t) ∧
    (w.continueCall t).work = w.work ∧ (w.continueCall t).loop = w.loop := by
  rw [World.continueCall]
  split
  · exact ⟨neutral_refl w, rfl, rfl⟩
  · next a as hcalls =>
    obtain ⟨call, hcall⟩ := h.calls t
    rw [hcalls] at hcall
    set v : World := { w with calls := Function.update w.calls t as }
    have hpop : Neutral w v := { neutral_refl w with }
    obtain ⟨hneutral, hwork, hloop⟩ := neutral_perform (hcall.subset List.mem_cons_self) v
    have hperform := hpop.trans hneutral
    dsimp only
    split_ifs
    · have hreturned := neutral_record (v.perform a) (e := .returned (.other t)) (by simp)
        (by simp) rfl
      exact ⟨hperform.trans hreturned, hwork, hloop⟩
    · exact ⟨hperform, hwork, hloop⟩

/-! ### From one phase to the next -/

theorem InPhase.handleClose (h : InPhase c .opened w) (htracked : Tracked c.sockfd w.loop) :
    ∃ w', w.handleClose c = .ok w' ∧ InPhase c .closing w' := by
  obtain ⟨howned, hremovals, hdestroys⟩ := h.held
  obtain ⟨w', hclose⟩ := exists_handleClose htracked h.state howned
  obtain ⟨-, loop, -, hevents, hrel⟩ := handleClose_eq_ok htracked hclose
  have hconn : connections (w.log ++ [.close]) = [true] := by
    rw [connections_append, h.connections_eq]
    rfl
  have hcount : List.count Event.close (w.log ++ [.close]) = 1 := by
    rw [List.count_append, h.closes_eq]
    rfl
  have hmessages : History.Whenever .message (connections · = [true]) (w.log ++ [.close]) :=
    h.messages.concat fun heq => by cases heq
  have hreading : Channel.isReading (loop.events ()) = false := by
    rw [hevents, Channel.isReading_zero]
  refine ⟨w', hclose, ?_⟩
  cases hrel with
  | posted howner =>
    exact ⟨h.state, hconn, hcount, hmessages, hreading, (fun hp => by cases hp), h.work,
      h.establishes, .inl ⟨howned, congrArg (· + 1) hremovals, hdestroys⟩⟩
  | dropped howner _ =>
    refine ⟨h.state, hconn, hcount, hmessages, hreading, (fun hp => by cases hp), h.work, ?_,
      .inr ⟨rfl, hremovals, ?_⟩⟩
    · simpa using h.establishes
    · rw [List.count_append, hdestroys]
      rfl

/-- The base loop runs `removeConnectionInLoop`. -/
theorem InPhase.removeConnectionInLoop (h : InPhase c p w) (hremovals : 0 < w.removals) :
    p = .closing ∧ ∃ w', { w with removals := w.removals - 1 }.removeConnectionInLoop = .ok w' ∧
      InPhase c .closing w' := by
  have hheld := h.held
  cases p with
  | closing =>
    -- the owner has the connection as long as its base loop has not run the functor
    rcases hheld with ⟨howned, hone, hdestroys⟩ | ⟨-, hzero, -⟩
    · refine ⟨rfl, _, removeConnectionInLoop_of_owned howned, h.state, h.connections_eq,
        h.closes_eq, h.messages, h.reading, (fun hp => by cases hp), h.work, ?_,
        .inr ⟨rfl, ?_, ?_⟩⟩
      · simpa using h.establishes
      · rw [hone]
      · rw [List.count_append, hdestroys]
        rfl
    · omega
  | announcing | opened | leaving | removing | gone =>
    have hzero := hheld.2.1
    omega

/-- The loop runs `connDestroyed`. -/
theorem InPhase.connDestroyed (h : InPhase c p w) (htracked : Tracked c.sockfd w.loop)
    {fs : List Functor} (hfs : w.pendingFunctors = .connDestroyed :: fs) (hidle : w.work = []) :
    p = .closing ∧ ∃ w', { w with pendingFunctors := fs }.connDestroyed c = .ok w' ∧
      InPhase c .leaving w' := by
  have hheld := h.held
  have hest := h.establishes
  rw [hfs, List.count_cons_self] at hheld
  rw [hfs, List.mem_cons, not_or] at hest
  cases p with
  | closing =>
    -- the functor is in the queue only after the owner has given the connection up
    rcases hheld with ⟨-, -, habsurd⟩ | ⟨howned, hremovals, hone⟩
    · omega
    · obtain ⟨loop, hdestroy, -, hreg, hevents⟩ := exists_connDestroyed
        (w := { w with pendingFunctors := fs }) htracked h.state
      have hreading : Channel.isReading (loop.events ()) = false := by
        rw [hevents, Channel.isReading_zero]
      refine ⟨rfl, _, hdestroy, .inl rfl, h.connections_eq, h.closes_eq, h.messages, hreading,
        fun _ => ⟨hreg, hevents⟩, ?_, hest.2, howned, hremovals, Nat.succ.inj hone⟩
      rw [hidle]
      rfl
  | announcing | opened | leaving | removing | gone =>
    have hzero := hheld.2.2
    omega

/-- The call of `connCb_` in `connEstablished`. -/
theorem InPhase.announce (h : InPhase c .announcing w) (hstate : w.state = .kConnected) :
    InPhase c .opened ({ w with work := [.userCode] }.record
      (.connection (w.state = StateE.kConnected))) where
  state := h.state
  connections_eq := by
    simp only [record, connections_append, h.connections_eq, hstate, decide_true]
    rfl
  closes_eq := by
    simp only [record, List.count_append, h.closes_eq]
    rfl
  messages := h.messages.concat fun heq => by cases heq
  reading := h.reading
  silent := fun hp => by cases hp
  work := fun task htask => .inl (List.mem_singleton.mp htask)
  establishes := h.establishes
  held := h.held

/-- The call of `connCb_` in `connDestroyed`. -/
theorem InPhase.leave (h : InPhase c .leaving w) :
    InPhase c .removing ({ w with work := [.userCode, .removeChannel] }.record
      (.connection (w.state = StateE.kConnected))) where
  state := h.state
  connections_eq := by
    have hstate : w.state ≠ .kConnected := h.state.ne_kConnected rfl
    simp only [record, connections_append, h.connections_eq, hstate, decide_false]
    rfl
  closes_eq := by
    simp only [record, List.count_append, h.closes_eq]
    rfl
  messages := h.messages.concat fun heq => by cases heq
  reading := h.reading
  silent := h.silent
  work := .inl rfl
  establishes := h.establishes
  held := h.held

theorem InPhase.removeChannel (h : InPhase c .removing w) (htracked : Tracked c.sockfd w.loop) :
    ∃ w', { w with work := [] }.removeChannel c = .ok w' ∧ InPhase c .gone w' ∧
      Passes c w' .removing .gone := by
  obtain ⟨hreg, hsilent⟩ := h.silent rfl
  obtain ⟨loop, hremove, -, hevents⟩ := exists_removeChannel (w := { w with work := [] })
    htracked hreg hsilent
  have hreading : Channel.isReading (loop.events ()) = false := by
    rw [hevents, Channel.isReading_zero]
  exact ⟨_, hremove, ⟨h.state, h.connections_eq, h.closes_eq, h.messages, hreading,
    (fun hp => by cases hp), (fun _ htask => by cases htask), h.establishes, h.held⟩,
    .removed (not_registered_of_removeChannel hremove) rfl⟩

/-- The call of `messaCb_`. -/
theorem InPhase.message (h : InPhase c p w) (hup : p = .opened ∨ p = .closing) :
    InPhase c p { w.record .message with work := .userCode :: w.work } := by
  have hconn : connections w.log = [true] := by
    rw [h.connections_eq]
    rcases hup with rfl | rfl <;> rfl
  refine ⟨h.state, ?_, ?_, h.messages.concat fun _ => hconn, h.reading, h.silent, ?_,
    h.establishes, h.held⟩
  · exact (connections_append ..).trans ((List.append_nil _).trans h.connections_eq)
  · exact List.count_append.trans h.closes_eq
  · have hwork := h.work
    rcases hup with rfl | rfl
    all_goals
      intro task htask
      rcases List.mem_cons.mp htask with rfl | htask
      · exact .inl rfl
      · exact hwork task htask

/-! ### Orderly steps go well -/

/-- A call in the loop's thread. -/
theorem InPhase.callInLoop (h : InPhase c p w) (htracked : Tracked c.sockfd w.loop) (n : Option ℕ)
    (call : Call) : ∃ w', w.callInLoop c n call = .ok w' ∧ InPhase c p w' := by
  obtain ⟨w', hcall, hneutral, hwork, hloop⟩ := exists_neutral_callInLoop htracked n call
  refine ⟨w', hcall, h.neutral hneutral (hwork ▸ h.work) fun hp => ?_⟩
  -- `send` has no effect while `connDestroyed` is in progress
  exact hloop.resolve_right (h.state.ne_kConnected (Phase.isDown_of_isLeaving hp))

/-- A part of the work is done, and nothing else changes. -/
theorem InPhase.pop (h : InPhase c p w) {work : List Task} (hwork : p.Work work) :
    InPhase c p { w with work } :=
  h.neutral { neutral_refl w with } hwork fun _ => rfl

/-- The next task, in a phase in which there are only callbacks and the user's code. -/
theorem InPhase.runTask_of_isOrdinary (h : InPhase c p w) (hp : p.isOrdinary = true)
    (htracked : Tracked c.sockfd w.loop) {n : Option ℕ} (horderly : w.Orderly (.runTask n)) :
    ∃ w' p', w.runTask c n = .ok w' ∧ InPhase c p' w' ∧ Passes c w' p p' := by
  rw [runTask]
  split
  · exact ⟨w, p, rfl, h, .stays p⟩
  · next task work hwork =>
    have hall := (Phase.work_iff hp).mp h.work
    rw [hwork, List.forall_mem_cons] at hall
    have hpop : InPhase c p { w with work } := h.pop ((Phase.work_iff hp).mpr hall.2)
    have hhead : w.work.head? = some task := by rw [hwork, List.head?_cons]
    have hclose : w.Closes (.runTask n) → ∃ w' p', { w with work }.handleClose c = .ok w' ∧
        InPhase c p' w' ∧ Passes c w' p p' := by
      intro hcloses
      -- a channel that reads is that of an open connection
      have hreading := h.reading.symm.trans (horderly.closes hcloses)
      cases p with
      | opened =>
        obtain ⟨w', hok, hnext⟩ := hpop.handleClose htracked
        exact ⟨w', _, hok, hnext, .closed⟩
      | closing | gone => cases hreading
      | announcing | leaving | removing => cases hp
    rcases hall.1 with rfl | ⟨callback, rfl⟩
    · exact ⟨_, p, rfl, hpop, .stays p⟩
    · cases callback with
      | error => exact ⟨_, p, rfl, hpop, .stays p⟩
      | close => exact hclose (.inl hhead)
      | read =>
        rcases n with _ | _ | n
        · exact ⟨_, p, rfl, hpop, .stays p⟩
        · exact hclose (.inr ⟨hhead, rfl⟩)
        · have hup := horderly.receives hhead
          rw [h.connections_eq] at hup
          refine ⟨_, p, rfl, hpop.message ?_, .stays p⟩
          cases p with
          | opened => exact .inl rfl
          | closing => exact .inr rfl
          | gone => exact absurd (by decide) hup
          | announcing | leaving | removing => cases hp
      | write =>
        obtain ⟨w', hwrite, hneutral, hsame⟩ :=
          exists_neutral_handleWrite (c := c) (w := { w with work }) htracked n
        exact ⟨w', p, hwrite, hpop.neutral_of_isOrdinary hp hneutral hsame, .stays p⟩

theorem InPhase.runTask (h : InPhase c p w) (htracked : Tracked c.sockfd w.loop) {n : Option ℕ}
    (horderly : w.Orderly (.runTask n)) :
    ∃ w' p', w.runTask c n = .ok w' ∧ InPhase c p' w' ∧ Passes c w' p p' := by
  cases p with
  | opened | closing | gone => exact h.runTask_of_isOrdinary rfl htracked horderly
  | announcing =>
    have hwork : w.work = [.connCb, .userCode] := h.work
    have hstate : w.state = .kConnected :=
      horderly.announces ⟨by rw [hwork, List.head?_cons], h.connections_eq⟩
    rw [World.runTask, hwork]
    exact ⟨_, _, rfl, h.announce hstate, .announced⟩
  | leaving =>
    have hwork : w.work = [.connCb, .userCode, .removeChannel] := h.work
    rw [World.runTask, hwork]
    exact ⟨_, _, rfl, h.leave, .left⟩
  | removing =>
    rw [World.runTask]
    rcases h.work with hwork | hwork
    · rw [hwork]
      exact ⟨_, _, rfl, h.pop (.inr rfl), .stays _⟩
    · rw [hwork]
      obtain ⟨w', hremove, hnext⟩ := h.removeChannel htracked
      exact ⟨w', _, hremove, hnext⟩

/-- The next functor of the loop's queue. -/
theorem InPhase.runFunctor (h : InPhase c p w) (hidle : w.work = [])
    (htracked : Tracked c.sockfd w.loop) {n : Option ℕ} (horderly : w.Orderly (.runFunctor n)) :
    ∃ w' p', w.act c (.runFunctor n) = .ok w' ∧ InPhase c p' w' ∧ Passes c w' p p' := by
  have hp : p.isOrdinary = true := Phase.isOrdinary_of_idle (hidle ▸ h.work)
  simp only [act]
  split
  · next f fs hfs =>
    have hpop : f ≠ .connEstablished → f ≠ .connDestroyed →
        InPhase c p { w with pendingFunctors := fs } := by
      refine fun hest hdest => h.neutral_of_isOrdinary hp { neutral_refl w with functors := ?_ } rfl
      rw [hfs]
      exact ⟨(List.count_cons_of_ne hest).symm, (List.count_cons_of_ne hdest).symm⟩
    cases f with
    | connEstablished =>
      -- it has run already, and is queued only once
      exact absurd (hfs ▸ List.mem_cons_self) h.establishes
    | connDestroyed =>
      obtain ⟨rfl, w', hdestroy, hnext⟩ := h.connDestroyed htracked hfs hidle
      exact ⟨w', _, hdestroy, hnext, .destroyed⟩
    | sendInLoop sender message =>
      obtain ⟨w', hsend, hneutral, hsame⟩ := exists_neutral_sendInLoop (c := c)
        (w := { w with pendingFunctors := fs }) htracked n sender message
      have hpop' := hpop (by simp) (by simp)
      exact ⟨w', p, hsend, hpop'.neutral_of_isOrdinary hp hneutral hsame, .stays p⟩
    | shutdownInLoop =>
      have hpop' := hpop (by simp) (by simp)
      refine ⟨_, p, rfl, hpop'.neutral_of_isOrdinary hp (neutral_shutdownInLoop _) ?_, .stays p⟩
      rw [shutdownInLoop]
      split_ifs <;> rfl
    | forceCloseInLoop =>
      have hpop' := hpop (by simp) (by simp)
      rw [invoke, World.forceCloseInLoop]
      split_ifs with hstate
      · have hreading := h.reading.symm.trans
          (horderly.closes ⟨hidle, by rw [hfs, List.head?_cons], hstate⟩)
        cases p with
        | opened =>
          obtain ⟨w', hok, hnext⟩ := hpop'.handleClose htracked
          exact ⟨w', _, hok, hnext, .closed⟩
        | closing | gone => cases hreading
        | announcing | leaving | removing => cases hp
      · exact ⟨_, p, rfl, hpop', .stays p⟩
    | wriComCb =>
      have hpop' := hpop (by simp) (by simp)
      refine ⟨_, p, rfl, hpop'.pop ((Phase.work_iff hp).mpr ?_), .stays p⟩
      rw [hidle, List.forall_mem_singleton]
      exact .inl rfl
    | addTimerInLoop =>
      have hpop' := hpop (by simp) (by simp)
      exact ⟨_, p, rfl, hpop'.neutral_of_isOrdinary hp { neutral_refl _ with } rfl, .stays p⟩
  · exact ⟨w, p, rfl, h, .stays p⟩

/-- Another thread goes on with its call. -/
theorem InPhase.continueCall (h : InPhase c p w) (hsound : Sound c w) (t : ℕ) :
    InPhase c p (w.continueCall t) := by
  obtain ⟨hneutral, hwork, hloop⟩ := neutral_continueCall hsound t
  exact h.neutral hneutral (hwork ▸ h.work) fun _ => hloop

/-- Every orderly step goes well, and leads to the same phase or the next. -/
theorem InPhase.step (h : InPhase c p w) (hsound : Sound c w) {l : Label}
    (horderly : w.Orderly l) :
    ∃ w' p', w.step c l = .ok w' ∧ InPhase c p' w' ∧ Passes c w' p p' := by
  rw [World.step]
  split_ifs with henabled
  · cases l with
    | callInLoop n call =>
      obtain ⟨w', hok, hnext⟩ := h.callInLoop hsound.tracked n call
      exact ⟨w', p, hok, hnext, .stays p⟩
    | call t call =>
      obtain ⟨hneutral, hwork, hloop⟩ := neutral_call w t call
      exact ⟨_, p, rfl, h.neutral hneutral (hwork ▸ h.work) fun _ => hloop, .stays p⟩
    | continueCall t => exact ⟨_, p, rfl, h.continueCall hsound t, .stays p⟩
    | handleEvent revents =>
      have hp : p.isOrdinary = true := Phase.isOrdinary_of_idle (henabled.1 ▸ h.work)
      refine ⟨_, p, rfl, h.pop ((Phase.work_iff hp).mpr fun task htask => .inr ?_), .stays p⟩
      obtain ⟨callback, -, rfl⟩ := List.mem_map.mp htask
      exact ⟨callback, rfl⟩
    | runTask n => exact h.runTask hsound.tracked horderly
    | runFunctor n => exact h.runFunctor henabled hsound.tracked horderly
    | timeout =>
      have hpop : InPhase c p { w with timers := w.timers - 1 } :=
        h.neutral { neutral_refl w with } h.work fun _ => rfl
      obtain ⟨w', hok, hnext⟩ := hpop.callInLoop hsound.tracked none .forceClose
      exact ⟨w', p, hok, hnext, .stays p⟩
    | removeConnectionInLoop =>
      obtain ⟨rfl, w', hok, hnext⟩ := h.removeConnectionInLoop henabled
      exact ⟨w', _, hok, hnext, .stays _⟩
  · exact ⟨w, p, rfl, h, .stays p⟩

/-- Before `connEstablished` runs nothing else has an effect. -/
theorem exists_step_init (c : Setup) (l : Label) :
    ∃ w', init.step c l = .ok w' ∧
      (w' = init ∨ InPhase c .announcing w' ∧ w'.state = .kConnected) := by
  cases l with
  | runFunctor n =>
    obtain ⟨loop, hok, -, hreading⟩ := exists_connEstablished (c := c)
      (w := { init with pendingFunctors := [] }) (tracked_init _) rfl
    exact ⟨_, hok, .inr ⟨⟨.inl rfl, rfl, rfl, History.whenever_nil, hreading,
      (fun hp => by cases hp), rfl, List.not_mem_nil, rfl, rfl, rfl⟩, rfl⟩⟩
  | callInLoop n call => exact ⟨init, by cases call <;> rfl, .inl rfl⟩
  | call t call => exact ⟨init, by cases call <;> rfl, .inl rfl⟩
  | continueCall | handleEvent | runTask | timeout | removeConnectionInLoop =>
    exact ⟨init, rfl, .inl rfl⟩

/-! ### Only orderly steps go well -/

theorem step_of_enabled {l : Label} (h : w.Enabled c l) : w.step c l = w.act c l := if_pos h

theorem step_runTask (n : Option ℕ) : w.step c (.runTask n) = w.runTask c n :=
  step_of_enabled trivial

/-- A step that calls `handleClose` does nothing else to the log, the channel and the state. -/
theorem Closes.exists_step_eq {l : Label} (h : w.Closes l) :
    ∃ v : World, v.log = w.log ∧ v.loop = w.loop ∧ v.state = w.state ∧
      w.step c l = v.handleClose c := by
  cases l with
  | runTask n =>
    rcases h with hhead | ⟨hhead, rfl⟩
    all_goals
      obtain ⟨work, hwork⟩ := List.head?_eq_some_iff.mp hhead
      refine ⟨{ w with work }, rfl, rfl, rfl, ?_⟩
      rw [step_runTask, runTask, hwork]
    rfl
  | runFunctor n =>
    obtain ⟨hidle, hhead, hstate⟩ := h
    obtain ⟨fs, hfs⟩ := List.head?_eq_some_iff.mp hhead
    refine ⟨{ w with pendingFunctors := fs }, rfl, rfl, rfl, ?_⟩
    rw [step_of_enabled (l := .runFunctor n) hidle, act, hfs]
    exact if_pos hstate
  | _ => exact h.elim

theorem Released.log_eq (h : Released c w w') : w'.log = w.log := by
  cases h <;> rfl

/-- A connection that is closed for the second time does not live well. -/
theorem not_succeeds_of_closes (h : InPhase c p w) (htracked : Tracked c.sockfd w.loop) {l : Label}
    (hcloses : w.Closes l) (hreading : w.isReading = false) :
    ¬Machine.Succeeds Lifecycle (w.step c l) := by
  rintro ⟨w', hstep, hlife⟩
  obtain ⟨v, hlog, hloop, -, heq⟩ := hcloses.exists_step_eq (c := c)
  obtain ⟨-, loop, -, -, hrel⟩ := handleClose_eq_ok (hloop ▸ htracked) (heq.symm.trans hstep)
  -- a connection in a phase without reading has been closed once
  have hone : w.log.count .close = 1 := by
    rw [h.reading] at hreading
    rw [h.closes_eq]
    cases p <;> first | rfl | cases hreading
  have hcount := hlife.closes
  rw [hrel.log_eq, List.count_append, hlog, hone] at hcount
  exact absurd hcount (by decide)

/-- A step of a connection that goes well is orderly. -/
theorem InPhase.orderly (h : InPhase c p w) (hsound : Sound c w) {l : Label}
    (hok : Machine.Succeeds Lifecycle (w.step c l)) : w.Orderly l := by
  refine ⟨?_, ?_, ?_⟩
  · intro hcloses
    by_contra hreading
    rw [Bool.not_eq_true] at hreading
    exact not_succeeds_of_closes h hsound.tracked hcloses hreading hok
  · intro hreceives hdown
    obtain ⟨w', hstep, hlife⟩ := hok
    -- only a `handleRead` with `n + 1` bytes receives
    rcases l with _ | _ | _ | _ | (_ | _ | n) | _ | _ | _
    case runTask.some.succ =>
      obtain ⟨work, hwork⟩ := List.head?_eq_some_iff.mp hreceives
      rw [step_runTask, World.runTask, hwork] at hstep
      obtain rfl := Except.ok.inj hstep
      rw [hlife.messages w.log [] rfl] at hdown
      cases hdown with
      | tail _ hmem => cases hmem
    all_goals exact hreceives.elim
  · intro hannounces
    obtain ⟨w', hstep, hlife⟩ := hok
    cases l with
    | runTask n =>
      obtain ⟨hhead, hnone⟩ := hannounces
      obtain ⟨work, hwork⟩ := List.head?_eq_some_iff.mp hhead
      rw [step_runTask, World.runTask, hwork] at hstep
      obtain rfl := Except.ok.inj hstep
      -- otherwise the first announcement would be that of a closed connection
      by_contra hstate
      have hprefix : connections (w.log ++ [.connection (decide (w.state = .kConnected))]) <+:
          [true, false] := hlife.connections
      rw [connections_append, hnone, decide_eq_false hstate] at hprefix
      exact absurd hprefix (by decide)
    | _ => exact hannounces.elim

end World

open World

/-- What holds of a world reached by orderly steps. -/
def Alive (c : Setup) (w : World) : Prop := Sound c w ∧ (w = World.init ∨ ∃ p, InPhase c p w)

variable {c : Setup} {w w' : World}

theorem Alive.lifecycle (h : Alive c w) : Lifecycle w := by
  rcases h.2 with rfl | ⟨p, hphase⟩
  · exact ⟨Nat.zero_le 1, List.nil_prefix, fun hstate => absurd rfl hstate, History.whenever_nil⟩
  · exact hphase.lifecycle

theorem Alive.step (h : Alive c w) {l : Label} (horderly : w.Orderly l) :
    ∃ w', w.step c l = .ok w' ∧ Alive c w' := by
  rcases h.2 with rfl | ⟨p, hphase⟩
  · obtain ⟨w', hok, hnext⟩ := exists_step_init c l
    exact ⟨w', hok, (transfers_step h.1 hok).sound, hnext.imp id fun hphase => ⟨_, hphase.1⟩⟩
  · obtain ⟨w', p', hok, hnext, -⟩ := hphase.step h.1 horderly
    exact ⟨w', hok, (transfers_step h.1 hok).sound, .inr ⟨p', hnext⟩⟩

theorem orderly_init (l : Label) : World.init.Orderly l := by
  refine ⟨?_, ?_, ?_⟩
  · intro h
    cases l with
    | runTask n => rcases h with h | ⟨h, -⟩ <;> cases h
    | runFunctor n => cases h.2.1
    | _ => exact h.elim
  · intro _ h
    cases h
  · intro h
    cases l with
    | runTask n => cases h.1
    | _ => exact h.elim

/-- A step goes well exactly when it is orderly. -/
theorem Alive.succeeds_iff (h : Alive c w) (l : Label) :
    Machine.Succeeds Lifecycle (w.step c l) ↔ w.Orderly l := by
  constructor
  · intro hok
    rcases h.2 with rfl | ⟨p, hphase⟩
    · exact orderly_init l
    · exact hphase.orderly h.1 hok
  · intro horderly
    obtain ⟨w', hok, hnext⟩ := h.step horderly
    exact ⟨w', hok, hnext.lifecycle⟩

/-- A run goes well, without a failing `assert`, exactly when every step is orderly. -/
theorem lifecycle_iff (c : Setup) (ls : List Label) :
    Machine.Along (World.step c) (Machine.onResult (Machine.Succeeds Lifecycle)) World.init ls ↔
      Machine.Along (World.step c) (Machine.onInput World.Orderly) World.init ls := by
  have hinit : Alive c World.init := ⟨sound_init c, .inl rfl⟩
  refine Machine.along_iff_along hinit (fun w l h => Alive.succeeds_iff h l) ?_
  intro w l w' h hgood hok
  obtain ⟨w'', hok', hnext⟩ := Alive.step h ((Alive.succeeds_iff h l).mp hgood)
  obtain rfl := Except.ok.inj (hok.symm.trans hok')
  exact hnext

end TcpConnection

end MuduoRebuild
