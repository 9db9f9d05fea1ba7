import MuduoRebuild.TcpConnection.OutputStream

/-!
# How long a connection lives

A `TcpConnection` is destroyed when the last `TcpConnectionPtr` to it is gone. The table of its
owner holds one, and so do `connEstablished`, `connDestroyed` and `wriComCb_` in a queue,
`removeConnectionInLoop` in the queue of the base loop, the user, and every caller of a member
function during its call. A loop takes its queue as a batch, and destroys the functors when the
whole batch has been run.

The functors `sendInLoop`, `shutdownInLoop` and `forceCloseInLoop` and the timer of
`forceCloseWithDelay` hold only `this`. `Shared` is a connection with all who hold it. If the last
of them never leaves while such a functor is queued or such a timer is set, none of these is run on
a destroyed connection (`deferred_work_alive`); otherwise it can be (`run_on_destroyed`).
-/

namespace MuduoRebuild

namespace TcpConnection

open Fallible

/-- Whether a functor holds a `TcpConnectionPtr`. The others hold `this`, but for `addTimerInLoop`:
it is bound to the `TimerQueue`, and to a timer whose callback holds `this`. -/
def Functor.holdsPtr : Functor → Bool
  | connEstablished | connDestroyed | wriComCb => true
  | sendInLoop .. | shutdownInLoop | forceCloseInLoop | addTimerInLoop => false

namespace World

/-- The table of the owner or a functor in a queue holds the connection. -/
def Tied (w : World) : Prop :=
  w.owned = true ∨ 0 < w.removals ∨ ∃ f ∈ w.pendingFunctors, f.holdsPtr = true

instance (w : World) : Decidable w.Tied :=
  inferInstanceAs (Decidable
    (w.owned = true ∨ 0 < w.removals ∨ ∃ f ∈ w.pendingFunctors, f.holdsPtr = true))

end World

/-- A connection, and all who hold a `TcpConnectionPtr` to it. -/
structure Shared where
  conn : World
  /-- How many functors are left of the batch that the loop is running. They are at the head of
  the queue. -/
  batch : Option ℕ
  /-- Whether a functor of this batch that has been run holds the connection. -/
  batchHolds : Bool
  /-- Whether a functor that the base loop has run holds it, in the batch of the base loop. -/
  baseHolds : Bool
  /-- The number of pointers of the user. -/
  refs : ℕ
  /-- The other threads that are in a call, each with a pointer for its duration. -/
  callers : List ℕ

namespace Shared

/-- The connection when `connEstablished` has been passed to its loop. -/
def init : Shared where
  conn := .init
  batch := none
  batchHolds := false
  baseHolds := false
  refs := 0
  callers := []

variable (c : Setup) (w : Shared)

/-- Nobody holds the connection. -/
def Destroyed : Prop :=
  ¬w.conn.Tied ∧ w.batchHolds = false ∧ w.baseHolds = false ∧ w.refs = 0 ∧ w.callers = []

instance : Decidable w.Destroyed :=
  inferInstanceAs (Decidable
    (¬w.conn.Tied ∧ w.batchHolds = false ∧ w.baseHolds = false ∧ w.refs = 0 ∧ w.callers = []))

/-- No functor for the connection is queued, and no timer is set. -/
def Settled : Prop := w.conn.pendingFunctors = [] ∧ w.conn.timers = 0

instance : Decidable w.Settled :=
  inferInstanceAs (Decidable (w.conn.pendingFunctors = [] ∧ w.conn.timers = 0))

/-- A step of one of the threads. -/
inductive Label where
  /-- A step of the connection. -/
  | conn (l : World.Label)
  /-- `doPendingFunctors` takes the queue. -/
  | startBatch
  /-- `doPendingFunctors` returns. -/
  | endBatch
  /-- `doPendingFunctors` returns in the base loop. -/
  | endBaseBatch
  /-- The user copies a pointer. -/
  | copy
  /-- The user drops a pointer. -/
  | drop
  deriving DecidableEq, Repr

/-- Whether the loop can take a step of the connection now: events and timers come before a batch,
and its functors are run during it. -/
def InTurn : World.Label → Prop
  | .handleEvent _ | .timeout => w.batch = none
  | .runFunctor _ => 0 < w.batch.getD 0
  | .callInLoop .. | .call .. | .continueCall _ | .runTask _ | .removeConnectionInLoop => True

instance (l : World.Label) : Decidable (w.InTurn l) :=
  match l with
  | .handleEvent _ | .timeout => inferInstanceAs (Decidable (w.batch = none))
  | .runFunctor _ => inferInstanceAs (Decidable (0 < w.batch.getD 0))
  | .callInLoop .. | .call .. | .continueCall _ | .runTask _ | .removeConnectionInLoop =>
    inferInstanceAs (Decidable True)

/-- The step runs something that holds only `this`. `addTimerInLoop` is counted as such for its
timer, although it does not use the connection itself. -/
def Runs : Label → Prop
  | .conn (.runFunctor _) => ∃ f, w.conn.pendingFunctors.head? = some f ∧ f.holdsPtr = false
  | .conn .timeout => True
  | _ => False

instance (l : Label) : Decidable (w.Runs l) :=
  match l with
  | .conn (.runFunctor _) =>
    decidable_of_iff (w.conn.pendingFunctors.head?.any fun f => !f.holdsPtr) (by
      simp only [Option.any_eq_true, Bool.not_eq_true', Runs])
  | .conn .timeout => inferInstanceAs (Decidable True)
  | .conn (.callInLoop ..) | .conn (.call ..) | .conn (.continueCall _) | .conn (.handleEvent _)
  | .conn (.runTask _) | .conn .removeConnectionInLoop | .startBatch | .endBatch | .endBaseBatch
  | .copy | .drop => inferInstanceAs (Decidable False)

/-- Whether a step can be taken. Who calls a member function holds the connection, and nobody gets
hold of it again once it is destroyed; but what is queued will be run. -/
def Enabled : Label → Prop
  | .conn l => w.conn.Enabled c l ∧ w.InTurn l ∧ (w.Destroyed → w.Runs (.conn l))
  | .startBatch => w.conn.work = [] ∧ w.batch = none
  | .endBatch => w.conn.work = [] ∧ w.batch = some 0
  | .endBaseBatch => True
  | .copy => ¬w.Destroyed
  | .drop => 0 < w.refs

instance (l : Label) : Decidable (w.Enabled c l) :=
  match l with
  | .conn l => inferInstanceAs (Decidable
      (w.conn.Enabled c l ∧ w.InTurn l ∧ (w.Destroyed → w.Runs (.conn l))))
  | .startBatch => inferInstanceAs (Decidable (w.conn.work = [] ∧ w.batch = none))
  | .endBatch => inferInstanceAs (Decidable (w.conn.work = [] ∧ w.batch = some 0))
  | .endBaseBatch => inferInstanceAs (Decidable True)
  | .copy => inferInstanceAs (Decidable (¬w.Destroyed))
  | .drop => inferInstanceAs (Decidable (0 < w.refs))

/-- Who holds the connection after a step that has made it `conn`. -/
def note (conn : World) : World.Label → Shared
  | .runFunctor _ => { w with
      conn
      batch := w.batch.map (· - 1)
      batchHolds := w.batchHolds || w.conn.pendingFunctors.head?.any Functor.holdsPtr }
  | .removeConnectionInLoop => { w with conn, baseHolds := true }
  | .call t _ => { w with
      conn
      callers := if conn.calls t = [] then w.callers else t :: w.callers }
  | .continueCall t => { w with
      conn
      callers := if conn.calls t = [] then w.callers.filter (· ≠ t) else w.callers }
  | .callInLoop .. | .handleEvent _ | .runTask _ | .timeout => { w with conn }

def act : Label → Except Fault Shared
  | .conn l => do
    let conn ← w.conn.step c l
    return w.note conn l
  | .startBatch => .ok { w with batch := some w.conn.pendingFunctors.length }
  | .endBatch => .ok { w with batch := none, batchHolds := false }
  | .endBaseBatch => .ok { w with baseHolds := false }
  | .copy => .ok { w with refs := w.refs + 1 }
  | .drop => .ok { w with refs := w.refs - 1 }

/-- One step; a step that cannot be taken now leaves everything as it is. What a functor or a
callback does to a destroyed object is undefined. -/
def step (l : Label) : Except Fault Shared :=
  if w.Enabled c l then do
    Fallible.check (¬(w.Destroyed ∧ w.Runs l)) .outOfBounds
    w.act c l
  else .ok w

/-- What holds only `this` is not run on a destroyed connection. -/
def RunsAlive (l : Label) : Prop := w.Enabled c l → w.Runs l → ¬w.Destroyed

instance (l : Label) : Decidable (w.RunsAlive c l) :=
  inferInstanceAs (Decidable (w.Enabled c l → w.Runs l → ¬w.Destroyed))

/-- The step does not take the last pointer away while a functor is queued or a timer is set. The
call of another thread, which ends by queueing a functor, does not hold the last one. -/
def Spares (l : Label) : Prop :=
  w.Enabled c l →
    match l with
    | .endBatch => { w with batchHolds := false }.Destroyed → w.Settled
    | .endBaseBatch => { w with baseHolds := false }.Destroyed → w.Settled
    | .drop => { w with refs := w.refs - 1 }.Destroyed → w.Settled
    | .conn (.continueCall t) =>
      (w.conn.calls t).length = 1 → ¬{ w with callers := w.callers.filter (· ≠ t) }.Destroyed
    | _ => True

instance (l : Label) : Decidable (w.Spares c l) :=
  have : Decidable (match l with
    | .endBatch => { w with batchHolds := false }.Destroyed → w.Settled
    | .endBaseBatch => { w with baseHolds := false }.Destroyed → w.Settled
    | .drop => { w with refs := w.refs - 1 }.Destroyed → w.Settled
    | .conn (.continueCall t) =>
      (w.conn.calls t).length = 1 → ¬{ w with callers := w.callers.filter (· ≠ t) }.Destroyed
    | _ => True) := by
    split <;> infer_instance
  inferInstanceAs (Decidable (w.Enabled c l → _))

end Shared

/-! ### Who holds a connection keeps it -/

namespace World

variable {c : Setup} {w w' w'' : World}

/-- What holds the connection still holds it, and no thread has gone on with its call. -/
structure Retains (w w' : World) : Prop where
  tied : w.Tied → w'.Tied
  calls_eq : w'.calls = w.calls

theorem retains_refl (w : World) : Retains w w := ⟨id, rfl⟩

theorem Retains.trans (h : Retains w w') (h' : Retains w' w'') : Retains w w'' :=
  ⟨h'.tied ∘ h.tied, h'.calls_eq.trans h.calls_eq⟩

/-- Functors are queued, and the owner keeps the connection. -/
theorem tied_append (howned : w'.owned = w.owned) (hremovals : w'.removals = w.removals)
    {fs : List Functor} (hqueue : w'.pendingFunctors = w.pendingFunctors ++ fs) (h : w.Tied) :
    w'.Tied := by
  rcases h with h | h | ⟨f, hf, hholds⟩
  · exact .inl (howned ▸ h)
  · exact .inr (.inl (hremovals ▸ h))
  · exact .inr (.inr ⟨f, hqueue ▸ List.mem_append_left fs hf, hholds⟩)

theorem retains_record (w : World) (e : Event) : Retains w (w.record e) :=
  ⟨tied_append rfl rfl (List.append_nil _).symm, rfl⟩

theorem retains_shutdownInLoop (w : World) : Retains w w.shutdownInLoop := by
  rw [shutdownInLoop]
  split_ifs
  · exact retains_refl w
  · exact retains_record w _

theorem tied_of_mem {f : Functor} (hf : f ∈ w.pendingFunctors) (hholds : f.holdsPtr = true) :
    w.Tied :=
  .inr (.inr ⟨f, hf, hholds⟩)

/-- The owner gives the connection up, to a functor that holds it. -/
theorem Released.retains (h : Released c w w') : Retains w w' := by
  cases h with
  | posted => exact ⟨fun _ => .inr (.inl (Nat.succ_pos _)), rfl⟩
  | dropped => exact ⟨fun _ => tied_of_mem (List.mem_append_right _ List.mem_cons_self) rfl, rfl⟩

theorem retains_handleClose (htracked : Tracked c.sockfd w.loop)
    (hok : w.handleClose c = .ok w') : Retains w w' := by
  obtain ⟨-, loop, -, -, hrel⟩ := handleClose_eq_ok htracked hok
  have hclose : Retains w { w with loop, log := w.log ++ [.close] } :=
    ⟨tied_append rfl rfl (List.append_nil _).symm, rfl⟩
  exact hclose.trans hrel.retains

theorem retains_sendInLoop (htracked : Tracked c.sockfd w.loop) {n : Option ℕ} {sender : Thread}
    {message : List UInt8} (hok : w.sendInLoop c n sender message = .ok w') : Retains w w' := by
  obtain ⟨loop, k, es, fs, heq, -⟩ := exists_sendInLoop htracked n sender message
  obtain rfl := Except.ok.inj (heq.symm.trans hok)
  exact ⟨tied_append rfl rfl rfl, rfl⟩

theorem retains_invoke (htracked : Tracked c.sockfd w.loop) {n : Option ℕ} {f : Functor}
    (hok : w.invoke c n f = .ok w') : Retains w w' := by
  cases f with
  | connEstablished =>
    obtain ⟨_, hstate, -⟩ := bind_eq_ok.mp hok
    obtain ⟨loop, heq, -⟩ := exists_connEstablished htracked (check_eq_ok.mp hstate)
    obtain rfl := Except.ok.inj (heq.symm.trans hok)
    exact ⟨tied_append rfl rfl (List.append_nil _).symm, rfl⟩
  | connDestroyed =>
    obtain ⟨_, hstate, -⟩ := bind_eq_ok.mp hok
    obtain ⟨loop, heq, -⟩ := exists_connDestroyed htracked (check_eq_ok.mp hstate)
    obtain rfl := Except.ok.inj (heq.symm.trans hok)
    exact ⟨tied_append rfl rfl (List.append_nil _).symm, rfl⟩
  | sendInLoop sender message => exact retains_sendInLoop htracked hok
  | shutdownInLoop =>
    obtain rfl := Except.ok.inj hok
    exact retains_shutdownInLoop w
  | forceCloseInLoop =>
    rw [invoke, forceCloseInLoop] at hok
    split_ifs at hok
    · exact retains_handleClose htracked hok
    · obtain rfl := Except.ok.inj hok
      exact retains_refl w
  | wriComCb | addTimerInLoop =>
    obtain rfl := Except.ok.inj hok
    exact ⟨tied_append rfl rfl (List.append_nil _).symm, rfl⟩

theorem retains_callInLoop (htracked : Tracked c.sockfd w.loop) {n : Option ℕ} {call : Call}
    (hok : w.callInLoop c n call = .ok w') : Retains w w' := by
  rw [callInLoop] at hok
  split_ifs at hok
  · obtain ⟨v, hv, hok⟩ := bind_eq_ok.mp hok
    obtain rfl := Except.ok.inj hok
    have hrecord := retains_record w (.called .loop call)
    refine Retains.trans ?_ (retains_record v _)
    cases call with
    | send payload =>
      obtain ⟨u, hsend, hv⟩ := bind_eq_ok.mp hv
      obtain rfl := Except.ok.inj hv
      exact hrecord.trans (retains_sendInLoop (w := w.record _) htracked hsend)
    | shutdown =>
      obtain rfl := Except.ok.inj hv
      have hset : Retains w { w.record (.called .loop .shutdown) with state := .kDisconnecting } :=
        ⟨hrecord.tied, rfl⟩
      exact hset.trans (retains_shutdownInLoop _)
    | forceClose =>
      obtain rfl := Except.ok.inj hv
      exact ⟨tied_append rfl rfl rfl, rfl⟩
    | forceCloseWithDelay =>
      obtain rfl := Except.ok.inj hv
      exact ⟨tied_append rfl rfl (List.append_nil _).symm, rfl⟩
  · obtain rfl := Except.ok.inj hok
    exact retains_refl w

theorem retains_runTask (htracked : Tracked c.sockfd w.loop) {n : Option ℕ}
    (hok : w.runTask c n = .ok w') : Retains w w' := by
  rw [runTask] at hok
  split at hok
  · obtain rfl := Except.ok.inj hok
    exact retains_refl w
  · next task work hwork =>
    have hpop : Retains w { w with work } := ⟨tied_append rfl rfl (List.append_nil _).symm, rfl⟩
    refine hpop.trans ?_
    have htracked' : Tracked c.sockfd { w with work }.loop := htracked
    cases task with
    | handle callback =>
      cases callback with
      | error =>
        obtain rfl := Except.ok.inj hok
        exact retains_refl _
      | close => exact retains_handleClose htracked' hok
      | read =>
        rcases n with _ | _ | n
        · obtain rfl := Except.ok.inj hok
          exact retains_refl _
        · exact retains_handleClose htracked' hok
        · obtain rfl := Except.ok.inj hok
          exact ⟨tied_append rfl rfl (List.append_nil _).symm, rfl⟩
      | write =>
        obtain ⟨loop, k, es, fs, heq, -⟩ := exists_handleWrite htracked' n
        obtain rfl := Except.ok.inj (heq.symm.trans hok)
        exact ⟨tied_append rfl rfl rfl, rfl⟩
    | connCb =>
      obtain rfl := Except.ok.inj hok
      exact retains_record _ _
    | userCode =>
      obtain rfl := Except.ok.inj hok
      exact retains_refl _
    | removeChannel =>
      obtain ⟨loop, -, rfl⟩ := removeChannel_eq_ok htracked' hok
      exact ⟨tied_append rfl rfl (List.append_nil _).symm, rfl⟩

/-- The loop runs the functor at the head of its queue. What held the connection still does, or it
was this functor. -/
theorem tied_runFunctor (hsound : Sound c w) {n : Option ℕ}
    (hok : w.act c (.runFunctor n) = .ok w') :
    (w.Tied → w'.Tied ∨ w.pendingFunctors.head?.any Functor.holdsPtr = true) ∧
      w'.calls = w.calls := by
  rw [act] at hok
  split at hok
  · next f fs hqueue =>
    have hretains := retains_invoke (w := { w with pendingFunctors := fs }) hsound.tracked hok
    refine ⟨fun htied => ?_, hretains.calls_eq⟩
    rw [hqueue, List.head?_cons, Option.any_some]
    rcases htied with h | h | ⟨g, hg, hholds⟩
    · exact .inl (hretains.tied (.inl h))
    · exact .inl (hretains.tied (.inr (.inl h)))
    · rw [hqueue] at hg
      rcases List.mem_cons.mp hg with rfl | hg
      · exact .inr hholds
      · exact .inl (hretains.tied (tied_of_mem hg hholds))
  · obtain rfl := Except.ok.inj hok
    exact ⟨.inl, rfl⟩

/-- Another thread goes on with its call, and possibly queues a functor. -/
theorem tied_continueCall (w : World) (t : ℕ) : w.Tied → (w.continueCall t).Tied := by
  rw [continueCall]
  split
  · exact id
  · next a as _ =>
    have hperform : ∃ fs,
        ({ w with calls := Function.update w.calls t as }.perform a).pendingFunctors =
          w.pendingFunctors ++ fs := by
      cases a with
      | setState => exact ⟨[], (List.append_nil _).symm⟩
      | runInLoop f | queueInLoop f => exact ⟨[f], rfl⟩
    obtain ⟨fs, hfs⟩ := hperform
    dsimp only
    split_ifs
    · exact tied_append (by cases a <;> rfl) (by cases a <;> rfl) hfs
    · exact tied_append (by cases a <;> rfl) (by cases a <;> rfl) hfs

theorem calls_continueCall (w : World) (t s : ℕ) :
    (w.continueCall t).calls s = if s = t then (w.calls t).tail else w.calls s := by
  rw [continueCall]
  split
  · next h =>
    by_cases hs : s = t
    · rw [if_pos hs, hs, h, List.tail_nil]
    · rw [if_neg hs]
  · next a as h =>
    have hperform : ({ w with calls := Function.update w.calls t as }.perform a).calls =
        Function.update w.calls t as := by cases a <;> rfl
    rw [h, List.tail_cons, ← Function.update_apply]
    dsimp only
    split_ifs
    · exact congrFun hperform s
    · exact congrFun hperform s

theorem calls_call_of_ne (w : World) {t s : ℕ} (call : Call) (hs : s ≠ t) :
    (w.call t call).calls s = w.calls s := by
  rw [World.call]
  split_ifs
  · exact Function.update_of_ne hs ..
  · rfl

theorem tied_call (w : World) (t : ℕ) (call : Call) : w.Tied → (w.call t call).Tied := by
  rw [World.call]
  split_ifs
  · exact tied_append rfl rfl (List.append_nil _).symm
  · exact id

end World

/-! ### What is left of a destroyed connection -/

namespace Shared

open World

variable {c : Setup} {w w' : Shared} {l : Label}

/-- What holds of every state that is reached while the condition is met. -/
structure Custodial (c : Setup) (w : Shared) : Prop where
  sound : Sound c w.conn
  settled : w.Destroyed → w.Settled
  callers : ∀ t, t ∈ w.callers ↔ w.conn.calls t ≠ []

theorem custodial_init (c : Setup) : Custodial c init where
  sound := sound_init c
  settled := fun h => absurd (.inl rfl) h.1
  callers := fun _ => iff_of_false List.not_mem_nil fun h => h rfl

/-- If nobody has let go of the connection, it was destroyed before. -/
theorem Destroyed.of_le (h : w'.Destroyed)
    (htied : w.conn.Tied → w'.conn.Tied ∨ w'.batchHolds = true)
    (hbatch : w.batchHolds = true → w'.batchHolds = true)
    (hbase : w.baseHolds = true → w'.baseHolds = true) (hrefs : w.refs ≤ w'.refs)
    (hcallers : w'.callers = [] → w.callers = []) : w.Destroyed := by
  obtain ⟨hnot, hbatch', hbase', hrefs', hcallers'⟩ := h
  refine ⟨fun ht => ?_, ?_, ?_, ?_, hcallers hcallers'⟩
  · rcases htied ht with ht' | ht'
    · exact hnot ht'
    · rw [hbatch'] at ht'
      cases ht'
  · rw [Bool.eq_false_iff]
    exact fun hw => Bool.eq_false_iff.mp hbatch' (hbatch hw)
  · rw [Bool.eq_false_iff]
    exact fun hw => Bool.eq_false_iff.mp hbase' (hbase hw)
  · exact Nat.le_zero.mp (hrefs' ▸ hrefs)

/-- A step of the loop or of a timer in which no other thread takes part. -/
theorem Custodial.retains (h : Custodial c w) {conn : World} (hsound : Sound c conn)
    (hretains : Retains w.conn conn) (halive : ¬w.Destroyed) :
    Custodial c { w with conn } where
  sound := hsound
  settled := fun hd =>
    absurd (hd.of_le (fun ht => .inl (hretains.tied ht)) id id le_rfl id) halive
  callers := fun t => by rw [hretains.calls_eq, h.callers]

theorem Custodial.call (h : Custodial c w) {t : ℕ} {call : Call} (hidle : w.conn.calls t = [])
    (hsound : Sound c (w.conn.call t call)) (halive : ¬w.Destroyed) :
    Custodial c (w.note (w.conn.call t call) (.call t call)) := by
  have hnot : t ∉ w.callers := fun ht => (h.callers t).mp ht hidle
  refine ⟨hsound, fun hd => absurd ?_ halive, fun s => ?_⟩
  · refine hd.of_le (fun ht => .inl (tied_call _ t call ht)) id id le_rfl ?_
    intro hnil
    simp only [note] at hnil
    split_ifs at hnil
    exact hnil
  · simp only [note]
    by_cases hs : s = t
    · subst hs
      split_ifs with hcalls
      · exact iff_of_false hnot fun hne => hne hcalls
      · exact iff_of_true List.mem_cons_self hcalls
    · rw [calls_call_of_ne _ call hs, ← h.callers]
      split_ifs
      · rfl
      · rw [List.mem_cons, or_iff_right hs]

theorem Custodial.continueCall (h : Custodial c w) {t : ℕ}
    (hspares : (w.conn.calls t).length = 1 →
      ¬{ w with callers := w.callers.filter (· ≠ t) }.Destroyed)
    (hsound : Sound c (w.conn.continueCall t)) (halive : ¬w.Destroyed) :
    Custodial c (w.note (w.conn.continueCall t) (.continueCall t)) := by
  have hcalls : (w.conn.continueCall t).calls t = (w.conn.calls t).tail := by
    rw [calls_continueCall, if_pos rfl]
  have htied : ∀ callers, { w with callers }.conn.Tied →
      (w.conn.continueCall t).Tied ∨ w.batchHolds = true :=
    fun _ ht => .inl (tied_continueCall _ t ht)
  refine ⟨hsound, fun hd => ?_, fun s => ?_⟩
  · simp only [note, hcalls] at hd
    split_ifs at hd with hlast
    · rcases hbefore : w.conn.calls t with _ | ⟨a, as⟩
      · -- the thread is not in a call
        have hsame : w.callers.filter (· ≠ t) = w.callers := by
          refine List.filter_eq_self.mpr fun s hs => decide_eq_true ?_
          rintro rfl
          exact (h.callers s).mp hs hbefore
        rw [hsame] at hd
        exact absurd (hd.of_le (htied w.callers) id id le_rfl id) halive
      · rw [hbefore, List.tail_cons] at hlast
        have hone : (w.conn.calls t).length = 1 := by rw [hbefore, hlast, List.length_singleton]
        refine absurd ?_ (hspares hone)
        exact hd.of_le (htied _) id id le_rfl id
    · exact absurd (hd.of_le (htied w.callers) id id le_rfl id) halive
  · simp only [note]
    by_cases hs : s = t
    · subst hs
      split_ifs with hnil
      · refine iff_of_false (fun hmem => ?_) fun hne => hne hnil
        exact absurd rfl (of_decide_eq_true (List.mem_filter.mp hmem).2)
      · refine iff_of_true ((h.callers s).mpr fun hempty => hnil ?_) hnil
        rw [hcalls, hempty, List.tail_nil]
    · rw [calls_continueCall w.conn t s, if_neg hs, ← h.callers]
      split_ifs
      · rw [List.mem_filter, decide_eq_true hs, and_iff_left rfl]
      · rfl

theorem Custodial.conn (h : Custodial c w) {l : World.Label} (henabled : w.Enabled c (.conn l))
    (halive : ¬w.Destroyed) (hspares : w.Spares c (.conn l))
    (hok : w.act c (.conn l) = .ok w') : Custodial c w' := by
  obtain ⟨conn, hstep, hok⟩ := bind_eq_ok.mp hok
  obtain rfl := Except.ok.inj hok
  have hsound := (transfers_step h.sound hstep).sound
  rw [World.step, if_pos henabled.1] at hstep
  cases l with
  | callInLoop n call =>
    exact h.retains hsound (retains_callInLoop h.sound.tracked hstep) halive
  | call t call =>
    obtain rfl := Except.ok.inj hstep
    exact h.call henabled.1 hsound halive
  | continueCall t =>
    obtain rfl := Except.ok.inj hstep
    exact h.continueCall (hspares henabled) hsound halive
  | handleEvent revents =>
    obtain rfl := Except.ok.inj hstep
    exact h.retains hsound ⟨tied_append rfl rfl (List.append_nil _).symm, rfl⟩ halive
  | runTask n => exact h.retains hsound (retains_runTask h.sound.tracked hstep) halive
  | runFunctor n =>
    obtain ⟨htied, hcalls⟩ := tied_runFunctor h.sound hstep
    refine ⟨hsound, fun hd => absurd (hd.of_le (w := w) (fun ht => ?_) (fun hbatch => ?_) id le_rfl
      id) halive, fun t => ?_⟩
    · exact (htied ht).imp_right fun hhead => by simp only [note, hhead, Bool.or_true]
    · simp only [note, hbatch, Bool.true_or]
    · exact (h.callers t).trans (by rw [note, hcalls])
  | timeout =>
    have hpop : Retains w.conn { w.conn with timers := w.conn.timers - 1 } :=
      ⟨tied_append rfl rfl (List.append_nil _).symm, rfl⟩
    exact h.retains hsound (hpop.trans (retains_callInLoop h.sound.tracked hstep)) halive
  | removeConnectionInLoop =>
    obtain ⟨-, rfl⟩ := removeConnectionInLoop_eq_ok hstep
    refine ⟨hsound, fun hd => ?_, h.callers⟩
    cases hd.2.2.1

/-- The condition keeps what is left of a destroyed connection settled. -/
theorem Custodial.step (h : Custodial c w) (hspares : w.Spares c l) (hok : w.step c l = .ok w') :
    Custodial c w' := by
  rw [Shared.step] at hok
  split_ifs at hok with henabled
  · obtain ⟨_, hsafe, hok⟩ := bind_eq_ok.mp hok
    rw [check_eq_ok] at hsafe
    cases l with
    | conn l => exact h.conn henabled (fun hd => hsafe ⟨hd, henabled.2.2 hd⟩) hspares hok
    | startBatch =>
      obtain rfl := Except.ok.inj hok
      exact ⟨h.sound, h.settled, h.callers⟩
    | endBatch | endBaseBatch | drop =>
      obtain rfl := Except.ok.inj hok
      exact ⟨h.sound, hspares henabled, h.callers⟩
    | copy =>
      obtain rfl := Except.ok.inj hok
      exact ⟨h.sound, fun hd => absurd hd.2.2.2.1 (Nat.succ_ne_zero _), h.callers⟩
  · obtain rfl := Except.ok.inj hok
    exact h

/-- Nothing is left to run of a settled connection. -/
theorem Custodial.runsAlive (h : Custodial c w) (l : Label) : w.RunsAlive c l := by
  intro henabled hruns hd
  obtain ⟨hqueue, htimers⟩ := h.settled hd
  cases l with
  | conn l =>
    cases l with
    | runFunctor n =>
      obtain ⟨f, hf, -⟩ := hruns
      rw [hqueue] at hf
      cases hf
    | timeout => exact henabled.1.2.ne' htimers
    | callInLoop | call | continueCall | handleEvent | runTask | removeConnectionInLoop =>
      exact hruns
  | startBatch | endBatch | endBaseBatch | copy | drop => exact hruns

end Shared

/-- **Deferred work and its connection.** In every run in which the last pointer to a connection
never goes away while a functor for it is queued or a timer of it is set, no functor and no timer
that holds only `this` is run on a destroyed connection. -/
theorem deferred_work_alive (c : Setup) {ls : List Shared.Label}
    (hspares : Machine.Along (Shared.step c) (Machine.onInput (Shared.Spares c)) Shared.init ls) :
    Machine.Along (Shared.step c) (Machine.onInput (Shared.RunsAlive c)) Shared.init ls :=
  hspares.of_invariant (Shared.Custodial c) (Shared.custodial_init c)
    (fun _ l h _ => h.runsAlive l) fun _ _ _ h hl hok => h.step hl hok

/-- `connEstablished` is run, in a batch of its own. -/
def established : List Shared.Label :=
  [.startBatch, .conn (.runFunctor none), .conn (.runTask none), .conn (.runTask none), .endBatch]

/-- `connDestroyed` is run, in a batch of its own. -/
def destroyed : List Shared.Label :=
  [.startBatch, .conn (.runFunctor none), .conn (.runTask none), .conn (.runTask none),
    .conn (.runTask none), .endBatch]

/-- Another thread sends while the connection is open, and closes it. -/
theorem deferred_work_alive_inTime :
    Machine.Along (Shared.step (.client 5)) (Machine.onInput (Shared.RunsAlive (.client 5)))
      Shared.init (established ++
        [.conn (.call 7 (.send (.string [104]))), .conn (.continueCall 7), .startBatch,
          .conn (.runFunctor (some 1)), .endBatch, .conn (.callInLoop none .forceClose),
          .startBatch, .conn (.runFunctor none), .endBatch] ++ destroyed) :=
  deferred_work_alive _ (by decide)

/-- The peer closes before the timer of `forceCloseWithDelay` expires. A thread that has checked
`state_` in `send` goes on after `connDestroyed`. In both cases the connection is destroyed, and
then a functor or a callback that holds only `this` is run. -/
theorem run_on_destroyed :
    ¬Machine.Along (Shared.step (.client 5)) (Machine.onInput (Shared.RunsAlive (.client 5)))
      Shared.init (established ++
        [.conn (.callInLoop none .forceCloseWithDelay), .conn (.handleEvent POLLIN),
          .conn (.runTask (some 0))] ++ destroyed ++ [.conn .timeout]) ∧
    ¬Machine.Along (Shared.step (.client 5)) (Machine.onInput (Shared.RunsAlive (.client 5)))
      Shared.init (established ++
        [.conn (.call 7 (.send (.string [104]))), .conn (.handleEvent POLLIN),
          .conn (.runTask (some 0))] ++ destroyed ++
        [.conn (.continueCall 7), .startBatch, .conn (.runFunctor none)]) := by
  decide

end TcpConnection

end MuduoRebuild
