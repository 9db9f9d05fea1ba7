import MuduoRebuild.Foundations.Run
import MuduoRebuild.TcpServer.Basic

/-!
# The connections of a server

The life of a connection crosses the loops of its server three times: it is established in its
own loop, removed from `connections_` in the base loop, and destroyed in its own loop. `Phase`
says how far it has come, and with that what its history is, which functor waits for it and in
which queue, and whether `connections_` has it.

Every step moves at most one connection on to its next phase and leaves the others alone, so in
every run in which no connection calls its close callback twice the server's table is right
(`connection_table`): no `assert` fails, no function is executed in a wrong thread, the history of
each connection is what it should be, and what is due for it waits in the right queue. Nor does a
step do too little: `Accounts` says which connections it makes and which events it logs.
-/

namespace MuduoRebuild

namespace TcpServer

open Fallible TcpConnection

/-- The name of the connection that is made after `k` others. -/
def Setup.connName (c : Setup) (k : ℕ) : String := c.name ++ ("#" ++ (k + 1).repr)

theorem Setup.connName_injective (c : Setup) : Function.Injective c.connName := by
  intro j k h
  have hlist := congrArg String.toList h
  simp only [Setup.connName, String.toList_append, List.append_cancel_left_eq,
    Nat.toList_repr] at hlist
  -- the number can be read off its digits
  have hnumber := congrArg (fun digits => Nat.ofDigitChars 10 digits 0) hlist
  simpa only [Nat.ofDigitChars_ten_toDigits, Nat.add_right_cancel_iff] using hnumber

/-! ### Phases -/

/-- What is logged when a functor is executed in `thread` and all is in order: a removal finds its
connection. -/
def Functor.event (thread : LoopId) : Functor → Event
  | connEstablished k => .established k thread
  | removeConnectionInLoop k => .removed k (some k)
  | connDestroyed k => .destroyed k thread

/-- How far a connection has come. -/
inductive Phase where
  /-- `connEstablished` is due. -/
  | queued
  | opened
  /-- `removeConnectionInLoop` is due. -/
  | leaving
  /-- `connDestroyed` is due. -/
  | removed
  | gone
  deriving DecidableEq, Repr

namespace Phase

/-- What has happened to the connection `k` of the loop `loop`. -/
def history (k : ℕ) (loop : LoopId) : Phase → List Event
  | queued => []
  | opened => [.established k loop]
  | leaving => [.established k loop, .closed k]
  | removed => [.established k loop, .closed k, .removed k (some k)]
  | gone => [.established k loop, .closed k, .removed k (some k), .destroyed k loop]

/-- The functor that is due. -/
def functor? (k : ℕ) : Phase → Option Functor
  | queued => some (.connEstablished k)
  | leaving => some (.removeConnectionInLoop k)
  | removed => some (.connDestroyed k)
  | opened | gone => none

/-- The loop in which it is due. -/
def home (loop : LoopId) : Phase → LoopId
  | leaving => .base
  | queued | opened | removed | gone => loop

/-- The phase after the functor that is due. -/
def next : Phase → Phase
  | queued => opened
  | leaving => removed
  | removed => gone
  | opened => opened
  | gone => gone

def Allows : Phase → StateE → Prop
  | queued, s => s = .kConnecting
  | opened, s | leaving, s | removed, s => s = .kConnected ∨ s = .kDisconnecting
  | gone, s => s ≠ .kConnecting

/-- Whether `connections_` has the connection. -/
def isEntered : Phase → Bool
  | queued | opened | leaving => true
  | removed | gone => false

/-- What waits for the connection in the queue of `l`. -/
def waiting (k : ℕ) (loop l : LoopId) (p : Phase) : List Functor :=
  if l = p.home loop then (p.functor? k).toList else []

end Phase

namespace World

/-- The part of the history that is about the connection `k`. -/
def historyOf (w : World) (k : ℕ) : List Event := w.log.filter (·.conn = k)

/-- The part of a queue that is for the connection `k`. -/
def waitingFor (w : World) (k : ℕ) (l : LoopId) : List Functor := (w.queue l).filter (·.conn = k)

variable {c : Setup} {w w' w'' : World} {k : ℕ} {p : Phase} {thread : LoopId} {f : Functor}

/-- The connection `k` is in the phase `p`, apart from the functor that is due. -/
structure At (w : World) (k : ℕ) (p : Phase) : Prop where
  history : w.historyOf k = p.history k (w.conn k).loop
  state : p.Allows (w.conn k).state
  entry : w.connections (w.conn k).name = if p.isEntered = true then some k else none

/-- The connection `k` is in the phase `p`. -/
structure InPhase (w : World) (k : ℕ) (p : Phase) : Prop extends At w k p where
  waiting : ∀ l, w.waitingFor k l = p.waiting k (w.conn k).loop l

/-- Nothing changes for the connections other than `k`. -/
structure SameBut (k : ℕ) (w w' : World) : Prop where
  conn : ∀ j, j ≠ k → w'.conn j = w.conn j
  history : ∀ j, j ≠ k → w'.historyOf j = w.historyOf j
  waiting : ∀ j, j ≠ k → ∀ l, w'.waitingFor j l = w.waitingFor j l
  connections : ∀ name, name ≠ (w'.conn k).name → w'.connections name = w.connections name

/-- Nothing changes in the server but `connections_`, and the connection `k` stays the same
object. -/
structure Keeps (k : ℕ) (w w' : World) : Prop extends SameBut k w w' where
  nextConnId_eq : w'.nextConnId = w.nextConnId
  next_eq : w'.next = w.next
  made_eq : w'.made = w.made
  name_eq : (w'.conn k).name = (w.conn k).name
  loop_eq : (w'.conn k).loop = (w.conn k).loop

theorem keeps_refl (k : ℕ) (w : World) : Keeps k w w :=
  ⟨⟨fun _ _ => rfl, fun _ _ => rfl, fun _ _ _ => rfl, fun _ _ => rfl⟩, rfl, rfl, rfl, rfl, rfl⟩

theorem Keeps.trans (h : Keeps k w w') (h' : Keeps k w' w'') : Keeps k w w'' where
  conn := fun j hj => (h'.conn j hj).trans (h.conn j hj)
  history := fun j hj => (h'.history j hj).trans (h.history j hj)
  waiting := fun j hj l => (h'.waiting j hj l).trans (h.waiting j hj l)
  connections := fun name hname =>
    (h'.connections name hname).trans (h.connections name (h'.name_eq ▸ hname))
  nextConnId_eq := h'.nextConnId_eq.trans h.nextConnId_eq
  next_eq := h'.next_eq.trans h.next_eq
  made_eq := h'.made_eq.trans h.made_eq
  name_eq := h'.name_eq.trans h.name_eq
  loop_eq := h'.loop_eq.trans h.loop_eq

theorem SameBut.trans (h : SameBut k w w') (h' : Keeps k w' w'') : SameBut k w w'' where
  conn := fun j hj => (h'.conn j hj).trans (h.conn j hj)
  history := fun j hj => (h'.history j hj).trans (h.history j hj)
  waiting := fun j hj l => (h'.waiting j hj l).trans (h.waiting j hj l)
  connections := fun name hname =>
    (h'.connections name hname).trans (h.connections name (h'.name_eq ▸ hname))

/-! ### Small changes -/

theorem historyOf_record (w : World) (e : Event) (j : ℕ) :
    (w.record e).historyOf j = w.historyOf j ++ if e.conn = j then [e] else [] := by
  rw [historyOf, record, List.filter_append]
  by_cases h : e.conn = j
  · rw [if_pos h, List.filter_cons_of_pos (by simpa using h)]
    rfl
  · rw [if_neg h, List.filter_cons_of_neg (by simpa using h)]
    rfl

theorem historyOf_record_self (w : World) {e : Event} (he : e.conn = k) :
    (w.record e).historyOf k = w.historyOf k ++ [e] := by
  rw [historyOf_record, if_pos he]

theorem waitingFor_queueInLoop (w : World) (loop : LoopId) (f : Functor) (j : ℕ) (l : LoopId) :
    (w.queueInLoop loop f).waitingFor j l =
      w.waitingFor j l ++ if l = loop ∧ f.conn = j then [f] else [] := by
  simp only [waitingFor, queueInLoop, Function.update_apply]
  by_cases hl : l = loop
  · subst hl
    rw [if_pos rfl, List.filter_append]
    by_cases h : f.conn = j
    · rw [if_pos ⟨rfl, h⟩, List.filter_cons_of_pos (by simpa using h)]
      rfl
    · rw [if_neg fun hand => h hand.2, List.filter_cons_of_neg (by simpa using h)]
      rfl
  · rw [if_neg hl, if_neg fun hand => hl hand.1, List.append_nil]

theorem keeps_record (w : World) {e : Event} (he : e.conn = k) : Keeps k w (w.record e) := by
  refine { keeps_refl k w with history := fun j hj => ?_ }
  rw [historyOf_record, if_neg (he ▸ hj.symm), List.append_nil]

theorem keeps_queueInLoop (w : World) (loop : LoopId) (hf : f.conn = k) :
    Keeps k w (w.queueInLoop loop f) := by
  refine { keeps_refl k w with waiting := fun j hj l => ?_ }
  rw [waitingFor_queueInLoop, if_neg fun h => hj (h.2.symm.trans hf), List.append_nil]

theorem conn_setState (w : World) (k : ℕ) (s : StateE) :
    (w.setState k s).conn k = { w.conn k with state := s } := Function.update_self ..

theorem keeps_setState (w : World) (k : ℕ) (s : StateE) : Keeps k w (w.setState k s) :=
  { keeps_refl k w with
    conn := fun j hj => Function.update_of_ne hj ..
    name_eq := by rw [conn_setState]
    loop_eq := by rw [conn_setState]
    connections := fun _ _ => rfl }

/-! ### The functor that is due -/

theorem waiting_of_none {loop l : LoopId} (h : p.functor? k = none) :
    p.waiting k loop l = [] := by
  rw [Phase.waiting, h]
  exact ite_self _

/-- The connection gets a new state, and the event of the next phase is logged. -/
theorem at_setState_record {s : StateE} {e : Event} (he : e.conn = k)
    (hhistory : w.historyOf k ++ [e] = p.history k (w.conn k).loop) (hs : p.Allows s)
    (hentry : w.connections (w.conn k).name = if p.isEntered = true then some k else none) :
    At ((w.setState k s).record e) k p := by
  have hconn : ((w.setState k s).record e).conn k = { w.conn k with state := s } :=
    conn_setState w k s
  refine ⟨?_, ?_, ?_⟩
  · rw [hconn, historyOf_record_self _ he]
    exact hhistory
  · rw [hconn]
    exact hs
  · rw [hconn]
    exact hentry

/-- `connEstablished` is due, and is executed. -/
theorem exists_connEstablished (h : At w k .queued) (hwaiting : ∀ l, w.waitingFor k l = []) :
    ∃ w', w.connEstablished (w.conn k).loop k = .ok w' ∧ Keeps k w w' ∧ InPhase w' k .opened ∧
      w'.log = w.log ++ [.established k (w.conn k).loop] := by
  have hstate : (w.conn k).state = .kConnecting := h.state
  refine ⟨(w.setState k .kConnected).record (.established k (w.conn k).loop), ?_,
    (keeps_setState w k _).trans (keeps_record _ rfl),
    ⟨at_setState_record rfl ?_ (.inl rfl) h.entry, ?_⟩, rfl⟩
  · exact (bind_of_ok (check_of rfl _) _).trans (bind_of_ok (check_of hstate _) _)
  · rw [h.history]
    rfl
  · intro l
    rw [waiting_of_none rfl]
    exact hwaiting l

/-- `connDestroyed` is due, and is executed. -/
theorem exists_connDestroyed (h : At w k .removed) (hwaiting : ∀ l, w.waitingFor k l = []) :
    ∃ w', w.connDestroyed (w.conn k).loop k = .ok w' ∧ Keeps k w w' ∧ InPhase w' k .gone ∧
      w'.log = w.log ++ [.destroyed k (w.conn k).loop] := by
  have hstate : (w.conn k).state = .kConnected ∨ (w.conn k).state = .kDisconnecting := h.state
  have hdown : Phase.gone.Allows .kDisconnected := nofun
  refine ⟨(w.setState k .kDisconnected).record (.destroyed k (w.conn k).loop), ?_,
    (keeps_setState w k _).trans (keeps_record _ rfl),
    ⟨at_setState_record rfl ?_ hdown h.entry, ?_⟩, rfl⟩
  · exact (bind_of_ok (check_of rfl _) _).trans (bind_of_ok (check_of hstate _) _)
  · rw [h.history]
    rfl
  · intro l
    rw [waiting_of_none rfl]
    exact hwaiting l

/-- `removeConnectionInLoop` is due, and is executed: it finds the connection under its name. -/
theorem exists_removeConnectionInLoop (h : At w k .leaving)
    (hwaiting : ∀ l, w.waitingFor k l = []) :
    ∃ w', w.removeConnectionInLoop .base k = .ok w' ∧ Keeps k w w' ∧ InPhase w' k .removed ∧
      w'.log = w.log ++ [.removed k (some k)] := by
  have hentry : w.connections (w.conn k).name = some k := h.entry
  have hone : (w.connections (w.conn k).name).toList.length = 1 := by
    rw [hentry]
    rfl
  set v : World := { w with connections := Function.update w.connections (w.conn k).name none }
  have hv : Keeps k w v := { keeps_refl k w with
    connections := fun name hname => Function.update_of_ne hname .. }
  refine ⟨(v.record (.removed k (w.connections (w.conn k).name))).queueInLoop (w.conn k).loop
    (.connDestroyed k), ?_, (hv.trans (keeps_record v rfl)).trans (keeps_queueInLoop _ _ rfl),
    ⟨⟨?_, h.state, ?_⟩, ?_⟩, ?_⟩
  · exact (bind_of_ok (check_of rfl _) _).trans (bind_of_ok (check_of hone _) _)
  · refine (historyOf_record_self (k := k) v (e := .removed k _) rfl).trans ?_
    rw [show v.historyOf k = _ from h.history, hentry]
    rfl
  · exact Function.update_self ..
  · intro l
    rw [waitingFor_queueInLoop, show (v.record _).waitingFor k l = [] from hwaiting l,
      List.nil_append, Functor.conn]
    exact if_congr (and_iff_left rfl) rfl rfl
  · rw [hentry]
    rfl

/-- The functor that is due is executed in the thread where it is due. -/
theorem exists_invoke (h : At w k p) (hwaiting : ∀ l, w.waitingFor k l = [])
    (hf : p.functor? k = some f) :
    ∃ w', w.invoke (p.home (w.conn k).loop) f = .ok w' ∧ Keeps k w w' ∧ InPhase w' k p.next ∧
      w'.log = w.log ++ [f.event (p.home (w.conn k).loop)] := by
  cases p with
  | queued =>
    obtain rfl := Option.some.inj hf
    exact exists_connEstablished h hwaiting
  | leaving =>
    obtain rfl := Option.some.inj hf
    exact exists_removeConnectionInLoop h hwaiting
  | removed =>
    obtain rfl := Option.some.inj hf
    exact exists_connDestroyed h hwaiting
  | opened | gone => cases hf

theorem conn_of_functor? (hf : p.functor? k = some f) : f.conn = k := by
  cases p <;> cases hf <;> rfl

/-- `runInLoop` is called with the functor that is due, which is executed at once or put into the
queue of its loop. -/
theorem exists_runInLoop (thread : LoopId) (h : At w k p) (hwaiting : ∀ l, w.waitingFor k l = [])
    (hf : p.functor? k = some f) :
    ∃ w' p', w.runInLoop thread (p.home (w.conn k).loop) f = .ok w' ∧ Keeps k w w' ∧
      InPhase w' k p' ∧
      w'.log = w.log ++ if thread = p.home (w.conn k).loop then [f.event thread] else [] := by
  rw [runInLoop]
  by_cases hthread : thread = p.home (w.conn k).loop
  · obtain ⟨w', hok, hkeeps, hphase, hlog⟩ := exists_invoke h hwaiting hf
    refine ⟨w', p.next, ?_, hkeeps, hphase, ?_⟩
    · rw [if_pos hthread, hthread, hok]
    · rw [if_pos hthread, hthread, hlog]
  · refine ⟨_, p, if_neg hthread, keeps_queueInLoop w _ (conn_of_functor? hf),
      ⟨⟨h.history, h.state, h.entry⟩, ?_⟩, ?_⟩
    · intro l
      rw [waitingFor_queueInLoop, hwaiting, List.nil_append, Phase.waiting, hf]
      by_cases hl : l = p.home (w.conn k).loop
      · exact (if_pos ⟨hl, conn_of_functor? hf⟩).trans (if_pos hl).symm
      · exact (if_neg fun hand => hl hand.1).trans (if_neg hl).symm
    · rw [if_neg hthread, List.append_nil]
      rfl

/-! ### All connections -/

/-- What holds of every state that is reached. -/
structure Orderly (c : Setup) (w : World) : Prop where
  nextConnId_eq : w.nextConnId = w.made + 1
  next_lt : c.numThreads = 0 ∨ w.next < c.numThreads
  name_eq : ∀ k, k < w.made → (w.conn k).name = c.connName k
  inPhase : ∀ k, k < w.made → ∃ p, InPhase w k p
  unmade : ∀ k, w.made ≤ k → w.historyOf k = [] ∧ ∀ l, w.waitingFor k l = []
  known : ∀ name k, w.connections name = some k → k < w.made ∧ name = (w.conn k).name

theorem orderly_init (c : Setup) : Orderly c init where
  nextConnId_eq := rfl
  next_lt := Nat.eq_zero_or_pos _
  name_eq := fun _ h => absurd h (Nat.not_lt_zero _)
  inPhase := fun _ h => absurd h (Nat.not_lt_zero _)
  unmade := fun _ _ => ⟨rfl, fun _ => rfl⟩
  known := fun _ _ h => by cases h

/-- A connection whose part of the world is as it was is in the phase in which it was. -/
theorem InPhase.sameBut {j : ℕ} (h : InPhase w j p) (hsame : SameBut k w w') (hjk : j ≠ k)
    (hname : (w.conn j).name ≠ (w'.conn k).name) : InPhase w' j p := by
  have hconn := hsame.conn j hjk
  refine ⟨⟨?_, ?_, ?_⟩, ?_⟩
  · rw [hsame.history j hjk, hconn, h.history]
  · rw [hconn]
    exact h.state
  · rw [hconn, hsame.connections _ hname, h.entry]
  · intro l
    rw [hsame.waiting j hjk, hconn, h.waiting]

/-- The connection `k`, old or new, reaches some phase, and nothing else changes. -/
theorem Orderly.of_sameBut (h : Orderly c w) (hsame : SameBut k w w')
    (hmade : ∀ j, j < w'.made ↔ j < w.made ∨ j = k) (hid : w'.nextConnId = w'.made + 1)
    (hnext : c.numThreads = 0 ∨ w'.next < c.numThreads) (hname : (w'.conn k).name = c.connName k)
    (hphase : InPhase w' k p) : Orderly c w' := by
  have hne : ∀ j, j < w.made → j ≠ k → (w.conn j).name ≠ (w'.conn k).name := by
    intro j hj hjk heq
    rw [h.name_eq j hj, hname] at heq
    exact hjk (c.connName_injective heq)
  refine ⟨hid, hnext, ?name, ?phase, ?unmade, ?known⟩
  case name =>
    intro j hj
    by_cases hjk : j = k
    · rw [hjk, hname]
    · rw [hsame.conn j hjk]
      exact h.name_eq j (((hmade j).mp hj).resolve_right hjk)
  case phase =>
    intro j hj
    by_cases hjk : j = k
    · exact ⟨p, hjk ▸ hphase⟩
    · have hold := ((hmade j).mp hj).resolve_right hjk
      obtain ⟨q, hq⟩ := h.inPhase j hold
      exact ⟨q, hq.sameBut hsame hjk (hne j hold hjk)⟩
  case unmade =>
    intro j hj
    have hnot := mt (hmade j).mpr (Nat.not_lt_of_le hj)
    obtain ⟨hold, hjk⟩ := not_or.mp hnot
    obtain ⟨hhistory, hwaiting⟩ := h.unmade j (Nat.le_of_not_lt hold)
    exact ⟨(hsame.history j hjk).trans hhistory,
      fun l => (hsame.waiting j hjk l).trans (hwaiting l)⟩
  case known =>
    intro name j hj
    by_cases hnk : name = (w'.conn k).name
    · rw [hnk, hphase.entry] at hj
      split_ifs at hj
      obtain rfl := Option.some.inj hj
      exact ⟨(hmade k).mpr (.inr rfl), hnk⟩
    · rw [hsame.connections name hnk] at hj
      obtain ⟨hlt, heq⟩ := h.known name j hj
      have hjk : j ≠ k := by
        intro hjk
        rw [heq, h.name_eq j hlt, hname, hjk] at hnk
        exact hnk rfl
      rw [hsame.conn j hjk]
      exact ⟨(hmade j).mpr (.inl hlt), heq⟩

/-- An old connection reaches some phase, and nothing else changes. -/
theorem Orderly.keeps (h : Orderly c w) (hk : k < w.made) (hkeeps : Keeps k w w')
    (hphase : InPhase w' k p) : Orderly c w' := by
  refine h.of_sameBut hkeeps.toSameBut ?_ ?_ ?_ ?_ hphase
  · intro j
    rw [hkeeps.made_eq]
    exact ⟨.inl, fun hj => hj.elim id fun hjk => hjk ▸ hk⟩
  · rw [hkeeps.nextConnId_eq, hkeeps.made_eq, h.nextConnId_eq]
  · rw [hkeeps.next_eq]
    exact h.next_lt
  · rw [hkeeps.name_eq, h.name_eq k hk]

/-! ### Steps -/

/-- The events of a step. `runInLoop` in the thread of the loop executes its functor at once: so the
base loop establishes the connections that it serves itself, and removes them. -/
def events (c : Setup) (w : World) : Label → List Event
  | .accept => if c.numThreads = 0 then [.established w.made .base] else []
  | .close k =>
    if w.Enabled (.close k) then
      .closed k :: if (w.conn k).loop = .base then [.removed k (some k)] else []
    else []
  | .disconnect _ => []
  | .runFunctor loop => (w.queue loop).head?.toList.map (Functor.event loop)

/-- A step has made one connection if it accepts, and none otherwise; its events are logged. -/
structure Accounts (c : Setup) (l : Label) (w w' : World) : Prop where
  made_eq : w'.made = w.made + if l = .accept then 1 else 0
  log_eq : w'.log = w.log ++ w.events c l

/-- A functor at the head of a queue is the one that is due for its connection. -/
theorem Orderly.due (h : Orderly c w) {l : LoopId} {fs : List Functor}
    (hqueue : w.queue l = f :: fs) :
    f.conn < w.made ∧ ∃ p, InPhase w f.conn p ∧ p.functor? f.conn = some f ∧
      l = p.home (w.conn f.conn).loop := by
  have hhead : w.waitingFor f.conn l = f :: fs.filter (·.conn = f.conn) := by
    rw [waitingFor, hqueue, List.filter_cons_of_pos (by simp)]
  have hlt : f.conn < w.made := by
    by_contra hge
    rw [(h.unmade _ (Nat.le_of_not_lt hge)).2] at hhead
    cases hhead
  obtain ⟨p, hp⟩ := h.inPhase _ hlt
  rw [hp.waiting, Phase.waiting] at hhead
  refine ⟨hlt, p, hp, ?_⟩
  split_ifs at hhead with hl
  · cases hf : p.functor? f.conn with
    | none =>
      rw [hf] at hhead
      cases hhead
    | some g =>
      rw [hf] at hhead
      exact ⟨congrArg some (List.cons.inj hhead).1, hl⟩

theorem waitingFor_pop {l : LoopId} {fs : List Functor} (hqueue : w.queue l = f :: fs) (j : ℕ)
    (l' : LoopId) : w.waitingFor j l' = (if l' = l ∧ f.conn = j then [f] else []) ++
      waitingFor { w with queue := Function.update w.queue l fs } j l' := by
  simp only [waitingFor, Function.update_apply]
  by_cases hl : l' = l
  · rw [hl, if_pos rfl, hqueue]
    by_cases hj : f.conn = j
    · rw [if_pos ⟨rfl, hj⟩, List.filter_cons_of_pos (by simpa using hj)]
      rfl
    · rw [if_neg fun hand => hj hand.2, List.filter_cons_of_neg (by simpa using hj)]
      rfl
  · rw [if_neg hl, if_neg fun hand => hl hand.1, List.nil_append]

/-- A loop runs the next functor of its queue, which takes its connection to the next phase. -/
theorem Orderly.exists_act_runFunctor (h : Orderly c w) {l : LoopId} {fs : List Functor}
    (hqueue : w.queue l = f :: fs) :
    ∃ w' p, w.act c (.runFunctor l) = .ok w' ∧ f.conn < w.made ∧ Keeps f.conn w w' ∧
      InPhase w f.conn p ∧ p.functor? f.conn = some f ∧ InPhase w' f.conn p.next ∧
      w'.log = w.log ++ [f.event l] := by
  obtain ⟨hlt, p, hp, hf, rfl⟩ := h.due hqueue
  have hpop := waitingFor_pop hqueue
  set v : World :=
    { w with queue := Function.update w.queue (p.home (w.conn f.conn).loop) fs }
  have hv : Keeps f.conn w v := by
    refine { keeps_refl f.conn w with waiting := fun j hj l' => ?_ }
    rw [hpop j l', if_neg fun hand => hj hand.2.symm, List.nil_append]
  have hnone : ∀ l', v.waitingFor f.conn l' = [] := by
    intro l'
    have hl' := hpop f.conn l'
    rw [hp.waiting, Phase.waiting, hf] at hl'
    by_cases hhome : l' = p.home (w.conn f.conn).loop
    · rw [if_pos hhome, if_pos ⟨hhome, rfl⟩] at hl'
      exact (List.cons.inj hl').2.symm
    · rw [if_neg hhome, if_neg fun hand => hhome hand.1] at hl'
      exact hl'.symm
  obtain ⟨w', hok, hkeeps, hphase, hlog⟩ :=
    exists_invoke (w := v) ⟨hp.history, hp.state, hp.entry⟩ hnone hf
  refine ⟨w', p, ?_, hlt, hv.trans hkeeps, hp, hf, hphase, hlog⟩
  simp only [act, hqueue]
  exact hok

theorem Orderly.runFunctor (h : Orderly c w) (l : LoopId) :
    ∃ w', w.act c (.runFunctor l) = .ok w' ∧ Orderly c w' ∧ Accounts c (.runFunctor l) w w' := by
  cases hqueue : w.queue l with
  | nil =>
    refine ⟨w, ?_, h, rfl, ?_⟩
    · simp only [act, hqueue]
    · rw [events, hqueue]
      exact (List.append_nil _).symm
  | cons f fs =>
    obtain ⟨w', p, hok, hlt, hkeeps, -, -, hphase, hlog⟩ := h.exists_act_runFunctor hqueue
    refine ⟨w', hok, h.keeps hlt hkeeps hphase, hkeeps.made_eq, ?_⟩
    rw [hlog, events, hqueue]
    rfl

/-- A connection that has not been closed is closed. -/
theorem Orderly.close (h : Orderly c w) (hk : k < w.made) (hstate : (w.conn k).state ≠ .kConnecting)
    (honce : .closed k ∉ w.log) :
    ∃ w', w.handleClose (w.conn k).loop k = .ok w' ∧ Orderly c w' ∧
      Accounts c (.close k) w w' := by
  obtain ⟨p, hp⟩ := h.inPhase k hk
  have hnot : .closed k ∉ w.historyOf k := fun hmem => honce (List.mem_of_mem_filter hmem)
  obtain rfl : p = .opened := by
    rw [hp.history] at hnot
    cases p with
    | queued => exact absurd hp.state hstate
    | opened => rfl
    | leaving | removed | gone => exact absurd (by simp [Phase.history]) hnot
  have hat : At (w.record (.closed k)) k .leaving := by
    refine ⟨?_, hp.state, hp.entry⟩
    refine (historyOf_record_self (k := k) w (e := .closed k) rfl).trans ?_
    rw [hp.history]
    rfl
  have hnone : ∀ l, (w.record (.closed k)).waitingFor k l = [] := by
    intro l
    refine (hp.waiting l).trans (waiting_of_none rfl)
  obtain ⟨w', p', hok, hkeeps, hphase, hlog⟩ :=
    exists_runInLoop (w.conn k).loop hat hnone rfl
  have hopen : (w.conn k).state = .kConnected ∨ (w.conn k).state = .kDisconnecting := hp.state
  refine ⟨w', ?_, h.keeps hk ((keeps_record (k := k) w (e := .closed k) rfl).trans hkeeps) hphase,
    hkeeps.made_eq, ?_⟩
  · exact (bind_of_ok (check_of rfl _) _).trans ((bind_of_ok (check_of hopen _) _).trans hok)
  · rw [hlog, events, if_pos (show w.Enabled (.close k) from ⟨hk, hstate⟩)]
    exact List.append_assoc ..

/-- A thread sets `state_`. -/
theorem Orderly.disconnect (h : Orderly c w) (hk : k < w.made)
    (hstate : (w.conn k).state ≠ .kConnecting) : Orderly c (w.setState k .kDisconnecting) := by
  obtain ⟨p, hp⟩ := h.inPhase k hk
  have hallows : p.Allows .kDisconnecting := by
    cases p with
    | queued => exact absurd hp.state hstate
    | opened | leaving | removed => exact .inr rfl
    | gone => exact nofun
  refine h.keeps hk (keeps_setState w k _) ⟨⟨?_, ?_, ?_⟩, ?_⟩ (p := p)
  · rw [conn_setState]
    exact hp.history
  · rw [conn_setState]
    exact hallows
  · rw [conn_setState]
    exact hp.entry
  · rw [conn_setState]
    exact hp.waiting

/-- The thread pool has a loop to give, and counts on. -/
theorem exists_getNextLoop (hnext : c.numThreads = 0 ∨ w.next < c.numThreads) :
    ∃ next loop, w.getNextLoop c .base = .ok ({ w with next }, loop) ∧
      (c.numThreads = 0 ∨ next < c.numThreads) ∧ (.base = loop ↔ c.numThreads = 0) := by
  by_cases hzero : c.numThreads = 0
  · refine ⟨w.next, .base, ?_, .inl hzero, iff_of_true rfl hzero⟩
    exact (bind_of_ok (check_of rfl _) _).trans (if_pos hzero)
  · have hlt : w.next < c.numThreads := hnext.resolve_left hzero
    refine ⟨_, .io w.next, (bind_of_ok (check_of rfl _) _).trans ((if_neg hzero).trans
      (bind_of_ok (check_of hlt _) _)), .inr ?_, iff_of_false LoopId.noConfusion hzero⟩
    split_ifs
    · omega
    · omega

/-- A connection is accepted. -/
theorem Orderly.accept (h : Orderly c w) :
    ∃ w', w.newConnection c .base = .ok w' ∧ Orderly c w' ∧ Accounts c .accept w w' := by
  obtain ⟨next, loop, hgive, hnext, hbase⟩ := exists_getNextLoop
    (w := { w with nextConnId := w.nextConnId + 1 }) h.next_lt
  have hname : c.name ++ ("#" ++ w.nextConnId.repr) = c.connName w.made := by
    rw [h.nextConnId_eq, Setup.connName]
  set v : World :=
    { w with
      nextConnId := w.nextConnId + 1
      next
      made := w.made + 1
      conn := Function.update w.conn w.made ⟨c.connName w.made, loop, .kConnecting⟩
      connections := Function.update w.connections (c.connName w.made) (some w.made) } with hv
  have hconn : v.conn w.made = ⟨c.connName w.made, loop, .kConnecting⟩ :=
    Function.update_self ..
  obtain ⟨hhistory, hwaiting⟩ := h.unmade w.made le_rfl
  have hat : At v w.made .queued := by
    refine ⟨hhistory, ?_, ?_⟩
    · rw [hconn]
      exact rfl
    · rw [hconn]
      exact Function.update_self ..
  have hsame : SameBut w.made w v := by
    refine ⟨fun j hj => Function.update_of_ne hj .., fun _ _ => rfl, fun _ _ _ => rfl, ?_⟩
    intro name hne
    rw [hconn] at hne
    exact Function.update_of_ne hne ..
  obtain ⟨w', p, hok, hkeeps, hphase, hlog⟩ :=
    exists_runInLoop .base hat hwaiting rfl
  have hstep : w.newConnection c .base = v.runInLoop .base loop (.connEstablished w.made) := by
    refine (bind_of_ok (check_of rfl _) _).trans ((bind_of_ok hgive _).trans ?_)
    rw [hv, ← hname]
  refine ⟨w', hstep.trans (by rw [← hok, hconn]; rfl),
    h.of_sameBut (hsame.trans hkeeps) ?_ ?_ ?_ ?_ hphase, hkeeps.made_eq, ?_⟩
  · intro j
    rw [hkeeps.made_eq]
    exact Nat.lt_succ_iff_lt_or_eq
  · rw [hkeeps.nextConnId_eq, hkeeps.made_eq]
    exact congrArg (· + 1) h.nextConnId_eq
  · rw [hkeeps.next_eq]
    exact hnext
  · rw [hkeeps.name_eq, hconn]
  · rw [hlog, hconn]
    exact congrArg (w.log ++ ·) (if_congr hbase rfl rfl)

/-- No connection calls its close callback twice. -/
def ClosesOnce (w : World) : Label → Prop
  | .close k => .closed k ∉ w.log
  | .accept | .disconnect _ | .runFunctor _ => True

instance (w : World) (l : Label) : Decidable (w.ClosesOnce l) :=
  match l with
  | .close k => inferInstanceAs (Decidable (.closed k ∉ w.log))
  | .accept | .disconnect _ | .runFunctor _ => inferInstanceAs (Decidable True)

/-- Every step succeeds, keeps order and is accounted for. -/
theorem Orderly.step (h : Orderly c w) {l : Label} (honce : ClosesOnce w l) :
    ∃ w', w.step c l = .ok w' ∧ Orderly c w' ∧ Accounts c l w w' := by
  rw [World.step]
  split_ifs with henabled
  · cases l with
    | accept => exact h.accept
    | close k => exact h.close henabled.1 henabled.2 honce
    | disconnect k =>
      exact ⟨_, rfl, h.disconnect henabled.1 henabled.2, rfl, (List.append_nil _).symm⟩
    | runFunctor l => exact h.runFunctor l
  · cases l with
    | close k =>
      refine ⟨w, rfl, h, rfl, ?_⟩
      rw [events, if_neg henabled, List.append_nil]
    | disconnect k => exact ⟨w, rfl, h, rfl, (List.append_nil _).symm⟩
    | accept | runFunctor _ => exact absurd trivial henabled

/-! ### The table -/

/-- The connections of a server are as they should be. -/
structure Table (w : World) : Prop where
  /-- The connections have pairwise different names. -/
  name_injective : ∀ j k, j < w.made → k < w.made → (w.conn j).name = (w.conn k).name → j = k
  /-- `connections_` has every connection that was accepted and not removed, under its name, and
  nothing else. -/
  connections_iff : ∀ name k, w.connections name = some k ↔
    k < w.made ∧ name = (w.conn k).name ∧ ∀ entry, .removed k entry ∉ w.log
  /-- Each connection is established in its loop, closed, found in `connections_` and removed, and
  destroyed in its loop, in this order and once. -/
  history_prefix : ∀ k, w.historyOf k <+:
    [.established k (w.conn k).loop, .closed k, .removed k (some k), .destroyed k (w.conn k).loop]
  /-- `connEstablished` has been executed, or it waits. -/
  established : ∀ k, k < w.made → w.log.count (.established k (w.conn k).loop) +
    (w.queue (w.conn k).loop).count (.connEstablished k) = 1
  /-- For a connection that has been closed, `removeConnectionInLoop` has been executed, or it waits
  in the base loop. -/
  removed : ∀ k, w.log.count (.removed k (some k)) +
    (w.queue .base).count (.removeConnectionInLoop k) = w.log.count (.closed k)
  /-- For one that has been removed, `connDestroyed` has been executed, or it waits. -/
  destroyed : ∀ k, w.log.count (.destroyed k (w.conn k).loop) +
    (w.queue (w.conn k).loop).count (.connDestroyed k) = w.log.count (.removed k (some k))

theorem mem_historyOf {e : Event} (he : e.conn = k) : e ∈ w.historyOf k ↔ e ∈ w.log := by
  rw [historyOf, List.mem_filter, and_iff_left]
  simpa using he

theorem count_historyOf {e : Event} (he : e.conn = k) :
    (w.historyOf k).count e = w.log.count e :=
  List.count_filter (by simpa using he)

theorem count_waitingFor {l : LoopId} (hf : f.conn = k) :
    (w.waitingFor k l).count f = (w.queue l).count f :=
  List.count_filter (by simpa using hf)

theorem history_prefix_gone (k : ℕ) (loop : LoopId) (p : Phase) :
    p.history k loop <+: Phase.gone.history k loop := by
  cases p with
  | queued => exact List.nil_prefix
  | opened => exact ⟨_, List.singleton_append⟩
  | leaving => exact ⟨[.removed k (some k), .destroyed k loop], rfl⟩
  | removed => exact ⟨[.destroyed k loop], rfl⟩
  | gone => exact List.prefix_refl _

/-- A connection is in `connections_` until it has been removed. -/
theorem InPhase.isEntered_iff (h : InPhase w k p) :
    p.isEntered = true ↔ ∀ entry, .removed k entry ∉ w.log := by
  have hmem : ∀ entry, .removed k entry ∈ w.log ↔ .removed k entry ∈ p.history k (w.conn k).loop :=
    fun entry => by rw [← h.history, mem_historyOf (k := k) rfl]
  simp only [hmem]
  cases p <;> simp [Phase.isEntered, Phase.history]

theorem InPhase.count_log (h : InPhase w k p) {e : Event} (he : e.conn = k) :
    w.log.count e = (p.history k (w.conn k).loop).count e := by
  rw [← count_historyOf he, h.history]

theorem InPhase.count_queue (h : InPhase w k p) (hf : f.conn = k) (l : LoopId) :
    (w.queue l).count f = (p.waiting k (w.conn k).loop l).count f := by
  rw [← count_waitingFor hf, h.waiting]

/-- `connEstablished` is due exactly as long as it has not been executed. -/
theorem InPhase.established (h : InPhase w k p) : w.log.count (.established k (w.conn k).loop) +
    (w.queue (w.conn k).loop).count (.connEstablished k) = 1 := by
  rw [h.count_log rfl, h.count_queue rfl]
  cases p with
  | queued | opened | removed | gone =>
    simp [Phase.history, Phase.waiting, Phase.home, Phase.functor?]
  | leaving =>
    simp only [Phase.history, Phase.waiting, Phase.functor?]
    split_ifs <;> simp

/-- `removeConnectionInLoop` is due from the close of the connection until it is executed. -/
theorem InPhase.removed (h : InPhase w k p) : w.log.count (.removed k (some k)) +
    (w.queue .base).count (.removeConnectionInLoop k) = w.log.count (.closed k) := by
  rw [h.count_log rfl, h.count_queue rfl, h.count_log rfl]
  cases p with
  | leaving => simp [Phase.history, Phase.waiting, Phase.home, Phase.functor?]
  | queued | opened | removed | gone =>
    simp only [Phase.history, Phase.waiting, Phase.functor?]
    split_ifs <;> simp

/-- `connDestroyed` is due from the removal of the connection until it is executed. -/
theorem InPhase.destroyed (h : InPhase w k p) : w.log.count (.destroyed k (w.conn k).loop) +
    (w.queue (w.conn k).loop).count (.connDestroyed k) = w.log.count (.removed k (some k)) := by
  rw [h.count_log rfl, h.count_queue rfl, h.count_log rfl]
  cases p with
  | queued | opened | removed | gone =>
    simp [Phase.history, Phase.waiting, Phase.home, Phase.functor?]
  | leaving =>
    simp only [Phase.history, Phase.waiting, Phase.functor?]
    split_ifs <;> simp

/-- Nothing has happened and nothing is due for a connection that has not been made. -/
theorem Orderly.count_eq_zero (h : Orderly c w) (hk : w.made ≤ k) :
    (∀ e : Event, e.conn = k → w.log.count e = 0) ∧
      ∀ l (f : Functor), f.conn = k → (w.queue l).count f = 0 := by
  obtain ⟨hhistory, hwaiting⟩ := h.unmade k hk
  constructor
  · intro e he
    rw [← count_historyOf he, hhistory, List.count_nil]
  · intro l f hf
    rw [← count_waitingFor hf, hwaiting, List.count_nil]

theorem Orderly.table (h : Orderly c w) : Table w where
  name_injective := by
    intro j k hj hk heq
    rw [h.name_eq j hj, h.name_eq k hk] at heq
    exact c.connName_injective heq
  connections_iff := by
    intro name k
    constructor
    · intro hentry
      obtain ⟨hk, rfl⟩ := h.known name k hentry
      obtain ⟨p, hp⟩ := h.inPhase k hk
      refine ⟨hk, rfl, hp.isEntered_iff.mp ?_⟩
      rw [hp.entry] at hentry
      split_ifs at hentry with hentered
      exact hentered
    · rintro ⟨hk, rfl, hnot⟩
      obtain ⟨p, hp⟩ := h.inPhase k hk
      rw [hp.entry, if_pos (hp.isEntered_iff.mpr hnot)]
  history_prefix := by
    intro k
    rcases Nat.lt_or_ge k w.made with hk | hk
    · obtain ⟨p, hp⟩ := h.inPhase k hk
      rw [hp.history]
      exact history_prefix_gone k _ p
    · rw [(h.unmade k hk).1]
      exact List.nil_prefix
  established := by
    intro k hk
    obtain ⟨p, hp⟩ := h.inPhase k hk
    exact hp.established
  removed := by
    intro k
    rcases Nat.lt_or_ge k w.made with hk | hk
    · obtain ⟨p, hp⟩ := h.inPhase k hk
      exact hp.removed
    · obtain ⟨hlog, hqueue⟩ := h.count_eq_zero hk
      rw [hlog _ rfl, hlog _ rfl, hqueue _ _ rfl]
  destroyed := by
    intro k
    rcases Nat.lt_or_ge k w.made with hk | hk
    · obtain ⟨p, hp⟩ := h.inPhase k hk
      exact hp.destroyed
    · obtain ⟨hlog, hqueue⟩ := h.count_eq_zero hk
      rw [hlog _ rfl, hlog _ rfl, hqueue _ _ rfl]

/-- A run all of whose steps are accounted for makes one connection for each that it accepts. -/
theorem exists_run_of_accounts {ls : List Label}
    (h : Machine.Along (World.step c)
      (fun w l r => Machine.Succeeds (fun w' => Table w' ∧ Accounts c l w w') r) w ls) :
    ∃ w', Machine.run (World.step c) w ls = .ok w' ∧ w'.made = w.made + ls.count .accept := by
  induction ls generalizing w with
  | nil => exact ⟨w, rfl, rfl⟩
  | cons l ls ih =>
    obtain ⟨⟨v, hok, -, haccounts⟩, hrest⟩ := h
    obtain ⟨w', hrun, hmade⟩ := ih (hrest v hok)
    refine ⟨w', (Machine.run_cons_ok hok).trans hrun, ?_⟩
    rw [hmade, haccounts.made_eq, List.count_cons, Nat.add_assoc, Nat.add_comm (ite ..)]
    simp only [beq_iff_eq]

end World

/-- **The connection table.** In every interleaving of the threads of a server, with any number of
IO loops, in which no connection calls its close callback twice, every step succeeds, leaves the
table as it should be, and has done what it is for: each accept makes one connection, each close and
each functor has its effect on one. -/
theorem connection_table (c : Setup) {ls : List World.Label}
    (honce : Machine.Along (World.step c) (Machine.onInput World.ClosesOnce) World.init ls) :
    Machine.Along (World.step c)
      (fun w l r => Machine.Succeeds (fun w' => World.Table w' ∧ World.Accounts c l w w') r)
      World.init ls ∧
    ∃ w, Machine.run (World.step c) World.init ls = .ok w ∧ w.made = ls.count .accept := by
  have hall : Machine.Along (World.step c)
      (fun w l r => Machine.Succeeds (fun w' => World.Table w' ∧ World.Accounts c l w w') r)
      World.init ls := by
    refine honce.of_invariant (World.Orderly c) (World.orderly_init c) ?_ ?_
    · intro w l h hl
      obtain ⟨w', hok, h', haccounts⟩ := h.step hl
      exact ⟨w', hok, h'.table, haccounts⟩
    · intro w l w' h hl hok
      obtain ⟨v, hok', h', -⟩ := h.step hl
      obtain rfl := Except.ok.inj (hok'.symm.trans hok)
      exact h'
  obtain ⟨w, hrun, hmade⟩ := World.exists_run_of_accounts hall
  exact ⟨hall, w, hrun, hmade.trans (Nat.zero_add _)⟩

/-- Two connections, in two loops of their own, and one of them closes before the other is
established. -/
def crossing : List World.Label :=
  [.accept, .accept, .runFunctor (.io 0), .disconnect 0, .close 0, .runFunctor .base,
    .runFunctor (.io 1), .runFunctor (.io 0)]

/-- In the end the second connection is in `connections_`, and the first one is gone. -/
theorem connection_table_crossing :
    Machine.Along (World.step ⟨"server", 2⟩)
      (fun w l r => Machine.Succeeds
        (fun w' => World.Table w' ∧ World.Accounts ⟨"server", 2⟩ l w w') r)
      World.init crossing ∧
    ∃ w, Machine.run (World.step ⟨"server", 2⟩) World.init crossing = .ok w ∧ w.made = 2 ∧
      w.connections "server#1" = none ∧ w.connections "server#2" = some 1 ∧
      w.historyOf 0 = [.established 0 (.io 0), .closed 0, .removed 0 (some 0),
        .destroyed 0 (.io 0)] ∧
      w.historyOf 1 = [.established 1 (.io 1)] ∧ w.queue .base = [] := by
  have hend : Machine.run (World.step ⟨"server", 2⟩) World.init crossing = .ok _ := rfl
  obtain ⟨hall, w, hrun, hmade⟩ := @connection_table ⟨"server", 2⟩ crossing (by decide)
  obtain rfl := Except.ok.inj (hend.symm.trans hrun)
  exact ⟨hall, _, hrun, hmade, by decide, by decide, rfl, rfl, rfl⟩

end TcpServer

end MuduoRebuild
