import MuduoRebuild.Reactor.Basic

/-!
# The reactor: what its functions do

A channel is `Known` if the poller of its loop has it, and `Entitled` to be known by the state of
its owner: a connection is open, a connector waits on the channel, an acceptor listens. Most
functions are `Steady`: whatever was known or entitled stays so, only entitled channels become
known, and the thread stays where it is. This relation can be composed, so that it is proved of the
parts of a function and holds of the whole. The functions that end something are treated one by one
elsewhere: `removeAndResetChannel`, `resetChannel`, `connDestroyed` and the destructors.

The descriptor of a new socket is at first in nobody's hands but the function's. The parameters of
`Steady` say which one it is before and after.
-/

namespace MuduoRebuild

namespace Reactor

open Fallible
open TcpServer (LoopId)

theorem alive_eq_ok {α : Type} {o : Option α} {a : α} : alive o = .ok a ↔ o = some a := by
  cases o with
  | none => exact iff_of_false (fun h => by cases h) (fun h => by cases h)
  | some b => exact Except.ok.injEq b a ▸ (Option.some.injEq b a ▸ Iff.rfl)

/-! ### Objects that exist on both sides -/

section Rel

variable {α : Type} {R : α → α → Prop} {o o' : Option α}

theorem exists_of_rel (h : Option.Rel R o o') {a : α} (ha : a ∈ o) : ∃ b ∈ o', R a b := by
  cases h with
  | none => cases ha
  | some hab =>
    obtain rfl := Option.some.inj (Option.mem_def.mp ha)
    exact ⟨_, rfl, hab⟩

theorem exists_of_rel_right (h : Option.Rel R o o') {b : α} (hb : b ∈ o') : ∃ a ∈ o, R a b := by
  cases h with
  | none => cases hb
  | some hab =>
    obtain rfl := Option.some.inj (Option.mem_def.mp hb)
    exact ⟨_, rfl, hab⟩

theorem isSome_of_rel (h : Option.Rel R o o') : o'.isSome = o.isSome := by
  cases h <;> rfl

theorem rel_of_refl (hR : ∀ a, R a a) (o : Option α) : Option.Rel R o o := by
  cases o with
  | none => exact .none
  | some a => exact .some (hR a)

/-- One object is replaced, if it exists. -/
theorem rel_update {ι : Type} [DecidableEq ι] {R : ι → α → α → Prop} (hR : ∀ i a, R i a a)
    {m : ι → Option α} {i : ι} {a b : α} (hi : m i = some a) (hab : R i a b) (i' : ι) :
    Option.Rel (R i') (m i') (Function.update m i (some b) i') := by
  rw [Function.update_apply]
  split_ifs with heq
  · rw [heq, hi]
    exact .some hab
  · exact rel_of_refl (hR i') (m i')

end Rel

/-- The connection is established and not destroyed. -/
def Conn.IsOpen (conn : Conn) : Prop :=
  conn.state_ = .kConnected ∨ conn.state_ = .kDisconnecting

instance (conn : Conn) : Decidable conn.IsOpen := inferInstanceAs (Decidable (_ ∨ _))

namespace World

/-! ### Channels -/

section Channels

variable (c : Setup) (w : World)

/-- The poller of its loop has the channel. -/
def Known (ch : ChannelId) : Prop :=
  (w.loops (c.home ch)).poller.channels (w.fd ch) = some ch

instance (ch : ChannelId) : Decidable (w.Known c ch) := inferInstanceAs (Decidable (_ = _))

def Open (k : ConnId) : Prop := ∃ conn ∈ w.conn k, conn.IsOpen

instance (k : ConnId) : Decidable (w.Open k) :=
  inferInstanceAs (Decidable (∃ conn ∈ w.conn k, conn.IsOpen))

/-- The state of its owner says that the poller should have the channel. -/
def Entitled : ChannelId → Prop
  | .wakeup _ | .timerQueue _ => True
  | .acceptor => ∃ server ∈ w.server, server.listenning_ = true
  | .connector j n => ∃ client ∈ w.client j, client.connector_.channel_ = some n
  | .conn k => w.Open k

/-- The connector is in an attempt. -/
def Waiting (j : ℕ) : Prop :=
  ∃ client ∈ w.client j, client.connector_.state_ = .kConnecting

/-- A client has connections of its own loop. -/
def Linked : Prop :=
  ∀ j, ∀ client ∈ w.client j, ∀ k ∈ client.connection_, c.loopOf k = c.clientLoop j

/-- Whose descriptor the channel has: one that exists, and while it is known in the case of a
connector. -/
def Owns : ChannelId → Prop
  | .wakeup _ | .timerQueue _ => True
  | .acceptor => w.server.isSome = true
  | .connector j n => w.Known c (.connector j n)
  | .conn k => (w.conn k).isSome = true

/-- A poller has channels only in their places. -/
def Placed : Prop :=
  ∀ l n ch, (w.loops l).poller.channels n = some ch → l = c.home ch ∧ n = w.fd ch

/-- The index of a channel says that it is known. -/
def Indexed : Prop := ∀ ch, w.Known c ch → w.index ch ≠ EpollPoller.kNew

/-- The numbers of new connections have not been used. -/
structure Fresh : Prop where
  server : ∀ l n, (w.conn (.ofServer l n)).isSome = true →
    ∀ server ∈ w.server, n < server.nextConnId_
  client : ∀ j n, (w.conn (.ofClient j n)).isSome = true →
    ∀ client ∈ w.client j, n < client.nextConnId_

/-- Every descriptor has one owner at most, and is open; `hand` is one that has just been opened or
is to be closed. -/
structure Sole (hand : Option ℕ) : Prop where
  isOpen : ∀ ch, w.Owns c ch → w.isOpen (w.fd ch) = true
  inj : ∀ ch ch', w.Owns c ch → w.Owns c ch' → w.fd ch = w.fd ch' → ch = ch'
  hand : ∀ n ∈ hand, w.isOpen n = true ∧ ∀ ch, w.Owns c ch → w.fd ch ≠ n

/-- `connDestroyed` of the connection has been called and is about to remove the channel. -/
def Removing : ChannelId → Prop
  | .conn k => .removeChannel k ∈ (w.loops (c.loopOf k)).work
  | .wakeup _ | .timerQueue _ | .acceptor | .connector .. => False

/-- A channel that is known has a reason to be, and a connection that is about to remove its channel
is held by the functor `connDestroyed`. -/
structure Sound : Prop where
  placed : w.Placed c
  indexed : w.Indexed c
  linked : w.Linked c
  entitled : ∀ ch, w.Known c ch → w.Entitled ch ∨ w.Removing c ch
  removing : ∀ l k, .removeChannel k ∈ (w.loops l).work →
    l = c.loopOf k ∧ .connDestroyed k ∈ (w.loops l).ran ∧ (w.conn k).isSome = true

/-- How many functors `resetChannel` the connector can have: one for a channel that the poller has
no more. -/
def due (j : ℕ) : ℕ :=
  match w.client j with
  | none => 1
  | some client =>
    match client.connector_.channel_ with
    | none => 0
    | some n => if w.Known c (.connector j n) then 0 else 1

end Channels

/-- The thread has stayed where it is: only timers have been put before its work, and only functors
other than `resetChannel` into the queue. -/
structure Stays (s s' : LoopState) : Prop where
  phase : s'.phase = s.phase
  active : s'.activeChannels_ = s.activeChannels_
  current : s'.current = s.current
  functors : s'.functors = s.functors
  ran : s'.ran = s.ran
  work : ∃ cbs : List TimerCallback, s'.work = cbs.map .timer ++ s.work
  pending : ∃ fs, s'.pendingFunctors_ = s.pendingFunctors_ ++ fs ∧ ∀ j, .resetChannel j ∉ fs

theorem stays_refl (s : LoopState) : Stays s s :=
  ⟨rfl, rfl, rfl, rfl, rfl, ⟨[], rfl⟩, [], (List.append_nil _).symm, fun _ => List.not_mem_nil⟩

theorem Stays.trans {s s' s'' : LoopState} (h : Stays s s') (h' : Stays s' s'') : Stays s s'' := by
  obtain ⟨cbs, hwork⟩ := h.work
  obtain ⟨cbs', hwork'⟩ := h'.work
  obtain ⟨fs, hpending, hfs⟩ := h.pending
  obtain ⟨fs', hpending', hfs'⟩ := h'.pending
  refine ⟨h'.phase.trans h.phase, h'.active.trans h.active, h'.current.trans h.current,
    h'.functors.trans h.functors, h'.ran.trans h.ran, ⟨cbs' ++ cbs, ?_⟩, fs ++ fs', ?_, ?_⟩
  · rw [hwork', hwork, List.map_append, List.append_assoc]
  · rw [hpending', hpending, List.append_assoc]
  · exact fun j hj => (List.mem_append.mp hj).elim (hfs j) (hfs' j)

/-- Nothing that was known or entitled is lost. -/
structure Steady (c : Setup) (hand hand' : Option ℕ) (w w' : World) : Prop where
  entitled : ∀ ch, w.Entitled ch → w'.Entitled ch
  known : ∀ ch, w.Known c ch → w'.Known c ch
  new : ∀ ch, w'.Known c ch → w.Known c ch ∨ w'.Entitled ch
  placed : w.Placed c → w'.Placed c
  indexed : w.Indexed c → w'.Indexed c
  linked : w.Linked c → w'.Linked c
  waiting : ∀ j n, w.Entitled (.connector j n) → w'.Waiting j → w.Waiting j
  fresh : w.Fresh → w'.Fresh
  sole : w.Sole c hand → w'.Sole c hand'
  due : ∀ j, w'.due c j = w.due c j
  stays : ∀ l, Stays (w.loops l) (w'.loops l)
  held : ∀ k, .connDestroyed k ∈ (w.loops (c.loopOf k)).ran → (w.conn k).isSome = true →
    (w'.conn k).isSome = true

variable {c : Setup} {w w' w'' : World} {hand hand' hand'' : Option ℕ} {l : LoopId} {k : ConnId}
  {ch : ChannelId} {j : ℕ}

theorem steady_refl (w : World) : Steady c hand hand w w :=
  ⟨fun _ => id, fun _ => id, fun _ => .inl, id, id, id, fun _ _ _ => id, id, id, fun _ => rfl,
    fun l => stays_refl (w.loops l), fun _ _ => id⟩

theorem Steady.trans (h : Steady c hand hand' w w') (h' : Steady c hand' hand'' w' w'') :
    Steady c hand hand'' w w'' where
  entitled := fun ch => h'.entitled ch ∘ h.entitled ch
  known := fun ch => h'.known ch ∘ h.known ch
  new := by
    intro ch hch
    rcases h'.new ch hch with hch | hch
    · exact (h.new ch hch).imp_right (h'.entitled ch)
    · exact .inr hch
  placed := h'.placed ∘ h.placed
  indexed := h'.indexed ∘ h.indexed
  linked := h'.linked ∘ h.linked
  waiting := fun j n hent hwait => h.waiting j n hent (h'.waiting j n (h.entitled _ hent) hwait)
  fresh := h'.fresh ∘ h.fresh
  sole := h'.sole ∘ h.sole
  due := fun j => (h'.due j).trans (h.due j)
  stays := fun l => (h.stays l).trans (h'.stays l)
  held := by
    intro k hk hsome
    refine h'.held k ?_ (h.held k hk hsome)
    rwa [(h.stays (c.loopOf k)).ran]

theorem Stays.removeChannel_mem_iff {s s' : LoopState} (h : Stays s s') :
    .removeChannel k ∈ s'.work ↔ .removeChannel k ∈ s.work := by
  obtain ⟨cbs, hwork⟩ := h.work
  rw [hwork, List.mem_append, or_iff_right]
  intro hmem
  obtain ⟨cb, -, hcb⟩ := List.mem_map.mp hmem
  cases hcb

theorem Steady.sound (h : Steady c hand hand' w w') (hsound : w.Sound c) : w'.Sound c := by
  refine ⟨h.placed hsound.placed, h.indexed hsound.indexed, h.linked hsound.linked, ?_, ?_⟩
  · intro ch hch
    rcases h.new ch hch with hch | hch
    · rcases hsound.entitled ch hch with hent | hrem
      · exact .inl (h.entitled ch hent)
      · cases ch with
        | conn k => exact .inr ((h.stays _).removeChannel_mem_iff.mpr hrem)
        | wakeup | timerQueue | acceptor | connector => cases hrem
    · exact .inl hch
  · intro l k hk
    obtain ⟨rfl, hran, hsome⟩ := hsound.removing l k ((h.stays l).removeChannel_mem_iff.mp hk)
    exact ⟨rfl, (h.stays _).ran ▸ hran, h.held k hran hsome⟩

/-- A channel that is known belongs to a connection that exists. -/
theorem Sound.isSome (h : w.Sound c) (hk : w.Known c (.conn k)) : (w.conn k).isSome = true := by
  rcases h.entitled _ hk with ⟨conn, hconn, -⟩ | hrem
  · exact Option.isSome_of_mem hconn
  · exact (h.removing _ k hrem).2.2

/-! ### Changes that leave the pollers alone -/

/-- A server that listens goes on to do so. -/
structure ServerGrows (s s' : Server) : Prop where
  listenning : s.listenning_ = true → s'.listenning_ = true
  nextConnId : s.nextConnId_ ≤ s'.nextConnId_

/-- An open connection stays open. -/
def ConnGrows (conn conn' : Conn) : Prop := conn.IsOpen → conn'.IsOpen

/-- A client may give up its attempt, and its connection for another of its loop. -/
structure ClientGrows (c : Setup) (j : ℕ) (s s' : Client) : Prop where
  channel : s'.connector_.channel_ = s.connector_.channel_
  state : s'.connector_.state_ = .kConnecting → s.connector_.state_ = .kConnecting
  connection : ∀ k ∈ s'.connection_, k ∈ s.connection_ ∨ c.loopOf k = c.clientLoop j
  nextConnId : s.nextConnId_ ≤ s'.nextConnId_

theorem clientGrows_refl (s : Client) : ClientGrows c j s s :=
  ⟨rfl, id, fun _ => .inl, le_rfl⟩

/-- Only the members of objects change that do not matter to their channels. -/
structure Calm (c : Setup) (w w' : World) : Prop where
  channels : ∀ l, (w'.loops l).poller.channels = (w.loops l).poller.channels
  fd : w'.fd = w.fd
  index : w'.index = w.index
  server : Option.Rel ServerGrows w.server w'.server
  client : ∀ j, Option.Rel (ClientGrows c j) (w.client j) (w'.client j)
  conn : ∀ k, Option.Rel ConnGrows (w.conn k) (w'.conn k)

/-- The threads stay where they are, too. -/
structure Quiet (c : Setup) (w w' : World) : Prop extends Calm c w w' where
  stays : ∀ l, Stays (w.loops l) (w'.loops l)

theorem Calm.known_iff (h : Calm c w w') : w'.Known c ch ↔ w.Known c ch := by
  rw [Known, Known, h.channels, h.fd]

theorem Calm.entitled (h : Calm c w w') (hch : w.Entitled ch) : w'.Entitled ch := by
  cases ch with
  | wakeup | timerQueue => trivial
  | acceptor =>
    obtain ⟨server, hserver, hlistenning⟩ := hch
    obtain ⟨server', hserver', hgrows⟩ := exists_of_rel h.server hserver
    exact ⟨server', hserver', hgrows.listenning hlistenning⟩
  | connector j n =>
    obtain ⟨client, hclient, hchannel⟩ := hch
    obtain ⟨client', hclient', hgrows⟩ := exists_of_rel (h.client j) hclient
    exact ⟨client', hclient', hgrows.channel.trans hchannel⟩
  | conn k =>
    obtain ⟨conn, hconn, hopen⟩ := hch
    obtain ⟨conn', hconn', himp⟩ := exists_of_rel (h.conn k) hconn
    exact ⟨conn', hconn', himp hopen⟩

theorem Calm.owns_iff (h : Calm c w w') : w'.Owns c ch ↔ w.Owns c ch := by
  cases ch with
  | wakeup | timerQueue => exact Iff.rfl
  | acceptor => exact iff_of_eq (congrArg (· = true) (isSome_of_rel h.server))
  | connector => exact h.known_iff
  | conn k => exact iff_of_eq (congrArg (· = true) (isSome_of_rel (h.conn k)))

theorem Calm.fresh (h : Calm c w w') (hfresh : w.Fresh) : w'.Fresh := by
  constructor
  · intro l n hconn server' hserver'
    rw [isSome_of_rel (h.conn _)] at hconn
    obtain ⟨server, hserver, hgrows⟩ := exists_of_rel_right h.server hserver'
    exact (hfresh.server l n hconn server hserver).trans_le hgrows.nextConnId
  · intro j n hconn client' hclient'
    rw [isSome_of_rel (h.conn _)] at hconn
    obtain ⟨client, hclient, hgrows⟩ := exists_of_rel_right (h.client j) hclient'
    exact (hfresh.client j n hconn client hclient).trans_le hgrows.nextConnId

theorem Calm.due_eq (h : Calm c w w') (j : ℕ) : w'.due c j = w.due c j := by
  have hrel := h.client j
  rw [due, due]
  cases hclient : w.client j with
  | none =>
    rw [hclient] at hrel
    cases hclient' : w'.client j with
    | none => rfl
    | some client' => rw [hclient'] at hrel; cases hrel
  | some client =>
    obtain ⟨client', hclient', hgrows⟩ := exists_of_rel hrel hclient
    rw [Option.mem_def.mp hclient']
    dsimp only
    rw [hgrows.channel]
    cases client.connector_.channel_ with
    | none => rfl
    | some n => exact if_congr h.known_iff rfl rfl

theorem Calm.linked (h : Calm c w w') (hlinked : w.Linked c) : w'.Linked c := by
  intro j client' hclient' k hk
  obtain ⟨client, hclient, hgrows⟩ := exists_of_rel_right (h.client j) hclient'
  exact (hgrows.connection k hk).elim (hlinked j client hclient k) id

theorem Calm.waiting (h : Calm c w w') (hwait : w'.Waiting j) : w.Waiting j := by
  obtain ⟨client', hclient', hstate⟩ := hwait
  obtain ⟨client, hclient, hgrows⟩ := exists_of_rel_right (h.client j) hclient'
  exact ⟨client, hclient, hgrows.state hstate⟩

theorem Calm.placed (h : Calm c w w') (hplaced : w.Placed c) : w'.Placed c := by
  intro l n ch hch
  rw [h.channels] at hch
  rw [h.fd]
  exact hplaced l n ch hch

theorem Calm.indexed (h : Calm c w w') (hindexed : w.Indexed c) : w'.Indexed c := by
  intro ch hch
  rw [h.index]
  exact hindexed ch (h.known_iff.mp hch)

theorem Calm.sole (h : Calm c w w') (hopen : w'.isOpen = w.isOpen) (hsole : w.Sole c hand) :
    w'.Sole c hand where
  isOpen := fun ch hch => by
    rw [hopen, h.fd]
    exact hsole.isOpen ch (h.owns_iff.mp hch)
  inj := fun ch ch' hch hch' heq => by
    rw [h.fd] at heq
    exact hsole.inj ch ch' (h.owns_iff.mp hch) (h.owns_iff.mp hch') heq
  hand := fun n hn => by
    rw [hopen, h.fd]
    exact ⟨(hsole.hand n hn).1, fun ch hch => (hsole.hand n hn).2 ch (h.owns_iff.mp hch)⟩

theorem Quiet.steady_of_sole (h : Quiet c w w') (hsole : w.Sole c hand → w'.Sole c hand') :
    Steady c hand hand' w w' where
  entitled := fun _ => h.entitled
  known := fun _ => h.known_iff.mpr
  new := fun _ hch => .inl (h.known_iff.mp hch)
  placed := h.placed
  indexed := h.indexed
  linked := h.linked
  waiting := fun _ _ _ => h.waiting
  fresh := h.fresh
  sole := hsole
  due := h.due_eq
  stays := h.stays
  held := fun k _ hsome => (isSome_of_rel (h.conn k)).trans hsome

theorem Quiet.steady (h : Quiet c w w') (hopen : w'.isOpen = w.isOpen) :
    Steady c hand hand w w' :=
  h.steady_of_sole (h.sole hopen)

@[simp]
theorem client_setClient_self (w : World) (j : ℕ) (client : Client) :
    (w.setClient j client).client j = some client :=
  Function.update_self ..

theorem client_setClient_of_ne (w : World) {j j' : ℕ} (h : j' ≠ j) (client : Client) :
    (w.setClient j client).client j' = w.client j' :=
  Function.update_of_ne h ..

section Quiet

variable (w)

theorem quiet_refl : Quiet c w w where
  channels := fun _ => rfl
  stays := fun l => stays_refl (w.loops l)
  fd := rfl
  index := rfl
  server := rel_of_refl (fun _ => ⟨id, le_rfl⟩) w.server
  client := fun j => rel_of_refl (clientGrows_refl) (w.client j)
  conn := fun k => rel_of_refl (fun _ => id) (w.conn k)

theorem calm_modify {f : LoopState → LoopState} (l : LoopId)
    (hpoller : (f (w.loops l)).poller = (w.loops l).poller) : Calm c w (w.modify l f) where
  channels := by
    intro l'
    simp only [modify, Function.update_apply]
    split_ifs with h
    · rw [h, hpoller]
    · rfl
  fd := rfl
  index := rfl
  server := (quiet_refl (c := c) w).server
  client := (quiet_refl w).client
  conn := (quiet_refl (c := c) w).conn

theorem quiet_modify {f : LoopState → LoopState} (l : LoopId)
    (hpoller : (f (w.loops l)).poller = (w.loops l).poller)
    (hstays : Stays (w.loops l) (f (w.loops l))) : Quiet c w (w.modify l f) where
  toCalm := calm_modify w l hpoller
  stays := by
    intro l'
    simp only [modify, Function.update_apply]
    split_ifs with h
    · exact h ▸ hstays
    · exact stays_refl _

theorem quiet_queueInLoop (l : LoopId) {f : Functor} (hf : ∀ j, f ≠ .resetChannel j) :
    Quiet c w (w.queueInLoop l f) := by
  refine quiet_modify w l rfl ⟨rfl, rfl, rfl, rfl, rfl, ⟨[], rfl⟩, [f], rfl, fun j hj => ?_⟩
  exact hf j (List.mem_singleton.mp hj).symm

theorem quiet_addTimerInLoop (l : LoopId) (id : ℕ) (cb : TimerCallback) :
    Quiet c w (w.addTimerInLoop l id cb) :=
  quiet_modify w l rfl { stays_refl (w.loops l) with }

theorem quiet_cancelInLoop (l : LoopId) (id : Option ℕ) : Quiet c w (w.cancelInLoop l id) :=
  quiet_modify w l rfl { stays_refl (w.loops l) with }

theorem quiet_expire (l : LoopId) (ids : List ℕ) : Quiet c w (w.expire l ids) := by
  refine quiet_modify w l rfl { stays_refl (w.loops l) with work := ?_ }
  exact ⟨((w.loops l).timers.filter (·.1 ∈ ids)).map Prod.snd, by rw [List.map_map]; rfl⟩

variable {w}

theorem quiet_setConn {conn conn' : Conn} (hconn : w.conn k = some conn)
    (hopen : conn.IsOpen → conn'.IsOpen) : Quiet c w (w.setConn k conn') :=
  { quiet_refl (c := c) w with conn := rel_update (fun _ _ => id) hconn hopen }

theorem quiet_setClient {client client' : Client} (hclient : w.client j = some client)
    (hgrows : ClientGrows c j client client') : Quiet c w (w.setClient j client') :=
  { quiet_refl (c := c) w with client := rel_update (fun _ => clientGrows_refl) hclient hgrows }

theorem quiet_setServer {server server' : Server} (hserver : w.server = some server)
    (hgrows : ServerGrows server server') : Quiet c w { w with server := some server' } :=
  { quiet_refl w with server := hserver ▸ .some hgrows }

end Quiet

/-! ### Functors and timers -/

section Functors

variable {t : Option LoopId} {f : Functor} {run : World → Except Halt World}

theorem steady_queueInLoop (w : World) (l : LoopId) {f : Functor} (hf : ∀ j, f ≠ .resetChannel j) :
    Steady c hand hand w (w.queueInLoop l f) :=
  (quiet_queueInLoop w l hf).steady rfl

theorem steady_runInLoop (hf : ∀ j, f ≠ .resetChannel j)
    (hrun : ∀ w', run w = .ok w' → Steady c hand hand w w')
    (hok : w.runInLoop t l f run = .ok w') : Steady c hand hand w w' := by
  rw [runInLoop] at hok
  split_ifs at hok
  · exact hrun w' hok
  · obtain rfl := Except.ok.inj hok
    exact steady_queueInLoop w l hf

theorem steady_runAfter {cb : TimerCallback} (hok : w.runAfter t l cb = .ok w') :
    Steady c hand hand w w' := by
  have hnext : Steady c hand hand w { w with nextTimer := w.nextTimer + 1 } :=
    Quiet.steady { quiet_refl w with } rfl
  simp only [runAfter] at hok
  refine hnext.trans (steady_runInLoop (fun _ => by simp) (fun w' hok => ?_) hok)
  obtain rfl := Except.ok.inj hok
  exact (quiet_addTimerInLoop _ l _ cb).steady rfl

theorem steady_cancel {id : Option ℕ} (hok : w.cancel t l id = .ok w') :
    Steady c hand hand w w' := by
  rw [cancel] at hok
  refine steady_runInLoop (fun _ => by simp) (fun w' hok => ?_) hok
  obtain rfl := Except.ok.inj hok
  exact (quiet_cancelInLoop w l id).steady rfl

end Functors

/-! ### Pollers -/

/-- The world is the same, apart from the loops, events and indices. -/
structure SameObjects (w w' : World) : Prop where
  fd : w'.fd = w.fd
  isOpen : w'.isOpen = w.isOpen
  server : w'.server = w.server
  client : w'.client = w.client
  conn : w'.conn = w.conn

/-- Only the pollers of the loops may change, too. -/
structure Operates (w w' : World) : Prop extends SameObjects w w' where
  loops : ∀ l, w'.loops l = { w.loops l with poller := (w'.loops l).poller }

theorem SameObjects.entitled_iff (h : SameObjects w w') : w'.Entitled ch ↔ w.Entitled ch := by
  cases ch with
  | wakeup | timerQueue => exact Iff.rfl
  | acceptor => rw [Entitled, Entitled, h.server]
  | connector => rw [Entitled, Entitled, h.client]
  | conn => rw [Entitled, Entitled, Open, Open, h.conn]

theorem SameObjects.fresh_iff (h : SameObjects w w') : w'.Fresh ↔ w.Fresh := by
  constructor
  · rintro ⟨hserver, hclient⟩
    exact ⟨by rwa [h.conn, h.server] at hserver, by rwa [h.conn, h.client] at hclient⟩
  · rintro ⟨hserver, hclient⟩
    exact ⟨by rwa [h.conn, h.server], by rwa [h.conn, h.client]⟩

theorem Operates.stays (h : Operates w w') (l : LoopId) :
    Stays (w.loops l) (w'.loops l) := by
  rw [h.loops]
  exact { stays_refl (w.loops l) with }

/-- The channel is entered by an update. -/
structure Enters (c : Setup) (ch : ChannelId) (w w' : World) : Prop extends Operates w w' where
  free : (w.loops (c.home ch)).poller.channels (w.fd ch) = none ∨ w.Known c ch
  channels : ∀ l n, (w'.loops l).poller.channels n =
    if l = c.home ch ∧ n = w.fd ch then some ch else (w.loops l).poller.channels n
  index_self : w'.index ch ≠ EpollPoller.kNew
  index_of_ne : ∀ d, d ≠ ch → w'.index d = w.index d

/-- The channel is removed. -/
structure Leaves (c : Setup) (ch : ChannelId) (w w' : World) : Prop extends Operates w w' where
  known : w.Known c ch
  channels : ∀ l n, (w'.loops l).poller.channels n =
    if l = c.home ch ∧ n = w.fd ch then none else (w.loops l).poller.channels n
  index_of_ne : ∀ d, d ≠ ch → w'.index d = w.index d

/-- Whatever an operation does in a loop, the objects stay the same. -/
theorem operates_of_perform {op : Channel.Op ChannelId} (hok : w.perform c ch op = .ok w') :
    ∃ s, op.perform w.fd ⟨(w.loops (c.home ch)).poller, w.events, w.index⟩ = .ok s ∧
      Operates w w' ∧ w'.index = s.index ∧
      ∀ l, (w'.loops l).poller = if l = c.home ch then s.poller else (w.loops l).poller := by
  rw [perform] at hok
  split at hok
  · cases hok
  · next s hs =>
    obtain rfl := Except.ok.inj hok
    refine ⟨s, hs, ⟨⟨rfl, rfl, rfl, rfl, rfl⟩, fun l => ?_⟩, rfl, fun l => ?_⟩
    · simp only [Function.update_apply]
      split_ifs with h
      · rw [h]
      · rfl
    · simp only [Function.update_apply]
      split_ifs <;> rfl

theorem enters_of_update {u : Channel.Update} (hok : w.update c u ch = .ok w') :
    Enters c ch w w' := by
  obtain ⟨s, hs, hsame, hindex, hpoller⟩ := operates_of_perform hok
  obtain ⟨hfree, hchannels, i, hi, hupdate⟩ := EpollPoller.of_perform_update hs
  refine { hsame with
    free := hfree
    channels := fun l n => ?_
    index_self := ?_
    index_of_ne := fun d hd => ?_ }
  · rw [hpoller]
    by_cases hl : l = c.home ch
    · rw [if_pos hl, hchannels, Function.update_apply, hl]
      exact if_congr (and_iff_right rfl).symm rfl rfl
    · rw [if_neg hl, if_neg fun h => hl h.1]
  · rw [hindex, hupdate, Function.update_self]
    exact hi
  · rw [hindex, hupdate, Function.update_of_ne hd]

theorem leaves_of_removeChannel (hok : w.removeChannel c ch = .ok w') : Leaves c ch w w' := by
  obtain ⟨s, hs, hsame, hindex, hpoller⟩ := operates_of_perform hok
  obtain ⟨hknown, -, hchannels, hupdate⟩ := EpollPoller.of_perform_remove hs
  refine { hsame with
    known := hknown
    channels := fun l n => ?_
    index_of_ne := fun d hd => ?_ }
  · rw [hpoller]
    by_cases hl : l = c.home ch
    · rw [if_pos hl, hchannels, Function.update_apply, hl]
      exact if_congr (and_iff_right rfl).symm rfl rfl
    · rw [if_neg hl, if_neg fun h => hl h.1]
  · rw [hindex, hupdate, Function.update_of_ne hd]

theorem Enters.known_iff (h : Enters c ch w w') {d : ChannelId} :
    w'.Known c d ↔ w.Known c d ∨ d = ch := by
  rw [Known, Known, h.channels, h.fd]
  split_ifs with hkey
  · -- the place is that of `ch`, where no other channel has been
    rw [Option.some.injEq, hkey.1, hkey.2]
    refine ⟨fun heq => .inr heq.symm, fun hd => hd.elim (fun hd => ?_) Eq.symm⟩
    rcases h.free with hfree | hfree
    · rw [hfree] at hd
      cases hd
    · exact Option.some.inj (hfree.symm.trans hd)
  · refine (or_iff_left fun heq => hkey ?_).symm
    rw [heq]
    exact ⟨rfl, rfl⟩

theorem Leaves.known_iff (h : Leaves c ch w w') {d : ChannelId} :
    w'.Known c d ↔ w.Known c d ∧ d ≠ ch := by
  rw [Known, Known, h.channels, h.fd]
  split_ifs with hkey
  · rw [hkey.1, hkey.2]
    refine iff_of_false (fun hd => by cases hd) fun ⟨hd, hne⟩ => hne ?_
    exact Option.some.inj (hd.symm.trans h.known)
  · refine (and_iff_left fun heq => hkey ?_).symm
    rw [heq]
    exact ⟨rfl, rfl⟩

theorem Enters.placed (h : Enters c ch w w') (hplaced : w.Placed c) : w'.Placed c := by
  intro l n d hd
  rw [h.channels] at hd
  rw [h.fd]
  split_ifs at hd with hkey
  · obtain rfl := Option.some.inj hd
    exact hkey
  · exact hplaced l n d hd

theorem Leaves.placed (h : Leaves c ch w w') (hplaced : w.Placed c) : w'.Placed c := by
  intro l n d hd
  rw [h.channels] at hd
  rw [h.fd]
  split_ifs at hd with hkey
  exact hplaced l n d hd

theorem Enters.indexed (h : Enters c ch w w') (hindexed : w.Indexed c) : w'.Indexed c := by
  intro d hd
  by_cases hdch : d = ch
  · rw [hdch]
    exact h.index_self
  · rw [h.index_of_ne d hdch]
    exact hindexed d ((h.known_iff.mp hd).resolve_right hdch)

theorem Leaves.indexed (h : Leaves c ch w w') (hindexed : w.Indexed c) : w'.Indexed c := by
  intro d hd
  obtain ⟨hd, hdch⟩ := h.known_iff.mp hd
  rw [h.index_of_ne d hdch]
  exact hindexed d hd

theorem due_of_none {client : Client} (hclient : w.client j = some client)
    (hnone : client.connector_.channel_ = none) : w.due c j = 0 := by
  rw [due, hclient]
  simp only [hnone]

theorem due_of_some {client : Client} {n : ℕ} (hclient : w.client j = some client)
    (hsome : client.connector_.channel_ = some n) :
    w.due c j = if w.Known c (.connector j n) then 0 else 1 := by
  rw [due, hclient]
  simp only [hsome]

/-- What matters about a connector is the same if its channels are known as before. -/
theorem due_congr (hclient : w'.client j = w.client j)
    (hknown : ∀ n, w'.Known c (.connector j n) ↔ w.Known c (.connector j n)) :
    w'.due c j = w.due c j := by
  rw [due, due, hclient]
  cases w.client j with
  | none => rfl
  | some client =>
    dsimp only
    cases client.connector_.channel_ with
    | none => rfl
    | some n => exact if_congr (hknown n) rfl rfl

/-- An update of a channel that is not a connector's, which the poller should have. -/
theorem steady_update {u : Channel.Update} (hok : w.update c u ch = .ok w')
    (hentitled : w.Entitled ch) (hne : ∀ j n, ch ≠ .connector j n) : Steady c hand hand w w' := by
  have h := enters_of_update hok
  have hknown : ∀ j n, w'.Known c (.connector j n) ↔ w.Known c (.connector j n) :=
    fun j n => h.known_iff.trans (or_iff_left fun heq => hne j n heq.symm)
  have howns : ∀ d, w'.Owns c d ↔ w.Owns c d := by
    intro d
    cases d with
    | wakeup | timerQueue => exact Iff.rfl
    | acceptor => rw [Owns, Owns, h.server]
    | connector j n => exact hknown j n
    | conn => rw [Owns, Owns, h.conn]
  exact {
    entitled := fun _ => h.entitled_iff.mpr
    known := fun _ hd => h.known_iff.mpr (.inl hd)
    new := fun d hd => (h.known_iff.mp hd).imp_right fun heq => by
      rw [heq]
      exact h.entitled_iff.mpr hentitled
    placed := h.placed
    indexed := h.indexed
    linked := fun hlinked => by rwa [Linked, h.client]
    waiting := fun _ _ _ hwait => by rwa [Waiting, h.client] at hwait
    fresh := h.fresh_iff.mpr
    sole := fun hsole => by
      refine ⟨fun d hd => ?_, fun d d' hd hd' heq => ?_, fun n hn => ?_⟩
      · rw [h.isOpen, h.fd]
        exact hsole.isOpen d ((howns d).mp hd)
      · rw [h.fd] at heq
        exact hsole.inj d d' ((howns d).mp hd) ((howns d').mp hd') heq
      · rw [h.isOpen, h.fd]
        exact ⟨(hsole.hand n hn).1, fun d hd => (hsole.hand n hn).2 d ((howns d).mp hd)⟩
    due := fun j => due_congr (congrFun h.client j) (hknown j)
    stays := h.stays
    held := fun k _ hsome => by rwa [h.conn] }

/-! ### Descriptors -/

theorem steady_openFd {fd : ℕ} (hok : w.openFd fd = .ok w') :
    Steady c none (some fd) w w' := by
  obtain ⟨_, hclosed, hok⟩ := bind_eq_ok.mp hok
  obtain rfl := Except.ok.inj hok
  have hclosed := check_eq_ok.mp hclosed
  refine Quiet.steady_of_sole { quiet_refl w with } fun hsole => ?_
  refine ⟨fun ch hch => ?_, hsole.inj, fun n hn => ?_⟩
  · simp only [Function.update_apply]
    split_ifs
    · rfl
    · exact hsole.isOpen ch hch
  · obtain rfl := Option.some.inj (Option.mem_def.mp hn)
    refine ⟨Function.update_self .., fun ch hch heq => ?_⟩
    -- whoever has a descriptor has an open one
    have hopen := hsole.isOpen ch hch
    rw [show w.fd ch = fd from heq, hclosed] at hopen
    cases hopen

theorem quiet_closeFd (w : World) (fd : ℕ) : Quiet c w (w.closeFd fd) :=
  { quiet_refl w with stays := fun l => { stays_refl (w.loops l) with } }

theorem steady_closeFd (w : World) (fd : ℕ) : Steady c (some fd) none w (w.closeFd fd) := by
  refine (quiet_closeFd w fd).steady_of_sole fun hsole => ?_
  refine ⟨fun ch hch => ?_, hsole.inj, fun n hn => by cases hn⟩
  simp only [closeFd, Function.update_of_ne ((hsole.hand fd rfl).2 ch hch)]
  exact hsole.isOpen ch hch

/-- A descriptor may be lost. -/
theorem steady_forget (w : World) (hand : Option ℕ) : Steady c hand none w w :=
  (quiet_refl w).steady_of_sole fun hsole => ⟨hsole.isOpen, hsole.inj, fun _ hn => by cases hn⟩

/-- A channel is constructed for the descriptor in hand. -/
theorem steady_newChannel (hsound : w.Sound c) (hunknown : ¬w.Known c ch) (hunowned : ¬w.Owns c ch)
    (fd : ℕ) : Steady c hand hand w (w.newChannel ch fd) := by
  have hfd : ∀ d, d ≠ ch → (w.newChannel ch fd).fd d = w.fd d :=
    fun d hd => Function.update_of_ne hd ..
  have hnowhere : ∀ l n, (w.loops l).poller.channels n ≠ some ch := by
    intro l n hn
    obtain ⟨rfl, rfl⟩ := hsound.placed l n ch hn
    exact hunknown hn
  have hknown : ∀ d, (w.newChannel ch fd).Known c d ↔ w.Known c d := by
    intro d
    by_cases hd : d = ch
    · subst hd
      exact iff_of_false (hnowhere _ _) hunknown
    · rw [Known, hfd d hd]
      rfl
  have howns : ∀ d, (w.newChannel ch fd).Owns c d ↔ w.Owns c d := by
    intro d
    cases d with
    | connector => exact hknown _
    | wakeup | timerQueue | acceptor | conn => exact Iff.rfl
  have hne : ∀ d, w.Owns c d → d ≠ ch := fun d hd heq => hunowned (heq ▸ hd)
  exact {
    entitled := fun d hd => by cases d <;> exact hd
    known := fun d => (hknown d).mpr
    new := fun d hd => .inl ((hknown d).mp hd)
    placed := fun hplaced l n d hd => by
      have hdch : d ≠ ch := fun heq => hnowhere l n (heq ▸ hd)
      rw [hfd d hdch]
      exact hplaced l n d hd
    indexed := fun hindexed d hd => by
      have hd := (hknown d).mp hd
      have hdch : d ≠ ch := fun heq => hunknown (heq ▸ hd)
      simp only [newChannel, Function.update_of_ne hdch]
      exact hindexed d hd
    linked := id
    waiting := fun _ _ _ => id
    fresh := fun hfresh => ⟨hfresh.server, hfresh.client⟩
    sole := fun hsole => by
      refine ⟨fun d hd => ?_, fun d d' hd hd' heq => ?_, fun n hn => ?_⟩
      · have hd := (howns d).mp hd
        rw [hfd d (hne d hd)]
        exact hsole.isOpen d hd
      · have hd := (howns d).mp hd
        have hd' := (howns d').mp hd'
        rw [hfd d (hne d hd), hfd d' (hne d' hd')] at heq
        exact hsole.inj d d' hd hd' heq
      · refine ⟨(hsole.hand n hn).1, fun d hd => ?_⟩
        have hd := (howns d).mp hd
        rw [hfd d (hne d hd)]
        exact (hsole.hand n hn).2 d hd
    due := fun _ => due_congr rfl fun _ => hknown _
    stays := fun l => stays_refl (w.loops l)
    held := fun _ _ => id }

/-- A connection is constructed, with a number that has not been used. -/
theorem steady_construct {conn : Conn} (hnone : w.conn k = none)
    (hserver : ∀ l n, k = .ofServer l n → ∀ server ∈ w.server, n < server.nextConnId_)
    (hclient : ∀ j n, k = .ofClient j n → ∀ client ∈ w.client j, n < client.nextConnId_) :
    Steady c (some (w.fd (.conn k))) none w (w.setConn k conn) := by
  have hconn : ∀ k', k' ≠ k → (w.setConn k conn).conn k' = w.conn k' :=
    fun k' hk' => Function.update_of_ne hk' ..
  have hne : ∀ k', (w.conn k').isSome = true → k' ≠ k := by
    rintro k' hsome rfl
    rw [hnone] at hsome
    cases hsome
  have howns : ∀ d, (w.setConn k conn).Owns c d → w.Owns c d ∨ d = .conn k := by
    intro d hd
    cases d with
    | wakeup | timerQueue | acceptor | connector => exact .inl hd
    | conn k' =>
      by_cases hk' : k' = k
      · exact .inr (congrArg _ hk')
      · exact .inl ((congrArg Option.isSome (hconn k' hk')).symm.trans hd)
  exact {
    entitled := fun d hd => by
      cases d with
      | wakeup | timerQueue | acceptor | connector => exact hd
      | conn k' =>
        obtain ⟨conn', hconn', hopen⟩ := hd
        exact ⟨conn', (hconn k' (hne k' (Option.isSome_of_mem hconn'))).trans hconn', hopen⟩
    known := fun _ => id
    new := fun _ => .inl
    placed := id
    indexed := id
    linked := id
    waiting := fun _ _ _ => id
    fresh := fun hfresh => by
      refine ⟨fun l n hsome => ?_, fun j n hsome => ?_⟩
      · by_cases hk : .ofServer l n = k
        · exact hserver l n hk.symm
        · exact hfresh.server l n ((congrArg Option.isSome (hconn _ hk)).symm.trans hsome)
      · by_cases hk : .ofClient j n = k
        · exact hclient j n hk.symm
        · exact hfresh.client j n ((congrArg Option.isSome (hconn _ hk)).symm.trans hsome)
    sole := fun hsole => by
      have hfd := hsole.hand _ rfl
      refine ⟨fun d hd => ?_, fun d d' hd hd' heq => ?_, fun n hn => by cases hn⟩
      · rcases howns d hd with hd | rfl
        · exact hsole.isOpen d hd
        · exact hfd.1
      · rcases howns d hd with hd | rfl <;> rcases howns d' hd' with hd' | rfl
        · exact hsole.inj d d' hd hd' heq
        · exact absurd heq (hfd.2 d hd)
        · exact absurd heq.symm (hfd.2 d' hd')
        · rfl
    due := fun _ => rfl
    stays := fun l => stays_refl (w.loops l)
    held := fun k' _ hsome => (congrArg Option.isSome (hconn k' (hne k' hsome))).trans hsome }

/-! ### Pointers -/

theorem inServer_ne_zero_iff :
    w.inServer k ≠ 0 ↔ ∃ server ∈ w.server, k ∈ server.connections_ := by
  rw [inServer]
  cases w.server with
  | none => simp
  | some server => simp [List.count_eq_zero]

theorem inClient_ne_zero_iff : w.inClient k ≠ 0 ↔
    ∃ j n, k = .ofClient j n ∧ ∃ client ∈ w.client j, client.connection_ = some k := by
  cases k with
  | ofServer => simp [inClient]
  | ofClient j n =>
    rw [inClient]
    cases hj : w.client j with
    | none => simp [hj]
    | some client => simp [hj]

/-- Who can hold a connection. -/
theorem useCount_ne_zero_iff : w.useCount c k ≠ 0 ↔ w.inServer k ≠ 0 ∨ w.inClient k ≠ 0 ∨
    (∃ l ∈ loopsFor c k, ∃ f ∈ w.allFunctors l, f.ptr = some k) ∨
      ∃ conn ∈ w.conn k, conn.refs ≠ 0 := by
  have hfunctors : ((loopsFor c k).flatMap w.allFunctors).countP (·.ptr = some k) ≠ 0 ↔
      ∃ l ∈ loopsFor c k, ∃ f ∈ w.allFunctors l, f.ptr = some k := by
    rw [← Nat.pos_iff_ne_zero, List.countP_pos_iff]
    simp only [List.mem_flatMap, decide_eq_true_eq]
    exact ⟨fun ⟨f, ⟨l, hl, hf⟩, hptr⟩ => ⟨l, hl, f, hf, hptr⟩,
      fun ⟨l, hl, f, hf, hptr⟩ => ⟨f, ⟨l, hl, hf⟩, hptr⟩⟩
  have hrefs : (w.conn k).elim 0 Conn.refs ≠ 0 ↔ ∃ conn ∈ w.conn k, conn.refs ≠ 0 := by
    cases w.conn k with
    | none => simp
    | some conn => simp
  rw [useCount, ← hfunctors, ← hrefs]
  omega

/-- A functor that holds the connection counts. -/
theorem useCount_ne_zero_of_mem {f : Functor} (hl : l ∈ loopsFor c k) (hf : f ∈ w.allFunctors l)
    (hptr : f.ptr = some k) : w.useCount c k ≠ 0 :=
  useCount_ne_zero_iff.mpr (.inr (.inr (.inl ⟨l, hl, f, hf, hptr⟩)))

theorem loopOf_mem_loopsFor (c : Setup) (k : ConnId) : c.loopOf k ∈ loopsFor c k := by
  rw [loopsFor]
  split_ifs with h
  · exact List.mem_singleton.mpr h
  · exact List.mem_cons_self

theorem useCount_ne_zero_of_ran (h : .connDestroyed k ∈ (w.loops (c.loopOf k)).ran) :
    w.useCount c k ≠ 0 :=
  useCount_ne_zero_of_mem (loopOf_mem_loopsFor c k) (List.mem_append_left _ h) rfl

/-- The pointers of the user count. -/
theorem useCount_setConn {conn : Conn} (hconn : w.conn k = some conn) (refs : ℕ) :
    (w.setConn k { conn with refs }).useCount c k + conn.refs = w.useCount c k + refs := by
  have hset : (w.setConn k { conn with refs }).conn k = some { conn with refs } :=
    Function.update_self ..
  have hsame : ∀ l, (w.setConn k { conn with refs }).allFunctors l = w.allFunctors l :=
    fun _ => rfl
  have hserver : (w.setConn k { conn with refs }).inServer k = w.inServer k := rfl
  have hclient : (w.setConn k { conn with refs }).inClient k = w.inClient k := by
    cases k <;> rfl
  rw [useCount, useCount, hset, hconn, funext hsame, hserver, hclient]
  simp only [Option.elim_some]
  omega

/-- Either nothing happens, or the connection had no pointers and is destroyed. -/
theorem release_eq (w : World) (k : ConnId) :
    w.release c k = w ∨ (w.conn k).isSome = true ∧ w.useCount c k = 0 ∧
      w.release c k =
        { w with conn := Function.update w.conn k none }.closeFd (w.fd (.conn k)) := by
  rw [release]
  split_ifs with h
  · exact .inr ⟨h.1, h.2, rfl⟩
  · exact .inl rfl

theorem steady_release (hopen : w.Open k → w.useCount c k ≠ 0) :
    Steady c hand hand w (w.release c k) := by
  rcases release_eq (c := c) w k with heq | ⟨hsome, hzero, heq⟩
  · rw [heq]
    exact steady_refl w
  · rw [heq]
    have hconn : ∀ k', k' ≠ k → Function.update w.conn k none k' = w.conn k' :=
      fun k' hk' => Function.update_of_ne hk' ..
    have howns : ∀ d, ({ w with conn := Function.update w.conn k none }.closeFd
        (w.fd (.conn k))).Owns c d → w.Owns c d ∧ d ≠ .conn k := by
      intro d hd
      cases d with
      | wakeup | timerQueue | acceptor | connector => exact ⟨hd, by simp⟩
      | conn k' =>
        by_cases hk' : k' = k
        · subst hk'
          simp [Owns, closeFd] at hd
        · refine ⟨(congrArg Option.isSome (hconn k' hk')).symm.trans hd, fun h => hk' ?_⟩
          exact ChannelId.conn.inj h
    exact {
      entitled := fun d hd => by
        cases d with
        | wakeup | timerQueue | acceptor | connector => exact hd
        | conn k' =>
          have hk' : k' ≠ k := fun h => hopen (h ▸ hd) hzero
          obtain ⟨conn, hmem, hisOpen⟩ := hd
          exact ⟨conn, (hconn k' hk').trans hmem, hisOpen⟩
      known := fun _ => id
      new := fun _ => .inl
      placed := id
      indexed := id
      linked := id
      waiting := fun _ _ _ => id
      fresh := fun hfresh => by
        have hsub : ∀ k', (Function.update w.conn k none k').isSome = true →
            (w.conn k').isSome = true := by
          intro k' hk'
          rw [Function.update_apply] at hk'
          split_ifs at hk'
          · cases hk'
          · exact hk'
        exact ⟨fun l n hn => hfresh.server l n (hsub _ hn),
          fun j n hn => hfresh.client j n (hsub _ hn)⟩
      sole := fun hsole => by
        refine ⟨fun d hd => ?_, fun d d' hd hd' => ?_, fun n hn => ?_⟩
        · obtain ⟨hd, hne⟩ := howns d hd
          have hfd : w.fd d ≠ w.fd (.conn k) := fun h => hne (hsole.inj d (.conn k) hd hsome h)
          simp only [closeFd, Function.update_of_ne hfd]
          exact hsole.isOpen d hd
        · exact hsole.inj d d' (howns d hd).1 (howns d' hd').1
        · obtain ⟨hn, hne⟩ := hsole.hand n hn
          simp only [closeFd, Function.update_of_ne (hne (.conn k) hsome).symm]
          exact ⟨hn, fun d hd => hne d (howns d hd).1⟩
      due := fun _ => rfl
      stays := fun l => { stays_refl (w.loops l) with }
      held := fun k' hran hk' => by
        have hne : k' ≠ k := fun h => useCount_ne_zero_of_ran (h ▸ hran) hzero
        exact (congrArg Option.isSome (hconn k' hne)).trans hk' }

/-- A connection that is still open after a release has as many pointers as before. -/
theorem open_of_release {k' : ConnId} (h : (w.release c k).Open k') :
    w.Open k' ∧ (w.release c k).useCount c k' = w.useCount c k' := by
  rcases release_eq (c := c) w k with heq | ⟨-, -, heq⟩
  · rw [heq] at h ⊢
    exact ⟨h, rfl⟩
  · rw [heq] at h ⊢
    have hne : k' ≠ k := by
      rintro rfl
      obtain ⟨conn, hmem, -⟩ := h
      simp [closeFd] at hmem
    have hconn : Function.update w.conn k none k' = w.conn k' := Function.update_of_ne hne ..
    refine ⟨?_, ?_⟩
    · obtain ⟨conn, hmem, hopen⟩ := h
      exact ⟨conn, hconn.symm.trans hmem, hopen⟩
    · rw [useCount, useCount]
      simp only [closeFd, hconn]
      rfl

theorem steady_releaseAll {ks : List ConnId} (hopen : ∀ k ∈ ks, w.Open k → w.useCount c k ≠ 0) :
    Steady c hand hand w (w.releaseAll c ks) := by
  induction ks generalizing w with
  | nil => exact steady_refl w
  | cons k ks ih =>
    refine (steady_release (hopen k List.mem_cons_self)).trans (ih fun k' hk' h => ?_)
    obtain ⟨hbefore, hcount⟩ := open_of_release h
    rw [hcount]
    exact hopen k' (List.mem_cons_of_mem k hk') hbefore

/-! ### Connectors -/

/-- A connector begins to wait on a channel that has been constructed. -/
theorem steady_wait {n : ℕ} {client : Client} {connector_ : Connector} {u : Channel.Update}
    (hclient : w.client j = some client) (hnone : client.connector_.channel_ = none)
    (hsome : connector_.channel_ = some n)
    (hok : (w.setConnector j client connector_).update c u (.connector j n) = .ok w') :
    Steady c (some (w.fd (.connector j n))) none w w' := by
  have h := enters_of_update hok
  have hother : ∀ j', j' ≠ j → w'.client j' = w.client j' := by
    intro j' hj'
    rw [h.client]
    exact client_setClient_of_ne w hj' _
  have hself : w'.client j = some { client with connector_ } := by
    rw [h.client]
    exact client_setClient_self w j _
  have hknown : ∀ d, w'.Known c d ↔ w.Known c d ∨ d = .connector j n := fun _ => h.known_iff
  have howns : ∀ d, w'.Owns c d → w.Owns c d ∨ d = .connector j n := by
    intro d hd
    cases d with
    | wakeup | timerQueue => exact .inl hd
    | acceptor => exact .inl ((congrArg Option.isSome h.server).symm.trans hd)
    | connector => exact (hknown _).mp hd
    | conn k => exact .inl ((congrArg Option.isSome (congrFun h.conn k)).symm.trans hd)
  have hentitled : ∀ d, w.Entitled d → w'.Entitled d := by
    intro d hd
    cases d with
    | wakeup | timerQueue => trivial
    | acceptor => rw [Entitled, h.server]; exact hd
    | connector j' n' =>
      obtain ⟨client', hclient', hchannel⟩ := hd
      have hj' : j' ≠ j := by
        rintro rfl
        obtain rfl := Option.some.inj (hclient.symm.trans hclient')
        rw [hnone] at hchannel
        cases hchannel
      exact ⟨client', (hother j' hj').trans hclient', hchannel⟩
    | conn => rw [Entitled, Open, h.conn]; exact hd
  exact {
    entitled := hentitled
    known := fun d hd => (hknown d).mpr (.inl hd)
    new := fun d hd => ((hknown d).mp hd).imp_right fun heq => by
      rw [heq]
      exact ⟨_, hself, hsome⟩
    placed := fun hplaced => h.placed hplaced
    indexed := fun hindexed => h.indexed hindexed
    linked := fun hlinked j' client' hclient' k hk => by
      by_cases hj' : j' = j
      · subst hj'
        obtain rfl := Option.some.inj (hself.symm.trans hclient')
        exact hlinked j' client hclient k hk
      · rw [hother j' hj'] at hclient'
        exact hlinked j' client' hclient' k hk
    waiting := fun j' n' hent hwait => by
      have hj' : j' ≠ j := by
        rintro rfl
        obtain ⟨client', hclient', hchannel⟩ := hent
        obtain rfl := Option.some.inj (hclient.symm.trans hclient')
        rw [hnone] at hchannel
        cases hchannel
      rwa [Waiting, hother j' hj'] at hwait
    fresh := fun hfresh => by
      refine h.fresh_iff.mpr ⟨hfresh.server, fun j' n' hn' client' hclient' => ?_⟩
      by_cases hj' : j' = j
      · subst hj'
        obtain rfl := Option.some.inj ((client_setClient_self w j' _).symm.trans hclient')
        exact hfresh.client j' n' hn' client hclient
      · rw [setConnector, client_setClient_of_ne w hj'] at hclient'
        exact hfresh.client j' n' hn' client' hclient'
    sole := fun hsole => by
      have hfd := hsole.hand _ rfl
      refine ⟨fun d hd => ?_, fun d d' hd hd' heq => ?_, fun n hn => by cases hn⟩
      · rw [h.isOpen, h.fd]
        rcases howns d hd with hd | rfl
        · exact hsole.isOpen d hd
        · exact hfd.1
      · rw [h.fd] at heq
        rcases howns d hd with hd | rfl <;> rcases howns d' hd' with hd' | rfl
        · exact hsole.inj d d' hd hd' heq
        · exact absurd heq (hfd.2 d hd)
        · exact absurd heq.symm (hfd.2 d' hd')
        · rfl
    due := fun j' => by
      by_cases hj' : j' = j
      · subst hj'
        rw [due_of_none hclient hnone, due_of_some hself hsome]
        exact if_pos ((hknown _).mpr (.inr rfl))
      · refine due_congr (hother j' hj') fun n' => (hknown _).trans (or_iff_left fun heq => hj' ?_)
        exact (ChannelId.connector.inj heq).1
    stays := h.stays
    held := fun k _ hk => (congrArg Option.isSome (congrFun h.conn k)).trans hk }

end World

end Reactor

end MuduoRebuild
