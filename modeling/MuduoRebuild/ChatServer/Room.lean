import MuduoRebuild.ChatServer.Broadcast
import MuduoRebuild.Codec.Lossless

/-!
# From one client to the others

A client writes frames into its connection, the server decodes what it reads, and every client
decodes what the server has sent to it. Nothing on the way depends on how the bytes are cut: the
messages that are decoded of a connection are those of the bytes that have been read from it, and a
client that has received some of the bytes that were sent to it has a beginning of the messages that
were addressed to it (`conversation`).

The proof goes through what the functions of the server do to the buffers. `Passes` says which
messages a part of a run decodes; apart from that, an input buffer is left alone, and what is sent
to a connection and not yet written is at the end of its output buffer.
-/

namespace MuduoRebuild

namespace ChatServer

open Fallible
open TcpConnection (StateE)
open LengthHeaderCodec (frame onChunks)
open Multicast (Post heard)

/-- The message, if it was decoded of the connection `k`. -/
def Event.decodedFrom? (k : ℕ) : Event → Option (List UInt8)
  | decoded sender message _ => if sender = k then some message else none
  | sent .. | shutdownWrite _ => none

namespace World

variable {c : Setup} {w w' w'' : World} {j k : ℕ} {message : List UInt8} {l : Label}
  {ms ns : ℕ → List (List UInt8)}

/-- The messages that were decoded of a connection. -/
def decoded (w : World) (k : ℕ) : List (List UInt8) := w.log.filterMap (Event.decodedFrom? k)

/-- The bytes that a step reads from a connection. -/
def readsFrom (w : World) (k : ℕ) : Label → List UInt8
  | .runTask bytes =>
    match w.work with
    | (j, .read) :: _ => if j = k then bytes.getD [] else []
    | _ => []
  | .accept .. | .handleEvent .. | .runFunctor => []

/-- The bytes that a run reads from a connection. -/
def inbound (c : Setup) (k : ℕ) (ls : List Label) : List UInt8 :=
  Machine.emitted (step c) (fun w l => w.readsFrom k l) init ls

/-- Everything in the server is about connections that have been made. -/
structure Known (w : World) : Prop where
  work : ∀ p ∈ w.work, p.1 < w.made
  pendingFunctors : ∀ k ∈ w.pendingFunctors, k < w.made
  connections : ∀ k ∈ w.connections, k < w.made
  channels : ∀ n k, w.loop.poller.channels n = some k → k < w.made

/-- What is in an output buffer is the end of what was sent. -/
def Backed (w : World) : Prop := ∀ k, (w.conn k).outputBuffer <:+ (w.received k).flatten

/-- A part of a run decodes these messages of each connection, and reads nothing. -/
structure Passes (w w' : World) (ms : ℕ → List (List UInt8)) : Prop where
  made_eq : w'.made = w.made
  inputBuffer_eq : ∀ k, (w'.conn k).inputBuffer = (w.conn k).inputBuffer
  decoded_eq : ∀ k, w'.decoded k = w.decoded k ++ ms k
  known : Known w → Known w'
  backed : Backed w → Backed w'

/-- A part of a run decodes nothing. -/
abbrev Quiet (w w' : World) : Prop := Passes w w' fun _ => []

theorem Passes.trans (h : Passes w w' ms) (h' : Passes w' w'' ns) :
    Passes w w'' fun k => ms k ++ ns k where
  made_eq := h'.made_eq.trans h.made_eq
  inputBuffer_eq := fun k => (h'.inputBuffer_eq k).trans (h.inputBuffer_eq k)
  decoded_eq := fun k => by rw [h'.decoded_eq, h.decoded_eq, List.append_assoc]
  known := fun hknown => h'.known (h.known hknown)
  backed := fun hbacked => h'.backed (h.backed hbacked)

theorem Quiet.trans (h : Quiet w w') (h' : Quiet w' w'') : Quiet w w'' := Passes.trans h h'

theorem Passes.congr (h : Passes w w' ms) (hms : ∀ k, ms k = ns k) : Passes w w' ns :=
  (funext hms : ms = ns) ▸ h

/-- Nothing is decoded, sent or written. -/
theorem quiet_of_log_eq (hmade : w'.made = w.made) (hlog : w'.log = w.log)
    (hin : ∀ k, (w'.conn k).inputBuffer = (w.conn k).inputBuffer)
    (hout : ∀ k, (w'.conn k).outputBuffer = (w.conn k).outputBuffer)
    (hknown : Known w → Known w') : Quiet w w' where
  made_eq := hmade
  inputBuffer_eq := hin
  decoded_eq := fun k => by rw [decoded, hlog, List.append_nil, decoded]
  known := hknown
  backed := fun h k => by
    rw [hout, received, hlog]
    exact h k

theorem quiet_refl (w : World) : Quiet w w :=
  quiet_of_log_eq rfl rfl (fun _ => rfl) (fun _ => rfl) id

theorem conn_modify (w : World) (k : ℕ) (f : Conn → Conn) (j : ℕ) :
    (w.modify k f).conn j = if j = k then f (w.conn k) else w.conn j := Function.update_apply ..

theorem decoded_record (w : World) (e : Event) (k : ℕ) :
    (w.record e).decoded k = w.decoded k ++ (e.decodedFrom? k).toList := by
  rw [decoded, record, List.filterMap_append]
  cases h : e.decodedFrom? k <;> simp [decoded, h]

/-- What is known of a world is known of another one with nothing new. -/
theorem Known.of_eq (h : Known w) (hmade : w'.made = w.made) (hwork : w'.work = w.work)
    (hpending : w'.pendingFunctors = w.pendingFunctors)
    (hconnections : w'.connections = w.connections)
    (hchannels : w'.loop.poller.channels = w.loop.poller.channels) : Known w' where
  work := by
    rw [hmade, hwork]
    exact h.work
  pendingFunctors := by
    rw [hmade, hpending]
    exact h.pendingFunctors
  connections := by
    rw [hmade, hconnections]
    exact h.connections
  channels := by
    rw [hmade, hchannels]
    exact h.channels

/-! ### States, channels and the set of clients -/

/-- A function sets the state of a connection. -/
theorem quiet_setState (w : World) (k : ℕ) (s : StateE) :
    Quiet w (w.modify k fun conn => { conn with state := s }) := by
  refine quiet_of_log_eq rfl rfl (fun i => ?_) (fun i => ?_)
    fun h => h.of_eq rfl rfl rfl rfl rfl
  · rw [conn_modify]
    split_ifs with hi
    · rw [hi]
    · rfl
  · rw [conn_modify]
    split_ifs with hi
    · rw [hi]
    · rfl

/-- The poller learns of no channel but that of the connection. -/
theorem quiet_withLoop {loop : Loop (EpollPoller ℕ) ℕ} (hk : k < w.made)
    (hchannels : ∀ n i, loop.poller.channels n = some i →
      w.loop.poller.channels n = some i ∨ i = k) : Quiet w { w with loop } := by
  refine quiet_of_log_eq rfl rfl (fun _ => rfl) (fun _ => rfl) fun h => ?_
  refine ⟨h.work, h.pendingFunctors, h.connections, fun n i hi => ?_⟩
  rcases hchannels n i hi with hold | rfl
  · exact h.channels n i hold
  · exact hk

theorem quiet_update {u : Channel.Update} (hk : k < w.made) (h : w.update k u = .ok w') :
    Quiet w w' := by
  obtain ⟨loop, hperform, hok⟩ := bind_eq_ok.mp h
  obtain rfl := Except.ok.inj hok
  obtain ⟨-, hchannels, -⟩ := EpollPoller.of_perform_update hperform
  refine quiet_withLoop hk fun n i hi => ?_
  rw [hchannels, Function.update_apply] at hi
  split_ifs at hi
  · exact .inr (Option.some.inj hi).symm
  · exact .inl hi

theorem quiet_removeChannel (hk : k < w.made) (h : w.removeChannel k = .ok w') : Quiet w w' := by
  obtain ⟨loop, hperform, hok⟩ := bind_eq_ok.mp h
  obtain rfl := Except.ok.inj hok
  obtain ⟨-, -, hchannels, -⟩ := EpollPoller.of_perform_remove hperform
  refine quiet_withLoop hk fun n i hi => ?_
  rw [hchannels, Function.update_apply] at hi
  split_ifs at hi
  exact .inl hi

theorem quiet_onConnection (hk : k < w.made) (place : ℕ) : Quiet w (w.onConnection k place) := by
  rw [onConnection]
  split_ifs
  · exact quiet_refl w
  · refine quiet_of_log_eq rfl rfl (fun _ => rfl) (fun _ => rfl) fun h =>
      ⟨h.work, h.pendingFunctors, fun i hi => ?_, h.channels⟩
    rcases List.mem_append.mp hi with hi | hi
    · exact h.connections i (List.mem_of_mem_take hi)
    · rcases List.mem_cons.mp hi with rfl | hi
      · exact hk
      · exact h.connections i (List.mem_of_mem_drop hi)
  · exact quiet_of_log_eq rfl rfl (fun _ => rfl) (fun _ => rfl) fun h =>
      ⟨h.work, h.pendingFunctors, fun i hi => h.connections i (List.mem_of_mem_erase hi),
        h.channels⟩

theorem quiet_shutdownInLoop : Quiet w (w.shutdownInLoop k) := by
  rw [shutdownInLoop]
  split_ifs
  · exact quiet_refl w
  · refine ⟨rfl, fun _ => rfl, fun i => decoded_record w _ i, fun h => h.of_eq rfl rfl rfl rfl rfl,
      fun h i => ?_⟩
    rw [received_record, Event.sentTo?, Option.toList_none, List.append_nil]
    exact h i

theorem quiet_shutdown : Quiet w (w.shutdown k) := by
  rw [shutdown]
  split_ifs
  · exact (quiet_setState w k _).trans quiet_shutdownInLoop
  · exact quiet_refl w

theorem quiet_removeConnectionInLoop (hk : k < w.made)
    (h : w.removeConnectionInLoop k = .ok w') : Quiet w w' := by
  obtain ⟨-, -, h⟩ := bind_eq_ok.mp h
  obtain rfl := Except.ok.inj h
  refine quiet_of_log_eq rfl rfl (fun _ => rfl) (fun _ => rfl) fun h =>
    ⟨h.work, fun i hi => ?_, h.connections, h.channels⟩
  rcases List.mem_append.mp hi with hi | hi
  · exact h.pendingFunctors i hi
  · rw [List.mem_singleton.mp hi]
    exact hk

theorem quiet_handleClose (hk : k < w.made) (h : w.handleClose k = .ok w') : Quiet w w' := by
  obtain ⟨-, -, h⟩ := bind_eq_ok.mp h
  obtain ⟨v, hupdate, h⟩ := bind_eq_ok.mp h
  have hquiet : Quiet w v := quiet_update hk hupdate
  exact hquiet.trans (quiet_removeConnectionInLoop (hquiet.made_eq ▸ hk) h)

theorem quiet_connEstablished {place : ℕ} (hk : k < w.made)
    (h : w.connEstablished k place = .ok w') : Quiet w w' := by
  obtain ⟨-, -, h⟩ := bind_eq_ok.mp h
  obtain ⟨v, hupdate, h⟩ := bind_eq_ok.mp h
  obtain rfl := Except.ok.inj h
  have hquiet : Quiet w v :=
    (quiet_setState w k _).trans (quiet_update hk hupdate)
  exact hquiet.trans (quiet_onConnection (hquiet.made_eq ▸ hk) place)

theorem quiet_connDestroyed (hk : k < w.made) (h : w.connDestroyed k = .ok w') : Quiet w w' := by
  obtain ⟨-, -, h⟩ := bind_eq_ok.mp h
  obtain ⟨v, hupdate, h⟩ := bind_eq_ok.mp h
  have hquiet : Quiet w v :=
    (quiet_setState w k _).trans (quiet_update hk hupdate)
  have hdown : Quiet w (v.onConnection k 0) :=
    hquiet.trans (quiet_onConnection (hquiet.made_eq ▸ hk) 0)
  exact hdown.trans (quiet_removeChannel (hdown.made_eq ▸ hk) h)

/-! ### Sending -/

/-- What `sendInLoop` cannot write goes to the end of the output buffer. -/
theorem append_drop_suffix {old all : List UInt8} {n : ℕ} (h : old <:+ all)
    (hn : n = 0 ∨ old = []) : old ++ message.drop n <:+ all ++ message := by
  rcases hn with rfl | rfl
  · obtain ⟨front, rfl⟩ := h
    exact ⟨front, by rw [List.drop_zero, List.append_assoc]⟩
  · rw [List.nil_append]
    exact (List.drop_suffix n message).trans (List.suffix_append all message)

/-- `sendInLoop` appends the rest of the message to the output buffer, after whatever it has
written. -/
theorem sendDirectly_spec (w : World) (message : List UInt8) :
    ∃ writes, (w.sendDirectly c k message).1 = { w with writes } ∧
      ((w.sendDirectly c k message).2 = 0 ∨ (w.conn k).outputBuffer = []) := by
  rw [sendDirectly]
  split_ifs with h
  · exact ⟨w.writes + 1, rfl, .inr (List.eq_nil_of_length_eq_zero h.2)⟩
  · exact ⟨w.writes, rfl, .inl rfl⟩

theorem quiet_sent {n : ℕ} (hmade : w'.made = w.made)
    (hin : ∀ i, (w'.conn i).inputBuffer = (w.conn i).inputBuffer)
    (hout : ∀ i, i ≠ k → (w'.conn i).outputBuffer = (w.conn i).outputBuffer)
    (hself : (w'.conn k).outputBuffer = (w.conn k).outputBuffer ++ message.drop n)
    (hn : n = 0 ∨ (w.conn k).outputBuffer = [])
    (hlog : w'.log = (w.record (.sent k message)).log) (hknown : Known w → Known w') :
    Quiet w w' where
  made_eq := hmade
  inputBuffer_eq := hin
  decoded_eq := fun i => by
    rw [decoded, hlog]
    exact decoded_record w _ i
  known := hknown
  backed := fun h i => by
    have hreceived : w'.received i =
        w.received i ++ (Event.sentTo? i (.sent k message)).toList := by
      rw [received, hlog]
      exact received_record w _ i
    rw [hreceived, Event.sentTo?]
    by_cases hi : i = k
    · rw [if_pos hi.symm, hi, hself, List.flatten_append, Option.toList_some,
        List.flatten_singleton]
      exact append_drop_suffix (h k) hn
    · rw [if_neg fun heq => hi heq.symm, hout i hi, Option.toList_none, List.append_nil]
      exact h i

theorem quiet_sendInLoop (hk : k < w.made) (h : w.sendInLoop c k message = .ok w') :
    Quiet w w' := by
  obtain ⟨writes, hdirect, hn⟩ :=
    sendDirectly_spec (c := c) (k := k) (w.record (.sent k message)) message
  simp only [sendInLoop, buffer] at h
  rw [hdirect] at h
  generalize ((w.record (.sent k message)).sendDirectly c k message).2 = n at h hn
  set v : World := { w.record (.sent k message) with writes }
  have hpushed : Quiet w (v.modify k fun conn =>
      { conn with outputBuffer := conn.outputBuffer ++ message.drop n }) := by
    refine quiet_sent rfl (fun i => ?_) (fun i hi => ?_) ?_ hn rfl
      fun h => h.of_eq rfl rfl rfl rfl rfl
    · rw [conn_modify]
      split_ifs with hi
      · rw [hi]
        rfl
      · rfl
    · rw [conn_modify, if_neg hi]
      rfl
    · rw [conn_modify, if_pos rfl]
      rfl
  split_ifs at h with hlt hwriting
  · obtain rfl := Except.ok.inj h
    exact hpushed
  · exact hpushed.trans (quiet_update hk h)
  · -- everything has been written
    obtain rfl := Except.ok.inj h
    refine quiet_sent rfl (fun _ => rfl) (fun _ _ => rfl) ?_ hn rfl
      fun h => h.of_eq rfl rfl rfl rfl rfl
    rw [List.drop_eq_nil_of_le (Nat.le_of_not_lt hlt), List.append_nil]
    rfl

theorem quiet_codecSend (hk : k < w.made) (h : w.codecSend c k message = .ok w') :
    Quiet w w' := by
  obtain ⟨content, -, hsend⟩ := bind_eq_ok.mp h
  rw [World.send] at hsend
  split_ifs at hsend
  · exact quiet_sendInLoop hk hsend
  · obtain rfl := Except.ok.inj hsend
    exact quiet_refl w

theorem quiet_foldlM_codecSend {members : List ℕ} (hmembers : ∀ j ∈ members, j < w.made)
    (h : members.foldlM (fun w j => w.codecSend c j message) w = .ok w') : Quiet w w' := by
  induction members generalizing w with
  | nil =>
    obtain rfl := Except.ok.inj h
    exact quiet_refl w
  | cons j members ih =>
    rw [List.forall_mem_cons] at hmembers
    obtain ⟨v, hfirst, hrest⟩ := bind_eq_ok.mp h
    have hquiet : Quiet w v := quiet_codecSend hmembers.1 hfirst
    exact hquiet.trans (ih (hquiet.made_eq ▸ hmembers.2) hrest)

/-! ### Decoding -/

/-- A message is decoded. -/
theorem passes_record (w : World) (k : ℕ) (message : List UInt8) (clients : List ℕ) :
    Passes w (w.record (.decoded k message clients)) fun i => if i = k then [message] else [] where
  made_eq := rfl
  inputBuffer_eq := fun _ => rfl
  decoded_eq := fun i => by
    rw [decoded_record, Event.decodedFrom?]
    by_cases hi : i = k
    · rw [if_pos hi.symm, if_pos hi, Option.toList_some]
    · rw [if_neg fun heq => hi heq.symm, if_neg hi, Option.toList_none]
  known := fun h => h.of_eq rfl rfl rfl rfl rfl
  backed := fun h i => by
    rw [received_record, Event.sentTo?, Option.toList_none, List.append_nil]
    exact h i

theorem passes_onStringMessage (hknown : Known w) (h : w.onStringMessage c k message = .ok w') :
    Passes w w' fun i => if i = k then [message] else [] := by
  have hquiet : Quiet (w.record (.decoded k message w.clients)) w' :=
    quiet_foldlM_codecSend hknown.connections h
  exact ((passes_record w k message w.clients).trans hquiet).congr fun _ => List.append_nil _

theorem passes_foldlM_onStringMessage {messages : List (List UInt8)} (hknown : Known w)
    (h : messages.foldlM (fun w message => w.onStringMessage c k message) w = .ok w') :
    Passes w w' fun i => if i = k then messages else [] := by
  induction messages generalizing w with
  | nil =>
    obtain rfl := Except.ok.inj h
    exact (quiet_refl w).congr fun _ => (ite_self _).symm
  | cons message messages ih =>
    obtain ⟨v, hfirst, hrest⟩ := bind_eq_ok.mp h
    have hpasses := passes_onStringMessage hknown hfirst
    refine (hpasses.trans (ih (hpasses.known hknown) hrest)).congr fun i => ?_
    split_ifs <;> rfl

/-- What `onMessage` of a connection does: the messages are decoded, and the rest stays in the input
buffer. -/
structure Delivers (k : ℕ) (parsed : Framing.Parsed UInt8 (List UInt8)) (w w' : World) : Prop where
  made_eq : w'.made = w.made
  self : (w'.conn k).inputBuffer = parsed.rest ∧ w'.decoded k = w.decoded k ++ parsed.items
  other : ∀ i, i ≠ k →
    (w'.conn i).inputBuffer = (w.conn i).inputBuffer ∧ w'.decoded i = w.decoded i
  known : Known w'
  backed : Backed w → Backed w'

theorem delivers_deliver {parsed : Framing.Parsed UInt8 (List UInt8)} (hknown : Known w)
    (h : w.deliver c k parsed = .ok w') : Delivers k parsed w w' := by
  obtain ⟨v, hfold, hok⟩ := bind_eq_ok.mp h
  have hpasses := passes_foldlM_onStringMessage hknown hfold
  obtain rfl := Except.ok.inj hok
  set u : World := v.modify k fun conn => { conn with inputBuffer := parsed.rest } with hu
  have hlast : Quiet u (if parsed.stopped then u.shutdown k else u) := by
    split_ifs
    · exact quiet_shutdown
    · exact quiet_refl u
  have hin : ∀ i, (u.conn i).inputBuffer =
      if i = k then parsed.rest else (v.conn i).inputBuffer := by
    intro i
    rw [hu, conn_modify]
    split_ifs <;> rfl
  have hout : ∀ i, (u.conn i).outputBuffer = (v.conn i).outputBuffer := by
    intro i
    rw [hu, conn_modify]
    split_ifs with hi
    · rw [hi]
    · rfl
  have hdecoded : ∀ i, World.decoded (if parsed.stopped then u.shutdown k else u) i =
      w.decoded i ++ if i = k then parsed.items else [] := by
    intro i
    rw [hlast.decoded_eq, List.append_nil]
    exact hpasses.decoded_eq i
  refine ⟨hlast.made_eq.trans hpasses.made_eq, ⟨?_, ?_⟩, fun i hi => ⟨?_, ?_⟩, ?_, fun h => ?_⟩
  · rw [hlast.inputBuffer_eq, hin, if_pos rfl]
  · rw [hdecoded, if_pos rfl]
  · rw [hlast.inputBuffer_eq, hin, if_neg hi, hpasses.inputBuffer_eq]
  · rw [hdecoded, if_neg hi, List.append_nil]
  · exact hlast.known ((hpasses.known hknown).of_eq rfl rfl rfl rfl rfl)
  · refine hlast.backed fun i => ?_
    rw [hout]
    exact hpasses.backed h i

/-! ### Reading and writing -/

theorem quiet_written {n : ℕ} (hk : k < w.made) (h : w.written k n = .ok w') : Quiet w w' := by
  have hdrop : Quiet w (w.modify k fun conn =>
      { conn with outputBuffer := conn.outputBuffer.drop n }) := by
    refine ⟨rfl, fun i => ?_, fun i => (List.append_nil _).symm,
      fun h => h.of_eq rfl rfl rfl rfl rfl, fun h i => ?_⟩
    · rw [conn_modify]
      split_ifs with hi
      · rw [hi]
      · rfl
    · rw [conn_modify]
      split_ifs with hi
      · rw [hi]
        exact (List.drop_suffix n _).trans (h k)
      · exact h i
  simp only [written] at h
  split_ifs at h
  · obtain ⟨v, hupdate, hok⟩ := bind_eq_ok.mp h
    have hquiet : Quiet w v := hdrop.trans (quiet_update hk hupdate)
    obtain rfl := Except.ok.inj hok
    split_ifs
    · exact hquiet.trans quiet_shutdownInLoop
    · exact hquiet
  · obtain rfl := Except.ok.inj h
    exact hdrop

theorem quiet_handleWrite (hk : k < w.made) (h : w.handleWrite c k = .ok w') : Quiet w w' := by
  have hwrite : Quiet w (w.write c (w.conn k).outputBuffer).1 :=
    quiet_of_log_eq rfl rfl (fun _ => rfl) (fun _ => rfl) fun h => h.of_eq rfl rfl rfl rfl rfl
  rw [handleWrite] at h
  split_ifs at h
  · generalize w.write c (w.conn k).outputBuffer = p at h hwrite
    obtain ⟨v, _ | _ | n⟩ := p
    · obtain rfl := Except.ok.inj h
      exact hwrite
    · obtain rfl := Except.ok.inj h
      exact hwrite
    · exact hwrite.trans (quiet_written (hwrite.made_eq ▸ hk) h)
  · obtain rfl := Except.ok.inj h
    exact quiet_refl w

/-! ### Steps -/

/-- What has been decoded of the connection `k` is what there is in the bytes that have been read
from it. -/
structure Reads (k : ℕ) (w : World) (bytes : List UInt8) : Prop where
  known : Known w
  backed : Backed w
  decoded_eq : w.decoded k = (LengthHeaderCodec.onMessage bytes).items
  inputBuffer_eq : k < w.made →
    (w.conn k).inputBuffer = (LengthHeaderCodec.onMessage bytes).rest
  unmade : w.made ≤ k → bytes = []

variable {bytes : List UInt8}

theorem onMessage_nil : LengthHeaderCodec.onMessage [] = ⟨[], false, []⟩ :=
  LengthHeaderCodec.onMessage_frames (List.forall_mem_nil _)

theorem reads_init (k : ℕ) : Reads k init [] := by
  refine ⟨⟨nofun, nofun, nofun, nofun⟩, fun _ => List.nil_suffix, ?_, fun hk => ?_, fun _ => rfl⟩
  · rw [onMessage_nil]
    rfl
  · exact absurd hk (Nat.not_lt_zero k)

theorem Reads.quiet (h : Reads k w bytes) (hquiet : Quiet w w') : Reads k w' bytes where
  known := hquiet.known h.known
  backed := hquiet.backed h.backed
  decoded_eq := by rw [hquiet.decoded_eq, List.append_nil, h.decoded_eq]
  inputBuffer_eq := fun hk => by
    rw [hquiet.inputBuffer_eq, h.inputBuffer_eq (hquiet.made_eq ▸ hk)]
  unmade := fun hk => h.unmade (hquiet.made_eq ▸ hk)

/-- A connection is made, and its buffers are empty. -/
theorem Reads.newConnection (h : Reads k w bytes) {sockfd place : ℕ}
    (hok : w.newConnection sockfd place = .ok w') : Reads k w' bytes := by
  set v : World := { w with
    made := w.made + 1
    conn := Function.update w.conn w.made ⟨sockfd, .kConnecting, [], []⟩
    entered := Function.update w.entered w.made true } with hv
  have hconn : ∀ i, v.conn i = if i = w.made then ⟨sockfd, .kConnecting, [], []⟩ else w.conn i :=
    fun i => Function.update_apply ..
  have hreads : Reads k v bytes := by
    refine ⟨⟨fun p hp => ?_, fun i hi => ?_, fun i hi => ?_, fun n i hi => ?_⟩, fun i => ?_,
      h.decoded_eq, fun hk => ?_, fun hk => h.unmade (Nat.le_of_succ_le hk)⟩
    · exact Nat.lt_succ_of_lt (h.known.work p hp)
    · exact Nat.lt_succ_of_lt (h.known.pendingFunctors i hi)
    · exact Nat.lt_succ_of_lt (h.known.connections i hi)
    · exact Nat.lt_succ_of_lt (h.known.channels n i hi)
    · rw [hconn]
      split_ifs
      · exact List.nil_suffix
      · exact h.backed i
    · rw [hconn]
      split_ifs with hnew
      · rw [h.unmade hnew.ge, onMessage_nil]
      · exact h.inputBuffer_eq (Nat.lt_of_le_of_ne (Nat.le_of_lt_succ hk) hnew)
  exact hreads.quiet (quiet_connEstablished (w := v) (Nat.lt_succ_self w.made) hok)

/-- A chunk arrives, and the messages that it completes are decoded. -/
theorem Reads.delivers (h : Reads k w bytes) {chunk : List UInt8}
    (hdelivers : Delivers j (LengthHeaderCodec.onMessage ((w.conn j).inputBuffer ++ chunk)) w w')
    (hj : j < w.made) : Reads k w' (bytes ++ if j = k then chunk else []) := by
  by_cases hjk : j = k
  · subst hjk
    have hparse : LengthHeaderCodec.onMessage (bytes ++ chunk) =
        (LengthHeaderCodec.onMessage ((w.conn j).inputBuffer ++ chunk)).after
          (LengthHeaderCodec.onMessage bytes).items := by
      rw [h.inputBuffer_eq hj]
      exact Framing.Reader.parse_append bytes chunk
    rw [if_pos rfl]
    refine ⟨hdelivers.known, hdelivers.backed h.backed, ?_, fun _ => ?_, fun hle => ?_⟩
    · rw [hdelivers.self.2, h.decoded_eq, hparse]
      rfl
    · rw [hdelivers.self.1, hparse]
      rfl
    · exact absurd hj (Nat.not_lt.mpr (hdelivers.made_eq ▸ hle))
  · obtain ⟨hin, hdecoded⟩ := hdelivers.other k (Ne.symm hjk)
    rw [if_neg hjk, List.append_nil]
    refine ⟨hdelivers.known, hdelivers.backed h.backed, hdecoded.trans h.decoded_eq, fun hk => ?_,
      fun hle => h.unmade (hdelivers.made_eq ▸ hle)⟩
    rw [hin, h.inputBuffer_eq (hdelivers.made_eq ▸ hk)]

theorem Reads.handleRead (h : Reads k w bytes) (hj : j < w.made)
    {chunk : Option (List UInt8)} (hok : w.handleRead c j chunk = .ok w') :
    Reads k w' (bytes ++ if j = k then chunk.getD [] else []) := by
  match chunk, hok with
  | none, hok =>
    obtain rfl := Except.ok.inj hok
    rw [Option.getD_none, ite_self, List.append_nil]
    exact h
  | some [], hok =>
    rw [Option.getD_some, ite_self, List.append_nil]
    exact h.quiet (quiet_handleClose hj hok)
  | some (b :: bs), hok =>
    set v := w.modify j fun conn => { conn with inputBuffer := conn.inputBuffer ++ b :: bs } with hv
    have hself : (v.conn j).inputBuffer = (w.conn j).inputBuffer ++ b :: bs := by
      rw [hv, conn_modify, if_pos rfl]
    have hdeliver : v.deliver c j (LengthHeaderCodec.onMessage (v.conn j).inputBuffer) = .ok w' :=
      hok
    rw [hself] at hdeliver
    have hknown : Known v := h.known.of_eq rfl rfl rfl rfl rfl
    have hdelivers := delivers_deliver hknown hdeliver
    refine h.delivers ⟨hdelivers.made_eq, hdelivers.self, fun i hi => ?_, hdelivers.known, fun hb =>
      hdelivers.backed fun i => ?_⟩ hj
    · obtain ⟨hin, hdecoded⟩ := hdelivers.other i hi
      refine ⟨hin.trans ?_, hdecoded⟩
      rw [hv, conn_modify, if_neg hi]
    · rw [hv, conn_modify]
      split_ifs with hi
      · rw [hi]
        exact hb j
      · exact hb i

theorem readsFrom_runTask {callback : Channel.Callback} {work : List (ℕ × Channel.Callback)}
    (hwork : w.work = (j, callback) :: work) (chunk : Option (List UInt8)) :
    w.readsFrom k (.runTask chunk) =
      if callback = .read ∧ j = k then chunk.getD [] else [] := by
  simp only [readsFrom, hwork]
  cases callback <;> simp

theorem Reads.runTask (h : Reads k w bytes) {chunk : Option (List UInt8)}
    (hok : w.runTask c chunk = .ok w') : Reads k w' (bytes ++ w.readsFrom k (.runTask chunk)) := by
  rw [World.runTask] at hok
  split at hok
  · next hwork =>
    obtain rfl := Except.ok.inj hok
    have hnone : w.readsFrom k (.runTask chunk) = [] := by
      simp only [readsFrom, hwork]
    rw [hnone, List.append_nil]
    exact h
  · next j callback work hwork =>
    have hj : j < w.made := h.known.work (j, callback) (hwork ▸ List.mem_cons_self)
    have hpop : Quiet w { w with work } := by
      refine quiet_of_log_eq rfl rfl (fun _ => rfl) (fun _ => rfl) fun h =>
        ⟨fun p hp => h.work p ?_, h.pendingFunctors, h.connections, h.channels⟩
      rw [hwork]
      exact List.mem_cons_of_mem _ hp
    rw [readsFrom_runTask hwork]
    cases callback with
    | error =>
      obtain rfl := Except.ok.inj hok
      rw [if_neg (by simp), List.append_nil]
      exact h.quiet hpop
    | close =>
      rw [if_neg (by simp), List.append_nil]
      exact h.quiet (hpop.trans (quiet_handleClose hj hok))
    | read =>
      rw [if_congr (and_iff_right rfl) rfl rfl]
      exact (h.quiet hpop).handleRead hj hok
    | write =>
      rw [if_neg (by simp), List.append_nil]
      exact h.quiet (hpop.trans (quiet_handleWrite hj hok))

theorem Reads.step (h : Reads k w bytes) (hok : w.step c l = .ok w') :
    Reads k w' (bytes ++ w.readsFrom k l) := by
  rw [World.step] at hok
  split_ifs at hok with henabled
  · cases l with
    | accept sockfd place =>
      rw [readsFrom, List.append_nil]
      exact h.newConnection hok
    | handleEvent j revents =>
      obtain rfl := Except.ok.inj hok
      rw [readsFrom, List.append_nil]
      refine h.quiet (quiet_of_log_eq rfl rfl (fun _ => rfl) (fun _ => rfl) fun hknown =>
        ⟨fun p hp => ?_, hknown.pendingFunctors, hknown.connections, hknown.channels⟩)
      obtain ⟨callback, -, rfl⟩ := List.mem_map.mp hp
      exact hknown.channels _ j henabled.2
    | runTask chunk => exact h.runTask hok
    | runFunctor =>
      rw [readsFrom, List.append_nil]
      simp only [act] at hok
      split at hok
      · obtain rfl := Except.ok.inj hok
        exact h
      · next j js hpending =>
        have hj : j < w.made := h.known.pendingFunctors j (hpending ▸ List.mem_cons_self)
        have hpop : Quiet w { w with pendingFunctors := js } := by
          refine quiet_of_log_eq rfl rfl (fun _ => rfl) (fun _ => rfl) fun h =>
            ⟨h.work, fun i hi => h.pendingFunctors i ?_, h.connections, h.channels⟩
          rw [hpending]
          exact List.mem_cons_of_mem _ hi
        exact h.quiet (hpop.trans (quiet_connDestroyed hj hok))
  · obtain rfl := Except.ok.inj hok
    have hnone : w.readsFrom k l = [] := by
      cases l with
      | runTask => exact absurd trivial henabled
      | accept | handleEvent | runFunctor => rfl
    rw [hnone, List.append_nil]
    exact h

/-- Every message that was posted was decoded of some connection. -/
theorem exists_decoded {p : Post ℕ (List UInt8)} (hp : p ∈ w.posts) :
    ∃ j, p.content ∈ w.decoded j := by
  obtain ⟨e, he, hpost⟩ := List.mem_filterMap.mp hp
  cases e with
  | decoded sender message clients =>
    obtain rfl := Option.some.inj hpost
    exact ⟨sender, List.mem_filterMap.mpr ⟨_, he, if_pos rfl⟩⟩
  | sent | shutdownWrite => cases hpost

end World

/-- **From one client to the others.** In every run of a chat server in one loop, the messages that
have been decoded of a connection are those in the bytes that have been read from it, however they
were cut; and what is in an output buffer is the end of what was sent. A client that has received a
beginning of what was sent to it, however that was cut, has got a beginning of the messages that
were addressed to its connection and no invalid length, and all of them when everything has
arrived. -/
theorem conversation (c : Setup) {ls : List World.Label} {w : World}
    (hrun : Machine.run (World.step c) World.init ls = .ok w) (k : ℕ) :
    w.decoded k = (LengthHeaderCodec.onMessage (World.inbound c k ls)).items ∧
      (w.conn k).outputBuffer <:+ (w.received k).flatten ∧
      ∀ chunks : List (List UInt8), chunks.flatten <+: (w.received k).flatten →
        (onChunks chunks).stopped = false ∧ (onChunks chunks).items <+: heard k w.posts ∧
          (chunks.flatten = (w.received k).flatten →
            (onChunks chunks).items = heard k w.posts) := by
  have hreads : ∀ j, World.Reads j w (World.inbound c j ls) := fun j =>
    Machine.invariant_of_run_emitted (World.reads_init j)
      (fun _ _ _ _ h hok => World.Reads.step h hok) hrun
  refine ⟨(hreads k).decoded_eq, (hreads k).backed k, fun chunks hchunks => ?_⟩
  obtain ⟨ps, hextends, -⟩ := World.run_spec List.nodup_nil hrun
  have hreceived : w.received k = (heard k w.posts).map frame := by
    rw [hextends.received_eq, hextends.posts_eq]
    rfl
  have hmax : ∀ message ∈ heard k w.posts, message.length ≤ 65536 := by
    intro message hmem
    obtain ⟨p, hp, rfl⟩ := List.mem_map.mp hmem
    obtain ⟨j, hj⟩ := World.exists_decoded (List.mem_of_mem_filter hp)
    rw [(hreads j).decoded_eq] at hj
    exact LengthHeaderCodec.length_le_of_mem_items hj
  have hparse : onChunks chunks = LengthHeaderCodec.onMessage chunks.flatten :=
    Framing.Reader.feed_eq_parse chunks
  rw [hreceived] at hchunks ⊢
  rw [hparse]
  obtain ⟨hstopped, hprefix⟩ := LengthHeaderCodec.onMessage_of_prefix hmax hchunks
  refine ⟨hstopped, hprefix, fun hall => ?_⟩
  rw [hall, LengthHeaderCodec.onMessage_frames hmax]

/-- The first of two clients says something, and the second one receives it in two pieces. -/
theorem conversation_pair : ∃ w,
    Machine.run (World.step ⟨fun _ => none⟩) World.init
      [.accept 5 0, .accept 6 0, .handleEvent 0 POLLIN,
        .runTask (some [0, 0, 0, 2, 104, 105])] = .ok w ∧
    w.received 1 = [[0, 0, 0, 2, 104, 105]] ∧
    (onChunks [[0, 0], [0, 2, 104, 105]]).items = [[104, 105]] := by
  obtain ⟨v, hrun, u, hstep, w, hdeliver, hreceived, hheard⟩ : ∃ v : World,
      Machine.run (World.step ⟨fun _ => none⟩) World.init
        [.accept 5 0, .accept 6 0, .handleEvent 0 POLLIN] = .ok v ∧
      ∃ u : World, v.step ⟨fun _ => none⟩ (.runTask (some [0, 0, 0, 2, 104, 105])) =
        u.deliver ⟨fun _ => none⟩ 0 (LengthHeaderCodec.onMessage [0, 0, 0, 2, 104, 105]) ∧
      ∃ w, u.deliver ⟨fun _ => none⟩ 0 ⟨[[104, 105]], false, []⟩ = .ok w ∧
        w.received 1 = [[0, 0, 0, 2, 104, 105]] ∧ heard 1 w.posts = [[104, 105]] :=
    ⟨_, rfl, _, rfl, _, (deliver_singleton (by decide)).trans rfl, rfl, rfl⟩
  have hparse : LengthHeaderCodec.onMessage [0, 0, 0, 2, 104, 105] = ⟨[[104, 105]], false, []⟩ :=
    @LengthHeaderCodec.onMessage_frames [[104, 105]] (by decide)
  have hall : Machine.run (World.step ⟨fun _ => none⟩) World.init
      [.accept 5 0, .accept 6 0, .handleEvent 0 POLLIN,
        .runTask (some [0, 0, 0, 2, 104, 105])] = .ok w := by
    refine (Machine.run_append_of_ok hrun [_]).trans (Machine.run_cons_ok ?_)
    rw [hstep, hparse, hdeliver]
  have hflatten : [[0, 0], [0, 2, 104, 105]].flatten = (w.received 1).flatten := by
    rw [hreceived]
    rfl
  obtain ⟨-, -, hclient⟩ := conversation _ hall 1
  refine ⟨w, hall, hreceived, ?_⟩
  rw [← hheard]
  exact (hclient [[0, 0], [0, 2, 104, 105]] ⟨[], (List.append_nil _).trans hflatten⟩).2.2 hflatten

end ChatServer

end MuduoRebuild
