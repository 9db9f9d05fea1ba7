import MuduoRebuild.ChatClient.Basic
import MuduoRebuild.Codec.Transport
import MuduoRebuild.TcpConnection.Course

/-!
# From the terminal to the server

A line that is typed is sent only if `connected_`, `connection_` and `state_` say so, which are read
one after the other while the loop's thread may be closing the connection. Once one of them has said
no, it always will: what is not sent is at the end. So what the server decodes are the first lines
that have been typed, whole and in order, and no line is lost as long as the connection is up
(`lines_arrive`).
-/

namespace MuduoRebuild

namespace ChatClient

open Fallible TcpConnection Mailbox
open LengthHeaderCodec (frame onChunks onMessage)
open TcpConnection.World (Later Proceeds Intact)

namespace Place

/-- The line that has been read and not been written. -/
def line : Place → List (List UInt8)
  | connected line | lock line | testConnection line | send line => [line]
  | getline | sending | unlock | disconnect | disconnecting | returned => []

/-- The terminal's thread has seen `connected_`, and is to write a line. -/
def hasSeen : Place → Bool
  | lock _ | testConnection _ | send _ => true
  | getline | connected _ | sending | unlock | disconnect | disconnecting | returned => false

/-- It is in a call of a member function of the connection. -/
def inCall : Place → Bool
  | sending | disconnecting => true
  | getline | connected _ | lock _ | testConnection _ | send _ | unlock | disconnect
  | returned => false

/-- It reads and writes no more. -/
def hasEnded : Place → Bool
  | disconnect | disconnecting | returned => true
  | getline | connected _ | lock _ | testConnection _ | send _ | sending | unlock => false

end Place

/-- What `send` is given for these lines. -/
def framed (lines : List (List UInt8)) : List (Thread × List UInt8) :=
  lines.map fun line => (.other terminal, frame line)

/-- The lines that have been read are those that were sent, and those that were not: as long as the
connection is up, only the one that is about to be written. -/
inductive Typed (lines : List (List UInt8)) (w : World) : Prop where
  | intro (sent rest : List (List UInt8)) (lines_eq : lines = sent ++ rest ++ w.input)
    (requested_eq : requested w.conn.log = framed sent)
    (rest_eq : w.place.hasEnded = false → ¬w.conn.state.IsPast → rest = w.place.line)

/-- What holds between any two steps of a client. -/
structure Sane (c : Setup) (lines : List (List UInt8)) (w : World) : Prop where
  intact : Intact c w.conn
  calls_eq : w.place.inCall = false → w.conn.calls terminal = []
  connected_eq : w.connected = w.connection
  up : w.connection = true → w.conn.state ≠ .kConnecting
  /-- `connCb_` is called when the connection has been established, and when it is destroyed. -/
  announced : w.announcing = true ∨ .connCb ∈ w.conn.work → w.conn.state ≠ .kConnecting
  /-- A line that is not written because `connection_` is gone would not be sent either. -/
  seen : w.place.hasSeen = true →
    w.conn.state ≠ .kConnecting ∧ (w.connection = false → w.conn.state.IsPast)
  typed : Typed lines w

variable {c : Setup} {lines : List (List UInt8)} {w w' : World}

theorem sane_init (c : Setup) (lines : List (List UInt8)) : Sane c lines (.init lines) where
  intact := TcpConnection.World.intact_init c
  calls_eq := fun _ => rfl
  connected_eq := rfl
  up h := by cases h
  announced h := by rcases h with h | h <;> cases h
  seen h := by cases h
  typed := ⟨[], [], rfl, rfl, fun _ _ => rfl⟩

/-! ### The loop's thread -/

/-- The connection goes on, and the terminal's thread does not. -/
theorem Sane.later (h : Sane c lines w) {conn : TcpConnection.World} (hintact : Intact c conn)
    (hlater : Later w.conn conn) (hcalls : w.place.inCall = false → conn.calls terminal = []) :
    Sane c lines { w with conn } where
  intact := hintact
  calls_eq := hcalls
  connected_eq := h.connected_eq
  up hup := hlater.course.ne_kConnecting (h.up hup)
  announced := by
    rintro (hann | hmem)
    · exact hlater.course.ne_kConnecting (h.announced (.inl hann))
    · rcases hlater.connCb hmem with hmem | hne
      · exact hlater.course.ne_kConnecting (h.announced (.inr hmem))
      · exact hne
  seen hseen := by
    obtain ⟨hne, hpast⟩ := h.seen hseen
    exact ⟨hlater.course.ne_kConnecting hne, fun hdown => hlater.course.isPast (hpast hdown)⟩
  typed := by
    obtain ⟨sent, rest, hlines, hrequested, hrest⟩ := h.typed
    exact ⟨sent, rest, hlines, hlater.requested_eq.trans hrequested, fun hended hpast =>
      hrest hended fun hpast' => hpast (hlater.course.isPast hpast')⟩

theorem Sane.proceeds (h : Sane c lines w) {conn : TcpConnection.World} (hintact : Intact c conn)
    (hstep : Proceeds w.conn conn) : Sane c lines { w with conn } := by
  refine h.later hintact hstep.toLater fun hcall => ?_
  rw [hstep.calls_eq]
  exact h.calls_eq hcall

/-- `connCb_` is called, and `onConnection` is about to run. -/
theorem Sane.announce (h : Sane c lines w) (hmem : .connCb ∈ w.conn.work) :
    Sane c lines { w with announcing := true } := by
  obtain ⟨sent, rest, hlines, hrequested, hrest⟩ := h.typed
  exact { h with
    announced := fun _ => h.announced (.inr hmem)
    typed := ⟨sent, rest, hlines, hrequested, hrest⟩ }

/-- Once the connection is not `kConnected` any more, it never will be. -/
theorem Sane.onConnection (h : Sane c lines w) (hann : w.announcing = true) :
    Sane c lines w.onConnection := by
  have hne := h.announced (.inl hann)
  have hpast : w.onConnection.connection = false → w.conn.state.IsPast :=
    fun hdown => StateE.isPast_of_ne hne (of_decide_eq_false hdown)
  obtain ⟨sent, rest, hlines, hrequested, hrest⟩ := h.typed
  exact {
    intact := h.intact
    calls_eq := h.calls_eq
    connected_eq := rfl
    up := fun _ => hne
    announced := fun _ => hne
    seen := fun _ => ⟨hne, hpast⟩
    typed := ⟨sent, rest, hlines, hrequested, hrest⟩ }

theorem connStep_eq_ok {l : TcpConnection.World.Label} :
    w.connStep c l = .ok w' ↔ ∃ conn, w.conn.step c l = .ok conn ∧ { w with conn } = w' := by
  rw [World.connStep, bind_eq_ok]
  exact exists_congr fun conn => and_congr_right' ⟨Except.ok.inj, congrArg Except.ok⟩

theorem Sane.connStep_runTask (h : Sane c lines w) {n : Option ℕ}
    (hok : w.connStep c (.runTask n) = .ok w') : Sane c lines w' := by
  obtain ⟨conn, hconn, rfl⟩ := connStep_eq_ok.mp hok
  exact h.proceeds (h.intact.step hconn)
    (TcpConnection.World.proceeds_step_runTask h.intact.sound.tracked hconn)

theorem Sane.runTask (h : Sane c lines w) {n : Option ℕ} (hok : w.runTask c n = .ok w') :
    Sane c lines w' := by
  rw [World.runTask] at hok
  split at hok
  · next work hwork =>
    have hmem : .connCb ∈ w.conn.work := hwork ▸ List.mem_cons_self
    exact (h.announce hmem).connStep_runTask hok
  · split_ifs at hok with hann
    · exact (h.onConnection hann).connStep_runTask hok
    · exact h.connStep_runTask hok
  · exact h.connStep_runTask hok

/-! ### The terminal's thread -/

/-- The terminal's thread has come to another place without sending anything. What it has not sent
is still to be written, unless nothing is sent any more. -/
theorem Sane.move (h : Sane c lines w) (locked : Bool) (place : Place)
    (hcalls : place.inCall = false → w.conn.calls terminal = [])
    (hseen : place.hasSeen = true →
      w.conn.state ≠ .kConnecting ∧ (w.connection = false → w.conn.state.IsPast))
    (hline : place.hasEnded = false → ¬w.conn.state.IsPast →
      w.place.hasEnded = false ∧ place.line = w.place.line) :
    Sane c lines { w with locked, place } := by
  obtain ⟨sent, rest, hlines, hrequested, hrest⟩ := h.typed
  refine { h with calls_eq := hcalls, seen := hseen, typed := ⟨sent, rest, hlines, hrequested, ?_⟩ }
  intro hended hpast
  obtain ⟨hended, hline⟩ := hline hended hpast
  exact (hrest hended hpast).trans hline.symm

/-- The next line is read. -/
theorem Sane.getline (h : Sane c lines w) (hplace : w.place = .getline) {line : List UInt8}
    {input : List (List UInt8)} (hinput : w.input = line :: input) :
    Sane c lines { w with input, place := .connected line } := by
  obtain ⟨sent, rest, hlines, hrequested, hrest⟩ := h.typed
  refine { h with
    calls_eq := fun _ => h.calls_eq (hplace ▸ rfl)
    seen := fun hseen => by cases hseen
    typed := ⟨sent, rest ++ [line], ?_, hrequested, ?_⟩ }
  · rw [hlines, hinput]
    simp
  · intro _ hpast
    rw [hrest (hplace ▸ rfl) hpast, hplace]
    rfl

/-- The line is sent, if the connection is `kConnected`; if it is not, it never will be again. -/
theorem Sane.send (h : Sane c lines w) {line : List UInt8} (hplace : w.place = .send line)
    {conn : TcpConnection.World}
    (hok : w.conn.step c (.call terminal (.send (.buffer (frame line)))) = .ok conn) :
    Sane c lines { w with conn, place := .sending } := by
  have hintact := h.intact.step hok
  have hcalls : w.conn.calls terminal = [] := h.calls_eq (hplace ▸ rfl)
  obtain ⟨hne, -⟩ := h.seen (hplace ▸ rfl)
  rw [TcpConnection.World.step_call hcalls] at hok
  obtain rfl := Except.ok.inj hok
  rcases TcpConnection.World.call_send w.conn terminal (.buffer (frame line)) with
    ⟨hconnected, hlog, hstate, hwork⟩ | ⟨hnot, heq⟩
  · obtain ⟨sent, rest, hlines, hrequested, hrest⟩ := h.typed
    -- nothing has been dropped before, so that this line comes next
    have hrest : rest = [line] := by
      rw [hrest (hplace ▸ rfl) fun hpast => hpast.ne_kConnected hconnected, hplace]
      rfl
    exact {
      intact := hintact
      calls_eq := fun hcall => by cases hcall
      connected_eq := h.connected_eq
      up := fun _ => hstate ▸ hne
      announced := fun _ => hstate ▸ hne
      seen := fun hseen => by cases hseen
      typed := by
        refine ⟨sent ++ [line], [], ?_, ?_, fun _ _ => rfl⟩
        · rw [hlines, hrest, List.append_nil]
        · rw [hlog, hrequested, framed, framed, List.map_append]
          rfl }
  · rw [heq]
    exact h.move w.locked .sending (fun hcall => by cases hcall) (fun hseen => by cases hseen)
      fun _ hpast => absurd (StateE.isPast_of_ne hne hnot) hpast

theorem step_main (c : Setup) (w : World) : w.step c .main = w.main c := if_pos trivial

/-- The codec has room for a line, and `send` is given its frame. -/
theorem main_send {line : List UInt8} (hplace : w.place = .send line) (hlen : line.length ≤ 65536)
    (hcalls : w.conn.calls terminal = []) :
    w.step c .main = .ok { w with
      conn := w.conn.call terminal (.send (.buffer (frame line)))
      place := .sending } := by
  have hroom : Buffer.kInitialSize + 65536 ≤ maxSize := by decide
  have hsend : LengthHeaderCodec.send line = .ok (frame line) :=
    LengthHeaderCodec.send_eq_ok.mpr ⟨by omega, rfl⟩
  rw [step_main, World.main, hplace]
  dsimp only
  rw [hsend, ok_bind, World.connStep, TcpConnection.World.step_call hcalls]
  rfl

/-- The terminal's thread goes on with its call. -/
theorem Sane.continueCall (h : Sane c lines w) {next : Place} (hcall : w.place.inCall = true)
    (hseen : next.hasSeen = false)
    (hline : next.hasEnded = w.place.hasEnded ∧ next.line = w.place.line)
    (hok : w.continueCall c next = .ok w') : Sane c lines w' := by
  rw [World.continueCall] at hok
  split_ifs at hok with hcalls
  · obtain rfl := Except.ok.inj hok
    refine h.move w.locked next (fun _ => hcalls) (fun h => ?_) fun hended _ => ?_
    · rw [hseen] at h
      cases h
    · exact ⟨hline.1 ▸ hended, hline.2⟩
  · obtain ⟨conn, hconn, rfl⟩ := connStep_eq_ok.mp hok
    have hintact := h.intact.step hconn
    rw [TcpConnection.World.step_continueCall] at hconn
    obtain rfl := Except.ok.inj hconn
    refine h.later hintact (TcpConnection.World.later_continueCall h.intact.sound terminal) ?_
    intro hnot
    rw [hcall] at hnot
    cases hnot

/-- `client.disconnect()`. -/
theorem Sane.disconnect (h : Sane c lines w) (hplace : w.place = .disconnect)
    {conn : TcpConnection.World} (hok : w.conn.step c (.call terminal .shutdown) = .ok conn) :
    Sane c lines { w with conn, place := .disconnecting } := by
  have hintact := h.intact.step hok
  have hcalls : w.conn.calls terminal = [] := h.calls_eq (hplace ▸ rfl)
  rw [TcpConnection.World.step_call hcalls] at hok
  obtain rfl := Except.ok.inj hok
  have hmoved : Sane c lines { w with place := .disconnecting } :=
    h.move w.locked .disconnecting (fun hcall => by cases hcall) (fun hseen => by cases hseen)
      (fun hended => by cases hended)
  exact hmoved.later hintact (TcpConnection.World.later_call_shutdown w.conn terminal)
    fun hcall => by cases hcall

/-- The terminal's thread goes from one place to another, with no call in progress. -/
theorem Sane.walk (h : Sane c lines w) (hcall : w.place.inCall = false) (locked : Bool)
    (place : Place)
    (hseen : place.hasSeen = true →
      w.conn.state ≠ .kConnecting ∧ (w.connection = false → w.conn.state.IsPast))
    (hline : place.hasEnded = false → ¬w.conn.state.IsPast →
      w.place.hasEnded = false ∧ place.line = w.place.line) :
    Sane c lines { w with locked, place } :=
  h.move locked place (fun _ => h.calls_eq hcall) hseen hline

/-- The terminal is read no more. -/
theorem Sane.stop (h : Sane c lines w) (hcall : w.place.inCall = false) :
    Sane c lines { w with place := .disconnect } :=
  h.walk hcall w.locked .disconnect (fun hseen => by cases hseen) (fun hended => by cases hended)

theorem Sane.main (h : Sane c lines w) (hok : w.main c = .ok w') : Sane c lines w' := by
  rw [World.main] at hok
  cases hplace : w.place with
  | getline =>
    rw [hplace] at hok
    dsimp only at hok
    split at hok
    · obtain rfl := Except.ok.inj hok
      exact h.stop (hplace ▸ rfl)
    · next line input hinput =>
      obtain rfl := Except.ok.inj hok
      exact h.getline hplace hinput
  | connected line =>
    rw [hplace] at hok
    obtain rfl := Except.ok.inj hok
    split_ifs with hconnected
    · have hup : w.connection = true := h.connected_eq ▸ hconnected
      refine h.walk (hplace ▸ rfl) w.locked (.lock line) (fun _ => ?_) fun _ _ =>
        ⟨hplace ▸ rfl, hplace ▸ rfl⟩
      exact ⟨h.up hup, fun hdown => absurd (hup.symm.trans hdown) (by simp)⟩
    · exact h.stop (hplace ▸ rfl)
  | lock line =>
    rw [hplace] at hok
    obtain rfl := Except.ok.inj hok
    exact h.walk (hplace ▸ rfl) true (.testConnection line) (fun _ => h.seen (hplace ▸ rfl))
      fun _ _ => ⟨hplace ▸ rfl, hplace ▸ rfl⟩
  | testConnection line =>
    rw [hplace] at hok
    obtain rfl := Except.ok.inj hok
    have hseen := h.seen (hplace ▸ rfl)
    split_ifs with hup
    · exact h.walk (hplace ▸ rfl) w.locked (.send line) (fun _ => hseen) fun _ _ =>
        ⟨hplace ▸ rfl, hplace ▸ rfl⟩
    · -- the connection has gone since `connected_` was read, and the line is dropped
      have hpast : w.conn.state.IsPast := hseen.2 (Bool.eq_false_of_not_eq_true hup)
      exact h.walk (hplace ▸ rfl) w.locked .unlock (fun hseen => by cases hseen)
        fun _ hnot => absurd hpast hnot
  | send line =>
    rw [hplace] at hok
    obtain ⟨bytes, hbytes, hwrite⟩ := bind_eq_ok.mp hok
    obtain ⟨w₁, hstep, heq⟩ := bind_eq_ok.mp hwrite
    obtain ⟨conn, hconn, rfl⟩ := connStep_eq_ok.mp hstep
    obtain rfl := (LengthHeaderCodec.send_eq_ok.mp hbytes).2
    obtain rfl := Except.ok.inj heq
    exact h.send hplace hconn
  | sending =>
    rw [hplace] at hok
    exact h.continueCall (hplace ▸ rfl) rfl (hplace ▸ ⟨rfl, rfl⟩) hok
  | unlock =>
    rw [hplace] at hok
    obtain rfl := Except.ok.inj hok
    exact h.walk (hplace ▸ rfl) false .getline (fun hseen => by cases hseen) fun _ _ =>
      ⟨hplace ▸ rfl, hplace ▸ rfl⟩
  | disconnect =>
    rw [hplace] at hok
    dsimp only at hok
    split_ifs at hok
    · obtain ⟨w₁, hstep, heq⟩ := bind_eq_ok.mp hok
      obtain ⟨conn, hconn, rfl⟩ := connStep_eq_ok.mp hstep
      obtain rfl := Except.ok.inj heq
      exact h.disconnect hplace hconn
    · obtain rfl := Except.ok.inj hok
      exact h.move w.locked .disconnecting (fun hcall => by cases hcall)
        (fun hseen => by cases hseen) (fun hended => by cases hended)
  | disconnecting =>
    rw [hplace] at hok
    exact h.continueCall (hplace ▸ rfl) rfl (hplace ▸ ⟨rfl, rfl⟩) hok
  | returned =>
    rw [hplace] at hok
    obtain rfl := Except.ok.inj hok
    exact h

theorem Sane.step (h : Sane c lines w) {l : World.Label} (hok : w.step c l = .ok w') :
    Sane c lines w' := by
  rw [World.step] at hok
  split_ifs at hok
  · cases l with
    | main => exact h.main hok
    | handleEvent revents =>
      obtain ⟨conn, hconn, rfl⟩ := connStep_eq_ok.mp hok
      exact h.proceeds (h.intact.step hconn) (TcpConnection.World.proceeds_step_handleEvent hconn)
    | runTask n => exact h.runTask hok
    | runFunctor n =>
      obtain ⟨conn, hconn, rfl⟩ := connStep_eq_ok.mp hok
      exact h.proceeds (h.intact.step hconn)
        (TcpConnection.World.proceeds_step_runFunctor h.intact.sound.tracked hconn)
    | invalidLength =>
      obtain ⟨conn, hconn, rfl⟩ := connStep_eq_ok.mp hok
      exact h.proceeds (h.intact.step hconn) (TcpConnection.World.proceeds_step_shutdown hconn)
  · obtain rfl := Except.ok.inj hok
    exact h

theorem sane_of_run {ls : List World.Label}
    (hrun : Machine.run (World.step c) (.init lines) ls = .ok w) : Sane c lines w :=
  Machine.invariant_of_run (sane_init c lines) (fun _ _ _ h hok => h.step hok) hrun

/-! ### The lines arrive -/

theorem messagesOf_framed (sent : List (List UInt8)) :
    messagesOf (Thread.other terminal) (framed sent) = sent.map frame := by
  rw [framed, messagesOf, List.filter_eq_self.mpr, List.map_map]
  · rfl
  · intro p hp
    obtain ⟨line, -, rfl⟩ := List.mem_map.mp hp
    exact decide_eq_true rfl

/-- Only the terminal's thread sends, so what is executed are the first lines that were sent. -/
theorem executed_of_requested {w : TcpConnection.World} (h : Intact c w) {sent : List (List UInt8)}
    (hrequested : requested w.log = framed sent) :
    (executed w.log).map Prod.snd <+: sent.map frame ∧
      (waiting w.pendingFunctors = [] → w.calls terminal = [] →
        (executed w.log).map Prod.snd = sent.map frame) := by
  have hall : (executed w.log).map Prod.snd = messagesOf (.other terminal) (executed w.log) := by
    -- what is executed has been requested by the same thread
    refine congrArg (List.map Prod.snd) (List.filter_eq_self.mpr fun p hp => ?_).symm
    have hmem : p.2 ∈ messagesOf p.1 (executed w.log) :=
      LengthHeaderCodec.mem_messagesOf.mpr hp
    have hmem : p ∈ framed sent := by
      rw [← hrequested]
      exact LengthHeaderCodec.mem_messagesOf.mp ((h.inOrder.taken_prefix p.1).mem hmem)
    obtain ⟨line, -, rfl⟩ := List.mem_map.mp hmem
    exact decide_eq_true rfl
  -- what was sent is executed, in the queue of the loop, or in the call in progress
  have horder : sent.map frame = (executed w.log).map Prod.snd ++
      messagesOf (.other terminal) (waiting w.pendingFunctors) ++
        (w.calls terminal).filterMap Action.message? := by
    rw [hall, ← messagesOf_framed, ← hrequested]
    exact h.inOrder (.other terminal)
  refine ⟨?_, fun hqueue hcalls => ?_⟩
  · rw [horder, List.append_assoc]
    exact List.prefix_append _ _
  · rw [horder, hqueue, hcalls]
    simp

/-- **The lines arrive.** However the terminal's thread and the loop's thread are interleaved, and
whatever the writes to the socket accept, the lines that have been read are those that were sent and
others after them, and as long as the connection is up and the terminal is read, there is no other
but the one that is being written. A server that has received a beginning of what the socket has
accepted, in whatever pieces, has decoded the first of the lines that were sent, and no invalid
length; and it has decoded all of them when everything has arrived and nothing is on its way. -/
theorem lines_arrive {c : Setup} {lines : List (List UInt8)} {ls : List World.Label} {w : World}
    (hlen : ∀ line ∈ lines, line.length ≤ 65536)
    (hrun : Machine.run (World.step c) (.init lines) ls = .ok w) :
    ∃ sent rest : List (List UInt8),
      lines = sent ++ rest ++ w.input ∧ requested w.conn.log = framed sent ∧
      (w.place.hasEnded = false → ¬w.conn.state.IsPast → rest = w.place.line) ∧
      ∀ chunks : List (List UInt8), chunks.flatten <+: accepted w.conn.log →
        (onChunks chunks).stopped = false ∧ (onChunks chunks).items <+: sent ∧
          (chunks.flatten = accepted w.conn.log → w.conn.outputBuffer = [] →
            waiting w.conn.pendingFunctors = [] → w.conn.calls terminal = [] →
              (onChunks chunks).items = sent) := by
  have h := sane_of_run hrun
  obtain ⟨sent, rest, hlines, hrequested, hrest⟩ := h.typed
  refine ⟨sent, rest, hlines, hrequested, hrest, fun chunks hchunks => ?_⟩
  obtain ⟨hfirst, hall⟩ := executed_of_requested h.intact hrequested
  obtain ⟨messages, hmessages, hexecuted⟩ := List.prefix_map_iff.mp hfirst
  have hmax : ∀ message ∈ messages, message.length ≤ 65536 := by
    intro message hmem
    have hsent : message ∈ sent := hmessages.mem hmem
    exact hlen message (hlines ▸ List.mem_append_left _ (List.mem_append_left _ hsent))
  have hstream : accepted w.conn.log ++ w.conn.outputBuffer = (messages.map frame).flatten := by
    rw [← hexecuted]
    exact h.intact.streams
  obtain ⟨hstopped, hitems, hdone⟩ :=
    LengthHeaderCodec.onChunks_of_stream hmax hstream hchunks
  refine ⟨hstopped, hitems.trans hmessages, fun htaken hbuffer hqueue hcalls => ?_⟩
  -- a beginning of the lines sent that is as long as they are
  have hlength := congrArg List.length (hexecuted.symm.trans (hall hqueue hcalls))
  rw [List.length_map, List.length_map] at hlength
  rw [hdone htaken hbuffer]
  exact hmessages.eq_of_length hlength

/-- The labels of a run in which the connection is established and the first line is typed. -/
def typed : List World.Label :=
  [.runFunctor none, .runTask none, .runTask none, .main, .main, .main, .main]

/-- The line is written to the socket, and the next is read. -/
def written : List World.Label := [.main, .main, .main, .main, .main, .runFunctor (some 5)]

theorem lines_arrive_firstLine : ∃ w,
    Machine.run (World.step (.client 5)) (.init [[65], [66]]) (typed ++ written) = .ok w ∧
      w.place = .connected [66] ∧ (onChunks [[0, 0, 0], [1, 65]]).items = [[65]] := by
  obtain ⟨w, hrun, hplace, hinput, hstate, haccepted, hbuffer, hqueue, hcalls⟩ : ∃ w,
      Machine.run (World.step (.client 5)) (.init [[65], [66]]) (typed ++ written) = .ok w ∧
      w.place = .connected [66] ∧ w.input = [] ∧ w.conn.state = .kConnected ∧
      accepted w.conn.log = [0, 0, 0, 1, 65] ∧ w.conn.outputBuffer = [] ∧
      waiting w.conn.pendingFunctors = [] ∧ w.conn.calls terminal = [] := by
    have hlen : ([65] : List UInt8).length ≤ 65536 := by decide
    exact ⟨_, (Machine.run_append_of_ok rfl written).trans ((Machine.run_cons_ok
      (main_send rfl hlen rfl)).trans rfl), rfl, rfl, rfl, rfl, rfl, rfl, rfl⟩
  obtain ⟨sent, rest, hlines, -, hrest, hpeer⟩ := lines_arrive (by decide) hrun
  have hrest : rest = [[66]] := by
    rw [hrest (hplace ▸ rfl) fun hpast => hpast.ne_kConnected hstate, hplace]
    rfl
  have hsent : [[65]] = sent := by
    rw [hrest, hinput, List.append_nil] at hlines
    exact (List.append_inj' hlines rfl).1
  refine ⟨w, hrun, hplace, ?_⟩
  rw [hsent]
  exact (hpeer _ (haccepted ▸ List.prefix_rfl)).2.2 (haccepted ▸ rfl) hbuffer hqueue hcalls

end ChatClient

end MuduoRebuild
