import MuduoRebuild.TcpConnection.Basic

/-!
# `TcpConnection`: what its member functions do

Each member function is given by the state in which it leaves the world. `Sending` lists the ways
in which `sendInLoop` can go, and `Flushing` those of `handleWrite`: how many bytes leave for the
socket, what is entered in the log and which functors are queued.

The channel of a connection is `Tracked` by the poller of its loop, so that no change of its
events fails.
-/

namespace MuduoRebuild

namespace TcpConnection

open Fallible

/-! ### The channel -/

/-- The poller of the loop keeps track of the channel. -/
def Tracked (fd : ℕ) (s : Loop (EpollPoller Unit) Unit) : Prop :=
  ∃ r : Registry Unit, EpollPoller.Tracks (fun _ => fd) s r ∧ r.Sane

/-- The poller has the channel in its map. -/
def Registered (fd : ℕ) (s : Loop (EpollPoller Unit) Unit) : Prop :=
  s.poller.channels fd = some ()

theorem tracked_init (fd : ℕ) : Tracked fd EpollPoller.init :=
  ⟨.empty, EpollPoller.tracks_init, Registry.sane_empty⟩

theorem Tracked.isEvents {fd : ℕ} {s : Loop (EpollPoller Unit) Unit} (h : Tracked fd s) :
    Channel.IsEvents (s.events ()) := by
  obtain ⟨r, htracks, hsane⟩ := h
  rw [htracks.events_eq]
  exact hsane.isEvents ()

namespace World

variable {c : Setup} {w w' : World}

theorem exists_update (h : Tracked c.sockfd w.loop) (u : Channel.Update) :
    ∃ loop, w.update c u = .ok { w with loop } ∧ Tracked c.sockfd loop ∧
      Registered c.sockfd loop ∧ loop.events () = u.apply (w.loop.events ()) := by
  obtain ⟨r, htracks, hsane⟩ := h
  have hinj : Function.Injective fun _ : Unit => c.sockfd := fun _ _ _ => rfl
  obtain ⟨loop, hloop, htracks', -⟩ := htracks.update (u := u) (c := ()) hinj hsane
  have hevents : (r.step (.update u ())).events () = u.apply (r.events ()) := by
    rw [Registry.events_step_update, if_pos rfl]
  have hstatus : (r.step (.update u ())).status () = .registered := by
    rw [Registry.status_step_update, if_pos rfl]
  refine ⟨loop, bind_of_ok hloop _, ⟨_, htracks', fun _ => ?_, fun _ hne => ?_⟩, ?_, ?_⟩
  · rw [hevents]
    exact (hsane.isEvents ()).apply u
  · exact absurd hstatus hne
  · rw [Registered, htracks'.find_eq (), if_pos hstatus]
  · rw [htracks'.events_eq, hevents, htracks.events_eq]

/-- A silent channel that the poller has can be removed. -/
theorem exists_removeChannel (h : Tracked c.sockfd w.loop) (hreg : Registered c.sockfd w.loop)
    (hevents : w.loop.events () = 0) :
    ∃ loop, w.removeChannel c = .ok { w with loop } ∧ Tracked c.sockfd loop ∧
      loop.events () = 0 := by
  obtain ⟨r, htracks, hsane⟩ := h
  have hinj : Function.Injective fun _ : Unit => c.sockfd := fun _ _ _ => rfl
  have hstatus : r.status () = .registered := by
    by_contra hne
    rw [Registered, htracks.find_eq (), if_neg hne] at hreg
    cases hreg
  have hzero : r.events () = 0 := by rw [← htracks.events_eq, hevents]
  obtain ⟨loop, hloop, htracks', -⟩ := htracks.remove (c := ()) hinj hstatus hzero
  refine ⟨loop, bind_of_ok hloop _, ⟨_, htracks', hsane.step ⟨hstatus, hzero⟩⟩, ?_⟩
  rw [htracks'.events_eq, Registry.events_step_remove, hzero]

theorem removeChannel_eq_ok (h : Tracked c.sockfd w.loop) (hok : w.removeChannel c = .ok w') :
    ∃ loop, Tracked c.sockfd loop ∧ w' = { w with loop } := by
  obtain ⟨loop', hloop, -⟩ := bind_eq_ok.mp hok
  obtain ⟨_, -, hrest⟩ := bind_eq_ok.mp hloop
  obtain ⟨_, hreg, hrest⟩ := bind_eq_ok.mp hrest
  obtain ⟨_, hevents, -⟩ := bind_eq_ok.mp hrest
  replace hreg : w.loop.poller.channels c.sockfd = some () := check_eq_ok.mp hreg
  obtain ⟨loop, heq, htracked, -⟩ := exists_removeChannel h hreg (check_eq_ok.mp hevents)
  exact ⟨loop, htracked, Except.ok.inj (hok.symm.trans heq)⟩

/-- `loop_->removeChannel` takes the channel out of the map. -/
theorem not_registered_of_removeChannel (hok : w.removeChannel c = .ok w') :
    ¬Registered c.sockfd w'.loop := by
  obtain ⟨loop, hloop, hok⟩ := bind_eq_ok.mp hok
  obtain rfl := Except.ok.inj hok
  obtain ⟨_, -, hloop⟩ := bind_eq_ok.mp hloop
  obtain ⟨_, -, hloop⟩ := bind_eq_ok.mp hloop
  obtain ⟨_, -, hloop⟩ := bind_eq_ok.mp hloop
  obtain ⟨_, -, hloop⟩ := bind_eq_ok.mp hloop
  obtain rfl := Except.ok.inj hloop
  simp [Registered]

end World

/-! ### Sending -/

namespace Setup

variable (c : Setup)

/-- The functors that are queued when a write completes. -/
def completion : List Functor := if c.wriComCb then [.wriComCb] else []

/-- The events that are logged when a write completes. -/
def completed : List Event := if c.wriComCb then [.wriComCb] else []

end Setup

/-- How `sendInLoop` can go: the number of bytes it writes, what it logs and what it queues. -/
inductive Sending (c : Setup) (w : World) (message : List UInt8) :
    ℕ → List Event → List Functor → Prop where
  | buffered (h : w.isWriting = true ∨ w.outputBuffer ≠ []) : Sending c w message 0 [] []
  | failed (hwriting : w.isWriting = false) (hout : w.outputBuffer = []) :
    Sending c w message 0 [.wrote message none] []
  | short (hwriting : w.isWriting = false) (hout : w.outputBuffer = []) {k : ℕ}
      (hk : k < message.length) : Sending c w message k [.wrote message (some k)] []
  | whole (hwriting : w.isWriting = false) (hout : w.outputBuffer = []) :
    Sending c w message message.length (.wrote message (some message.length) :: c.completed)
      c.completion

/-- How `handleWrite` can go: the number of bytes it writes, what it logs and what it queues. -/
inductive Flushing (c : Setup) (w : World) : ℕ → List Event → List Functor → Prop where
  | idle (h : w.isWriting = false) : Flushing c w 0 [] []
  | refused (h : w.isWriting = true) {n : Option ℕ} (hn : n.getD 0 = 0) :
    Flushing c w 0 [.wrote w.outputBuffer n] []
  | short (h : w.isWriting = true) {k : ℕ} (hpos : 0 < k) (hk : k < w.outputBuffer.length) :
    Flushing c w k [.wrote w.outputBuffer (some k)] []
  | drained (h : w.isWriting = true) (hpos : 0 < w.outputBuffer.length) :
    Flushing c w w.outputBuffer.length
      (.wrote w.outputBuffer (some w.outputBuffer.length) :: c.completed ++
        if w.state = .kDisconnecting then [.shutdownWrite] else [])
      c.completion

namespace World

variable {c : Setup} {w w' : World}

theorem queueWriComCb_eq : w.queueWriComCb c = { w with
    pendingFunctors := w.pendingFunctors ++ c.completion
    log := w.log ++ c.completed } := by
  rw [queueWriComCb, Setup.completion, Setup.completed]
  split_ifs
  · rfl
  · simp only [List.append_nil]

theorem exists_buffer (h : Tracked c.sockfd w.loop) (rest : List UInt8) :
    ∃ loop, w.buffer c rest = .ok { w with loop, outputBuffer := w.outputBuffer ++ rest } ∧
      Tracked c.sockfd loop ∧ Channel.isReading (loop.events ()) = w.isReading ∧
      Channel.isWriting (loop.events ()) = true := by
  by_cases hwriting : w.isWriting = true
  · exact ⟨w.loop, if_pos hwriting, h, rfl, hwriting⟩
  · obtain ⟨loop, hloop, htracked, -, hevents⟩ := exists_update
      (w := { w with outputBuffer := w.outputBuffer ++ rest }) h .enableWriting
    refine ⟨loop, (if_neg hwriting).trans hloop, htracked, ?_, ?_⟩
    · rw [hevents, h.isEvents.isReading_apply]
      rfl
    · rw [hevents, h.isEvents.isWriting_apply]

theorem exists_sendDirectly (n : Option ℕ) (message : List UInt8) (e : Event) :
    ∃ k es fs, (w.record e).sendDirectly c n message = ({ w with
        pendingFunctors := w.pendingFunctors ++ fs
        log := w.log ++ e :: es }, k) ∧
      Sending c w message k es fs := by
  by_cases hdirect : w.isWriting = false ∧ w.outputBuffer.length = 0
  · obtain ⟨hwriting, hlen⟩ := hdirect
    have hout : w.outputBuffer = [] := List.eq_nil_of_length_eq_zero hlen
    cases n with
    | none =>
      refine ⟨0, [.wrote message none], [], (if_pos ⟨hwriting, hlen⟩).trans ?_,
        .failed hwriting hout⟩
      simp [write, record]
    | some m =>
      by_cases hk : min message.length m < message.length
      · refine ⟨_, _, [], (if_pos ⟨hwriting, hlen⟩).trans ?_, .short hwriting hout hk⟩
        simp only [write, Option.map_some, if_pos hk]
        simp [record]
      · have hall : min message.length m = message.length :=
          le_antisymm (Nat.min_le_left ..) (Nat.le_of_not_lt hk)
        refine ⟨_, _, _, (if_pos ⟨hwriting, hlen⟩).trans ?_, .whole hwriting hout⟩
        simp only [write, Option.map_some, if_neg hk, queueWriComCb_eq]
        simp [record, hall]
  · refine ⟨0, [], [], (if_neg hdirect).trans ?_, .buffered ?_⟩
    · simp [record]
    · rwa [not_and_or, Bool.not_eq_false, List.length_eq_zero_iff] at hdirect

/-- `sendInLoop` writes a part of the message, possibly nothing, and buffers the rest. -/
theorem exists_sendInLoop (h : Tracked c.sockfd w.loop) (n : Option ℕ) (sender : Thread)
    (message : List UInt8) :
    ∃ loop k es fs, w.sendInLoop c n sender message = .ok { w with
        loop
        outputBuffer := w.outputBuffer ++ message.drop k
        pendingFunctors := w.pendingFunctors ++ fs
        log := w.log ++ .sent sender message :: es } ∧
      Sending c w message k es fs ∧ Tracked c.sockfd loop ∧
      Channel.isReading (loop.events ()) = w.isReading ∧
      Channel.isWriting (loop.events ()) = (w.isWriting || decide (k < message.length)) := by
  obtain ⟨k, es, fs, hdirect, hsending⟩ :=
    exists_sendDirectly (c := c) (w := w) n message (.sent sender message)
  rw [sendInLoop, hdirect]
  dsimp only
  by_cases hk : k < message.length
  · -- the rest is buffered, and the channel asks for writable events
    obtain ⟨loop, hbuffer, htracked, hreading, hwriting⟩ := exists_buffer (c := c) (w := { w with
        pendingFunctors := w.pendingFunctors ++ fs
        log := w.log ++ .sent sender message :: es }) h (message.drop k)
    refine ⟨loop, k, es, fs, (if_pos hk).trans hbuffer, hsending, htracked, hreading, ?_⟩
    rw [hwriting, decide_eq_true hk, Bool.or_true]
  · refine ⟨w.loop, k, es, fs, (if_neg hk).trans ?_, hsending, h, rfl, ?_⟩
    · rw [List.drop_eq_nil_of_le (Nat.le_of_not_lt hk), List.append_nil]
    · rw [decide_eq_false hk, Bool.or_false]
      rfl

theorem exists_drained (h : Tracked c.sockfd w.loop) :
    ∃ loop, w.drained c = .ok { w with
        loop
        pendingFunctors := w.pendingFunctors ++ c.completion
        log := w.log ++ (c.completed ++
          if w.state = .kDisconnecting then [.shutdownWrite] else []) } ∧
      Tracked c.sockfd loop ∧ Channel.isReading (loop.events ()) = w.isReading ∧
      Channel.isWriting (loop.events ()) = false := by
  obtain ⟨loop, hloop, htracked, -, hevents⟩ := exists_update (w := w) h .disableWriting
  have hreading : Channel.isReading (loop.events ()) = w.isReading := by
    rw [hevents, h.isEvents.isReading_apply]
    rfl
  have hwriting : Channel.isWriting (loop.events ()) = false := by
    rw [hevents, h.isEvents.isWriting_apply]
  refine ⟨loop, (bind_of_ok hloop _).trans (congrArg Except.ok ?_), htracked, hreading, hwriting⟩
  rw [queueWriComCb_eq]
  by_cases hstate : w.state = .kDisconnecting
  · -- writing has just been disabled, so that `shutdownInLoop` does shut down
    simp [hstate, shutdownInLoop, isWriting, hwriting, record]
  · simp [hstate]

/-- `handleWrite` writes a part of the output buffer, possibly nothing. -/
theorem exists_handleWrite (h : Tracked c.sockfd w.loop) (n : Option ℕ) :
    ∃ loop k es fs, w.handleWrite c n = .ok { w with
        loop
        outputBuffer := w.outputBuffer.drop k
        pendingFunctors := w.pendingFunctors ++ fs
        log := w.log ++ es } ∧
      Flushing c w k es fs ∧ Tracked c.sockfd loop ∧
      Channel.isReading (loop.events ()) = w.isReading ∧
      (w.outputBuffer ≠ [] → Channel.isWriting (loop.events ()) =
        (w.isWriting && decide (k < w.outputBuffer.length))) := by
  by_cases hwriting : w.isWriting = true
  · rw [handleWrite, if_pos hwriting]
    have hkeep : w.outputBuffer ≠ [] → Channel.isWriting (w.loop.events ()) =
        (w.isWriting && decide (0 < w.outputBuffer.length)) := by
      intro hne
      rw [decide_eq_true (List.length_pos_of_ne_nil hne), Bool.and_true]
      rfl
    -- `::write` fails, accepts nothing, or accepts `k + 1` bytes
    rcases hn : n.map (min w.outputBuffer.length) with _ | _ | k
    · refine ⟨w.loop, 0, [.wrote w.outputBuffer none], [], ?_, .refused hwriting rfl, h, rfl, hkeep⟩
      simp [write, hn, record]
    · refine ⟨w.loop, 0, [.wrote w.outputBuffer (some 0)], [], ?_, .refused hwriting rfl, h, rfl,
        hkeep⟩
      simp [write, hn, record]
    · have hle : k + 1 ≤ w.outputBuffer.length := by
        obtain ⟨m, -, hm⟩ := Option.map_eq_some_iff.mp hn
        exact hm ▸ Nat.min_le_left ..
      simp only [write, hn, record]
      rcases hle.lt_or_eq with hlt | heq
      · refine ⟨w.loop, k + 1, [.wrote w.outputBuffer (some (k + 1))], [], ?_,
          .short hwriting k.succ_pos hlt, h, rfl, fun _ => ?_⟩
        · have hne : ¬(w.outputBuffer.drop (k + 1)).length = 0 := by
            rw [List.length_drop]
            omega
          rw [if_neg hne, List.append_nil]
        · rw [decide_eq_true hlt, Bool.and_true]
          rfl
      · obtain ⟨loop, hdrained, htracked, hreading, hnot⟩ := exists_drained (c := c)
          (w := { w with
            outputBuffer := w.outputBuffer.drop (k + 1)
            log := w.log ++ [.wrote w.outputBuffer (some (k + 1))] }) h
        refine ⟨loop, _, _, _, ?_, .drained hwriting (heq ▸ k.succ_pos), htracked, hreading,
          fun _ => ?_⟩
        · have hzero : (w.outputBuffer.drop (k + 1)).length = 0 := by
            rw [List.length_drop]
            omega
          rw [if_pos hzero, hdrained, ← heq]
          simp only [List.append_assoc, List.cons_append, List.nil_append]
        · rw [hnot, decide_eq_false (lt_irrefl _), Bool.and_false]
  · rw [Bool.not_eq_true] at hwriting
    refine ⟨w.loop, 0, [], [], (if_neg ?_).trans ?_, .idle hwriting, h, rfl, fun _ => ?_⟩
    · rw [hwriting]
      exact Bool.false_ne_true
    · simp
    · rw [hwriting, Bool.false_and]
      exact hwriting

/-! ### Closing -/

/-- How the owner can give a connection up: by a functor for the base loop, or at once. -/
inductive Released (c : Setup) (w : World) : World → Prop where
  | posted (howner : c.owner = .tcpServer false) :
    Released c w { w with removals := w.removals + 1 }
  | dropped (howner : c.owner ≠ .tcpServer false) (howned : w.owned = true) :
    Released c w
      { w with owned := false, pendingFunctors := w.pendingFunctors ++ [.connDestroyed] }

theorem removeConnectionInLoop_of_owned (howned : w.owned = true) :
    w.removeConnectionInLoop = .ok
      { w with owned := false, pendingFunctors := w.pendingFunctors ++ [.connDestroyed] } :=
  bind_of_ok (check_of howned _) _

theorem removeConnectionInLoop_eq_ok (h : w.removeConnectionInLoop = .ok w') :
    w.owned = true ∧
      w' = { w with owned := false, pendingFunctors := w.pendingFunctors ++ [.connDestroyed] } := by
  obtain ⟨_, howned, h⟩ := bind_eq_ok.mp h
  exact ⟨check_eq_ok.mp howned, (Except.ok.inj h).symm⟩

theorem removeConnection_eq_ok (h : w.removeConnection c = .ok w') : Released c w w' := by
  rw [removeConnection] at h
  split at h
  · next howner =>
    obtain rfl := Except.ok.inj h
    exact .posted howner
  all_goals
    next howner =>
    obtain ⟨howned, rfl⟩ := removeConnectionInLoop_eq_ok h
    exact .dropped (by rw [howner]; decide) howned

/-- An owner that has the connection can give it up. -/
theorem exists_removeConnection (howned : w.owned = true) :
    ∃ w', w.removeConnection c = .ok w' := by
  rw [removeConnection]
  split
  · exact ⟨_, rfl⟩
  all_goals exact ⟨_, removeConnectionInLoop_of_owned howned⟩

theorem handleClose_eq_ok (h : Tracked c.sockfd w.loop) (hclose : w.handleClose c = .ok w') :
    (w.state = .kConnected ∨ w.state = .kDisconnecting) ∧
      ∃ loop, Tracked c.sockfd loop ∧ loop.events () = 0 ∧
        Released c { w with loop, log := w.log ++ [.close] } w' := by
  obtain ⟨_, hstate, hclose⟩ := bind_eq_ok.mp hclose
  obtain ⟨loop, hloop, htracked, -, hevents⟩ := exists_update (w := w) h .disableAll
  rw [bind_of_ok hloop] at hclose
  exact ⟨check_eq_ok.mp hstate, loop, htracked, hevents, removeConnection_eq_ok hclose⟩

theorem exists_handleClose (h : Tracked c.sockfd w.loop)
    (hstate : w.state = .kConnected ∨ w.state = .kDisconnecting) (howned : w.owned = true) :
    ∃ w', w.handleClose c = .ok w' := by
  obtain ⟨loop, hloop, -⟩ := exists_update (w := w) h .disableAll
  obtain ⟨w', hremove⟩ := exists_removeConnection (c := c)
    (w := { w with loop, log := w.log ++ [.close] }) howned
  exact ⟨w', (bind_of_ok (check_of hstate _) _).trans ((bind_of_ok hloop _).trans hremove)⟩

theorem exists_connEstablished (h : Tracked c.sockfd w.loop) (hstate : w.state = .kConnecting) :
    ∃ loop, w.connEstablished c = .ok { w with
        state := .kConnected
        loop
        work := .connCb :: .userCode :: w.work } ∧
      Tracked c.sockfd loop ∧ Channel.isReading (loop.events ()) = true := by
  obtain ⟨loop, hloop, htracked, -, hevents⟩ :=
    exists_update (w := { w with state := .kConnected }) h .enableReading
  refine ⟨loop, (bind_of_ok (check_of hstate _) _).trans (bind_of_ok hloop _), htracked, ?_⟩
  rw [hevents, h.isEvents.isReading_apply]

theorem exists_connDestroyed (h : Tracked c.sockfd w.loop)
    (hstate : w.state = .kConnected ∨ w.state = .kDisconnecting) :
    ∃ loop, w.connDestroyed c = .ok { w with
        state := .kDisconnected
        loop
        work := .connCb :: .userCode :: .removeChannel :: w.work } ∧
      Tracked c.sockfd loop ∧ Registered c.sockfd loop ∧ loop.events () = 0 := by
  obtain ⟨loop, hloop, htracked, hreg, hevents⟩ :=
    exists_update (w := { w with state := .kDisconnected }) h .disableAll
  exact ⟨loop, (bind_of_ok (check_of hstate _) _).trans (bind_of_ok hloop _), htracked, hreg,
    hevents⟩

end World

end TcpConnection

end MuduoRebuild
