import MuduoRebuild.TcpConnection.OutputStream

/-!
# The backlog of a connection

When the socket does not take a whole message, `sendInLoop` buffers the rest and asks for
writable events, and `handleWrite` is there to write the rest when one arrives. But `handleWrite`
is never called: the constructor sets the read callback and the close callback of the channel,
and not the write callback.

`Progress` is what a writable event is supposed to do. `backlog_stuck` says that it never does:
from any state in which a connection has a backlog, no run ever calls `::write` again.
-/

namespace MuduoRebuild

namespace TcpConnection

open World

variable {c : Setup} {w w' : World}

/-- A dispatch of an event with `POLLOUT`, with any results of its system calls, makes one
`::write` of the whole output buffer, and the bytes accepted leave the buffer. When this empties
the buffer, writable events are no longer asked for, and a connection that is disconnecting shuts
down its writing side. -/
def Progress (c : Setup) (w : World) : Prop :=
  ∀ revents, Channel.hasAny revents POLLOUT = true → ∀ (ns : List (Option ℕ)) (w' : World),
    Machine.run (World.step c) w (.handleEvent revents :: ns.map .runTask) = .ok w' →
    w'.work = [] → ∃ n, writes w'.log = writes w.log ++ [(w.outputBuffer, n)] ∧
      w'.outputBuffer = w.outputBuffer.drop (n.getD 0) ∧
      (w'.outputBuffer = [] →
        w'.isWriting = false ∧ (w'.state = .kDisconnecting → .shutdownWrite ∈ w'.log))

/-- Without a write callback, a writable event does nothing. -/
theorem step_handleEvent_POLLOUT (hset : c.isSet .write = false) (hidle : w.work = []) :
    w.step c (.handleEvent POLLOUT) = .ok w := by
  -- the write callback is the only one that `POLLOUT` triggers
  have hother : ∀ callback, callback ≠ .write → Channel.triggers POLLOUT callback = false := by
    intro callback hne
    cases callback <;> first | rfl | exact absurd rfl hne
  have hnone : Channel.handleEventWithGuard c.isSet POLLOUT = [] := by
    rw [Channel.handleEventWithGuard, List.filter_eq_nil_iff]
    intro callback _
    by_cases hwrite : callback = .write
    · simp [hwrite, hset]
    · simp [hother callback hwrite]
  have hsame : w.handleEvent c POLLOUT = w := by
    rw [World.handleEvent, hnone, List.map_nil, ← hidle]
  rw [World.step, World.act, hsame]
  exact ite_self _

theorem not_progress (hset : c.isSet .write = false) (hidle : w.work = []) : ¬Progress c w := by
  intro h
  obtain ⟨n, hwrites, -⟩ := h POLLOUT (by decide) [] w
    (Machine.run_cons_ok (step_handleEvent_POLLOUT hset hidle)) hidle
  have hlen := congrArg List.length hwrites
  rw [List.length_append, List.length_singleton] at hlen
  omega

/-- Without a write callback, a step from a state with a backlog does not write, and takes
nothing off the backlog. -/
theorem no_write_of_step (hset : c.isSet .write = false) (hw : Sound c w)
    (hne : w.outputBuffer ≠ []) {l : Label} (hok : w.step c l = .ok w') :
    writes w'.log = writes w.log ∧ w.outputBuffer <+: w'.outputBuffer := by
  rcases (transfers_step hw hok).bytes with
    ⟨hout, hwrites, -⟩ | ⟨hout, -, -, hback⟩ | ⟨htask, -, -, -⟩
  · exact ⟨hwrites, hout ▸ List.prefix_refl _⟩
  · -- `sendInLoop` does not write while there is a backlog
    exact ⟨(hback hne).2, hout ▸ List.prefix_append _ _⟩
  · -- `handleWrite` would have to be a callback that is set
    have hwrite := hw.work _ htask
    rw [hset] at hwrite
    cases hwrite

/-- Since the state `w` nothing has been written, nor taken off the backlog. -/
structure Stuck (c : Setup) (w w' : World) : Prop where
  sound : Sound c w'
  writes_eq : writes w'.log = writes w.log
  kept : w.outputBuffer <+: w'.outputBuffer

/-- Without a write callback, a backlog stays for ever. -/
theorem stuck_of_run (hset : c.isSet .write = false) (hw : Sound c w) (hne : w.outputBuffer ≠ [])
    {ls : List Label} (hrun : Machine.run (World.step c) w ls = .ok w') : Stuck c w w' := by
  refine Machine.invariant_of_run ⟨hw, rfl, List.prefix_refl _⟩ ?_ hrun
  intro v l v' hv hok
  have hne' : v.outputBuffer ≠ [] := fun h => hne (List.prefix_nil.mp (h ▸ hv.kept))
  obtain ⟨hwrites, hkept⟩ := no_write_of_step hset hv.sound hne' hok
  exact ⟨(transfers_step hv.sound hok).sound, hwrites.trans hv.writes_eq, hv.kept.trans hkept⟩

/-- **No backlog progress.** In no reachable state with a backlog does a writable event do what it
should, and from such a state on no `::write` is ever made, whatever happens. -/
theorem backlog_stuck {ls : List Label} (hwiring : c.isSet = wiring)
    (hrun : Machine.run (World.step c) World.init ls = .ok w) (hidle : w.work = [])
    (hne : w.outputBuffer ≠ []) :
    ¬Progress c w ∧ ∀ ls' w', Machine.run (World.step c) w ls' = .ok w' →
      writes w'.log = writes w.log ∧ w.outputBuffer <+: w'.outputBuffer := by
  have hset : c.isSet .write = false := by rw [hwiring]; rfl
  refine ⟨not_progress hset hidle, ?_⟩
  intro ls' w' hrun'
  have hstuck := stuck_of_run hset (intact_of_run hrun).sound hne hrun'
  exact ⟨hstuck.writes_eq, hstuck.kept⟩

/-- The socket takes two of the four bytes of a message. -/
def shortWrite : List Label :=
  [.runFunctor none, .runTask none, .runTask none,
    .callInLoop (some 2) (.send (.string [1, 2, 3, 4]))]

theorem backlog_stuck_shortWrite : ∃ w,
    Machine.run (World.step (.server 5 true false)) World.init shortWrite = .ok w ∧
    w.isWriting = true ∧ ¬Progress (.server 5 true false) w := by
  have hrun : Machine.run (World.step (.server 5 true false)) World.init shortWrite = .ok _ := rfl
  exact ⟨_, hrun, rfl, (backlog_stuck rfl hrun rfl (by decide)).1⟩

/-- An event that says that the socket is writable again changes nothing. -/
theorem backlog_ignored : ∃ w,
    Machine.run (World.step (.server 5 true false)) World.init shortWrite = .ok w ∧
    w.state = .kConnected ∧ w.isWriting = true ∧ w.outputBuffer = [3, 4] ∧
    (∀ n, Machine.run (World.step (.server 5 true false)) w [.handleEvent POLLOUT, .runTask n] =
      .ok w) ∧ ¬Progress (.server 5 true false) w :=
  ⟨_, rfl, rfl, rfl, rfl, fun _ => rfl, not_progress rfl rfl⟩

end TcpConnection

end MuduoRebuild
