import MuduoRebuild.TcpConnection.Quiescence

/-!
# What troubles the life of a connection

Only `connDestroyed` sets `kDisconnected`, and it is queued. Until it runs, the checks of `state_`
in `forceCloseInLoop` and `handleClose` do not see that the connection has been closed, and any
second reason to close it is taken for the first: a hang-up together with an end of file, or two
functors `forceCloseInLoop`. After it, a functor left in the queue can still do harm:
`forceCloseInLoop`, if a thread has set `kDisconnecting` late, and `sendInLoop`, if it has to
enable writing and so puts the channel back into the poller. And a thread that calls `shutdown`
while `connEstablished` runs makes the first `connCb_` see a connection that is not connected.

A step is `Untroubled` if it is none of these. The condition looks only at what is queued, at
`state_` and at what the step is about to run. A connection all of whose steps are untroubled
lives well (`lifecycle_of_untroubled`), and a step that is not untroubled spoils the life of the
connection, at once or in a few steps (`exists_spoiled`).
-/

namespace MuduoRebuild

namespace TcpConnection

open Fallible

variable {c : Setup}

namespace World

/-! ### Causes -/

section Causes

variable (w : World)

/-- The connection is to be given up by its owner, or to be destroyed: the functor is queued. -/
def IsClosing : Prop := 0 < w.removals ∨ .connDestroyed ∈ w.pendingFunctors

/-- The owner has given the connection up, and `connDestroyed` has been run. -/
def IsDestroyed : Prop := w.owned = false ∧ .connDestroyed ∉ w.pendingFunctors

/-- `connEstablished` has set `kConnected`, and is about to call `connCb_`. -/
def IsAnnouncing : Prop := w.state = .kConnected ∧ w.work.head? = some .connCb

/-- The step runs a functor `forceCloseInLoop` that finds `kDisconnecting`. -/
def ForcesClose : Label → Prop
  | .runFunctor _ => w.work = [] ∧ w.pendingFunctors.head? = some .forceCloseInLoop ∧
      w.state = .kDisconnecting
  | _ => False

/-- Another thread sets `kDisconnecting`. -/
def Disconnects : Label → Prop
  | .continueCall t => (w.calls t).head? = some (.setState .kDisconnecting)
  | _ => False

/-- Nothing troubles the life of the connection in the step. -/
structure Untroubled (l : Label) : Prop where
  /-- Neither the channel nor `forceCloseInLoop` calls `handleClose` while it is being closed. -/
  closes : w.IsClosing → ¬w.Closes l
  forces : w.IsDestroyed → ¬w.ForcesClose l
  /-- No late `sendInLoop` enables writing. -/
  sends : w.IsDestroyed → ¬w.Buffers l
  announces : w.IsAnnouncing → ¬w.Disconnects l

end Causes

section Decidable

variable (w : World) (l : Label)

instance : Decidable w.IsClosing :=
  inferInstanceAs (Decidable (0 < w.removals ∨ .connDestroyed ∈ w.pendingFunctors))

instance : Decidable w.IsDestroyed :=
  inferInstanceAs (Decidable (w.owned = false ∧ .connDestroyed ∉ w.pendingFunctors))

instance : Decidable w.IsAnnouncing :=
  inferInstanceAs (Decidable (w.state = .kConnected ∧ w.work.head? = some .connCb))

instance : Decidable (w.ForcesClose l) :=
  match l with
  | .runFunctor _ => inferInstanceAs (Decidable (w.work = [] ∧
      w.pendingFunctors.head? = some .forceCloseInLoop ∧ w.state = .kDisconnecting))
  | .callInLoop .. | .call .. | .continueCall _ | .handleEvent _ | .runTask _ | .timeout
  | .removeConnectionInLoop => inferInstanceAs (Decidable False)

instance : Decidable (w.Disconnects l) :=
  match l with
  | .continueCall t =>
    inferInstanceAs (Decidable ((w.calls t).head? = some (.setState .kDisconnecting)))
  | .callInLoop .. | .call .. | .handleEvent _ | .runTask _ | .runFunctor _ | .timeout
  | .removeConnectionInLoop => inferInstanceAs (Decidable False)

instance : Decidable (w.Untroubled l) :=
  decidable_of_iff ((w.IsClosing → ¬w.Closes l) ∧ (w.IsDestroyed → ¬w.ForcesClose l) ∧
      (w.IsDestroyed → ¬w.Buffers l) ∧ (w.IsAnnouncing → ¬w.Disconnects l))
    ⟨fun h => ⟨h.1, h.2.1, h.2.2.1, h.2.2.2⟩, fun h => ⟨h.closes, h.forces, h.sends, h.announces⟩⟩

end Decidable

variable {p : Phase} {w w' : World} {l : Label}

/-! ### Untroubled phases -/

/-- The channel is not in the poller, and none of its events is being handled. -/
structure Detached (c : Setup) (w : World) : Prop where
  removed : ¬Registered c.sockfd w.loop
  handles : ∀ callback, .handle callback ∉ w.work

/-- A connection that has come to its phase untroubled. -/
structure Settled (c : Setup) (p : Phase) (w : World) : Prop extends InPhase c p w where
  connected : p = .announcing → w.state = .kConnected
  detached : p = .gone → Detached c w

theorem InPhase.isClosing (h : InPhase c .closing w) : w.IsClosing := by
  rcases h.held with ⟨-, hone, -⟩ | ⟨-, -, hone⟩
  · exact .inl (hone ▸ Nat.one_pos)
  · exact .inr (List.count_pos_iff.mp (hone ▸ Nat.one_pos))

theorem InPhase.isDestroyed (h : InPhase c .gone w) : w.IsDestroyed :=
  ⟨h.held.1, List.count_eq_zero.mp h.held.2.2⟩

/-- While `connDestroyed` is in progress, the loop handles no event and runs no other functor. -/
theorem InPhase.busy (h : InPhase c p w) (hp : p.isLeaving = true) :
    w.work ≠ [] ∧ ∀ callback, .handle callback ∉ w.work := by
  have hwork := h.work
  cases p with
  | leaving =>
    rw [show w.work = _ from hwork]
    simp
  | removing => rcases hwork with hwork | hwork <;> rw [hwork] <;> simp
  | announcing | opened | closing | gone => cases hp

theorem Receives.exists_mem (h : w.Receives l) : ∃ callback, .handle callback ∈ w.work := by
  rcases l with _ | _ | _ | _ | (_ | _ | n) | _ | _ | _
  case runTask.some.succ => exact ⟨.read, List.mem_of_mem_head? h⟩
  all_goals exact h.elim

/-- What calls `handleClose`: an event, or a functor. -/
theorem Closes.cases (h : w.Closes l) : (∃ callback, .handle callback ∈ w.work) ∨
    w.work = [] ∧ (w.state = .kConnected ∨ w.ForcesClose l) := by
  cases l with
  | runTask n =>
    rcases h with hhead | ⟨hhead, -⟩
    · exact .inl ⟨_, List.mem_of_mem_head? hhead⟩
    · exact .inl ⟨_, List.mem_of_mem_head? hhead⟩
  | runFunctor n =>
    obtain ⟨hidle, hhead, hstate⟩ := h
    exact .inr ⟨hidle, hstate.imp id fun hs => ⟨hidle, hhead, hs⟩⟩
  | _ => exact h.elim

/-- An untroubled step is orderly. -/
theorem Settled.orderly (h : Settled c p w) (hl : w.Untroubled l) : w.Orderly l := by
  refine ⟨?closes, ?receives, ?announces⟩
  case closes =>
    intro hcloses
    rw [h.reading]
    cases p with
    | announcing | opened => rfl
    | closing => exact absurd hcloses (hl.closes h.isClosing)
    | leaving | removing =>
      obtain ⟨hne, hnot⟩ := h.busy rfl
      rcases hcloses.cases with ⟨callback, hmem⟩ | ⟨hidle, -⟩
      · exact absurd hmem (hnot callback)
      · exact absurd hidle hne
    | gone =>
      -- no event is left to handle, and `kConnected` does not come back
      rcases hcloses.cases with ⟨callback, hmem⟩ | ⟨-, hs | hforces⟩
      · exact absurd hmem ((h.detached rfl).handles callback)
      · exact absurd hs (h.state.ne_kConnected rfl)
      · exact absurd hforces (hl.forces h.isDestroyed)
  case receives =>
    intro hreceives
    obtain ⟨callback, hmem⟩ := hreceives.exists_mem
    rw [h.connections_eq]
    cases p with
    | announcing | opened | closing => decide
    | leaving | removing => exact absurd hmem ((h.busy rfl).2 callback)
    | gone => exact absurd hmem ((h.detached rfl).handles callback)
  case announces =>
    intro hannounces
    refine h.connected ?_
    cases l with
    | runTask n =>
      have hconn := hannounces.2
      rw [h.connections_eq] at hconn
      cases p with
      | announcing => rfl
      | opened | closing | leaving | removing | gone => cases hconn
    | _ => exact hannounces.elim

/-! ### Untroubled steps -/

theorem state_perform {t : Thread} {call : Call} {a : Action} (ha : a ∈ call.body t)
    (hne : a ≠ .setState .kDisconnecting) (w : World) : (w.perform a).state = w.state := by
  cases call with
  | send payload =>
    obtain rfl := List.mem_singleton.mp ha
    rfl
  | shutdown | forceClose | forceCloseWithDelay =>
    rcases List.mem_pair.mp ha with rfl | rfl
    · exact absurd rfl hne
    · rfl

theorem state_continueCall (hsound : Sound c w) {t : ℕ} (hl : ¬w.Disconnects (.continueCall t)) :
    (w.continueCall t).state = w.state := by
  rw [World.continueCall]
  split
  · rfl
  · next a as hcalls =>
    obtain ⟨call, hcall⟩ := hsound.calls t
    rw [hcalls] at hcall
    have hne : a ≠ .setState .kDisconnecting := by
      rintro rfl
      exact hl (by rw [Disconnects, hcalls, List.head?_cons])
    have hstate := state_perform (hcall.subset List.mem_cons_self) hne
      { w with calls := Function.update w.calls t as }
    dsimp only
    split_ifs
    · exact hstate
    · exact hstate

/-- Until `connEstablished` has called `connCb_`, an untroubled step leaves `state_` as it is. -/
theorem InPhase.state_eq (h : InPhase c .announcing w) (hsound : Sound c w)
    (hstate : w.state = .kConnected) (hl : w.Untroubled l) (hok : w.step c l = .ok w') :
    w'.state = w.state := by
  have hwork : w.work = [.connCb, .userCode] := h.work
  have hbusy : w.work ≠ [] := by
    rw [hwork]
    exact List.cons_ne_nil _ _
  have hhead : w.work.head? = some .connCb := by rw [hwork, List.head?_cons]
  rw [World.step] at hok
  split_ifs at hok with henabled
  · cases l with
    | callInLoop n call =>
      rcases henabled with hidle | huser
      · exact absurd hidle hbusy
      · rw [hhead] at huser
        cases huser
    | call t call =>
      obtain rfl := Except.ok.inj hok
      rw [World.call]
      split_ifs
      · rfl
      · rfl
    | continueCall t =>
      obtain rfl := Except.ok.inj hok
      exact state_continueCall hsound (hl.announces ⟨hstate, hhead⟩)
    | runTask n =>
      rw [act, World.runTask, hwork] at hok
      obtain rfl := Except.ok.inj hok
      rfl
    | handleEvent _ | timeout => exact absurd henabled.1 hbusy
    | runFunctor n => exact absurd henabled hbusy
    | removeConnectionInLoop => exact absurd h.held.2.1 (Nat.ne_of_gt henabled)
  · rw [Except.ok.inj hok]

theorem Detached.of_eq (h : Detached c w) (hloop : w'.loop = w.loop) (hwork : w'.work = w.work) :
    Detached c w' :=
  ⟨hloop ▸ h.removed, hwork ▸ h.handles⟩

/-- A call in the loop's thread finds that the connection is not connected. -/
theorem Detached.callInLoop (h : Detached c w) (htracked : Tracked c.sockfd w.loop)
    (hstate : w.state ≠ .kConnected) {n : Option ℕ} {call : Call}
    (hok : w.callInLoop c n call = .ok w') : Detached c w' := by
  obtain ⟨v, hv, -, hwork, hloop⟩ := exists_neutral_callInLoop htracked n call
  obtain rfl := Except.ok.inj (hok.symm.trans hv)
  exact h.of_eq (hloop.resolve_right hstate) hwork

/-- A functor that is left in the queue does nothing to the channel. -/
theorem InPhase.detached_runFunctor (h : InPhase c .gone w) (hdetached : Detached c w)
    (htracked : Tracked c.sockfd w.loop) (hidle : w.work = []) {n : Option ℕ}
    (hl : w.Untroubled (.runFunctor n)) (hok : w.act c (.runFunctor n) = .ok w') :
    Detached c w' := by
  simp only [act] at hok
  split at hok
  · next f fs hfs =>
    have hhead : w.pendingFunctors.head? = some f := by rw [hfs, List.head?_cons]
    have hmem : f ∈ w.pendingFunctors := List.mem_of_mem_head? hhead
    have hpop : Detached c { w with pendingFunctors := fs } := hdetached.of_eq rfl rfl
    cases f with
    | connEstablished => exact absurd hmem h.establishes
    | connDestroyed => exact absurd hmem h.isDestroyed.2
    | sendInLoop sender message =>
      have hsent : ¬w.Unsent n message := fun hunsent =>
        hl.sends h.isDestroyed ⟨hidle, sender, message, hhead, hunsent⟩
      obtain ⟨v, hv, -, hwork⟩ := exists_neutral_sendInLoop (c := c)
        (w := { w with pendingFunctors := fs }) htracked n sender message
      obtain rfl := Except.ok.inj (hok.symm.trans hv)
      obtain ⟨v, hv, hloop⟩ := exists_sendInLoop_loop (c := c)
        (w := { w with pendingFunctors := fs }) htracked n sender message
      obtain rfl := Except.ok.inj (hok.symm.trans hv)
      rcases hloop with ⟨-, heq⟩ | ⟨hunsent, -⟩
      · exact hpop.of_eq heq hwork
      · exact absurd hunsent hsent
    | shutdownInLoop =>
      obtain rfl := Except.ok.inj hok
      have hshut := loop_shutdownInLoop { w with pendingFunctors := fs }
      exact hpop.of_eq hshut.1 hshut.2
    | forceCloseInLoop =>
      -- nobody has set `kDisconnecting` since
      have hstate : ¬(w.state = .kConnected ∨ w.state = .kDisconnecting) := by
        rintro (hs | hs)
        · exact absurd hs (h.state.ne_kConnected rfl)
        · exact hl.forces h.isDestroyed ⟨hidle, hhead, hs⟩
      rw [invoke, World.forceCloseInLoop, if_neg hstate] at hok
      exact Except.ok.inj hok ▸ hpop
    | wriComCb =>
      obtain rfl := Except.ok.inj hok
      refine ⟨hdetached.removed, fun callback hcallback => ?_⟩
      rcases List.mem_cons.mp hcallback with heq | hold
      · cases heq
      · exact hdetached.handles callback hold
    | addTimerInLoop =>
      obtain rfl := Except.ok.inj hok
      exact hpop.of_eq rfl rfl
  · exact Except.ok.inj hok ▸ hdetached

/-- After `connDestroyed`, an untroubled step leaves the channel out of the poller. -/
theorem InPhase.detached_step (h : InPhase c .gone w) (hdetached : Detached c w)
    (hsound : Sound c w) (hl : w.Untroubled l) (hok : w.step c l = .ok w') : Detached c w' := by
  have hstate : w.state ≠ .kConnected := h.state.ne_kConnected rfl
  rw [World.step] at hok
  split_ifs at hok with henabled
  · cases l with
    | callInLoop n call => exact hdetached.callInLoop hsound.tracked hstate hok
    | call t call =>
      obtain rfl := Except.ok.inj hok
      obtain ⟨-, hwork, hloop⟩ := neutral_call w t call
      exact hdetached.of_eq hloop hwork
    | continueCall t =>
      obtain rfl := Except.ok.inj hok
      obtain ⟨-, hwork, hloop⟩ := neutral_continueCall hsound t
      exact hdetached.of_eq hloop hwork
    | handleEvent revents =>
      exact absurd (hsound.tracked.registered_of_isSome henabled.2) hdetached.removed
    | runTask n =>
      rw [act, World.runTask] at hok
      split at hok
      · exact Except.ok.inj hok ▸ hdetached
      · next task work hwork =>
        have hmem : task ∈ w.work := by
          rw [hwork]
          exact List.mem_cons_self
        -- only the user's code can be left to run
        obtain rfl : task = .userCode := by
          rcases h.work task hmem with heq | ⟨callback, rfl⟩
          · exact heq
          · exact absurd hmem (hdetached.handles callback)
        obtain rfl := Except.ok.inj hok
        refine ⟨hdetached.removed, fun callback hcallback => hdetached.handles callback ?_⟩
        rw [hwork]
        exact List.mem_cons_of_mem _ hcallback
    | runFunctor n => exact h.detached_runFunctor hdetached hsound.tracked henabled hl hok
    | timeout =>
      exact Detached.callInLoop (w := { w with timers := w.timers - 1 })
        (hdetached.of_eq rfl rfl) hsound.tracked hstate hok
    | removeConnectionInLoop => exact absurd h.held.2.1 (Nat.ne_of_gt henabled)
  · exact Except.ok.inj hok ▸ hdetached

/-- An untroubled step goes well, and leaves the connection untroubled. -/
theorem Settled.step (h : Settled c p w) (hsound : Sound c w) (hl : w.Untroubled l) :
    ∃ w' p', w.step c l = .ok w' ∧ Settled c p' w' := by
  obtain ⟨w', p', hok, hphase, hpasses⟩ := h.toInPhase.step hsound (h.orderly hl)
  refine ⟨w', p', hok, hphase, ?connected, ?detached⟩
  case connected =>
    rintro rfl
    cases hpasses with
    | stays =>
      have hstate := h.connected rfl
      exact (h.toInPhase.state_eq hsound hstate hl hok).trans hstate
  case detached =>
    rintro rfl
    cases hpasses with
    | stays => exact h.toInPhase.detached_step (h.detached rfl) hsound hl hok
    | removed hreg hwork => exact ⟨hreg, fun callback => by simp [hwork]⟩

/-! ### Steps that do harm -/

theorem ForcesClose.closes (h : w.ForcesClose l) : w.Closes l := by
  cases l with
  | runFunctor n => exact ⟨h.1, h.2.1, .inr h.2.2⟩
  | _ => exact h.elim

/-- A connection that is given up has been closed, and does not read any more. -/
theorem InPhase.isReading_eq_false (h : InPhase c p w) (hclosed : w.IsClosing ∨ w.IsDestroyed) :
    w.isReading = false := by
  rw [h.reading]
  cases p with
  | announcing | opened =>
    obtain ⟨howned, hremovals, hdestroys⟩ := h.held
    rcases hclosed with (hpos | hmem) | ⟨hgiven, -⟩
    · exact absurd hremovals (Nat.ne_of_gt hpos)
    · exact absurd hmem (List.count_eq_zero.mp hdestroys)
    · rw [howned] at hgiven
      cases hgiven
  | closing | leaving | removing | gone => rfl

theorem InPhase.eq_announcing (h : InPhase c p w) (hannouncing : w.IsAnnouncing) :
    p = .announcing := by
  obtain ⟨hstate, hhead⟩ := hannouncing
  have hwork := h.work
  cases p with
  | announcing => rfl
  | opened | closing =>
    rcases hwork _ (List.mem_of_mem_head? hhead) with heq | ⟨_, heq⟩ <;> cases heq
  | leaving | removing | gone => exact absurd hstate (h.state.ne_kConnected rfl)

/-- A late `sendInLoop` that has to buffer something is a functor in the queue. -/
theorem InPhase.eq_gone_of_buffers (h : InPhase c p w) (hdestroyed : w.IsDestroyed)
    (hbuffers : w.Buffers l) : p = .gone ∧ w.work = [] := by
  obtain ⟨hgiven, hnot⟩ := hdestroyed
  have hdown : p.isDown = true := by
    have hheld := h.held
    rw [List.count_eq_zero.mpr hnot, hgiven] at hheld
    cases p with
    | leaving | removing | gone => rfl
    | announcing | opened => cases hheld.1
    | closing =>
      rcases hheld with ⟨habsurd, -⟩ | ⟨-, -, habsurd⟩
      · cases habsurd
      · cases habsurd
  cases l with
  | callInLoop n call =>
    cases call with
    | send payload => exact absurd hbuffers.2.1 (h.state.ne_kConnected hdown)
    | shutdown | forceClose | forceCloseWithDelay => exact hbuffers.elim
  | runFunctor n =>
    obtain ⟨hidle, -⟩ := hbuffers
    have hp : p.isOrdinary = true := Phase.isOrdinary_of_idle (hidle ▸ h.work)
    refine ⟨?_, hidle⟩
    cases p with
    | gone => rfl
    | opened | closing => cases hdown
    | announcing | leaving | removing => cases hp
  | _ => exact hbuffers.elim

/-- If the loop buffers something late, the channel comes back, and receives data. -/
theorem InPhase.not_buffers (h : InPhase c p w) (hsound : Sound c w)
    (hset : c.isSet .read = true) (hdestroyed : w.IsDestroyed)
    (hall : Machine.Along (World.step c) (Machine.onResult (Machine.Succeeds Lifecycle)) w
      [l, .handleEvent POLLIN, .runTask (some 1)]) : ¬w.Buffers l := by
  intro hbuffers
  obtain ⟨rfl, hidle⟩ := h.eq_gone_of_buffers hdestroyed hbuffers
  have hclose : .close ∈ w.log := List.count_pos_iff.mp (h.closes_eq ▸ Nat.one_pos)
  obtain ⟨v, hv, hwriting, -, hwork⟩ := hbuffers.exists_step hsound.tracked hclose
  obtain ⟨v', p', hv', hphase, hpasses⟩ := h.step hsound (h.orderly hsound hall.1)
  obtain rfl := Except.ok.inj (hv.symm.trans hv')
  cases hpasses
  have hv_sound := (transfers_step hsound hv).sound
  have hevent : v.step c (.handleEvent POLLIN) = .ok (v.handleEvent c POLLIN) :=
    step_of_enabled ⟨hwork.trans hidle,
      hv_sound.tracked.isSome_interest (events_ne_zero_of_isWriting hwriting)⟩
  have hreads : (v.handleEvent c POLLIN).work.head? = some (.handle .read) := by
    rw [World.handleEvent, Channel.handleEventWithGuard_POLLIN hset]
    rfl
  have hphase' : InPhase c .gone (v.handleEvent c POLLIN) := by
    refine hphase.pop fun task htask => .inr ?_
    obtain ⟨callback, -, rfl⟩ := List.mem_map.mp htask
    exact ⟨callback, rfl⟩
  have horderly := hphase'.orderly (transfers_step hv_sound hevent).sound
    ((hall.2 v hv).2 _ hevent).1
  have hdown := horderly.receives hreads
  rw [hphase'.connections_eq] at hdown
  exact hdown (by decide)

/-- If another thread sets `kDisconnecting` early, the first `connCb_` sees it. -/
theorem InPhase.not_disconnects (h : InPhase c p w) (hsound : Sound c w)
    (hannouncing : w.IsAnnouncing)
    (hall : Machine.Along (World.step c) (Machine.onResult (Machine.Succeeds Lifecycle)) w
      [l, .runTask none]) : ¬w.Disconnects l := by
  obtain rfl := h.eq_announcing hannouncing
  cases l with
  | continueCall t =>
    intro hhead
    obtain ⟨as, hcalls⟩ := List.head?_eq_some_iff.mp hhead
    have hok : w.step c (.continueCall t) = .ok (w.continueCall t) := step_of_enabled trivial
    have hphase := h.continueCall hsound t
    have horderly := hphase.orderly (transfers_step hsound hok).sound (hall.2 _ hok).1
    have hstate : (w.continueCall t).state = .kConnected := horderly.announces
      ⟨by rw [show (w.continueCall t).work = _ from hphase.work, List.head?_cons],
        hphase.connections_eq⟩
    rw [World.continueCall, hcalls] at hstate
    dsimp only at hstate
    split_ifs at hstate <;> cases hstate
  | _ => exact id

end World

open World

/-- What holds of a world reached by untroubled steps. -/
def Serene (c : Setup) (w : World) : Prop :=
  Sound c w ∧ (w = World.init ∨ ∃ p, Settled c p w)

theorem serene_init (c : Setup) : Serene c World.init := ⟨sound_init c, .inl rfl⟩

variable {w w' : World} {l : Label} {ls : List Label}

theorem Serene.orderly (h : Serene c w) (hl : w.Untroubled l) : w.Orderly l := by
  rcases h.2 with rfl | ⟨p, hp⟩
  · exact orderly_init l
  · exact hp.orderly hl

theorem Serene.step (h : Serene c w) (hl : w.Untroubled l) (hok : w.step c l = .ok w') :
    Serene c w' := by
  refine ⟨(transfers_step h.1 hok).sound, ?_⟩
  rcases h.2 with rfl | ⟨p, hp⟩
  · obtain ⟨v, hv, hnext⟩ := exists_step_init c l
    obtain rfl := Except.ok.inj (hok.symm.trans hv)
    exact hnext.imp id fun ⟨hphase, hstate⟩ => ⟨_, hphase, fun _ => hstate, fun hp => by cases hp⟩
  · obtain ⟨v, p', hv, hnext⟩ := hp.step h.1 hl
    obtain rfl := Except.ok.inj (hok.symm.trans hv)
    exact .inr ⟨p', hnext⟩

theorem serene_of_run
    (h : Machine.Along (World.step c) (Machine.onInput Untroubled) World.init ls)
    (hrun : Machine.run (World.step c) World.init ls = .ok w) : Serene c w := by
  refine Machine.Along.of_run_eq_ok (h.of_invariant (Serene c) (serene_init c) ?_ ?_)
    (serene_init c) hrun
  · intro v l hv hl v' hok
    exact hv.step hl hok
  · intro v l v' hv hl hok
    exact hv.step hl hok

/-- **Connection lifecycle.** For a connection of a server or a client, and any interleaving of
calls, events, functors and timers: as long as no step troubles its life, no `assert` fails,
`closeCb_` is called at most once, `connCb_` once with `connected()` and at most once more, without,
and `messaCb_` only between the two. -/
theorem lifecycle_of_untroubled (c : Setup) (ls : List Label)
    (h : Machine.Along (World.step c) (Machine.onInput Untroubled) World.init ls) :
    Machine.Along (World.step c) (Machine.onResult (Machine.Succeeds Lifecycle)) World.init ls := by
  refine (lifecycle_iff c ls).mpr (h.of_invariant (Serene c) (serene_init c) ?_ ?_)
  · intro w l hw hl
    exact hw.orderly hl
  · intro w l w' hw hl hok
    exact hw.step hl hok

/-- The connection is established, sends and receives; thread 7 forces it to close, and is not the
only one who asks for it. -/
def livedWell : List Label :=
  [.runFunctor none, .runTask none, .callInLoop (some 1) (.send (.string [1, 2, 3])),
    .runTask none, .handleEvent POLLIN, .runTask (some 4), .runTask none, .call 7 .forceClose,
    .continueCall 7, .continueCall 7, .callInLoop none .forceCloseWithDelay, .runFunctor none,
    .removeConnectionInLoop, .runFunctor none, .runTask none, .runTask none, .runTask none,
    .timeout]

theorem lifecycle_of_untroubled_livedWell :
    Machine.Along (World.step (.server 5 false true))
      (Machine.onResult (Machine.Succeeds Lifecycle)) World.init livedWell ∧
    ∃ w, Machine.run (World.step (.server 5 false true)) World.init livedWell = .ok w ∧
      connections w.log = [true, false] ∧ w.log.count .message = 1 ∧ w.log.count .close = 1 ∧
      w.state = .kDisconnected ∧ w.timers = 0 :=
  ⟨lifecycle_of_untroubled _ _ (by decide), _, rfl, rfl, by decide, by decide, rfl, rfl⟩

theorem untroubled_init (l : Label) : World.init.Untroubled l :=
  ⟨fun h => absurd h (by decide), fun h => absurd h (by decide), fun h => absurd h (by decide),
    fun h => absurd h (by decide)⟩

/-- After untroubled steps, a step that is not untroubled spoils the life of a connection that
reads: the step itself does, or it can be followed by steps of which one does. -/
theorem exists_spoiled (hset : c.isSet .read = true)
    (h : Machine.Along (World.step c) (Machine.onInput Untroubled) World.init ls)
    (hrun : Machine.run (World.step c) World.init ls = .ok w) (hl : ¬w.Untroubled l) :
    ∃ ls', ¬Machine.Along (World.step c) (Machine.onResult (Machine.Succeeds Lifecycle))
      World.init (ls ++ l :: ls') := by
  by_contra hnone
  have hall : ∀ ls', Machine.Along (World.step c) (Machine.onResult (Machine.Succeeds Lifecycle))
      w (l :: ls') := fun ls' => Machine.Along.of_append (not_exists_not.mp hnone ls') hrun
  obtain ⟨hsound, rfl | ⟨p, hp⟩⟩ := serene_of_run h hrun
  · exact hl (untroubled_init l)
  · have hphase := hp.toInPhase
    have hcloses : w.IsClosing ∨ w.IsDestroyed → ¬w.Closes l := fun hclosed hcloses =>
      not_succeeds_of_closes hphase hsound.tracked hcloses (hphase.isReading_eq_false hclosed)
        (hall []).1
    refine hl ⟨fun hclosing => hcloses (.inl hclosing), ?forces, ?sends, ?announces⟩
    case forces => exact fun hdestroyed hforces => hcloses (.inr hdestroyed) hforces.closes
    case sends => exact fun hdestroyed => hphase.not_buffers hsound hset hdestroyed (hall _)
    case announces => exact fun hannouncing => hphase.not_disconnects hsound hannouncing (hall _)

/-- The connection is established; then `forceClose` is called twice. -/
def forcedTwice : List Label :=
  [.runFunctor none, .runTask none, .runTask none, .callInLoop none .forceClose,
    .callInLoop none .forceClose, .runFunctor none, .runFunctor none, .removeConnectionInLoop,
    .removeConnectionInLoop]

/-- The connection is established; then a hang-up is reported, and the socket is at its end. -/
def hungUp : List Label :=
  [.runFunctor none, .runTask none, .runTask none, .handleEvent POLLHUP, .runTask none,
    .runTask (some 0), .removeConnectionInLoop, .removeConnectionInLoop]

theorem not_along_of_fault {ls : List Label} {e : Fault}
    (hrun : Machine.run (World.step c) World.init ls = .error e) :
    ¬Machine.Along (World.step c) (Machine.onResult (Machine.Succeeds Lifecycle))
      World.init ls := by
  intro h
  obtain ⟨w, l, -, w', hok, -⟩ := h.exists_of_run_eq_error hrun
  cases hok

/-- In these runs a connection is closed twice, and an `assert` fails, for any owner. -/
theorem closed_twice :
    Machine.run (World.step (.server 5 true false)) World.init forcedTwice = .error .assertFailed ∧
    Machine.run (World.step (.server 5 false false)) World.init forcedTwice = .error .assertFailed ∧
    Machine.run (World.step (.client 5)) World.init forcedTwice = .error .assertFailed ∧
    Machine.run (World.step (.client 5)) World.init hungUp = .error .assertFailed ∧
    ¬Machine.Along (World.step (.client 5)) (Machine.onResult (Machine.Succeeds Lifecycle))
      World.init forcedTwice ∧
    ¬Machine.Along (World.step (.client 5)) (Machine.onResult (Machine.Succeeds Lifecycle))
      World.init hungUp :=
  ⟨rfl, rfl, rfl, rfl, not_along_of_fault (e := .assertFailed) rfl,
    not_along_of_fault (e := .assertFailed) rfl⟩

end TcpConnection

end MuduoRebuild
