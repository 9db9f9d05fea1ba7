import MuduoRebuild.Reactor.Operations

/-!
# The reactor: where the threads are

The thread of a loop goes round `EventLoop::loop`. `Turn` says what it relies on at each place: the
channels that are still to be handled are known, the one that is being handled has an owner, and
what removes a channel or destroys it for good is done by functors. `Good` is the invariant of the
whole process. Steady functions keep it; the rest of this file is about what the threads do between
functions, and about the two functions that take a channel from a poller.

`Connector::removeAndResetChannel` removes the channel that is being handled while callbacks of it
may still have to be called. Until its caller has set `state_`, the connector is `busy`.
-/

namespace MuduoRebuild

namespace Reactor

open Fallible
open TcpServer (LoopId)

/-- The channels that the loop has still to handle. -/
def LoopState.active (s : LoopState) : List ChannelId := s.activeChannels_.map Prod.fst

namespace World

section Defs

variable (c : Setup) (w : World)

/-- What the thread of a loop relies on in the state `s`. -/
structure Turn (l : LoopId) (s : LoopState) : Prop where
  active : ∀ ch ∈ s.active, c.home ch = l ∧ w.Known c ch
  nodup : s.active.Nodup
  current : ∀ ch ∈ s.current, c.home ch = l ∧ w.Entitled ch ∧ ch ∉ s.active
  handling : s.phase ≠ .handling → s.active = [] ∧ s.current = none
  functors : s.phase ≠ .functors → s.functors = []
  removal : ∀ k, .removeChannel k ∈ s.work → s.phase = .functors
  handle : ∀ ch callback, .handle ch callback ∈ s.work → ch ∈ s.current
  -- the write callback is called last
  last : s.work.Pairwise fun task _ => ∀ ch, task ≠ .handle ch .write

/-- The invariant, without `resetChannel`. -/
structure Orderly (hand busy : Option ℕ) : Prop where
  sound : w.Sound c
  fresh : w.Fresh
  sole : w.Sole c hand
  turn : ∀ l, w.Turn c l (w.loops l)
  -- as long as a connector is in an attempt, the callbacks that are called find its channel
  handled : ∀ l j n callback, j ∉ busy → .handle (.connector j n) callback ∈ (w.loops l).work →
    w.Waiting j → w.Known c (.connector j n)

/-- The invariant. -/
structure Good (hand busy : Option ℕ) : Prop extends Orderly c w hand busy where
  resets : ∀ l j, (w.loops l).toRun.count (.resetChannel j) ≤
    if l = c.clientLoop j then w.due c j else 0

end Defs

variable {c : Setup} {w w' : World} {hand hand' busy busy' : Option ℕ} {l : LoopId} {k : ConnId}
  {ch : ChannelId} {j n : ℕ}

/-! ### Steady functions -/

theorem Stays.handle_mem {s s' : LoopState} (h : Stays s s') {callback : Channel.Callback}
    (hmem : .handle ch callback ∈ s'.work) : .handle ch callback ∈ s.work := by
  obtain ⟨cbs, hwork⟩ := h.work
  rw [hwork] at hmem
  refine (List.mem_append.mp hmem).resolve_left fun hcb => ?_
  obtain ⟨cb, -, heq⟩ := List.mem_map.mp hcb
  cases heq

theorem Stays.count_resetChannel {s s' : LoopState} (h : Stays s s') (j : ℕ) :
    s'.toRun.count (.resetChannel j) = s.toRun.count (.resetChannel j) := by
  obtain ⟨fs, hpending, hfs⟩ := h.pending
  rw [LoopState.toRun, LoopState.toRun, h.functors, hpending, ← List.append_assoc,
    List.count_append, List.count_eq_zero_of_not_mem (hfs j), Nat.add_zero]

theorem Stays.last {s s' : LoopState} (h : Stays s s')
    (hlast : s.work.Pairwise fun task _ => ∀ ch, task ≠ .handle ch .write) :
    s'.work.Pairwise fun task _ => ∀ ch, task ≠ .handle ch .write := by
  obtain ⟨cbs, hwork⟩ := h.work
  have htimer : ∀ task ∈ cbs.map Task.timer, ∀ ch, task ≠ .handle ch .write := by
    intro task htask ch heq
    obtain ⟨cb, -, rfl⟩ := List.mem_map.mp htask
    cases heq
  rw [hwork]
  refine List.pairwise_append.mpr ⟨?_, hlast, fun task htask _ _ => htimer task htask⟩
  exact List.Pairwise.imp_of_mem (fun htask _ _ => htimer _ htask)
    (List.pairwise_of_forall fun _ _ => trivial)

theorem Steady.turn (h : Steady c hand hand' w w') (hturn : w.Turn c l (w.loops l)) :
    w'.Turn c l (w'.loops l) := by
  have hs := h.stays l
  have hactive : (w'.loops l).active = (w.loops l).active := congrArg (List.map Prod.fst) hs.active
  refine ⟨?_, ?_, ?_, ?_, ?_, ?_, ?_, hs.last hturn.last⟩
  · rw [hactive]
    exact fun ch hch => (hturn.active ch hch).imp_right (h.known ch)
  · rw [hactive]
    exact hturn.nodup
  · rw [hactive, hs.current]
    exact fun ch hch => (hturn.current ch hch).imp_right (And.imp_left (h.entitled ch))
  · rw [hactive, hs.current, hs.phase]
    exact hturn.handling
  · rw [hs.functors, hs.phase]
    exact hturn.functors
  · rw [hs.phase]
    exact fun k hk => hturn.removal k (hs.removeChannel_mem_iff.mp hk)
  · rw [hs.current]
    exact fun ch callback hmem => hturn.handle ch callback (hs.handle_mem hmem)

theorem Steady.orderly (h : Steady c hand hand' w w') (horderly : w.Orderly c hand busy) :
    w'.Orderly c hand' busy where
  sound := h.sound horderly.sound
  fresh := h.fresh horderly.fresh
  sole := h.sole horderly.sole
  turn := fun l => h.turn (horderly.turn l)
  handled := by
    intro l j n callback hj hmem hwait
    have hmem := (h.stays l).handle_mem hmem
    have hent := ((horderly.turn l).current _ ((horderly.turn l).handle _ _ hmem)).2.1
    exact h.known _ (horderly.handled l j n callback hj hmem (h.waiting j n hent hwait))

theorem Steady.good (h : Steady c hand hand' w w') (hgood : w.Good c hand busy) :
    w'.Good c hand' busy where
  toOrderly := h.orderly hgood.toOrderly
  resets := by
    intro l j
    rw [(h.stays l).count_resetChannel, h.due]
    exact hgood.resets l j

/-- A connector stops being busy when it has given up the attempt, or has no callbacks left. -/
theorem Orderly.idle (h : w.Orderly c hand (some j))
    (hidle : w.Waiting j → ∀ l n callback, .handle (.connector j n) callback ∉ (w.loops l).work) :
    w.Orderly c hand none :=
  { h with
    handled := by
      intro l j' n callback _ hmem hwait
      by_cases hj' : j' = j
      · subst hj'
        exact absurd hmem (hidle hwait l n callback)
      · exact h.handled l j' n callback (fun heq => hj' (Option.some.inj heq).symm) hmem hwait }

theorem Good.idle (h : w.Good c hand (some j))
    (hidle : w.Waiting j → ∀ l n callback, .handle (.connector j n) callback ∉ (w.loops l).work) :
    w.Good c hand none :=
  { h with toOrderly := h.toOrderly.idle hidle }

/-! ### The thread of a loop -/

section Modify

variable {f : LoopState → LoopState}

@[simp]
theorem loops_modify_self (w : World) (l : LoopId) (f : LoopState → LoopState) :
    (w.modify l f).loops l = f (w.loops l) :=
  Function.update_self ..

theorem loops_modify_of_ne (w : World) {l l' : LoopId} (h : l' ≠ l) (f : LoopState → LoopState) :
    (w.modify l f).loops l' = w.loops l' :=
  Function.update_of_ne h ..

theorem Turn.of_calm {s : LoopState} (h : Calm c w w') (hturn : w.Turn c l s) : w'.Turn c l s :=
  { hturn with
    active := fun ch hch => (hturn.active ch hch).imp_right h.known_iff.mpr
    current := fun ch hch => (hturn.current ch hch).imp_right (And.imp_left h.entitled) }

/-- The thread of a loop goes on: it does not forget a channel that it has to remove. -/
structure GoesOn (c : Setup) (w : World) (l : LoopId) (s' : LoopState) : Prop where
  poller : s'.poller = (w.loops l).poller
  removeChannel : ∀ k, .removeChannel k ∈ s'.work ↔ .removeChannel k ∈ (w.loops l).work
  ran : ∀ k, .removeChannel k ∈ s'.work → .connDestroyed k ∈ (w.loops l).ran →
    .connDestroyed k ∈ s'.ran
  turn : w.Turn c l s'
  handle : ∀ j n callback, .handle (.connector j n) callback ∈ s'.work →
    .handle (.connector j n) callback ∈ (w.loops l).work ∨ w.Known c (.connector j n)

theorem Orderly.modify (h : w.Orderly c hand busy) (hf : w.GoesOn c l (f (w.loops l))) :
    (w.modify l f).Orderly c hand busy := by
  have hcalm : Calm c w (w.modify l f) := calm_modify w l hf.poller
  refine ⟨⟨hcalm.placed h.sound.placed, hcalm.indexed h.sound.indexed, hcalm.linked h.sound.linked,
    ?_, ?_⟩, hcalm.fresh h.fresh, hcalm.sole rfl h.sole, ?_, ?_⟩
  · intro ch hch
    rcases h.sound.entitled ch (hcalm.known_iff.mp hch) with hent | hrem
    · exact .inl (hcalm.entitled hent)
    · cases ch with
      | conn k =>
        refine .inr ?_
        by_cases hl : c.loopOf k = l
        · subst hl
          rw [Removing, loops_modify_self]
          exact (hf.removeChannel k).mpr hrem
        · rwa [Removing, loops_modify_of_ne w hl]
      | wakeup | timerQueue | acceptor | connector => cases hrem
  · intro l' k hk
    by_cases hl : l' = l
    · subst hl
      rw [loops_modify_self] at hk ⊢
      obtain ⟨hloop, hran, hsome⟩ := h.sound.removing l' k ((hf.removeChannel k).mp hk)
      exact ⟨hloop, hf.ran k hk hran, hsome⟩
    · rw [loops_modify_of_ne w hl] at hk ⊢
      exact h.sound.removing l' k hk
  · intro l'
    by_cases hl : l' = l
    · subst hl
      rw [loops_modify_self]
      exact hf.turn.of_calm hcalm
    · rw [loops_modify_of_ne w hl]
      exact (h.turn l').of_calm hcalm
  · intro l' j n callback hj hmem hwait
    refine hcalm.known_iff.mpr ?_
    by_cases hl : l' = l
    · subst hl
      rw [loops_modify_self] at hmem
      rcases hf.handle j n callback hmem with hmem | hknown
      · exact h.handled l' j n callback hj hmem hwait
      · exact hknown
    · rw [loops_modify_of_ne w hl] at hmem
      exact h.handled l' j n callback hj hmem hwait

theorem Good.modify (h : w.Good c hand busy) (hf : w.GoesOn c l (f (w.loops l)))
    (hcount : ∀ j, (f (w.loops l)).toRun.count (.resetChannel j) =
      (w.loops l).toRun.count (.resetChannel j)) : (w.modify l f).Good c hand busy where
  toOrderly := h.toOrderly.modify hf
  resets := by
    intro l' j
    rw [(calm_modify (c := c) w l hf.poller).due_eq]
    refine le_of_eq_of_le ?_ (h.resets l' j)
    by_cases hl : l' = l
    · rw [hl, loops_modify_self, hcount]
    · rw [loops_modify_of_ne w hl]

end Modify

/-! ### Between the channels and functors -/

/-- A channel of another place in the poller of the loop is a channel of the loop. -/
theorem Sound.known_of_channels (h : w.Sound c) {n : ℤ}
    (hch : (w.loops l).poller.channels n = some ch) :
    c.home ch = l ∧ n = w.fd ch ∧ w.Known c ch := by
  obtain ⟨rfl, rfl⟩ := h.placed l n ch hch
  exact ⟨rfl, rfl, hch⟩

theorem Good.poll (h : w.Good c hand busy) {ready : List (ChannelId × Mask)}
    (henabled : w.Enabled c (.poll l ready)) (hok : w.act c (.poll l ready) = .ok w') :
    w'.Good c hand busy := by
  obtain ⟨hphase, hnodup, -⟩ := henabled
  obtain ⟨_, hfill, hok⟩ := bind_eq_ok.mp hok
  obtain rfl := Except.ok.inj hok
  have hfill := check_eq_ok.mp hfill
  have hturn := h.turn l
  obtain ⟨-, hcurrent⟩ := hturn.handling (by rw [hphase]; decide)
  refine h.modify ⟨rfl, fun _ => Iff.rfl, fun _ _ => id, ?_, fun _ _ _ => .inl⟩ fun _ => rfl
  exact {
    active := fun ch hch => by
      obtain ⟨r, hr, rfl⟩ := List.mem_map.mp hch
      obtain ⟨hhome, -, hknown⟩ := h.sound.known_of_channels (hfill r hr)
      exact ⟨hhome, hknown⟩
    nodup := hnodup
    current := fun ch hch => absurd (hcurrent ▸ hch) (Option.not_mem_none ch)
    handling := fun hne => absurd rfl hne
    functors := fun _ => hturn.functors (by rw [hphase]; decide)
    removal := fun k hk => absurd (hphase ▸ hturn.removal k hk) (by decide)
    handle := fun ch callback hmem => hturn.handle ch callback hmem
    last := hturn.last }

theorem Good.handleEvent (h : w.Good c hand busy) (henabled : w.Enabled c (.handleEvent l))
    (hok : w.act c (.handleEvent l) = .ok w') : w'.Good c hand busy := by
  obtain ⟨hphase, hwork, -⟩ := henabled
  have hturn := h.turn l
  rw [act] at hok
  split at hok
  · obtain rfl := Except.ok.inj hok
    exact h
  · next ch revents rest hactive =>
    obtain rfl := Except.ok.inj hok
    have hactive : (w.loops l).active = ch :: rest.map Prod.fst :=
      congrArg (List.map Prod.fst) hactive
    have hcons : ∀ d ∈ ch :: rest.map Prod.fst, c.home d = l ∧ w.Known c d := by
      rw [← hactive]
      exact hturn.active
    have hnodup : (ch :: rest.map Prod.fst).Nodup := hactive ▸ hturn.nodup
    obtain ⟨hhome, hknown⟩ := hcons ch List.mem_cons_self
    -- the thread is not in `connDestroyed`
    have hent : w.Entitled ch := (h.sound.entitled ch hknown).resolve_right fun hrem => by
      cases ch with
      | conn k =>
        rw [Removing, show c.loopOf k = l from hhome, hwork] at hrem
        cases hrem
      | wakeup | timerQueue | acceptor | connector => cases hrem
    have hhandle : ∀ d callback, Task.handle d callback ∈
        (Channel.handleEventWithGuard ch.isSet revents).map (Task.handle ch) → d = ch := by
      intro d callback hmem
      obtain ⟨cb, -, heq⟩ := List.mem_map.mp hmem
      exact (Task.handle.inj heq).1.symm
    have hremove : ∀ k, Task.removeChannel k ∉
        (Channel.handleEventWithGuard ch.isSet revents).map (Task.handle ch) := by
      intro k hmem
      obtain ⟨cb, -, heq⟩ := List.mem_map.mp hmem
      cases heq
    refine h.modify ⟨rfl, fun k => ?_, fun k hk => absurd hk (hremove k), ?_, ?_⟩ fun _ => rfl
    · rw [hwork]
      exact iff_of_false (hremove k) List.not_mem_nil
    · exact {
        active := fun d hd => hcons d (List.mem_cons_of_mem ch hd)
        nodup := hnodup.of_cons
        current := fun d hd => by
          obtain rfl := Option.some.inj (Option.mem_def.mp hd)
          exact ⟨hhome, hent, (List.nodup_cons.mp hnodup).1⟩
        handling := fun hne => absurd hphase hne
        functors := hturn.functors
        removal := fun k hk => absurd hk (hremove k)
        handle := fun d callback hmem => by rw [hhandle d callback hmem]; rfl
        last := by
          refine List.pairwise_map.mpr (List.Pairwise.filter _ ?_)
          simp }
    · intro j n callback hmem
      exact .inr (hhandle _ _ hmem ▸ hknown)

theorem Good.takeFunctors (h : w.Good c hand busy) (henabled : w.Enabled c (.takeFunctors l))
    (hok : w.act c (.takeFunctors l) = .ok w') : w'.Good c hand busy := by
  obtain ⟨hphase, ⟨hwork, hcurrent⟩, hactive⟩ := henabled
  obtain rfl := Except.ok.inj hok
  have hturn := h.turn l
  have hfunctors := hturn.functors (by rw [hphase]; decide)
  refine h.modify ⟨rfl, fun _ => Iff.rfl, fun _ _ => id, ?_, fun _ _ _ => .inl⟩ fun j => ?_
  · exact { hturn with
      handling := fun _ => ⟨congrArg (List.map Prod.fst) hactive, hcurrent⟩
      functors := fun hne => absurd rfl hne
      removal := fun _ _ => rfl }
  · rw [LoopState.toRun, LoopState.toRun, hfunctors, List.append_nil, List.nil_append]

/-- The thread returns from `handleEvent`. -/
theorem Good.returns (h : w.Good c hand busy) (hwork : (w.loops l).work = []) :
    (w.modify l fun s => { s with current := none }).Good c hand busy := by
  have hturn := h.turn l
  refine h.modify ⟨rfl, fun _ => Iff.rfl, fun _ _ => id, ?_, fun _ _ _ => .inl⟩ fun _ => rfl
  exact { hturn with
    current := fun ch hch => absurd hch (Option.not_mem_none ch)
    handling := fun hne => ⟨(hturn.handling hne).1, rfl⟩
    handle := fun ch callback hmem => by rw [hwork] at hmem; cases hmem }

/-- The thread begins with what it has to do next, if it is not to remove a channel. -/
theorem Good.begins (h : w.Good c hand busy) {task : Task} {work : List Task}
    (hwork : (w.loops l).work = task :: work) (htask : ∀ k, task ≠ .removeChannel k) :
    (w.modify l fun s => { s with work }).Good c hand busy := by
  have hturn := h.turn l
  have hmem : ∀ t ∈ work, t ∈ (w.loops l).work := by
    rw [hwork]
    exact fun t => List.mem_cons_of_mem task
  have hremove : ∀ k, .removeChannel k ∈ work ↔ .removeChannel k ∈ (w.loops l).work := by
    intro k
    rw [hwork, List.mem_cons]
    exact (or_iff_right (htask k).symm).symm
  refine h.modify ⟨rfl, hremove, fun _ _ => id, ?_, fun _ _ _ => .inl ∘ hmem _⟩ fun _ => rfl
  exact { hturn with
    removal := fun k hk => hturn.removal k (hmem _ hk)
    handle := fun ch callback hk => hturn.handle ch callback (hmem _ hk)
    last := (List.pairwise_cons.mp (hwork ▸ hturn.last)).2 }

/-- The thread takes a functor, other than `resetChannel`. -/
theorem GoesOn.takes (h : w.Orderly c hand busy) (hphase : (w.loops l).phase = .functors)
    (functors : List Functor) (f : Functor) :
    w.GoesOn c l { w.loops l with functors, ran := (w.loops l).ran ++ [f] } := by
  refine ⟨rfl, fun _ => Iff.rfl, fun _ _ => List.mem_append_left [f], ?_, fun _ _ _ => .inl⟩
  exact { h.turn l with functors := fun hne => absurd hphase hne }

theorem Good.takes (h : w.Good c hand busy) (hphase : (w.loops l).phase = .functors) {f : Functor}
    {functors : List Functor} (hfunctors : (w.loops l).functors = f :: functors)
    (hf : ∀ j, f ≠ .resetChannel j) :
    (w.modify l fun s => { s with functors, ran := s.ran ++ [f] }).Good c hand busy := by
  refine h.modify (.takes h.toOrderly hphase functors f) fun j => ?_
  rw [LoopState.toRun, LoopState.toRun, hfunctors, List.cons_append, List.count_cons_of_ne (hf j)]

end World

end Reactor

end MuduoRebuild
