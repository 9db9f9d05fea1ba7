import MuduoRebuild.Reactor.Turns

/-!
# The reactor: removal

What takes channels from the pollers: `Connector::removeAndResetChannel` in the two callbacks of a
connector, and `connDestroyed`, whose second half is a task of its own because the user is called in
between. The channel of a connector is destroyed later, by `resetChannel`.
-/

namespace MuduoRebuild

namespace Reactor

open Fallible
open TcpServer (LoopId)

/-- `Connector::handleWrite` calls `newConnectionCallback_`. -/
def Client.Connects (client : Client) (a : Answer) : Prop :=
  client.connector_.state_ = .kConnecting ∧ a.soError = 0 ∧ a.isSelf = false ∧
    client.connector_.connect_ = true

instance (client : Client) (a : Answer) : Decidable (client.Connects a) :=
  inferInstanceAs (Decidable (_ ∧ _))

namespace World

variable {c : Setup} {w w' v : World} {hand hand' busy busy' : Option ℕ} {l : LoopId} {k : ConnId}
  {ch : ChannelId} {j n sockfd : ℕ} {a : Answer}

/-- The channel is removed from its poller, and nothing else is. -/
structure Removes (c : Setup) (ch : ChannelId) (w w' : World) : Prop extends SameObjects w w' where
  known_iff : ∀ d, w'.Known c d ↔ w.Known c d ∧ d ≠ ch
  placed : w.Placed c → w'.Placed c
  indexed : w.Indexed c → w'.Indexed c
  phase : ∀ l, (w'.loops l).phase = (w.loops l).phase
  active : ∀ l, (w'.loops l).active = (w.loops l).active
  current : ∀ l, (w'.loops l).current = (w.loops l).current
  functors : ∀ l, (w'.loops l).functors = (w.loops l).functors
  ran : ∀ l, (w'.loops l).ran = (w.loops l).ran
  work : ∀ l, (w'.loops l).work <:+ (w.loops l).work

theorem Removes.turn (h : Removes c ch w w') (hturn : w.Turn c l (w.loops l))
    (hch : ch ∉ (w.loops l).active) : w'.Turn c l (w'.loops l) where
  active := by
    rw [h.active]
    intro d hd
    refine (hturn.active d hd).imp_right fun hknown => (h.known_iff d).mpr ⟨hknown, ?_⟩
    exact fun heq => hch (heq ▸ hd)
  nodup := by
    rw [h.active]
    exact hturn.nodup
  current := by
    rw [h.active, h.current]
    exact fun d hd => (hturn.current d hd).imp_right (And.imp_left h.entitled_iff.mpr)
  handling := by
    rw [h.active, h.current, h.phase]
    exact hturn.handling
  functors := by
    rw [h.functors, h.phase]
    exact hturn.functors
  removal := by
    rw [h.phase]
    exact fun k hk => hturn.removal k ((h.work l).subset hk)
  handle := by
    rw [h.current]
    exact fun d callback hmem => hturn.handle d callback ((h.work l).subset hmem)
  last := hturn.last.sublist (h.work l).sublist

theorem Removes.owns (h : Removes c ch w w') {d : ChannelId} (hd : w'.Owns c d) : w.Owns c d := by
  cases d with
  | wakeup | timerQueue => trivial
  | acceptor => exact (congrArg Option.isSome h.server).symm.trans hd
  | connector => exact ((h.known_iff _).mp hd).1
  | conn k => exact (congrArg Option.isSome (congrFun h.conn k)).symm.trans hd

/-- The descriptor of the channel of a connector is then in hand. -/
theorem Removes.sole (h : Removes c ch w w') (hsole : w.Sole c none)
    (hhand : ∀ m ∈ hand, ∃ j n, ch = .connector j n ∧ m = w.fd ch ∧ w.Known c ch) :
    w'.Sole c hand where
  isOpen := fun d hd => by
    rw [h.isOpen, h.fd]
    exact hsole.isOpen d (h.owns hd)
  inj := fun d d' hd hd' heq => by
    rw [h.fd] at heq
    exact hsole.inj d d' (h.owns hd) (h.owns hd') heq
  hand := fun m hm => by
    obtain ⟨j, n, rfl, rfl, hknown⟩ := hhand m hm
    rw [h.isOpen, h.fd]
    refine ⟨hsole.isOpen _ hknown, fun d hd heq => ?_⟩
    obtain rfl := hsole.inj d (.connector j n) (h.owns hd) hknown heq
    exact ((h.known_iff _).mp hd).2 rfl

theorem Removes.orderly (h : Removes c ch w w') (horderly : w.Orderly c none none)
    (hactive : ∀ l, ch ∉ (w.loops l).active)
    (hhand : ∀ m ∈ hand, ∃ j n, ch = .connector j n ∧ m = w.fd ch ∧ w.Known c ch)
    (hbusy : ∀ j n, ch = .connector j n → j ∈ busy)
    (hremoving : ∀ k, .conn k ≠ ch → w.Removing c (.conn k) → w'.Removing c (.conn k)) :
    w'.Orderly c hand busy where
  sound := by
    have hsound := horderly.sound
    refine ⟨h.placed hsound.placed, h.indexed hsound.indexed, ?_, fun d hd => ?_, fun l k hk => ?_⟩
    · rw [Linked, h.client]
      exact hsound.linked
    · obtain ⟨hknown, hne⟩ := (h.known_iff d).mp hd
      refine (hsound.entitled d hknown).imp h.entitled_iff.mpr fun hrem => ?_
      cases d with
      | conn k => exact hremoving k hne hrem
      | wakeup | timerQueue | acceptor | connector => exact hrem
    · rw [h.ran, h.conn]
      exact hsound.removing l k ((h.work l).subset hk)
  fresh := h.fresh_iff.mpr horderly.fresh
  sole := h.sole horderly.sole hhand
  turn := fun l => h.turn (horderly.turn l) (hactive l)
  handled := by
    intro l j n callback hj hmem hwait
    rw [Waiting, h.client] at hwait
    have hknown := horderly.handled l j n callback (Option.not_mem_none j) ((h.work l).subset hmem)
      hwait
    exact (h.known_iff _).mpr ⟨hknown, fun heq => hj (hbusy j n heq.symm)⟩

/-! ### `Connector` -/

/-- What `removeAndResetChannel` does. -/
theorem removeAndResetChannel_eq_ok (hok : w.removeAndResetChannel c j = .ok (w', sockfd)) :
    ∃ client n, w.client j = some client ∧ client.connector_.channel_ = some n ∧
      sockfd = w.fd (.connector j n) ∧ Removes c (.connector j n) w w' ∧
      (∀ l, (w'.loops l).work = (w.loops l).work) ∧
      ∀ l, (w'.loops l).toRun =
        (w.loops l).toRun ++ if l = c.clientLoop j then [.resetChannel j] else [] := by
  obtain ⟨client, hclient, hok⟩ := bind_eq_ok.mp hok
  split at hok
  · cases hok
  next n hn =>
  obtain ⟨u, hu, hok⟩ := bind_eq_ok.mp hok
  obtain ⟨v, hv, hok⟩ := bind_eq_ok.mp hok
  obtain ⟨rfl, rfl⟩ := Prod.mk.inj (Except.ok.inj hok)
  have henters := enters_of_update hu
  have hleaves := leaves_of_removeChannel hv
  have hcalm : Calm c v (v.queueInLoop (c.clientLoop j) (.resetChannel j)) := calm_modify v _ rfl
  have hloops : ∀ l, v.loops l = { w.loops l with poller := (v.loops l).poller } := by
    intro l
    rw [hleaves.loops, henters.loops]
  have hqueue : ∀ l, (v.queueInLoop (c.clientLoop j) (.resetChannel j)).loops l =
      { v.loops l with pendingFunctors_ := (v.loops l).pendingFunctors_ ++
          if l = c.clientLoop j then [.resetChannel j] else [] } := by
    intro l
    by_cases hl : l = c.clientLoop j
    · rw [if_pos hl, hl, queueInLoop, loops_modify_self]
    · rw [if_neg hl, queueInLoop, loops_modify_of_ne v hl, List.append_nil]
  have hwork : ∀ l, ((v.queueInLoop (c.clientLoop j) (.resetChannel j)).loops l).work =
      (w.loops l).work := by
    intro l
    rw [hqueue, hloops]
  refine ⟨client, n, alive_eq_ok.mp hclient, hn, congrFun (hleaves.fd.trans henters.fd) _, ?_,
    hwork, ?_⟩
  · exact {
      fd := hleaves.fd.trans henters.fd
      isOpen := hleaves.isOpen.trans henters.isOpen
      server := hleaves.server.trans henters.server
      client := hleaves.client.trans henters.client
      conn := hleaves.conn.trans henters.conn
      known_iff := fun d => by
        rw [hcalm.known_iff, hleaves.known_iff, henters.known_iff]
        exact and_congr_left fun hne => or_iff_left hne
      placed := hcalm.placed ∘ hleaves.placed ∘ henters.placed
      indexed := hcalm.indexed ∘ hleaves.indexed ∘ henters.indexed
      phase := fun l => by rw [hqueue, hloops]
      active := fun l => by rw [hqueue, hloops]; rfl
      current := fun l => by rw [hqueue, hloops]
      functors := fun l => by rw [hqueue, hloops]
      ran := fun l => by rw [hqueue, hloops]
      work := fun l => (hwork l).symm ▸ List.suffix_rfl }
  · intro l
    rw [hqueue, hloops]
    exact (List.append_assoc ..).symm

/-- The channel that is being handled is removed. Its descriptor is then in hand. -/
theorem Good.removeAndResetChannel (h : w.Good c none none)
    (hcurrent : (w.loops (c.clientLoop j)).current = some (.connector j n))
    (hknown : w.Known c (.connector j n))
    (hok : w.removeAndResetChannel c j = .ok (w', sockfd)) :
    w'.Good c (some sockfd) (some j) ∧ SameObjects w w' ∧
      (∀ l, (w'.loops l).work = (w.loops l).work) ∧
      ∀ l, ∀ f ∈ w.allFunctors l, f ∈ w'.allFunctors l := by
  obtain ⟨client, m, hclient, hm, rfl, hremoves, hwork, htoRun⟩ := removeAndResetChannel_eq_ok hok
  obtain ⟨-, ⟨client', hclient', hchannel⟩, hnext⟩ := (h.turn _).current _ hcurrent
  obtain rfl := Option.some.inj (hclient.symm.trans hclient')
  obtain rfl := Option.some.inj (hm.symm.trans hchannel)
  refine ⟨⟨hremoves.orderly h.toOrderly ?_ ?_ ?_ ?_, ?_⟩, hremoves.toSameObjects, hwork,
    fun l f hf => ?_⟩
  · intro l hactive
    obtain rfl := ((h.turn l).active _ hactive).1
    exact hnext hactive
  · intro fd hfd
    obtain rfl := Option.some.inj (Option.mem_def.mp hfd)
    exact ⟨j, m, rfl, rfl, hknown⟩
  · intro j' n' heq
    exact congrArg some (ChannelId.connector.inj heq).1
  · intro k _ hrem
    rw [Removing, hwork]
    exact hrem
  · -- the channel of the connector is not known any more, and one functor waits to destroy it
    intro l j'
    have hbefore := h.resets l j'
    rw [htoRun, List.count_append]
    by_cases hj' : j' = j
    · subst hj'
      have hafter : w'.due c j' = 1 := by
        rw [due_of_some (hremoves.client ▸ hclient) hm]
        exact if_neg fun hafter => ((hremoves.known_iff _).mp hafter).2 rfl
      rw [due_of_some hclient hm, if_pos hknown, ite_self, Nat.le_zero] at hbefore
      rw [hafter, hbefore, Nat.zero_add]
      split_ifs
      · exact (List.count_singleton_self (a := Functor.resetChannel j')).le
      · exact le_rfl
    · have hsame : w'.due c j' = w.due c j' := by
        refine due_congr (congrFun hremoves.client j') fun n' => (hremoves.known_iff _).trans ?_
        exact and_iff_left fun heq => hj' (ChannelId.connector.inj heq).1
      have hother : Functor.resetChannel j' ∉
          (if l = c.clientLoop j then [.resetChannel j] else [] : List Functor) := by
        split_ifs
        · exact fun hmem => hj' (Functor.resetChannel.inj (List.mem_singleton.mp hmem))
        · exact List.not_mem_nil
      rwa [hsame, List.count_eq_zero_of_not_mem hother, Nat.add_zero]
  · rw [allFunctors, hremoves.ran, htoRun, ← List.append_assoc]
    exact List.mem_append_left _ hf

theorem due_le_one : w.due c j ≤ 1 := by
  rw [due]
  split
  · exact le_rfl
  · split
    · exact Nat.zero_le 1
    · split_ifs <;> simp

theorem client_runAfter {t : Option LoopId} {cb : TimerCallback}
    (hok : w.runAfter t l cb = .ok w') : w'.client = w.client := by
  simp only [runAfter, runInLoop] at hok
  split_ifs at hok <;> exact (Except.ok.inj hok) ▸ rfl

theorem not_waiting_setConnector {client : Client} {connector_ : Connector}
    (hstate : connector_.state_ ≠ .kConnecting) :
    ¬(w.setConnector j client connector_).Waiting j := by
  rintro ⟨client', hclient', hwait⟩
  obtain rfl := Option.some.inj ((client_setClient_self w j _).symm.trans hclient')
  exact hstate hwait

theorem not_waiting_of_retry (hok : w.retry c j sockfd = .ok w') : ¬w'.Waiting j := by
  obtain ⟨client, hclient, hok⟩ := bind_eq_ok.mp hok
  dsimp only at hok
  split_ifs at hok
  · rw [Waiting, client_runAfter hok]
    exact not_waiting_setConnector (by simp)
  · obtain rfl := Except.ok.inj hok
    exact not_waiting_setConnector (by simp)

theorem Good.retry (h : w.Good c (some sockfd) (some j)) (hok : w.retry c j sockfd = .ok w') :
    w'.Good c none none :=
  ((steady_retry hok).good h).idle fun hwait => absurd hwait (not_waiting_of_retry hok)

/-- `handleError` of the channel that is being handled. -/
theorem Good.handleError (h : w.Good c none none)
    (hcurrent : (w.loops (c.clientLoop j)).current = some (.connector j n))
    (hknown : w.Waiting j → w.Known c (.connector j n)) (hok : w.handleError c j = .ok w') :
    w'.Good c none none := by
  obtain ⟨client, hclient, hok⟩ := bind_eq_ok.mp hok
  have hclient := alive_eq_ok.mp hclient
  split_ifs at hok with hstate
  · obtain ⟨⟨v, sockfd⟩, hv, hok⟩ := bind_eq_ok.mp hok
    have hknown := hknown ⟨client, hclient, hstate⟩
    exact (h.removeAndResetChannel hcurrent hknown hv).1.retry hok
  · obtain rfl := Except.ok.inj hok
    exact h

theorem Good.connected (h : w.Good c hand busy) {client : Client}
    (hclient : w.client j = some client) :
    (w.setConnector j client { client.connector_ with state_ := .kConnected }).Good c hand
      busy := by
  have hset : Steady c hand hand w
      (w.setConnector j client { client.connector_ with state_ := .kConnected }) :=
    steady_setConnector hclient rfl fun hwait => by cases hwait
  exact hset.good h

/-- `handleWrite` of the channel that is being handled. It is the last callback. -/
theorem Good.handleConnected (h : w.Good c none none)
    (hcurrent : (w.loops (c.clientLoop j)).current = some (.connector j n))
    (hknown : w.Waiting j → w.Known c (.connector j n))
    (hlast : (w.loops (c.clientLoop j)).work = [])
    (hshared : ∀ client ∈ w.client j, client.Connects a → ∀ k ∈ client.connection_, w.Open k →
      w.Shared c j k)
    (hok : w.handleConnected c j a = .ok w') : w'.Good c none none := by
  obtain ⟨client, hclient, hok⟩ := bind_eq_ok.mp hok
  have hclient := alive_eq_ok.mp hclient
  by_cases hstate : client.connector_.state_ = .kConnecting
  · rw [if_pos hstate] at hok
    obtain ⟨⟨v, sockfd⟩, hv, hok⟩ := bind_eq_ok.mp hok
    obtain ⟨hgood, hsame, hwork, hfunctors⟩ :=
      h.removeAndResetChannel hcurrent (hknown ⟨client, hclient, hstate⟩) hv
    have hvclient : v.client j = some client := (congrFun hsame.client j).trans hclient
    dsimp only at hok
    split_ifs at hok with herror hself hconnect
    · -- the state remains `kConnecting`, but no callback is left
      obtain rfl := Except.ok.inj hok
      refine ((steady_forget v _).good hgood).idle fun _ l n' callback hmem => ?_
      have hl := ((hgood.turn l).current _ ((hgood.turn l).handle _ _ hmem)).1
      rw [hwork, ← show c.clientLoop j = l from hl, hlast] at hmem
      cases hmem
    · exact hgood.retry hok
    · have hgood := (hgood.connected hvclient).idle fun hwait =>
        absurd hwait (not_waiting_setConnector (by simp))
      refine (steady_newConnectionOfClient hgood.sound hgood.fresh ?_ hok).good hgood
      intro client' hclient' k hk hopen
      rw [setConnector, client_setClient_self] at hclient'
      obtain rfl := Option.some.inj (Option.mem_def.mp hclient')
      have hopen : w.Open k := by
        obtain ⟨conn, hconn, hisOpen⟩ := hopen
        exact ⟨conn, (congrFun hsame.conn k).symm.trans hconn, hisOpen⟩
      have hconnects : client.Connects a :=
        ⟨hstate, not_not.mp herror, Bool.not_eq_true _ ▸ hself, hconnect⟩
      refine useCount_ne_zero_of_shared (hshared client hclient hconnects k hk hopen) hsame.server
        (fun j' hj' => ?_) hfunctors fun conn hconn => ?_
      · refine (Function.update_of_ne hj' ..).trans ?_
        exact (client_setClient_of_ne v hj' _).trans (congrFun hsame.client j')
      · exact ⟨conn, (congrFun hsame.conn k).trans hconn, rfl⟩
    · have hgood := (hgood.connected hvclient).idle fun hwait =>
        absurd hwait (not_waiting_setConnector (by simp))
      obtain rfl := Except.ok.inj hok
      exact (steady_closeFd _ sockfd).good hgood
  · rw [if_neg hstate] at hok
    obtain ⟨_, -, hok⟩ := bind_eq_ok.mp hok
    obtain rfl := Except.ok.inj hok
    exact h

/-- An object is given up whose channel is not known. -/
structure Forgets (c : Setup) (w w' : World) : Prop where
  loops : w'.loops = w.loops
  fd : w'.fd = w.fd
  index : w'.index = w.index
  isOpen : w'.isOpen = w.isOpen
  conn : w'.conn = w.conn
  entitled : ∀ ch, w.Entitled ch → w'.Entitled ch ∨
    ¬w.Known c ch ∧ ∀ l, ch ∉ (w.loops l).current
  owns : ∀ ch, w'.Owns c ch → w.Owns c ch
  linked : w.Linked c → w'.Linked c
  fresh : w.Fresh → w'.Fresh
  waiting : ∀ j, w'.Waiting j → w.Waiting j

theorem Forgets.known_iff (h : Forgets c w w') : w'.Known c ch ↔ w.Known c ch := by
  rw [Known, Known, h.loops, h.fd]

theorem Forgets.sole (h : Forgets c w w') (hsole : w.Sole c hand) : w'.Sole c hand where
  isOpen := fun ch hch => by
    rw [h.isOpen, h.fd]
    exact hsole.isOpen ch (h.owns ch hch)
  inj := fun ch ch' hch hch' heq => by
    rw [h.fd] at heq
    exact hsole.inj ch ch' (h.owns ch hch) (h.owns ch' hch') heq
  hand := fun n hn => by
    rw [h.isOpen, h.fd]
    exact ⟨(hsole.hand n hn).1, fun ch hch => (hsole.hand n hn).2 ch (h.owns ch hch)⟩

theorem Forgets.orderly (h : Forgets c w w') (horderly : w.Orderly c hand busy)
    (hsole : w'.Sole c hand') : w'.Orderly c hand' busy where
  sound := by
    have hsound := horderly.sound
    refine ⟨?_, ?_, h.linked hsound.linked, fun ch hch => ?_, ?_⟩
    · rw [Placed, h.loops, h.fd]
      exact hsound.placed
    · intro ch hch
      rw [h.index]
      exact hsound.indexed ch (h.known_iff.mp hch)
    · have hch := h.known_iff.mp hch
      rcases hsound.entitled ch hch with hent | hrem
      · exact .inl ((h.entitled ch hent).resolve_right fun hlost => hlost.1 hch)
      · cases ch with
        | conn k =>
          refine .inr ?_
          rw [Removing, h.loops]
          exact hrem
        | wakeup | timerQueue | acceptor | connector => cases hrem
    · rw [h.loops, h.conn]
      exact hsound.removing
  fresh := h.fresh horderly.fresh
  sole := hsole
  turn := by
    rw [h.loops]
    exact fun l => {
      horderly.turn l with
      active := fun ch hch => ((horderly.turn l).active ch hch).imp_right h.known_iff.mpr
      current := fun ch hch => by
        obtain ⟨hhome, hent, hnext⟩ := (horderly.turn l).current ch hch
        exact ⟨hhome, (h.entitled ch hent).resolve_right fun hlost => hlost.2 l hch, hnext⟩ }
  handled := by
    rw [h.loops]
    exact fun l j n callback hj hmem hwait =>
      h.known_iff.mpr (horderly.handled l j n callback hj hmem (h.waiting j hwait))

/-- The channel of a connector is destroyed that is not known, and not being handled. -/
theorem forgets_resetChannel {client : Client} (hclient : w.client j = some client)
    (hunknown : ∀ n, client.connector_.channel_ = some n → ¬w.Known c (.connector j n))
    (hcurrent : ∀ l n, .connector j n ∉ (w.loops l).current) :
    Forgets c w (w.setConnector j client { client.connector_ with channel_ := none }) := by
  have hother : ∀ j', j' ≠ j → (w.setConnector j client
      { client.connector_ with channel_ := none }).client j' = w.client j' :=
    fun j' hj' => client_setClient_of_ne w hj' _
  -- a client and what becomes of it
  have hback : ∀ j', ∀ client' ∈ (w.setConnector j client
      { client.connector_ with channel_ := none }).client j', ∃ client'' ∈ w.client j',
      client'.connection_ = client''.connection_ ∧ client'.nextConnId_ = client''.nextConnId_ ∧
        client'.connector_.state_ = client''.connector_.state_ := by
    intro j' client' hclient'
    by_cases hj' : j' = j
    · subst hj'
      obtain rfl := Option.some.inj ((client_setClient_self w j' _).symm.trans hclient')
      exact ⟨client, hclient, rfl, rfl, rfl⟩
    · exact ⟨client', (hother j' hj').symm.trans hclient', rfl, rfl, rfl⟩
  refine ⟨rfl, rfl, rfl, rfl, rfl, fun ch hent => ?_, fun ch hch => ?_,
    fun hlinked j' client' hc => ?_,
    fun hfresh => ⟨hfresh.server, fun j' n hn client' hc => ?_⟩, fun j' hwait => ?_⟩
  · cases ch with
    | connector j' n =>
      obtain ⟨client', hclient', hn⟩ := hent
      by_cases hj' : j' = j
      · subst hj'
        obtain rfl := Option.some.inj (hclient.symm.trans hclient')
        exact .inr ⟨hunknown n hn, fun l => hcurrent l n⟩
      · exact .inl ⟨client', (hother j' hj').trans hclient', hn⟩
    | wakeup | timerQueue | acceptor | conn => exact .inl hent
  · cases ch <;> exact hch
  · obtain ⟨client'', hclient'', heq, -⟩ := hback j' client' hc
    rw [heq]
    exact hlinked j' client'' hclient''
  · obtain ⟨client'', hclient'', -, heq, -⟩ := hback j' client' hc
    rw [heq]
    exact hfresh.client j' n hn client'' hclient''
  · obtain ⟨client', hclient', hstate⟩ := hwait
    obtain ⟨client'', hclient'', -, -, heq⟩ := hback j' client' hclient'
    exact ⟨client'', hclient'', heq ▸ hstate⟩

/-- `resetChannel` is run. The poller does not know the channel any more. -/
theorem Good.resetChannel (h : w.Good c none none) (hphase : (w.loops l).phase = .functors)
    {functors : List Functor} (hfunctors : (w.loops l).functors = .resetChannel j :: functors)
    (hok : (w.modify l fun s => { s with functors, ran := s.ran ++ [.resetChannel j] }).resetChannel
      j = .ok w') : w'.Good c none none := by
  set v := w.modify l fun s => { s with functors, ran := s.ran ++ [.resetChannel j] } with hv
  have hcalm : Calm c w v := calm_modify w l rfl
  have horderly : v.Orderly c none none := h.toOrderly.modify (.takes h.toOrderly hphase functors _)
  obtain ⟨client, hclient, hok⟩ := bind_eq_ok.mp hok
  obtain rfl := Except.ok.inj hok
  have hclient := alive_eq_ok.mp hclient
  -- the functor is there because a channel waits for it
  have hresets := h.resets l j
  rw [LoopState.toRun, hfunctors, List.cons_append, List.count_cons_self] at hresets
  have hl : l = c.clientLoop j := by
    by_contra hl
    rw [if_neg hl] at hresets
    omega
  rw [if_pos hl, ← hcalm.due_eq] at hresets
  have hunknown : ∀ n, client.connector_.channel_ = some n → ¬v.Known c (.connector j n) := by
    intro n hn hknown
    rw [due_of_some hclient hn, if_pos hknown] at hresets
    omega
  have hcurrent : ∀ l' n, .connector j n ∉ (v.loops l').current := by
    intro l' n hn
    have hhome := ((horderly.turn l').current _ hn).1
    rw [← show c.clientLoop j = l' from hhome, ← hl] at hn
    have hnone := ((horderly.turn l).handling (by rw [hv, loops_modify_self, hphase]; decide)).2
    exact Option.not_mem_none _ (hnone ▸ hn)
  have hforgets := forgets_resetChannel hclient hunknown hcurrent
  refine ⟨hforgets.orderly horderly (hforgets.sole horderly.sole), fun l' j' => ?_⟩
  have hbefore := h.resets l' j'
  rw [← hcalm.due_eq] at hbefore
  by_cases hj' : j' = j
  · -- it was the only one
    subst hj'
    have hafter :
        (v.setConnector j' client { client.connector_ with channel_ := none }).due c j' = 0 :=
      due_of_none (client_setClient_self v j' _) rfl
    have hdue : v.due c j' ≤ 1 := due_le_one
    rw [hafter, ite_self]
    by_cases hl' : l' = l
    · rw [hl', hforgets.loops, hv, loops_modify_self]
      simp only [LoopState.toRun]
      omega
    · rw [hforgets.loops, hv, loops_modify_of_ne w hl']
      rwa [if_neg fun heq => hl' (heq.trans hl.symm)] at hbefore
  · have hdue : (v.setConnector j client { client.connector_ with channel_ := none }).due c j' =
        v.due c j' :=
      due_congr (client_setClient_of_ne v hj' _) fun _ => hforgets.known_iff
    rw [hdue, hforgets.loops]
    refine le_of_eq_of_le ?_ hbefore
    by_cases hl' : l' = l
    · rw [hl', hv, loops_modify_self, LoopState.toRun, LoopState.toRun, hfunctors, List.cons_append,
        List.count_cons_of_ne fun heq => hj' (Functor.resetChannel.inj heq).symm]
    · rw [hv, loops_modify_of_ne w hl']

/-! ### `connDestroyed` -/

/-- `connDestroyed` is run. The thread will then remove the channel. -/
theorem Good.connDestroyed (h : w.Good c none none)
    (hphase : (w.loops (c.loopOf k)).phase = .functors)
    (hran : .connDestroyed k ∈ (w.loops (c.loopOf k)).ran) (hok : w.connDestroyed c k = .ok w') :
    w'.Good c none none := by
  obtain ⟨conn, hconn, hok⟩ := bind_eq_ok.mp hok
  obtain ⟨_, -, hok⟩ := bind_eq_ok.mp hok
  obtain ⟨u, hu, hok⟩ := bind_eq_ok.mp hok
  obtain rfl := Except.ok.inj hok
  have hconn := alive_eq_ok.mp hconn
  have henters := enters_of_update hu
  set w' := u.modify (c.loopOf k) fun s => { s with work := .removeChannel k :: s.work } with hw'
  have hcalm : Calm c u w' := calm_modify u _ rfl
  have hknown : ∀ d, w'.Known c d ↔ w.Known c d ∨ d = .conn k :=
    fun d => hcalm.known_iff.trans henters.known_iff
  have hconnector : ∀ j n, w'.Known c (.connector j n) ↔ w.Known c (.connector j n) :=
    fun j n => (hknown _).trans (or_iff_left fun heq => by cases heq)
  have hself : w'.conn k = some { conn with state_ := .kDisconnected } :=
    (congrFun henters.conn k).trans (Function.update_self ..)
  have hother : ∀ k', k' ≠ k → w'.conn k' = w.conn k' :=
    fun k' hk' => (congrFun henters.conn k').trans (Function.update_of_ne hk' ..)
  have hsome : ∀ k', (w'.conn k').isSome = (w.conn k').isSome := by
    intro k'
    by_cases hk' : k' = k
    · rw [hk', hself, hconn]
      rfl
    · rw [hother k' hk']
  have hentitled : ∀ d, d ≠ .conn k → w.Entitled d → w'.Entitled d := by
    intro d hd hent
    cases d with
    | wakeup | timerQueue => trivial
    | acceptor => exact hcalm.entitled (henters.entitled_iff.mpr hent)
    | connector => exact hcalm.entitled (henters.entitled_iff.mpr hent)
    | conn k' =>
      obtain ⟨conn', hconn', hopen⟩ := hent
      exact ⟨conn', (hother k' fun heq => hd (congrArg _ heq)).trans hconn', hopen⟩
  have hloops : ∀ l, w'.loops l = { w.loops l with
      poller := (w'.loops l).poller
      work := (if l = c.loopOf k then [.removeChannel k] else []) ++ (w.loops l).work } := by
    intro l
    by_cases hl : l = c.loopOf k
    · rw [if_pos hl, hl, hw', loops_modify_self, henters.loops]
      rfl
    · rw [if_neg hl, hw', loops_modify_of_ne u hl, henters.loops]
      rfl
  have hactive : ∀ l, (w'.loops l).active = (w.loops l).active := fun l => by rw [hloops]; rfl
  have hcurrent : ∀ l, (w'.loops l).current = (w.loops l).current := fun l => by rw [hloops]
  have hphases : ∀ l, (w'.loops l).phase = (w.loops l).phase := fun l => by rw [hloops]
  have hfunctors : ∀ l, (w'.loops l).functors = (w.loops l).functors := fun l => by rw [hloops]
  have hwork : ∀ l task, task ∈ (w'.loops l).work ↔
      task ∈ (w.loops l).work ∨ l = c.loopOf k ∧ task = .removeChannel k := by
    intro l task
    rw [hloops, List.mem_append, or_comm]
    split_ifs with hl <;> simp [hl]
  have hhandle : ∀ l d callback, .handle d callback ∈ (w'.loops l).work ↔
      .handle d callback ∈ (w.loops l).work :=
    fun l d callback => (hwork l _).trans (or_iff_left fun hnew => by cases hnew.2)
  -- the connection is not being handled: the thread of its loop runs functors
  have hidle : ∀ l, .conn k ∉ (w.loops l).current := by
    intro l hk
    obtain ⟨rfl, -⟩ := (h.turn l).current _ hk
    have hnone := ((h.turn (c.loopOf k)).handling (by rw [hphase]; decide)).2
    exact Option.not_mem_none _ (hnone ▸ hk)
  refine ⟨⟨⟨hcalm.placed (henters.placed h.sound.placed),
    hcalm.indexed (henters.indexed h.sound.indexed), ?_, ?_, ?_⟩, ?_, ?_, ?_, ?_⟩, ?_⟩
  · intro j client hclient
    exact h.sound.linked j client ((congrFun henters.client j).symm.trans hclient)
  · intro d hd
    by_cases hdk : d = .conn k
    · subst hdk
      exact .inr ((hwork _ _).mpr (.inr ⟨rfl, rfl⟩))
    · have hd := ((hknown d).mp hd).resolve_right hdk
      refine (h.sound.entitled d hd).imp (hentitled d hdk) fun hrem => ?_
      cases d with
      | conn k' => exact (hwork _ _).mpr (.inl hrem)
      | wakeup | timerQueue | acceptor | connector => cases hrem
  · intro l k' hk'
    rw [hsome, hloops]
    rcases (hwork l _).mp hk' with hk' | ⟨rfl, heq⟩
    · exact h.sound.removing l k' hk'
    · obtain rfl := Task.removeChannel.inj heq
      exact ⟨rfl, hran, Option.isSome_of_mem hconn⟩
  · refine ⟨fun l n hn => ?_, fun j n hn => ?_⟩
    · rw [hsome] at hn
      exact henters.server ▸ h.fresh.server l n hn
    · rw [hsome] at hn
      exact henters.client ▸ h.fresh.client j n hn
  · have howns : ∀ d, w'.Owns c d → w.Owns c d := by
      intro d hd
      cases d with
      | wakeup | timerQueue => trivial
      | acceptor => exact (congrArg Option.isSome henters.server).symm.trans hd
      | connector j n => exact (hconnector j n).mp hd
      | conn k' => exact (hsome k').symm.trans hd
    have hfd : w'.fd = w.fd := henters.fd
    have hopen : w'.isOpen = w.isOpen := henters.isOpen
    refine ⟨fun d hd => ?_, fun d d' hd hd' heq => ?_, fun n hn => by cases hn⟩
    · rw [hopen, hfd]
      exact h.sole.isOpen d (howns d hd)
    · rw [hfd] at heq
      exact h.sole.inj d d' (howns d hd) (howns d' hd') heq
  · intro l
    have hturn := h.turn l
    exact {
      active := fun d hd => by
        rw [hactive] at hd
        exact (hturn.active d hd).imp_right fun hd => (hknown d).mpr (.inl hd)
      nodup := by
        rw [hactive]
        exact hturn.nodup
      current := fun d hd => by
        rw [hcurrent] at hd
        rw [hactive]
        obtain ⟨hhome, hent, hnext⟩ := hturn.current d hd
        exact ⟨hhome, hentitled d (fun heq => hidle l (heq ▸ hd)) hent, hnext⟩
      handling := by
        rw [hactive, hcurrent, hphases]
        exact hturn.handling
      functors := by
        rw [hfunctors, hphases]
        exact hturn.functors
      removal := fun k' hk' => by
        rw [hphases]
        rcases (hwork l _).mp hk' with hk' | ⟨rfl, -⟩
        · exact hturn.removal k' hk'
        · exact hphase
      handle := fun d callback hd => by
        rw [hcurrent]
        exact hturn.handle d callback ((hhandle l d callback).mp hd)
      last := by
        rw [hloops]
        refine List.pairwise_append.mpr ⟨?_, hturn.last, fun task htask _ _ d heq => ?_⟩
        · split_ifs
          · exact List.pairwise_singleton _ _
          · exact List.Pairwise.nil
        · subst heq
          split_ifs at htask <;> simp at htask }
  · intro l j n callback _ hmem hwait
    rw [hhandle] at hmem
    obtain ⟨client, hclient, hstate⟩ := hwait
    have hwait : w.Waiting j := ⟨client, (congrFun henters.client j).symm.trans hclient, hstate⟩
    exact (hconnector j n).mpr (h.handled l j n callback (Option.not_mem_none j) hmem hwait)
  · intro l j
    have hdue : w'.due c j = w.due c j := due_congr (congrFun henters.client j) (hconnector j)
    rw [hdue, hloops]
    exact h.resets l j

end World

end Reactor

end MuduoRebuild
