import MuduoRebuild.ChatServer.Basic
import MuduoRebuild.Foundations.Run

/-!
# The chat room is fair

Every message that is decoded, from whichever connection, is a post whose audience are the clients
of that moment, the connections in `connections_` in the state `kConnected`. `Extends` says what a
part of a run adds to the posts, and that every connection has received one frame for each post
that was addressed to it, in the order of the posts.

While a message is passed around nobody joins or leaves: `sendInLoop` changes neither the set nor
any state. So an invalid length, which shuts its own connection down, comes after all messages of
its chunk, and no other step decodes anything.
-/

namespace MuduoRebuild

namespace ChatServer

open Fallible
open LengthHeaderCodec (frame)
open Multicast (Post heard)

namespace World

variable {c : Setup} {w w' w'' : World} {k : ℕ} {message : List UInt8}
  {ps qs : List (Post ℕ (List UInt8))}

/-- The clients are the same. -/
structure SameClients (w w' : World) : Prop where
  connections_eq : w'.connections = w.connections
  state_eq : ∀ j, (w'.conn j).state = (w.conn j).state

/-- The clients are the same, and nothing has happened. -/
structure Silent (w w' : World) : Prop extends SameClients w w' where
  log_eq : w'.log = w.log

/-- Nobody is in `connections_` twice. The posts are added, and every connection has received a
frame for each of them that is addressed to it. -/
structure Extends (w w' : World) (ps : List (Post ℕ (List UInt8))) : Prop where
  posts_eq : w'.posts = w.posts ++ ps
  received_eq : ∀ k, w'.received k = w.received k ++ (heard k ps).map frame
  nodup : w'.connections.Nodup

theorem sameClients_refl (w : World) : SameClients w w := ⟨rfl, fun _ => rfl⟩

theorem silent_refl (w : World) : Silent w w := ⟨sameClients_refl w, rfl⟩

theorem SameClients.trans (h : SameClients w w') (h' : SameClients w' w'') : SameClients w w'' :=
  ⟨h'.connections_eq.trans h.connections_eq, fun j => (h'.state_eq j).trans (h.state_eq j)⟩

theorem Silent.trans (h : Silent w w') (h' : Silent w' w'') : Silent w w'' :=
  ⟨h.toSameClients.trans h'.toSameClients, h'.log_eq.trans h.log_eq⟩

theorem SameClients.clients_eq (h : SameClients w w') : w'.clients = w.clients := by
  simp only [clients, h.connections_eq, h.state_eq]

theorem Extends.trans (h : Extends w w' ps) (h' : Extends w' w'' qs) :
    Extends w w'' (ps ++ qs) where
  posts_eq := by rw [h'.posts_eq, h.posts_eq, List.append_assoc]
  received_eq := by
    intro k
    rw [h'.received_eq, h.received_eq, Multicast.heard_append, List.map_append, List.append_assoc]
  nodup := h'.nodup

/-- The same, when nothing is decoded in the second part. -/
theorem Extends.trans_nil (h : Extends w w' ps) (h' : Extends w' w'' []) : Extends w w'' ps := by
  have hthen := h.trans h'
  rwa [List.append_nil] at hthen

/-- A part of a run in which nothing is decoded or sent. -/
theorem extends_nil (hlog : w'.log = w.log) (hnodup : w'.connections.Nodup) : Extends w w' [] where
  posts_eq := by rw [posts, hlog, List.append_nil, posts]
  received_eq := fun k => by rw [received, hlog, Multicast.heard_nil, List.map_nil,
    List.append_nil, received]
  nodup := hnodup

theorem extends_modify (f : Conn → Conn) (hnodup : w.connections.Nodup) :
    Extends w (w.modify k f) [] :=
  extends_nil rfl hnodup

theorem Silent.extends_nil (h : Silent w w') (hnodup : w.connections.Nodup) : Extends w w' [] :=
  World.extends_nil h.log_eq (h.connections_eq ▸ hnodup)

theorem posts_record (w : World) (e : Event) :
    (w.record e).posts = w.posts ++ e.post?.toList := by
  rw [posts, record, List.filterMap_append]
  cases h : e.post? <;> simp [posts, h]

theorem received_record (w : World) (e : Event) (j : ℕ) :
    (w.record e).received j = w.received j ++ (e.sentTo? j).toList := by
  rw [received, record, List.filterMap_append]
  cases h : e.sentTo? j <;> simp [received, h]

theorem mem_clients {j : ℕ} : j ∈ w.clients ↔ w.IsClient j := by
  rw [clients, List.mem_filter, decide_eq_true_eq, IsClient]

/-! ### Silent parts -/

theorem silent_modify {f : Conn → Conn} (hf : ∀ conn, (f conn).state = conn.state) :
    Silent w (w.modify k f) := by
  refine ⟨⟨rfl, fun j => ?_⟩, rfl⟩
  simp only [modify, Function.update_apply]
  split_ifs with hj
  · rw [hf, hj]
  · rfl

theorem silent_update {u : Channel.Update} (h : w.update k u = .ok w') : Silent w w' := by
  obtain ⟨loop, -, hok⟩ := bind_eq_ok.mp h
  obtain rfl := Except.ok.inj hok
  exact ⟨⟨rfl, fun _ => rfl⟩, rfl⟩

theorem silent_sendDirectly : Silent w (w.sendDirectly c k message).1 := by
  rw [sendDirectly]
  split_ifs
  · exact ⟨⟨rfl, fun _ => rfl⟩, rfl⟩
  · exact silent_refl w

theorem silent_buffer {rest : List UInt8} (h : w.buffer k rest = .ok w') : Silent w w' := by
  rw [buffer] at h
  have hmodify : Silent w (w.modify k fun conn =>
    { conn with outputBuffer := conn.outputBuffer ++ rest }) := silent_modify fun _ => rfl
  split_ifs at h
  · obtain rfl := Except.ok.inj h
    exact hmodify
  · exact hmodify.trans (silent_update h)

/-- `sendInLoop` is called, and changes no state. -/
theorem silent_sendInLoop (h : w.sendInLoop c k message = .ok w') :
    Silent (w.record (.sent k message)) w' := by
  have hdirect : Silent (w.record (.sent k message))
    ((w.record (.sent k message)).sendDirectly c k message).1 := silent_sendDirectly
  simp only [sendInLoop] at h
  split_ifs at h
  · exact hdirect.trans (silent_buffer h)
  · obtain rfl := Except.ok.inj h
    exact hdirect

/-! ### Passing a message around -/

/-- The codec sends a message to one connection, which receives a frame if it is connected. -/
theorem codecSend_spec (h : w.codecSend c k message = .ok w') :
    SameClients w w' ∧ w'.posts = w.posts ∧ ∀ j, w'.received j =
      w.received j ++ if j = k ∧ (w.conn j).state = .kConnected then [frame message] else [] := by
  obtain ⟨content, hcontent, hsend⟩ := bind_eq_ok.mp h
  obtain ⟨-, rfl⟩ := LengthHeaderCodec.send_eq_ok.mp hcontent
  rw [World.send] at hsend
  split_ifs at hsend with hstate
  · have hsilent := silent_sendInLoop hsend
    have hrecord : w'.log = (w.record (.sent k (frame message))).log := hsilent.log_eq
    refine ⟨⟨hsilent.connections_eq, hsilent.state_eq⟩, ?_, ?_⟩
    · rw [posts, hrecord]
      exact (posts_record w _).trans (List.append_nil _)
    · intro j
      rw [received, hrecord]
      refine (received_record w _ j).trans (congrArg _ ?_)
      by_cases hj : j = k
      · subst hj
        rw [if_pos ⟨rfl, hstate⟩, Event.sentTo?, if_pos rfl, Option.toList_some]
      · rw [if_neg fun hand => hj hand.1, Event.sentTo?, if_neg fun heq => hj heq.symm,
          Option.toList_none]
  · obtain rfl := Except.ok.inj hsend
    refine ⟨sameClients_refl w, rfl, fun j => ?_⟩
    rw [if_neg, List.append_nil]
    rintro ⟨rfl, hconnected⟩
    exact hstate hconnected

/-- A message that was decoded is sent to every client once. -/
theorem onStringMessage_spec (hnodup : w.connections.Nodup)
    (h : w.onStringMessage c k message = .ok w') :
    Extends w w' [⟨message, w.clients⟩] ∧ SameClients w w' := by
  set v := w.record (.decoded k message w.clients)
  have hv : v.posts = w.posts ++ [⟨message, w.clients⟩] := posts_record w _
  have hquiet : ∀ j, v.received j = w.received j := fun j =>
    (received_record w _ j).trans (List.append_nil _)
  -- what is kept while the message is passed around
  obtain ⟨⟨hsame, hposts⟩, hreceived⟩ := Multicast.inbox_foldlM received
    (fun s => SameClients v s ∧ s.posts = v.posts) (fun j => (v.conn j).state = .kConnected)
    (b := frame message)
    (fun s j s' hs hsend => by
      obtain ⟨hsame, hposts, hreceived⟩ := codecSend_spec hsend
      refine ⟨⟨hs.1.trans hsame, hposts.trans hs.2⟩, fun i => ?_⟩
      rw [hreceived, hs.1.state_eq])
    hnodup ⟨sameClients_refl v, rfl⟩ h
  refine ⟨⟨hposts.trans hv, fun j => ?_, ?_⟩, ⟨hsame.connections_eq, hsame.state_eq⟩⟩
  · rw [hreceived, hquiet, Multicast.heard_singleton]
    by_cases hj : w.IsClient j
    · exact congrArg _ ((if_pos hj).trans (by rw [if_pos (mem_clients.mpr hj)]; rfl))
    · exact congrArg _ ((if_neg hj).trans (by rw [if_neg (mt mem_clients.mp hj)]; rfl))
  · rw [hsame.connections_eq]
    exact hnodup

/-- The messages of a chunk are passed around one after the other, among the same clients. -/
theorem foldlM_onStringMessage_spec {messages : List (List UInt8)} (hnodup : w.connections.Nodup)
    (h : messages.foldlM (fun w message => w.onStringMessage c k message) w = .ok w') :
    Extends w w' (messages.map fun message => ⟨message, w.clients⟩) ∧ SameClients w w' := by
  induction messages generalizing w with
  | nil =>
    obtain rfl := Except.ok.inj h
    exact ⟨extends_nil rfl hnodup, sameClients_refl w⟩
  | cons message messages ih =>
    obtain ⟨v, hfirst, hrest⟩ := bind_eq_ok.mp h
    obtain ⟨hextends, hsame⟩ := onStringMessage_spec hnodup hfirst
    obtain ⟨hextends', hsame'⟩ := ih hextends.nodup hrest
    rw [hsame.clients_eq] at hextends'
    exact ⟨hextends.trans hextends', hsame.trans hsame'⟩

/-! ### Steps -/

theorem extends_shutdownInLoop (hnodup : w.connections.Nodup) :
    Extends w (w.shutdownInLoop k) [] := by
  rw [shutdownInLoop]
  split_ifs
  · exact extends_nil rfl hnodup
  · exact ⟨posts_record w _, received_record w _, hnodup⟩

theorem extends_shutdown (hnodup : w.connections.Nodup) : Extends w (w.shutdown k) [] := by
  rw [shutdown]
  split_ifs
  · have hmodify := extends_modify (k := k)
      (fun conn => { conn with state := .kDisconnecting }) hnodup
    exact hmodify.trans_nil (extends_shutdownInLoop hmodify.nodup)
  · exact extends_nil rfl hnodup

theorem deliver_spec {parsed : Framing.Parsed UInt8 (List UInt8)} (hnodup : w.connections.Nodup)
    (h : w.deliver c k parsed = .ok w') :
    ∃ ps, Extends w w' ps ∧ ∀ p ∈ ps, p.audience = w.clients := by
  obtain ⟨v, hfold, hok⟩ := bind_eq_ok.mp h
  obtain ⟨hextends, -⟩ := foldlM_onStringMessage_spec hnodup hfold
  obtain rfl := Except.ok.inj hok
  refine ⟨_, hextends.trans_nil ?_, ?_⟩
  · have hrest := extends_modify (k := k) (fun conn => { conn with inputBuffer := parsed.rest })
      hextends.nodup
    split_ifs
    · exact hrest.trans_nil (extends_shutdown hrest.nodup)
    · exact hrest
  · intro p hp
    obtain ⟨message, -, rfl⟩ := List.mem_map.mp hp
    rfl

theorem extends_handleClose (hnodup : w.connections.Nodup) (h : w.handleClose k = .ok w') :
    Extends w w' [] := by
  obtain ⟨-, -, h⟩ := bind_eq_ok.mp h
  obtain ⟨v, hupdate, h⟩ := bind_eq_ok.mp h
  obtain ⟨-, -, h⟩ := bind_eq_ok.mp h
  obtain rfl := Except.ok.inj h
  have hsilent := silent_update hupdate
  exact extends_nil hsilent.log_eq (hsilent.connections_eq ▸ hnodup)

theorem handleRead_spec {bytes : Option (List UInt8)} (hnodup : w.connections.Nodup)
    (h : w.handleRead c k bytes = .ok w') :
    ∃ ps, Extends w w' ps ∧ ∀ p ∈ ps, p.audience = w.clients := by
  match bytes, h with
  | none, h =>
    obtain rfl := Except.ok.inj h
    exact ⟨[], extends_nil rfl hnodup, nofun⟩
  | some [], h => exact ⟨[], extends_handleClose hnodup h, nofun⟩
  | some (b :: bs), h =>
    set v := w.modify k fun conn => { conn with inputBuffer := conn.inputBuffer ++ b :: bs }
    have hsilent : Silent w v := silent_modify fun _ => rfl
    have hdeliver : v.deliver c k (LengthHeaderCodec.onMessage (v.conn k).inputBuffer) = .ok w' := h
    obtain ⟨ps, hextends, haudience⟩ := deliver_spec (hsilent.extends_nil hnodup).nodup hdeliver
    rw [hsilent.clients_eq] at haudience
    exact ⟨ps, (hsilent.extends_nil hnodup).trans hextends, haudience⟩

theorem extends_written {n : ℕ} (hnodup : w.connections.Nodup) (h : w.written k n = .ok w') :
    Extends w w' [] := by
  have hdrop := extends_modify (k := k) (fun conn => { conn with
    outputBuffer := conn.outputBuffer.drop n }) hnodup
  simp only [written] at h
  split_ifs at h
  · obtain ⟨v, hupdate, hok⟩ := bind_eq_ok.mp h
    have hsilent := hdrop.trans_nil ((silent_update hupdate).extends_nil hdrop.nodup)
    obtain rfl := Except.ok.inj hok
    split_ifs
    · exact hsilent.trans_nil (extends_shutdownInLoop hsilent.nodup)
    · exact hsilent
  · obtain rfl := Except.ok.inj h
    exact hdrop

theorem extends_handleWrite (hnodup : w.connections.Nodup) (h : w.handleWrite c k = .ok w') :
    Extends w w' [] := by
  have hwrite : Extends w (w.write c (w.conn k).outputBuffer).1 [] := extends_nil rfl hnodup
  rw [handleWrite] at h
  split_ifs at h
  · generalize w.write c (w.conn k).outputBuffer = p at h hwrite
    match p, h with
    | (v, some (n + 1)), h => exact hwrite.trans_nil (extends_written hwrite.nodup h)
    | (v, some 0), h | (v, none), h =>
      obtain rfl := Except.ok.inj h
      exact hwrite
  · obtain rfl := Except.ok.inj h
    exact extends_nil rfl hnodup

theorem nodup_onConnection (w : World) (k place : ℕ) (hnodup : w.connections.Nodup) :
    (w.onConnection k place).connections.Nodup := by
  rw [onConnection]
  split_ifs with hconnected hmem
  · exact hnodup
  · refine List.perm_middle.nodup_iff.mpr ?_
    rw [List.take_append_drop]
    exact List.nodup_cons.mpr ⟨hmem, hnodup⟩
  · exact hnodup.erase k

theorem log_onConnection (w : World) (k place : ℕ) : (w.onConnection k place).log = w.log := by
  rw [onConnection]
  split_ifs <;> rfl

theorem extends_connEstablished {place : ℕ} (hnodup : w.connections.Nodup)
    (h : w.connEstablished k place = .ok w') : Extends w w' [] := by
  obtain ⟨-, -, h⟩ := bind_eq_ok.mp h
  obtain ⟨v, hupdate, h⟩ := bind_eq_ok.mp h
  obtain rfl := Except.ok.inj h
  have hsilent := silent_update hupdate
  refine extends_nil ((log_onConnection v k place).trans hsilent.log_eq) ?_
  exact nodup_onConnection v k place (hsilent.connections_eq ▸ hnodup)

theorem extends_connDestroyed (hnodup : w.connections.Nodup) (h : w.connDestroyed k = .ok w') :
    Extends w w' [] := by
  obtain ⟨-, -, h⟩ := bind_eq_ok.mp h
  obtain ⟨v, hupdate, h⟩ := bind_eq_ok.mp h
  obtain ⟨loop, -, h⟩ := bind_eq_ok.mp h
  obtain rfl := Except.ok.inj h
  have hsilent := silent_update hupdate
  refine extends_nil ((log_onConnection v k 0).trans hsilent.log_eq) ?_
  exact nodup_onConnection v k 0 (hsilent.connections_eq ▸ hnodup)

/-- A callback of a channel decodes messages only for the clients that there are before it. -/
theorem runTask_spec {bytes : Option (List UInt8)} (hnodup : w.connections.Nodup)
    (h : w.runTask c bytes = .ok w') :
    ∃ ps, Extends w w' ps ∧ ∀ p ∈ ps, p.audience = w.clients := by
  rw [runTask] at h
  split at h
  · obtain rfl := Except.ok.inj h
    exact ⟨[], extends_nil rfl hnodup, nofun⟩
  · next k callback work _ =>
    have hpop : Extends w { w with work } [] := extends_nil rfl hnodup
    cases callback with
    | error =>
      obtain rfl := Except.ok.inj h
      exact ⟨[], hpop, nofun⟩
    | close => exact ⟨[], hpop.trans_nil (extends_handleClose hnodup h), nofun⟩
    | read =>
      obtain ⟨ps, hextends, haudience⟩ := handleRead_spec (w := { w with work }) hnodup h
      exact ⟨ps, hpop.trans hextends, haudience⟩
    | write => exact ⟨[], hpop.trans_nil (extends_handleWrite hnodup h), nofun⟩

/-- Every step decodes messages only for the clients that there are before it. -/
theorem step_spec {l : Label} (hnodup : w.connections.Nodup) (h : w.step c l = .ok w') :
    ∃ ps, Extends w w' ps ∧ ∀ p ∈ ps, p.audience = w.clients := by
  rw [World.step] at h
  split_ifs at h
  · cases l with
    | accept sockfd place =>
      have hnew : Extends w { w with
        made := w.made + 1
        conn := Function.update w.conn w.made ⟨sockfd, .kConnecting, [], []⟩
        entered := Function.update w.entered w.made true } [] := extends_nil rfl hnodup
      exact ⟨[], hnew.trans_nil (extends_connEstablished hnew.nodup h), nofun⟩
    | handleEvent k revents =>
      obtain rfl := Except.ok.inj h
      exact ⟨[], extends_nil rfl hnodup, nofun⟩
    | runTask bytes => exact runTask_spec hnodup h
    | runFunctor =>
      simp only [act] at h
      split at h
      · obtain rfl := Except.ok.inj h
        exact ⟨[], extends_nil rfl hnodup, nofun⟩
      · next k ks _ =>
        have hpop : Extends w { w with pendingFunctors := ks } [] := extends_nil rfl hnodup
        exact ⟨[], hpop.trans_nil (extends_connDestroyed hnodup h), nofun⟩
  · obtain rfl := Except.ok.inj h
    exact ⟨[], extends_nil rfl hnodup, nofun⟩

/-! ### Runs -/

/-- What a run decodes is addressed to every connection that is a client throughout. -/
theorem run_spec {ls : List Label} (hnodup : w.connections.Nodup)
    (hrun : Machine.run (World.step c) w ls = .ok w') :
    ∃ ps, Extends w w' ps ∧
      ∀ k, Machine.Along (World.step c) (Machine.onInput fun v _ => v.IsClient k) w ls →
        ∀ p ∈ ps, k ∈ p.audience := by
  induction ls generalizing w with
  | nil =>
    obtain rfl := Except.ok.inj hrun
    exact ⟨[], extends_nil rfl hnodup, fun _ _ => nofun⟩
  | cons l ls ih =>
    obtain ⟨v, hstep, hrest⟩ := Machine.run_cons_eq_ok.mp hrun
    obtain ⟨ps, hextends, haudience⟩ := step_spec hnodup hstep
    obtain ⟨qs, hextends', haudience'⟩ := ih hextends.nodup hrest
    refine ⟨ps ++ qs, hextends.trans hextends', fun k halong p hp => ?_⟩
    rcases List.mem_append.mp hp with hp | hp
    · rw [haudience p hp]
      exact mem_clients.mpr halong.1
    · exact haudience' k (halong.2 v hstep) p hp

end World

/-- **Broadcast.** In every run of a chat server in one loop, every connection has received exactly
one frame for each message that was decoded while it was a client, in the order in which they were
decoded. Over every further part of the run the connections that are clients throughout receive
the same: one frame for each message that is decoded, in this order. -/
theorem broadcast (c : Setup) {ls : List World.Label} {w : World}
    (hrun : Machine.run (World.step c) World.init ls = .ok w) :
    (∀ k, w.received k = (heard k w.posts).map frame) ∧
      ∀ more w', Machine.run (World.step c) w more = .ok w' →
        ∃ posts, w'.posts = w.posts ++ posts ∧
          ∀ k, Machine.Along (World.step c) (Machine.onInput fun v _ => v.IsClient k) w more →
            w'.received k = w.received k ++ posts.map fun p => frame p.content := by
  obtain ⟨ps, hextends, -⟩ := World.run_spec List.nodup_nil hrun
  constructor
  · intro k
    rw [hextends.received_eq, hextends.posts_eq]
    rfl
  · intro more w' hmore
    obtain ⟨qs, hextends', haudience⟩ := World.run_spec hextends.nodup hmore
    refine ⟨qs, hextends'.posts_eq, fun k halong => ?_⟩
    rw [hextends'.received_eq, Multicast.heard_of_forall_mem (haudience k halong), List.map_map]
    rfl

/-- A chunk with one message of which the codec can build a frame. -/
theorem deliver_singleton {c : Setup} {w : World} {k : ℕ} {message rest : List UInt8}
    (hmax : Buffer.kInitialSize + message.length ≤ maxSize) :
    w.deliver c k ⟨[message], false, rest⟩ = do
      let w := w.record (.decoded k message w.clients)
      let w ← w.connections.foldlM (fun w j => w.send c j (frame message)) w
      return w.modify k fun conn => { conn with inputBuffer := rest } := by
  have hcodec : ∀ (v : World) j, v.codecSend c j message = v.send c j (frame message) :=
    fun v j => bind_of_ok (LengthHeaderCodec.send_eq_ok.mpr ⟨hmax, rfl⟩) _
  simp only [World.deliver, List.foldlM_cons, List.foldlM_nil, World.onStringMessage, hcodec,
    bind_pure]
  rfl

/-- Two clients, and the first of them says something. -/
theorem broadcast_pair : ∃ w,
    Machine.run (World.step ⟨fun _ => none⟩) World.init
      [.accept 5 0, .accept 6 0, .handleEvent 0 POLLIN,
        .runTask (some [0, 0, 0, 2, 104, 105])] = .ok w ∧
    w.received 1 = [[0, 0, 0, 2, 104, 105]] ∧
    (∀ k, w.received k = (heard k w.posts).map frame) := by
  obtain ⟨v, hrun, u, hstep, w, hdeliver, hreceived⟩ : ∃ v : World,
      Machine.run (World.step ⟨fun _ => none⟩) World.init
        [.accept 5 0, .accept 6 0, .handleEvent 0 POLLIN] = .ok v ∧
      ∃ u : World, v.step ⟨fun _ => none⟩ (.runTask (some [0, 0, 0, 2, 104, 105])) =
        u.deliver ⟨fun _ => none⟩ 0 (LengthHeaderCodec.onMessage [0, 0, 0, 2, 104, 105]) ∧
      ∃ w, u.deliver ⟨fun _ => none⟩ 0 ⟨[[104, 105]], false, []⟩ = .ok w ∧
        w.received 1 = [[0, 0, 0, 2, 104, 105]] :=
    ⟨_, rfl, _, rfl, _, (deliver_singleton (by decide)).trans rfl, rfl⟩
  have hparse : LengthHeaderCodec.onMessage [0, 0, 0, 2, 104, 105] = ⟨[[104, 105]], false, []⟩ :=
    @LengthHeaderCodec.onMessage_frames [[104, 105]] (by decide)
  have hall : Machine.run (World.step ⟨fun _ => none⟩) World.init
      [.accept 5 0, .accept 6 0, .handleEvent 0 POLLIN,
        .runTask (some [0, 0, 0, 2, 104, 105])] = .ok w := by
    refine (Machine.run_append_of_ok hrun [_]).trans (Machine.run_cons_ok ?_)
    rw [hstep, hparse, hdeliver]
  exact ⟨w, hall, hreceived, (broadcast _ hall).1⟩

end ChatServer

end MuduoRebuild
