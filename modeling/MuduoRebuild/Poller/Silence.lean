import MuduoRebuild.Poller.Registration

/-!
# Silent channels and the interest set

A channel without events should not be heard of: `epoll_wait` reports errors and hang-ups for
every descriptor in the interest set, whatever its mask. `EpollPoller::updateChannel` decides by
the index of the channel whether it adds, modifies or deletes, so it takes a channel that loses
its last event out of the interest set, and puts one that has none and is updated once more back
in, with an empty mask. `Echoes` says that an operation is such an update.

`stays_silenced_iff` says that nothing else makes a silent channel heard of. It also says that a
second `disableAll` is never without effect in the kernel: it undoes the first one.
-/

namespace MuduoRebuild

open Fallible Channel

variable {κ : Type}

namespace EpollPoller

/-- A channel without events is not in the interest set, and so nothing is reported for it. -/
structure Silenced (s : Loop (EpollPoller κ) κ) : Prop where
  not_watched : ∀ c, s.events c = kNonEvent → ∀ n e, s.poller.interest n = some e → e.ptr ≠ c
  not_activated : ∀ c, s.events c = kNonEvent → ∀ ready m, (c, m) ∉ activated s ready

/-- A disable of a channel that has no events already, unless another channel is registered with
its descriptor. -/
def Echoes (fd : κ → ℕ) (s : Loop (EpollPoller κ) κ) : Op κ → Prop
  | .update u c => u.isEnable = false ∧ s.events c = kNonEvent ∧
      ∀ d, s.poller.channels (fd c) = some d → d = c
  | .remove _ => False

variable {fd : κ → ℕ} {s s' : Loop (EpollPoller κ) κ} {c : κ} {m : Mask} {i : ℤ}

/-- What is not watched is not activated. -/
theorem silenced_of_not_watched
    (h : ∀ c, s.events c = kNonEvent → ∀ n e, s.poller.interest n = some e → e.ptr ≠ c) :
    Silenced s where
  not_watched := h
  not_activated := by
    rintro c hc ready m ⟨-, n, e, he, hptr, -⟩
    exact h c hc n e he hptr

/-! ### States in order -/

/-- What every run keeps to, whichever operations it is made of. -/
structure InOrder (fd : κ → ℕ) (s : Loop (EpollPoller κ) κ) : Prop where
  consistent : Consistent fd s
  isIndex : ∀ c, IsIndex (s.index c)
  isEvents : ∀ c, IsEvents (s.events c)

/-- The channels in the interest set are those with events. -/
structure Attentive (fd : κ → ℕ) (s : Loop (EpollPoller κ) κ) : Prop extends InOrder fd s where
  added_iff : ∀ c, s.index c = kAdded ↔ s.events c ≠ kNonEvent

theorem inOrder_init : InOrder fd (init : Loop (EpollPoller κ) κ) where
  consistent := consistent_init
  isIndex := fun _ => .inl rfl
  isEvents := fun _ => isEvents_zero

theorem attentive_init : Attentive fd (init : Loop (EpollPoller κ) κ) where
  toInOrder := inOrder_init
  added_iff := fun _ => iff_of_false (by decide : (-1 : ℤ) ≠ kAdded) fun h => h rfl

/-- A state in order is silenced when no channel without events is in the interest set by its
index. -/
theorem InOrder.silenced_iff (h : InOrder fd s) :
    Silenced s ↔ ∀ c, s.index c = kAdded → s.events c ≠ kNonEvent := by
  constructor
  · intro hs c hadded hzero
    exact hs.not_watched c hzero (fd c) _ (h.consistent.interest hadded) rfl
  · intro hne
    refine silenced_of_not_watched fun c hzero n e he hptr => ?_
    obtain ⟨-, hadded, -⟩ := (h.consistent.interest_eq_some n e).mp he
    exact hne e.ptr hadded (hptr ▸ hzero)

/-- The poller knows no other channel with the descriptor of `c` when it finds none there. -/
theorem InOrder.alone_iff (h : InOrder fd s) :
    Alone fd s c ↔ ∀ d, s.poller.channels (fd c) = some d → d = c := by
  constructor
  · intro halone d hd
    by_contra hdc
    obtain ⟨hfd, hknown⟩ := (h.consistent.channels_eq_some _ d).mp hd
    exact halone.fd_ne hdc hknown hfd.symm
  · intro hfind d hdc hfd
    by_contra hnew
    refine hdc (hfind d ?_)
    rw [← hfd]
    exact h.consistent.find ((h.isIndex d).known_iff.mpr hnew)

variable [DecidableEq κ] {u : Update} {op : Op κ}

theorem InOrder.settled (h : InOrder fd s) (halone : Alone fd s c) (hm : IsEvents m)
    (hi : IsIndex i) : InOrder fd (settle fd s c m i) where
  consistent := h.consistent.settled halone hi
  isIndex := by
    intro d
    simp only [settle, Function.update_apply]
    split_ifs
    · exact hi
    · exact h.isIndex d
  isEvents := by
    intro d
    simp only [settle, Function.update_apply]
    split_ifs
    · exact hm
    · exact h.isEvents d

/-- An update succeeds when the descriptor is not taken, and settles the channel. -/
theorem InOrder.perform_update (h : InOrder fd s) (halone : Alone fd s c) :
    (Op.update u c).perform fd s = .ok (settle fd s c (u.apply (s.events c))
      (nextIndex (s.index c) (u.apply (s.events c)))) := by
  obtain ⟨calls, hperform, -⟩ := h.consistent.perform_update (u := u) halone (h.isIndex c)
  rw [← Traced.perform_map_fst, hperform]
  rfl

/-- Every operation that succeeds settles its channel, which is the only one registered with its
descriptor. -/
theorem InOrder.perform_eq_ok (h : InOrder fd s) (hs : op.perform fd s = .ok s') :
    (∃ u c, op = .update u c ∧ Alone fd s c ∧
      s' = settle fd s c (u.apply (s.events c)) (nextIndex (s.index c) (u.apply (s.events c)))) ∨
    ∃ c, op = .remove c ∧ Alone fd s c ∧ s.events c = 0 ∧ s' = settle fd s c 0 kNew := by
  rcases op with ⟨u, c⟩ | c
  · have halone : Alone fd s c := by
      refine h.alone_iff.mpr fun d hd => ?_
      rcases (of_perform_update hs).1 with hnone | hfind
      · cases hnone.symm.trans hd
      · exact (Option.some.inj (hfind.symm.trans hd)).symm
    exact .inl ⟨u, c, rfl, halone, Except.ok.inj (hs.symm.trans (h.perform_update halone))⟩
  · obtain ⟨hfind, hevents, -⟩ := of_perform_remove hs
    have halone : Alone fd s c :=
      h.alone_iff.mpr fun d hd => (Option.some.inj (hfind.symm.trans hd)).symm
    have hknown := ((h.consistent.channels_eq_some _ c).mp hfind).2
    obtain ⟨calls, hperform, -⟩ := h.consistent.perform_remove halone hknown hevents
    rw [← Traced.perform_map_fst, hperform] at hs
    exact .inr ⟨c, rfl, halone, hevents, (Except.ok.inj hs).symm⟩

/-- Every operation that succeeds leaves the state in order. -/
theorem InOrder.step (h : InOrder fd s) (hs : op.perform fd s = .ok s') : InOrder fd s' := by
  rcases h.perform_eq_ok hs with ⟨u, c, -, halone, rfl⟩ | ⟨c, -, halone, -, rfl⟩
  · exact h.settled halone ((h.isEvents c).apply u) isIndex_nextIndex
  · exact h.settled halone isEvents_zero (.inl rfl)

/-! ### One operation -/

/-- A channel with events gets `kAdded`. -/
theorem nextIndex_of_ne_zero (hm : m ≠ 0) : nextIndex i m = kAdded := if_neg fun h => hm h.2

/-- A channel without events gets `kAdded` unless it had that index. -/
theorem nextIndex_zero_eq_iff : nextIndex i 0 = kAdded ↔ i ≠ kAdded := by
  unfold nextIndex
  split_ifs with h
  · exact iff_of_false (by decide) fun hi => hi h.1
  · exact iff_of_true rfl fun hi => h ⟨hi, rfl⟩

omit [DecidableEq κ] in
/-- An enable leaves events. -/
theorem InOrder.isEnable_eq_false (h : InOrder fd s) (hzero : u.apply (s.events c) = 0) :
    u.isEnable = false := by
  by_contra hu
  exact (h.isEvents c).apply_ne_zero (Bool.eq_true_of_not_eq_false hu) hzero

/-- Nothing stops an operation that echoes. -/
theorem InOrder.succeeds_of_echoes (h : InOrder fd s) (hechoes : Echoes fd s op) :
    ∃ s', op.perform fd s = .ok s' := by
  rcases op with ⟨u, c⟩ | c
  · exact ⟨_, h.perform_update (h.alone_iff.mpr hechoes.2.2)⟩
  · cases hechoes

/-- When all other channels are as they should be, the settled one decides. -/
theorem Attentive.settled (h : Attentive fd s) (h' : InOrder fd (settle fd s c m i))
    (hadded : m ≠ 0 → i = kAdded) :
    (Silenced (settle fd s c m i) ↔ (i = kAdded → m ≠ 0)) ∧
      (Silenced (settle fd s c m i) → Attentive fd (settle fd s c m i)) := by
  have hself : (settle fd s c m i).index c = i ∧ (settle fd s c m i).events c = m :=
    ⟨Function.update_self .., Function.update_self ..⟩
  have hother : ∀ d, d ≠ c → ((settle fd s c m i).index d = kAdded ↔
      (settle fd s c m i).events d ≠ kNonEvent) := by
    intro d hdc
    simp only [settle, Function.update_of_ne hdc]
    exact h.added_iff d
  have hiff : Silenced (settle fd s c m i) ↔ (i = kAdded → m ≠ 0) := by
    rw [h'.silenced_iff]
    constructor
    · intro hall
      have hc := hall c
      rwa [hself.1, hself.2] at hc
    · intro hc d
      by_cases hdc : d = c
      · rwa [hdc, hself.1, hself.2]
      · exact (hother d hdc).mp
  refine ⟨hiff, fun hsilenced => ⟨h', fun d => ?_⟩⟩
  by_cases hdc : d = c
  · rw [hdc, hself.1, hself.2]
    exact ⟨hiff.mp hsilenced, hadded⟩
  · exact hother d hdc

/-- An operation from a silenced state that succeeds leaves a silenced state unless it echoes. -/
theorem Attentive.step (h : Attentive fd s) (hs : op.perform fd s = .ok s') :
    (Silenced s' ↔ ¬Echoes fd s op) ∧ (Silenced s' → Attentive fd s') := by
  have h' := h.toInOrder.step hs
  rcases h.perform_eq_ok hs with ⟨u, c, rfl, halone, rfl⟩ | ⟨c, rfl, halone, hevents, rfl⟩
  · obtain ⟨hiff, hkeep⟩ := h.settled h' nextIndex_of_ne_zero
    refine ⟨hiff.trans ?_, hkeep⟩
    have hechoes : Echoes fd s (.update u c) ↔ s.events c = 0 ∧ u.apply (s.events c) = 0 := by
      constructor
      · rintro ⟨hu, hzero, -⟩
        exact ⟨hzero, (congrArg u.apply hzero).trans (Update.apply_zero hu)⟩
      · rintro ⟨hzero, hnone⟩
        exact ⟨h.isEnable_eq_false hnone, hzero, h.alone_iff.mp halone⟩
    rw [hechoes]
    by_cases hnone : u.apply (s.events c) = 0
    · -- the channel loses its last event, or has had none
      rw [hnone, nextIndex_zero_eq_iff, Ne, h.added_iff c]
      simp
    · exact iff_of_true (fun _ => hnone) fun hboth => hnone hboth.2
  · obtain ⟨hiff, hkeep⟩ := h.settled h' fun hne => absurd rfl hne
    exact ⟨hiff.trans (iff_of_true (fun hnew => absurd hnew (by decide)) id), hkeep⟩

/-- A second `disableAll` succeeds when the first one did, and takes the channel out of the
interest set or puts it back there. -/
theorem InOrder.disableAll_twice (h : InOrder fd s)
    (hs : (Op.update .disableAll c).perform fd s = .ok s') :
    ∃ s'', (Op.update .disableAll c).perform fd s' = .ok s'' ∧
      s''.poller.interest (fd c) ≠ s'.poller.interest (fd c) := by
  have h' := h.step hs
  obtain ⟨u, d, hop, halone, rfl⟩ | ⟨d, hop, -⟩ := h.perform_eq_ok hs
  · obtain ⟨rfl, rfl⟩ := Op.update.inj hop
    have halone' : Alone fd (settle fd s c 0 (nextIndex (s.index c) 0)) c := by
      intro d hdc hfd
      exact (Function.update_of_ne hdc ..).trans (halone d hdc hfd)
    have hindex : (settle fd s c 0 (nextIndex (s.index c) 0)).index c = nextIndex (s.index c) 0 :=
      Function.update_self ..
    refine ⟨_, h'.perform_update halone', ?_⟩
    -- the two updates leave different indices, and so different entries
    simp only [Update.apply, kNonEvent, hindex]
    simp only [settle, Function.update_self, nextIndex_zero_eq_iff]
    by_cases hadded : s.index c = kAdded
    · rw [if_neg (not_not_intro hadded),
        if_pos (mt nextIndex_zero_eq_iff.mp (not_not_intro hadded))]
      exact Option.some_ne_none _
    · rw [if_pos hadded, if_neg (not_not_intro (nextIndex_zero_eq_iff.mpr hadded))]
      exact (Option.some_ne_none _).symm
  · cases hop

/-! ### Runs -/

/-- **Exactly when silent channels are silenced.** In every run, every operation leaves the
channels without events out of the interest set if and only if no operation is a disable of a
channel that has no events already. Whatever the run, `disableAll` is not idempotent: the second
of two in a row always changes the interest set. -/
theorem stays_silenced_iff (fd : κ → ℕ) (ops : List (Op κ)) :
    (Machine.Along (Op.perform fd) (Machine.onResult (Machine.UnlessFault Silenced)) init ops ↔
      Machine.Along (Op.perform fd) (Machine.onInput fun s op => ¬Echoes fd s op) init ops) ∧
    ∀ s, Machine.run (Op.perform fd) init ops = .ok s → ∀ c s',
      (Op.update .disableAll c).perform fd s = .ok s' →
      ∃ s'', (Op.update .disableAll c).perform fd s' = .ok s'' ∧
        s''.poller.interest (fd c) ≠ s'.poller.interest (fd c) := by
  constructor
  · have hinit : Attentive fd (init : Loop (EpollPoller κ) κ) := attentive_init
    refine Machine.along_iff_along hinit (fun s op h => ?_)
      fun s op s' h hgood hs => (h.step hs).2 (hgood s' hs)
    constructor
    · intro hgood hechoes
      obtain ⟨s', hs⟩ := h.succeeds_of_echoes hechoes
      exact (h.step hs).1.mp (hgood s' hs) hechoes
    · exact fun hechoes s' hs => (h.step hs).1.mpr hechoes
  · intro s hrun c s' hs
    have h : InOrder fd s := Machine.invariant_of_run inOrder_init (fun _ _ _ => InOrder.step) hrun
    exact h.disableAll_twice hs

/-- What `handleClose` and then `connDestroyed` do to a channel that was reading: it is silent, but
a hang-up is reported for it. -/
theorem not_silenced : ∃ s, Machine.run (Op.perform fun _ : Unit => 5) init
      [.update .enableReading (), .update .disableAll (), .update .disableAll ()] = .ok s ∧
    s.events () = kNonEvent ∧ s.poller.interest 5 = some ⟨0, ()⟩ ∧
    ((), POLLHUP) ∈ activated s fun _ => POLLHUP := by
  refine ⟨_, rfl, rfl, rfl, by decide, 5, ⟨0, ()⟩, rfl, rfl, ?_⟩
  rw [reported]
  decide

end EpollPoller

end MuduoRebuild
