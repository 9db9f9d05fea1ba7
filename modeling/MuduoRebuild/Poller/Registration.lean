import Mathlib.Data.Fintype.Basic
import MuduoRebuild.Foundations.Run
import MuduoRebuild.Poller.EpollPoller

/-!
# Registration with the kernel

`EpollPoller` keeps what it knows in three places: the `index_` of each channel, the map
`channels_`, and the interest set in the kernel. They are `Consistent` when the map has exactly
the channels with index `kAdded` or `kDeleted`, and the interest set exactly those with index
`kAdded`, each with its current events.

An `epoll_ctl` that the kernel refuses is logged and forgotten, so the calls are part of the
run here: `Traced.updateChannel` and `Traced.removeChannel` are the member functions of
`EpollPoller` together with the calls they make. In every run over channels that come and go,
where no two live channels share a descriptor, the three places stay consistent and no call is
refused.
-/

namespace MuduoRebuild

open Fallible Channel

variable {κ : Type}

namespace EpollPoller

/-- A call of `epoll_ctl`, and what the interest set holds for its descriptor at that time. -/
structure CtlCall (κ : Type) where
  operation : Ctl
  fd : ℤ
  met : Option (EpollEvent κ)

/-- The kernel accepts the call: `EPOLL_CTL_ADD` for an absent descriptor only, the other two
for a present one only. -/
def CtlCall.Legal (call : CtlCall κ) : Prop :=
  match call.operation with
  | .add => call.met = none
  | .mod | .del => call.met ≠ none

namespace Traced

variable [DecidableEq κ] (fd : κ → ℕ) (s : Loop (EpollPoller κ) κ) (c : κ)

/-- `update`, with its call of `epoll_ctl`. -/
def update (operation : Ctl) : Loop (EpollPoller κ) κ × List (CtlCall κ) :=
  (EpollPoller.update fd s c operation, [⟨operation, fd c, s.poller.interest (fd c)⟩])

/-- `updateChannel`, with its calls of `epoll_ctl`. -/
def updateChannel : Except Fault (Loop (EpollPoller κ) κ × List (CtlCall κ)) :=
  let index := s.index c
  if index = kNew ∨ index = kDeleted then do
    let channels ← (if index = kNew then do
        assertThat (s.poller.channels (fd c) = none)
        .ok (Function.update s.poller.channels (fd c) (some c))
      else do
        assertThat (s.poller.channels (fd c) ≠ none)
        assertThat (s.poller.channels (fd c) = some c)
        .ok s.poller.channels)
    let s : Loop (EpollPoller κ) κ :=
      { s with poller := { s.poller with channels }, index := Function.update s.index c kAdded }
    return update fd s c .add
  else do
    assertThat (s.poller.channels (fd c) ≠ none)
    assertThat (s.poller.channels (fd c) = some c)
    if s.events c = kNonEvent then
      return update fd { s with index := Function.update s.index c kDeleted } c .del
    else
      return update fd s c .mod

/-- `removeChannel`, with its calls of `epoll_ctl`. -/
def removeChannel : Except Fault (Loop (EpollPoller κ) κ × List (CtlCall κ)) := do
  assertThat (s.poller.channels (fd c) ≠ none)
  assertThat (s.poller.channels (fd c) = some c)
  assertThat (s.events c = kNonEvent)
  let index := s.index c
  assertThat (index = kAdded ∨ index = kDeleted)
  let (s, calls) := if index = kAdded then update fd s c .del else (s, [])
  return ({ s with
    poller := { s.poller with channels := Function.update s.poller.channels (fd c) none }
    index := Function.update s.index c kNew }, calls)

/-- An operation of the owner, with the calls of `epoll_ctl` it leads to. -/
def perform : Op κ → Except Fault (Loop (EpollPoller κ) κ × List (CtlCall κ))
  | .update u c =>
    updateChannel fd { s with events := Function.update s.events c (u.apply (s.events c)) } c
  | .remove c => removeChannel fd s c

/-- The calls apart, this is the `updateChannel` of the poller. -/
theorem updateChannel_map_fst :
    (updateChannel fd s c).map Prod.fst = EpollPoller.updateChannel fd s c := by
  simp only [updateChannel, EpollPoller.updateChannel, assertThat]
  by_cases hnew : s.index c = kNew
  · simp only [hnew, true_or, if_true]
    by_cases h : s.poller.channels (fd c) = none
    · simp only [check_of h]
      rfl
    · simp only [check_of_not h]
      rfl
  · simp only [hnew, false_or, if_false]
    by_cases hne : s.poller.channels (fd c) ≠ none
    · by_cases h : s.poller.channels (fd c) = some c
      · simp only [check_of hne, check_of h, ok_bind]
        split_ifs <;> rfl
      · simp only [check_of hne, check_of_not h, ok_bind, error_bind]
        split_ifs <;> rfl
    · simp only [check_of_not hne, error_bind]
      split_ifs <;> rfl

/-- The calls apart, this is the `removeChannel` of the poller. -/
theorem removeChannel_map_fst :
    (removeChannel fd s c).map Prod.fst = EpollPoller.removeChannel fd s c := by
  simp only [removeChannel, EpollPoller.removeChannel, assertThat]
  by_cases hne : s.poller.channels (fd c) ≠ none
  · by_cases h : s.poller.channels (fd c) = some c
    · by_cases hevents : s.events c = kNonEvent
      · by_cases hindex : s.index c = kAdded ∨ s.index c = kDeleted
        · simp only [check_of hne, check_of h, check_of hevents, check_of hindex, ok_bind]
          split_ifs <;> rfl
        · simp only [check_of hne, check_of h, check_of hevents, check_of_not hindex]
          rfl
      · simp only [check_of hne, check_of h, check_of_not hevents]
        rfl
    · simp only [check_of hne, check_of_not h]
      rfl
  · simp only [check_of_not hne]
    rfl

/-- The calls apart, this is what the loop does when the owner asks for the operation. -/
theorem perform_map_fst (op : Op κ) : (perform fd s op).map Prod.fst = op.perform fd s := by
  cases op with
  | update u c => exact updateChannel_map_fst ..
  | remove c => exact removeChannel_map_fst ..

end Traced

/-! ### The three places -/

/-- The map has exactly the channels with index `kAdded` or `kDeleted`, under their descriptors,
and the interest set has exactly those with index `kAdded`, with their current events. -/
structure Consistent (fd : κ → ℕ) (s : Loop (EpollPoller κ) κ) : Prop where
  channels_eq_some : ∀ n c, s.poller.channels n = some c ↔
    n = fd c ∧ (s.index c = kAdded ∨ s.index c = kDeleted)
  interest_eq_some : ∀ n e, s.poller.interest n = some e ↔
    n = fd e.ptr ∧ s.index e.ptr = kAdded ∧ e.events = s.events e.ptr

/-- The loop with the events `m` and the index `i` for the channel `c`, and the entries of its
descriptor that go with them. -/
def settle [DecidableEq κ] (fd : κ → ℕ) (s : Loop (EpollPoller κ) κ) (c : κ) (m : Mask) (i : ℤ) :
    Loop (EpollPoller κ) κ where
  poller :=
    { channels := Function.update s.poller.channels (fd c) (if i = kNew then none else some c)
      interest :=
        Function.update s.poller.interest (fd c) (if i = kAdded then some ⟨m, c⟩ else none) }
  events := Function.update s.events c m
  index := Function.update s.index c i

/-- The values of an index. -/
def IsIndex (i : ℤ) : Prop := i = kNew ∨ i = kAdded ∨ i = kDeleted

/-- A channel is known to the poller unless its index is `kNew`. -/
theorem IsIndex.known_iff {i : ℤ} (h : IsIndex i) : i = kAdded ∨ i = kDeleted ↔ i ≠ kNew := by
  rcases h with rfl | rfl | rfl <;> decide

/-- No other channel that the poller knows has the descriptor of `c`. -/
def Alone (fd : κ → ℕ) (s : Loop (EpollPoller κ) κ) (c : κ) : Prop :=
  ∀ d, d ≠ c → fd d = fd c → s.index d = kNew

variable {fd : κ → ℕ} {s : Loop (EpollPoller κ) κ} {c : κ} {m : Mask} {i : ℤ}

theorem consistent_init : Consistent fd (init : Loop (EpollPoller κ) κ) where
  channels_eq_some := fun n c =>
    iff_of_false (fun h => by cases h) fun h => absurd h.2 (by simp only [init]; decide)
  interest_eq_some := fun n e =>
    iff_of_false (fun h => by cases h) fun h => absurd h.2.1 (by simp only [init]; decide)

/-- The map knows a channel with a used index. -/
theorem Consistent.find (h : Consistent fd s) (hindex : s.index c = kAdded ∨ s.index c = kDeleted) :
    s.poller.channels (fd c) = some c :=
  (h.channels_eq_some _ c).mpr ⟨rfl, hindex⟩

theorem Consistent.find_none (h : Consistent fd s) (halone : Alone fd s c)
    (hindex : s.index c = kNew) : s.poller.channels (fd c) = none := by
  rw [Option.eq_none_iff_forall_ne_some]
  intro d hd
  obtain ⟨hfd, hknown⟩ := (h.channels_eq_some _ d).mp hd
  have hnew : s.index d = kNew := by
    by_cases hdc : d = c
    · rw [hdc, hindex]
    · exact halone d hdc (Int.natCast_inj.mp hfd.symm)
  rw [hnew] at hknown
  exact absurd hknown (by decide)

theorem Consistent.interest (h : Consistent fd s) (hindex : s.index c = kAdded) :
    s.poller.interest (fd c) = some ⟨s.events c, c⟩ :=
  (h.interest_eq_some _ ⟨s.events c, c⟩).mpr ⟨rfl, hindex, rfl⟩

theorem Consistent.interest_none (h : Consistent fd s) (halone : Alone fd s c)
    (hindex : s.index c ≠ kAdded) : s.poller.interest (fd c) = none := by
  rw [Option.eq_none_iff_forall_ne_some]
  intro e he
  obtain ⟨hfd, hadded, -⟩ := (h.interest_eq_some _ e).mp he
  by_cases hdc : e.ptr = c
  · exact hindex (hdc ▸ hadded)
  · rw [halone e.ptr hdc (Int.natCast_inj.mp hfd.symm)] at hadded
    exact absurd hadded (by decide)

/-- A channel known under another descriptor is another channel, and the converse. -/
theorem Alone.fd_ne (halone : Alone fd s c) {d : κ} (hdc : d ≠ c)
    (hd : s.index d = kAdded ∨ s.index d = kDeleted) : (fd d : ℤ) ≠ fd c := by
  intro hfd
  rw [halone d hdc (Int.natCast_inj.mp hfd)] at hd
  exact absurd hd (by decide)

/-- Whatever index a channel gets, the entries that go with it keep the three places
consistent. -/
theorem Consistent.settled [DecidableEq κ] (h : Consistent fd s) (halone : Alone fd s c)
    (hi : IsIndex i) : Consistent fd (settle fd s c m i) := by
  constructor
  · intro n d
    simp only [settle, Function.update_apply]
    by_cases hdc : d = c
    · subst hdc
      rw [if_pos rfl]
      by_cases hn : n = fd d
      · rw [if_pos hn, and_iff_right hn]
        rw [hi.known_iff]
        split_ifs with hnew
        · exact iff_of_false (fun hd => by cases hd) fun hne => hne hnew
        · exact iff_of_true rfl hnew
      · rw [if_neg hn, h.channels_eq_some]
        exact iff_of_false (fun hd => hn hd.1) fun hd => hn hd.1
    · rw [if_neg hdc]
      by_cases hn : n = fd c
      · rw [if_pos hn]
        refine iff_of_false ?_ fun hd => halone.fd_ne hdc hd.2 (hd.1.symm.trans hn)
        split_ifs
        · exact nofun
        · exact fun hd => hdc (Option.some.inj hd).symm
      · rw [if_neg hn, h.channels_eq_some]
  · intro n e
    simp only [settle, Function.update_apply]
    by_cases hdc : e.ptr = c
    · rw [if_pos hdc, if_pos hdc]
      by_cases hn : n = fd c
      · rw [if_pos hn, hdc, and_iff_right hn]
        split_ifs with hadded
        · rw [and_iff_right hadded, Option.some.injEq]
          obtain ⟨m', d⟩ := e
          obtain rfl : d = c := hdc
          rw [EpollEvent.mk.injEq, and_iff_left rfl, eq_comm]
        · exact iff_of_false (fun he => by cases he) fun he => hadded he.1
      · rw [if_neg hn, h.interest_eq_some]
        exact iff_of_false (fun he => hn (hdc ▸ he.1)) fun he => hn (hdc ▸ he.1)
    · rw [if_neg hdc, if_neg hdc]
      by_cases hn : n = fd c
      · rw [if_pos hn]
        refine iff_of_false ?_ fun he => halone.fd_ne hdc (.inl he.2.1) (he.1.symm.trans hn)
        split_ifs
        · intro he
          exact hdc (congrArg EpollEvent.ptr (Option.some.inj he)).symm
        · exact nofun
      · rw [if_neg hn, h.interest_eq_some]

/-! ### One operation -/

section Perform

variable [DecidableEq κ] {u : Update}

/-- The index that an update leaves behind: a channel leaves the interest set when it loses its
events, and enters it or stays in it otherwise, even without events. -/
def nextIndex (i : ℤ) (m : Mask) : ℤ := if i = kAdded ∧ m = 0 then kDeleted else kAdded

theorem isIndex_nextIndex : IsIndex (nextIndex i m) := by
  unfold nextIndex
  split_ifs
  · exact .inr (.inr rfl)
  · exact .inr (.inl rfl)

theorem nextIndex_of_ne (h : i ≠ kAdded) : nextIndex i m = kAdded := if_neg fun hi => h hi.1

/-- An update settles the channel, with one legal call of `epoll_ctl`. -/
theorem Consistent.perform_update (h : Consistent fd s) (halone : Alone fd s c)
    (hc : IsIndex (s.index c)) :
    ∃ calls, Traced.perform fd s (.update u c) =
        .ok (settle fd s c (u.apply (s.events c))
          (nextIndex (s.index c) (u.apply (s.events c))), calls) ∧
      ∀ call ∈ calls, call.Legal := by
  generalize hm : u.apply (s.events c) = m
  -- the poller sees the new events, and the map and the interest set as they were
  have hat : Function.update s.events c m c = m := Function.update_self ..
  have hself : s.poller.channels (fd c) = some c →
      Function.update s.poller.channels (fd c) (some c) = s.poller.channels :=
    fun hfind => Function.update_eq_self_iff.mpr hfind.symm
  rcases hc with hindex | hindex | hindex
  · have hfind := h.find_none halone hindex
    have hnone := h.interest_none halone (by rw [hindex]; decide)
    refine ⟨[⟨.add, fd c, none⟩], ?_, by simp [CtlCall.Legal]⟩
    rw [hindex, nextIndex_of_ne (by decide)]
    simp only [Traced.perform, Traced.updateChannel, hm, hindex, true_or, if_true, assertThat,
      check_of hfind, ok_bind, Traced.update, update, epollCtl, hnone, hat]
    rfl
  · have hfind := h.find (.inl hindex)
    have hsome := h.interest hindex
    have hused : ¬(kAdded = kNew ∨ kAdded = kDeleted) := by decide
    simp only [Traced.perform, Traced.updateChannel, hm, hindex, if_neg hused, assertThat, hfind,
      ne_eq, reduceCtorEq, not_false_eq_true, check_of, ok_bind, hat]
    by_cases hzero : m = 0
    · refine ⟨[⟨.del, fd c, some ⟨s.events c, c⟩⟩], ?_, by simp [CtlCall.Legal]⟩
      simp only [Traced.update, update, epollCtl, hsome, nextIndex, hzero, and_self, if_true,
        settle, hself hfind, if_neg (show kDeleted ≠ kNew by decide),
        if_neg (show kDeleted ≠ kAdded by decide)]
      rfl
    · refine ⟨[⟨.mod, fd c, some ⟨s.events c, c⟩⟩], ?_, by simp [CtlCall.Legal]⟩
      have hindex' : Function.update s.index c kAdded = s.index :=
        Function.update_eq_self_iff.mpr hindex.symm
      simp only [Traced.update, update, epollCtl, hsome, nextIndex, hzero, and_false, if_false,
        settle, hself hfind, hat, hindex', if_neg (show kAdded ≠ kNew by decide),
        if_true]
      rfl
  · have hfind := h.find (.inr hindex)
    have hnone := h.interest_none halone (by rw [hindex]; decide)
    refine ⟨[⟨.add, fd c, none⟩], ?_, by simp [CtlCall.Legal]⟩
    rw [hindex, nextIndex_of_ne (by decide)]
    simp only [Traced.perform, Traced.updateChannel, hm, hindex, or_true, if_true, assertThat,
      if_neg (show kDeleted ≠ kNew by decide), hfind, ne_eq, reduceCtorEq, not_false_eq_true,
      check_of, ok_bind, Traced.update, update, epollCtl, hnone, hat, settle, hself hfind,
      if_neg (show kAdded ≠ kNew by decide)]
    rfl

/-- The removal of a known channel without events settles it, with a legal call of `epoll_ctl`
if the channel is in the interest set and none otherwise. -/
theorem Consistent.perform_remove (h : Consistent fd s) (halone : Alone fd s c)
    (hc : s.index c = kAdded ∨ s.index c = kDeleted) (hevents : s.events c = 0) :
    ∃ calls, Traced.perform fd s (.remove c) = .ok (settle fd s c 0 kNew, calls) ∧
      ∀ call ∈ calls, call.Legal := by
  have hfind := h.find hc
  have hself : Function.update s.events c 0 = s.events := by
    rw [Function.update_eq_self_iff, hevents]
  have hne : s.poller.channels (fd c) ≠ none := by
    rw [hfind]
    exact Option.some_ne_none c
  simp only [Traced.perform, Traced.removeChannel, assertThat, check_of hne, check_of hfind,
    check_of hevents, check_of hc, ok_bind]
  rcases hc with hindex | hindex
  · have hsome := h.interest hindex
    refine ⟨[⟨.del, fd c, some ⟨s.events c, c⟩⟩], ?_, by simp [CtlCall.Legal]⟩
    simp only [if_pos hindex, Traced.update, update_del hsome, hsome, settle, hself, if_true,
      if_neg (show kNew ≠ kAdded by decide)]
    rfl
  · have hdeleted : s.index c ≠ kAdded := by rw [hindex]; decide
    have hsame : Function.update s.poller.interest (fd c) none = s.poller.interest := by
      rw [Function.update_eq_self_iff, h.interest_none halone hdeleted]
    refine ⟨[], ?_, fun _ hcall => absurd hcall List.not_mem_nil⟩
    simp only [if_neg hdeleted, settle, hself, hsame, if_true,
      if_neg (show kNew ≠ kAdded by decide)]
    rfl

end Perform

/-! ### Runs -/

/-- A loop, the channels alive in it, and the calls of `epoll_ctl` made so far. -/
structure Session (κ : Type) where
  loop : Loop (EpollPoller κ) κ
  live : κ → Bool
  calls : List (CtlCall κ)

/-- What happens to the channels of a loop. -/
inductive Event (κ : Type) where
  /-- `Channel::Channel`. -/
  | construct (c : κ)
  /-- `enableReading`, …, `disableAll`, or `remove`. -/
  | op (op : Op κ)
  /-- `Channel::~Channel`. -/
  | destroy (c : κ)

namespace Session

/-- A loop that has just been constructed, before any channel. -/
def start : Session κ where
  loop := init
  live := fun _ => false
  calls := []

section Step

variable [DecidableEq κ] (fd : κ → ℕ) (t : Session κ)

def step : Event κ → Except Fault (Session κ)
  | .construct c => .ok { t with
      loop := { t.loop with
        events := Function.update t.loop.events c kNonEvent
        index := Function.update t.loop.index c (-1) }
      live := Function.update t.live c true }
  | .op op => do
    let (loop, calls) ← Traced.perform fd t.loop op
    return { t with loop, calls := t.calls ++ calls }
  | .destroy c => .ok { t with live := Function.update t.live c false }

end Step

variable (fd : κ → ℕ) (t : Session κ)

/-- What the owners of the channels keep to. A new channel has a descriptor of its own among the
live ones, only live channels are updated, only known channels without events are removed, and
a channel that is destroyed, its descriptor closed, is not registered. -/
def Admits : Event κ → Prop
  | .construct c => t.live c = false ∧ ∀ d, t.live d = true → fd d ≠ fd c
  | .op (.update _ c) => t.live c = true
  | .op (.remove c) =>
    t.live c = true ∧ t.loop.poller.channels (fd c) = some c ∧ t.loop.events c = kNonEvent
  | .destroy c => t.live c = true ∧ t.loop.poller.channels (fd c) ≠ some c

instance [Fintype κ] [DecidableEq κ] : (e : Event κ) → Decidable (t.Admits fd e)
  | .construct c =>
    inferInstanceAs (Decidable (t.live c = false ∧ ∀ d, t.live d = true → fd d ≠ fd c))
  | .op (.update _ c) => inferInstanceAs (Decidable (t.live c = true))
  | .op (.remove c) =>
    inferInstanceAs (Decidable (t.live c = true ∧ t.loop.poller.channels (fd c) = some c ∧
      t.loop.events c = kNonEvent))
  | .destroy c =>
    inferInstanceAs (Decidable (t.live c = true ∧ t.loop.poller.channels (fd c) ≠ some c))

/-- What the run has kept to so far. -/
structure Good : Prop where
  consistent : Consistent fd t.loop
  isIndex : ∀ c, IsIndex (t.loop.index c)
  dead : ∀ c, t.live c = false → t.loop.index c = kNew
  distinct : ∀ c d, t.live c = true → t.live d = true → fd c = fd d → c = d
  legal : ∀ call ∈ t.calls, call.Legal

variable {fd t}

theorem good_start : (start : Session κ).Good fd where
  consistent := consistent_init
  isIndex := fun c => .inl rfl
  dead := fun c _ => rfl
  distinct := fun c d h => by cases h
  legal := fun call h => absurd h List.not_mem_nil

theorem Good.alone (h : t.Good fd) {c : κ} (hc : t.live c = true) : Alone fd t.loop c := by
  intro d hdc hfd
  cases hd : t.live d with
  | true => exact absurd (h.distinct d c hd hc hfd) hdc
  | false => exact h.dead d hd

variable [DecidableEq κ]

/-- An operation on a live channel that settles it. -/
theorem Good.settled (h : t.Good fd) {c : κ} {m : Mask} {i : ℤ} {calls : List (CtlCall κ)}
    (hc : t.live c = true) (hi : IsIndex i) (hcalls : ∀ call ∈ calls, call.Legal) :
    Good fd { t with loop := settle fd t.loop c m i, calls := t.calls ++ calls } where
  consistent := h.consistent.settled (h.alone hc) hi
  isIndex := by
    intro d
    simp only [settle, Function.update_apply]
    split_ifs
    · exact hi
    · exact h.isIndex d
  dead := by
    intro d hd
    have hdc : d ≠ c := by
      rintro rfl
      exact absurd (hc.symm.trans hd) (by decide)
    simp only [settle, Function.update_of_ne hdc]
    exact h.dead d hd
  distinct := h.distinct
  legal := fun call hcall => (List.mem_append.mp hcall).elim (h.legal call) (hcalls call)

theorem Good.construct (h : t.Good fd) {c : κ} (hdead : t.live c = false)
    (hfd : ∀ d, t.live d = true → fd d ≠ fd c) :
    ∃ t', step fd t (.construct c) = .ok t' ∧ t'.Good fd := by
  have hindex : Function.update t.loop.index c (-1) = t.loop.index := by
    rw [Function.update_eq_self_iff]
    exact (h.dead c hdead).symm
  refine ⟨_, rfl, ⟨⟨?channels, ?interest⟩, ?index, ?dead, ?distinct, h.legal⟩⟩
  case channels =>
    simp only [hindex]
    exact h.consistent.channels_eq_some
  case interest =>
    intro n e
    simp only [hindex]
    rw [h.consistent.interest_eq_some]
    refine and_congr_right fun _ => and_congr_right fun hadded => ?_
    have hne : e.ptr ≠ c := by
      intro he
      rw [he, h.dead c hdead] at hadded
      exact absurd hadded (by decide)
    rw [Function.update_of_ne hne]
  case index =>
    simp only [hindex]
    exact h.isIndex
  case dead =>
    intro d hd
    simp only [hindex]
    simp only [Function.update_apply] at hd
    split_ifs at hd
    exact h.dead d hd
  case distinct =>
    intro d e hd he heq
    simp only [Function.update_apply] at hd he
    split_ifs at hd he with hdc hec hec
    · rw [hdc, hec]
    · exact absurd (hdc ▸ heq).symm (hfd e he)
    · exact absurd (hec ▸ heq) (hfd d hd)
    · exact h.distinct d e hd he heq

/-- A channel that the map does not have leaves nothing behind. -/
theorem Good.destroy (h : t.Good fd) {c : κ}
    (hfind : t.loop.poller.channels (fd c) ≠ some c) :
    ∃ t', step fd t (.destroy c) = .ok t' ∧ t'.Good fd := by
  have hsub : ∀ {d}, Function.update t.live c false d = true → t.live d = true := by
    intro d hd
    rw [Function.update_apply] at hd
    split_ifs at hd
    exact hd
  refine ⟨_, rfl, ⟨h.consistent, h.isIndex, ?_,
    fun d e hd he => h.distinct d e (hsub hd) (hsub he), h.legal⟩⟩
  intro d hd
  simp only [Function.update_apply] at hd
  split_ifs at hd with hdc
  · -- an index other than `kNew` would mean that the map has the channel
    by_contra hnew
    rw [hdc] at hnew
    exact hfind (h.consistent.find ((h.isIndex c).known_iff.mpr hnew))
  · exact h.dead d hd

/-- Every step that the owners may take succeeds and keeps what the run has kept so far. -/
theorem Good.step (h : t.Good fd) {e : Event κ} (he : t.Admits fd e) :
    ∃ t', step fd t e = .ok t' ∧ t'.Good fd := by
  rcases e with c | (⟨u, c⟩ | c) | c
  · exact h.construct he.1 he.2
  · obtain ⟨calls, hperform, hcalls⟩ :=
      h.consistent.perform_update (u := u) (h.alone he) (h.isIndex c)
    exact ⟨_, Fallible.bind_of_ok hperform _, h.settled he isIndex_nextIndex hcalls⟩
  · obtain ⟨hlive, hfind, hevents⟩ := he
    have hknown := ((h.consistent.channels_eq_some _ c).mp hfind).2
    obtain ⟨calls, hperform, hcalls⟩ :=
      h.consistent.perform_remove (h.alone hlive) hknown hevents
    exact ⟨_, Fallible.bind_of_ok hperform _, h.settled hlive (.inl rfl) hcalls⟩
  · exact h.destroy he.2

end Session

/-- **The registration protocol.** In every run over channels that come and go, where no two
live channels share a descriptor, every operation succeeds and leaves the map, the interest set
and the indices consistent, and every call of `epoll_ctl` so far was legal. -/
theorem registration_protocol [DecidableEq κ] (fd : κ → ℕ) (events : List (Event κ))
    (hadmits : Machine.Along (Session.step fd) (Machine.onInput (Session.Admits fd))
      Session.start events) :
    Machine.Along (Session.step fd)
      (Machine.onResult (Machine.Succeeds fun t =>
        Consistent fd t.loop ∧ ∀ call ∈ t.calls, call.Legal)) Session.start events := by
  refine hadmits.of_invariant (Session.Good fd) Session.good_start ?_ ?_
  · intro t e h he
    obtain ⟨t', ht', hgood⟩ := h.step he
    exact ⟨t', ht', hgood.consistent, hgood.legal⟩
  · intro t e t' h he ht'
    obtain ⟨t'', ht'', hgood⟩ := h.step he
    obtain rfl := Except.ok.inj (ht''.symm.trans ht')
    exact hgood

/-- A channel is enabled, disabled twice, removed and registered again; then another channel
takes over its descriptor. -/
theorem registration_protocol_reused :
    Machine.Along (Session.step fun _ : Bool => 5)
      (Machine.onResult (Machine.Succeeds fun t =>
        Consistent (fun _ : Bool => 5) t.loop ∧ ∀ call ∈ t.calls, call.Legal)) Session.start
      [.construct false, .op (.update .enableReading false), .op (.update .disableAll false),
        .op (.update .disableAll false), .op (.remove false),
        .op (.update .enableReading false), .op (.update .disableAll false),
        .op (.remove false), .destroy false, .construct true,
        .op (.update .enableWriting true)] :=
  registration_protocol (fun _ => 5) _ (by decide)

end EpollPoller

end MuduoRebuild
