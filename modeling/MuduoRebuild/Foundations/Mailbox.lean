import Mathlib.Data.List.Basic
import Mathlib.Logic.Function.Basic

/-!
# A queue with many senders

Many senders pass messages to one receiver. A message is *posted* when its sender has decided to
send it. It stands in the sender's *outbox* until the sender puts it into the *queue*, from which
the receiver *takes* the messages one after the other. A sender that has no message under way may
also hand one over directly.

`Mailbox.InOrder` says that of each sender's messages none is lost, duplicated or overtaken by a
later one. Every step keeps it, so that the messages taken from a sender are always the first
ones that it has posted.
-/

variable {κ α : Type*}

/-- The messages posted, on their way and taken, each with its sender. -/
structure Mailbox (κ α : Type*) where
  posted : List (κ × α)
  outbox : κ → List α
  queue : List (κ × α)
  taken : List (κ × α)

namespace Mailbox

variable [DecidableEq κ]

/-- The messages of one sender. -/
def messagesOf (k : κ) (l : List (κ × α)) : List α := (l.filter (·.1 = k)).map Prod.snd

@[simp]
theorem messagesOf_nil (k : κ) : messagesOf k ([] : List (κ × α)) = [] := rfl

@[simp]
theorem messagesOf_append (k : κ) (l l' : List (κ × α)) :
    messagesOf k (l ++ l') = messagesOf k l ++ messagesOf k l' := by
  simp only [messagesOf, List.filter_append, List.map_append]

@[simp]
theorem messagesOf_cons (k j : κ) (a : α) (l : List (κ × α)) :
    messagesOf k ((j, a) :: l) = if j = k then a :: messagesOf k l else messagesOf k l := by
  by_cases h : j = k <;> simp [messagesOf, h]

/-- The ways in which a mailbox can change. -/
inductive Step (m : Mailbox κ α) : Mailbox κ α → Prop where
  | post (k : κ) (as : List α) :
    Step m { m with
      posted := m.posted ++ as.map (k, ·)
      outbox := Function.update m.outbox k (m.outbox k ++ as) }
  | put {k : κ} {a : α} {as : List α} (h : m.outbox k = a :: as) :
    Step m { m with
      outbox := Function.update m.outbox k as
      queue := m.queue ++ [(k, a)] }
  | take {p : κ × α} {queue : List (κ × α)} (h : m.queue = p :: queue) :
    Step m { m with queue, taken := m.taken ++ [p] }
  | direct {k : κ} (a : α) (hqueue : messagesOf k m.queue = []) (hout : m.outbox k = []) :
    Step m { m with posted := m.posted ++ [(k, a)], taken := m.taken ++ [(k, a)] }

/-- Each sender's messages are taken, in the queue, and in the outbox, in the order in which they
were posted. -/
def InOrder (m : Mailbox κ α) : Prop :=
  ∀ k, messagesOf k m.posted = messagesOf k m.taken ++ messagesOf k m.queue ++ m.outbox k

theorem messagesOf_map (k j : κ) (as : List α) :
    messagesOf k (as.map (j, ·)) = if j = k then as else [] := by
  induction as with
  | nil => simp
  | cons a as ih =>
    rw [List.map_cons, messagesOf_cons, ih]
    split_ifs <;> rfl

theorem InOrder.step {m m' : Mailbox κ α} (h : m.InOrder) (hstep : Step m m') : m'.InOrder := by
  intro k
  have hk := h k
  cases hstep with
  | post j as =>
    simp only [messagesOf_append, messagesOf_map, Function.update_apply, hk]
    by_cases hjk : j = k
    · simp [hjk]
    · simp [hjk, Ne.symm hjk]
  | @put j a as hout =>
    -- the message leaves the front of the outbox for the back of the queue
    simp only [messagesOf_append, messagesOf_cons, messagesOf_nil, Function.update_apply, hk]
    by_cases hjk : j = k
    · simp [← hjk, hout]
    · simp [hjk, Ne.symm hjk]
  | @take p queue hqueue =>
    obtain ⟨j, a⟩ := p
    rw [hqueue, messagesOf_cons] at hk
    simp only [messagesOf_append, messagesOf_cons, messagesOf_nil, hk]
    split_ifs <;> simp
  | @direct j a hqueue hout =>
    -- nothing of this sender is on its way, so that nothing is overtaken
    simp only [messagesOf_append, messagesOf_cons, messagesOf_nil, hk]
    by_cases hjk : j = k
    · rw [← hjk, if_pos rfl, hqueue, hout]
      simp
    · simp [hjk]

/-- The messages taken from a sender are the first ones it has posted. -/
theorem InOrder.taken_prefix {m : Mailbox κ α} (h : m.InOrder) (k : κ) :
    messagesOf k m.taken <+: messagesOf k m.posted := by
  rw [h k, List.append_assoc]
  exact List.prefix_append _ _

end Mailbox
