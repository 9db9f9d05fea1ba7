import MuduoRebuild.Foundations.History

/-!
# A queue that is handed over in batches

Producers push onto a queue. Its consumer takes the whole queue as a *batch*, and starts the
elements of the batch one after the other; it takes the next batch when this one is used up.
Meanwhile producers, and the elements that have been started, go on pushing.

`Handover.Exact` says that the history accounts for every element: what has been started, what is
left of the batch and what waits in the queue is, in this order, what has been pushed, and the
batch reaches exactly as far as the pushes before it was taken.
-/

variable {α : Type*}

/-- What happens to the queue and to its elements. -/
inductive Handover.Event (α : Type*) where
  | pushed (a : α)
  | swapped
  | started (a : α)
  deriving DecidableEq, Repr

/-- A queue, the rest of the batch that has been taken from it, and what has happened. -/
structure Handover (α : Type*) where
  queue : List α
  batch : List α
  history : List (Handover.Event α)

namespace Handover

/-- The element of a push. -/
def Event.pushed? : Event α → Option α
  | .pushed a => some a
  | _ => none

/-- The element that is started. -/
def Event.started? : Event α → Option α
  | .started a => some a
  | _ => none

/-- The elements pushed in a history, in order. -/
def pushes (history : List (Event α)) : List α := history.filterMap Event.pushed?

/-- The elements started in a history, in order. -/
def starts (history : List (Event α)) : List α := history.filterMap Event.started?

@[simp]
theorem pushes_concat (history : List (Event α)) (e : Event α) :
    pushes (history ++ [e]) = pushes history ++ e.pushed?.toList := by
  rw [pushes, List.filterMap_append]
  cases h : e.pushed? <;> simp [pushes, h]

@[simp]
theorem starts_concat (history : List (Event α)) (e : Event α) :
    starts (history ++ [e]) = starts history ++ e.started?.toList := by
  rw [starts, List.filterMap_append]
  cases h : e.started? <;> simp [starts, h]

/-- The ways in which the queue can change. -/
inductive Step (m : Handover α) : Handover α → Prop where
  | push (a : α) :
    Step m { m with queue := m.queue ++ [a], history := m.history ++ [.pushed a] }
  | swap (h : m.batch = []) :
    Step m { queue := [], batch := m.queue, history := m.history ++ [.swapped] }
  | start {a : α} {batch : List α} (h : m.batch = a :: batch) :
    Step m { m with batch, history := m.history ++ [.started a] }

/-- Every element is where its turn is. -/
structure Exact (m : Handover α) : Prop where
  in_order : pushes m.history = starts m.history ++ m.batch ++ m.queue
  /-- The batch ends where the pushes before the last swap end. -/
  batch_fixed : ∀ pre post, m.history = pre ++ .swapped :: post → .swapped ∉ post →
    pushes pre = starts m.history ++ m.batch

theorem Exact.step {m m' : Handover α} (h : m.Exact) (hstep : Step m m') : m'.Exact := by
  cases hstep with
  | push a =>
    constructor
    · simp [Event.pushed?, Event.started?, h.in_order]
    · intro pre post heq hlast
      rcases History.concat_eq_append_cons heq with ⟨-, -, hswap⟩ | ⟨post', rfl, heq'⟩
      · cases hswap
      · have hfixed := h.batch_fixed pre post' heq' fun hmem => hlast (List.mem_append_left _ hmem)
        simpa [Event.started?] using hfixed
  | swap hbatch =>
    have horder := h.in_order
    rw [hbatch, List.append_nil] at horder
    constructor
    · simpa [Event.pushed?, Event.started?] using horder
    · intro pre post heq hlast
      rcases History.concat_eq_append_cons heq with ⟨-, rfl, -⟩ | ⟨post', rfl, -⟩
      · simpa [Event.started?] using horder
      · simp at hlast
  | start hbatch =>
    constructor
    · simpa [Event.pushed?, Event.started?, hbatch] using h.in_order
    · intro pre post heq hlast
      rcases History.concat_eq_append_cons heq with ⟨-, -, hswap⟩ | ⟨post', rfl, heq'⟩
      · cases hswap
      · have hfixed := h.batch_fixed pre post' heq' fun hmem => hlast (List.mem_append_left _ hmem)
        simpa [Event.started?, hbatch] using hfixed

/-- The elements are started in the order in which they were pushed. -/
theorem Exact.starts_prefix {m : Handover α} (h : m.Exact) :
    starts m.history <+: pushes m.history := by
  rw [h.in_order, List.append_assoc]
  exact List.prefix_append _ _

end Handover
