import Mathlib.Logic.Basic

/-!
# Fallible computations

How `Except` computations compose, and a check that faults unless a condition holds.
-/

namespace Fallible

universe u v

variable {ε : Type u} {α β : Type v}

@[simp]
theorem ok_bind (a : α) (f : α → Except ε β) : (Except.ok a >>= f) = f a := rfl

@[simp]
theorem error_bind (e : ε) (f : α → Except ε β) : (Except.error e >>= f) = Except.error e := rfl

@[simp]
theorem pure_eq_ok (a : α) : (pure a : Except ε α) = Except.ok a := rfl

theorem bind_of_ok {x : Except ε α} {a : α} (h : x = .ok a) (f : α → Except ε β) :
    x >>= f = f a := by
  rw [h, ok_bind]

/-- A composed computation succeeds when both parts do. -/
theorem bind_eq_ok {x : Except ε α} {f : α → Except ε β} {b : β} :
    x >>= f = .ok b ↔ ∃ a, x = .ok a ∧ f a = .ok b := by
  cases x with
  | ok a => simp
  | error e => simp

/-- A composed computation fails when the first part does, or the second after it. -/
theorem bind_eq_error {x : Except ε α} {f : α → Except ε β} {e : ε} :
    x >>= f = .error e ↔ x = .error e ∨ ∃ a, x = .ok a ∧ f a = .error e := by
  cases x with
  | ok a => simp
  | error e => simp

theorem ok_ne_error (a : α) (e : ε) : (Except.ok a : Except ε α) ≠ .error e := fun h => by cases h

/-- A composed computation does not fail in a way in which neither part does. -/
theorem bind_ne_error {x : Except ε α} {f : α → Except ε β} {e : ε} (hx : x ≠ .error e)
    (hf : ∀ a, x = .ok a → f a ≠ .error e) : x >>= f ≠ .error e := by
  intro h
  rcases bind_eq_error.mp h with h | ⟨a, ha, h⟩
  · exact hx h
  · exact hf a ha h

/-- Fault with `e` unless `c` holds. -/
def check (c : Prop) [Decidable c] (e : ε) : Except ε Unit :=
  if c then .ok () else .error e

theorem check_of {c : Prop} [Decidable c] (h : c) (e : ε) : check c e = .ok () := if_pos h

theorem check_of_not {c : Prop} [Decidable c] (h : ¬c) (e : ε) : check c e = .error e := if_neg h

@[simp]
theorem check_eq_ok {c : Prop} [Decidable c] {e : ε} {u : Unit} : check c e = .ok u ↔ c := by
  by_cases h : c
  · rw [check_of h]
    exact iff_of_true rfl h
  · rw [check_of_not h]
    exact iff_of_false (fun he => by cases he) h

@[simp]
theorem check_eq_error {c : Prop} [Decidable c] {e e' : ε} :
    check c e = .error e' ↔ ¬c ∧ e = e' := by
  by_cases h : c
  · rw [check_of h]
    exact iff_of_false (fun he => by cases he) fun hc => hc.1 h
  · rw [check_of_not h, Except.error.injEq, and_iff_right h]

end Fallible
