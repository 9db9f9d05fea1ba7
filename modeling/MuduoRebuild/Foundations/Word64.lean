import Mathlib

/-!
# Unsigned 64-bit arithmetic on naturals

Values of an unsigned 64-bit type are naturals below `2 ^ 64`; sums and differences wrap. The
two lemmas remove the wrap where the exact result is in range.
-/

namespace Word64

/-- One more than the largest value. -/
def modulus : ℕ := 2 ^ 64

/-- Sum modulo `2 ^ 64`. -/
def add (a b : ℕ) : ℕ := (a + b) % modulus

/-- Difference modulo `2 ^ 64`. -/
def sub (a b : ℕ) : ℕ := (a + (modulus - b % modulus)) % modulus

theorem add_of_lt {a b : ℕ} (h : a + b < modulus) : add a b = a + b :=
  Nat.mod_eq_of_lt h

theorem sub_of_le {a b : ℕ} (hle : b ≤ a) (ha : a < modulus) : sub a b = a - b := by
  unfold sub modulus at *
  omega

end Word64
