import Mathlib

/-!
# Byte order of 32-bit words

A 32-bit word is a natural below `2 ^ 32`. `loadLE` and `storeLE` move a word between memory
and a little-endian machine, `byteSwap` reverses its bytes (so that `byteSwap` after `loadLE`
reads the big-endian value `loadBE`), and `toSigned` is the two's complement reading.
-/

namespace ByteOrder

/-- The word at four consecutive bytes of memory, least significant byte first. -/
def loadLE (b₀ b₁ b₂ b₃ : UInt8) : ℕ :=
  b₀.toNat + 2 ^ 8 * b₁.toNat + 2 ^ 16 * b₂.toNat + 2 ^ 24 * b₃.toNat

/-- The word at four consecutive bytes of memory, most significant byte first. -/
def loadBE (b₀ b₁ b₂ b₃ : UInt8) : ℕ :=
  2 ^ 24 * b₀.toNat + 2 ^ 16 * b₁.toNat + 2 ^ 8 * b₂.toNat + b₃.toNat

/-- The four bytes of a word, least significant byte first. -/
def storeLE (n : ℕ) : List UInt8 :=
  [.ofNat n, .ofNat (n / 2 ^ 8), .ofNat (n / 2 ^ 16), .ofNat (n / 2 ^ 24)]

/-- Reverse the four bytes of a word. -/
def byteSwap (n : ℕ) : ℕ :=
  2 ^ 24 * (n % 2 ^ 8) + 2 ^ 16 * (n / 2 ^ 8 % 2 ^ 8) + 2 ^ 8 * (n / 2 ^ 16 % 2 ^ 8) +
    n / 2 ^ 24 % 2 ^ 8

/-- The two's complement value of a word. -/
def toSigned (n : ℕ) : ℤ := if n < 2 ^ 31 then n else n - 2 ^ 32

@[simp]
theorem length_storeLE (n : ℕ) : (storeLE n).length = 4 := rfl

/-- Swapping a loaded word reads it in the other byte order. -/
theorem byteSwap_loadLE (b₀ b₁ b₂ b₃ : UInt8) :
    byteSwap (loadLE b₀ b₁ b₂ b₃) = loadBE b₀ b₁ b₂ b₃ := by
  have h₀ := b₀.toNat_lt
  have h₁ := b₁.toNat_lt
  have h₂ := b₂.toNat_lt
  have h₃ := b₃.toNat_lt
  unfold byteSwap loadLE loadBE
  omega

/-- The bytes of a word given by its bytes. -/
private theorem bytes_of_sum {a b c d : ℕ} (ha : a < 2 ^ 8) (hb : b < 2 ^ 8) (hc : c < 2 ^ 8)
    (hd : d < 2 ^ 8) :
    (a + 2 ^ 8 * b + 2 ^ 16 * c + 2 ^ 24 * d) % 2 ^ 8 = a ∧
      (a + 2 ^ 8 * b + 2 ^ 16 * c + 2 ^ 24 * d) / 2 ^ 8 % 2 ^ 8 = b ∧
      (a + 2 ^ 8 * b + 2 ^ 16 * c + 2 ^ 24 * d) / 2 ^ 16 % 2 ^ 8 = c ∧
      (a + 2 ^ 8 * b + 2 ^ 16 * c + 2 ^ 24 * d) / 2 ^ 24 % 2 ^ 8 = d := by
  omega

/-- A word is the sum of its bytes. -/
private theorem sum_of_bytes {n : ℕ} (h : n < 2 ^ 32) :
    2 ^ 24 * (n / 2 ^ 24 % 2 ^ 8) + 2 ^ 16 * (n / 2 ^ 16 % 2 ^ 8) + 2 ^ 8 * (n / 2 ^ 8 % 2 ^ 8) +
      n % 2 ^ 8 = n := by
  omega

/-- A word stored in swapped order is read back in the other byte order. -/
theorem loadBE_storeLE_byteSwap {n : ℕ} (h : n < 2 ^ 32) :
    ∃ b₀ b₁ b₂ b₃, storeLE (byteSwap n) = [b₀, b₁, b₂, b₃] ∧ loadBE b₀ b₁ b₂ b₃ = n := by
  have hlt : ∀ m, m % 2 ^ 8 < 2 ^ 8 := fun m => Nat.mod_lt m (by decide)
  have hswap : byteSwap n = n / 2 ^ 24 % 2 ^ 8 + 2 ^ 8 * (n / 2 ^ 16 % 2 ^ 8) +
      2 ^ 16 * (n / 2 ^ 8 % 2 ^ 8) + 2 ^ 24 * (n % 2 ^ 8) := by
    unfold byteSwap
    omega
  obtain ⟨h₀, h₁, h₂, h₃⟩ := bytes_of_sum (hlt (n / 2 ^ 24)) (hlt (n / 2 ^ 16))
    (hlt (n / 2 ^ 8)) (hlt n)
  refine ⟨_, _, _, _, rfl, ?_⟩
  simp only [loadBE, UInt8.toNat_ofNat']
  rw [hswap, h₀, h₁, h₂, h₃, sum_of_bytes h]

/-- A word has one sequence of bytes. -/
theorem loadBE_injective {a₀ a₁ a₂ a₃ b₀ b₁ b₂ b₃ : UInt8}
    (h : loadBE a₀ a₁ a₂ a₃ = loadBE b₀ b₁ b₂ b₃) : [a₀, a₁, a₂, a₃] = [b₀, b₁, b₂, b₃] := by
  have hlt : ∀ b : UInt8, b.toNat < 2 ^ 8 := fun b => b.toNat_lt
  have ha₀ := hlt a₀
  have ha₁ := hlt a₁
  have ha₂ := hlt a₂
  have ha₃ := hlt a₃
  have hb₀ := hlt b₀
  have hb₁ := hlt b₁
  have hb₂ := hlt b₂
  have hb₃ := hlt b₃
  unfold loadBE at h
  have h₀ : a₀ = b₀ := UInt8.toNat_inj.mp (by omega)
  have h₁ : a₁ = b₁ := UInt8.toNat_inj.mp (by omega)
  have h₂ : a₂ = b₂ := UInt8.toNat_inj.mp (by omega)
  have h₃ : a₃ = b₃ := UInt8.toNat_inj.mp (by omega)
  rw [h₀, h₁, h₂, h₃]

theorem loadBE_lt (b₀ b₁ b₂ b₃ : UInt8) : loadBE b₀ b₁ b₂ b₃ < 2 ^ 32 := by
  have h₀ := b₀.toNat_lt
  have h₁ := b₁.toNat_lt
  have h₂ := b₂.toNat_lt
  have h₃ := b₃.toNat_lt
  unfold loadBE
  omega

/-- Only small words have a signed value that is not negative. -/
theorem eq_of_toSigned_eq {n m : ℕ} (hn : n < 2 ^ 32) (h : toSigned n = m) : n = m := by
  unfold toSigned at h
  split_ifs at h <;> omega

theorem toSigned_of_lt {n : ℕ} (h : n < 2 ^ 31) : toSigned n = n := if_pos h

end ByteOrder
