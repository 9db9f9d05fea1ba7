import Mathlib.Data.List.Basic
import Mathlib.Order.Basic

/-!
# Blocks of cells

A block is a list of cells addressed by position, of a length that changes only by `resize`.
The operations are those a program performs on a growable array: read a range (`slice`),
overwrite a range with given cells (`splice`), move a range inside the block cell by cell from
the front (`copyForward`), and change the length (`resize`).

The lemmas say what each operation does to the slices of the block: which range changed, which
ranges are untouched, and that a forward copy to a lower position is a `splice` of the old
range even when the two ranges overlap.
-/

namespace Block

variable {α : Type*}

/-- The cells at positions `i, …, j - 1`. -/
def slice (l : List α) (i j : ℕ) : List α := (l.take j).drop i

/-- Overwrite the cells from position `i` on with `d`. The block keeps its length when `d`
fits. -/
def splice (l : List α) (i : ℕ) (d : List α) : List α :=
  l.take i ++ d ++ l.drop (i + d.length)

/-- Change the length to `n`, dropping cells at the end or adding copies of `fill`. -/
def resize (fill : α) (l : List α) (n : ℕ) : List α :=
  l.take n ++ List.replicate (n - l.length) fill

/-- Copy `n` cells from position `src` on to position `dst` on, one cell at a time from the
front, each read from the block as the earlier copies left it. -/
def copyForward (l : List α) (src dst : ℕ) : ℕ → List α
  | 0 => l
  | n + 1 =>
    match l[src]? with
    | some x => copyForward (l.set dst x) (src + 1) (dst + 1) n
    | none => l

variable {l : List α} {i j k : ℕ} {d : List α}

/-! ### Slices -/

theorem length_slice (h : j ≤ l.length) : (slice l i j).length = j - i := by
  rw [slice, List.length_drop, List.length_take, Nat.min_eq_left h]

@[simp]
theorem slice_self (l : List α) (i : ℕ) : slice l i i = [] := by
  rw [slice, List.drop_eq_nil_of_le (by rw [List.length_take]; omega)]

/-- Adjacent slices concatenate. -/
theorem slice_append_slice (hij : i ≤ j) (hjk : j ≤ k) :
    slice l i j ++ slice l j k = slice l i k := by
  have hsplit : l.take k = l.take j ++ (l.take k).drop j := by
    conv_lhs => rw [← List.take_append_drop j (l.take k), List.take_take, Nat.min_eq_left hjk]
  rcases Nat.le_total l.length j with hl | hl
  · -- the block ends before the second slice begins
    have htail : slice l j k = [] := by
      rw [slice, List.drop_eq_nil_of_le]
      simp only [List.length_take]
      omega
    rw [htail, List.append_nil, slice, slice, List.take_of_length_le hl,
      List.take_of_length_le (by omega)]
  · have hi : i ≤ (l.take j).length := by
      rw [List.length_take]
      omega
    calc slice l i j ++ slice l j k
        = (l.take j ++ (l.take k).drop j).drop i := by
          rw [List.drop_append_of_le_length hi, slice, slice]
      _ = slice l i k := by rw [← hsplit, slice]

/-- Advancing the left end of a slice drops cells from its front. -/
theorem slice_add_left (l : List α) (i n j : ℕ) : slice l (i + n) j = (slice l i j).drop n := by
  rw [slice, slice, List.drop_drop]

/-! ### Splices -/

theorem length_splice (h : i + d.length ≤ l.length) : (splice l i d).length = l.length := by
  simp only [splice, List.length_append, List.length_take, List.length_drop]
  omega

/-- The overwritten range holds the new cells. -/
theorem slice_splice (h : i ≤ l.length) : slice (splice l i d) i (i + d.length) = d := by
  have hi : (l.take i).length = i := by
    rw [List.length_take]
    omega
  have hfront : (l.take i ++ d).length = i + d.length := by rw [List.length_append, hi]
  calc slice (splice l i d) i (i + d.length)
      = (l.take i ++ d).drop i := by rw [slice, splice, ← hfront, List.take_left]
    _ = d := List.drop_left' hi

/-- Ranges below the overwritten one are untouched. -/
theorem slice_splice_of_le (hj : j ≤ i) (hi : i ≤ l.length) :
    slice (splice l i d) k j = slice l k j := by
  have hlen : j ≤ (l.take i).length := by
    rw [List.length_take]
    omega
  rw [slice, slice, splice, List.append_assoc, List.take_append_of_le_length hlen,
    List.take_take, Nat.min_eq_left hj]

/-- Ranges above the overwritten one are untouched. -/
theorem slice_splice_of_ge (hk : i + d.length ≤ k) (hl : i + d.length ≤ l.length) :
    slice (splice l i d) k j = slice l k j := by
  have hfront : (l.take i ++ d).length = i + d.length := by
    simp only [List.length_append, List.length_take]
    omega
  obtain ⟨m, rfl⟩ := Nat.exists_eq_add_of_le hk
  have hdrop : (splice l i d).drop (i + d.length + m) = l.drop (i + d.length + m) := by
    rw [splice, ← List.drop_drop, List.drop_left' hfront, List.drop_drop]
  rw [slice, slice, List.drop_take, List.drop_take, hdrop]

/-! ### Resizing -/

@[simp]
theorem length_resize (fill : α) (l : List α) (n : ℕ) : (resize fill l n).length = n := by
  simp only [resize, List.length_append, List.length_take, List.length_replicate]
  omega

/-- Resizing keeps every range below both lengths. -/
theorem slice_resize {fill : α} {n : ℕ} (hn : j ≤ n) (hl : j ≤ l.length) :
    slice (resize fill l n) i j = slice l i j := by
  have hlen : j ≤ (l.take n).length := by
    rw [List.length_take]
    omega
  rw [slice, slice, resize, List.take_append_of_le_length hlen, List.take_take,
    Nat.min_eq_left hn]

/-! ### Forward copies -/

private theorem set_eq_splice {x : α} (h : i < l.length) : l.set i x = splice l i [x] := by
  rw [List.set_eq_take_append_cons_drop, if_pos h, splice, List.append_assoc]
  rfl

private theorem splice_cons {x : α} (h : i < l.length) :
    splice (splice l i [x]) (i + 1) d = splice l i (x :: d) := by
  have hi : (l.take i ++ [x]).length = i + 1 := by
    simp only [List.length_append, List.length_take, List.length_singleton]
    omega
  have htake : (splice l i [x]).take (i + 1) = l.take i ++ [x] := by
    rw [splice, ← hi, List.take_left]
  have hdrop : (splice l i [x]).drop (i + 1 + d.length) = l.drop (i + (d.length + 1)) := by
    rw [splice, List.drop_append, List.drop_eq_nil_of_le (by omega), List.nil_append, hi,
      List.drop_drop]
    congr 1
    simp only [List.length_singleton]
    omega
  rw [splice, htake, hdrop, splice, List.length_cons]
  simp

@[simp]
theorem length_copyForward (l : List α) (src dst n : ℕ) :
    (copyForward l src dst n).length = l.length := by
  induction n generalizing l src dst with
  | zero => rfl
  | succ n ih =>
    rw [copyForward]
    split
    · rw [ih, List.length_set]
    · rfl

/-- A forward copy to a lower or equal position moves the old range unchanged, also when the
ranges overlap: each cell is read before any copy reaches it. -/
theorem copyForward_eq_splice {src dst n : ℕ} (hle : dst ≤ src) (hsrc : src + n ≤ l.length) :
    copyForward l src dst n = splice l dst (slice l src (src + n)) := by
  induction n generalizing l src dst with
  | zero => simp [copyForward, splice]
  | succ n ih =>
    have hlt : src < l.length := by omega
    have hhead : slice l src (src + (n + 1)) =
        l[src] :: slice l (src + 1) (src + 1 + n) := by
      rw [← slice_append_slice (j := src + 1) (by omega) (by omega), slice,
        List.take_succ_eq_append_getElem hlt, List.drop_left' (by simp; omega)]
      simp [Nat.add_assoc, Nat.add_comm 1]
    -- the cell written at `dst` lies below everything still to be read
    have hrest : slice (splice l dst [l[src]]) (src + 1) (src + 1 + n) =
        slice l (src + 1) (src + 1 + n) :=
      slice_splice_of_ge (by simp; omega) (by simp; omega)
    rw [copyForward, List.getElem?_eq_getElem hlt]
    dsimp only
    rw [set_eq_splice (by omega), ih (by omega)
      (by rw [length_splice (by simp; omega)]; omega), hrest, splice_cons (by omega), hhead]

end Block
