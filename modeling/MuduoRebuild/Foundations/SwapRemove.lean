import Mathlib.Data.List.Nodup

/-!
# Removal from a sequence by swapping with its end

An element is removed from a sequence in constant time by exchanging it with the last one and
dropping the end; the last element takes its place. The lemmas describe the result for a
sequence without duplicates: it loses exactly the removed element, and the positions of the
others change for the last one only.
-/

namespace SwapRemove

variable {α β : Type*}

/-- Exchange the elements at two positions. -/
def swapAt (l : List α) (i j : ℕ) : List α :=
  match l[i]?, l[j]? with
  | some a, some b => (l.set i b).set j a
  | _, _ => l

/-- Exchange the element at `i` with the last one, then drop the end. -/
def swapRemove (l : List α) (i : ℕ) : List α :=
  (if i ≠ l.length - 1 then swapAt l i (l.length - 1) else l).dropLast

/-- The last element takes the place of the removed one. -/
theorem swapRemove_concat {front : List α} {z : α} {i : ℕ} (hi : i ≤ front.length) :
    swapRemove (front ++ [z]) i = front.set i z := by
  have hlen : (front ++ [z]).length - 1 = front.length := by simp
  rw [swapRemove, hlen]
  rcases Nat.lt_or_eq_of_le hi with hlt | rfl
  · have ha : (front ++ [z])[i]? = some front[i] := by
      rw [List.getElem?_append_left hlt, List.getElem?_eq_getElem hlt]
    rw [if_pos (by omega), swapAt, ha, List.getElem?_concat_length]
    simp only [List.set_append_left _ _ hlt]
    rw [List.set_append_right _ _ (by simp), List.length_set, Nat.sub_self, List.set_cons_zero,
      List.dropLast_concat]
  · rw [if_neg (by simp), List.dropLast_concat, List.set_eq_of_length_le (Nat.le_refl _)]

theorem map_swapRemove (f : α → β) (l : List α) (i : ℕ) :
    (swapRemove l i).map f = swapRemove (l.map f) i := by
  have hswap : ∀ j, (swapAt l i j).map f = swapAt (l.map f) i j := by
    intro j
    simp only [swapAt, List.getElem?_map]
    cases l[i]? <;> cases l[j]? <;> simp [List.map_set]
  rw [swapRemove, swapRemove, List.length_map, List.map_dropLast]
  split_ifs
  · rw [hswap]
  · rfl

/-- A nonempty list is a front and a last element. -/
private theorem exists_concat {l : List α} {i : ℕ} {a : α} (h : l[i]? = some a) :
    ∃ front z, l = front ++ [z] ∧ i ≤ front.length := by
  obtain ⟨hi, -⟩ := List.getElem?_eq_some_iff.mp h
  rcases List.eq_nil_or_concat' l with rfl | ⟨front, z, rfl⟩
  · exact absurd hi (Nat.not_lt_zero i)
  · refine ⟨front, z, rfl, ?_⟩
    rw [List.length_append, List.length_singleton] at hi
    omega

/-- Overwriting an element keeps the others. -/
private theorem mem_set_of_nodup {l : List α} (hnodup : l.Nodup) {i : ℕ} (hi : i < l.length)
    {x z : α} : x ∈ l.set i z ↔ x = z ∨ x ∈ l ∧ x ≠ l[i] := by
  have hsplit : l = l.take i ++ l[i] :: l.drop (i + 1) := by
    rw [← List.drop_eq_getElem_cons hi, List.take_append_drop]
  have hset : l.set i z = l.take i ++ z :: l.drop (i + 1) := by
    rw [List.set_eq_take_append_cons_drop, if_pos hi]
  have hout : ∀ y, y ∈ l.take i ∨ y ∈ l.drop (i + 1) → y ≠ l[i] := by
    rw [hsplit, List.nodup_middle, List.nodup_cons] at hnodup
    rintro y hy rfl
    exact hnodup.1 (List.mem_append.mpr hy)
  have hmem : x ∈ l ↔ x ∈ l.take i ∨ x = l[i] ∨ x ∈ l.drop (i + 1) := by
    conv_lhs => rw [hsplit]
    rw [List.mem_append, List.mem_cons]
  rw [hset, hmem, List.mem_append, List.mem_cons]
  constructor
  · rintro (hx | rfl | hx)
    · exact .inr ⟨.inl hx, hout x (.inl hx)⟩
    · exact .inl rfl
    · exact .inr ⟨.inr (.inr hx), hout x (.inr hx)⟩
  · rintro (rfl | ⟨hx | rfl | hx, hne⟩)
    · exact .inr (.inl rfl)
    · exact .inl hx
    · exact absurd rfl hne
    · exact .inr (.inr hx)

/-- Removing an element keeps exactly the others. -/
theorem mem_swapRemove {l : List α} (hnodup : l.Nodup) {i : ℕ} {a x : α} (h : l[i]? = some a) :
    x ∈ swapRemove l i ↔ x ∈ l ∧ x ≠ a := by
  obtain ⟨front, z, rfl, hi⟩ := exists_concat h
  have hz : ∀ y ∈ front, y ≠ z := fun y hy => by
    rw [List.nodup_append] at hnodup
    exact hnodup.2.2 y hy z (List.mem_singleton_self z)
  rw [swapRemove_concat hi, List.mem_append, List.mem_singleton]
  rcases Nat.lt_or_eq_of_le hi with hlt | rfl
  · -- the last element overwrites the removed one
    obtain rfl : front[i] = a := by
      rw [List.getElem?_append_left hlt, List.getElem?_eq_getElem hlt] at h
      exact Option.some.inj h
    rw [mem_set_of_nodup hnodup.of_append_left hlt, or_comm, or_and_right]
    refine or_congr_right (iff_self_and.mpr ?_)
    rintro rfl
    exact (hz _ (List.getElem_mem hlt)).symm
  · -- the removed element is the last one, and nothing is overwritten
    obtain rfl : z = a := by
      rw [List.getElem?_concat_length] at h
      exact Option.some.inj h
    rw [List.set_eq_of_length_le (Nat.le_refl _), or_and_right]
    constructor
    · intro hx
      exact .inl ⟨hx, hz x hx⟩
    · rintro (hx | ⟨rfl, hne⟩)
      · exact hx.1
      · exact absurd rfl hne

theorem nodup_swapRemove {l : List α} (hnodup : l.Nodup) {i : ℕ} {a : α} (h : l[i]? = some a) :
    (swapRemove l i).Nodup := by
  obtain ⟨front, z, rfl, hi⟩ := exists_concat h
  rw [swapRemove_concat hi]
  rcases Nat.lt_or_eq_of_le hi with hlt | rfl
  · refine hnodup.of_append_left.set fun hmem => ?_
    rw [List.nodup_append] at hnodup
    exact hnodup.2.2 z hmem z (List.mem_singleton_self z) rfl
  · rw [List.set_eq_of_length_le (Nat.le_refl _)]
    exact hnodup.of_append_left

/-- Where an element is after the removal: at `i` if it was the last one, otherwise where it
was before. -/
theorem getElem?_of_swapRemove {l : List α} {i j : ℕ} {a x : α} (h : l[i]? = some a)
    (hj : (swapRemove l i)[j]? = some x) :
    j = i ∧ i ≠ l.length - 1 ∧ l[l.length - 1]? = some x ∨
      j ≠ i ∧ j < l.length - 1 ∧ l[j]? = some x := by
  obtain ⟨front, z, rfl, hi⟩ := exists_concat h
  have hlen : (front ++ [z]).length - 1 = front.length := by simp
  rw [swapRemove_concat hi, List.getElem?_set] at hj
  rw [hlen]
  split_ifs at hj with hij hlt
  · obtain rfl := Option.some.inj hj
    exact .inl ⟨hij.symm, by omega, List.getElem?_concat_length⟩
  · obtain ⟨hjlt, -⟩ := List.getElem?_eq_some_iff.mp hj
    exact .inr ⟨fun heq => hij heq.symm, hjlt, by rw [List.getElem?_append_left hjlt, hj]⟩

end SwapRemove
