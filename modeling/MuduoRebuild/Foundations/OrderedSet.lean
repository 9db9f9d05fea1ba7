import Mathlib

/-!
# Ordered sets

A finite set over a linear order, kept as its elements in increasing order. Traversal goes from
the least element up, and the set splits at any bound into the elements below it and the rest.

Two sets whose elements are matched one to one have the same size (`size_eq_of_matching`).
-/

/-- A finite set, as the list of its elements in increasing order. -/
structure OrderedSet (α : Type*) [LinearOrder α] where
  toList : List α
  sorted : toList.Pairwise (· < ·)
  deriving DecidableEq

namespace OrderedSet

variable {α β γ : Type*} [LinearOrder α] [LinearOrder β]

instance : Membership α (OrderedSet α) := ⟨fun s a => a ∈ s.toList⟩

instance (a : α) (s : OrderedSet α) : Decidable (a ∈ s) :=
  inferInstanceAs (Decidable (a ∈ s.toList))

/-- The set without elements. -/
def empty : OrderedSet α := ⟨[], .nil⟩

/-- The number of elements. -/
def size (s : OrderedSet α) : ℕ := s.toList.length

/-- The least element. -/
def begin? (s : OrderedSet α) : Option α := s.toList.head?

/-- The elements with a property. -/
def filter (p : α → Bool) (s : OrderedSet α) : OrderedSet α :=
  ⟨s.toList.filter p, s.sorted.filter p⟩

/-- Add an element, unless it is there. -/
def insert (a : α) (s : OrderedSet α) : OrderedSet α where
  toList := s.toList.filter (· < a) ++ a :: s.toList.filter (a < ·)
  sorted := by
    refine List.pairwise_append.mpr ⟨s.sorted.filter _, ?_, ?_⟩
    · refine List.pairwise_cons.mpr ⟨fun x hx => ?_, s.sorted.filter _⟩
      exact of_decide_eq_true (List.mem_filter.mp hx).2
    · intro x hx y hy
      have hxa : x < a := of_decide_eq_true (List.mem_filter.mp hx).2
      rcases List.mem_cons.mp hy with rfl | hy
      · exact hxa
      · exact lt_trans hxa (of_decide_eq_true (List.mem_filter.mp hy).2)

/-- Remove an element, if it is there. -/
def erase (a : α) (s : OrderedSet α) : OrderedSet α := s.filter (· ≠ a)

/-- The elements below a bound: those before `lower_bound`. -/
def below (b : α) (s : OrderedSet α) : OrderedSet α := s.filter (· < b)

/-- The elements from a bound on: those from `lower_bound` to the end. -/
def above (b : α) (s : OrderedSet α) : OrderedSet α := s.filter (¬· < b)

variable {s : OrderedSet α} {t : OrderedSet β} {a b x : α}

theorem mem_toList : x ∈ s.toList ↔ x ∈ s := Iff.rfl

@[simp]
theorem not_mem_empty : x ∉ (empty : OrderedSet α) := List.not_mem_nil

@[simp]
theorem mem_filter {p : α → Bool} : x ∈ s.filter p ↔ x ∈ s ∧ p x = true := List.mem_filter

@[simp]
theorem mem_insert : x ∈ s.insert a ↔ x = a ∨ x ∈ s := by
  have hmem : x ∈ s.insert a ↔ x ∈ s ∧ x < a ∨ x = a ∨ x ∈ s ∧ a < x := by
    rw [← mem_toList, insert, List.mem_append, List.mem_cons, List.mem_filter, List.mem_filter,
      decide_eq_true_iff, decide_eq_true_iff]
    exact Iff.rfl
  rw [hmem]
  constructor
  · rintro (⟨hx, -⟩ | rfl | ⟨hx, -⟩)
    · exact .inr hx
    · exact .inl rfl
    · exact .inr hx
  · rintro (rfl | hx)
    · exact .inr (.inl rfl)
    · rcases lt_trichotomy x a with hlt | heq | hgt
      · exact .inl ⟨hx, hlt⟩
      · exact .inr (.inl heq)
      · exact .inr (.inr ⟨hx, hgt⟩)

@[simp]
theorem mem_erase : x ∈ s.erase a ↔ x ∈ s ∧ x ≠ a := by
  rw [erase, mem_filter, decide_eq_true_iff]

@[simp]
theorem mem_below : x ∈ s.below b ↔ x ∈ s ∧ x < b := by
  rw [below, mem_filter, decide_eq_true_iff]

@[simp]
theorem mem_above : x ∈ s.above b ↔ x ∈ s ∧ ¬x < b := by
  rw [above, mem_filter, decide_eq_true_iff]

/-- The first element is the least one. -/
theorem le_of_begin? (ha : s.begin? = some a) (hx : x ∈ s) : a ≤ x := by
  obtain ⟨l, hl⟩ := List.head?_eq_some_iff.mp ha
  have hsorted := s.sorted
  rw [hl, List.pairwise_cons] at hsorted
  rw [← mem_toList, hl, List.mem_cons] at hx
  rcases hx with rfl | hx
  · exact le_rfl
  · exact (hsorted.1 x hx).le

theorem mem_of_begin? (ha : s.begin? = some a) : a ∈ s := List.mem_of_head? ha

theorem not_mem_of_begin? (hs : s.begin? = none) : x ∉ s := by
  rw [← mem_toList, List.head?_eq_none_iff.mp hs]
  exact List.not_mem_nil

theorem nodup (s : OrderedSet α) : s.toList.Nodup := s.sorted.imp fun h => ne_of_lt h

/-- Sets whose elements have the same labels, each label once, have the same size. -/
theorem size_eq_of_matching (f : α → γ) (g : β → γ)
    (hf : ∀ x ∈ s, ∀ y ∈ s, f x = f y → x = y) (hg : ∀ x ∈ t, ∀ y ∈ t, g x = g y → x = y)
    (hfg : ∀ c, (∃ x ∈ s, f x = c) ↔ ∃ y ∈ t, g y = c) : s.size = t.size := by
  -- the labels of both sets are the same list, up to order
  have hs : (s.toList.map f).Nodup := List.Nodup.map_on hf s.nodup
  have ht : (t.toList.map g).Nodup := List.Nodup.map_on hg t.nodup
  have hmem : ∀ c, c ∈ s.toList.map f ↔ c ∈ t.toList.map g := fun c => by
    rw [List.mem_map, List.mem_map]
    exact hfg c
  have hlen := ((List.perm_ext_iff_of_nodup hs ht).mpr hmem).length_eq
  rwa [List.length_map, List.length_map] at hlen

end OrderedSet
