import Mathlib.Data.List.Basic

/-!
# Histories

A history is the list of the events of a run, oldest first. `Armed g t` says that the event `t`
has happened after the event `g`; `NeverAfter g t b` says that the event `b` has not happened
after that. `Whenever t P` says that the history had the property `P` each time the event `t`
happened, and `Standing t b` that `t` has happened and `b` has not happened since. All are followed
along a history that grows at its end.
-/

namespace History

variable {ε : Type*} {g t b e : ε} {log es : List ε}

/-- The event `t` has happened after the event `g`. -/
def Armed (g t : ε) (log : List ε) : Prop := ∃ pre post, log = pre ++ t :: post ∧ g ∈ pre

/-- The event `b` has not happened after a `t` that came after `g`. -/
def NeverAfter (g t b : ε) (log : List ε) : Prop :=
  ∀ pre post, log = pre ++ t :: post → g ∈ pre → b ∉ post

/-- Where an event of a history stands, when the last event is taken off. -/
theorem concat_eq_append_cons {pre post : List ε} (h : log ++ [e] = pre ++ t :: post) :
    post = [] ∧ pre = log ∧ t = e ∨ ∃ post', post = post' ++ [e] ∧ log = pre ++ t :: post' := by
  rcases List.eq_nil_or_concat' post with rfl | ⟨post', z, rfl⟩
  · obtain ⟨rfl, hlast⟩ := List.append_inj' h rfl
    exact .inl ⟨rfl, rfl, (List.cons.inj hlast).1.symm⟩
  · rw [← List.cons_append, ← List.append_assoc] at h
    obtain ⟨rfl, hlast⟩ := List.append_inj' h rfl
    obtain rfl := (List.cons.inj hlast).1
    exact .inr ⟨post', rfl, rfl⟩

theorem armed_concat : Armed g t (log ++ [e]) ↔ Armed g t log ∨ t = e ∧ g ∈ log := by
  constructor
  · rintro ⟨pre, post, heq, hg⟩
    rcases concat_eq_append_cons heq with ⟨-, rfl, rfl⟩ | ⟨post', -, rfl⟩
    · exact .inr ⟨rfl, hg⟩
    · exact .inl ⟨pre, post', rfl, hg⟩
  · rintro (⟨pre, post, rfl, hg⟩ | ⟨rfl, hg⟩)
    · exact ⟨pre, post ++ [e], by simp, hg⟩
    · exact ⟨log, [], rfl, hg⟩

/-- Other events do not arm a history. -/
theorem armed_append_of_not_mem (h : t ∉ es) : Armed g t (log ++ es) ↔ Armed g t log := by
  induction es generalizing log with
  | nil => rw [List.append_nil]
  | cons e es ih =>
    rw [List.mem_cons, not_or] at h
    rw [List.append_cons, ih h.2, armed_concat]
    exact or_iff_left fun hte => h.1 hte.1

/-- A later `t` arms a history that has had `g`. -/
theorem armed_append_of_mem (hg : g ∈ log) (ht : t ∈ es) : Armed g t (log ++ es) := by
  obtain ⟨pre, post, rfl⟩ := List.append_of_mem ht
  exact ⟨log ++ pre, post, (List.append_assoc ..).symm, List.mem_append_left _ hg⟩

theorem Armed.append (h : Armed g t log) (es : List ε) : Armed g t (log ++ es) := by
  obtain ⟨pre, post, rfl, hg⟩ := h
  exact ⟨pre, post ++ es, List.append_assoc .., hg⟩

theorem Armed.mem (h : Armed g t log) : g ∈ log := by
  obtain ⟨pre, post, rfl, hg⟩ := h
  exact List.mem_append_left _ hg

/-- A history stays good as long as `b` does not happen once it is armed. -/
theorem NeverAfter.concat (h : NeverAfter g t b log) (hbad : b = e → ¬Armed g t log) :
    NeverAfter g t b (log ++ [e]) := by
  intro pre post heq hg hb
  rcases concat_eq_append_cons heq with ⟨rfl, -, -⟩ | ⟨post', rfl, rfl⟩
  · -- nothing comes after the last event
    cases hb
  · rcases List.mem_append.mp hb with hb | hb
    · exact h pre post' rfl hg hb
    · exact hbad (List.mem_singleton.mp hb) ⟨pre, post', rfl, hg⟩

theorem NeverAfter.append (h : NeverAfter g t b log) (hes : b ∉ es) :
    NeverAfter g t b (log ++ es) := by
  induction es generalizing log with
  | nil => rwa [List.append_nil]
  | cons e es ih =>
    rw [List.mem_cons, not_or] at hes
    rw [List.append_cons]
    exact ih (h.concat fun hbe => absurd hbe hes.1) hes.2

/-- The history had the property `P` whenever the event `t` happened. -/
def Whenever (t : ε) (P : List ε → Prop) (log : List ε) : Prop :=
  ∀ pre post, log = pre ++ t :: post → P pre

variable {P : List ε → Prop}

theorem whenever_nil : Whenever t P [] := by
  intro pre post heq
  exact absurd heq.symm (List.append_ne_nil_of_right_ne_nil pre (List.cons_ne_nil t post))

theorem Whenever.concat (h : Whenever t P log) (hlast : t = e → P log) :
    Whenever t P (log ++ [e]) := by
  intro pre post heq
  rcases concat_eq_append_cons heq with ⟨-, rfl, hte⟩ | ⟨post', -, heq'⟩
  · exact hlast hte
  · exact h pre post' heq'

theorem Whenever.append (h : Whenever t P log) (hes : t ∉ es) : Whenever t P (log ++ es) := by
  induction es generalizing log with
  | nil => rwa [List.append_nil]
  | cons e es ih =>
    rw [List.mem_cons, not_or] at hes
    rw [List.append_cons]
    exact ih (h.concat fun hte => absurd hte hes.1) hes.2

/-- The event `t` has happened, and `b` has not happened since. -/
def Standing (t b : ε) (log : List ε) : Prop := ∃ pre post, log = pre ++ t :: post ∧ b ∉ post

theorem not_standing_nil : ¬Standing t b [] := by
  rintro ⟨pre, post, heq, -⟩
  exact absurd heq.symm (List.append_ne_nil_of_right_ne_nil pre (List.cons_ne_nil t post))

theorem standing_concat : Standing t b (log ++ [e]) ↔ t = e ∨ b ≠ e ∧ Standing t b log := by
  constructor
  · rintro ⟨pre, post, heq, hb⟩
    rcases concat_eq_append_cons heq with ⟨-, -, hte⟩ | ⟨post', rfl, rfl⟩
    · exact .inl hte
    · rw [List.mem_append, List.mem_singleton, not_or] at hb
      exact .inr ⟨hb.2, pre, post', rfl, hb.1⟩
  · rintro (rfl | ⟨hne, pre, post, rfl, hb⟩)
    · exact ⟨log, [], rfl, List.not_mem_nil⟩
    · refine ⟨pre, post ++ [e], by simp, ?_⟩
      rw [List.mem_append, List.mem_singleton, not_or]
      exact ⟨hb, hne⟩

/-- Nothing stands when it has just been revoked. -/
theorem not_standing_concat (h : t ≠ b) : ¬Standing t b (log ++ [b]) := by
  rw [standing_concat, not_or]
  exact ⟨h, fun hb => hb.1 rfl⟩

/-- Other events make no difference. -/
theorem standing_append_iff (ht : t ∉ es) (hb : b ∉ es) :
    Standing t b (log ++ es) ↔ Standing t b log := by
  induction es generalizing log with
  | nil => rw [List.append_nil]
  | cons e es ih =>
    rw [List.mem_cons, not_or] at ht hb
    rw [List.append_cons, ih ht.2 hb.2, standing_concat, or_iff_right ht.1, and_iff_right hb.1]

end History
