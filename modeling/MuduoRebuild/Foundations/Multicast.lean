import MuduoRebuild.Foundations.Fallible
import Mathlib.Data.List.Basic

/-!
# Multicast

A post has a content and an audience. What a member hears of a sequence of posts is the contents of
those that were addressed to it, in their order, so members that belong to the same audiences hear
the same.

A post is delivered by going through a list of members one by one. If no member is listed twice,
everybody who is listed and can be reached finds the content once in its inbox, and nobody else
does (`inbox_foldlM`).
-/

namespace Multicast

variable {κ β σ ε : Type*} [DecidableEq κ]

/-- A content and those to whom it is addressed. -/
structure Post (κ β : Type*) where
  content : β
  audience : List κ

/-- What `k` hears of a sequence of posts. -/
def heard (k : κ) (posts : List (Post κ β)) : List β :=
  (posts.filter (k ∈ ·.audience)).map Post.content

@[simp]
theorem heard_nil (k : κ) : heard k ([] : List (Post κ β)) = [] := rfl

theorem heard_append (k : κ) (ps qs : List (Post κ β)) :
    heard k (ps ++ qs) = heard k ps ++ heard k qs := by
  rw [heard, List.filter_append, List.map_append]
  rfl

theorem heard_singleton (k : κ) (p : Post κ β) :
    heard k [p] = if k ∈ p.audience then [p.content] else [] := by
  by_cases h : k ∈ p.audience
  · rw [heard, List.filter_cons_of_pos (by simpa using h), if_pos h]
    rfl
  · rw [heard, List.filter_cons_of_neg (by simpa using h), if_neg h]
    rfl

/-- Who belongs to every audience hears everything. -/
theorem heard_of_forall_mem {k : κ} {posts : List (Post κ β)} (h : ∀ p ∈ posts, k ∈ p.audience) :
    heard k posts = posts.map Post.content := by
  rw [heard, List.filter_eq_self.mpr (by simpa using h)]

/-- One content is delivered to the members of a list without repetitions, by a step that may
fail: who is listed and open finds it once in its inbox. -/
theorem inbox_foldlM (inbox : σ → κ → List β) (Inv : σ → Prop) (isOpen : κ → Prop)
    [DecidablePred isOpen] {step : σ → κ → Except ε σ} {b : β}
    (hstep : ∀ s k s', Inv s → step s k = .ok s' →
      Inv s' ∧ ∀ j, inbox s' j = inbox s j ++ if j = k ∧ isOpen j then [b] else [])
    {members : List κ} (hnodup : members.Nodup) {s s' : σ} (hs : Inv s)
    (hrun : members.foldlM step s = .ok s') :
    Inv s' ∧ ∀ j, inbox s' j = inbox s j ++ if j ∈ members ∧ isOpen j then [b] else [] := by
  induction members generalizing s with
  | nil =>
    obtain rfl := Except.ok.inj hrun
    exact ⟨hs, fun j => by simp⟩
  | cons k members ih =>
    obtain ⟨hk, hrest⟩ := List.nodup_cons.mp hnodup
    obtain ⟨t, hfirst, hlater⟩ := Fallible.bind_eq_ok.mp hrun
    obtain ⟨ht, hinbox⟩ := hstep s k t hs hfirst
    obtain ⟨hs', hinbox'⟩ := ih hrest ht hlater
    refine ⟨hs', fun j => ?_⟩
    rw [hinbox', hinbox, List.append_assoc]
    by_cases hj : j = k
    · have hlater : ¬(j ∈ members ∧ isOpen j) := fun h => hk (hj ▸ h.1)
      rw [if_neg hlater, List.append_nil]
      exact congrArg _ (if_congr (by simp [hj]) rfl rfl)
    · have hfirst : ¬(j = k ∧ isOpen j) := fun h => hj h.1
      rw [if_neg hfirst, List.nil_append]
      exact congrArg _ (if_congr (by simp [hj]) rfl rfl)

end Multicast
