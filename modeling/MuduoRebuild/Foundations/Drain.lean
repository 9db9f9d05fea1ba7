import MuduoRebuild.Foundations.Run

/-!
# Machines that run dry

Some steps of a machine use up work that earlier steps have left behind. If each of them takes one
unit of a measure, and there is such a step as long as the measure is not zero, then every order of
these steps has the same length, and comes to an end.
-/

namespace Machine

variable {σ ι ε : Type*} {step : σ → ι → Except ε σ} {cond : σ → ι → Prop} {Inv : σ → Prop}
  {work : σ → ℕ} {s : σ}

/-- Under the invariant, the steps that meet the condition succeed and take one unit of the work,
and there is one unless the work is done. -/
structure Drains (step : σ → ι → Except ε σ) (cond : σ → ι → Prop) (Inv : σ → Prop)
    (work : σ → ℕ) : Prop where
  exists_step : ∀ s i, Inv s → cond s i → ∃ s', step s i = .ok s' ∧ Inv s' ∧ work s = work s' + 1
  exists_input : ∀ s, Inv s → work s ≠ 0 → ∃ i, cond s i

/-- A run takes as much of the work as it has steps. -/
theorem Drains.exists_run (h : Drains step cond Inv work) (hs : Inv s) {is : List ι}
    (hcond : Along step (onInput cond) s is) :
    ∃ s', run step s is = .ok s' ∧ Inv s' ∧ work s = work s' + is.length := by
  induction is generalizing s with
  | nil => exact ⟨s, rfl, hs, rfl⟩
  | cons i is ih =>
    obtain ⟨t, ht, hinv, hwork⟩ := h.exists_step s i hs hcond.1
    obtain ⟨s', hrun, hs', hrest⟩ := ih hinv (hcond.2 t ht)
    refine ⟨s', (run_cons_ok ht).trans hrun, hs', ?_⟩
    rw [hwork, hrest, List.length_cons, Nat.add_assoc]

/-- There is a run that does all the work. -/
theorem Drains.exists_along (h : Drains step cond Inv work) (hs : Inv s) :
    ∃ is, Along step (onInput cond) s is ∧ is.length = work s := by
  induction hn : work s generalizing s with
  | zero => exact ⟨[], trivial, rfl⟩
  | succ n ih =>
    obtain ⟨i, hi⟩ := h.exists_input s hs (hn ▸ Nat.succ_ne_zero n)
    obtain ⟨t, ht, hinv, hwork⟩ := h.exists_step s i hs hi
    obtain ⟨is, his, hlen⟩ := ih hinv (Nat.succ.inj (hwork.symm.trans hn))
    refine ⟨i :: is, ⟨hi, fun s' hs' => ?_⟩, congrArg (· + 1) hlen⟩
    obtain rfl := Except.ok.inj (ht.symm.trans hs')
    exact his

/-! ### Work that is added -/

/-- The weights of the steps of a run together. -/
def cost (step : σ → ι → Except ε σ) (weight : σ → ι → ℕ) (s : σ) : List ι → ℕ
  | [] => 0
  | i :: is => weight s i +
    match step s i with
    | .ok s' => cost step weight s' is
    | .error _ => 0

theorem cost_cons_ok {weight : σ → ι → ℕ} {i : ι} {s' : σ} (h : step s i = .ok s') (is : List ι) :
    cost step weight s (i :: is) = weight s i + cost step weight s' is := by
  simp only [cost, h]

theorem cost_cons_error {weight : σ → ι → ℕ} {i : ι} {e : ε} (h : step s i = .error e)
    (is : List ι) : cost step weight s (i :: is) = weight s i := by
  simp only [cost, h, Nat.add_zero]

/-- Only one input costs anything. -/
theorem cost_le_mul_count [DecidableEq ι] {weight : σ → ι → ℕ} {i₀ : ι} {c : ℕ}
    (h : ∀ s i, weight s i ≤ if i = i₀ then c else 0) (s : σ) (is : List ι) :
    cost step weight s is ≤ c * is.count i₀ := by
  induction is generalizing s with
  | nil => exact Nat.zero_le _
  | cons i is ih =>
    have hfirst := h s i
    have hcount : c * (i :: is).count i₀ = (if i = i₀ then c else 0) + c * is.count i₀ := by
      rw [List.count_cons, Nat.mul_add, Nat.add_comm]
      by_cases hi : i = i₀
      · simp [hi]
      · simp [hi]
    cases hstep : step s i with
    | ok s' =>
      have hrest := ih s'
      rw [cost_cons_ok hstep]
      omega
    | error e =>
      rw [cost_cons_error hstep]
      omega

/-- If no step takes more work than there is and it adds, neither does a run. -/
theorem work_add_cost_le {admits : ι → Prop} {taken added : σ → ι → ℕ} {s' : σ} {is : List ι}
    (hstep : ∀ s i s', Inv s → admits i → step s i = .ok s' →
      Inv s' ∧ work s' + taken s i ≤ work s + added s i)
    (hs : Inv s) (his : ∀ i ∈ is, admits i) (hrun : run step s is = .ok s') :
    Inv s' ∧ work s' + cost step taken s is ≤ work s + cost step added s is := by
  induction is generalizing s with
  | nil =>
    obtain rfl := Except.ok.inj hrun
    exact ⟨hs, Nat.le_refl _⟩
  | cons i is ih =>
    rw [List.forall_mem_cons] at his
    obtain ⟨t, ht, hrun⟩ := run_cons_eq_ok.mp hrun
    obtain ⟨hinv, hfirst⟩ := hstep s i t hs his.1 ht
    obtain ⟨hinv', hrest⟩ := ih hinv his.2 hrun
    rw [cost_cons_ok ht, cost_cons_ok ht]
    exact ⟨hinv', by omega⟩

end Machine
