import Mathlib.Logic.Basic
import Mathlib.Data.List.Basic

/-!
# Guarded runs of a fallible step function

A machine is a step function `σ → ι → Except ε σ`: it consumes one input and either moves to
a new state or stops with a fault. This file fixes what it means to run a machine on a list
of inputs and what it means for *every* step of such a run to be good.

* `Machine.run` is the final state of a run, or the fault that stopped it.
* `Machine.Along step good s is` says that each step of the run from `s` satisfies `good`,
  a predicate of the state before the step, the input and the outcome. A condition on the
  inputs (`Machine.onInput`) and a property of the reached states (`Machine.onResult`) are
  both of this form, so "in every run whose steps all meet the condition, the property holds
  in every state reached" is an implication between two instances of `Along`.
* `Along.of_invariant` is the run induction, and `along_iff_along` its two-sided form, for a
  condition that is exactly what makes a step good.
* `Machine.lockstep` runs a total specification beside the machine.
-/

namespace Machine

variable {σ ι ε α : Type*}

/-- The run of `step` on a list of inputs. It stops at the first fault. -/
def run (step : σ → ι → Except ε σ) (s : σ) : List ι → Except ε σ
  | [] => .ok s
  | i :: is =>
    match step s i with
    | .ok s' => run step s' is
    | .error e => .error e

/-- Every step of the run from `s` is good: `good` sees the state before the step, the input
and the outcome. Inputs after a fault are not consumed, and nothing is asked of them. -/
def Along (step : σ → ι → Except ε σ) (good : σ → ι → Except ε σ → Prop) (s : σ) :
    List ι → Prop
  | [] => True
  | i :: is => good s i (step s i) ∧ ∀ s', step s i = .ok s' → Along step good s' is

/-- A condition on the state before a step and on its input. -/
def onInput (cond : σ → ι → Prop) : σ → ι → Except ε σ → Prop := fun s i _ => cond s i

/-- A property of the outcome of a step. -/
def onResult (post : Except ε σ → Prop) : σ → ι → Except ε σ → Prop := fun _ _ r => post r

/-- The step does not fault, and its result has the property `P`. -/
def Succeeds (P : σ → Prop) (r : Except ε σ) : Prop := ∃ s', r = .ok s' ∧ P s'

/-- The step faults, or its result has the property `P`. -/
def UnlessFault (P : σ → Prop) (r : Except ε σ) : Prop := ∀ s', r = .ok s' → P s'

variable {step : σ → ι → Except ε σ} {good good' : σ → ι → Except ε σ → Prop} {s s' : σ}

@[simp]
theorem run_nil : run step s [] = .ok s := rfl

theorem run_cons_ok {i : ι} {is : List ι} (h : step s i = .ok s') :
    run step s (i :: is) = run step s' is := by
  simp only [run, h]

theorem run_cons_error {i : ι} {is : List ι} {e : ε} (h : step s i = .error e) :
    run step s (i :: is) = .error e := by
  simp only [run, h]

/-- A successful run of a nonempty list splits at its first step. -/
theorem run_cons_eq_ok {i : ι} {is : List ι} :
    run step s (i :: is) = .ok s' ↔ ∃ t, step s i = .ok t ∧ run step t is = .ok s' := by
  cases h : step s i with
  | ok t => simp [run_cons_ok h]
  | error e => simp [run_cons_error h]

/-- After a successful run of the first inputs, the rest is run from where it ends. -/
theorem run_append_of_ok {is : List ι} (h : run step s is = .ok s') (js : List ι) :
    run step s (is ++ js) = run step s' js := by
  induction is generalizing s with
  | nil =>
    obtain rfl := Except.ok.inj h
    rfl
  | cons i is ih =>
    obtain ⟨t, hstep, hrest⟩ := run_cons_eq_ok.mp h
    exact (run_cons_ok hstep).trans (ih hrest)

/-- Whether the inputs of a run meet a condition can be computed by running the machine. -/
instance decidableAlong {cond : σ → ι → Prop} [∀ s i, Decidable (cond s i)] (s : σ) :
    (is : List ι) → Decidable (Along step (onInput cond) s is)
  | [] => .isTrue trivial
  | i :: is =>
    have : Decidable (∀ s', step s i = .ok s' → Along step (onInput cond) s' is) :=
      match step s i with
      | .ok t =>
        have : Decidable (Along step (onInput cond) t is) := decidableAlong t is
        decidable_of_iff (Along step (onInput cond) t is)
          ⟨fun ht _ hs => Except.ok.inj hs ▸ ht, fun hall => hall t rfl⟩
      | .error _ => .isTrue fun _ hs => nomatch hs
    inferInstanceAs (Decidable (cond s i ∧ _))

/-- So can whether every state that a run reaches has a property. -/
instance decidableAlongResult {P : σ → Prop} [DecidablePred P] (s : σ) :
    (is : List ι) → Decidable (Along step (onResult (UnlessFault P)) s is)
  | [] => .isTrue trivial
  | i :: is =>
    have : Decidable ((∀ t, step s i = .ok t → P t) ∧
        ∀ t, step s i = .ok t → Along step (onResult (UnlessFault P)) t is) :=
      match step s i with
      | .ok t =>
        have : Decidable (Along step (onResult (UnlessFault P)) t is) := decidableAlongResult t is
        decidable_of_iff (P t ∧ Along step (onResult (UnlessFault P)) t is)
          ⟨fun ht => ⟨fun _ hs => Except.ok.inj hs ▸ ht.1, fun _ hs => Except.ok.inj hs ▸ ht.2⟩,
            fun ht => ⟨ht.1 t rfl, ht.2 t rfl⟩⟩
      | .error _ => .isTrue ⟨fun _ hs => (nomatch hs), fun _ hs => nomatch hs⟩
    this

/-- A good run that ends in a fault has a good step that faulted. -/
theorem Along.exists_of_run_eq_error {is : List ι} {e : ε} (h : Along step good s is)
    (hrun : run step s is = .error e) : ∃ t, ∃ i ∈ is, good t i (.error e) := by
  induction is generalizing s with
  | nil => cases hrun
  | cons i is ih =>
    cases hi : step s i with
    | error e' =>
      rw [run_cons_error hi] at hrun
      cases hrun
      exact ⟨s, i, List.mem_cons_self, hi ▸ h.1⟩
    | ok t =>
      rw [run_cons_ok hi] at hrun
      obtain ⟨u, j, hj, hgood⟩ := ih (h.2 t hi) hrun
      exact ⟨u, j, List.mem_cons_of_mem i hj, hgood⟩

/-- Every step is good in two senses. -/
theorem along_and {is : List ι} :
    Along step (fun s i r => good s i r ∧ good' s i r) s is ↔
      Along step good s is ∧ Along step good' s is := by
  induction is generalizing s with
  | nil => exact (and_self_iff (a := True)).symm
  | cons i is ih =>
    constructor
    · rintro ⟨⟨h, h'⟩, hrest⟩
      exact ⟨⟨h, fun t ht => (ih.mp (hrest t ht)).1⟩, h', fun t ht => (ih.mp (hrest t ht)).2⟩
    · rintro ⟨⟨h, hrest⟩, h', hrest'⟩
      exact ⟨⟨h, h'⟩, fun t ht => ih.mpr ⟨hrest t ht, hrest' t ht⟩⟩

/-- The beginning of a good run is good. -/
theorem Along.of_append_left {is js : List ι} (h : Along step good s (is ++ js)) :
    Along step good s is := by
  induction is generalizing s with
  | nil => trivial
  | cons i is ih => exact ⟨h.1, fun t ht => ih (h.2 t ht)⟩

/-- The rest of a good run is good. -/
theorem Along.of_append {is js : List ι} (h : Along step good s (is ++ js))
    (hrun : run step s is = .ok s') : Along step good s' js := by
  induction is generalizing s with
  | nil =>
    obtain rfl := Except.ok.inj hrun
    exact h
  | cons i is ih =>
    obtain ⟨t, ht, hrun⟩ := run_cons_eq_ok.mp hrun
    exact ih (h.2 t ht) hrun

/-- A good run can be continued by a good run. -/
theorem Along.append {is js : List ι} (h : Along step good s is)
    (hrest : ∀ s', run step s is = .ok s' → Along step good s' js) :
    Along step good s (is ++ js) := by
  induction is generalizing s with
  | nil => exact hrest s rfl
  | cons i is ih =>
    refine ⟨h.1, fun t ht => ih (h.2 t ht) fun s' hrun => hrest s' ?_⟩
    rwa [run_cons_ok ht]

/-- What every step of a run establishes holds at its end. -/
theorem Along.of_run_eq_ok {P : σ → Prop} {is : List ι}
    (h : Along step (onResult (UnlessFault P)) s is) (hs : P s)
    (hrun : run step s is = .ok s') : P s' := by
  induction is generalizing s with
  | nil =>
    obtain rfl := Except.ok.inj hrun
    exact hs
  | cons i is ih =>
    obtain ⟨t, ht, hrun⟩ := run_cons_eq_ok.mp hrun
    exact ih (h.2 t ht) (h.1 t ht) hrun

/-- A condition that all inputs meet is met along the run. -/
theorem along_onInput {cond : ι → Prop} {is : List ι} (h : ∀ i ∈ is, cond i) :
    Along step (onInput fun _ i => cond i) s is := by
  induction is generalizing s with
  | nil => trivial
  | cons i is ih =>
    exact ⟨h i List.mem_cons_self, fun _ _ => ih fun j hj => h j (List.mem_cons_of_mem i hj)⟩

/-! ### Run induction -/

/-- An invariant kept by every step holds at the end of every run. -/
theorem invariant_of_run {Inv : σ → Prop} {is : List ι} (hinit : Inv s)
    (hstep : ∀ s i s', Inv s → step s i = .ok s' → Inv s')
    (hrun : run step s is = .ok s') : Inv s' := by
  induction is generalizing s with
  | nil =>
    obtain rfl : s = s' := by simpa using hrun
    exact hinit
  | cons i is ih =>
    obtain ⟨t, ht, hrun⟩ := run_cons_eq_ok.mp hrun
    exact ih (hstep s i t hinit ht) hrun

/-- If every step succeeds and keeps the invariant, so does every run. -/
theorem succeeds_run {Inv : σ → Prop} (hstep : ∀ s i, Inv s → Succeeds Inv (step s i))
    (hinit : Inv s) (is : List ι) : Succeeds Inv (run step s is) := by
  induction is generalizing s with
  | nil => exact ⟨s, rfl, hinit⟩
  | cons i is ih =>
    obtain ⟨t, ht, hinv⟩ := hstep s i hinit
    rw [run_cons_ok ht]
    exact ih hinv

/-- If the other machine takes each step too, or does not see it, it takes every run. -/
theorem exists_run_of_view {τ κ : Type*} {step' : τ → κ → Except ε τ} {Inv : σ → Prop}
    {view : σ → τ} {taken : κ → Prop}
    (hsim : ∀ s i s', Inv s → step s i = .ok s' → Inv s' ∧
      (view s' = view s ∨ ∃ k, taken k ∧ step' (view s) k = .ok (view s')))
    (hinit : Inv s) {is : List ι} (hrun : run step s is = .ok s') :
    ∃ ks : List κ, (∀ k ∈ ks, taken k) ∧ run step' (view s) ks = .ok (view s') := by
  induction is generalizing s with
  | nil =>
    obtain rfl := Except.ok.inj hrun
    exact ⟨[], fun _ hk => absurd hk List.not_mem_nil, rfl⟩
  | cons i is ih =>
    obtain ⟨t, ht, hrun⟩ := run_cons_eq_ok.mp hrun
    obtain ⟨hinv, hview⟩ := hsim s i t hinit ht
    obtain ⟨ks, hks, hrest⟩ := ih hinv hrun
    rcases hview with hsame | ⟨k, hk, hstep⟩
    · exact ⟨ks, hks, hsame ▸ hrest⟩
    · exact ⟨k :: ks, List.forall_mem_cons.mpr ⟨hk, hks⟩, (run_cons_ok hstep).trans hrest⟩

/-- Under an invariant kept by every step, a step that is always good makes every run good. -/
theorem along_of_step {Inv : σ → Prop} {is : List ι} (hinit : Inv s)
    (hgood : ∀ s i, Inv s → good s i (step s i))
    (hstep : ∀ s i s', Inv s → step s i = .ok s' → Inv s') : Along step good s is := by
  induction is generalizing s with
  | nil => trivial
  | cons i is ih => exact ⟨hgood s i hinit, fun t ht => ih (hstep s i t hinit ht)⟩

/-- Under an invariant, a step that is good in one sense is good in another; so is a run. -/
theorem Along.of_invariant (Inv : σ → Prop) {is : List ι} (hinit : Inv s)
    (hgood : ∀ s i, Inv s → good s i (step s i) → good' s i (step s i))
    (hstep : ∀ s i s', Inv s → good s i (step s i) → step s i = .ok s' → Inv s')
    (h : Along step good s is) : Along step good' s is := by
  induction is generalizing s with
  | nil => trivial
  | cons i is ih =>
    exact ⟨hgood s i hinit h.1, fun t ht => ih (hstep s i t hinit h.1 ht) (h.2 t ht)⟩

/-- If, under an invariant, a step is good in one sense exactly when it is good in the other,
so is every run. The invariant only has to survive the good steps. -/
theorem along_iff_along {Inv : σ → Prop} {is : List ι} (hinit : Inv s)
    (hgood : ∀ s i, Inv s → (good s i (step s i) ↔ good' s i (step s i)))
    (hstep : ∀ s i s', Inv s → good s i (step s i) → step s i = .ok s' → Inv s') :
    Along step good s is ↔ Along step good' s is :=
  ⟨Along.of_invariant Inv hinit (fun s i hi => (hgood s i hi).mp) hstep,
    Along.of_invariant Inv hinit (fun s i hi => (hgood s i hi).mpr)
      (fun s i s' hi h => hstep s i s' hi ((hgood s i hi).mpr h))⟩

/-- The same along a run whose inputs meet a condition to start with. -/
theorem along_iff_along_of_along (Inv : σ → Prop) {side : σ → ι → Prop} {is : List ι}
    (hside : Along step (onInput side) s is) (hinit : Inv s)
    (hgood : ∀ s i, Inv s → side s i → (good s i (step s i) ↔ good' s i (step s i)))
    (hstep : ∀ s i s', Inv s → side s i → good s i (step s i) → step s i = .ok s' → Inv s') :
    Along step good s is ↔ Along step good' s is := by
  have hboth : Along step (fun s i r => onInput side s i r ∧ good s i r) s is ↔
      Along step (fun s i r => onInput side s i r ∧ good' s i r) s is :=
    along_iff_along hinit (fun s i hs => and_congr_right (hgood s i hs))
      fun s i s' hs hg => hstep s i s' hs hg.1 hg.2
  rw [along_and, along_and, and_iff_right hside, and_iff_right hside] at hboth
  exact hboth

/-- The same when the inputs have a property to start with. -/
theorem along_iff_along_of_forall (Inv : σ → Prop) {side : ι → Prop} {is : List ι}
    (hside : ∀ i ∈ is, side i) (hinit : Inv s)
    (hgood : ∀ s i, Inv s → side i → (good s i (step s i) ↔ good' s i (step s i)))
    (hstep : ∀ s i s', Inv s → side i → good s i (step s i) → step s i = .ok s' → Inv s') :
    Along step good s is ↔ Along step good' s is :=
  along_iff_along_of_along Inv (along_onInput hside) hinit hgood hstep

/-! ### What a run emits -/

/-- What the steps of a run emit, one after the other. -/
def emitted (step : σ → ι → Except ε σ) (emit : σ → ι → List α) (s : σ) : List ι → List α
  | [] => []
  | i :: is => emit s i ++
    match step s i with
    | .ok s' => emitted step emit s' is
    | .error _ => []

theorem emitted_cons_ok {emit : σ → ι → List α} {i : ι} (h : step s i = .ok s') (is : List ι) :
    emitted step emit s (i :: is) = emit s i ++ emitted step emit s' is := by
  simp only [emitted, h]

/-- A relation between the state and what has been emitted so far, kept by every step, holds at the
end of every run. -/
theorem invariant_of_run_emitted {Inv : σ → List α → Prop} {emit : σ → ι → List α} {is : List ι}
    {sofar : List α} (hinit : Inv s sofar)
    (hstep : ∀ s i s' sofar, Inv s sofar → step s i = .ok s' → Inv s' (sofar ++ emit s i))
    (hrun : run step s is = .ok s') : Inv s' (sofar ++ emitted step emit s is) := by
  induction is generalizing s sofar with
  | nil =>
    obtain rfl := Except.ok.inj hrun
    rw [emitted, List.append_nil]
    exact hinit
  | cons i is ih =>
    obtain ⟨t, ht, hrun⟩ := run_cons_eq_ok.mp hrun
    rw [emitted_cons_ok ht, ← List.append_assoc]
    exact ih (hstep s i t sofar hinit ht) hrun

/-! ### A specification run in lockstep -/

/-- Run a total specification beside the machine, on the same inputs. -/
def lockstep (step : σ → ι → Except ε σ) (spec : α → ι → α) (p : σ × α) (i : ι) :
    Except ε (σ × α) :=
  (step p.1 i).map fun s' => (s', spec p.2 i)

variable {spec : α → ι → α} {a : α}

theorem lockstep_eq_ok {i : ι} {p p' : σ × α} :
    lockstep step spec p i = .ok p' ↔ step p.1 i = .ok p'.1 ∧ p'.2 = spec p.2 i := by
  cases h : step p.1 i with
  | error e => simp [lockstep, h, Except.map]
  | ok t =>
    simp only [lockstep, h, Except.map, Except.ok.injEq, Prod.ext_iff]
    exact and_congr_right' eq_comm

/-- A specification run beside the machine does not change which inputs meet a condition. -/
theorem along_lockstep_onInput {cond : σ → ι → Prop} {is : List ι} :
    Along (lockstep step spec) (onInput fun p i => cond p.1 i) (s, a) is ↔
      Along step (onInput cond) s is := by
  induction is generalizing s a with
  | nil => exact Iff.rfl
  | cons i is ih =>
    refine and_congr_right fun _ => ?_
    constructor
    · intro h t ht
      exact ih.mp (h (t, spec a i) (lockstep_eq_ok.mpr ⟨ht, rfl⟩))
    · rintro h ⟨t, b⟩ hp
      exact ih.mpr (h t (lockstep_eq_ok.mp hp).1)

/-- The inputs meet a condition along the run of a total specification. -/
def Meets (spec : α → ι → α) (cond : α → ι → Prop) (a : α) : List ι → Prop
  | [] => True
  | i :: is => cond a i ∧ Meets spec cond (spec a i) is

/-- Under an invariant that relates the machine to the specification, a step on an input that meets
a condition is good; so is every run on such inputs. -/
theorem Meets.along (Inv : σ → α → Prop) {cond : α → ι → Prop} {is : List ι} (hinit : Inv s a)
    (hgood : ∀ s a i, Inv s a → cond a i → good s i (step s i))
    (hstep : ∀ s a i s', Inv s a → cond a i → step s i = .ok s' → Inv s' (spec a i))
    (h : Meets spec cond a is) : Along step good s is := by
  induction is generalizing s a with
  | nil => trivial
  | cons i is ih =>
    exact ⟨hgood s a i hinit h.1, fun t ht => ih (hstep s a i t hinit h.1 ht) h.2⟩

/-- If, under an invariant and for admissible inputs, a step establishes `post` exactly when the
specification's state and the input meet a condition, then every step of a run establishes
`post` exactly when the inputs meet the condition throughout. -/
theorem along_lockstep_iff_meets (Inv : σ × α → Prop) {post : σ × α → Prop}
    {side cond : α → ι → Prop} {is : List ι} (hinit : Inv (s, a)) (hside : Meets spec side a is)
    (hgood : ∀ p i, Inv p → side p.2 i →
      (Succeeds post (lockstep step spec p i) ↔ cond p.2 i))
    (hstep : ∀ p i p', Inv p → side p.2 i → cond p.2 i → lockstep step spec p i = .ok p' → Inv p') :
    Along (lockstep step spec) (onResult (Succeeds post)) (s, a) is ↔ Meets spec cond a is := by
  induction is generalizing s a with
  | nil => exact Iff.rfl
  | cons i is ih =>
    have hnext : ∀ p', cond a i → lockstep step spec (s, a) i = .ok p' →
        (Along (lockstep step spec) (onResult (Succeeds post)) p' is ↔
          Meets spec cond (spec a i) is) := by
      rintro ⟨t, b⟩ hcond hp
      obtain rfl : b = spec a i := (lockstep_eq_ok.mp hp).2
      exact ih (hstep _ i _ hinit hside.1 hcond hp) hside.2
    constructor
    · rintro ⟨hpost, hrest⟩
      -- a step that establishes `post` succeeds, so the rest of the run is about its result
      have hcond := (hgood _ i hinit hside.1).mp hpost
      obtain ⟨p', hp', -⟩ := hpost
      exact ⟨hcond, (hnext p' hcond hp').mp (hrest p' hp')⟩
    · rintro ⟨hcond, hmeets⟩
      exact ⟨(hgood _ i hinit hside.1).mpr hcond, fun p' hp' => (hnext p' hcond hp').mpr hmeets⟩

/-- The lockstep run is the run of the machine beside the fold of the specification. -/
theorem run_lockstep {is : List ι} :
    run (lockstep step spec) (s, a) is =
      (run step s is).map fun s' => (s', is.foldl spec a) := by
  induction is generalizing s a with
  | nil => rfl
  | cons i is ih =>
    cases h : step s i with
    | error e =>
      rw [run_cons_error h, run_cons_error (e := e) (by simp [lockstep, h, Except.map])]
      rfl
    | ok t =>
      have hboth : lockstep step spec (s, a) i = .ok (t, spec a i) :=
        lockstep_eq_ok.mpr ⟨h, rfl⟩
      rw [run_cons_ok h, run_cons_ok hboth, ih, List.foldl_cons]

end Machine
