import MuduoRebuild.Foundations.Fallible
import MuduoRebuild.Foundations.Run
import Mathlib.Data.List.GetD

/-!
# Thread affinity

A program consists of functions that run in several threads. Some threads have a loop, which runs
the functions in its queue, the handlers of its events and the timers that have been set in it. A
resource belongs to a loop, and must only be accessed in the thread of that loop.

`Code` is what a function does as far as threads matter: the order in which it accesses resources,
asserts that it runs in the thread of some loop, calls other functions and leaves functions to a
loop. What depends on data is a `choose`, and code that is not known, which may use the public
functions, is `anything`. `System.step` is one step of an arbitrary interleaving of the threads.

A `Discipline` says in which threads each function may be called. If each function keeps it, so
does every run: no assertion fails, and every resource is accessed in its own thread
(`Discipline.along_confined`).
-/

namespace Affinity

/-- A thread: that of a loop, or another. -/
inductive Thread (Λ : Type) where
  | loop (l : Λ)
  | other (n : ℕ)
  deriving DecidableEq, Repr

/-- What a function does with the loops `Λ`, the resources `ρ` and the functions `φ`. -/
inductive Code (Λ ρ φ : Type) where
  | skip
  | seq (p q : Code Λ ρ φ)
  /-- What is done depends on data. -/
  | choose (p : ℕ → Code Λ ρ φ)
  /-- What is done depends on whether the thread is that of a loop. -/
  | ifInLoop (l : Λ) (p q : Code Λ ρ φ)
  | assertInLoop (l : Λ)
  | access (r : ρ)
  | call (f : φ)
  /-- A function is put into the queue of a loop. -/
  | queue (l : Λ) (f : φ)
  /-- A function is set as a timer of a loop. -/
  | schedule (l : Λ) (f : φ)
  /-- Timers of a loop are run. Those that have been set may expire any number of times. -/
  | runTimers (l : Λ)
  /-- Unknown code, which calls public functions. -/
  | anything

namespace Code

variable {Λ ρ φ : Type}

/-- One thing after the other. -/
def block (ps : List (Code Λ ρ φ)) : Code Λ ρ φ := ps.foldr seq skip

/-- One of several things. -/
def oneOf (ps : List (Code Λ ρ φ)) : Code Λ ρ φ := choose fun n => ps.getD n skip

/-- Possibly nothing. -/
def optional (p : Code Λ ρ φ) : Code Λ ρ φ := oneOf [p]

/-- The code is safe in a thread, if functions are called and left to loops only where they may be
called. -/
def Safe (owner : ρ → Λ) (may : φ → Thread Λ → Prop) (t : Thread Λ) : Code Λ ρ φ → Prop
  | skip | anything => True
  | seq p q => p.Safe owner may t ∧ q.Safe owner may t
  | choose p => ∀ n, (p n).Safe owner may t
  | ifInLoop l p q => (t = .loop l → p.Safe owner may t) ∧ (t ≠ .loop l → q.Safe owner may t)
  | assertInLoop l | runTimers l => t = .loop l
  | access r => t = .loop (owner r)
  | call f => may f t
  | queue l f | schedule l f => may f (.loop l)

variable {owner : ρ → Λ} {may : φ → Thread Λ → Prop} {t : Thread Λ}

@[simp]
theorem safe_block {ps : List (Code Λ ρ φ)} :
    (block ps).Safe owner may t ↔ ∀ p ∈ ps, p.Safe owner may t := by
  induction ps with
  | nil => exact iff_of_true trivial fun _ hp => absurd hp List.not_mem_nil
  | cons p ps ih => exact (and_congr_right' ih).trans List.forall_mem_cons.symm

@[simp]
theorem safe_oneOf {ps : List (Code Λ ρ φ)} :
    (oneOf ps).Safe owner may t ↔ ∀ p ∈ ps, p.Safe owner may t := by
  constructor
  · intro h p hp
    obtain ⟨n, hn, rfl⟩ := List.getElem_of_mem hp
    have hsafe : (ps.getD n skip).Safe owner may t := h n
    rwa [List.getD_eq_getElem ps skip hn] at hsafe
  · intro h n
    change (ps.getD n skip).Safe owner may t
    rcases Nat.lt_or_ge n ps.length with hn | hn
    · rw [List.getD_eq_getElem ps skip hn]
      exact h _ (List.getElem_mem hn)
    · rw [List.getD_eq_default ps skip hn]
      trivial

@[simp]
theorem safe_optional {p : Code Λ ρ φ} :
    (optional p).Safe owner may t ↔ p.Safe owner may t := by
  rw [optional, safe_oneOf, List.forall_mem_singleton]

end Code

/-- A program. -/
structure System (Λ ρ φ : Type) where
  /-- The loop to which a resource belongs. -/
  owner : ρ → Λ
  code : φ → Code Λ ρ φ
  isPublic : φ → Bool
  /-- Which functions handle the events of a loop. -/
  handles : Λ → φ → Bool

/-- What the threads have still to do. -/
structure State (Λ ρ φ : Type) where
  stack : Thread Λ → List (Code Λ ρ φ)
  queue : Λ → List φ
  timers : Λ → List φ
  /-- The accesses so far, each with its thread. -/
  log : List (Thread Λ × ρ)

/-- How a step can fail. -/
inductive Abort where
  /-- A function that asserts its loop is called in another thread. -/
  | wrongThread
  deriving DecidableEq, Repr

/-- A step of one of the threads. -/
inductive Label (Λ φ : Type) where
  /-- A thread goes on. The number decides what depends on data and which timer expires, and the
  function is what unknown code calls, if it does not return. -/
  | advance (t : Thread Λ) (n : ℕ) (f : Option φ)
  /-- A thread without a loop calls a function. -/
  | start (n : ℕ) (f : φ)
  /-- A loop handles an event. -/
  | handle (l : Λ) (f : φ)
  /-- A loop runs the next function of its queue. -/
  | runQueued (l : Λ)
  deriving DecidableEq, Repr

variable {Λ ρ φ : Type} [DecidableEq Λ]

namespace State

variable (s : State Λ ρ φ)

/-- The program that is run: nothing has been done, and these functions are queued. -/
def start (queue : Λ → List φ) : State Λ ρ φ where
  stack := fun _ => []
  queue
  timers := fun _ => []
  log := []

/-- A thread has this to do. -/
def withStack (t : Thread Λ) (ps : List (Code Λ ρ φ)) : State Λ ρ φ :=
  { s with stack := Function.update s.stack t ps }

end State

namespace System

variable (S : System Λ ρ φ) (s : State Λ ρ φ)

/-- A thread does the first thing of what it has to do. -/
def advance (t : Thread Λ) (n : ℕ) (f : Option φ) : Except Abort (State Λ ρ φ) :=
  match s.stack t with
  | [] => .ok s
  | p :: ps =>
    match p with
    | .skip => .ok (s.withStack t ps)
    | .seq p q => .ok (s.withStack t (p :: q :: ps))
    | .choose p => .ok (s.withStack t (p n :: ps))
    | .ifInLoop l p q => .ok (s.withStack t ((if t = .loop l then p else q) :: ps))
    | .assertInLoop l => do
      Fallible.check (t = .loop l) .wrongThread
      return s.withStack t ps
    | .access r => .ok { s.withStack t ps with log := s.log ++ [(t, r)] }
    | .call g => .ok (s.withStack t (S.code g :: ps))
    | .queue l g =>
      .ok { s.withStack t ps with queue := Function.update s.queue l (s.queue l ++ [g]) }
    | .schedule l g =>
      .ok { s.withStack t ps with timers := Function.update s.timers l (s.timers l ++ [g]) }
    | .runTimers l =>
      match (s.timers l)[n]? with
      | none => .ok (s.withStack t ps)
      | some g => .ok (s.withStack t (S.code g :: .runTimers l :: ps))
    | .anything =>
      match f with
      | none => .ok (s.withStack t ps)
      | some g =>
        if S.isPublic g = true then .ok (s.withStack t (S.code g :: .anything :: ps)) else .ok s

/-- A function is called in a thread that has nothing else to do. -/
def begin (t : Thread Λ) (f : φ) : State Λ ρ φ :=
  if (s.stack t).length = 0 then s.withStack t [S.code f] else s

/-- One step; a step that cannot be taken now leaves everything as it is. -/
def step : Label Λ φ → Except Abort (State Λ ρ φ)
  | .advance t n f => S.advance s t n f
  | .start n f => .ok (if S.isPublic f = true then S.begin s (.other n) f else s)
  | .handle l f => .ok (if S.handles l f = true then S.begin s (.loop l) f else s)
  | .runQueued l =>
    match s.queue l with
    | [] => .ok s
    | f :: fs =>
      if (s.stack (.loop l)).length = 0 then
        .ok (S.begin { s with queue := Function.update s.queue l fs } (.loop l) f)
      else .ok s

end System

/-! ### Disciplines -/

/-- In which threads the functions of a program may be called: what they do there is safe. -/
structure Discipline (S : System Λ ρ φ) where
  may : φ → Thread Λ → Prop
  safe : ∀ f t, may f t → (S.code f).Safe S.owner may t
  isPublic : ∀ f, S.isPublic f = true → ∀ t, may f t
  handles : ∀ l f, S.handles l f = true → may f (.loop l)

/-- Every resource has been accessed in its own thread. -/
def State.Confined (s : State Λ ρ φ) (owner : ρ → Λ) : Prop :=
  ∀ a ∈ s.log, a.1 = .loop (owner a.2)

namespace Discipline

variable {S : System Λ ρ φ} (d : Discipline S) {s s' : State Λ ρ φ} {t : Thread Λ}
  {ps : List (Code Λ ρ φ)}

/-- What holds of every state that is reached. -/
structure Holds (s : State Λ ρ φ) : Prop where
  stack : ∀ t, ∀ p ∈ s.stack t, p.Safe S.owner d.may t
  queue : ∀ l, ∀ f ∈ s.queue l, d.may f (.loop l)
  timers : ∀ l, ∀ f ∈ s.timers l, d.may f (.loop l)
  confined : s.Confined S.owner

variable {d}

theorem Holds.withStack (h : d.Holds s) (hps : ∀ p ∈ ps, p.Safe S.owner d.may t) :
    d.Holds (s.withStack t ps) where
  stack := by
    intro u p hp
    simp only [State.withStack, Function.update_apply] at hp
    split_ifs at hp with hu
    · exact hu ▸ hps p hp
    · exact h.stack u p hp
  queue := h.queue
  timers := h.timers
  confined := h.confined

theorem Holds.begin (h : d.Holds s) {f : φ} (hf : d.may f t) : d.Holds (S.begin s t f) := by
  rw [System.begin]
  split_ifs
  · exact h.withStack (List.forall_mem_singleton.mpr (d.safe f t hf))
  · exact h

/-- What is added to the entry of one loop may be called there. -/
theorem may_of_mem_append {m : Λ → List φ} (h : ∀ l, ∀ f ∈ m l, d.may f (.loop l)) {l : Λ} {g : φ}
    (hg : d.may g (.loop l)) :
    ∀ k, ∀ f ∈ Function.update m l (m l ++ [g]) k, d.may f (.loop k) := by
  intro k f hf
  rw [Function.update_apply] at hf
  split_ifs at hf with hk
  · subst hk
    rcases List.mem_append.mp hf with hf | hf
    · exact h k f hf
    · obtain rfl := List.mem_singleton.mp hf
      exact hg
  · exact h k f hf

/-- What is left of the entry of one loop may be called there. -/
theorem may_of_subset {m : Λ → List φ} (h : ∀ l, ∀ f ∈ m l, d.may f (.loop l)) {l : Λ}
    {fs : List φ} (hfs : fs ⊆ m l) : ∀ k, ∀ f ∈ Function.update m l fs k, d.may f (.loop k) := by
  intro k f hf
  rw [Function.update_apply] at hf
  split_ifs at hf with hk
  · exact h k f (hk ▸ hfs hf)
  · exact h k f hf

/-- A thread goes on: what it does is safe, and so is what it has to do then. -/
theorem Holds.advance (h : d.Holds s) (t : Thread Λ) (n : ℕ) (f : Option φ) :
    ∃ s', S.advance s t n f = .ok s' ∧ d.Holds s' := by
  rw [System.advance]
  split
  · exact ⟨s, rfl, h⟩
  · next p ps hstack =>
    have hsafe : p.Safe S.owner d.may t := h.stack t p (hstack ▸ List.mem_cons_self)
    have hrest : ∀ q ∈ ps, q.Safe S.owner d.may t :=
      fun q hq => h.stack t q (hstack ▸ List.mem_cons_of_mem p hq)
    cases p with
    | skip => exact ⟨_, rfl, h.withStack hrest⟩
    | seq p q =>
      refine ⟨_, rfl, h.withStack ?_⟩
      exact List.forall_mem_cons.mpr ⟨hsafe.1, List.forall_mem_cons.mpr ⟨hsafe.2, hrest⟩⟩
    | choose p => exact ⟨_, rfl, h.withStack (List.forall_mem_cons.mpr ⟨hsafe n, hrest⟩)⟩
    | ifInLoop l p q =>
      refine ⟨_, rfl, h.withStack (List.forall_mem_cons.mpr ⟨?_, hrest⟩)⟩
      split_ifs with hl
      · exact hsafe.1 hl
      · exact hsafe.2 hl
    | assertInLoop l =>
      have hloop : t = .loop l := hsafe
      exact ⟨_, Fallible.bind_of_ok (Fallible.check_of hloop _) _, h.withStack hrest⟩
    | access r =>
      refine ⟨_, rfl, { h.withStack hrest with confined := fun a ha => ?_ }⟩
      rcases List.mem_append.mp ha with ha | ha
      · exact h.confined a ha
      · obtain rfl := List.mem_singleton.mp ha
        exact hsafe
    | call g =>
      exact ⟨_, rfl, h.withStack (List.forall_mem_cons.mpr ⟨d.safe g t hsafe, hrest⟩)⟩
    | queue l g =>
      exact ⟨_, rfl, { h.withStack hrest with queue := may_of_mem_append h.queue hsafe }⟩
    | schedule l g =>
      exact ⟨_, rfl, { h.withStack hrest with timers := may_of_mem_append h.timers hsafe }⟩
    | runTimers l =>
      have hloop : t = .loop l := hsafe
      dsimp only
      split
      · exact ⟨_, rfl, h.withStack hrest⟩
      · next g hget =>
        have hg : d.may g t := hloop ▸ h.timers l g (List.mem_of_getElem? hget)
        refine ⟨_, rfl, h.withStack ?_⟩
        exact List.forall_mem_cons.mpr ⟨d.safe g t hg, List.forall_mem_cons.mpr ⟨hloop, hrest⟩⟩
    | anything =>
      cases f with
      | none => exact ⟨_, rfl, h.withStack hrest⟩
      | some g =>
        dsimp only
        split_ifs with hg
        · refine ⟨_, rfl, h.withStack ?_⟩
          exact List.forall_mem_cons.mpr
            ⟨d.safe g t (d.isPublic g hg t), List.forall_mem_cons.mpr ⟨trivial, hrest⟩⟩
        · exact ⟨s, rfl, h⟩

theorem Holds.step (h : d.Holds s) (l : Label Λ φ) : ∃ s', S.step s l = .ok s' ∧ d.Holds s' := by
  cases l with
  | advance t n f => exact h.advance t n f
  | start n f =>
    refine ⟨_, rfl, ?_⟩
    split_ifs with hf
    · exact h.begin (d.isPublic f hf _)
    · exact h
  | handle l f =>
    refine ⟨_, rfl, ?_⟩
    split_ifs with hf
    · exact h.begin (d.handles l f hf)
    · exact h
  | runQueued l =>
    rw [System.step]
    split
    · exact ⟨s, rfl, h⟩
    · next f fs hqueue =>
      have hf : d.may f (.loop l) := h.queue l f (hqueue ▸ List.mem_cons_self)
      have hpop : d.Holds { s with queue := Function.update s.queue l fs } := { h with
        queue := may_of_subset h.queue (hqueue ▸ List.subset_cons_self f fs) }
      split_ifs
      · exact ⟨_, rfl, hpop.begin hf⟩
      · exact ⟨s, rfl, h⟩

/-- **Confinement.** If every function keeps a discipline, every step of every run succeeds, and
every resource is accessed in its own thread. -/
theorem along_confined (d : Discipline S) {queue : Λ → List φ}
    (hqueue : ∀ l, ∀ f ∈ queue l, d.may f (.loop l)) (ls : List (Label Λ φ)) :
    Machine.Along S.step (Machine.onResult (Machine.Succeeds fun s => s.Confined S.owner))
      (.start queue) ls := by
  have hstart : d.Holds (.start queue) := by
    refine ⟨fun _ _ hp => ?_, hqueue, fun _ _ hf => ?_, fun a ha => ?_⟩
    · cases hp
    · cases hf
    · cases ha
  refine Machine.along_of_step hstart (fun s l h => ?_) fun s l s' h hok => ?_
  · obtain ⟨s', hok, h'⟩ := h.step l
    exact ⟨s', hok, h'.confined⟩
  · obtain ⟨u, hok', h'⟩ := h.step l
    obtain rfl := Except.ok.inj (hok'.symm.trans hok)
    exact h'

end Discipline

end Affinity
