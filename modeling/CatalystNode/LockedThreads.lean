import Mathlib

namespace LockedThreads

/-- Threads that take atomic steps on a shared state, some of them while holding the one lock. -/
structure System (ι τ σ : Type) where
  step : ι → τ → σ → Option (τ × σ)
  holds : τ → Bool

structure State (ι τ σ : Type) where
  threads : ι → τ
  shared : σ

variable {ι τ σ : Type} (system : System ι τ σ)

def alone (i : ι) : ℕ → τ × σ → Option (τ × σ)
  | 0, here => some here
  | n + 1, here => (system.step i here.1 here.2).bind (alone i n)

theorem alone_add {system : System ι τ σ} {i : ι} {m : ℕ} {here there : τ × σ} (first : alone system i m here = some there)
    (n : ℕ) : alone system i (m + n) here = alone system i n there := by
  induction m generalizing here with
  | zero => rw [Nat.zero_add, Option.some.inj first]
  | succ m ih =>
    obtain ⟨next, stepped, first⟩ := Option.bind_eq_some_iff.mp first
    rw [Nat.succ_add_eq_add_succ, Nat.add_succ, alone, stepped, Option.bind_some, ih first]

variable [Fintype ι] [DecidableEq ι]

/-- One step of a thread. It cannot get to a place that holds the lock while another one holds it. -/
def advance (state : State ι τ σ) (i : ι) : Option (State ι τ σ) :=
  match system.step i (state.threads i) state.shared with
  | none => none
  | some (thread, shared) =>
    if system.holds thread = true ∧ ∃ j, j ≠ i ∧ system.holds (state.threads j) = true then none
    else some ⟨Function.update state.threads i thread, shared⟩

/-- The threads step in the order of the schedule, if the lock allows it. -/
def run (state : State ι τ σ) : List ι → Option (State ι τ σ)
  | [] => some state
  | i :: schedule => (advance system state i).bind (fun state => run state schedule)

variable {system}

theorem run_invariant {P : State ι τ σ → Prop}
    (kept : ∀ state i after, P state → advance system state i = some after → P after)
    {state after : State ι τ σ} {schedule : List ι} (start : P state)
    (ran : run system state schedule = some after) : P after := by
  induction schedule generalizing state with
  | nil => exact Option.some.inj ran ▸ start
  | cons i schedule ih =>
    obtain ⟨next, stepped, ran⟩ := Option.bind_eq_some_iff.mp ran
    exact ih (kept state i next start stepped) ran

theorem run_append {state between : State ι τ σ} {before : List ι}
    (ran : run system state before = some between) (later : List ι) :
    run system state (before ++ later) = run system between later := by
  induction before generalizing state with
  | nil => rw [List.nil_append, Option.some.inj ran]
  | cons i before ih =>
    obtain ⟨next, stepped, ran⟩ := Option.bind_eq_some_iff.mp ran
    rw [List.cons_append, run, stepped, Option.bind_some, ih ran]

/-- A thread that no other one keeps from the lock does in the system what it does by itself. -/
theorem run_alone {i : ι} {n : ℕ} {state : State ι τ σ} {here thread : τ} {shared : σ}
    (place : state.threads i = here)
    (free : ∀ j, j ≠ i → system.holds (state.threads j) = false)
    (ran : alone system i n (here, state.shared) = some (thread, shared)) :
    run system state (List.replicate n i) =
      some ⟨Function.update state.threads i thread, shared⟩ := by
  induction n generalizing state here with
  | zero =>
    cases Option.some.inj ran
    rw [← place, Function.update_eq_self]
    rfl
  | succ n ih =>
    obtain ⟨⟨next, shared'⟩, stepped, ran⟩ := Option.bind_eq_some_iff.mp ran
    have unlocked : ¬(system.holds next = true ∧
        ∃ j, j ≠ i ∧ system.holds (state.threads j) = true) := by
      rintro ⟨-, j, other, held⟩
      rw [free j other] at held
      cases held
    have advanced : advance system state i =
        some ⟨Function.update state.threads i next, shared'⟩ := by
      simp only [advance, place, stepped, if_neg unlocked]
    have others : ∀ j, j ≠ i →
        system.holds (Function.update state.threads i next j) = false := by
      intro j other
      rw [Function.update_of_ne other]
      exact free j other
    have later := @ih ⟨Function.update state.threads i next, shared'⟩ next
      (Function.update_self i next state.threads) others ran
    rw [List.replicate_succ, run, advanced, Option.bind_some, later, Function.update_idem]

theorem advance_eq_some {state after : State ι τ σ} {i : ι}
    (advanced : advance system state i = some after) :
    ∃ thread, system.step i (state.threads i) state.shared = some (thread, after.shared) ∧
      after.threads = Function.update state.threads i thread := by
  unfold advance at advanced
  split at advanced
  next => cases advanced
  next thread shared stepped =>
    split at advanced
    next => cases advanced
    next =>
      cases Option.some.inj advanced
      exact ⟨thread, stepped, rfl⟩

theorem advance_exclusive {state after : State ι τ σ} {i : ι}
    (advanced : advance system state i = some after) (held : system.holds (after.threads i) = true)
    {j : ι} (other : j ≠ i) : system.holds (state.threads j) = false := by
  unfold advance at advanced
  split at advanced
  next => cases advanced
  next thread shared stepped =>
    split at advanced
    next => cases advanced
    next unlocked =>
      cases Option.some.inj advanced
      dsimp only at held
      rw [Function.update_self] at held
      by_contra held'
      exact unlocked ⟨held, j, other, by simpa using held'⟩

def System.unlocked (system : System ι τ σ) : System ι τ σ := { system with holds := fun _ => false }

theorem advance_unlocked {state after : State ι τ σ} {i : ι}
    (advanced : advance system state i = some after) :
    advance system.unlocked state i = some after := by
  obtain ⟨thread, stepped, places⟩ := advance_eq_some advanced
  have step : system.unlocked.step i (state.threads i) state.shared = some (thread, after.shared) :=
    stepped
  rw [advance, step]
  simp [System.unlocked, ← places]

/-- A schedule that the lock allows runs the same without it. -/
theorem run_unlocked {state after : State ι τ σ} {schedule : List ι}
    (ran : run system state schedule = some after) :
    run system.unlocked state schedule = some after := by
  induction schedule generalizing state with
  | nil => exact ran
  | cons i schedule ih =>
    obtain ⟨next, stepped, ran⟩ := Option.bind_eq_some_iff.mp ran
    rw [run, advance_unlocked stepped, Option.bind_some, ih ran]

/-- At most one thread holds the lock, and the shared state is as a thread expects it unless another
one holds the lock. -/
def Guarded (system : System ι τ σ) (expects : τ → σ → Prop) (state : State ι τ σ) : Prop :=
  (∀ i j, i ≠ j → system.holds (state.threads i) = true → system.holds (state.threads j) = false) ∧
  ∀ i, (∀ j, j ≠ i → system.holds (state.threads j) = false) → expects (state.threads i) state.shared

/-- If a thread's steps bring about what it expects, threads outside the lock all expect the same, and
a step outside the lock changes nothing, then every schedule keeps what is expected. -/
theorem guarded_run {expects : τ → σ → Prop} {rest : σ → Prop}
    (kept : ∀ i here shared there shared', expects here shared →
      system.step i here shared = some (there, shared') → expects there shared')
    (outside : ∀ here shared, system.holds here = false → (expects here shared ↔ rest shared))
    (still : ∀ i here shared there shared', system.holds here = false → system.holds there = false →
      system.step i here shared = some (there, shared') → shared' = shared)
    {state after : State ι τ σ} {schedule : List ι} (start : Guarded system expects state)
    (ran : run system state schedule = some after) : Guarded system expects after := by
  refine run_invariant ?_ start ran
  intro state i after ⟨exclusive, expected⟩ advanced
  obtain ⟨thread, stepped, places⟩ := advance_eq_some advanced
  have own : after.threads i = thread := by rw [places, Function.update_self]
  have others : ∀ j, j ≠ i → after.threads j = state.threads j := by
    intro j other
    rw [places, Function.update_of_ne other]
  -- Outside the lock of everybody else, the step does what its thread expects.
  have stepKept : (∀ j, j ≠ i → system.holds (state.threads j) = false) →
      expects thread after.shared :=
    fun free => kept i _ _ _ _ (expected i free) stepped
  refine ⟨?_, ?_⟩
  · intro j k apart held
    by_cases first : j = i
    · subst first
      rw [others k (Ne.symm apart)]
      exact advance_exclusive advanced held (Ne.symm apart)
    · rw [others j first] at held
      by_cases second : k = i
      · subst second
        by_contra held'
        have free := advance_exclusive advanced (by simpa using held') first
        rw [held] at free
        cases free
      · rw [others k second]
        exact exclusive j k apart held
  · intro k free
    by_cases mine : k = i
    · subst mine
      rw [own]
      refine stepKept (fun j other => ?_)
      rw [← others j other]
      exact free j other
    · rw [others k mine]
      have left : system.holds thread = false := own ▸ free i (Ne.symm mine)
      cases held : system.holds (state.threads k) with
      | true =>
        have entered : system.holds (state.threads i) = false := exclusive k i mine held
        rw [still i _ _ _ _ entered left stepped]
        exact expected k (fun j other => exclusive k j (Ne.symm other) held)
      | false =>
        -- The other threads are all outside, so the one that steps brought about the common state.
        refine (outside _ _ held).mpr ((outside thread _ left).mp (stepKept (fun j other => ?_)))
        by_cases same : j = k
        · rw [same, held]
        · rw [← others j other]
          exact free j same

end LockedThreads
