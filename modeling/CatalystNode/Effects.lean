import Mathlib.Logic.Basic

namespace Effects

variable {ε σ α β : Type} {prog : EStateM ε σ α} {next : α → EStateM ε σ β} {s t : σ}

/-- The state a run ends in, whether or not it failed. -/
def endState : EStateM.Result ε σ α → σ
  | .ok _ s => s
  | .error _ s => s

/-- What holds before a run holds after it, whether or not it failed. -/
def Keeps (P : σ → Prop) (prog : EStateM ε σ α) : Prop := ∀ s, P s → P (endState (prog s))

theorem bind_of_ok {a : α} (first : prog s = .ok a t) : (prog >>= next) s = next a t := by
  change EStateM.bind prog next s = _
  rw [EStateM.bind, first]

theorem bind_of_error {e : ε} (first : prog s = .error e t) :
    (prog >>= next) s = .error e t := by
  change EStateM.bind prog next s = _
  rw [EStateM.bind, first]

theorem modify_bind {f : σ → σ} {next : PUnit → EStateM ε σ β} :
    (modify f >>= next) s = next ⟨⟩ (f s) := rfl

theorem get_bind {next : σ → EStateM ε σ β} : (get >>= next) s = next s s := rfl

theorem bind_eq_ok {b : β} :
    (prog >>= next) s = .ok b t ↔ ∃ a u, prog s = .ok a u ∧ next a u = .ok b t := by
  constructor
  · intro run
    cases first : prog s with
    | ok a u => exact ⟨a, u, rfl, (bind_of_ok first).symm.trans run⟩
    | error e u =>
      rw [bind_of_error first] at run
      simp at run
  · rintro ⟨a, u, first, run⟩
    rw [bind_of_ok first, run]

namespace Keeps

variable {P : σ → Prop}

theorem endState_eq_ok (keeps : Keeps P prog) (before : P s) {a : α} (run : prog s = .ok a t) :
    P t := by
  have after := keeps s before
  rwa [run] at after

theorem pure (a : α) : Keeps P (Pure.pure a : EStateM ε σ α) := fun _ before => before

theorem throw (e : ε) : Keeps P (MonadExcept.throw e : EStateM ε σ α) := fun _ before => before

theorem bind (first : Keeps P prog) (rest : ∀ a, Keeps P (next a)) : Keeps P (prog >>= next) := by
  intro s before
  have middle := first s before
  cases run : prog s with
  | ok a t =>
    rw [run] at middle
    rw [bind_of_ok run]
    exact rest a t middle
  | error e t =>
    rw [run] at middle
    rwa [bind_of_error run]

theorem forM {steps : α → EStateM ε σ Unit} {l : List α} (step : ∀ a ∈ l, Keeps P (steps a)) :
    Keeps P (l.forM steps) := by
  induction l with
  | nil => exact pure ()
  | cons a l ih =>
    exact (step a List.mem_cons_self).bind
      (fun _ => ih (fun b hb => step b (List.mem_cons_of_mem a hb)))

end Keeps

end Effects
