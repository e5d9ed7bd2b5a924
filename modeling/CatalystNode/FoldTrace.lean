import Mathlib

namespace FoldTrace

variable {σ α : Type}

/-- The steps of a fold: each element with the state it is handled in. -/
def foldSteps (f : σ → α → σ) : σ → List α → List (σ × α)
  | _, [] => []
  | s, a :: l => (s, a) :: foldSteps f (f s a) l

theorem foldl_invariant {f : σ → α → σ} {P : σ → Prop} {s : σ} {l : List α} (start : P s)
    (step : ∀ s' a, (s', a) ∈ foldSteps f s l → P s' → P (f s' a)) : P (l.foldl f s) := by
  induction l generalizing s with
  | nil => exact start
  | cons a l ih =>
    exact ih (step s a (by simp [foldSteps]) start) (fun s' b hb => step s' b (by simp [foldSteps, hb]))

theorem foldSteps_append (f : σ → α → σ) (s : σ) (l l' : List α) :
    foldSteps f s (l ++ l') = foldSteps f s l ++ foldSteps f (l.foldl f s) l' := by
  induction l generalizing s with
  | nil => rfl
  | cons a l ih => simp [foldSteps, ih]

theorem exists_of_mem_foldSteps {f : σ → α → σ} {s s' : σ} {l : List α} {a : α}
    (h : (s', a) ∈ foldSteps f s l) : ∃ before after, l = before ++ a :: after ∧
      s' = before.foldl f s := by
  induction l generalizing s with
  | nil => simp [foldSteps] at h
  | cons b l ih =>
    rcases List.mem_cons.mp h with he | he
    · obtain ⟨rfl, rfl⟩ := Prod.mk.inj he
      exact ⟨[], l, rfl, rfl⟩
    · obtain ⟨before, after, rfl, rfl⟩ := ih he
      exact ⟨b :: before, after, rfl, rfl⟩

/-- If each step keeps a property under exactly one condition, then it holds in every state reached
exactly if every step meets its condition. -/
theorem forall_reached_iff {f : σ → α → σ} {P : σ → Prop} {Q : σ → α → Prop} {s : σ} {l : List α}
    (start : P s) (step : ∀ p ∈ foldSteps f s l, P p.1 → (P (f p.1 p.2) ↔ Q p.1 p.2)) :
    (∀ before after, l = before ++ after → P (before.foldl f s)) ↔
      ∀ p ∈ foldSteps f s l, Q p.1 p.2 := by
  induction l generalizing s with
  | nil =>
    refine ⟨fun _ p listed => absurd listed List.not_mem_nil, fun _ before after split => ?_⟩
    obtain ⟨rfl, -⟩ := List.append_eq_nil_iff.mp split.symm
    exact start
  | cons a l ih =>
    have first := step (s, a) List.mem_cons_self start
    constructor
    · intro reached p listed
      have here : P (f s a) := reached [a] l rfl
      rcases List.mem_cons.mp listed with rfl | later
      · exact first.mp here
      · refine (ih here (fun p listed => step p (List.mem_cons_of_mem _ listed))).mp ?_ p later
        intro before after split
        exact reached (a :: before) after (by rw [split, List.cons_append])
    · intro meets before after split
      have here : P (f s a) := first.mpr (meets (s, a) List.mem_cons_self)
      have rest := (ih here (fun p listed => step p (List.mem_cons_of_mem _ listed))).mpr
        (fun p later => meets p (List.mem_cons_of_mem _ later))
      cases before with
      | nil => exact start
      | cons b before =>
        obtain ⟨rfl, tail⟩ := List.cons.inj split
        exact rest before after tail

theorem map_snd_foldSteps (f : σ → α → σ) (s : σ) (l : List α) :
    (foldSteps f s l).map Prod.snd = l := by
  induction l generalizing s with
  | nil => rfl
  | cons a l ih => simp [foldSteps, ih]

theorem mem_of_mem_foldSteps {f : σ → α → σ} {s : σ} {l : List α} {step : σ × α}
    (h : step ∈ foldSteps f s l) : step.2 ∈ l := by
  rw [← map_snd_foldSteps f s l]
  exact List.mem_map_of_mem h

/-- A quantity that each step changes by a known amount changes by their sum over the whole fold. -/
theorem foldl_measure {f : σ → α → σ} {m : σ → Int} {change : σ × α → Int} {s : σ} {l : List α}
    (step : ∀ p ∈ foldSteps f s l, m (f p.1 p.2) = m p.1 + change p) :
    m (l.foldl f s) = m s + ((foldSteps f s l).map change).sum := by
  induction l generalizing s with
  | nil => simp [foldSteps]
  | cons a l ih =>
    have first : m (f s a) = m s + change (s, a) := step (s, a) (by simp [foldSteps])
    have rest : m (l.foldl f (f s a)) = m (f s a) + ((foldSteps f (f s a) l).map change).sum :=
      ih (fun p hp => step p (by simp [foldSteps, hp]))
    rw [List.foldl_cons, rest, first]
    simp only [foldSteps, List.map_cons, List.sum_cons]
    omega

theorem foldl_measure_le {f : σ → α → σ} {m : σ → Int} {change : σ × α → Int} {s : σ} {l : List α}
    (step : ∀ p ∈ foldSteps f s l, m (f p.1 p.2) ≤ m p.1 + change p) :
    m (l.foldl f s) ≤ m s + ((foldSteps f s l).map change).sum := by
  induction l generalizing s with
  | nil => simp [foldSteps]
  | cons a l ih =>
    have first : m (f s a) ≤ m s + change (s, a) := step (s, a) (by simp [foldSteps])
    have rest : m (l.foldl f (f s a)) ≤ m (f s a) + ((foldSteps f (f s a) l).map change).sum :=
      ih (fun p hp => step p (by simp [foldSteps, hp]))
    rw [List.foldl_cons]
    simp only [foldSteps, List.map_cons, List.sum_cons]
    omega

/-- The same when the amount depends on the element alone. -/
theorem foldl_measure_elem {f : σ → α → σ} {m : σ → Int} {g : α → Int} {s : σ} {l : List α}
    (step : ∀ p ∈ foldSteps f s l, m (f p.1 p.2) = m p.1 + g p.2) :
    m (l.foldl f s) = m s + (l.map g).sum := by
  have steps := foldl_measure step
  have elements : (foldSteps f s l).map (fun p => g p.2) = l.map g := by
    conv_rhs => rw [← map_snd_foldSteps f s l, List.map_map]
    rfl
  rw [steps, elements]

end FoldTrace
