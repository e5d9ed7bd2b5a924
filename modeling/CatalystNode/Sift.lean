import Mathlib

/-!
# Filters with a state

A loop that goes through a list, keeps some elements and updates a state on the way. Run again on what
it kept, such a filter keeps everything, provided that a dropped element leaves nothing behind that the
decisions depend on.
-/

namespace Sift

variable {σ τ α : Type}

/-- The elements kept by a step that reports the next state and whether to keep the element. -/
def sift (step : σ → α → σ × Bool) : σ → List α → List α
  | _, [] => []
  | s, a :: l =>
    if (step s a).2 then a :: sift step (step s a).1 l else sift step (step s a).1 l

theorem sift_sublist (step : σ → α → σ × Bool) (s : σ) (l : List α) :
    (sift step s l).Sublist l := by
  induction l generalizing s with
  | nil => exact List.Sublist.slnil
  | cons a l ih =>
    unfold sift
    split
    next => exact (ih _).cons_cons a
    next => exact (ih _).cons a

/-- Two filters whose states correspond: what the first drops does not disturb the correspondence, and
what the first keeps the second keeps as well. -/
theorem sift_sift {step : σ → α → σ × Bool} {step' : τ → α → τ × Bool} {R : σ → τ → Prop}
    (drop : ∀ s t a, R s t → (step s a).2 = false → R (step s a).1 t)
    (keep : ∀ s t a, R s t → (step s a).2 = true →
      (step' t a).2 = true ∧ R (step s a).1 (step' t a).1)
    {s : σ} {t : τ} (start : R s t) (l : List α) :
    sift step' t (sift step s l) = sift step s l := by
  induction l generalizing s t with
  | nil => rfl
  | cons a l ih =>
    cases kept : (step s a).2 with
    | false =>
      have skipped : sift step s (a :: l) = sift step (step s a).1 l := by
        simp [sift, kept]
      rw [skipped]
      exact ih (drop s t a start kept)
    | true =>
      obtain ⟨again, next⟩ := keep s t a start kept
      have taken : sift step s (a :: l) = a :: sift step (step s a).1 l := by
        simp [sift, kept]
      rw [taken, sift, if_pos again, ih next]

/-- A count that every kept element adds to, and that no step takes over a limit, bounds what is
kept. -/
theorem weight_sift_le {step : σ → α → σ × Bool} {used : σ → Nat} {weight : α → Nat} {limit : Nat}
    (counts : ∀ s a, step s a = (s, false) ∨ (step s a).2 = true ∧
      used (step s a).1 = used s + weight a ∧ used (step s a).1 ≤ limit)
    {s : σ} (start : used s ≤ limit) (l : List α) :
    used s + ((sift step s l).map weight).sum ≤ limit := by
  induction l generalizing s with
  | nil => exact start
  | cons a l ih =>
    unfold sift
    rcases counts s a with dropped | ⟨kept, more, within⟩
    · rw [dropped]
      exact ih start
    · have rest := ih within
      rw [if_pos kept, List.map_cons, List.sum_cons]
      omega

theorem of_mem_sift {step : σ → α → σ × Bool} {P : α → Prop}
    (keep : ∀ s a, (step s a).2 = true → P a) (s : σ) (l : List α) :
    ∀ a ∈ sift step s l, P a := by
  induction l generalizing s with
  | nil => simp [sift]
  | cons b l ih =>
    unfold sift
    split
    next kept => exact List.forall_mem_cons.mpr ⟨keep s b kept, ih _⟩
    next => exact ih _

end Sift
