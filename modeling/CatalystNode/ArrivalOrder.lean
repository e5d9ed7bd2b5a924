import Mathlib

namespace ArrivalOrder

variable {α : Type}

/-- Lists of numbered items over time. At every step items may leave, and at most one joins at the end;
it bears the number of the step. -/
structure Arrivals (s : ℕ → List (ℕ × α)) : Prop where
  start : s 0 = []
  step : ∀ n, ∃ kept, List.Sublist kept (s n) ∧ (s (n + 1) = kept ∨ ∃ a, s (n + 1) = kept ++ [(n, a)])

namespace Arrivals

variable {s : ℕ → List (ℕ × α)} (arrivals : Arrivals s)

include arrivals

theorem mem_of_mem_succ {n : ℕ} {item : ℕ × α} (later : item ∈ s (n + 1)) (old : item.1 ≠ n) :
    item ∈ s n := by
  obtain ⟨kept, sub, same | ⟨a, joined⟩⟩ := arrivals.step n
  · exact sub.subset (same ▸ later)
  · rw [joined, List.mem_append, List.mem_singleton] at later
    rcases later with held | rfl
    · exact sub.subset held
    · exact absurd rfl old

theorem lt_of_mem {n : ℕ} {item : ℕ × α} (held : item ∈ s n) : item.1 < n := by
  induction n with
  | zero =>
    rw [arrivals.start] at held
    cases held
  | succ n ih =>
    by_cases new : item.1 = n
    · omega
    · have earlier := ih (arrivals.mem_of_mem_succ held new)
      omega

theorem ordered (n : ℕ) : ((s n).map Prod.fst).Pairwise (· < ·) := by
  induction n with
  | zero =>
    rw [arrivals.start]
    exact List.Pairwise.nil
  | succ n ih =>
    obtain ⟨kept, sub, same | ⟨a, joined⟩⟩ := arrivals.step n
    · rw [same]
      exact ih.sublist (sub.map Prod.fst)
    · rw [joined, List.map_append, List.pairwise_append]
      refine ⟨ih.sublist (sub.map Prod.fst), List.pairwise_singleton _ _, ?_⟩
      intro i listed j last
      obtain ⟨item, held, rfl⟩ := List.mem_map.mp listed
      rw [List.map_singleton, List.mem_singleton] at last
      exact last ▸ arrivals.lt_of_mem (sub.subset held)

/-- An item is there from the step it joined at on, until it leaves for good. -/
theorem mem_of_mem_later {m n : ℕ} {item : ℕ × α} (joined : item.1 < m) (h : m ≤ n)
    (later : item ∈ s n) : item ∈ s m := by
  induction n, h using Nat.le_induction with
  | base => exact later
  | succ n h ih => exact ih (arrivals.mem_of_mem_succ later (by omega))

omit arrivals in
theorem exists_left {m n : ℕ} {item : ℕ × α} (held : item ∈ s m) (h : m ≤ n) (gone : item ∉ s n) :
    ∃ k, m ≤ k ∧ k < n ∧ item ∈ s k ∧ item ∉ s (k + 1) := by
  induction n, h using Nat.le_induction with
  | base => exact absurd held gone
  | succ n h ih =>
    by_cases still : item ∈ s n
    · exact ⟨n, h, n.lt_succ_self, still, gone⟩
    · obtain ⟨k, low, high, there, left⟩ := ih still
      exact ⟨k, low, high.trans n.lt_succ_self, there, left⟩

end Arrivals

end ArrivalOrder
