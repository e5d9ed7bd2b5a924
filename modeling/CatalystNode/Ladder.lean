import Mathlib

namespace Ladder

/-- Numbers that go up by one from a start, and stay at the top once they are there. -/
def Climbs (top : Nat) : Nat → List Nat → Prop
  | _, [] => True
  | n, a :: l => a = min top (n + 1) ∧ Climbs top a l

variable {top n : Nat} {l l' : List Nat}

theorem getLastD_append (l l' : List Nat) (n : Nat) :
    (l ++ l').getLastD n = l'.getLastD (l.getLastD n) := by
  simp [List.getLastD_eq_getLast?, List.getLast?_append]

theorem climbs_append : Climbs top n (l ++ l') ↔ Climbs top n l ∧ Climbs top (l.getLastD n) l' := by
  induction l generalizing n with
  | nil => simp [Climbs]
  | cons a l ih => rw [List.cons_append, Climbs, Climbs, ih, and_assoc, List.getLastD_cons]

theorem Climbs.getLastD (climbs : Climbs top n l) (low : n ≤ top) :
    l.getLastD n = min top (n + l.length) := by
  induction l generalizing n with
  | nil => simpa using low
  | cons a l ih =>
    obtain ⟨first, rest⟩ := climbs
    rw [List.getLastD_cons, ih rest (by omega), List.length_cons]
    omega

theorem Climbs.above (climbs : Climbs top n l) (low : n ≤ top) : ∀ a ∈ l, n < a ∨ a = top := by
  induction l generalizing n with
  | nil => simp
  | cons a l ih =>
    obtain ⟨first, rest⟩ := climbs
    intro b hb
    rcases List.mem_cons.mp hb with rfl | later
    · omega
    · have next := ih rest (by omega) b later
      omega

/-- A number comes back only at the top. -/
theorem Climbs.pairwise (climbs : Climbs top n l) (low : n ≤ top) :
    l.Pairwise (fun a b => a < b ∨ b = top) := by
  induction l generalizing n with
  | nil => exact List.Pairwise.nil
  | cons a l ih =>
    obtain ⟨first, rest⟩ := climbs
    have start : a ≤ top := by omega
    exact List.pairwise_cons.mpr ⟨rest.above start, ih rest start⟩

end Ladder
