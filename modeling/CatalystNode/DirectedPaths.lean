import CatalystNode.SparseTree

namespace SparseTree

variable {α : Type} {node : α → α → α} {leaf : Nat → α}

/-- A value and the value next to it, which stands left or right of it. -/
def beside (left : Bool) (cur sibling : α) : α × α := if left then (sibling, cur) else (cur, sibling)

def ascend (node : α → α → α) : α → List (Bool × α) → α
  | cur, [] => cur
  | cur, step :: steps => ascend node (node (beside step.1 cur step.2).1 (beside step.1 cur step.2).2) steps

def ascendPairs (node : α → α → α) : α → List (Bool × α) → List (α × α)
  | _, [] => []
  | cur, step :: steps => beside step.1 cur step.2 ::
    ascendPairs node (node (beside step.1 cur step.2).1 (beside step.1 cur step.2).2) steps

def directed : Nat → List α → List (Bool × α)
  | _, [] => []
  | i, sibling :: above => (decide (i % 2 = 1), sibling) :: directed (i / 2) above

def ownSteps (node : α → α → α) (leaf : Nat → α) (i n : Nat) : List (Bool × α) :=
  directed i (siblings node leaf 0 i n)

theorem ascend_concat (cur : α) (steps : List (Bool × α)) (step : Bool × α) :
    ascend node cur (steps ++ [step]) =
      node (beside step.1 (ascend node cur steps) step.2).1 (beside step.1 (ascend node cur steps) step.2).2 := by
  induction steps generalizing cur with
  | nil => rfl
  | cons first steps ih => exact ih _

theorem ascendPairs_concat (cur : α) (steps : List (Bool × α)) (step : Bool × α) :
    ascendPairs node cur (steps ++ [step]) =
      ascendPairs node cur steps ++ [beside step.1 (ascend node cur steps) step.2] := by
  induction steps generalizing cur with
  | nil => rfl
  | cons first steps ih => rw [List.cons_append, ascendPairs, ascendPairs, ascend, List.cons_append, ih]

theorem beside_eq_orient (i : Nat) (cur sibling : α) :
    beside (decide (i % 2 = 1)) cur sibling = orient i cur sibling := by
  simp only [beside, orient, decide_eq_true_eq]

theorem ascend_directed (i : Nat) (cur : α) (above : List α) :
    ascend node cur (directed i above) = climb node i cur above := by
  induction above generalizing i cur with
  | nil => rfl
  | cons sibling above ih => rw [directed, ascend, climb, beside_eq_orient, ih]

theorem directed_concat (i : Nat) (above : List α) (sibling : α) :
    directed i (above ++ [sibling]) =
      directed i above ++ [(decide (i / 2 ^ above.length % 2 = 1), sibling)] := by
  induction above generalizing i with
  | nil => simp [directed]
  | cons first above ih =>
    rw [List.cons_append, directed, directed, ih, List.length_cons, List.cons_append,
      Nat.div_div_eq_div_mul, Nat.pow_succ']

theorem siblings_concat (h i n : Nat) :
    siblings node leaf h i (n + 1) =
      siblings node leaf h i n ++ [subtreeRoot node leaf (h + n) (siblingOf (i / 2 ^ n))] := by
  induction n generalizing h i with
  | zero => simp [siblings]
  | succ n ih =>
    rw [siblings, ih, siblings, List.cons_append, Nat.div_div_eq_div_mul, ← Nat.pow_succ',
      Nat.add_right_comm, Nat.add_assoc]

theorem ownSteps_succ (i n : Nat) :
    ownSteps node leaf i (n + 1) = ownSteps node leaf i n ++
      [(decide (i / 2 ^ n % 2 = 1), subtreeRoot node leaf n (siblingOf (i / 2 ^ n)))] := by
  rw [ownSteps, siblings_concat, directed_concat, length_siblings, Nat.zero_add]
  rfl

theorem ascend_ownSteps (i n : Nat) :
    ascend node (leaf i) (ownSteps node leaf i n) = subtreeRoot node leaf n (i / 2 ^ n) := by
  have walk := @climb_siblings _ node leaf n 0 i
  rw [Nat.zero_add] at walk
  rw [ownSteps, ascend_directed]
  exact walk

/-- The children of a node at a height, taken apart by the step that leads to one of them. -/
theorem children_of_beside {step : Bool × α} {cur : α} {h i : Nat}
    (same : beside step.1 cur step.2 =
      (subtreeRoot node leaf h (2 * i), subtreeRoot node leaf h (2 * i + 1))) :
    ∃ child, child / 2 = i ∧ cur = subtreeRoot node leaf h child ∧
      step = (decide (child % 2 = 1), subtreeRoot node leaf h (siblingOf child)) := by
  obtain ⟨left, sibling⟩ := step
  cases left with
  | true =>
    obtain ⟨rfl, rfl⟩ := Prod.mk.inj same
    refine ⟨2 * i + 1, by omega, rfl, ?_⟩
    rw [siblingOf, if_pos (by omega), decide_eq_true (by omega), Nat.add_sub_cancel]
  | false =>
    obtain ⟨rfl, rfl⟩ := Prod.mk.inj same
    refine ⟨2 * i, by omega, rfl, ?_⟩
    rw [siblingOf, if_neg (by omega), decide_eq_false (by omega)]

theorem mem_ascendPairs_ownSteps {i n : Nat} {p : α × α}
    (combined : p ∈ ascendPairs node (leaf i) (ownSteps node leaf i n)) :
    ∃ h < n, p = (subtreeRoot node leaf h (2 * (i / 2 ^ (h + 1))),
      subtreeRoot node leaf h (2 * (i / 2 ^ (h + 1)) + 1)) := by
  induction n with
  | zero => cases combined
  | succ n ih =>
    rw [ownSteps_succ, ascendPairs_concat, ascend_ownSteps, beside_eq_orient, orient_children,
      Nat.div_div_eq_div_mul, ← Nat.pow_succ, List.mem_append, List.mem_singleton] at combined
    rcases combined with below | top
    · obtain ⟨h, low, same⟩ := ih below
      exact ⟨h, Nat.lt_succ_of_lt low, same⟩
    · exact ⟨n, Nat.lt_succ_self n, top⟩

section Inversion

variable {depth : Nat} {pairs : Set (α × α)} (free : Set.InjOn (fun p => node p.1 p.2) pairs)
  (tree : ∀ h < depth, ∀ i < 2 ^ (depth - (h + 1)),
    (subtreeRoot node leaf h (2 * i), subtreeRoot node leaf h (2 * i + 1)) ∈ pairs)
  (apart : ∀ p ∈ pairs, ∀ i < 2 ^ depth, node p.1 p.2 ≠ leaf i)

include free tree apart

/-- An ascent of any length and with any directions that arrives in the tree is the tree's own from one of
its leaves, if no two pairs that are combined agree and no pair looks like a leaf. -/
theorem eq_ownSteps_of_ascend {cur : α} (start : ∀ p ∈ pairs, node p.1 p.2 ≠ cur)
    {steps : List (Bool × α)} (walk : ∀ p ∈ ascendPairs node cur steps, p ∈ pairs) {h i : Nat}
    (low : h ≤ depth) (inside : i < 2 ^ (depth - h))
    (arrive : ascend node cur steps = subtreeRoot node leaf h i) :
    ∃ j, j / 2 ^ h = i ∧ leaf j = cur ∧ steps = ownSteps node leaf j h := by
  -- the steps are taken off at the top, where the arrival is known
  induction steps using List.reverseRecOn generalizing h i with
  | nil =>
    cases h with
    | zero => exact ⟨i, by simp, arrive.symm, rfl⟩
    | succ h => exact absurd arrive.symm (start _ (tree h low i inside))
  | append_singleton steps step ih =>
    rw [ascendPairs_concat] at walk
    have top := walk _ (List.mem_append_right _ (List.mem_singleton_self _))
    rw [ascend_concat] at arrive
    cases h with
    | zero => exact absurd arrive (apart _ top i inside)
    | succ h =>
      have wide : 2 ^ (depth - h) = 2 * 2 ^ (depth - (h + 1)) := by
        rw [← Nat.pow_succ', show (depth - (h + 1)).succ = depth - h by omega]
      obtain ⟨child, above, reached, rfl⟩ := children_of_beside (free top (tree h low i inside) arrive)
      obtain ⟨j, below, here, rfl⟩ := ih (fun p hp => walk p (List.mem_append_left _ hp))
        (Nat.le_of_succ_le low) (by omega) reached
      refine ⟨j, ?_, here, ?_⟩
      · rw [Nat.pow_succ, ← Nat.div_div_eq_div_mul, below, above]
      · rw [ownSteps_succ, below]

end Inversion

end SparseTree
