import Mathlib

namespace SparseTree

variable {α : Type}

/-- Root of the full subtree of a height at a position; a position's children are its double and the
next one, so the most significant bit of a leaf position is decided at the top. -/
def subtreeRoot (node : α → α → α) (leaf : Nat → α) : Nat → Nat → α
  | 0, i => leaf i
  | h + 1, i => node (subtreeRoot node leaf h (2 * i)) (subtreeRoot node leaf h (2 * i + 1))

def emptyRoot (node : α → α → α) (empty : α) : Nat → α
  | 0 => empty
  | h + 1 => node (emptyRoot node empty h) (emptyRoot node empty h)

structure Level (node : α → α → α) (empty : α) (leaf : Nat → α) (h width : Nat)
    (entries : Nat → Option α) : Prop where
  value : ∀ i, i < width →
    (entries i).getD (emptyRoot node empty h) = subtreeRoot node leaf h i

def parentEntry (node : α → α → α) (blank : α) (entries : Nat → Option α) (i : Nat) : Option α :=
  if (entries (2 * i)).isNone ∧ (entries (2 * i + 1)).isNone then none
  else some (node ((entries (2 * i)).getD blank) ((entries (2 * i + 1)).getD blank))

theorem Level.leaves {node : α → α → α} {empty : α} {width : Nat} (entries : Nat → Option α) :
    Level node empty (fun i => (entries i).getD empty) 0 width entries :=
  ⟨fun _ _ => rfl⟩

theorem parentEntry_getD {node : α → α → α} {empty : α} {h : Nat} (entries : Nat → Option α)
    (i : Nat) :
    (parentEntry node (emptyRoot node empty h) entries i).getD (emptyRoot node empty (h + 1)) =
      node ((entries (2 * i)).getD (emptyRoot node empty h))
        ((entries (2 * i + 1)).getD (emptyRoot node empty h)) := by
  unfold parentEntry
  split
  next none =>
    rw [Option.isNone_iff_eq_none, Option.isNone_iff_eq_none] at none
    simp [none.1, none.2, emptyRoot]
  next => rfl

/-- Hashing the stored pairs of one level gives the next level up. -/
theorem Level.parent {node : α → α → α} {empty : α} {leaf : Nat → α} {h width : Nat}
    {below above : Nat → Option α} (level : Level node empty leaf h (2 * width) below)
    (step : ∀ i, i < width → above i = parentEntry node (emptyRoot node empty h) below i) :
    Level node empty leaf (h + 1) width above := by
  refine ⟨fun i hi => ?_⟩
  rw [step i hi, parentEntry_getD, level.value (2 * i) (by omega),
    level.value (2 * i + 1) (by omega)]
  rfl

def siblingOf (i : Nat) : Nat := if i % 2 = 1 then i - 1 else i + 1

def orient (i : Nat) (cur sibling : α) : α × α := if i % 2 = 1 then (sibling, cur) else (cur, sibling)

def climb (node : α → α → α) : Nat → α → List α → α
  | _, cur, [] => cur
  | i, cur, sibling :: above =>
    climb node (i / 2) (node (orient i cur sibling).1 (orient i cur sibling).2) above

def climbPairs (node : α → α → α) : Nat → α → List α → List (α × α)
  | _, _, [] => []
  | i, cur, sibling :: above => orient i cur sibling ::
    climbPairs node (i / 2) (node (orient i cur sibling).1 (orient i cur sibling).2) above

def siblings (node : α → α → α) (leaf : Nat → α) (h i : Nat) : Nat → List α
  | 0 => []
  | n + 1 => subtreeRoot node leaf h (siblingOf i) :: siblings node leaf (h + 1) (i / 2) n

theorem length_siblings (node : α → α → α) (leaf : Nat → α) (h i n : Nat) :
    (siblings node leaf h i n).length = n := by
  induction n generalizing h i with
  | zero => rfl
  | succ n ih => rw [siblings, List.length_cons, ih]

theorem orient_children {node : α → α → α} {leaf : Nat → α} (h i : Nat) :
    orient i (subtreeRoot node leaf h i) (subtreeRoot node leaf h (siblingOf i)) =
      (subtreeRoot node leaf h (2 * (i / 2)), subtreeRoot node leaf h (2 * (i / 2) + 1)) := by
  unfold orient siblingOf
  split
  next odd => rw [show i - 1 = 2 * (i / 2) by omega, show 2 * (i / 2) + 1 = i by omega]
  next even => rw [show 2 * (i / 2) = i by omega]

theorem climb_siblings {node : α → α → α} {leaf : Nat → α} (n h i : Nat) :
    climb node i (subtreeRoot node leaf h i) (siblings node leaf h i n) =
      subtreeRoot node leaf (h + n) (i / 2 ^ n) := by
  induction n generalizing h i with
  | zero => simp [siblings, climb]
  | succ n ih =>
    rw [siblings, climb, orient_children]
    change climb node (i / 2) (subtreeRoot node leaf (h + 1) (i / 2)) _ = _
    rw [ih, Nat.div_div_eq_div_mul, ← Nat.pow_succ', Nat.add_right_comm, Nat.add_assoc]

theorem eq_of_orient_eq {i : Nat} {cur cur' sibling sibling' : α}
    (h : orient i cur sibling = orient i cur' sibling') : cur = cur' ∧ sibling = sibling' := by
  unfold orient at h
  split at h
  next =>
    obtain ⟨left, right⟩ := Prod.mk.inj h
    exact ⟨right, left⟩
  next => exact Prod.mk.inj h

/-- Two climbs from one position that arrive at the same ancestor are the same climb, if no two
different pairs among those they combine agree. -/
theorem eq_of_climb_eq {node : α → α → α} {pairs : Set (α × α)}
    (free : Set.InjOn (fun p => node p.1 p.2) pairs) {i : Nat} {cur cur' : α} {above above' : List α}
    (walk : ∀ p ∈ climbPairs node i cur above, p ∈ pairs)
    (walk' : ∀ p ∈ climbPairs node i cur' above', p ∈ pairs)
    (length : above.length = above'.length)
    (arrive : climb node i cur above = climb node i cur' above') :
    cur = cur' ∧ above = above' := by
  induction above generalizing i cur cur' above' with
  | nil =>
    rw [List.eq_nil_of_length_eq_zero length.symm] at arrive ⊢
    exact ⟨arrive, rfl⟩
  | cons sibling above ih =>
    cases above' with
    | nil => simp at length
    | cons sibling' above' =>
      obtain ⟨parent, rest⟩ := ih (fun p hp => walk p (List.mem_cons_of_mem _ hp))
        (fun p hp => walk' p (List.mem_cons_of_mem _ hp)) (Nat.succ.inj length) arrive
      have same := free (walk _ List.mem_cons_self) (walk' _ List.mem_cons_self) parent
      obtain ⟨start, beside⟩ := eq_of_orient_eq same
      exact ⟨start, by rw [beside, rest]⟩

end SparseTree
