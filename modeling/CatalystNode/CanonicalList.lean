import Mathlib

namespace CanonicalList

variable {α : Type} [LinearOrder α]

def sortDedup (l : List α) : List α :=
  (l.insertionSort (· ≤ ·)).destutter (· ≠ ·)

theorem mem_destutter'_ne {a b : α} {l : List α} :
    a ∈ l.destutter' (· ≠ ·) b ↔ a = b ∨ a ∈ l := by
  induction l generalizing b with
  | nil => simp
  | cons c l ih =>
    rw [List.destutter'_cons]
    split
    next => rw [List.mem_cons, ih, List.mem_cons]
    next same =>
      rw [not_not] at same
      subst same
      rw [ih, List.mem_cons]
      tauto

theorem mem_destutter_ne {a : α} {l : List α} : a ∈ l.destutter (· ≠ ·) ↔ a ∈ l := by
  cases l with
  | nil => simp
  | cons b l => rw [List.destutter_cons', mem_destutter'_ne, List.mem_cons]

theorem mem_sortDedup {a : α} {l : List α} : a ∈ sortDedup l ↔ a ∈ l := by
  rw [sortDedup, mem_destutter_ne, (List.perm_insertionSort _ l).mem_iff]

theorem pairwise_sortDedup (l : List α) : (sortDedup l).Pairwise (· < ·) := by
  have sorted : (sortDedup l).Pairwise (· ≤ ·) :=
    (List.pairwise_insertionSort (· ≤ ·) l).sublist (List.destutter_sublist _ _)
  have apart : List.IsChain (· ≠ ·) (sortDedup l) := List.isChain_destutter _ _
  have strict : List.IsChain (· < ·) (sortDedup l) := by
    rw [List.isChain_iff_getElem] at apart ⊢
    intro i hi
    have ordered := List.pairwise_iff_getElem.mp sorted i (i + 1) (by omega) hi (by omega)
    exact lt_of_le_of_ne ordered (apart i hi)
  exact List.isChain_iff_pairwise.mp strict

theorem nodup_sortDedup (l : List α) : (sortDedup l).Nodup :=
  (pairwise_sortDedup l).imp ne_of_lt

theorem sortDedup_congr {l l' : List α} (h : ∀ a, a ∈ l ↔ a ∈ l') : sortDedup l = sortDedup l' :=
  (pairwise_sortDedup l).eq_of_mem_iff (pairwise_sortDedup l') (fun a => by
    rw [mem_sortDedup, mem_sortDedup, h])

theorem length_sortDedup_of_nodup {l : List α} (distinct : l.Nodup) :
    (sortDedup l).length = l.length := by
  have same : (sortDedup l).Perm l :=
    (List.perm_ext_iff_of_nodup (nodup_sortDedup l) distinct).mpr (fun _ => mem_sortDedup)
  exact same.length_eq

theorem sortDedup_eq_nil {l : List α} : sortDedup l = [] ↔ l = [] := by
  simp only [List.eq_nil_iff_forall_not_mem, mem_sortDedup]

section SortBy

variable {β κ : Type} [LinearOrder κ] (key : β → κ)

def sortBy (l : List β) : List β := l.insertionSort (fun a b => key a ≤ key b)

theorem sortBy_perm (l : List β) : (sortBy key l).Perm l := List.perm_insertionSort _ l

theorem pairwise_sortBy (l : List β) : (sortBy key l).Pairwise (fun a b => key a ≤ key b) := by
  have : Std.Total (fun a b : β => key a ≤ key b) := ⟨fun a b => le_total (key a) (key b)⟩
  have : IsTrans β (fun a b => key a ≤ key b) := ⟨fun _ _ _ => le_trans⟩
  exact List.pairwise_insertionSort _ l

/-- Where the key tells the elements apart, the sorted list does not depend on their order. -/
theorem sortBy_congr {l l' : List β} (same : l.Perm l') (apart : Set.InjOn key {a | a ∈ l}) :
    sortBy key l = sortBy key l' := by
  refine (((sortBy_perm key l).trans same).trans (sortBy_perm key l').symm).eq_of_pairwise ?_
    (pairwise_sortBy key l) (pairwise_sortBy key l')
  intro a b ha hb below above
  exact apart ((sortBy_perm key l).mem_iff.mp ha)
    (same.mem_iff.mpr ((sortBy_perm key l').mem_iff.mp hb)) (le_antisymm below above)

end SortBy

end CanonicalList
