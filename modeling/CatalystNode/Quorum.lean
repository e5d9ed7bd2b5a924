import Mathlib

namespace Quorum

variable {α : Type} [DecidableEq α]

/-- Two quorums of one electorate overlap in at least twice the quorum less the electorate. -/
theorem two_mul_le_add_card_inter {electorate s t : Finset α} {n quorum : Nat}
    (size : electorate.card ≤ n) (hs : s ⊆ electorate) (ht : t ⊆ electorate)
    (sQuorum : quorum ≤ s.card) (tQuorum : quorum ≤ t.card) :
    2 * quorum ≤ n + (s ∩ t).card := by
  have union : (s ∪ t).card ≤ electorate.card := Finset.card_le_card (Finset.union_subset hs ht)
  have sum := Finset.card_union_add_card_inter s t
  omega

/-- Two groups of voters share a member of the electorate when together they outnumber it and every
outsider either of them may contain. -/
theorem exists_common_member {electorate s t x y : Finset α} (hs : s ⊆ electorate ∪ x)
    (ht : t ⊆ electorate ∪ y) (large : electorate.card + x.card + y.card < s.card + t.card) :
    ∃ a ∈ electorate, a ∈ s ∧ a ∈ t := by
  have inside : ∀ {u z : Finset α}, u ⊆ electorate ∪ z → u \ z ⊆ electorate := by
    intro u z hu a ha
    obtain ⟨inU, notZ⟩ := Finset.mem_sdiff.mp ha
    exact (Finset.mem_union.mp (hu inU)).resolve_right notZ
  have sizeS := Finset.le_card_sdiff x s
  have sizeT := Finset.le_card_sdiff y t
  obtain ⟨a, ha⟩ := Finset.inter_nonempty_of_card_lt_card_add_card (inside hs) (inside ht)
    (by omega)
  obtain ⟨inS, inT⟩ := Finset.mem_inter.mp ha
  exact ⟨a, inside hs inS, (Finset.mem_sdiff.mp inS).1, (Finset.mem_sdiff.mp inT).1⟩

theorem two_thirds_overlap_gt {n f overlap : Nat} (faults : 3 * f + 1 ≤ n)
    (h : 2 * (2 * n ⌈/⌉ 3) ≤ n + overlap) : f < overlap := by
  rw [Nat.ceilDiv_eq_add_pred_div] at h
  omega

def repeats : List α → Nat
  | [] => 0
  | a :: l => repeats l + if a ∈ l then 1 else 0

theorem card_toFinset_add_repeats (l : List α) : l.toFinset.card + repeats l = l.length := by
  induction l with
  | nil => rfl
  | cons a l ih =>
    rw [List.toFinset_cons, repeats, List.length_cons]
    by_cases h : a ∈ l
    · rw [Finset.insert_eq_of_mem (List.mem_toFinset.mpr h), if_pos h]
      omega
    · rw [Finset.card_insert_of_notMem (mt List.mem_toFinset.mp h), if_neg h]
      omega

end Quorum
