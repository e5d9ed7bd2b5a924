import Mathlib

namespace Eviction

section Order

variable {α : Type} {f : α → Nat} {tie : α → α → Prop}

/-- A stable sort. -/
def sortByKey (f : α → Nat) (l : List α) : List α := l.insertionSort (fun a b => f a ≤ f b)

/-- What a stable sort puts before what: ties stay in the order they are listed in. -/
def Before (f : α → Nat) (tie : α → α → Prop) (a b : α) : Prop := f a < f b ∨ f a = f b ∧ tie a b

instance instDecidableBefore (f : α → Nat) (tie : α → α → Prop) [DecidableRel tie] :
    DecidableRel (Before f tie) :=
  fun a b => inferInstanceAs (Decidable (f a < f b ∨ f a = f b ∧ tie a b))

theorem before_asymm (strict : ∀ a b, tie a b → ¬tie b a) (a b : α) (first : Before f tie a b) :
    ¬Before f tie b a := by
  rintro (later | ⟨same, back⟩)
  · rcases first with less | ⟨same, -⟩
    · omega
    · omega
  · rcases first with less | ⟨-, forth⟩
    · omega
    · exact strict a b forth back

theorem perm_sortByKey (l : List α) : (sortByKey f l).Perm l := List.perm_insertionSort _ l

theorem pairwise_orderedInsert {x : α} {l : List α} (first : ∀ y ∈ l, tie x y)
    (sorted : l.Pairwise (Before f tie)) :
    (l.orderedInsert (fun a b => f a ≤ f b) x).Pairwise (Before f tie) := by
  induction l with
  | nil => simp
  | cons y l ih =>
    rw [List.orderedInsert_cons]
    obtain ⟨behind, rest⟩ := List.pairwise_cons.mp sorted
    split
    next here =>
      refine List.pairwise_cons.mpr ⟨fun z listed => ?_, sorted⟩
      have least : f x ≤ f z := by
        rcases List.mem_cons.mp listed with rfl | later
        · exact here
        · have := behind z later
          unfold Before at this
          omega
      exact (Nat.lt_or_eq_of_le least).imp_right (fun same => ⟨same, first z listed⟩)
    next later =>
      refine List.pairwise_cons.mpr ⟨fun z listed => ?_, ih (fun z later =>
        first z (List.mem_cons_of_mem y later)) rest⟩
      rcases (List.mem_orderedInsert _).mp listed with rfl | after
      · exact .inl (not_le.mp later)
      · exact behind z after

theorem pairwise_sortByKey {l : List α} (listed : l.Pairwise tie) :
    (sortByKey f l).Pairwise (Before f tie) := by
  induction l with
  | nil => exact List.Pairwise.nil
  | cons x l ih =>
    obtain ⟨first, rest⟩ := List.pairwise_cons.mp listed
    exact pairwise_orderedInsert (fun y sorted => first y ((List.mem_insertionSort _).mp sorted))
      (ih rest)

theorem sorted_sortByKey (l : List α) : (sortByKey f l).Pairwise (fun a b => f a ≤ f b) := by
  have listed : l.Pairwise (fun _ _ => True) := List.pairwise_of_forall (fun _ _ => trivial)
  exact (pairwise_sortByKey listed).imp
    (fun before => before.elim Nat.le_of_lt (fun same => Nat.le_of_eq same.1))

theorem mem_take_iff {R : α → α → Prop} [DecidableRel R] (asymm : ∀ a b, R a b → ¬R b a) {l : List α}
    (sorted : l.Pairwise R) {x : α} (listed : x ∈ l) (n : Nat) :
    x ∈ l.take n ↔ (l.filter (fun y => R y x)).length < n := by
  obtain ⟨front, back, rfl⟩ := List.append_of_mem listed
  obtain ⟨-, behind, across⟩ := List.pairwise_append.mp sorted
  have whole : front.filter (fun y => R y x) = front :=
    List.filter_eq_self.mpr (fun y mem => decide_eq_true (across y mem x List.mem_cons_self))
  have none : (x :: back).filter (fun y => R y x) = [] := by
    refine List.filter_eq_nil_iff.mpr (fun y mem => ?_)
    rw [decide_eq_true_eq]
    rcases List.mem_cons.mp mem with rfl | later
    · exact fun self => asymm _ _ self self
    · exact asymm _ _ ((List.pairwise_cons.mp behind).1 y later)
  have fresh : x ∉ front := fun mem =>
    have self := across x mem x List.mem_cons_self
    asymm _ _ self self
  rw [List.filter_append, whole, none, List.append_nil, List.take_append, List.mem_append]
  constructor
  · rintro (early | late)
    · exact absurd (List.mem_of_mem_take early) fresh
    · by_contra short
      rw [Nat.sub_eq_zero_of_le (not_lt.mp short)] at late
      simp at late
  · intro room
    right
    obtain ⟨k, fits⟩ := Nat.exists_eq_add_of_lt room
    rw [show n - front.length = k + 1 by omega, List.take_succ_cons]
    exact List.mem_cons_self

theorem mem_take_sortByKey_iff [DecidableRel tie] (strict : ∀ a b, tie a b → ¬tie b a) {l : List α}
    (pairs : l.Pairwise tie) {x : α} (listed : x ∈ l) (n : Nat) :
    x ∈ (sortByKey f l).take n ↔ (l.filter (fun y => Before f tie y x)).length < n := by
  rw [mem_take_iff (before_asymm strict) (pairwise_sortByKey pairs)
    ((perm_sortByKey l).mem_iff.mpr listed), ((perm_sortByKey l).filter _).length_eq]

end Order

section Listing

variable {κ β : Type} [Ord κ] [Std.TransOrd κ]

/-- The entries of a hash map in the order in which it hands them out, any order that a rank of the
keys gives. -/
def listing (rank : κ → Nat) (map : Std.ExtTreeMap κ β) : List (κ × β) :=
  sortByKey (fun entry => rank entry.1) map.toList

theorem perm_listing (rank : κ → Nat) (map : Std.ExtTreeMap κ β) :
    (listing rank map).Perm map.toList := perm_sortByKey _

end Listing

section Erase

variable {κ β : Type} [Ord κ] [Std.TransOrd κ] [Std.LawfulEqOrd κ] [DecidableEq κ]

theorem getElem?_foldl_erase (entries : List (κ × β)) (map : Std.ExtTreeMap κ β) (k : κ) :
    (entries.foldl (fun map entry => map.erase entry.1) map)[k]? =
      if k ∈ entries.map Prod.fst then none else map[k]? := by
  induction entries generalizing map with
  | nil => simp
  | cons entry entries ih =>
    rw [List.foldl_cons, ih, Std.ExtTreeMap.getElem?_erase]
    simp only [Std.LawfulEqCmp.compare_eq_iff_eq, List.map_cons, List.mem_cons]
    by_cases later : k ∈ entries.map Prod.fst
    · simp [later]
    · by_cases here : entry.1 = k
      · simp [here]
      · simp [later, here, Ne.symm here]

omit [DecidableEq κ] in
theorem size_foldl_erase {entries : List (κ × β)} {map : Std.ExtTreeMap κ β}
    (distinct : (entries.map Prod.fst).Nodup) (held : ∀ k ∈ entries.map Prod.fst, k ∈ map) :
    (entries.foldl (fun map entry => map.erase entry.1) map).size = map.size - entries.length := by
  induction entries generalizing map with
  | nil => simp
  | cons entry entries ih =>
    obtain ⟨fresh, rest⟩ := List.nodup_cons.mp distinct
    have here : map.contains entry.1 = true := held entry.1 List.mem_cons_self
    rw [List.foldl_cons, ih rest, Std.ExtTreeMap.size_erase, if_pos here, List.length_cons]
    · omega
    · intro k later
      refine Std.ExtTreeMap.mem_erase.mpr ⟨?_, held k (List.mem_cons_of_mem _ later)⟩
      rw [ne_eq, Std.LawfulEqCmp.compare_eq_iff_eq]
      exact fun same => fresh (same ▸ later)

omit [DecidableEq κ] in
theorem nodup_keys_toList (map : Std.ExtTreeMap κ β) : (map.toList.map Prod.fst).Nodup := by
  refine List.pairwise_map.mpr (Std.ExtTreeMap.distinct_keys_toList.imp (fun apart same => ?_))
  exact apart (by rw [same]; exact Std.LawfulEqCmp.compare_eq_iff_eq.mpr rfl)

omit [DecidableEq κ] in
theorem size_erase_listed {entries listing : List (κ × β)} {map : Std.ExtTreeMap κ β}
    (lists : listing.Perm map.toList) (taken : entries.Sublist listing) :
    (entries.foldl (fun map entry => map.erase entry.1) map).size = map.size - entries.length := by
  refine size_foldl_erase
    (((lists.map _).nodup_iff.mpr (nodup_keys_toList map)).sublist (taken.map _)) ?_
  intro k erased
  obtain ⟨entry, mem, rfl⟩ := List.mem_map.mp erased
  have found := Std.ExtTreeMap.mem_toList_iff_getElem?_eq_some.mp (lists.subset (taken.subset mem))
  exact Std.ExtTreeMap.mem_iff_isSome_getElem?.mpr (Option.isSome_of_eq_some found)

omit [Ord κ] [Std.TransOrd κ] [Std.LawfulEqOrd κ] in
/-- What is behind one of the first entries of a list sorted by time is no older than it. -/
theorem length_sub_le_card {l : List (κ × Nat)} {n : Nat} {entry : κ × Nat} {since : Finset κ}
    (sorted : l.Pairwise (fun a b => a.2 ≤ b.2)) (distinct : (l.map Prod.fst).Nodup)
    (early : entry ∈ l.take n) (counted : ∀ e ∈ l, entry.2 ≤ e.2 → e.1 ∈ since) :
    l.length - n ≤ since.card := by
  rw [← List.take_append_drop n l] at sorted
  have later := (List.pairwise_append.mp sorted).2.2 entry early
  have behind : ((l.drop n).map Prod.fst).toFinset ⊆ since := by
    intro k mem
    obtain ⟨e, dropped, rfl⟩ := List.mem_map.mp (List.mem_toFinset.mp mem)
    exact counted e (List.mem_of_mem_drop dropped) (later e dropped)
  have count := Finset.card_le_card behind
  rwa [List.toFinset_card_of_nodup (distinct.sublist ((List.drop_sublist n l).map Prod.fst)),
    List.length_map, List.length_drop] at count

end Erase

end Eviction
