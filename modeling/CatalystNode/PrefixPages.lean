import Mathlib

namespace PrefixPages

section Sorting

variable {α κ : Type} [LinearOrder κ] (key : α → κ)

def sortBy (l : List α) : List α := l.mergeSort (fun a b => decide (key a ≤ key b))

def rank (l : List α) (x : α) : Nat := l.countP (fun y => decide (key y < key x))

variable {key} {l : List α}

theorem sortBy_perm (key : α → κ) (l : List α) : (sortBy key l).Perm l := List.mergeSort_perm _ _

theorem length_sortBy (key : α → κ) (l : List α) : (sortBy key l).length = l.length :=
  (sortBy_perm key l).length_eq

theorem pairwise_sortBy (distinct : (l.map key).Nodup) :
    (sortBy key l).Pairwise (fun a b => key a < key b) := by
  have ordered : (sortBy key l).Pairwise (fun a b => decide (key a ≤ key b) = true) := by
    refine List.pairwise_mergeSort (fun a b c first second => ?_) (fun a b => ?_) l
    · exact decide_eq_true (le_trans (of_decide_eq_true first) (of_decide_eq_true second))
    · rw [Bool.or_eq_true, decide_eq_true_eq, decide_eq_true_eq]
      exact le_total _ _
  have apart : (sortBy key l).Pairwise (fun a b => key a ≠ key b) :=
    List.pairwise_map.mp (((sortBy_perm key l).map key).nodup_iff.mpr distinct)
  exact (ordered.and apart).imp (fun ⟨le, ne⟩ => lt_of_le_of_ne (of_decide_eq_true le) ne)

theorem rank_cons (a : α) (l : List α) (x : α) :
    rank key (a :: l) x = rank key l x + if key a < key x then 1 else 0 := by
  rw [rank, List.countP_cons]
  simp only [decide_eq_true_eq]
  rfl

theorem rank_append (l l' : List α) (x : α) : rank key (l ++ l') x = rank key l x + rank key l' x :=
  List.countP_append

theorem rank_perm {l' : List α} (perm : l.Perm l') (x : α) : rank key l x = rank key l' x :=
  perm.countP_eq _

theorem rank_of_pairwise (ordered : l.Pairwise (fun a b => key a < key b)) {r : Nat} {x : α}
    (here : l[r]? = some x) : rank key l x = r := by
  induction l generalizing r with
  | nil => cases here
  | cons a l ih =>
    obtain ⟨first, rest⟩ := List.pairwise_cons.mp ordered
    cases r with
    | zero =>
      cases Option.some.inj here
      rw [rank, List.countP_eq_zero]
      intro y listed
      rcases List.mem_cons.mp listed with rfl | later
      · simp
      · simpa using (first y later).le
    | succ r =>
      have later : l[r]? = some x := here
      have before : key a < key x := first x (List.mem_of_getElem? later)
      rw [rank_cons, ih rest later, if_pos before]

theorem getElem?_sortBy_iff (distinct : (l.map key).Nodup) {r : Nat} {x : α} :
    (sortBy key l)[r]? = some x ↔ x ∈ l ∧ rank key l x = r := by
  have position : ∀ {r : Nat}, (sortBy key l)[r]? = some x → rank key l x = r := fun here =>
    (rank_perm (sortBy_perm key l) x).symm.trans (rank_of_pairwise (pairwise_sortBy distinct) here)
  constructor
  · intro here
    exact ⟨(sortBy_perm key l).mem_iff.mp (List.mem_of_getElem? here), position here⟩
  · rintro ⟨listed, rfl⟩
    obtain ⟨r, here⟩ := List.getElem?_of_mem ((sortBy_perm key l).mem_iff.mpr listed)
    rw [position here]
    exact here

theorem rank_lt_of_lt {x y : α} (listed : x ∈ l) (before : key x < key y) : rank key l x < rank key l y := by
  obtain ⟨front, back, rfl⟩ := List.append_of_mem listed
  have mono : ∀ part : List α, rank key part x ≤ rank key part y := fun part =>
    List.countP_mono_left (fun z _ earlier =>
      decide_eq_true (lt_trans (of_decide_eq_true earlier) before))
  have tail : rank key (x :: back) x < rank key (x :: back) y := by
    rw [rank_cons, rank_cons, if_neg (lt_irrefl _), if_pos before]
    exact Nat.lt_succ_of_le (mono back)
  rw [rank_append, rank_append]
  exact Nat.add_lt_add_of_le_of_lt (mono front) tail

/-- A page cut from the front of a scan is the page of the whole exactly if none of the earliest elements up to
its end comes later in the scan than one place after it. -/
theorem page_take_eq_iff {scan : List α} (distinct : (scan.map key).Nodup) {offset size : Nat}
    (positive : 0 < size) (inside : offset + size < scan.length) :
    ((sortBy key (scan.take (offset + size + 1))).drop offset).take size =
        ((sortBy key scan).drop offset).take size ↔
      ∀ y ∈ scan.drop (offset + size + 1), offset + size ≤ rank key scan y := by
  have parts := List.take_append_drop (offset + size + 1) scan
  have ranks : ∀ x, rank key scan x =
      rank key (scan.take (offset + size + 1)) x + rank key (scan.drop (offset + size + 1)) x := by
    intro x
    rw [← rank_append, parts]
  have front : ((scan.take (offset + size + 1)).map key).Nodup :=
    distinct.sublist ((List.take_sublist _ _).map key)
  constructor
  · intro same y later
    -- the last element of the page has as many elements before it in the front as in the whole
    have last : (sortBy key (scan.take (offset + size + 1)))[offset + (size - 1)]? =
        (sortBy key scan)[offset + (size - 1)]? := by
      have here := congrArg (·[size - 1]?) same
      rw [List.getElem?_take_of_lt (by omega), List.getElem?_take_of_lt (by omega), List.getElem?_drop,
        List.getElem?_drop] at here
      exact here
    have bound : offset + (size - 1) < (sortBy key scan).length := by
      rw [length_sortBy]
      omega
    obtain ⟨x, held⟩ : ∃ x, (sortBy key scan)[offset + (size - 1)]? = some x :=
      ⟨_, List.getElem?_eq_getElem bound⟩
    obtain ⟨listed, whole⟩ := (getElem?_sortBy_iff distinct).mp held
    obtain ⟨inFront, part⟩ := (getElem?_sortBy_iff front).mp (last.trans held)
    have none : rank key (scan.drop (offset + size + 1)) x = 0 := by
      have split := ranks x
      omega
    have notBefore : ¬key y < key x := fun before =>
      List.countP_eq_zero.mp none y later (decide_eq_true before)
    have apart : key x ≠ key y := by
      rw [← parts, List.map_append, List.nodup_append] at distinct
      exact distinct.2.2 _ (List.mem_map_of_mem inFront) _ (List.mem_map_of_mem later)
    have after := rank_lt_of_lt listed (lt_of_le_of_ne (not_lt.mp notBefore) apart)
    omega
  · intro late
    refine List.ext_getElem? (fun r => ?_)
    by_cases onPage : r < size
    · rw [List.getElem?_take_of_lt onPage, List.getElem?_take_of_lt onPage, List.getElem?_drop,
        List.getElem?_drop]
      have bound : offset + r < (sortBy key scan).length := by
        rw [length_sortBy]
        omega
      obtain ⟨x, held⟩ : ∃ x, (sortBy key scan)[offset + r]? = some x := ⟨_, List.getElem?_eq_getElem bound⟩
      obtain ⟨listed, whole⟩ := (getElem?_sortBy_iff distinct).mp held
      have none : rank key (scan.drop (offset + size + 1)) x = 0 := by
        refine List.countP_eq_zero.mpr (fun y later before => ?_)
        have behind := late y later
        have ahead := rank_lt_of_lt (List.mem_of_mem_drop later) (of_decide_eq_true before)
        omega
      have inFront : x ∈ scan.take (offset + size + 1) := by
        rw [← parts, List.mem_append] at listed
        refine listed.resolve_right (fun later => ?_)
        have behind := late x later
        omega
      rw [held, getElem?_sortBy_iff front]
      refine ⟨inFront, ?_⟩
      have split := ranks x
      omega
    · rw [List.getElem?_eq_none (by rw [List.length_take]; omega),
        List.getElem?_eq_none (by rw [List.length_take]; omega)]

/-- The earliest elements of a list are those of an ordered listing of it, and there is one such listing. -/
theorem eq_sortBy_iff (distinct : (l.map key).Nodup) {events : List α} :
    (events.Perm l ∧ events.Pairwise (fun a b => key a < key b)) ↔ events = sortBy key l := by
  constructor
  · rintro ⟨perm, ordered⟩
    refine (perm.trans (sortBy_perm key l).symm).eq_of_pairwise ?_ ordered (pairwise_sortBy distinct)
    intro a b _ _ first second
    exact absurd first (lt_asymm second)
  · rintro rfl
    exact ⟨sortBy_perm key l, pairwise_sortBy distinct⟩

end Sorting

section Reading

variable {α : Type} (pageAt : Nat → List α) (more : Nat → Bool) (size : Nat)

def readFrom : Nat → Nat → Option (List α)
  | 0, _ => none
  | fuel + 1, offset =>
    if more offset then (readFrom fuel (offset + size)).map (pageAt offset ++ ·)
    else some (pageAt offset)

variable {pageAt more size}

/-- The pages that are read make up a list exactly if each page is its part of the list. -/
theorem exists_readFrom_iff {target : List α} (positive : 0 < size)
    (mores : ∀ offset, more offset = true ↔ offset + size < target.length)
    (lengths : ∀ offset, more offset = true → (pageAt offset).length = size)
    (last : ∀ offset, more offset = false → pageAt offset = target.drop offset) (offset : Nat) :
    (∃ fuel, readFrom pageAt more size fuel offset = some (target.drop offset)) ↔
      ∀ k, offset + k * size + size < target.length →
        pageAt (offset + k * size) = (target.drop (offset + k * size)).take size := by
  induction left : target.length - offset using Nat.strong_induction_on generalizing offset with
  | _ left ih =>
    cases here : more offset with
    | false =>
      have beyond : ¬offset + size < target.length := fun inside => by
        rw [(mores offset).mpr inside] at here
        cases here
      refine iff_of_true ⟨1, by rw [readFrom, here, last offset here]; rfl⟩ (fun k inside => ?_)
      exact absurd (lt_of_le_of_lt (by omega) inside) beyond
    | true =>
      have inside := (mores offset).mp here
      have rest := ih (target.length - (offset + size)) (by omega) (offset + size) rfl
      have whole : target.drop offset = (target.drop offset).take size ++ target.drop (offset + size) := by
        rw [← List.drop_drop, List.take_append_drop]
      constructor
      · rintro ⟨fuel, read⟩ k
        cases fuel with
        | zero => cases read
        | succ fuel =>
          rw [readFrom, here, if_pos rfl] at read
          obtain ⟨pages, later, joined⟩ := Option.map_eq_some_iff.mp read
          rw [whole] at joined
          obtain ⟨first, others⟩ := List.append_inj joined (by
            rw [lengths offset here, List.length_take, List.length_drop]
            omega)
          cases k with
          | zero =>
            intro _
            rw [Nat.zero_mul, Nat.add_zero]
            exact first
          | succ k =>
            have pages := rest.mp ⟨fuel, by rw [later, others]⟩ k
            rw [Nat.succ_mul, Nat.add_comm (k * size), ← Nat.add_assoc]
            exact pages
      · intro pages
        have first := pages 0 (by omega)
        rw [Nat.zero_mul, Nat.add_zero] at first
        obtain ⟨fuel, later⟩ := rest.mpr (fun k below => by
          have page := pages (k + 1)
          rw [Nat.succ_mul, Nat.add_comm (k * size), ← Nat.add_assoc] at page
          exact page below)
        refine ⟨fuel + 1, ?_⟩
        rw [readFrom, here, if_pos rfl, later, Option.map_some, first, ← whole]

end Reading

end PrefixPages
