import CatalystNode.DirectedPaths

namespace DenseTree

open SparseTree

variable {α σ : Type} (node : α → α → α)

def pairUp : List α → List α
  | [] => []
  | [last] => [node last last]
  | left :: right :: rest => node left right :: pairUp rest

def collapse : ℕ → List α → List α
  | 0, level => level
  | fuel + 1, level => if 1 < level.length then collapse fuel (pairUp node level) else level

/-- The value that a position is paired with, which is its own at the end of an odd level. Nothing if
the position is outside of the level. -/
def partner (level : List α) (i : ℕ) : Option α :=
  (level[if i % 2 = 1 then i - 1 else i + 1]?).or level[i]?

/-- Levels are built as before, and for a position on the way up it is noted on which side its partner
stands. -/
def collapseWith (note : Bool → α → σ) : ℕ → ℕ → List α → List σ → Option (List α × List σ)
  | 0, _, level, notes => some (level, notes)
  | fuel + 1, i, level, notes =>
    if 1 < level.length then
      (partner level i).bind (fun sibling =>
        collapseWith note fuel (i / 2) (pairUp node level) (notes ++ [note (decide (i % 2 = 1)) sibling]))
    else some (level, notes)

theorem length_pairUp (level : List α) : (pairUp node level).length = (level.length + 1) / 2 := by
  fun_induction pairUp node level with
  | case1 => simp
  | case2 last => simp
  | case3 left right rest ih =>
    rw [List.length_cons, ih, List.length_cons, List.length_cons]
    omega

theorem getElem?_pairUp {level : List α} {i : ℕ} {cur : α} (here : level[i]? = some cur) :
    ∃ sibling, partner level i = some sibling ∧
      (pairUp node level)[i / 2]? = some (ascend node cur [(decide (i % 2 = 1), sibling)]) := by
  fun_induction pairUp node level generalizing i with
  | case1 => cases here
  | case2 last =>
    cases i with
    | zero =>
      cases here
      exact ⟨cur, rfl, rfl⟩
    | succ i => cases here
  | case3 left right rest ih =>
    rcases i with _ | _ | i
    · cases here
      exact ⟨right, rfl, rfl⟩
    · cases here
      exact ⟨left, rfl, rfl⟩
    · obtain ⟨sibling, paired, above⟩ := ih here
      refine ⟨sibling, ?_, ?_⟩
      · rw [← paired, partner, partner]
        congr 1
        by_cases odd : i % 2 = 1
        · rw [if_pos (show (i + 1 + 1) % 2 = 1 by omega), if_pos odd,
            show i + 1 + 1 - 1 = i - 1 + 1 + 1 by omega]
          rfl
        · rw [if_neg (show ¬ (i + 1 + 1) % 2 = 1 by omega), if_neg odd]
          rfl
      · rw [show (i + 1 + 1) / 2 = i / 2 + 1 by omega, show (i + 1 + 1) % 2 = i % 2 by omega]
        exact above

theorem collapseWith_single (note : Bool → α → σ) (fuel : ℕ) {i : ℕ} {level : List α} {cur : α}
    (notes : List σ) (single : level.length = 1) (here : level[i]? = some cur) :
    collapseWith node note fuel i level notes = some ([cur], notes) ∧ collapse node fuel level = [cur] := by
  obtain ⟨only, rfl⟩ := List.length_eq_one_iff.mp single
  obtain rfl : i = 0 := by simpa using (List.getElem?_eq_some_iff.mp here).1
  cases here
  cases fuel with
  | zero => exact ⟨rfl, rfl⟩
  | succ fuel => exact ⟨rfl, rfl⟩

/-- From every position of a level the noted partners lead up to the one value that remains. -/
theorem collapseWith_eq (note : Bool → α → σ) {fuel i : ℕ} {level : List α} {cur : α} (notes : List σ)
    (enough : level.length ≤ fuel + 1) (here : level[i]? = some cur) :
    ∃ steps, collapseWith node note fuel i level notes =
        some ([ascend node cur steps], notes ++ steps.map (fun step => note step.1 step.2)) ∧
      collapse node fuel level = [ascend node cur steps] := by
  induction fuel generalizing i level cur notes with
  | zero =>
    have inside := (List.getElem?_eq_some_iff.mp here).1
    obtain ⟨noted, root⟩ := collapseWith_single node note 0 notes (by omega) here
    exact ⟨[], by rw [noted, List.map_nil, List.append_nil, ascend], root⟩
  | succ fuel ih =>
    by_cases more : 1 < level.length
    · obtain ⟨sibling, paired, above⟩ := getElem?_pairUp node here
      have halved := length_pairUp node level
      obtain ⟨steps, noted, root⟩ := ih (notes ++ [note (decide (i % 2 = 1)) sibling]) (by omega) above
      refine ⟨(decide (i % 2 = 1), sibling) :: steps, ?_, ?_⟩
      · rw [collapseWith, if_pos more, paired, Option.bind_some, noted, List.append_assoc]
        rfl
      · rw [collapse, if_pos more, root]
        rfl
    · have inside := (List.getElem?_eq_some_iff.mp here).1
      obtain ⟨noted, root⟩ := collapseWith_single node note (fuel + 1) notes (by omega) here
      exact ⟨[], by rw [noted, List.map_nil, List.append_nil, ascend], root⟩

section Separation

variable {node}

def pairs : List α → List (α × α)
  | [] => []
  | [last] => [(last, last)]
  | left :: right :: rest => (left, right) :: pairs rest

inductive Combined (node : α → α → α) : List α → α × α → Prop
  | here {l : List α} {p : α × α} : 1 < l.length → p ∈ pairs l → Combined node l p
  | above {l : List α} {p : α × α} : 1 < l.length → Combined node (pairUp node l) p → Combined node l p

theorem combined_pair_iff {a b : α} {p : α × α} : Combined node [a, b] p ↔ p = (a, b) := by
  constructor
  · intro combined
    cases combined with
    | here _ listed => exact List.mem_singleton.mp listed
    | above _ later => cases later <;> contradiction
  · rintro rfl
    exact .here (Nat.lt_succ_self 1) List.mem_cons_self

inductive Reaches (node : α → α → α) : List α → List α → Prop
  | refl (l : List α) : Reaches node l l
  | step {l l' : List α} : 1 < l.length → Reaches node (pairUp node l) l' → Reaches node l l'

theorem pairUp_eq_map (l : List α) : pairUp node l = (pairs l).map (fun p => node p.1 p.2) := by
  fun_induction pairs l with
  | case1 => rfl
  | case2 last => rfl
  | case3 left right rest ih => rw [pairUp, ih, List.map_cons]

theorem map_fst_pairs_sublist (l : List α) : ((pairs l).map Prod.fst).Sublist l := by
  fun_induction pairs l with
  | case1 => exact List.Sublist.refl _
  | case2 last => exact List.Sublist.refl _
  | case3 left right rest ih => exact (ih.cons right).cons_cons left

/-- Only a repeated last value could hide behind the pairs. -/
theorem pairs_inj {l l' : List α} (distinct : l.Nodup) (distinct' : l'.Nodup) (same : pairs l = pairs l') :
    l = l' := by
  fun_induction pairs l generalizing l' with
  | case1 =>
    rcases l' with _ | ⟨a, _ | ⟨b, rest⟩⟩
    · rfl
    all_goals cases same
  | case2 last =>
    rcases l' with _ | ⟨a, _ | ⟨b, rest⟩⟩
    · cases same
    · cases same
      rfl
    · cases (List.cons.inj same).1
      exact absurd List.mem_cons_self (List.nodup_cons.mp distinct').1
  | case3 left right rest ih =>
    rcases l' with _ | ⟨a, _ | ⟨b, rest'⟩⟩
    · cases same
    · cases (List.cons.inj same).1
      exact absurd List.mem_cons_self (List.nodup_cons.mp distinct).1
    · obtain ⟨first, others⟩ := List.cons.inj same
      cases first
      rw [ih distinct.of_cons.of_cons distinct'.of_cons.of_cons others]

theorem reaches_collapse {fuel : ℕ} {l : List α} (filled : l ≠ []) (enough : l.length ≤ fuel + 1) :
    ∃ root, collapse node fuel l = [root] ∧ Reaches node l [root] := by
  have positive := List.length_pos_iff.mpr filled
  induction fuel generalizing l with
  | zero =>
    obtain ⟨root, rfl⟩ := List.length_eq_one_iff.mp (show l.length = 1 by omega)
    exact ⟨root, rfl, .refl _⟩
  | succ fuel ih =>
    rw [collapse]
    split
    next more =>
      have halved := length_pairUp node l
      have filled' : pairUp node l ≠ [] := List.length_pos_iff.mp (by omega)
      obtain ⟨root, reached, way⟩ := ih filled' (by omega) (by omega)
      exact ⟨root, reached, .step more way⟩
    next few =>
      obtain ⟨root, rfl⟩ := List.length_eq_one_iff.mp (show l.length = 1 by omega)
      exact ⟨root, rfl, .refl _⟩

theorem eq_or_node_of_reaches {l l' : List α} (way : Reaches node l l') :
    l = l' ∨ ∀ a ∈ l', ∃ p, Combined node l p ∧ node p.1 p.2 = a := by
  induction way with
  | refl l => exact .inl rfl
  | @step l l' more _ ih =>
    right
    rcases ih with same | nodes
    · intro a listed
      rw [← same, pairUp_eq_map] at listed
      obtain ⟨p, paired, made⟩ := List.mem_map.mp listed
      exact ⟨p, .here more paired, made⟩
    · intro a listed
      obtain ⟨p, combined, made⟩ := nodes a listed
      exact ⟨p, .above more combined, made⟩

variable {S : Set (α × α)} (free : Set.InjOn (fun p => node p.1 p.2) S)

include free

theorem nodup_pairUp {l : List α} (distinct : l.Nodup) (inside : ∀ p ∈ pairs l, p ∈ S) :
    (pairUp node l).Nodup := by
  rw [pairUp_eq_map]
  have apart : (pairs l).Nodup := ((distinct.sublist (map_fst_pairs_sublist l))).of_map
  exact apart.map_on (fun p hp q hq same => free (inside p hp) (inside q hq) same)

theorem pairUp_inj {l l' : List α} (distinct : l.Nodup) (distinct' : l'.Nodup)
    (inside : ∀ p ∈ pairs l, p ∈ S) (inside' : ∀ p ∈ pairs l', p ∈ S)
    (same : pairUp node l = pairUp node l') : l = l' := by
  rw [pairUp_eq_map, pairUp_eq_map] at same
  refine pairs_inj distinct distinct' (List.ext_getElem ?_ (fun i low low' => ?_))
  · simpa using congrArg List.length same
  · have made : node (pairs l)[i].1 (pairs l)[i].2 = node (pairs l')[i].1 (pairs l')[i].2 := by
      simpa [low, low'] using congrArg (·[i]?) same
    exact free (inside _ (List.getElem_mem low)) (inside' _ (List.getElem_mem low')) made

theorem reaches_of_pairUp {l l' : List α} (distinct : l.Nodup) (distinct' : l'.Nodup)
    (inside : ∀ p, Combined node l p → p ∈ S) (inside' : ∀ p ∈ pairs l', p ∈ S) (more : 1 < l.length)
    (way : Reaches node (pairUp node l) (pairUp node l')) : Reaches node l l' := by
  generalize top : pairUp node l = up at way
  generalize top' : pairUp node l' = up' at way
  induction way generalizing l with
  | refl up =>
    rw [pairUp_inj free distinct distinct' (fun p paired => inside p (.here more paired)) inside'
      (top.trans top'.symm)]
    exact .refl l'
  | step more' _ ih =>
    subst top
    exact .step more (ih (nodup_pairUp free distinct (fun p paired => inside p (.here more paired)))
      (fun p combined => inside p (.above more combined)) more' rfl top')

theorem reaches_or_reaches {l l' : List α} {root : α} (distinct : l.Nodup) (distinct' : l'.Nodup)
    (inside : ∀ p, Combined node l p → p ∈ S) (inside' : ∀ p, Combined node l' p → p ∈ S)
    (way : Reaches node l [root]) (way' : Reaches node l' [root]) :
    Reaches node l l' ∨ Reaches node l' l := by
  generalize top : [root] = up at way
  induction way with
  | refl l => exact .inr (top ▸ way')
  | @step l up more _ ih =>
    have here : ∀ p ∈ pairs l, p ∈ S := fun p paired => inside p (.here more paired)
    rcases ih (nodup_pairUp free distinct here) (fun p combined => inside p (.above more combined)) top
      with below | above
    · exact .inl (.step more below)
    · cases above with
      | refl => exact .inl (.step more (.refl _))
      | step more' above => exact .inr (reaches_of_pairUp free distinct' distinct inside' here more' above)

/-- Lists of different values with one root are equal, if no two pairs that are combined agree and none
looks like a value of the lists. -/
theorem eq_of_collapse_eq {l l' : List α} (filled : l ≠ []) (filled' : l' ≠ []) (distinct : l.Nodup)
    (distinct' : l'.Nodup) (inside : ∀ p, Combined node l p → p ∈ S)
    (inside' : ∀ p, Combined node l' p → p ∈ S)
    (apart : ∀ p ∈ S, ∀ a, a ∈ l ∨ a ∈ l' → node p.1 p.2 ≠ a)
    (same : collapse node l.length l = collapse node l'.length l') : l = l' := by
  obtain ⟨root, made, way⟩ := @reaches_collapse _ node _ l filled (Nat.le_succ _)
  obtain ⟨root', made', way'⟩ := @reaches_collapse _ node _ l' filled' (Nat.le_succ _)
  obtain rfl : root = root' := by simpa [made, made'] using same
  rcases reaches_or_reaches free distinct distinct' inside inside' way way' with below | above
  · refine (eq_or_node_of_reaches below).resolve_right (fun nodes => ?_)
    obtain ⟨a, listed⟩ := List.exists_mem_of_ne_nil l' filled'
    obtain ⟨p, combined, value⟩ := nodes a listed
    exact apart p (inside p combined) a (.inr listed) value
  · refine ((eq_or_node_of_reaches above).resolve_right (fun nodes => ?_)).symm
    obtain ⟨a, listed⟩ := List.exists_mem_of_ne_nil l filled
    obtain ⟨p, combined, value⟩ := nodes a listed
    exact apart p (inside' p combined) a (.inl listed) value

end Separation

end DenseTree
