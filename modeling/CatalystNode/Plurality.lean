import CatalystNode.CanonicalList
import CatalystNode.FoldTrace

namespace Plurality

open CanonicalList FoldTrace

variable {ι κ : Type} [LinearOrder ι] [LinearOrder κ]

def tally (ballots : List (ι × κ)) : Std.ExtTreeMap κ (List ι) :=
  ballots.foldl (fun counts b => counts.insert b.2 (counts.getD b.2 [] ++ [b.1])) ∅

def voters (ballots : List (ι × κ)) : Std.ExtTreeMap κ (List ι) :=
  (tally ballots).map (fun _ ids => sortDedup ids)

/-- A choice replaces the best one so far if it has more voters, or as many and a smaller name. -/
def bestStep (best : Option κ × List ι) (entry : κ × List ι) : Option κ × List ι :=
  if best.2.length < entry.2.length then (some entry.1, entry.2)
  else if entry.2.length = best.2.length ∧ best.1.elim true (fun h => entry.1 < h) then
    (some entry.1, entry.2)
  else best

def plurality (ballots : List (ι × κ)) : Option κ × List ι :=
  (voters ballots).toList.foldl bestStep (none, [])

omit [LinearOrder ι] in
theorem getD_tally (ballots : List (ι × κ)) (choice : κ) :
    ((tally ballots)[choice]?).getD [] =
      (ballots.filter (fun b => b.2 = choice)).map Prod.fst := by
  suffices general : ∀ counts : Std.ExtTreeMap κ (List ι),
      ((ballots.foldl (fun counts b => counts.insert b.2 (counts.getD b.2 [] ++ [b.1]))
        counts)[choice]?).getD [] =
      (counts[choice]?).getD [] ++ (ballots.filter (fun b => b.2 = choice)).map Prod.fst by
    simpa [tally] using general ∅
  induction ballots with
  | nil => simp
  | cons b ballots ih =>
    intro counts
    rw [List.foldl_cons, ih, Std.ExtTreeMap.getElem?_insert]
    by_cases same : b.2 = choice
    · subst same
      simp [Std.ExtTreeMap.getD_eq_getD_getElem?]
    · simp [same]

omit [LinearOrder ι] in
theorem mem_tally {ballots : List (ι × κ)} {choice : κ} :
    choice ∈ tally ballots ↔ ∃ a, (a, choice) ∈ ballots := by
  suffices general : ∀ counts : Std.ExtTreeMap κ (List ι),
      choice ∈ ballots.foldl (fun counts b => counts.insert b.2 (counts.getD b.2 [] ++ [b.1]))
        counts ↔ choice ∈ counts ∨ ∃ a, (a, choice) ∈ ballots by
    simpa [tally] using general ∅
  induction ballots with
  | nil => simp
  | cons b ballots ih =>
    intro counts
    rw [List.foldl_cons, ih, Std.ExtTreeMap.mem_insert, compare_eq_iff_eq]
    constructor
    · rintro ((rfl | before) | ⟨a, later⟩)
      · exact Or.inr ⟨b.1, List.mem_cons_self⟩
      · exact Or.inl before
      · exact Or.inr ⟨a, List.mem_cons_of_mem _ later⟩
    · rintro (before | ⟨a, cast⟩)
      · exact Or.inl (Or.inr before)
      · rcases List.mem_cons.mp cast with rfl | later
        · exact Or.inl (Or.inl rfl)
        · exact Or.inr ⟨a, later⟩

theorem getElem?_voters {ballots : List (ι × κ)} {choice : κ} {ids : List ι}
    (h : (voters ballots)[choice]? = some ids) :
    ids.Nodup ∧ ∀ a, a ∈ ids ↔ (a, choice) ∈ ballots := by
  rw [voters, Std.ExtTreeMap.getElem?_map] at h
  obtain ⟨listed, hlisted, rfl⟩ := Option.map_eq_some_iff.mp h
  have ballotsOf := getD_tally ballots choice
  rw [hlisted, Option.getD_some] at ballotsOf
  refine ⟨nodup_sortDedup listed, ?_⟩
  intro a
  rw [mem_sortDedup, ballotsOf]
  constructor
  · intro ha
    obtain ⟨b, hb, rfl⟩ := List.mem_map.mp ha
    obtain ⟨hb, choice⟩ := List.mem_filter.mp hb
    rw [← of_decide_eq_true choice]
    exact hb
  · intro ha
    exact List.mem_map.mpr ⟨(a, choice), List.mem_filter.mpr ⟨ha, by simp⟩, rfl⟩

theorem plurality_eq_some {ballots : List (ι × κ)} {choice : κ} {ids : List ι}
    (h : plurality ballots = (some choice, ids)) :
    ids.Nodup ∧ ∀ a, a ∈ ids ↔ (a, choice) ∈ ballots := by
  have listed : ∀ c, (plurality ballots).1 = some c →
      (c, (plurality ballots).2) ∈ (voters ballots).toList := by
    refine foldl_invariant (P := fun best : Option κ × List ι =>
      ∀ c, best.1 = some c → (c, best.2) ∈ (voters ballots).toList) (by simp) ?_
    intro best entry hstep before c hc
    have member := mem_of_mem_foldSteps hstep
    unfold bestStep at hc ⊢
    split
    next longer =>
      rw [if_pos longer] at hc
      cases Option.some.inj hc
      exact member
    next shorter =>
      rw [if_neg shorter] at hc
      split
      next tied =>
        rw [if_pos tied] at hc
        cases Option.some.inj hc
        exact member
      next kept =>
        rw [if_neg kept] at hc
        exact before c hc
  rw [h] at listed
  exact getElem?_voters (Std.ExtTreeMap.mem_toList_iff_getElem?_eq_some.mp (listed choice rfl))

def supporters (ballots : List (ι × κ)) (choice : κ) : Finset ι :=
  ((ballots.filter (fun b => b.2 = choice)).map Prod.fst).toFinset

theorem mem_supporters {ballots : List (ι × κ)} {choice : κ} {a : ι} :
    a ∈ supporters ballots choice ↔ (a, choice) ∈ ballots := by
  simp [supporters]

theorem length_eq_card_supporters {ballots : List (ι × κ)} {choice : κ} {ids : List ι}
    (distinct : ids.Nodup) (cast : ∀ a, a ∈ ids ↔ (a, choice) ∈ ballots) :
    ids.length = (supporters ballots choice).card := by
  have same : supporters ballots choice = ids.toFinset := by
    ext a
    rw [mem_supporters, List.mem_toFinset, cast]
  rw [same, List.toFinset_card_of_nodup distinct]

theorem mem_voters {ballots : List (ι × κ)} {choice : κ} :
    choice ∈ voters ballots ↔ ∃ a, (a, choice) ∈ ballots := by
  rw [voters, Std.ExtTreeMap.mem_map, mem_tally]

theorem ne_nil_of_mem_voters {ballots : List (ι × κ)} {entry : κ × List ι}
    (h : entry ∈ (voters ballots).toList) : entry.2 ≠ [] := by
  have listed : (voters ballots)[entry.1]? = some entry.2 :=
    Std.ExtTreeMap.mem_toList_iff_getElem?_eq_some.mp h
  have present : entry.1 ∈ voters ballots :=
    Std.ExtTreeMap.mem_iff_isSome_getElem?.mpr (by rw [listed]; rfl)
  obtain ⟨a, cast⟩ := mem_voters.mp present
  exact List.ne_nil_of_mem (((getElem?_voters listed).2 a).mpr cast)

def standing (entry : κ × List ι) : ℕ ×ₗ κᵒᵈ := toLex (entry.2.length, OrderDual.toDual entry.1)

omit [LinearOrder ι] in
theorem bestStep_some (entry best : κ × List ι) :
    bestStep (some best.1, best.2) entry =
      if standing best < standing entry then (some entry.1, entry.2)
      else (some best.1, best.2) := by
  have order : standing best < standing entry ↔ best.2.length < entry.2.length ∨
      best.2.length = entry.2.length ∧ entry.1 < best.1 :=
    Prod.Lex.toLex_lt_toLex
  simp only [bestStep, order, Option.elim_some, decide_eq_true_eq]
  by_cases longer : best.2.length < entry.2.length
  · simp [longer]
  · simp only [longer, if_false, false_or, eq_comm]

omit [LinearOrder ι] in
/-- The running best of choices with at least one voter each is the one of highest standing. -/
theorem foldl_bestStep {entries : List (κ × List ι)} (supported : ∀ e ∈ entries, e.2 ≠ []) :
    entries.foldl bestStep (none, []) =
      (entries.argmax standing).elim (none, []) (fun e => (some e.1, e.2)) := by
  induction entries using List.reverseRecOn with
  | nil => rfl
  | append_singleton entries e ih =>
    rw [List.foldl_append, List.foldl_cons, List.foldl_nil, List.argmax_concat,
      ih (fun e he => supported e (List.mem_append_left _ he))]
    cases entries.argmax standing with
    | none =>
      have some : 0 < e.2.length := List.length_pos_iff.mpr (supported e (by simp))
      simp [bestStep, some]
    | some best =>
      rw [Option.elim_some, bestStep_some]
      dsimp only
      split <;> rfl

theorem plurality_eq_argmax (ballots : List (ι × κ)) :
    plurality ballots =
      ((voters ballots).toList.argmax standing).elim (none, []) (fun e => (some e.1, e.2)) :=
  foldl_bestStep (fun _ => ne_nil_of_mem_voters)

theorem plurality_eq_none {ballots : List (ι × κ)} (h : (plurality ballots).1 = none) :
    ballots = [] := by
  rw [plurality_eq_argmax] at h
  cases best : (voters ballots).toList.argmax standing with
  | some e => simp [best] at h
  | none =>
    rw [List.argmax_eq_none] at best
    refine List.eq_nil_iff_forall_not_mem.mpr (fun b cast => ?_)
    have present : b.2 ∈ voters ballots := mem_voters.mpr ⟨b.1, cast⟩
    have listed := Std.ExtTreeMap.mem_toList_iff_getElem?_eq_some.mpr
      (Std.ExtTreeMap.getElem?_eq_some_getElem present)
    simp [best] at listed

theorem plurality_best {ballots : List (ι × κ)} {choice other : κ} {ids : List ι}
    (h : plurality ballots = (some choice, ids)) (apart : other ≠ choice) :
    (supporters ballots other).card < (supporters ballots choice).card ∨
      (supporters ballots other).card = (supporters ballots choice).card ∧ choice < other := by
  obtain ⟨distinct, cast⟩ := plurality_eq_some h
  rw [← length_eq_card_supporters distinct cast]
  rw [plurality_eq_argmax] at h
  cases best : (voters ballots).toList.argmax standing with
  | none => simp [best] at h
  | some e =>
    obtain ⟨rfl, rfl⟩ : e.1 = choice ∧ e.2 = ids := by simpa [best] using h
    by_cases present : other ∈ voters ballots
    · have counted := Std.ExtTreeMap.getElem?_eq_some_getElem present
      obtain ⟨distinct', cast'⟩ := getElem?_voters counted
      rw [← length_eq_card_supporters distinct' cast']
      have below : standing (other, _) ≤ standing e :=
        List.le_of_mem_argmax (Std.ExtTreeMap.mem_toList_iff_getElem?_eq_some.mpr counted) best
      rcases Prod.Lex.toLex_le_toLex.mp below with fewer | ⟨tied, larger⟩
      · exact Or.inl fewer
      · exact Or.inr ⟨tied, lt_of_le_of_ne (OrderDual.toDual_le_toDual.mp larger) apart.symm⟩
    · have nobody : supporters ballots other = ∅ := by
        refine Finset.eq_empty_of_forall_notMem (fun a ha => present ?_)
        exact mem_voters.mpr ⟨a, mem_supporters.mp ha⟩
      left
      rw [nobody, Finset.card_empty]
      exact List.length_pos_iff.mpr (ne_nil_of_mem_voters (List.argmax_mem best))

end Plurality
