import Mathlib

namespace Overlay

section Records

variable {κ ν : Type} [DecidableEq κ]

def lastOf : List (κ × ν) → κ → Option ν
  | [], _ => none
  | r :: records, k => (lastOf records k).or (if r.1 = k then some r.2 else none)

theorem mem_of_lastOf {records : List (κ × ν)} {k : κ} {v : ν} (h : lastOf records k = some v) :
    (k, v) ∈ records := by
  induction records with
  | nil => simp [lastOf] at h
  | cons r records ih =>
    rw [lastOf, Option.or_eq_some_iff] at h
    rcases h with later | ⟨-, here⟩
    · exact List.mem_cons_of_mem r (ih later)
    · split at here
      next same =>
        cases Option.some.inj here
        cases same
        exact List.mem_cons_self
      next => simp at here

theorem lastOf_of_mem {records : List (κ × ν)} (distinct : (records.map Prod.fst).Nodup) {k : κ}
    {v : ν} (h : (k, v) ∈ records) : lastOf records k = some v := by
  induction records with
  | nil => simp at h
  | cons r records ih =>
    rw [List.map_cons, List.nodup_cons] at distinct
    rcases List.mem_cons.mp h with rfl | later
    · have single : lastOf records k = none := by
        cases found : lastOf records k with
        | none => rfl
        | some w => exact absurd (List.mem_map_of_mem (f := Prod.fst) (mem_of_lastOf found)) distinct.1
      rw [lastOf, single, if_pos rfl]
      rfl
    · rw [lastOf, ih distinct.2 later]
      rfl

theorem lastOf_append (records later : List (κ × ν)) (k : κ) :
    lastOf (records ++ later) k = (lastOf later k).or (lastOf records k) := by
  induction records with
  | nil => rw [List.nil_append, lastOf, Option.or_none]
  | cons r records ih => rw [List.cons_append, lastOf, ih, lastOf, Option.or_assoc]

theorem lastOf_eq_none {records : List (κ × ν)} {k : κ} (others : ∀ r ∈ records, r.1 ≠ k) :
    lastOf records k = none := by
  cases found : lastOf records k with
  | none => rfl
  | some v => exact absurd rfl (others (k, v) (mem_of_lastOf found))

theorem lastOf_map {κ' ν' : Type} [DecidableEq κ'] {f : κ → κ'} (inj : Function.Injective f) (g : ν → ν')
    (records : List (κ × ν)) (k : κ) :
    lastOf (records.map (fun r => (f r.1, g r.2))) (f k) = (lastOf records k).map g := by
  induction records with
  | nil => rfl
  | cons r records ih =>
    rw [List.map_cons, lastOf, ih, lastOf, Option.map_or]
    simp only [inj.eq_iff]
    split <;> rfl

theorem lastOf_flatMap_eq_none {α : Type} {writes : α → List (κ × ν)} {l : List α} {k : κ}
    (none : ∀ a ∈ l, lastOf (writes a) k = none) : lastOf (l.flatMap writes) k = .none := by
  induction l with
  | nil => rfl
  | cons a l ih =>
    rw [List.flatMap_cons, lastOf_append, ih (fun b hb => none b (List.mem_cons_of_mem a hb)),
      none a List.mem_cons_self, Option.or_none]

/-- If only one element of a list writes to a key, then the key holds what that one writes last. -/
theorem lastOf_flatMap {α : Type} {writes : α → List (κ × ν)} {l : List α} {a : α} {k : κ} (listed : a ∈ l)
    (others : ∀ b ∈ l, b ≠ a → lastOf (writes b) k = none) :
    lastOf (l.flatMap writes) k = lastOf (writes a) k := by
  classical
  induction l with
  | nil => cases listed
  | cons b l ih =>
    rw [List.flatMap_cons, lastOf_append]
    by_cases later : a ∈ l
    · rw [ih later (fun c hc => others c (List.mem_cons_of_mem b hc))]
      by_cases here : b = a
      · rw [here, Option.or_self]
      · rw [others b List.mem_cons_self here, Option.or_none]
    · have none : lastOf (l.flatMap writes) k = none := lastOf_flatMap_eq_none (fun c hc =>
        others c (List.mem_cons_of_mem b hc) (fun same => later (same ▸ hc)))
      rw [none, Option.none_or, (List.mem_cons.mp listed).resolve_right later]

end Records

section Maps

variable {κ ν : Type} [Ord κ] [Std.TransOrd κ]

def overlay (m : Std.ExtTreeMap κ ν) (records : List (κ × ν)) : Std.ExtTreeMap κ ν :=
  records.foldl (fun m r => m.insert r.1 r.2) m

def revise (m : Std.ExtTreeMap κ ν) (records : List (κ × Option ν)) : Std.ExtTreeMap κ ν :=
  records.foldl (fun m r => r.2.elim (m.erase r.1) (m.insert r.1)) m

variable [Std.LawfulEqOrd κ] [DecidableEq κ]

theorem getElem?_overlay (m : Std.ExtTreeMap κ ν) (records : List (κ × ν)) (k : κ) :
    (overlay m records)[k]? = (lastOf records k).or m[k]? := by
  induction records generalizing m with
  | nil => rfl
  | cons r records ih =>
    rw [overlay, List.foldl_cons, ← overlay, ih, lastOf, Std.ExtTreeMap.getElem?_insert,
      Option.or_assoc]
    simp only [Std.LawfulEqCmp.compare_eq_iff_eq]
    split <;> rfl

theorem getElem?_revise (m : Std.ExtTreeMap κ ν) (records : List (κ × Option ν)) (k : κ) :
    (revise m records)[k]? = (lastOf records k).getD m[k]? := by
  induction records generalizing m with
  | nil => rfl
  | cons r records ih =>
    have first : (r.2.elim (m.erase r.1) (m.insert r.1))[k]? =
        (if r.1 = k then some r.2 else none).getD m[k]? := by
      cases r.2 with
      | none =>
        rw [Option.elim_none, Std.ExtTreeMap.getElem?_erase]
        simp only [Std.LawfulEqCmp.compare_eq_iff_eq]
        split <;> rfl
      | some v =>
        rw [Option.elim_some, Std.ExtTreeMap.getElem?_insert]
        simp only [Std.LawfulEqCmp.compare_eq_iff_eq]
        split <;> rfl
    rw [revise, List.foldl_cons, ← revise, ih, lastOf, first, Option.getD_or]

theorem getElem?_foldl_insert {α : Type} {key : α → κ} {value : α → ν} {f : κ → ν} {l : List α}
    (agree : ∀ a ∈ l, value a = f (key a)) (k : κ) :
    (l.foldl (fun m a => m.insert (key a) (value a)) (∅ : Std.ExtTreeMap κ ν))[k]? =
      if k ∈ l.map key then some (f k) else none := by
  induction l using List.reverseRecOn with
  | nil => simp
  | append_singleton l a ih =>
    rw [List.foldl_concat, Std.ExtTreeMap.getElem?_insert, agree a (by simp),
      ih (fun a ha => agree a (List.mem_append_left _ ha))]
    simp only [Std.LawfulEqCmp.compare_eq_iff_eq, List.map_append, List.map_cons, List.map_nil,
      List.mem_append, List.mem_singleton]
    by_cases same : key a = k
    · rw [if_pos same, if_pos (Or.inr same.symm), same]
    · rw [if_neg same]
      simp only [Ne.symm same, or_false]

theorem lastOf_toList (m : Std.ExtTreeMap κ ν) (k : κ) : lastOf m.toList k = m[k]? := by
  have distinct : (m.toList.map Prod.fst).Nodup := by
    rw [Std.ExtTreeMap.map_fst_toList_eq_keys]
    exact Std.ExtTreeMap.nodup_keys
  cases held : m[k]? with
  | some v => exact lastOf_of_mem distinct (Std.ExtTreeMap.mem_toList_iff_getElem?_eq_some.mpr held)
  | none =>
    cases found : lastOf m.toList k with
    | none => rfl
    | some v =>
      have present := Std.ExtTreeMap.mem_toList_iff_getElem?_eq_some.mp (mem_of_lastOf found)
      rw [held] at present
      exact absurd present (by simp)

omit [DecidableEq κ] in
theorem lastOf_flatMap_toList {α : Type} {m : Std.ExtTreeMap κ α} {κ' : Type} [DecidableEq κ']
    {writes : κ × α → List (κ' × ν)} {place : κ} {k : κ'}
    (others : ∀ entry, entry.1 ≠ place → lastOf (writes entry) k = none) :
    lastOf (m.toList.flatMap writes) k = m[place]?.bind (fun a => lastOf (writes (place, a)) k) := by
  cases held : m[place]? with
  | none =>
    refine lastOf_flatMap_eq_none (fun entry listed => others entry ?_)
    rintro rfl
    have found := Std.ExtTreeMap.mem_toList_iff_getElem?_eq_some.mp listed
    rw [held] at found
    cases found
  | some a =>
    refine lastOf_flatMap (Std.ExtTreeMap.mem_toList_iff_getElem?_eq_some.mpr held) ?_
    intro entry listed apart
    refine others entry (fun same => apart (Prod.ext same ?_))
    have found := Std.ExtTreeMap.mem_toList_iff_getElem?_eq_some.mp listed
    rw [same, held] at found
    exact (Option.some.inj found).symm

/-- A map written from its own list over another one keeps only what the other had beside it. -/
theorem overlay_toList_eq_iff (m live : Std.ExtTreeMap κ ν) :
    overlay live m.toList = m ↔ ∀ k ∈ live, k ∈ m := by
  constructor
  · intro same k present
    rw [← same, Std.ExtTreeMap.mem_iff_isSome_getElem?, getElem?_overlay, Option.isSome_or,
      Std.ExtTreeMap.mem_iff_isSome_getElem?.mp present, Bool.or_true]
  · intro covered
    apply Std.ExtTreeMap.ext_getElem?
    intro k
    rw [getElem?_overlay, lastOf_toList]
    cases held : m[k]? with
    | some v => rfl
    | none =>
      have missing : k ∉ live := fun present =>
        absurd (Std.ExtTreeMap.mem_iff_isSome_getElem?.mp (covered k present)) (by simp [held])
      exact Std.ExtTreeMap.getElem?_eq_none missing

/-- Records that build a map from nothing weigh at least as much as the map. -/
theorem sum_toList_le_of_overlay {m : Std.ExtTreeMap κ ν} {records : List (κ × ν)}
    (same : overlay ∅ records = m) (weight : κ × ν → Nat) :
    (m.toList.map weight).sum ≤ (records.map weight).sum := by
  have contained : m.toList ⊆ records := by
    rintro ⟨k, v⟩ h
    have held := Std.ExtTreeMap.mem_toList_iff_getElem?_eq_some.mp h
    rw [← same, getElem?_overlay, Std.ExtTreeMap.getElem?_empty, Option.or_none] at held
    exact mem_of_lastOf held
  have distinct : m.toList.Nodup := by
    apply List.Nodup.of_map Prod.fst
    rw [Std.ExtTreeMap.map_fst_toList_eq_keys]
    exact Std.ExtTreeMap.nodup_keys
  obtain ⟨part, same', sub⟩ := List.subperm_of_subset distinct contained
  rw [← (same'.map weight).sum_eq]
  exact (sub.map weight).sum_le_sum (fun _ _ => Nat.zero_le _)

end Maps

end Overlay
