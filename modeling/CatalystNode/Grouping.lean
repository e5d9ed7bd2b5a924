import Mathlib

namespace Grouping

variable {α β κ : Type}

section Labels

variable [DecidableEq κ] {key : α → κ} {parts : List β} {items : β → List α} {label : β → κ}

theorem filter_flatMap_label (keyed : ∀ p ∈ parts, ∀ a ∈ items p, key a = label p)
    (distinct : (parts.map label).Nodup) {p : β} (hp : p ∈ parts) :
    (parts.flatMap items).filter (key · = label p) = items p := by
  induction parts with
  | nil => simp at hp
  | cons q parts ih =>
    rw [List.map_cons, List.nodup_cons] at distinct
    have later := fun p hp => keyed p (List.mem_cons_of_mem q hp)
    rw [List.flatMap_cons, List.filter_append]
    rcases List.mem_cons.mp hp with rfl | hp
    · have whole : (items p).filter (key · = label p) = items p :=
        List.filter_eq_self.mpr (fun a ha => by simpa using keyed p List.mem_cons_self a ha)
      have others : (parts.flatMap items).filter (key · = label p) = [] := by
        rw [List.filter_eq_nil_iff]
        intro a ha
        obtain ⟨q, hq, member⟩ := List.mem_flatMap.mp ha
        rw [decide_eq_true_eq, later q hq a member]
        intro same
        exact distinct.1 (same ▸ List.mem_map_of_mem hq)
      rw [whole, others, List.append_nil]
    · have other : label q ≠ label p := fun same => distinct.1 (same ▸ List.mem_map_of_mem hp)
      have none : (items q).filter (key · = label p) = [] := by
        rw [List.filter_eq_nil_iff]
        intro a ha
        simpa [keyed q List.mem_cons_self a ha] using other
      rw [none, List.nil_append, ih later distinct.2 hp]

end Labels

variable [Ord κ] [Std.TransOrd κ]

def grouped (key : α → κ) (l : List α) : Std.ExtTreeMap κ (List α) :=
  l.foldl (fun m a => m.insert (key a) (m.getD (key a) [] ++ [a])) ∅

def groups (key : α → κ) (l : List α) : List (List α) := (grouped key l).toList.map Prod.snd

variable [Std.LawfulEqOrd κ] [DecidableEq κ]

theorem getElem?_foldl_group (key : α → κ) (l : List α) (m : Std.ExtTreeMap κ (List α)) (k : κ) :
    (l.foldl (fun m a => m.insert (key a) (m.getD (key a) [] ++ [a])) m)[k]? =
      if l.filter (key · = k) = [] then m[k]?
      else some (m[k]?.getD [] ++ l.filter (key · = k)) := by
  induction l generalizing m with
  | nil => simp
  | cons a l ih =>
    rw [List.foldl_cons, ih, Std.ExtTreeMap.getElem?_insert, Std.ExtTreeMap.getD_eq_getD_getElem?]
    simp only [Std.LawfulEqCmp.compare_eq_iff_eq, List.filter_cons, decide_eq_true_eq]
    by_cases same : key a = k
    · subst same
      split
      next none => simp [none]
      next => simp
    · simp [same]

theorem getElem?_grouped (key : α → κ) (l : List α) (k : κ) :
    (grouped key l)[k]? =
      if l.filter (key · = k) = [] then none else some (l.filter (key · = k)) := by
  rw [grouped, getElem?_foldl_group]
  simp

theorem mem_keys_grouped (key : α → κ) (l : List α) (k : κ) :
    k ∈ (grouped key l).keys ↔ k ∈ l.map key := by
  rw [Std.ExtTreeMap.mem_keys, Std.ExtTreeMap.mem_iff_isSome_getElem?, getElem?_grouped,
    List.mem_map]
  split
  next none =>
    rw [List.filter_eq_nil_iff] at none
    simpa using none
  next some =>
    obtain ⟨a, ha⟩ := List.exists_mem_of_ne_nil _ some
    rw [List.mem_filter, decide_eq_true_eq] at ha
    simpa using ⟨a, ha⟩

theorem groups_eq_map_keys (key : α → κ) (l : List α) :
    groups key l = (grouped key l).keys.map (fun k => l.filter (key · = k)) := by
  rw [groups, ← Std.ExtTreeMap.map_fst_toList_eq_keys, List.map_map]
  apply List.map_congr_left
  intro r hr
  have held := Std.ExtTreeMap.mem_toList_iff_getElem?_eq_some.mp hr
  rw [getElem?_grouped] at held
  split at held
  next => simp at held
  next => exact (Option.some.inj held).symm

/-- A shuffle of labelled parts is grouped into the parts again. -/
theorem groups_perm {key : α → κ} {l : List α} {parts : List β} {items : β → List α}
    {label : β → κ} (shuffled : l.Perm (parts.flatMap items))
    (keyed : ∀ p ∈ parts, ∀ a ∈ items p, key a = label p) (filled : ∀ p ∈ parts, items p ≠ [])
    (distinct : (parts.map label).Nodup) :
    (groups key l).Perm (parts.map (fun p => l.filter (key · = label p))) ∧
      ∀ p ∈ parts, (l.filter (key · = label p)).Perm (items p) := by
  have keys : (grouped key l).keys.Perm (parts.map label) := by
    rw [List.perm_ext_iff_of_nodup Std.ExtTreeMap.nodup_keys distinct]
    intro k
    rw [mem_keys_grouped, List.mem_map, List.mem_map]
    constructor
    · rintro ⟨a, ha, rfl⟩
      obtain ⟨p, hp, member⟩ := List.mem_flatMap.mp (shuffled.mem_iff.mp ha)
      exact ⟨p, hp, (keyed p hp a member).symm⟩
    · rintro ⟨p, hp, rfl⟩
      obtain ⟨a, ha⟩ := List.exists_mem_of_ne_nil _ (filled p hp)
      exact ⟨a, shuffled.mem_iff.mpr (List.mem_flatMap.mpr ⟨p, hp, ha⟩), keyed p hp a ha⟩
  constructor
  · rw [groups_eq_map_keys]
    have mapped := keys.map (fun k => l.filter (key · = k))
    rwa [List.map_map] at mapped
  · intro p hp
    rw [← filter_flatMap_label keyed distinct hp]
    exact shuffled.filter _

end Grouping
