import Mathlib

namespace KeyedUpdates

/-- A write to one key that may depend on what the key holds. -/
structure Update (κ ν : Type) where
  key : κ
  change : Option ν → ν

section Cells

variable {κ ν : Type} [DecidableEq κ]

def runCell (k : κ) (us : List (Update κ ν)) (v : Option ν) : Option ν :=
  us.foldl (fun v u => if u.key = k then some (u.change v) else v) v

theorem runCell_append (k : κ) (us us' : List (Update κ ν)) (v : Option ν) :
    runCell k (us ++ us') v = runCell k us' (runCell k us v) :=
  List.foldl_append

/-- From the first write on, a key does not remember which of two values it held if no update tells
them apart. -/
theorem runCell_congr {k : κ} {us : List (Update κ ν)} {v v' : Option ν}
    (alike : ∀ u ∈ us, u.key = k → u.change v = u.change v') (touched : ∃ u ∈ us, u.key = k) :
    runCell k us v = runCell k us v' := by
  induction us with
  | nil => simp at touched
  | cons u us ih =>
    rw [runCell, runCell, List.foldl_cons, List.foldl_cons]
    by_cases here : u.key = k
    · rw [if_pos here, if_pos here, alike u List.mem_cons_self here]
    · rw [if_neg here, if_neg here]
      obtain ⟨w, hw, same⟩ := touched
      rcases List.mem_cons.mp hw with rfl | later
      · exact absurd same here
      · exact ih (fun w hw => alike w (List.mem_cons_of_mem u hw)) ⟨w, later, same⟩

/-- A property of all values that the updates of a key write holds of its value after a write. -/
theorem runCell_spec {k : κ} {us : List (Update κ ν)} {P : ν → Prop}
    (writes : ∀ u ∈ us, u.key = k → ∀ v, P (u.change v)) (touched : ∃ u ∈ us, u.key = k)
    (v : Option ν) : ∃ x, runCell k us v = some x ∧ P x := by
  induction us using List.reverseRecOn with
  | nil => simp at touched
  | append_singleton us u ih =>
    rw [runCell_append, runCell, List.foldl_cons, List.foldl_nil]
    by_cases here : u.key = k
    · rw [if_pos here]
      exact ⟨_, rfl, writes u (by simp) here _⟩
    · rw [if_neg here]
      obtain ⟨w, hw, same⟩ := touched
      rcases List.mem_append.mp hw with earlier | last
      · exact ih (fun w hw => writes w (List.mem_append_left _ hw)) ⟨w, earlier, same⟩
      · cases List.mem_singleton.mp last
        exact absurd same here

end Cells

section Maps

variable {κ ν : Type} [Ord κ] [Std.TransOrd κ]

def Update.apply (m : Std.ExtTreeMap κ ν) (u : Update κ ν) : Std.ExtTreeMap κ ν :=
  m.insert u.key (u.change m[u.key]?)

def applyOption (m : Std.ExtTreeMap κ ν) : Option (Update κ ν) → Std.ExtTreeMap κ ν
  | none => m
  | some u => u.apply m

theorem foldl_filterMap_apply {α : Type} (f : α → Option (Update κ ν)) (l : List α)
    (m : Std.ExtTreeMap κ ν) :
    (l.filterMap f).foldl Update.apply m = l.foldl (fun m a => applyOption m (f a)) m := by
  induction l generalizing m with
  | nil => rfl
  | cons a l ih =>
    cases written : f a with
    | none => rw [List.filterMap_cons_none written, ih, List.foldl_cons, written, applyOption]
    | some u =>
      rw [List.filterMap_cons_some written, List.foldl_cons, ih, List.foldl_cons, written,
        applyOption]

variable [Std.LawfulEqOrd κ] [DecidableEq κ]

theorem Update.getElem?_apply (m : Std.ExtTreeMap κ ν) (u : Update κ ν) (k : κ) :
    (u.apply m)[k]? = if u.key = k then some (u.change m[k]?) else m[k]? := by
  rw [Update.apply, Std.ExtTreeMap.getElem?_insert]
  simp only [Std.LawfulEqCmp.compare_eq_iff_eq]
  split
  next same => rw [same]
  next => rfl

theorem getElem?_foldl_apply (us : List (Update κ ν)) (m : Std.ExtTreeMap κ ν) (k : κ) :
    (us.foldl Update.apply m)[k]? = runCell k us m[k]? := by
  induction us generalizing m with
  | nil => rfl
  | cons u us ih => rw [List.foldl_cons, ih, Update.getElem?_apply, runCell, runCell, List.foldl_cons]

end Maps

end KeyedUpdates
