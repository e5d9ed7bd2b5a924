import Mathlib

namespace SlotContest

variable {α κ : Type} [DecidableEq κ] (key : α → κ) (weaker : α → α → Bool)

/-- One slot that a newcomer takes unless it is weaker than the holder. A newcomer with the holder's
key always rewrites the slot. -/
def challenge : Option α → α → Option α
  | none, a => some a
  | some holder, a =>
    if key holder = key a then some a
    else if weaker a holder then some holder else some a

variable {key weaker}

theorem challenge_taken {slot : Option α} {a : α}
    (strong : ∀ holder, slot = some holder → key holder ≠ key a → weaker a holder = false) :
    challenge key weaker slot a = some a := by
  cases slot with
  | none => rfl
  | some holder =>
    rw [challenge]
    split
    next => rfl
    next other => rw [strong holder rfl other, if_neg (by simp)]

theorem challenge_kept {holder a : α} (other : key holder ≠ key a)
    (weak : weaker a holder = true) : challenge key weaker (some holder) a = some holder := by
  rw [challenge, if_neg other, if_pos weak]

theorem foldl_challenge_held {k : κ} {items : List α}
    (held : ∀ i ∈ items, ∀ j ∈ items, key j = k → key i ≠ k → weaker i j = true) {l : List α}
    (sub : ∀ i ∈ l, i ∈ items) {holder : α} (mine : holder ∈ items) (hk : key holder = k) :
    ∃ j ∈ items, key j = k ∧ l.foldl (challenge key weaker) (some holder) = some j := by
  induction l generalizing holder with
  | nil => exact ⟨holder, mine, hk, rfl⟩
  | cons i l ih =>
    have later : ∀ i ∈ l, i ∈ items := fun i hi => sub i (List.mem_cons_of_mem _ hi)
    have inside := sub i List.mem_cons_self
    rw [List.foldl_cons]
    by_cases same : key i = k
    · rw [challenge, if_pos (hk.trans same.symm)]
      exact ih later inside same
    · rw [challenge_kept (fun h => same (h.symm.trans hk)) (held i inside holder mine hk same)]
      exact ih later mine hk

theorem mem_of_foldl_challenge {l : List α} {slot : Option α} {a : α}
    (h : l.foldl (challenge key weaker) slot = some a) : a ∈ l ∨ slot = some a := by
  induction l generalizing slot with
  | nil => exact Or.inr h
  | cons i l ih =>
    rcases ih h with later | now
    · exact Or.inl (List.mem_cons_of_mem _ later)
    · cases slot with
      | none => exact Or.inl (Option.some.inj now ▸ List.mem_cons_self)
      | some holder =>
        rw [challenge] at now
        split at now
        next => exact Or.inl (Option.some.inj now ▸ List.mem_cons_self)
        next =>
          split at now
          next => exact Or.inr now
          next => exact Or.inl (Option.some.inj now ▸ List.mem_cons_self)

section Winner

variable {items : List α} {m : α} (hm : m ∈ items)
  (unbeaten : ∀ j ∈ items, key j ≠ key m → weaker m j = false)

include unbeaten

theorem challenge_winner {l : List α} (sub : ∀ i ∈ l, i ∈ items) :
    challenge key weaker (l.foldl (challenge key weaker) none) m = some m := by
  refine challenge_taken (fun holder held other => unbeaten holder ?_ other)
  rcases mem_of_foldl_challenge held with listed | start
  · exact sub holder listed
  · simp at start

include hm

theorem foldl_challenge_of_held
    (held : ∀ i ∈ items, ∀ j ∈ items, key j = key m → key i ≠ key m → weaker i j = true)
    {l : List α} (order : l.Perm items) :
    (l.foldl (challenge key weaker) none).map key = some (key m) := by
  obtain ⟨front, back, rfl⟩ := List.append_of_mem (order.mem_iff.mpr hm)
  have sub : ∀ i ∈ front ++ m :: back, i ∈ items := fun i hi => order.mem_iff.mp hi
  have later : ∀ i ∈ back, i ∈ items := fun i hi =>
    sub i (List.mem_append_right _ (List.mem_cons_of_mem _ hi))
  obtain ⟨j, -, hj, final⟩ := foldl_challenge_held held later hm rfl
  rw [List.foldl_append, List.foldl_cons,
    challenge_winner unbeaten (fun i hi => sub i (List.mem_append_left _ hi)), final,
    Option.map_some, hj]

/-- A newcomer that some holder of the winner's key fails to turn away takes the slot in an order in
which it comes last: the rest, the winner, that holder, the newcomer. -/
theorem exists_order_against {i j : α} (hi : i ∈ items) (hj : j ∈ items) (same : key j = key m)
    (other : key i ≠ key m) (strong : weaker i j = false) :
    ∃ l : List α, l.Perm items ∧ l.foldl (challenge key weaker) none = some i := by
  classical
  have apart : m ≠ i := fun h => other (by rw [h])
  have distinct : j ≠ i := fun h => other (by rw [← h, same])
  have last : challenge key weaker (some j) i = some i :=
    challenge_taken (fun holder held _ => Option.some.inj held ▸ strong)
  have inside : m ∈ items.erase i := (List.mem_erase_of_ne apart).mpr hm
  by_cases winner : j = m
  · have order : ((items.erase i).erase m ++ [m, i]).Perm items :=
      List.perm_append_comm.trans ((List.Perm.swap i m _).trans
        (((List.perm_cons_erase inside).symm.cons i).trans (List.perm_cons_erase hi).symm))
    refine ⟨_, order, ?_⟩
    rw [List.foldl_append, List.foldl_cons, List.foldl_cons, List.foldl_nil,
      challenge_winner unbeaten (fun x hx => List.mem_of_mem_erase (List.mem_of_mem_erase hx)),
      ← winner, last]
  · have holds : j ∈ (items.erase i).erase m :=
      (List.mem_erase_of_ne winner).mpr ((List.mem_erase_of_ne distinct).mpr hj)
    have order : (((items.erase i).erase m).erase j ++ [m, j, i]).Perm items := by
      have rotated : ([m, j, i] ++ ((items.erase i).erase m).erase j).Perm
          (i :: m :: j :: ((items.erase i).erase m).erase j) :=
        (@List.perm_append_comm _ [m, j] [i]).append_right _
      exact List.perm_append_comm.trans (rotated.trans ((((List.perm_cons_erase holds).symm.cons
        m).trans (List.perm_cons_erase inside).symm).cons i |>.trans (List.perm_cons_erase hi).symm))
    have handed : challenge key weaker (some m) j = some j := by
      rw [challenge, if_pos same.symm]
    refine ⟨_, order, ?_⟩
    rw [List.foldl_append, List.foldl_cons, List.foldl_cons, List.foldl_cons, List.foldl_nil,
      challenge_winner unbeaten (fun x hx => List.mem_of_mem_erase (List.mem_of_mem_erase
        (List.mem_of_mem_erase hx))), handed, last]

/-- A newcomer that no holder of another key turns away ends with its key in the slot in every order
exactly if, as a holder, its key turns away every newcomer of another key. -/
theorem foldl_challenge_eq_iff :
    (∀ l : List α, l.Perm items →
        (l.foldl (challenge key weaker) none).map key = some (key m)) ↔
      ∀ i ∈ items, ∀ j ∈ items, key j = key m → key i ≠ key m → weaker i j = true := by
  constructor
  · intro always i hi j hj same other
    by_contra strong
    rw [Bool.not_eq_true] at strong
    obtain ⟨l, order, final⟩ := exists_order_against hm unbeaten hi hj same other strong
    have result := always l order
    rw [final] at result
    exact other (Option.some.inj result)
  · intro held l order
    exact foldl_challenge_of_held hm unbeaten held order

end Winner

end SlotContest
