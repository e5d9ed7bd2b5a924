import Mathlib

namespace PrefixCode

variable {α β γ : Type}

/-- The encoding of a value can be split off the front of a stream in one way only. -/
def PrefixFree (valid : α → Prop) (encode : α → List β) : Prop :=
  ∀ ⦃x y⦄, valid x → valid y → ∀ ⦃r s⦄, encode x ++ r = encode y ++ s → x = y ∧ r = s

namespace PrefixFree

variable {valid : α → Prop} {encode : α → List β}

theorem injOn (free : PrefixFree valid encode) {x y : α} (hx : valid x) (hy : valid y)
    (same : encode x = encode y) : x = y :=
  (free hx hy (congrArg (· ++ []) same)).1

theorem of_fixedLength (n : Nat) (length : ∀ x, valid x → (encode x).length = n)
    (inj : ∀ x y, valid x → valid y → encode x = encode y → x = y) : PrefixFree valid encode := by
  intro x y hx hy r s same
  obtain ⟨front, back⟩ := List.append_inj same ((length x hx).trans (length y hy).symm)
  exact ⟨inj x y hx hy front, back⟩

theorem comap {valid' : γ → Prop} {f : γ → α} (free : PrefixFree valid encode)
    (valids : ∀ x, valid' x → valid (f x)) (inj : Function.Injective f) :
    PrefixFree valid' (fun x => encode (f x)) := by
  intro x y hx hy r s same
  obtain ⟨images, rest⟩ := free (valids x hx) (valids y hy) same
  exact ⟨inj images, rest⟩

theorem flatMap (free : PrefixFree valid encode) {xs ys : List α} (length : xs.length = ys.length)
    (hx : ∀ x ∈ xs, valid x) (hy : ∀ y ∈ ys, valid y) {r s : List β}
    (same : xs.flatMap encode ++ r = ys.flatMap encode ++ s) : xs = ys ∧ r = s := by
  induction xs generalizing ys with
  | nil =>
    cases ys with
    | nil => exact ⟨rfl, same⟩
    | cons y ys => simp at length
  | cons x xs ih =>
    cases ys with
    | nil => simp at length
    | cons y ys =>
      rw [List.flatMap_cons, List.flatMap_cons, List.append_assoc, List.append_assoc] at same
      obtain ⟨rfl, tails⟩ := free (hx x List.mem_cons_self) (hy y List.mem_cons_self) same
      obtain ⟨rfl, rest⟩ := ih (by simpa using length) (fun z hz => hx z (List.mem_cons_of_mem x hz))
        (fun z hz => hy z (List.mem_cons_of_mem x hz)) tails
      exact ⟨rfl, rest⟩

theorem counted {bound : Nat} {header : Nat → List β} (free : PrefixFree valid encode)
    (headers : PrefixFree (· < bound) header) :
    PrefixFree (fun xs : List α => xs.length < bound ∧ ∀ x ∈ xs, valid x)
      (fun xs => header xs.length ++ xs.flatMap encode) := by
  intro xs ys hx hy r s same
  dsimp only at same
  rw [List.append_assoc, List.append_assoc] at same
  obtain ⟨length, items⟩ := headers hx.1 hy.1 same
  exact free.flatMap length hx.2 hy.2 items

end PrefixFree

end PrefixCode
