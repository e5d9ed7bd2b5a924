import Mathlib

namespace Decimal

def natural (digits : List Char) : Option Nat :=
  if digits ≠ [] ∧ digits.all Char.isDigit = true then some (Nat.ofDigitChars 10 digits 0) else none

def signed : List Char → Option Int
  | '-' :: digits => (natural digits).map (fun n : Nat => -(n : Int))
  | '+' :: digits => (natural digits).map Int.ofNat
  | digits => (natural digits).map Int.ofNat

theorem isDigit_toDigits {n : Nat} {c : Char} (listed : c ∈ Nat.toDigits 10 n) : c.isDigit = true :=
  Nat.isDigit_of_mem_toDigits (by omega) (by omega) listed

theorem natural_toDigits (n : Nat) : natural (Nat.toDigits 10 n) = some n := by
  have digits : (Nat.toDigits 10 n).all Char.isDigit = true :=
    List.all_eq_true.mpr (fun _ listed => isDigit_toDigits listed)
  rw [natural, if_pos ⟨Nat.toDigits_ne_nil, digits⟩, Nat.ofDigitChars_ten_toDigits]

theorem signed_toDigits (n : Nat) : signed (Nat.toDigits 10 n) = some (n : Int) := by
  have unsigned : signed (Nat.toDigits 10 n) = (natural (Nat.toDigits 10 n)).map Int.ofNat := by
    cases spelled : Nat.toDigits 10 n with
    | nil => rfl
    | cons c rest =>
      have digit : c.isDigit = true := isDigit_toDigits (n := n) (by rw [spelled]; exact List.mem_cons_self)
      unfold signed
      split
      next same =>
        cases same
        exact absurd digit (by decide)
      next same =>
        cases same
        exact absurd digit (by decide)
      next => rfl
  rw [unsigned, natural_toDigits]
  rfl

theorem signed_repr (n : Int) : signed n.repr.toList = some n := by
  rw [Int.repr_eq_if]
  split
  next positive =>
    rw [Nat.toList_repr, signed_toDigits, Int.toNat_of_nonneg positive]
  next negative =>
    rw [String.toList_append, Nat.toList_repr]
    simp only [String.reduceToList, List.cons_append, List.nil_append, signed]
    rw [natural_toDigits, Option.map_some]
    congr 1
    omega

end Decimal
