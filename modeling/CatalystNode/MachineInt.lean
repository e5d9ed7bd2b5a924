import Mathlib

namespace MachineInt

def saturatingAddI64 (a b : Int64) : Int64 :=
  Int64.ofInt (max (-2 ^ 63) (min (2 ^ 63 - 1) (a.toInt + b.toInt)))

def saturatingSubI64 (a b : Int64) : Int64 :=
  Int64.ofInt (max (-2 ^ 63) (min (2 ^ 63 - 1) (a.toInt - b.toInt)))

def saturatingAddU64 (a b : UInt64) : UInt64 :=
  UInt64.ofNat (min (2 ^ 64 - 1) (a.toNat + b.toNat))

def saturatingSubU64 (a b : UInt64) : UInt64 :=
  UInt64.ofNat (a.toNat - b.toNat)

def saturatingMulU64 (a b : UInt64) : UInt64 :=
  UInt64.ofNat (min (2 ^ 64 - 1) (a.toNat * b.toNat))

def tryI64 (x : UInt64) : Option Int64 :=
  if x.toNat < 2 ^ 63 then some (Int64.ofInt x.toNat) else none

def shareWithRemainder (per rem : UInt64) : UInt64 :=
  saturatingAddU64 per (if 0 < rem then 1 else 0)

def remainderLeft (rem : UInt64) : UInt64 := if 0 < rem then rem - 1 else rem

theorem toInt_saturatingAddI64 (a b : Int64) :
    (saturatingAddI64 a b).toInt = max (-2 ^ 63) (min (2 ^ 63 - 1) (a.toInt + b.toInt)) := by
  apply Int64.toInt_ofInt_of_le
  · exact le_max_left _ _
  · have hmin : min (2 ^ 63 - 1) (a.toInt + b.toInt) ≤ 2 ^ 63 - 1 := min_le_left _ _
    omega

theorem toInt_saturatingAddI64_of_fits {a b : Int64}
    (low : -2 ^ 63 ≤ a.toInt + b.toInt) (high : a.toInt + b.toInt < 2 ^ 63) :
    (saturatingAddI64 a b).toInt = a.toInt + b.toInt := by
  rw [toInt_saturatingAddI64]
  omega

/-- Only the upper clamp can act on a sum above the lower bound, so it never exceeds the exact sum. -/
theorem toInt_saturatingAddI64_le {a b : Int64} (low : -2 ^ 63 ≤ a.toInt + b.toInt) :
    (saturatingAddI64 a b).toInt ≤ a.toInt + b.toInt := by
  rw [toInt_saturatingAddI64]
  omega

theorem toNat_saturatingSubU64 (a b : UInt64) :
    (saturatingSubU64 a b).toNat = a.toNat - b.toNat := by
  have bound := a.toNat_lt
  simp only [saturatingSubU64, UInt64.toNat_ofNat']
  exact Nat.mod_eq_of_lt (by omega)

theorem toNat_saturatingAddU64 (a b : UInt64) :
    (saturatingAddU64 a b).toNat = min (2 ^ 64 - 1) (a.toNat + b.toNat) := by
  simp only [saturatingAddU64, UInt64.toNat_ofNat']
  exact Nat.mod_eq_of_lt (by omega)

theorem toNat_saturatingMulU64 (a b : UInt64) :
    (saturatingMulU64 a b).toNat = min (2 ^ 64 - 1) (a.toNat * b.toNat) := by
  simp only [saturatingMulU64, UInt64.toNat_ofNat']
  exact Nat.mod_eq_of_lt (by omega)

theorem toNat_min (a b : UInt64) : (min a b).toNat = min a.toNat b.toNat := by
  change (if a ≤ b then a else b).toNat = _
  split
  next le =>
    have below := UInt64.le_iff_toNat_le.mp le
    omega
  next gt =>
    have above := UInt64.lt_iff_toNat_lt.mp (UInt64.not_le.mp gt)
    omega

theorem toNat_shareWithRemainder {per : UInt64} (small : per.toNat < 2 ^ 62) (rem : UInt64) :
    (shareWithRemainder per rem).toNat = per.toNat + min rem.toNat 1 := by
  unfold shareWithRemainder
  rw [toNat_saturatingAddU64]
  split
  next left =>
    have some : 0 < rem.toNat := by simpa using UInt64.lt_iff_toNat_lt.mp left
    have one : (1 : UInt64).toNat = 1 := rfl
    omega
  next none =>
    have zero : rem = 0 := by simpa using none
    subst zero
    have value : (0 : UInt64).toNat = 0 := rfl
    omega

theorem toNat_remainderLeft (rem : UInt64) : (remainderLeft rem).toNat = rem.toNat - 1 := by
  unfold remainderLeft
  split
  next left =>
    have some : 0 < rem.toNat := by simpa using UInt64.lt_iff_toNat_lt.mp left
    have one : (1 : UInt64) ≤ rem := UInt64.le_iff_toNat_le.mpr some
    rw [UInt64.toNat_sub_of_le rem 1 one]
    rfl
  next none =>
    have zero : rem = 0 := by simpa using none
    simp [zero]

def shares (per : UInt64) : UInt64 → Nat → List UInt64
  | _, 0 => []
  | rem, n + 1 => shareWithRemainder per rem :: shares per (remainderLeft rem) n

/-- The shares handed out, whatever remainder is left when the takers end. -/
theorem sum_shares {per : UInt64} (small : per.toNat < 2 ^ 62) (rem : UInt64) (n : Nat) :
    ((shares per rem n).map UInt64.toNat).sum = per.toNat * n + min rem.toNat n := by
  induction n generalizing rem with
  | zero => simp [shares]
  | succ n ih =>
    have rest := ih (remainderLeft rem)
    have left := toNat_remainderLeft rem
    have share := toNat_shareWithRemainder small rem
    simp only [shares, List.map_cons, List.sum_cons, Nat.mul_succ]
    omega

theorem bounds_of_mem_shares {per : UInt64} (small : per.toNat < 2 ^ 62) {rem share : UInt64}
    {n : Nat} (h : share ∈ shares per rem n) :
    per.toNat ≤ share.toNat ∧ share.toNat ≤ per.toNat + 1 := by
  induction n generalizing rem with
  | zero => simp [shares] at h
  | succ n ih =>
    rcases List.mem_cons.mp h with first | later
    · have value := toNat_shareWithRemainder small rem
      subst first
      omega
    · exact ih later

theorem sum_shares_div_mod {pool : UInt64} {n : Nat} (small : pool.toNat < 2 ^ 62) (some : 0 < n)
    (fits : n < 2 ^ 64) :
    ((shares (pool / UInt64.ofNat n) (pool % UInt64.ofNat n) n).map UInt64.toNat).sum =
      pool.toNat := by
  have count : (UInt64.ofNat n).toNat = n := by
    rw [UInt64.toNat_ofNat']
    exact Nat.mod_eq_of_lt fits
  have part : (pool / UInt64.ofNat n).toNat ≤ pool.toNat := by
    rw [UInt64.toNat_div]
    exact Nat.div_le_self _ _
  have left := Nat.mod_lt pool.toNat some
  rw [sum_shares (by omega), UInt64.toNat_div, UInt64.toNat_mod, count, min_eq_left left.le]
  exact Nat.div_add_mod' pool.toNat n

theorem toNat_sum (l : List UInt64) : l.sum.toNat = (l.map UInt64.toNat).sum % 2 ^ 64 := by
  induction l with
  | nil => rfl
  | cons a l ih =>
    rw [List.sum_cons, List.map_cons, List.sum_cons, UInt64.toNat_add, ih]
    exact Nat.add_mod_mod _ _ _

theorem tryI64_eq_some {x : UInt64} {v : Int64} (h : tryI64 x = some v) :
    x.toNat < 2 ^ 63 ∧ v.toInt = x.toNat := by
  unfold tryI64 at h
  split at h
  next fits =>
    cases Option.some.inj h
    exact ⟨fits, Int64.toInt_ofInt_of_le (by omega) (by omega)⟩
  next => simp at h

theorem toInt_neg_of_nonneg {x : Int64} (h : 0 ≤ x.toInt) : (-x).toInt = -x.toInt := by
  have bound := x.toInt_lt
  rw [Int64.toInt_neg, Int.bmod_eq_of_le] <;> omega

theorem toInt_toInt64_of_lt {x : UInt64} (h : x.toNat < 2 ^ 63) :
    x.toInt64.toInt = x.toNat := by
  change x.toBitVec.toInt = x.toNat
  rw [BitVec.toInt_eq_toNat_of_lt (by simpa using (by omega : 2 * x.toNat < 2 ^ 64))]
  rfl

end MachineInt
