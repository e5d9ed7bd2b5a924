import CatalystNode.ConsensusTypes

namespace CatalystNode

open ByteVector

def idxLsb (idx : ByteVec 32) : UInt8 := idx.get 31 &&& 1

def idxXor1 (idx : ByteVec 32) : ByteVec 32 := idx.set 31 (idx.get 31 ^^^ 1)

/-- The loop of the big-endian shift: each byte takes the bit carried out of the previous one. -/
def shrCarry : UInt8 → Bytes → Bytes
  | _, [] => []
  | carry, b :: bs => ((b >>> 1) ||| (carry <<< 7)) :: shrCarry (b &&& 1) bs

theorem length_shrCarry (carry : UInt8) (bs : Bytes) : (shrCarry carry bs).length = bs.length := by
  induction bs generalizing carry with
  | nil => rfl
  | cons b bs ih => simp [shrCarry, ih]

def idxShr1 (idx : ByteVec 32) : ByteVec 32 := ⟨shrCarry 0 idx.toList, by simp [length_shrCarry]⟩

def pathNumber (idx : ByteVec 32) : Nat := ofBeBytes idx.toList

theorem pathNumber_beBytes {i : Nat} (h : i < 2 ^ 256) : pathNumber (beBytes 32 i) = i :=
  ofBeBytes_beBytes (by rwa [show 256 ^ 32 = 2 ^ 256 by norm_num])

theorem toList_eq_take_concat (idx : ByteVec 32) :
    idx.toList = idx.toList.take 31 ++ [idx.get 31] := by
  have last : 31 < idx.toList.length := by simp
  calc idx.toList = idx.toList.take 31 ++ idx.toList.drop 31 := (List.take_append_drop 31 _).symm
    _ = idx.toList.take 31 ++ [idx.toList[31]] := by
      rw [List.drop_eq_getElem_cons last, List.drop_of_length_le (by simp)]
    _ = idx.toList.take 31 ++ [idx.get 31] := by rw [List.Vector.get_eq_get_toList]; rfl

theorem pathNumber_eq (idx : ByteVec 32) :
    pathNumber idx = (idx.get 31).toNat + 256 * ofBeBytes (idx.toList.take 31) := by
  rw [pathNumber, toList_eq_take_concat idx, ofBeBytes_concat]
  simp

theorem idxLsb_eq_zero_iff (idx : ByteVec 32) : idxLsb idx = 0 ↔ pathNumber idx % 2 = 0 := by
  have parity : pathNumber idx % 2 = (idx.get 31).toNat % 2 := by
    rw [pathNumber_eq]
    omega
  rw [parity, idxLsb, ← UInt8.toNat_inj, UInt8.toNat_and]
  simp

theorem idxLsb_eq_one_iff (idx : ByteVec 32) : idxLsb idx = 1 ↔ pathNumber idx % 2 = 1 := by
  have bit : ∀ b : UInt8, b &&& 1 = 1 ↔ ¬b &&& 1 = 0 := by decide +kernel
  have zero := idxLsb_eq_zero_iff idx
  unfold idxLsb at zero ⊢
  rw [bit, zero]
  omega

theorem toNat_xor_one : ∀ b : UInt8, (b ^^^ 1).toNat = b.toNat + 1 - 2 * (b.toNat % 2) := by
  decide +kernel

theorem pathNumber_idxXor1 (idx : ByteVec 32) :
    pathNumber (idxXor1 idx) = pathNumber idx + 1 - 2 * (pathNumber idx % 2) := by
  have init : (idxXor1 idx).toList.take 31 = idx.toList.take 31 := by
    rw [idxXor1, List.Vector.toList_set, List.take_set_of_le (by decide)]
  have last : (idxXor1 idx).get 31 = idx.get 31 ^^^ 1 := by
    rw [idxXor1, List.Vector.get_set_same]
  rw [pathNumber_eq, pathNumber_eq idx, init, last, toNat_xor_one]
  omega

theorem toNat_shr_or_carry (b : UInt8) {carry : UInt8} (h : carry.toNat < 2) :
    ((b >>> 1) ||| (carry <<< 7)).toNat = b.toNat / 2 + 128 * carry.toNat := by
  have byte := b.toNat_lt
  have small : carry.toNat <<< 7 % 2 ^ 8 = 2 ^ 7 * carry.toNat := by
    rw [Nat.shiftLeft_eq]
    omega
  rw [UInt8.toNat_or, Nat.or_comm, UInt8.toNat_shiftLeft, UInt8.toNat_shiftRight]
  change carry.toNat <<< 7 % 2 ^ 8 ||| b.toNat >>> 1 = _
  rw [small, ← Nat.two_pow_add_eq_or_of_lt (by simp [Nat.shiftRight_eq_div_pow]; omega),
    Nat.shiftRight_eq_div_pow]
  omega

theorem ofBeBytes_shrCarry {carry : UInt8} (h : carry.toNat < 2) (bs : Bytes) :
    ofBeBytes (shrCarry carry bs) = (carry.toNat * 256 ^ bs.length + ofBeBytes bs) / 2 := by
  induction bs generalizing carry with
  | nil =>
    simp only [shrCarry, ofBeBytes, List.reverse_nil, ofLeBytes, List.length_nil]
    omega
  | cons b bs ih =>
    have low : (b &&& 1).toNat = b.toNat % 2 := by simp
    rw [shrCarry, ofBeBytes_cons, ofBeBytes_cons, length_shrCarry, toNat_shr_or_carry b h,
      ih (by omega), low, List.length_cons, Nat.pow_succ]
    generalize 256 ^ bs.length = scale
    have split : b.toNat = 2 * (b.toNat / 2) + b.toNat % 2 := by omega
    generalize b.toNat / 2 = high at *
    generalize b.toNat % 2 = bit at *
    rw [split]
    have whole : carry.toNat * (scale * 256) + ((2 * high + bit) * scale + ofBeBytes bs) =
        2 * ((high + 128 * carry.toNat) * scale) + (bit * scale + ofBeBytes bs) := by ring
    rw [whole]
    omega

theorem pathNumber_idxShr1 (idx : ByteVec 32) : pathNumber (idxShr1 idx) = pathNumber idx / 2 := by
  change ofBeBytes (shrCarry 0 idx.toList) = ofBeBytes idx.toList / 2
  rw [ofBeBytes_shrCarry (by decide)]
  simp

theorem idxXor1_idxXor1 (idx : ByteVec 32) : idxXor1 (idxXor1 idx) = idx := by
  apply ofBeBytes_inj
  change pathNumber _ = pathNumber _
  rw [pathNumber_idxXor1, pathNumber_idxXor1]
  omega

theorem idxShr1_idxXor1 (idx : ByteVec 32) : idxShr1 (idxXor1 idx) = idxShr1 idx := by
  apply ofBeBytes_inj
  change pathNumber _ = pathNumber _
  rw [pathNumber_idxShr1, pathNumber_idxShr1, pathNumber_idxXor1]
  omega

theorem eq_or_eq_idxXor1_of_idxShr1_eq {a b : ByteVec 32} (h : idxShr1 a = idxShr1 b) :
    a = b ∨ a = idxXor1 b := by
  have half : pathNumber a / 2 = pathNumber b / 2 := by
    rw [← pathNumber_idxShr1, ← pathNumber_idxShr1, h]
  by_cases same : pathNumber a = pathNumber b
  · exact Or.inl (ofBeBytes_inj same)
  · right
    apply ofBeBytes_inj
    change pathNumber _ = pathNumber _
    rw [pathNumber_idxXor1]
    omega

theorem idxLsb_idxXor1_eq_zero_iff (idx : ByteVec 32) :
    idxLsb (idxXor1 idx) = 0 ↔ idxLsb idx ≠ 0 := by
  rw [Ne, idxLsb_eq_zero_iff, idxLsb_eq_zero_iff, pathNumber_idxXor1]
  omega

section Children

variable {i : Nat} (hi : i < 2 ^ 255)
include hi

theorem pathNumber_beBytes_double : pathNumber (beBytes 32 (2 * i)) = 2 * i :=
  pathNumber_beBytes (by omega)

theorem idxLsb_beBytes_double : idxLsb (beBytes 32 (2 * i)) = 0 := by
  rw [idxLsb_eq_zero_iff, pathNumber_beBytes_double hi]
  omega

theorem idxXor1_beBytes_double : idxXor1 (beBytes 32 (2 * i)) = beBytes 32 (2 * i + 1) := by
  have right : pathNumber (beBytes 32 (2 * i + 1)) = 2 * i + 1 := pathNumber_beBytes (by omega)
  apply ofBeBytes_inj
  change pathNumber _ = pathNumber _
  rw [pathNumber_idxXor1, pathNumber_beBytes_double hi, right]
  omega

theorem idxShr1_beBytes_double : idxShr1 (beBytes 32 (2 * i)) = beBytes 32 i := by
  apply ofBeBytes_inj
  change pathNumber _ = pathNumber _
  rw [pathNumber_idxShr1, pathNumber_beBytes_double hi, pathNumber_beBytes (by omega)]
  omega

theorem idxShr1_eq_beBytes_iff (p : ByteVec 32) :
    idxShr1 p = beBytes 32 i ↔ p = beBytes 32 (2 * i) ∨ p = beBytes 32 (2 * i + 1) := by
  rw [← idxShr1_beBytes_double hi, ← idxXor1_beBytes_double hi]
  constructor
  · exact eq_or_eq_idxXor1_of_idxShr1_eq
  · rintro (rfl | rfl)
    · rfl
    · exact idxShr1_idxXor1 _

end Children

end CatalystNode
