import Mathlib

namespace ByteVector

abbrev Bytes := List UInt8

abbrev ByteVec (n : Nat) := List.Vector UInt8 n

/-- Fixed arrays are compared byte by byte from the front. -/
instance instLinearOrderByteVec (n : Nat) : LinearOrder (ByteVec n) :=
  LinearOrder.lift' (fun v => v.toList.map UInt8.toNat) (fun _ _ h =>
    Subtype.ext (List.map_injective_iff.mpr (fun _ _ => UInt8.toNat_inj.mp) h))

instance instLawfulEqOrdByteVec (n : Nat) : Std.LawfulEqOrd (ByteVec n) :=
  ⟨compare_eq_iff_eq.mp⟩

instance decidableMemBytes (b : Bytes) (l : List Bytes) : Decidable (b ∈ l) := inferInstance

instance decidableMemByteVec {n : Nat} (v : ByteVec n) (l : List (ByteVec n)) : Decidable (v ∈ l) :=
  inferInstance

def leBytes : Nat → Nat → Bytes
  | 0, _ => []
  | width + 1, n => UInt8.ofNat n :: leBytes width (n / 256)

theorem length_leBytes (width n : Nat) : (leBytes width n).length = width := by
  induction width generalizing n with
  | zero => rfl
  | succ width ih => simp [leBytes, ih]

def ofLeBytes : Bytes → Nat
  | [] => 0
  | b :: bs => b.toNat + 256 * ofLeBytes bs

def ofBeBytes (bs : Bytes) : Nat := ofLeBytes bs.reverse

def beBytes (width n : Nat) : ByteVec width := ⟨(leBytes width n).reverse, by simp [length_leBytes]⟩

/-- Copying a slice into a fixed array succeeds on exactly one length. -/
def toArray? (n : Nat) (bs : Bytes) : Option (ByteVec n) :=
  if h : bs.length = n then some ⟨bs, h⟩ else none

def zeros (n : Nat) : ByteVec n := List.Vector.replicate n 0

def padTo (n : Nat) (bs : Bytes) : ByteVec n :=
  ⟨(bs ++ List.replicate n 0).take n, by simp⟩

def firstHalf {n : Nat} (v : ByteVec (n + n)) : ByteVec n :=
  ⟨v.toList.take n, by simp⟩

def lastHalf {n : Nat} (v : ByteVec (n + n)) : ByteVec n :=
  ⟨v.toList.drop n, by simp⟩

theorem ofLeBytes_leBytes {width n : Nat} (h : n < 256 ^ width) :
    ofLeBytes (leBytes width n) = n := by
  induction width generalizing n with
  | zero => simp at h; simp [leBytes, ofLeBytes, h]
  | succ width ih =>
    have tail : n / 256 < 256 ^ width := by
      apply Nat.div_lt_of_lt_mul
      rwa [Nat.pow_succ, Nat.mul_comm] at h
    simp only [leBytes, ofLeBytes, ih tail, UInt8.toNat_ofNat']
    omega

theorem leBytes_inj {width n m : Nat} (hn : n < 256 ^ width) (hm : m < 256 ^ width)
    (h : leBytes width n = leBytes width m) : n = m := by
  rw [← ofLeBytes_leBytes hn, ← ofLeBytes_leBytes hm, h]

theorem ofLeBytes_append (xs ys : Bytes) :
    ofLeBytes (xs ++ ys) = ofLeBytes xs + 256 ^ xs.length * ofLeBytes ys := by
  induction xs with
  | nil => simp [ofLeBytes]
  | cons x xs ih =>
    simp only [List.cons_append, ofLeBytes, ih, List.length_cons, Nat.pow_succ]
    ring

theorem ofLeBytes_lt (bs : Bytes) : ofLeBytes bs < 256 ^ bs.length := by
  induction bs with
  | nil => simp [ofLeBytes]
  | cons b bs ih =>
    have byte := b.toNat_lt
    simp only [ofLeBytes, List.length_cons, Nat.pow_succ]
    omega

theorem leBytes_ofLeBytes (bs : Bytes) : leBytes bs.length (ofLeBytes bs) = bs := by
  induction bs with
  | nil => rfl
  | cons b bs ih =>
    have byte := b.toNat_lt
    have head : UInt8.ofNat (b.toNat + 256 * ofLeBytes bs) = b := by
      apply UInt8.toNat_inj.mp
      simp only [UInt8.toNat_ofNat']
      omega
    have tail : (b.toNat + 256 * ofLeBytes bs) / 256 = ofLeBytes bs := by omega
    simp only [ofLeBytes, List.length_cons, leBytes, head, tail, ih]

theorem ofBeBytes_cons (b : UInt8) (bs : Bytes) :
    ofBeBytes (b :: bs) = b.toNat * 256 ^ bs.length + ofBeBytes bs := by
  simp only [ofBeBytes, List.reverse_cons, ofLeBytes_append, List.length_reverse, ofLeBytes]
  ring

theorem ofBeBytes_concat (bs : Bytes) (b : UInt8) :
    ofBeBytes (bs ++ [b]) = b.toNat + 256 * ofBeBytes bs := by
  simp [ofBeBytes, ofLeBytes]

theorem beBytes_ofBeBytes {n : Nat} (v : ByteVec n) : beBytes n (ofBeBytes v.toList) = v := by
  apply Subtype.ext
  have back := leBytes_ofLeBytes v.toList.reverse
  rw [List.length_reverse, v.toList_length] at back
  change (leBytes n (ofLeBytes v.toList.reverse)).reverse = v.toList
  rw [back, List.reverse_reverse]

theorem ofBeBytes_beBytes {n i : Nat} (h : i < 256 ^ n) :
    ofBeBytes (beBytes n i).toList = i := by
  change ofLeBytes (leBytes n i).reverse.reverse = i
  rw [List.reverse_reverse, ofLeBytes_leBytes h]

theorem ofBeBytes_inj {n : Nat} {v w : ByteVec n} (h : ofBeBytes v.toList = ofBeBytes w.toList) :
    v = w := by
  rw [← beBytes_ofBeBytes v, h, beBytes_ofBeBytes]

theorem toArray?_eq_some {n : Nat} {bs : Bytes} {v : ByteVec n} (h : toArray? n bs = some v) :
    v.toList = bs := by
  unfold toArray? at h
  split at h
  next =>
    cases Option.some.inj h
    rfl
  next => simp at h

theorem toArray?_toList {n : Nat} (v : ByteVec n) : toArray? n v.toList = some v := by
  rw [toArray?, dif_pos v.toList_length]
  rfl

/-- Fields of fixed length can be read back from the front of a concatenation. -/
theorem toList_append_inj {n : Nat} {v w : ByteVec n} {xs ys : Bytes} :
    v.toList ++ xs = w.toList ++ ys ↔ v = w ∧ xs = ys := by
  constructor
  · intro h
    obtain ⟨front, back⟩ := List.append_inj h (by simp)
    exact ⟨Subtype.ext front, back⟩
  · rintro ⟨rfl, rfl⟩
    rfl

theorem leBytes_append_inj {a b : UInt64} {xs ys : Bytes} :
    leBytes 8 a.toNat ++ xs = leBytes 8 b.toNat ++ ys ↔ a = b ∧ xs = ys := by
  constructor
  · intro h
    obtain ⟨front, back⟩ := List.append_inj h (by simp [length_leBytes])
    have word : ∀ x : UInt64, x.toNat < 256 ^ 8 := fun x => by simpa using x.toNat_lt
    exact ⟨UInt64.toNat_inj.mp (leBytes_inj (word a) (word b) front), back⟩
  · rintro ⟨rfl, rfl⟩
    rfl

end ByteVector
