import CatalystNode.Signatures

namespace CatalystNode

open ByteVector HexCodec

/-- Points and scalars survive being written down. -/
structure RistrettoOps.Lawful {F G : Type} (ops : RistrettoOps F G) : Prop where
  point : ∀ g, ops.decompress (ops.compress g) = some g
  scalar : ∀ x, ops.fromCanonicalBytes (ops.scalarBytes x) = some x

theorem parseProducerHex32_encodeString (key : PublicKey) :
    parseProducerHex32 (encodeString key.toList) = some key := by
  have length : (utf8 (encodeString key.toList)).length = 64 := by
    rw [utf8_encodeString, length_encode, List.Vector.toList_length]
  rw [parseProducerHex32, if_neg (not_not_intro length), utf8_encodeString, decode_encode]
  exact toArray?_toList key

theorem lowerCase_encodeString (bs : Bytes) : LowerCase (utf8 (encodeString bs)) := by
  rw [utf8_encodeString]
  exact fun b listed => (mem_encode listed).2

section Signatures

variable {F G : Type} {ops : RistrettoOps F G}

theorem length_signatureToBytes (sig : Signature F G) : (signatureToBytes ops sig).length = 64 := by
  rw [signatureToBytes, List.length_append, List.Vector.toList_length, List.Vector.toList_length]

theorem signatureFromBytes_signatureToBytes (lawful : ops.Lawful) {sig : Signature F G}
    {bytes : ByteVec 64} (written : bytes.toList = signatureToBytes ops sig) :
    signatureFromBytes ops bytes = some sig := by
  have first : @firstHalf 32 bytes = ops.compress sig.r := by
    apply List.Vector.toList_injective
    rw [firstHalf]
    simp [written, signatureToBytes]
  have last : @lastHalf 32 bytes = ops.scalarBytes sig.s := by
    apply List.Vector.toList_injective
    rw [lastHalf]
    simp [written, signatureToBytes]
  rw [signatureFromBytes, first, last, lawful.point, lawful.scalar]
  rfl

variable [Field F] [AddCommGroup G] [Module F G] [DecidableEq G] {blake2b512 : Bytes → ByteVec 64}

theorem schnorrVerify_schnorrSign (nonce secret : F) (message : Bytes) :
    schnorrVerify ops blake2b512 message (schnorrSign ops blake2b512 nonce secret message)
      (secret • ops.basepoint) = true := by
  simp only [schnorrVerify, schnorrSign, decide_eq_true_eq, add_smul, mul_smul]

/-- What a producer signs with its own secret passes the check under its own id. -/
theorem checkProducerSignature_schnorrSign (lawful : ops.Lawful) (nonce secret : F) (digest : Hash) :
    checkProducerSignature ops blake2b512 digest
      (encodeString (ops.compress (secret • ops.basepoint)).toList)
      (signatureToBytes ops (schnorrSign ops blake2b512 nonce secret digest.toList)) = .ok () := by
  let bytes : ByteVec 64 := ⟨signatureToBytes ops (schnorrSign ops blake2b512 nonce secret
    digest.toList), length_signatureToBytes _⟩
  have array : toArray? 64 (signatureToBytes ops (schnorrSign ops blake2b512 nonce secret
      digest.toList)) = some bytes := toArray?_toList bytes
  have form : signatureFromBytes ops bytes =
      some (schnorrSign ops blake2b512 nonce secret digest.toList) :=
    signatureFromBytes_signatureToBytes lawful rfl
  have verified := @schnorrVerify_schnorrSign F G ops _ _ _ _ blake2b512 nonce secret digest.toList
  rw [checkProducerSignature, parseProducerHex32_encodeString]
  simp only [lawful.point, array, form, verified, if_true]
  rfl

end Signatures

section Samples

instance instFactPrimeWide : Fact (Nat.Prime 521) := ⟨by norm_num⟩

/-- A group of 521 elements, for committees that need more keys than the small group has. -/
def wideGroup : RistrettoOps (ZMod 521) (ZMod 521) where
  basepoint := 1
  compress g := beBytes 32 g.val
  decompress v :=
    if ofBeBytes v.toList < 521 then some (ofBeBytes v.toList : ZMod 521) else none
  fromCanonicalBytes v :=
    if ofBeBytes v.toList < 521 then some (ofBeBytes v.toList : ZMod 521) else none
  fromBytesModOrder v := (ofBeBytes v.toList : ZMod 521)
  scalarBytes x := beBytes 32 x.val

theorem ofBeBytes_beBytes_val (x : ZMod 521) : ofBeBytes (beBytes 32 x.val).toList = x.val := by
  have fits : x.val < 256 ^ 32 := lt_of_lt_of_le x.val_lt (by norm_num)
  exact ofBeBytes_beBytes fits

theorem lawful_wideGroup : wideGroup.Lawful := by
  constructor
  · intro g
    dsimp only [wideGroup]
    rw [ofBeBytes_beBytes_val, if_pos g.val_lt, ZMod.natCast_zmod_val]
  · intro x
    dsimp only [wideGroup]
    rw [ofBeBytes_beBytes_val, if_pos x.val_lt, ZMod.natCast_zmod_val]

def wideId (secret : ZMod 521) : ProducerId := encodeString (beBytes 32 secret.val).toList

def wideSignature (secret : ZMod 521) (digest : Hash) : Bytes :=
  signatureToBytes wideGroup
    (schnorrSign wideGroup checksum ((3 : Nat) : ZMod 521) secret digest.toList)

theorem wideId_injective : Function.Injective wideId := by
  intro a b same
  have keys : some (beBytes 32 a.val) = some (beBytes 32 b.val) := by
    rw [← parseProducerHex32_encodeString, ← parseProducerHex32_encodeString (beBytes 32 b.val)]
    exact congrArg parseProducerHex32 same
  have values : a.val = b.val := by
    rw [← ofBeBytes_beBytes_val a, ← ofBeBytes_beBytes_val b, Option.some.inj keys]
  exact ZMod.val_injective 521 values

theorem checkProducerSignature_wide (secret : ZMod 521) (digest : Hash) :
    checkProducerSignature wideGroup checksum digest (wideId secret) (wideSignature secret digest) =
      .ok () := by
  have checked := @checkProducerSignature_schnorrSign (ZMod 521) (ZMod 521) wideGroup _ _ _ _
    checksum lawful_wideGroup ((3 : Nat) : ZMod 521) secret digest
  have point : secret • wideGroup.basepoint = secret := mul_one secret
  rw [point] at checked
  exact checked

end Samples

end CatalystNode
