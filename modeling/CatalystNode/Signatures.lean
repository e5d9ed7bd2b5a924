import CatalystNode.ConsensusTypes

namespace CatalystNode

open ByteVector HexCodec

structure RistrettoOps (F G : Type) where
  basepoint : G
  compress : G → ByteVec 32
  decompress : ByteVec 32 → Option G
  fromCanonicalBytes : ByteVec 32 → Option F
  fromBytesModOrder : ByteVec 32 → F
  scalarBytes : F → ByteVec 32

structure Signature (F G : Type) where
  r : G
  s : F

inductive SignatureFault where
  | invalidPublicKey
  | invalidSignatureBytes
  | invalidSignature
  deriving DecidableEq, Repr

section Scheme

variable {F G : Type} [Field F] [AddCommGroup G] [Module F G] [DecidableEq G]
variable (ops : RistrettoOps F G) (blake2b512 : Bytes → ByteVec 64)

def signatureFromBytes (bytes : ByteVec 64) : Option (Signature F G) := do
  let r ← ops.decompress (@firstHalf 32 bytes)
  let s ← ops.fromCanonicalBytes (@lastHalf 32 bytes)
  return ⟨r, s⟩

def challenge (r publicKey : G) (message : Bytes) : F :=
  ops.fromBytesModOrder (blake2b512Trunc32 blake2b512
    ((ops.compress r).toList ++ (ops.compress publicKey).toList ++ message))

def schnorrVerify (message : Bytes) (signature : Signature F G) (publicKey : G) : Bool :=
  let e := challenge ops blake2b512 signature.r publicKey message
  decide (signature.s • ops.basepoint = signature.r + e • publicKey)

def parseProducerHex32 (s : String) : Option PublicKey :=
  if (utf8 s).length ≠ 64 then none else (decode (utf8 s)).bind (toArray? 32)

def signatureToBytes (signature : Signature F G) : Bytes :=
  (ops.compress signature.r).toList ++ (ops.scalarBytes signature.s).toList

def schnorrSign (nonce privateKey : F) (message : Bytes) : Signature F G :=
  let r := nonce • ops.basepoint
  let e := challenge ops blake2b512 r (privateKey • ops.basepoint) message
  ⟨r, nonce + e * privateKey⟩

def checkProducerSignature (digest : Hash) (producerId : ProducerId) (signature : Bytes) :
    Except SignatureFault Unit := do
  let some pkBytes := parseProducerHex32 producerId | throw .invalidPublicKey
  let some pk := ops.decompress pkBytes | throw .invalidPublicKey
  let some sb := toArray? 64 signature | throw .invalidSignatureBytes
  let some sig := signatureFromBytes ops sb | throw .invalidSignatureBytes
  if schnorrVerify ops blake2b512 digest.toList sig pk then return () else throw .invalidSignature

def signerKey (digest : Hash) (producerId : ProducerId) (signature : Bytes) : Option PublicKey := do
  let pkBytes ← parseProducerHex32 producerId
  let pk ← ops.decompress pkBytes
  let sb ← toArray? 64 signature
  let sig ← signatureFromBytes ops sb
  if schnorrVerify ops blake2b512 digest.toList sig pk then some pkBytes else none

variable {ops blake2b512}

theorem checkProducerSignature_ok {digest : Hash} {producerId : ProducerId} {signature : Bytes}
    (h : checkProducerSignature ops blake2b512 digest producerId signature = .ok ()) :
    ∃ key, parseProducerHex32 producerId = some key ∧
      signerKey ops blake2b512 digest producerId signature = some key := by
  unfold checkProducerSignature at h
  unfold signerKey
  cases parsed : parseProducerHex32 producerId with
  | none => simp [parsed] at h
  | some key =>
    cases point : ops.decompress key with
    | none => simp [parsed, point] at h
    | some pk =>
      cases array : toArray? 64 signature with
      | none => simp [parsed, point, array] at h
      | some sb =>
        cases form : signatureFromBytes ops sb with
        | none => simp [parsed, point, array, form] at h
        | some sig =>
          by_cases valid : schnorrVerify ops blake2b512 digest.toList sig pk = true
          · exact ⟨key, rfl, by simp [point, form, valid]⟩
          · simp [parsed, point, array, form, valid] at h

theorem parseProducerHex32_of_signerKey {digest : Hash} {producerId : ProducerId}
    {signature : Bytes} {key : PublicKey}
    (h : signerKey ops blake2b512 digest producerId signature = some key) :
    parseProducerHex32 producerId = some key := by
  unfold signerKey at h
  obtain ⟨pkBytes, parsed, h⟩ := Option.bind_eq_some_iff.mp h
  obtain ⟨pk, -, h⟩ := Option.bind_eq_some_iff.mp h
  obtain ⟨sb, -, h⟩ := Option.bind_eq_some_iff.mp h
  obtain ⟨sig, -, h⟩ := Option.bind_eq_some_iff.mp h
  split at h
  next =>
    cases Option.some.inj h
    exact parsed
  next => simp at h

end Scheme

instance instFactPrimeThirteen : Fact (Nat.Prime 13) := ⟨by norm_num⟩

/-- A group of thirteen elements standing in for the curve on concrete inputs. -/
def smallGroup : RistrettoOps (ZMod 13) (ZMod 13) where
  basepoint := 1
  compress g := padTo 32 [UInt8.ofNat g.val]
  decompress v := if v = padTo 32 [v.head] ∧ v.head < 13 then some (v.head.toNat : ZMod 13) else none
  fromCanonicalBytes v :=
    if v = padTo 32 [v.head] ∧ v.head < 13 then some (v.head.toNat : ZMod 13) else none
  fromBytesModOrder v := ((ofLeBytes v.toList % 13 : Nat) : ZMod 13)
  scalarBytes x := padTo 32 [UInt8.ofNat x.val]

def sampleSignature (secret : ZMod 13) (message : Bytes) : Bytes :=
  signatureToBytes smallGroup (schnorrSign smallGroup checksum 3 secret message)

theorem parseProducerHex32_inj_of_lower {s t : String} {key : PublicKey}
    (lowerS : LowerCase (utf8 s)) (lowerT : LowerCase (utf8 t))
    (hs : parseProducerHex32 s = some key) (ht : parseProducerHex32 t = some key) : s = t := by
  have decoded : ∀ {id : String}, parseProducerHex32 id = some key →
      decode (utf8 id) = some key.toList := by
    intro id h
    unfold parseProducerHex32 at h
    split at h
    next => simp at h
    next =>
      obtain ⟨bytes, hd, h⟩ := Option.bind_eq_some_iff.mp h
      rw [toArray?_eq_some h]
      exact hd
  exact utf8_inj (decode_inj_of_lower lowerS lowerT (decoded hs) (decoded ht))

end CatalystNode
