import CatalystNode.Signatures
import CatalystNode.SigningPayload

namespace CatalystNode

open ByteVector HexCodec

def sigSchemeSchnorrV1 : UInt8 := 0

inductive TxAuthError where
  | unsupportedScheme (id : UInt8)
  | invalidSender
  | senderPubkeyNotAllowed
  | invalidSignatureBytes
  | invalidPublicKeyBytes
  | invalidSignature
  | signingPayload
  deriving DecidableEq, Repr

section TxAuth

variable {F G : Type} [Field F] [AddCommGroup G] [Module F G] [DecidableEq G]
variable (ops : RistrettoOps F G) (blake2b512 : Bytes → ByteVec 64)
  (bincodeCore : TransactionCore → Except String Bytes)

/-- A point in canonical form; the neutral one has such a form too. -/
def publicKeyFromBytes (bytes : PublicKey) : Option G := ops.decompress bytes

/-- The payload that is verified: the second version, else the first, else that of old wallets. -/
def preferredPayload (tx : Transaction) (chainId : UInt64) (genesisHash : Hash) :
    Except String Bytes :=
  let v2 : Except String Bytes := .ok (transactionSigningPayloadV2 tx.core tx.timestamp chainId
    genesisHash tx.signatureScheme tx.senderPubkey)
  let v1 := .ok (transactionSigningPayloadV1 tx.core tx.timestamp chainId genesisHash)
  let legacy := (bincodeCore tx.core).map (fun core =>
    transactionSigningPayload (fun _ => core) tx.core tx.timestamp)
  (v2.tryCatch (fun _ => v1)).tryCatch (fun _ => legacy)

/-- The second version can always be built, so the older ones are never tried. -/
theorem preferredPayload_eq (tx : Transaction) (chainId : UInt64) (genesisHash : Hash) :
    preferredPayload bincodeCore tx chainId genesisHash =
      .ok (transactionSigningPayloadV2 tx.core tx.timestamp chainId genesisHash tx.signatureScheme
        tx.senderPubkey) := rfl

def verifySchnorr (tx : Transaction) (chainId : UInt64) (genesisHash : Hash) :
    Except TxAuthError Unit :=
  if tx.senderPubkey.isSome then .error .senderPubkeyNotAllowed
  else do
    let some sigBytes := toArray? 64 tx.signature | throw .invalidSignatureBytes
    let some sig := signatureFromBytes ops sigBytes | throw .invalidSignatureBytes
    let some senderPkBytes := txSenderPubkey tx | throw .invalidSender
    let some senderPk := publicKeyFromBytes ops senderPkBytes | throw .invalidPublicKeyBytes
    let .ok payload := preferredPayload bincodeCore tx chainId genesisHash | throw .signingPayload
    if schnorrVerify ops blake2b512 payload sig senderPk then return () else throw .invalidSignature

def verifyTxSignatureWithDomain (tx : Transaction) (chainId : UInt64) (genesisHash : Hash) :
    Except TxAuthError Unit :=
  if tx.signatureScheme = sigSchemeSchnorrV1 then
    verifySchnorr ops blake2b512 bincodeCore tx chainId genesisHash
  else .error (.unsupportedScheme tx.signatureScheme)

theorem length_of_verifyTxSignatureWithDomain {tx : Transaction} {chainId : UInt64}
    {genesisHash : Hash}
    (verified : verifyTxSignatureWithDomain ops blake2b512 bincodeCore tx chainId genesisHash =
      .ok ()) : tx.signature.length = 64 := by
  unfold verifyTxSignatureWithDomain verifySchnorr at verified
  split at verified
  next =>
    split at verified
    next => simp at verified
    next =>
      cases read : toArray? 64 tx.signature with
      | none =>
        rw [read] at verified
        cases verified
      | some sigBytes => rw [← toArray?_eq_some read, sigBytes.toList_length]
  next => simp at verified

end TxAuth

section Binding

/-- A signature that satisfies the equation for two challenges has the neutral key under it. -/
theorem key_eq_zero_of_two_challenges {F G : Type} [Field F] [AddCommGroup G] [Module F G]
    {basepoint r key : G} {s e e' : F} (apart : e ≠ e')
    (first : s • basepoint = r + e • key) (second : s • basepoint = r + e' • key) : key = 0 := by
  have products : e • key = e' • key := add_left_cancel (first.symm.trans second)
  have difference : (e - e') • key = 0 := by rw [sub_smul, products, sub_self]
  exact (smul_eq_zero.mp difference).resolve_left (sub_ne_zero.mpr apart)

variable {F G : Type} [Field F] [AddCommGroup G] [Module F G] [DecidableEq G]
  {ops : RistrettoOps F G} {blake2b512 : Bytes → ByteVec 64}

/-- One signature is not accepted for two messages with different challenges, exactly if the key is
not the neutral point or the signature does not open its own commitment. -/
theorem schnorrVerify_binds_iff {key : G} {sig : Signature F G} {message message' : Bytes}
    (apart : challenge ops blake2b512 sig.r key message ≠
      challenge ops blake2b512 sig.r key message') :
    ¬(schnorrVerify ops blake2b512 message sig key = true ∧
        schnorrVerify ops blake2b512 message' sig key = true) ↔
      key ≠ 0 ∨ sig.s • ops.basepoint ≠ sig.r := by
  simp only [schnorrVerify, decide_eq_true_eq]
  constructor
  · intro binds
    by_contra degenerate
    push Not at degenerate
    obtain ⟨rfl, opens⟩ := degenerate
    exact binds ⟨by rw [smul_zero, add_zero, opens], by rw [smul_zero, add_zero, opens]⟩
  · rintro sound ⟨first, second⟩
    have neutral := key_eq_zero_of_two_challenges apart first second
    rcases sound with other | unopened
    · exact other neutral
    · rw [neutral, smul_zero, add_zero] at first
      exact unopened first

end Binding

/-- All bytes zero are an accepted key and an accepted signature of it, for whatever message. -/
theorem schnorrVerify_neutral_key :
    ∃ (key : ZMod 13) (sig : Signature (ZMod 13) (ZMod 13)),
      publicKeyFromBytes smallGroup (zeros 32) = some key ∧
      signatureFromBytes smallGroup (zeros 64) = some sig ∧
      challenge smallGroup checksum sig.r key [1] ≠ challenge smallGroup checksum sig.r key [2] ∧
      schnorrVerify smallGroup checksum [1] sig key = true ∧
      schnorrVerify smallGroup checksum [2] sig key = true :=
  ⟨0, ⟨0, 0⟩, by decide +kernel, rfl, by decide +kernel, by decide +kernel, by decide +kernel⟩

theorem schnorrVerify_binds_iff_signed :
    let sig : Signature (ZMod 13) (ZMod 13) := schnorrSign smallGroup checksum 3 5 [1]
    schnorrVerify smallGroup checksum [1] sig 5 = true ∧
      ¬(schnorrVerify smallGroup checksum [1] sig 5 = true ∧
        schnorrVerify smallGroup checksum [2] sig 5 = true) :=
  ⟨by decide +kernel, (schnorrVerify_binds_iff (by decide +kernel)).mpr (.inl (by decide +kernel))⟩

end CatalystNode
