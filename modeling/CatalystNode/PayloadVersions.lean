import CatalystNode.SignatureBinding
import CatalystNode.SigningRoundTrip

namespace CatalystNode

open ByteVector HexCodec

section Fallback

variable {F G : Type} [Field F] [AddCommGroup G] [Module F G] [DecidableEq G]
  {ops : RistrettoOps F G} {blake2b512 : Bytes → ByteVec 64}
  {bincodeCore : TransactionCore → Except String Bytes}

/-- Only the newest version of the payload is verified, whatever was signed. -/
theorem verifyTxSignatureWithDomain_eq_ok_iff {tx : Transaction} {chainId : UInt64} {genesisHash : Hash}
    {sigBytes : ByteVec 64} {sig : Signature F G} {senderBytes : PublicKey} {sender : G}
    (scheme : tx.signatureScheme = sigSchemeSchnorrV1) (noBlob : tx.senderPubkey = none)
    (array : toArray? 64 tx.signature = some sigBytes)
    (form : signatureFromBytes ops sigBytes = some sig)
    (named : txSenderPubkey tx = some senderBytes)
    (decoded : publicKeyFromBytes ops senderBytes = some sender) :
    verifyTxSignatureWithDomain ops blake2b512 bincodeCore tx chainId genesisHash = .ok () ↔
      schnorrVerify ops blake2b512 (transactionSigningPayloadV2 tx.core tx.timestamp chainId genesisHash
        tx.signatureScheme tx.senderPubkey) sig sender = true := by
  rw [verifyTxSignatureWithDomain, if_pos scheme, verifySchnorr, preferredPayload_eq, noBlob]
  by_cases valid : schnorrVerify ops blake2b512 (transactionSigningPayloadV2 tx.core tx.timestamp
      chainId genesisHash tx.signatureScheme none) sig sender = true
  · simp [array, form, named, decoded, valid, pure, Except.pure]
  · simp [array, form, named, decoded, valid]

/-- A signature over one message is one over another exactly if the challenges agree or the key is
neutral. -/
theorem schnorrVerify_iff_of_valid {key : G} {sig : Signature F G} {message : Bytes} (message' : Bytes)
    (valid : schnorrVerify ops blake2b512 message sig key = true) :
    schnorrVerify ops blake2b512 message' sig key = true ↔
      challenge ops blake2b512 sig.r key message = challenge ops blake2b512 sig.r key message' ∨
        key = 0 := by
  simp only [schnorrVerify, decide_eq_true_eq] at valid ⊢
  constructor
  · intro other
    by_cases same : challenge ops blake2b512 sig.r key message = challenge ops blake2b512 sig.r key message'
    · exact .inl same
    · exact .inr (key_eq_zero_of_two_challenges same valid other)
  · rintro (same | neutral)
    · rw [← same, valid]
    · subst neutral
      rw [valid, smul_zero, smul_zero]

/-- A transaction with a signature over some payload, be it the newest, the first or the oldest version
of its own, is accepted exactly if that payload has the challenge of the newest version, or the key is the
neutral point. -/
theorem signedPayload_accepted_iff {tx : Transaction} {chainId : UInt64} {genesisHash : Hash}
    {sigBytes : ByteVec 64} {sig : Signature F G} {senderBytes : PublicKey} {sender : G} {payload : Bytes}
    (scheme : tx.signatureScheme = sigSchemeSchnorrV1) (noBlob : tx.senderPubkey = none)
    (array : toArray? 64 tx.signature = some sigBytes)
    (form : signatureFromBytes ops sigBytes = some sig)
    (named : txSenderPubkey tx = some senderBytes)
    (decoded : publicKeyFromBytes ops senderBytes = some sender)
    (valid : schnorrVerify ops blake2b512 payload sig sender = true) :
    verifyTxSignatureWithDomain ops blake2b512 bincodeCore tx chainId genesisHash = .ok () ↔
      challenge ops blake2b512 sig.r sender payload = challenge ops blake2b512 sig.r sender
        (transactionSigningPayloadV2 tx.core tx.timestamp chainId genesisHash tx.signatureScheme
          tx.senderPubkey) ∨ sender = 0 := by
  rw [verifyTxSignatureWithDomain_eq_ok_iff scheme noBlob array form named decoded]
  exact schnorrVerify_iff_of_valid _ valid

end Fallback

section Samples

theorem lawful_smallGroup : smallGroup.Lawful := ⟨by decide +kernel, by decide +kernel⟩

def signedOver (payload : Bytes) : Transaction :=
  ⟨sampleCore 1, 0, sampleSignature 1 payload, none, 7⟩

def samplePayloadV2 : Bytes := transactionSigningPayloadV2 (sampleCore 1) 7 31337 (zeros 32) 0 none

def samplePayloadV1 : Bytes := transactionSigningPayloadV1 (sampleCore 1) 7 31337 (zeros 32)

def samplePayloadLegacy : Bytes := transactionSigningPayload sampleBincodeCore (sampleCore 1) 7

/-- The transfer as the verifier reads it: a signature over the payload, and the key of its sender. -/
theorem signedOver_read (payload : Bytes) :
    ∃ sigBytes, toArray? 64 (signedOver payload).signature = some sigBytes ∧
      signatureFromBytes smallGroup sigBytes = some (schnorrSign smallGroup checksum 3 1 payload) ∧
      txSenderPubkey (signedOver payload) = some (padTo 32 [1]) ∧
      publicKeyFromBytes smallGroup (padTo 32 [1]) = some 1 ∧
      schnorrVerify smallGroup checksum payload (schnorrSign smallGroup checksum 3 1 payload) 1 =
        true := by
  let bytes : ByteVec 64 := ⟨sampleSignature 1 payload, length_signatureToBytes _⟩
  refine ⟨bytes, toArray?_toList bytes, ?_, rfl, lawful_smallGroup.point 1, ?_⟩
  · exact signatureFromBytes_signatureToBytes lawful_smallGroup rfl
  · exact schnorrVerify_schnorrSign 3 1 payload

theorem rejected_of_challenge_ne {payload : Bytes}
    (apart : challenge smallGroup checksum (3 • smallGroup.basepoint) 1 payload ≠
      challenge smallGroup checksum (3 • smallGroup.basepoint) 1 samplePayloadV2) :
    schnorrVerify smallGroup checksum payload (schnorrSign smallGroup checksum 3 1 payload) 1 = true ∧
      verifyTxSignatureWithDomain smallGroup checksum (.ok ∘ sampleBincodeCore) (signedOver payload)
        31337 (zeros 32) ≠ .ok () := by
  obtain ⟨sigBytes, array, form, named, decoded, valid⟩ := signedOver_read payload
  refine ⟨valid, fun accepted => ?_⟩
  have other := (verifyTxSignatureWithDomain_eq_ok_iff rfl rfl array form named decoded).mp accepted
  rcases (schnorrVerify_iff_of_valid _ valid).mp other with same | neutral
  · exact apart same
  · exact absurd neutral (by decide)

/-- Signatures over the first and over the oldest version verify, and are refused. -/
theorem olderPayloads_rejected :
    (schnorrVerify smallGroup checksum samplePayloadV1
        (schnorrSign smallGroup checksum 3 1 samplePayloadV1) 1 = true ∧
      verifyTxSignatureWithDomain smallGroup checksum (.ok ∘ sampleBincodeCore)
        (signedOver samplePayloadV1) 31337 (zeros 32) ≠ .ok ()) ∧
    schnorrVerify smallGroup checksum samplePayloadLegacy
        (schnorrSign smallGroup checksum 3 1 samplePayloadLegacy) 1 = true ∧
      verifyTxSignatureWithDomain smallGroup checksum (.ok ∘ sampleBincodeCore)
        (signedOver samplePayloadLegacy) 31337 (zeros 32) ≠ .ok () :=
  ⟨rejected_of_challenge_ne (by decide +kernel), rejected_of_challenge_ne (by decide +kernel)⟩

/-- The transfer signed over the newest version is accepted. -/
theorem signedPayload_accepted_iff_newest :
    verifyTxSignatureWithDomain smallGroup checksum (.ok ∘ sampleBincodeCore)
      (signedOver samplePayloadV2) 31337 (zeros 32) = .ok () := by
  obtain ⟨sigBytes, array, form, named, decoded, valid⟩ := signedOver_read samplePayloadV2
  exact (signedPayload_accepted_iff rfl rfl array form named decoded valid).mpr (.inl rfl)

end Samples

end CatalystNode
