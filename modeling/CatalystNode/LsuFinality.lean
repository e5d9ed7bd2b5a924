import CatalystNode.SignedQuorum
import CatalystNode.ProducerMerkle

namespace CatalystNode

open ByteVector HexCodec

def finalityCertStyleIndividual : UInt8 := 1

def maxFinalityVotes : Nat := 256

inductive LsuFinalityVerifyError where
  | badFormat
  | tooManyVotes
  | emptyCommittee
  | lsuHashMismatch
  | committeeHashMismatch
  | voteListHashMismatch
  | duplicateVoter
  | voterNotInCommittee
  | voterNotInVoteList
  | insufficientQuorum
  | invalidPublicKey
  | invalidSignatureBytes
  | invalidSignature
  deriving DecidableEq, Repr

def LsuFinalityVerifyError.ofFault : SignatureFault → LsuFinalityVerifyError
  | .invalidPublicKey => .invalidPublicKey
  | .invalidSignatureBytes => .invalidSignatureBytes
  | .invalidSignature => .invalidSignature

def finalityDomainPadded : ByteVec 16 := padTo 16 (utf8 "CATALYST_LSUFC")

abbrev ProducerFinalityVote := SignedStatement

structure LsuFinalityCertificateV1 where
  version : UInt8
  style : UInt8
  chainId : UInt64
  genesisHash : Hash
  cycle : UInt64
  lsuHash : Hash
  committeeHash : Hash
  voteListHash : Hash
  votes : List ProducerFinalityVote
  deriving DecidableEq

def hCertPreimage (chainId : UInt64) (genesisHash : Hash) (cycle : UInt64)
    (lsuHash committeeHash voteListHash : Hash) : Bytes :=
  finalityDomainPadded.toList ++ (1 :: (leBytes 8 chainId.toNat ++ (genesisHash.toList ++
    (leBytes 8 cycle.toNat ++ (lsuHash.toList ++ (committeeHash.toList ++ voteListHash.toList))))))

section Verifier

variable {F G : Type} [Field F] [AddCommGroup G] [Module F G] [DecidableEq G]
variable (ops : RistrettoOps F G) (blake2b512 : Bytes → ByteVec 64)

def committeeHashOrderedProducerList (producerList : List ProducerId) : Option Hash :=
  if producerList.isEmpty then none
  else do
    let raw ← producerList.mapM parseProducerHex32
    return blake2b512Trunc32 blake2b512 (raw.flatMap (fun key => key.toList))

def hCertV1 (chainId : UInt64) (genesisHash : Hash) (cycle : UInt64)
    (lsuHash committeeHash voteListHash : Hash) : Hash :=
  blake2b512Trunc32 blake2b512
    (hCertPreimage chainId genesisHash cycle lsuHash committeeHash voteListHash)

def checkVote (digest : Hash) (lsu : LedgerStateUpdate) (v : ProducerFinalityVote) :
    Except LsuFinalityVerifyError Unit :=
  if v.producerId ∉ lsu.producerList then .error .voterNotInCommittee
  else if v.producerId ∉ lsu.voteList then .error .voterNotInVoteList
  else (checkProducerSignature ops blake2b512 digest v.producerId v.signature).mapError .ofFault

def LsuFinalityCertificateV1.digest (cert : LsuFinalityCertificateV1) : Hash :=
  hCertV1 blake2b512 cert.chainId cert.genesisHash cert.cycle cert.lsuHash cert.committeeHash
    cert.voteListHash

def LsuFinalityCertificateV1.preimage (cert : LsuFinalityCertificateV1) : Bytes :=
  hCertPreimage cert.chainId cert.genesisHash cert.cycle cert.lsuHash cert.committeeHash
    cert.voteListHash

def LsuFinalityCertificateV1.fromLsuAndVotes (lsu : LedgerStateUpdate) (chainId : UInt64)
    (genesisHash lsuHash : Hash) (votes : List ProducerFinalityVote) :
    Except LsuFinalityVerifyError LsuFinalityCertificateV1 :=
  match committeeHashOrderedProducerList blake2b512 lsu.producerList with
  | none => .error .emptyCommittee
  | some committeeHash => .ok {
      version := 1
      style := finalityCertStyleIndividual
      chainId
      genesisHash
      cycle := lsu.cycleNumber
      lsuHash
      committeeHash
      voteListHash := hashProducerListMerkle blake2b512 lsu.voteList
      votes }

def verifyLsuFinalityCertificate (cert : LsuFinalityCertificateV1) (lsu : LedgerStateUpdate) :
    Except LsuFinalityVerifyError Unit :=
  if cert.version ≠ 1 ∨ cert.style ≠ finalityCertStyleIndividual then .error .badFormat
  else if maxFinalityVotes < cert.votes.length then .error .tooManyVotes
  else if hashData blake2b512 lsu ≠ cert.lsuHash ∨ lsu.cycleNumber ≠ cert.cycle then
    .error .lsuHashMismatch
  else match committeeHashOrderedProducerList blake2b512 lsu.producerList with
    | none => .error .emptyCommittee
    | some committeeHash =>
      if committeeHash ≠ cert.committeeHash then .error .committeeHashMismatch
      else if hashProducerListMerkle blake2b512 lsu.voteList ≠ cert.voteListHash then
        .error .voteListHashMismatch
      else match countStatements .duplicateVoter
          (checkVote ops blake2b512 (cert.digest blake2b512) lsu) [] 0 cert.votes with
        | .error fault => .error fault
        | .ok valid =>
          if valid < bftVoteThreshold lsu.producerList.length then .error .insufficientQuorum
          else .ok ()

/-- The statement that certifies an update on a chain, fixed by the update itself. -/
def certifiedDigest (chainId : UInt64) (genesisHash : Hash) (lsu : LedgerStateUpdate) :
    Option Hash :=
  (committeeHashOrderedProducerList blake2b512 lsu.producerList).map (fun committeeHash =>
    hCertV1 blake2b512 chainId genesisHash lsu.cycleNumber (hashData blake2b512 lsu) committeeHash
      (hashProducerListMerkle blake2b512 lsu.voteList))

structure FinalityEvidence (cert : LsuFinalityCertificateV1) (lsu : LedgerStateUpdate) : Prop where
  lsuHash : cert.lsuHash = hashData blake2b512 lsu
  cycle : cert.cycle = lsu.cycleNumber
  committee : committeeHashOrderedProducerList blake2b512 lsu.producerList = some cert.committeeHash
  voteList : hashProducerListMerkle blake2b512 lsu.voteList = cert.voteListHash
  quorum : StatementQuorum ops blake2b512 (cert.digest blake2b512) lsu.producerList cert.votes
  voters : ∀ v ∈ cert.votes, v.producerId ∈ lsu.voteList

variable {ops blake2b512}

theorem checkVote_ok {digest : Hash} {lsu : LedgerStateUpdate} {v : ProducerFinalityVote}
    (h : checkVote ops blake2b512 digest lsu v = .ok ()) :
    v.producerId ∈ lsu.producerList ∧ v.producerId ∈ lsu.voteList ∧
      ∃ key, parseProducerHex32 v.producerId = some key ∧
        signerKey ops blake2b512 digest v.producerId v.signature = some key := by
  unfold checkVote at h
  split at h
  next => simp at h
  next member =>
    split at h
    next => simp at h
    next voter =>
      rw [not_not] at member voter
      cases checked : checkProducerSignature ops blake2b512 digest v.producerId v.signature with
      | error fault => simp [checked, Except.mapError] at h
      | ok _ => exact ⟨member, voter, checkProducerSignature_ok checked⟩

theorem committeeHash_nonempty {producerList : List ProducerId} {committeeHash : Hash}
    (h : committeeHashOrderedProducerList blake2b512 producerList = some committeeHash) :
    producerList.length ≠ 0 := by
  intro empty
  simp [committeeHashOrderedProducerList, List.length_eq_zero_iff.mp empty] at h

theorem verifyLsuFinalityCertificate_ok {cert : LsuFinalityCertificateV1} {lsu : LedgerStateUpdate}
    (h : verifyLsuFinalityCertificate ops blake2b512 cert lsu = .ok ()) :
    FinalityEvidence ops blake2b512 cert lsu := by
  unfold verifyLsuFinalityCertificate at h
  split at h
  next => simp at h
  split at h
  next => simp at h
  split at h
  next => simp at h
  next same =>
    rw [not_or, not_not, not_not] at same
    split at h
    next => simp at h
    next committeeHash committee =>
      split at h
      next => simp at h
      next sameCommittee =>
        split at h
        next => simp at h
        next sameVotes =>
          rw [not_not] at sameCommittee sameVotes
          split at h
          next => simp at h
          next valid votes =>
            split at h
            next => simp at h
            next enough =>
              obtain ⟨count, distinct, checks⟩ := countStatements_ok votes
              rw [bftVoteThreshold_eq (committeeHash_nonempty committee), count] at enough
              have passed := fun v hv => checkVote_ok (checks v hv).2
              exact ⟨same.1.symm, same.2.symm, sameCommittee ▸ committee, sameVotes,
                ⟨distinct, fun v hv => (passed v hv).1, fun v hv => (passed v hv).2.2, by omega⟩,
                fun v hv => (passed v hv).2.1⟩

theorem FinalityEvidence.certifiedDigest_eq {cert : LsuFinalityCertificateV1}
    {lsu : LedgerStateUpdate} (evidence : FinalityEvidence ops blake2b512 cert lsu) :
    certifiedDigest blake2b512 cert.chainId cert.genesisHash lsu = some (cert.digest blake2b512) := by
  rw [certifiedDigest, evidence.committee, LsuFinalityCertificateV1.digest, evidence.cycle,
    evidence.lsuHash, evidence.voteList]
  rfl

end Verifier

end CatalystNode
