import CatalystNode.FinalityQuorum

namespace CatalystNode

open ByteVector HexCodec

def maxStateRootAttestations : Nat := 256

inductive StateRootVerifyError where
  | badFormat
  | tooManyAttestations
  | emptyCommittee
  | lsuHashMismatch
  | committeeHashMismatch
  | duplicateAttester
  | attesterNotInCommittee
  | insufficientQuorum
  | invalidPublicKey
  | invalidSignatureBytes
  | invalidSignature
  deriving DecidableEq, Repr

def StateRootVerifyError.ofFault : SignatureFault → StateRootVerifyError
  | .invalidPublicKey => .invalidPublicKey
  | .invalidSignatureBytes => .invalidSignatureBytes
  | .invalidSignature => .invalidSignature

def stateRootDomainPadded : ByteVec 16 := padTo 16 (utf8 "CATALYST_LSUROOT")

abbrev StateRootAttestation := SignedStatement

structure LsuStateRootCertificateV1 where
  version : UInt8
  chainId : UInt64
  genesisHash : Hash
  cycle : UInt64
  lsuHash : Hash
  stateRoot : Hash
  committeeHash : Hash
  attestations : List StateRootAttestation
  deriving DecidableEq

def hRootPreimage (chainId : UInt64) (genesisHash : Hash) (cycle : UInt64)
    (lsuHash committeeHash stateRoot : Hash) : Bytes :=
  stateRootDomainPadded.toList ++ (1 :: (leBytes 8 chainId.toNat ++ (genesisHash.toList ++
    (leBytes 8 cycle.toNat ++ (lsuHash.toList ++ (committeeHash.toList ++ stateRoot.toList))))))

theorem hRootPreimage_inj {chain chain' cycle cycle' : UInt64}
    {genesis genesis' lsu lsu' committee committee' root root' : Hash}
    (h : hRootPreimage chain genesis cycle lsu committee root =
      hRootPreimage chain' genesis' cycle' lsu' committee' root') :
    chain = chain' ∧ genesis = genesis' ∧ cycle = cycle' ∧ lsu = lsu' ∧
      committee = committee' ∧ root = root' := by
  simp only [hRootPreimage, List.append_cancel_left_eq, List.cons.injEq, true_and,
    leBytes_append_inj, toList_append_inj] at h
  obtain ⟨chains, geneses, cycles, lsus, committees, roots⟩ := h
  exact ⟨chains, geneses, cycles, lsus, committees, Subtype.ext roots⟩

section Verifier

variable {F G : Type} [Field F] [AddCommGroup G] [Module F G] [DecidableEq G]
variable (ops : RistrettoOps F G) (blake2b512 : Bytes → ByteVec 64)

def hRootV1 (chainId : UInt64) (genesisHash : Hash) (cycle : UInt64)
    (lsuHash committeeHash stateRoot : Hash) : Hash :=
  blake2b512Trunc32 blake2b512
    (hRootPreimage chainId genesisHash cycle lsuHash committeeHash stateRoot)

def LsuStateRootCertificateV1.digest (cert : LsuStateRootCertificateV1) : Hash :=
  hRootV1 blake2b512 cert.chainId cert.genesisHash cert.cycle cert.lsuHash cert.committeeHash
    cert.stateRoot

def LsuStateRootCertificateV1.preimage (cert : LsuStateRootCertificateV1) : Bytes :=
  hRootPreimage cert.chainId cert.genesisHash cert.cycle cert.lsuHash cert.committeeHash
    cert.stateRoot

/-- The checks of one attestation; unlike a vote it need not be on the update's vote list. -/
def checkAttestation (digest : Hash) (lsu : LedgerStateUpdate) (a : StateRootAttestation) :
    Except StateRootVerifyError Unit :=
  if a.producerId ∉ lsu.producerList then .error .attesterNotInCommittee
  else (checkProducerSignature ops blake2b512 digest a.producerId a.signature).mapError .ofFault

def verifyLsuStateRootCertificate (cert : LsuStateRootCertificateV1) (lsu : LedgerStateUpdate) :
    Except StateRootVerifyError Unit :=
  if cert.version ≠ 1 then .error .badFormat
  else if maxStateRootAttestations < cert.attestations.length then .error .tooManyAttestations
  else if hashData blake2b512 lsu ≠ cert.lsuHash ∨ lsu.cycleNumber ≠ cert.cycle then
    .error .lsuHashMismatch
  else match committeeHashOrderedProducerList blake2b512 lsu.producerList with
    | none => .error .emptyCommittee
    | some committeeHash =>
      if committeeHash ≠ cert.committeeHash then .error .committeeHashMismatch
      else match countStatements .duplicateAttester
          (checkAttestation ops blake2b512 (cert.digest blake2b512) lsu) [] 0 cert.attestations with
        | .error fault => .error fault
        | .ok valid =>
          if valid < bftVoteThreshold lsu.producerList.length then .error .insufficientQuorum
          else .ok ()

def rootSignerKeys (cert : LsuStateRootCertificateV1) : Finset PublicKey :=
  signerKeys ops blake2b512 (cert.digest blake2b512) cert.attestations

variable {ops blake2b512}

theorem checkAttestation_ok {digest : Hash} {lsu : LedgerStateUpdate} {a : StateRootAttestation}
    (h : checkAttestation ops blake2b512 digest lsu a = .ok ()) :
    a.producerId ∈ lsu.producerList ∧
      ∃ key, parseProducerHex32 a.producerId = some key ∧
        signerKey ops blake2b512 digest a.producerId a.signature = some key := by
  unfold checkAttestation at h
  split at h
  next => simp at h
  next member =>
    rw [not_not] at member
    cases checked : checkProducerSignature ops blake2b512 digest a.producerId a.signature with
    | error fault => simp [checked, Except.mapError] at h
    | ok _ => exact ⟨member, checkProducerSignature_ok checked⟩

theorem verifyLsuStateRootCertificate_ok {cert : LsuStateRootCertificateV1}
    {lsu : LedgerStateUpdate}
    (h : verifyLsuStateRootCertificate ops blake2b512 cert lsu = .ok ()) :
    StatementQuorum ops blake2b512 (cert.digest blake2b512) lsu.producerList cert.attestations := by
  unfold verifyLsuStateRootCertificate at h
  split at h
  next => simp at h
  split at h
  next => simp at h
  split at h
  next => simp at h
  split at h
  next => simp at h
  next committeeHash committee =>
    split at h
    next => simp at h
    split at h
    next => simp at h
    next valid counted =>
      split at h
      next => simp at h
      next enough =>
        obtain ⟨count, distinct, checks⟩ := countStatements_ok counted
        rw [bftVoteThreshold_eq (committeeHash_nonempty committee), count] at enough
        have passed := fun a ha => checkAttestation_ok (checks a ha).2
        exact ⟨distinct, fun a ha => (passed a ha).1, fun a ha => (passed a ha).2, by omega⟩

/-- Two accepted certificates with different state roots for one update share signers, each of whom
signed two different digests. -/
theorem rootSignerKeys_overlap {lsu : LedgerStateUpdate} {cert cert' : LsuStateRootCertificateV1}
    (lower : ∀ id ∈ lsu.producerList, LowerCase (utf8 id))
    (accept : verifyLsuStateRootCertificate ops blake2b512 cert lsu = .ok ())
    (accept' : verifyLsuStateRootCertificate ops blake2b512 cert' lsu = .ok ())
    (roots : cert.stateRoot ≠ cert'.stateRoot)
    (collisionFree : Set.InjOn (blake2b512Trunc32 blake2b512) {cert.preimage, cert'.preimage}) :
    let n := lsu.producerList.length
    let both := rootSignerKeys ops blake2b512 cert ∩ rootSignerKeys ops blake2b512 cert'
    2 * ((2 * n) ⌈/⌉ 3) - n ≤ both.card ∧
    cert.digest blake2b512 ≠ cert'.digest blake2b512 ∧
    ∀ key ∈ both, key ∈ committeeKeys lsu.producerList ∧
      (∃ a ∈ cert.attestations, signerKey ops blake2b512 (cert.digest blake2b512) a.producerId
        a.signature = some key) ∧
      ∃ a ∈ cert'.attestations, signerKey ops blake2b512 (cert'.digest blake2b512) a.producerId
        a.signature = some key := by
  intro n both
  have quorum := verifyLsuStateRootCertificate_ok accept
  have quorum' := verifyLsuStateRootCertificate_ok accept'
  refine ⟨Nat.sub_le_iff_le_add'.mpr (quorum.overlap quorum' lower), fun same => ?_,
    fun key hkey => ?_⟩
  · have preimages : cert.preimage = cert'.preimage := collisionFree (Or.inl rfl) (Or.inr rfl) same
    exact roots (hRootPreimage_inj preimages).2.2.2.2.2
  · obtain ⟨here, there⟩ := Finset.mem_inter.mp hkey
    exact ⟨quorum.signerKeys_subset here, mem_signerKeys.mp here, mem_signerKeys.mp there⟩

end Verifier

def sampleRootCertificate (lsu : LedgerStateUpdate) (stateRoot : Hash)
    (signers : List (ProducerId × ZMod 13)) : LsuStateRootCertificateV1 :=
  let unsigned : LsuStateRootCertificateV1 := {
    version := 1
    chainId := 7
    genesisHash := zeros 32
    cycle := lsu.cycleNumber
    lsuHash := hashData checksum lsu
    stateRoot
    committeeHash := (committeeHashOrderedProducerList checksum lsu.producerList).getD (zeros 32)
    attestations := [] }
  let digest := (unsigned.digest checksum).toList
  { unsigned with attestations := signers.map (fun signer =>
      ⟨signer.1, sampleSignature signer.2 digest⟩) }

theorem rootSignerKeys_overlap_three :
    1 ≤ (rootSignerKeys smallGroup checksum
          (sampleRootCertificate (sampleUpdate sampleCommittee 1) (padTo 32 [1])
            [(sampleId "03", 3), (sampleId "05", 5)]) ∩
        rootSignerKeys smallGroup checksum
          (sampleRootCertificate (sampleUpdate sampleCommittee 1) (padTo 32 [2])
            [(sampleId "05", 5), (sampleId "0c", 12)])).card :=
  (@rootSignerKeys_overlap (ZMod 13) (ZMod 13) _ _ _ _ smallGroup checksum
    (sampleUpdate sampleCommittee 1)
    (sampleRootCertificate (sampleUpdate sampleCommittee 1) (padTo 32 [1])
      [(sampleId "03", 3), (sampleId "05", 5)])
    (sampleRootCertificate (sampleUpdate sampleCommittee 1) (padTo 32 [2])
      [(sampleId "05", 5), (sampleId "0c", 12)])
    (by decide +kernel) (by decide +kernel) (by decide +kernel) (by decide +kernel)
    (Set.injOn_pair.mpr (fun same => absurd same (by decide +kernel)))).1

end CatalystNode
