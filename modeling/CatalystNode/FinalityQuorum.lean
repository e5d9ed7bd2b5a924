import CatalystNode.LsuFinality

namespace CatalystNode

open ByteVector HexCodec

theorem hCertPreimage_inj {chain chain' cycle cycle' : UInt64}
    {genesis genesis' lsu lsu' committee committee' votes votes' : Hash}
    (h : hCertPreimage chain genesis cycle lsu committee votes =
      hCertPreimage chain' genesis' cycle' lsu' committee' votes') :
    chain = chain' ∧ genesis = genesis' ∧ cycle = cycle' ∧ lsu = lsu' ∧
      committee = committee' ∧ votes = votes' := by
  simp only [hCertPreimage, List.append_cancel_left_eq, List.cons.injEq, true_and,
    leBytes_append_inj, toList_append_inj] at h
  obtain ⟨chains, geneses, cycles, lsus, committees, lists⟩ := h
  exact ⟨chains, geneses, cycles, lsus, committees, Subtype.ext lists⟩

section Committee

variable {F G : Type} [Field F] [AddCommGroup G] [Module F G] [DecidableEq G]
variable {ops : RistrettoOps F G} {blake2b512 : Bytes → ByteVec 64}

def certSignerKeys (ops : RistrettoOps F G) (blake2b512 : Bytes → ByteVec 64)
    (cert : LsuFinalityCertificateV1) : Finset PublicKey :=
  signerKeys ops blake2b512 (cert.digest blake2b512) cert.votes

/-- Two certificates over one committee share signers, and certificates of different updates make
those signers vouch for different digests. -/
theorem certSignerKeys_overlap {A B : LedgerStateUpdate} {certA certB : LsuFinalityCertificateV1}
    (committee : A.producerList = B.producerList)
    (lower : ∀ id ∈ A.producerList, LowerCase (utf8 id))
    (acceptA : verifyLsuFinalityCertificate ops blake2b512 certA A = .ok ())
    (acceptB : verifyLsuFinalityCertificate ops blake2b512 certB B = .ok ()) :
    let n := A.producerList.length
    let both := certSignerKeys ops blake2b512 certA ∩ certSignerKeys ops blake2b512 certB
    2 * ((2 * n) ⌈/⌉ 3) - n ≤ both.card ∧
    (∀ f, 3 * f + 1 ≤ n → f < both.card) ∧
    (∀ key ∈ both, key ∈ committeeKeys A.producerList ∧
      (∃ v ∈ certA.votes, signerKey ops blake2b512 (certA.digest blake2b512) v.producerId
        v.signature = some key) ∧
      ∃ v ∈ certB.votes, signerKey ops blake2b512 (certB.digest blake2b512) v.producerId
        v.signature = some key) ∧
    (hashData blake2b512 A ≠ hashData blake2b512 B →
      Set.InjOn (blake2b512Trunc32 blake2b512) {certA.preimage, certB.preimage} →
      certA.digest blake2b512 ≠ certB.digest blake2b512) := by
  intro n both
  have evidenceA := verifyLsuFinalityCertificate_ok acceptA
  have evidenceB := verifyLsuFinalityCertificate_ok acceptB
  have quorumB := evidenceB.quorum
  rw [← committee] at quorumB
  have overlap := evidenceA.quorum.overlap quorumB lower
  refine ⟨Nat.sub_le_iff_le_add'.mpr overlap,
    fun f faults => Quorum.two_thirds_overlap_gt faults overlap, fun key hkey => ?_,
    fun different collisionFree same => ?_⟩
  · obtain ⟨inA, inB⟩ := Finset.mem_inter.mp hkey
    exact ⟨evidenceA.quorum.signerKeys_subset inA, mem_signerKeys.mp inA, mem_signerKeys.mp inB⟩
  · have preimages : certA.preimage = certB.preimage :=
      collisionFree (Or.inl rfl) (Or.inr rfl) same
    obtain ⟨-, -, -, lsus, -, -⟩ := hCertPreimage_inj preimages
    rw [evidenceA.lsuHash, evidenceB.lsuHash] at lsus
    exact different lsus

end Committee

def sampleUpdate (ids : List ProducerId) (timestamp : UInt64) : LedgerStateUpdate where
  partialUpdate := ⟨[], zeros 32, 0, timestamp⟩
  compensationEntries := []
  cycleNumber := 5
  producerList := ids
  voteList := ids

def sampleCertificate (lsu : LedgerStateUpdate) (signers : List (ProducerId × ZMod 13)) :
    LsuFinalityCertificateV1 :=
  let unsigned : LsuFinalityCertificateV1 := {
    version := 1
    style := finalityCertStyleIndividual
    chainId := 7
    genesisHash := zeros 32
    cycle := lsu.cycleNumber
    lsuHash := hashData checksum lsu
    committeeHash := (committeeHashOrderedProducerList checksum lsu.producerList).getD (zeros 32)
    voteListHash := hashProducerListMerkle checksum lsu.voteList
    votes := [] }
  let digest := (unsigned.digest checksum).toList
  { unsigned with votes := signers.map (fun signer =>
      ⟨signer.1, sampleSignature signer.2 digest⟩) }

def sampleCommittee : List ProducerId := [sampleId "03", sampleId "05", sampleId "0c"]

theorem certSignerKeys_overlap_three :
    1 ≤ (certSignerKeys smallGroup checksum (sampleCertificate (sampleUpdate sampleCommittee 1)
          [(sampleId "03", 3), (sampleId "05", 5)]) ∩
        certSignerKeys smallGroup checksum (sampleCertificate (sampleUpdate sampleCommittee 2)
          [(sampleId "05", 5), (sampleId "0c", 12)])).card ∧
      (sampleCertificate (sampleUpdate sampleCommittee 1)
          [(sampleId "03", 3), (sampleId "05", 5)]).digest checksum ≠
        (sampleCertificate (sampleUpdate sampleCommittee 2)
          [(sampleId "05", 5), (sampleId "0c", 12)]).digest checksum := by
  have overlap := @certSignerKeys_overlap (ZMod 13) (ZMod 13) _ _ _ _ smallGroup checksum
    (sampleUpdate sampleCommittee 1) (sampleUpdate sampleCommittee 2)
    (sampleCertificate (sampleUpdate sampleCommittee 1) [(sampleId "03", 3), (sampleId "05", 5)])
    (sampleCertificate (sampleUpdate sampleCommittee 2) [(sampleId "05", 5), (sampleId "0c", 12)])
    rfl (by decide +kernel) (by decide +kernel) (by decide +kernel)
  refine ⟨overlap.1, overlap.2.2.2 (by decide +kernel) ?_⟩
  rw [Set.injOn_pair]
  exact fun same => absurd same (by decide +kernel)

section Committee

variable {F G : Type} [Field F] [AddCommGroup G] [Module F G] [DecidableEq G]
variable {ops : RistrettoOps F G} {blake2b512 : Bytes → ByteVec 64}

/-- An accepted certificate carries a quorum of distinct keys exactly when the votes that respell
another voter's key are covered by votes beyond the quorum. -/
theorem certSignerKeys_quorum_iff {cert : LsuFinalityCertificateV1} {lsu : LedgerStateUpdate}
    (accept : verifyLsuFinalityCertificate ops blake2b512 cert lsu = .ok ()) :
    (2 * lsu.producerList.length) ⌈/⌉ 3 ≤ (certSignerKeys ops blake2b512 cert).card ↔
      (2 * lsu.producerList.length) ⌈/⌉ 3 + respelledKeys cert.votes ≤ cert.votes.length := by
  have total := (verifyLsuFinalityCertificate_ok accept).quorum.card_add_respelled
  rw [certSignerKeys]
  omega

end Committee

def respelledCommittee : List ProducerId := [sampleId "0c", sampleId "0C"]

/-- Two spellings of one key pass as a committee of two that has reached its quorum. -/
theorem certSignerKeys_respelled :
    verifyLsuFinalityCertificate smallGroup checksum
        (sampleCertificate (sampleUpdate respelledCommittee 1)
          [(sampleId "0c", 12), (sampleId "0C", 12)])
        (sampleUpdate respelledCommittee 1) = .ok () ∧
      (certSignerKeys smallGroup checksum (sampleCertificate (sampleUpdate respelledCommittee 1)
        [(sampleId "0c", 12), (sampleId "0C", 12)])).card <
        (2 * (sampleUpdate respelledCommittee 1).producerList.length) ⌈/⌉ 3 := by
  decide +kernel

theorem certSignerKeys_quorum_iff_three :
    (2 * sampleCommittee.length) ⌈/⌉ 3 ≤
      (certSignerKeys smallGroup checksum (sampleCertificate (sampleUpdate sampleCommittee 1)
        [(sampleId "03", 3), (sampleId "05", 5)])).card :=
  (@certSignerKeys_quorum_iff (ZMod 13) (ZMod 13) _ _ _ _ smallGroup checksum
    (sampleCertificate (sampleUpdate sampleCommittee 1) [(sampleId "03", 3), (sampleId "05", 5)])
    (sampleUpdate sampleCommittee 1) (by decide +kernel)).mpr (by decide +kernel)

end CatalystNode
