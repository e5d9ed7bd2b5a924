import CatalystNode.ForkChoice

namespace CatalystNode

open ByteVector HexCodec CanonicalList

section Gate

variable {F G : Type} [Field F] [AddCommGroup G] [Module F G] [DecidableEq G] {env : NodeEnv F G}

theorem lsuHasVerifiedFinalityCert_iff {store : Store} {dfs : ContentStore}
    {lsu : LedgerStateUpdate} {cycle : UInt64} {finalityCidHint : String} :
    lsuHasVerifiedFinalityCert env store dfs lsu cycle finalityCidHint = true ↔
      ∃ cert, loadedFinalityCert env store dfs cycle finalityCidHint = some cert ∧
        verifyLsuFinalityCertificate env.ops env.blake2b512 cert lsu = .ok () := by
  unfold lsuHasVerifiedFinalityCert
  cases loadedFinalityCert env store dfs cycle finalityCidHint <;> simp

theorem effectiveForkChoiceTier_certifiedOnly (lsu : LedgerStateUpdate) (certified : Bool) :
    effectiveForkChoiceTier lsu certified true = .certified ↔ certified = true := by
  cases certified <;> simp [effectiveForkChoiceTier]

/-- Under the production policy nothing passes the gate without a verified certificate. -/
theorem forkChoiceApplyGate_certified {store : Store} {dfs : Option ContentStore}
    {lsu : LedgerStateUpdate} {cycle : UInt64} {lsuHash : Hash} {finalityCidHint : String}
    (allow : (forkChoiceApplyGate env store dfs lsu cycle lsuHash finalityCidHint true).1 = .allow) :
    ∃ content cert, dfs = some content ∧
      loadedFinalityCert env store content cycle finalityCidHint = some cert ∧
      verifyLsuFinalityCertificate env.ops env.blake2b512 cert lsu = .ok () := by
  unfold forkChoiceApplyGate at allow
  simp only [forkChoiceCandidateForLsu, ForkChoiceCandidate.new, true_and] at allow
  split at allow
  next => simp at allow
  next tier =>
    rw [not_not, effectiveForkChoiceTier_certifiedOnly] at tier
    cases dfs with
    | none => simp at tier
    | some content =>
      obtain ⟨cert, loaded, verified⟩ := lsuHasVerifiedFinalityCert_iff.mp tier
      exact ⟨content, cert, rfl, loaded, verified⟩

/-- An update let through by the gate, with a certificate of this store's chain, is certified by a quorum
of the committee it names itself. If that committee is the worker set of the store, a quorum of the
workers has certified it. -/
theorem forkChoiceApplyGate_allow {store : Store} {dfs : Option ContentStore}
    {lsu : LedgerStateUpdate} {cycle : UInt64} {finalityCidHint : String}
    (allow : (forkChoiceApplyGate env store dfs lsu cycle (hashData env.blake2b512 lsu)
      finalityCidHint true).1 = .allow) :
    ∃ content cert, dfs = some content ∧
      loadedFinalityCert env store content cycle finalityCidHint = some cert ∧
      (cert.chainId = loadChainIdU64 store → cert.genesisHash = loadGenesisHash32 store →
        ∃ digest, certifiedDigest env.blake2b512 (loadChainIdU64 store) (loadGenesisHash32 store) lsu =
            some digest ∧
          StatementQuorum env.ops env.blake2b512 digest lsu.producerList cert.votes ∧
          (∀ v ∈ cert.votes, v.producerId ∈ lsu.voteList) ∧
          ((∀ id ∈ lsu.producerList, LowerCase (utf8 id)) →
            committeeKeys lsu.producerList = (loadWorkersFromState store).toFinset →
            (2 * (loadWorkersFromState store).length) ⌈/⌉ 3 ≤
              (signerKeys env.ops env.blake2b512 digest cert.votes ∩
                (loadWorkersFromState store).toFinset).card)) := by
  obtain ⟨content, cert, rfl, loaded, verified⟩ := forkChoiceApplyGate_certified allow
  have evidence := verifyLsuFinalityCertificate_ok verified
  refine ⟨content, cert, rfl, loaded, fun chain genesis => ⟨cert.digest env.blake2b512, ?_,
    evidence.quorum, evidence.voters, fun lower workers => ?_⟩⟩
  · rw [← chain, ← genesis]
    exact evidence.certifiedDigest_eq
  · have subset := evidence.quorum.signerKeys_subset
    have quorum := evidence.quorum.quorum_le_card lower
    have distinct : (loadWorkersFromState store).Nodup := nodup_sortDedup _
    have fewer : (loadWorkersFromState store).length ≤ lsu.producerList.length := by
      rw [← List.toFinset_card_of_nodup distinct, ← workers]
      exact card_committeeKeys_le lsu.producerList
    rw [workers] at subset
    rw [Finset.inter_eq_left.mpr subset]
    rw [Nat.ceilDiv_eq_add_pred_div] at quorum ⊢
    omega

end Gate

def sampleEnv (cert : LsuFinalityCertificateV1) : NodeEnv (ZMod 13) (ZMod 13) where
  ops := smallGroup
  blake2b512 := checksum
  fromUtf8Lossy _ := ""
  decodeFinalityCert bytes := if bytes = [1] then some cert else none
  decodeStateRootCert _ := none
  allowCertEquivocationTiebreak := false

def sampleContent : ContentStore := fun cid => if cid = "certificate" then some [1] else none

def sampleStore (worker : PublicKey) : Store :=
  (Store.empty.setMetadata "protocol:chain_id" (encodeU64 7)).setState (workerKeyForPubkey worker) [1]

def outsiderUpdate : LedgerStateUpdate := sampleUpdate [sampleId "0c"] 1

def outsiderCertificate : LsuFinalityCertificateV1 :=
  sampleCertificate outsiderUpdate [(sampleId "0c", 12)]

/-- A committee of one outsider certifies its own update past the gate of a store whose only worker
is someone else. -/
theorem forkChoiceApplyGate_outsider :
    (loadWorkersFromState (sampleStore (padTo 32 [9]))) ≠ [] ∧
    (forkChoiceApplyGate (sampleEnv outsiderCertificate) (sampleStore (padTo 32 [9]))
      (some sampleContent) outsiderUpdate 5 (hashData checksum outsiderUpdate) "certificate"
      true).1 = .allow ∧
    certifiedDigest checksum (loadChainIdU64 (sampleStore (padTo 32 [9])))
      (loadGenesisHash32 (sampleStore (padTo 32 [9]))) outsiderUpdate =
        some (outsiderCertificate.digest checksum) ∧
    (signerKeys smallGroup checksum (outsiderCertificate.digest checksum) outsiderCertificate.votes ∩
        (loadWorkersFromState (sampleStore (padTo 32 [9]))).toFinset).card <
      (2 * (loadWorkersFromState (sampleStore (padTo 32 [9]))).length) ⌈/⌉ 3 := by
  decide +kernel

theorem forkChoiceApplyGate_allow_worker :
    (2 * (loadWorkersFromState (sampleStore (padTo 32 [12]))).length) ⌈/⌉ 3 ≤
      (signerKeys smallGroup checksum (outsiderCertificate.digest checksum) outsiderCertificate.votes ∩
        (loadWorkersFromState (sampleStore (padTo 32 [12]))).toFinset).card := by
  have found : loadedFinalityCert (sampleEnv outsiderCertificate) (sampleStore (padTo 32 [12]))
      sampleContent 5 "certificate" = some outsiderCertificate := by decide +kernel
  obtain ⟨content, cert, same, loaded, certified⟩ :=
    @forkChoiceApplyGate_allow (ZMod 13) (ZMod 13) _ _ _ _ (sampleEnv outsiderCertificate)
      (sampleStore (padTo 32 [12])) (some sampleContent) outsiderUpdate 5 "certificate"
      (by decide +kernel)
  cases Option.some.inj same
  cases Option.some.inj (found.symm.trans loaded)
  obtain ⟨digest, digestEq, -, -, workers⟩ := certified (by decide +kernel) (by decide +kernel)
  have digests : certifiedDigest checksum (loadChainIdU64 (sampleStore (padTo 32 [12])))
      (loadGenesisHash32 (sampleStore (padTo 32 [12]))) outsiderUpdate =
        some (outsiderCertificate.digest checksum) := by decide +kernel
  cases Option.some.inj (digests.symm.trans digestEq)
  exact workers (by decide +kernel) (by decide +kernel)

end CatalystNode
