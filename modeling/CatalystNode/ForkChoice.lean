import CatalystNode.StateRootFinality
import CatalystNode.Store
import CatalystNode.WireDecode

namespace CatalystNode

open ByteVector HexCodec

inductive ForkChoiceTier where
  | none
  | quorumInferred
  | certified
  deriving DecidableEq, Repr

def ForkChoiceTier.rank : ForkChoiceTier → Nat
  | .none => 0
  | .quorumInferred => 1
  | .certified => 2

structure ForkChoiceCandidate where
  cycle : UInt64
  lsuHash : Hash
  tier : ForkChoiceTier
  stateRootCertified : Bool
  deriving DecidableEq

def lsuHasBftVoteQuorum (lsu : LedgerStateUpdate) : Bool :=
  lsu.producerList.length ≠ 0 ∧ (∀ v ∈ lsu.voteList, v ∈ lsu.producerList) ∧
    bftVoteThreshold lsu.producerList.length ≤ lsu.voteList.dedup.length

def effectiveForkChoiceTier (lsu : LedgerStateUpdate) (certified certifiedOnly : Bool) :
    ForkChoiceTier :=
  if certified then .certified
  else if certifiedOnly then .none
  else if lsuHasBftVoteQuorum lsu then .quorumInferred
  else .none

def ForkChoiceCandidate.new (cycle : UInt64) (lsuHash : Hash) (lsu : LedgerStateUpdate)
    (certified certifiedOnly stateRootCertified : Bool) : ForkChoiceCandidate :=
  ⟨cycle, lsuHash, effectiveForkChoiceTier lsu certified certifiedOnly, stateRootCertified⟩

inductive CertifiedEquivocationPolicy where
  | stallAndAlert
  | tieBreak
  deriving DecidableEq, Repr

inductive CertifiedHashRegister where
  | ok
  | conflictingCertified (existing new : Hash)
  deriving DecidableEq

def registerCertifiedHash (stored : Option Hash) (newHash : Hash) : CertifiedHashRegister :=
  match stored with
  | none => .ok
  | some existing => if existing = newHash then .ok else .conflictingCertified existing newHash

def certifiedHashMetadataKey (cycle : UInt64) : String := s!"consensus:certified_lsu_hash:{cycle}"

inductive ForkChoicePrefer where
  | left
  | right
  | tie
  deriving DecidableEq, Repr

def forkChoicePrefer (a b : ForkChoiceCandidate) : ForkChoicePrefer :=
  if a.lsuHash = b.lsuHash then .tie
  else if b.tier.rank < a.tier.rank then .left
  else if a.tier.rank < b.tier.rank then .right
  else match a.stateRootCertified, b.stateRootCertified with
    | true, false => .left
    | false, true => .right
    | _, _ => if a.lsuHash < b.lsuHash then .left else .right

def incomingWeakerThanStored (incoming stored : ForkChoiceCandidate) : Bool :=
  forkChoicePrefer incoming stored = .right

inductive ForkChoiceApplyGate where
  | allow
  | rejectWeaker
  | rejectNonCertified
  | stallCertifiedEquivocation
  deriving DecidableEq, Repr

/-- Library code and process environment the node calls: the signature group, the hashes, lossy
UTF-8 decoding, the certificate decoders and the equivocation override. -/
structure NodeEnv (F G : Type) where
  ops : RistrettoOps F G
  blake2b512 : Bytes → ByteVec 64
  fromUtf8Lossy : Bytes → String
  decodeFinalityCert : Bytes → Option LsuFinalityCertificateV1
  decodeStateRootCert : Bytes → Option LsuStateRootCertificateV1
  allowCertEquivocationTiebreak : Bool

abbrev ContentStore := String → Option Bytes

section Gate

variable {F G : Type} [Field F] [AddCommGroup G] [Module F G] [DecidableEq G] (env : NodeEnv F G)

def metaString (store : Store) (key : String) : Option String := do
  let b ← store.getMetadata key
  let s := env.fromUtf8Lossy b
  if s = "" then none else some s

def certifiedEquivocationPolicy (certifiedOnly : Bool) : CertifiedEquivocationPolicy :=
  if certifiedOnly ∧ ¬env.allowCertEquivocationTiebreak then .stallAndAlert else .tieBreak

def loadedFinalityCert (store : Store) (dfs : ContentStore) (cycle : UInt64)
    (finalityCidHint : String) : Option LsuFinalityCertificateV1 := do
  let cid ← if finalityCidHint ≠ "" then some finalityCidHint
    else metaString env store s!"consensus:lsu_finality_cid:{cycle}"
  let bytes ← dfs cid
  env.decodeFinalityCert bytes

def lsuHasVerifiedFinalityCert (store : Store) (dfs : ContentStore) (lsu : LedgerStateUpdate)
    (cycle : UInt64) (finalityCidHint : String) : Bool :=
  match loadedFinalityCert env store dfs cycle finalityCidHint with
  | none => false
  | some cert => verifyLsuFinalityCertificate env.ops env.blake2b512 cert lsu = .ok ()

def lsuHasVerifiedStateRootCert (store : Store) (dfs : ContentStore) (lsu : LedgerStateUpdate)
    (cycle : UInt64) : Bool :=
  match (do
    let cid ← metaString env store s!"consensus:lsu_state_root_cid:{cycle}"
    let bytes ← dfs cid
    env.decodeStateRootCert bytes) with
  | none => false
  | some cert => verifyLsuStateRootCertificate env.ops env.blake2b512 cert lsu = .ok ()

def forkChoiceCandidateForLsu (store : Store) (dfs : Option ContentStore) (lsu : LedgerStateUpdate)
    (cycle : UInt64) (lsuHash : Hash) (finalityCidHint : String) (certifiedOnly : Bool) :
    ForkChoiceCandidate :=
  let certified := dfs.elim false (fun dfs =>
    lsuHasVerifiedFinalityCert env store dfs lsu cycle finalityCidHint)
  let stateRootCertified := dfs.elim false (fun dfs =>
    lsuHasVerifiedStateRootCert env store dfs lsu cycle)
  .new cycle lsuHash lsu certified certifiedOnly stateRootCertified

def loadForkChoiceCandidateAtCycle (store : Store) (dfs : Option ContentStore) (cycle : UInt64)
    (certifiedOnly : Bool) : Option ForkChoiceCandidate := do
  let hashBytes ← store.getMetadata s!"consensus:lsu_hash:{cycle}"
  let lsuHash ← toArray? 32 hashBytes
  let lsuBytes ← store.getMetadata s!"consensus:lsu:{cycle}"
  let lsu : LedgerStateUpdate ← deserialize lsuBytes
  if lsu.cycleNumber ≠ cycle then none
  else some (forkChoiceCandidateForLsu env store dfs lsu cycle lsuHash "" certifiedOnly)

def forkChoiceRejectWeakerIncoming (store : Store) (dfs : Option ContentStore)
    (incoming : ForkChoiceCandidate) (certifiedOnly : Bool) : Bool :=
  match loadForkChoiceCandidateAtCycle env store dfs incoming.cycle certifiedOnly with
  | none => false
  | some stored =>
    if stored.lsuHash = incoming.lsuHash then false else incomingWeakerThanStored incoming stored

def loadStoredCertifiedHashAtCycle (store : Store) (cycle : UInt64) : Option Hash :=
  (store.getMetadata (certifiedHashMetadataKey cycle)).bind (toArray? 32)

def gateAgainstStored (store : Store) (dfs : Option ContentStore) (incoming : ForkChoiceCandidate)
    (certifiedOnly : Bool) : ForkChoiceApplyGate :=
  if forkChoiceRejectWeakerIncoming env store dfs incoming certifiedOnly then .rejectWeaker
  else .allow

def forkChoiceApplyGate (store : Store) (dfs : Option ContentStore) (lsu : LedgerStateUpdate)
    (cycle : UInt64) (lsuHash : Hash) (finalityCidHint : String) (certifiedOnly : Bool) :
    ForkChoiceApplyGate × Store :=
  let certified := dfs.elim false (fun dfs =>
    lsuHasVerifiedFinalityCert env store dfs lsu cycle finalityCidHint)
  let incoming :=
    forkChoiceCandidateForLsu env store dfs lsu cycle lsuHash finalityCidHint certifiedOnly
  if certifiedOnly ∧ incoming.tier ≠ .certified then (.rejectNonCertified, store)
  else if certified then
    let storedCert := loadStoredCertifiedHashAtCycle store cycle
    match registerCertifiedHash storedCert lsuHash with
    | .ok =>
      let store := if storedCert.isNone then
        store.setMetadata (certifiedHashMetadataKey cycle) lsuHash.toList else store
      (gateAgainstStored env store dfs incoming certifiedOnly, store)
    | .conflictingCertified _ _ =>
      match certifiedEquivocationPolicy env certifiedOnly with
      | .stallAndAlert => (.stallCertifiedEquivocation, store)
      | .tieBreak => (gateAgainstStored env store dfs incoming certifiedOnly, store)
  else (gateAgainstStored env store dfs incoming certifiedOnly, store)

end Gate

end CatalystNode
