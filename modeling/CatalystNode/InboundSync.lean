import CatalystNode.AttestationBuckets
import CatalystNode.CertifiedRuns
import CatalystNode.LocalContentStore

namespace CatalystNode

open ByteVector HexCodec MachineInt Effects

/-- A reference to an update: an empty content id stands for none. -/
structure LsuCidGossip where
  cycle : UInt64
  lsuHash : Hash
  cid : String
  prevStateRoot : Hash
  stateRoot : Hash
  proofCid : String
  finalityCid : String
  stateRootCid : String

structure PendingLsuFetch where
  cycle : UInt64
  lsuHash : Hash
  prevStateRoot : Hash
  expectedStateRoot : Hash
  proofCid : String
  finalityCid : String
  stateRootCid : String

structure InboundEnv (F G : Type) extends ReconcileEnv F G where
  encodeFinalityCert : LsuFinalityCertificateV1 → Bytes
  encodeStateRootCert : LsuStateRootCertificateV1 → Bytes
  contentId : Bytes → String
  isContentId : String → Bool
  decodeProofBundle : Bytes → Option StateProofBundle
  calculateEthereumCreateAddress : ByteVec 20 → UInt64 → ByteVec 20
  producerIdSelf : ProducerId
  gossipCycleMs : UInt64
  lsuWallLeadCap : UInt64
  requireLsuFinality : Bool
  requireStateRootFinality : Bool

structure NodeState where
  db : Database
  dfs : Option ContentStore
  finalityBuckets : UInt64 × Hash → FinalityAttestationBucket
  stateRootBuckets : UInt64 × Hash × Hash → StateRootAttestationBucket
  pendingLsuFetch : Std.ExtTreeMap String PendingLsuFetch

def p2pLsuCycleWithinWallLead (cycle wallNowMs cycleDurationMs maxLeadCycles : UInt64) : Bool :=
  cycleDurationMs = 0 ∨
    cycle ≤ saturatingAddU64 (ledgerCycleIndex wallNowMs cycleDurationMs) maxLeadCycles

def incomingBeatsStored (incoming stored : ForkChoiceCandidate) : Bool :=
  forkChoicePrefer incoming stored = .left

/-- An update with what was claimed about it, as both ways to receive one hand it on. -/
structure OfferedLsu where
  lsu : LedgerStateUpdate
  bytes : Bytes
  cycle : UInt64
  lsuHash : Hash
  cid : String
  prevStateRoot : Hash
  stateRoot : Hash
  proofCid : String
  finalityCid : String
  stateRootCid : String

def LsuCidGossip.toPending (msg : LsuCidGossip) : PendingLsuFetch where
  cycle := msg.cycle
  lsuHash := msg.lsuHash
  prevStateRoot := msg.prevStateRoot
  expectedStateRoot := msg.stateRoot
  proofCid := msg.proofCid
  finalityCid := msg.finalityCid
  stateRootCid := msg.stateRootCid

def PendingLsuFetch.offer (info : PendingLsuFetch) (lsu : LedgerStateUpdate)
    (resp : FileResponseMsg) : OfferedLsu where
  lsu := lsu
  bytes := resp.bytes
  cycle := info.cycle
  lsuHash := info.lsuHash
  cid := resp.cid
  prevStateRoot := info.prevStateRoot
  stateRoot := info.expectedStateRoot
  proofCid := info.proofCid
  finalityCid := info.finalityCid
  stateRootCid := info.stateRootCid

namespace InboundEnv

variable {F G : Type} [Field F] [AddCommGroup G] [Module F G] [DecidableEq G]

def bundle (env : InboundEnv F G) : BundleEnv where
  sha256 := env.database.sha256
  runtime := env.database.runtime
  calculateEthereumCreateAddress := env.calculateEthereumCreateAddress

def withinLead (env : InboundEnv F G) (cycle : UInt64) : Bool :=
  p2pLsuCycleWithinWallLead cycle env.database.nowMs env.gossipCycleMs env.lsuWallLeadCap

variable (env : InboundEnv F G)

/-- Only required finality can fail; a certificate that is merely present is just reported on. -/
def verifyLsuFinalityForApply (store : Store) (dfs : ContentStore) (lsu : LedgerStateUpdate)
    (cycle : UInt64) (finalityCidHint : String) : Bool :=
  if ¬env.requireLsuFinality then true
  else lsuHasVerifiedFinalityCert env.node store dfs lsu cycle finalityCidHint

def verifyStateRootFinalityForApply (store : Store) (dfs : ContentStore) (lsu : LedgerStateUpdate)
    (cycle : UInt64) (claimedRoot : Hash) (stateRootCidHint : String) : Bool :=
  if ¬env.requireStateRootFinality then true
  else
    let cert := do
      let cid ← if stateRootCidHint ≠ "" then some stateRootCidHint
        else metaString env.node store (lsuStateRootCidKey cycle)
      let bytes ← dfs cid
      env.node.decodeStateRootCert bytes
    match cert with
    | none => false
    | some cert =>
      verifyLsuStateRootCertificate env.node.ops env.node.blake2b512 cert lsu = .ok () ∧
        cert.stateRoot = claimedRoot

def reconcileTarget (dfs : Option ContentStore) (offer : OfferedLsu) : ReconcileTarget where
  lsu := offer.lsu
  cycle := offer.cycle
  expectedPrev := offer.prevStateRoot
  expectedPost := offer.stateRoot
  expectedLsuHash := offer.lsuHash
  dfs := dfs
  finalityCidHint := offer.finalityCid
  certifiedOnly := env.requireLsuFinality

def beatsApplied (dfs : Option ContentStore) (offer : OfferedLsu) (store : Store) : Bool :=
  match localAppliedLsuHash store with
  | none => false
  | some appliedHash =>
    let incoming := forkChoiceCandidateForLsu env.node store dfs offer.lsu offer.cycle offer.lsuHash
      offer.finalityCid env.requireLsuFinality
    let applied := ((loadForkChoiceCandidateAtCycle env.node store dfs offer.cycle
      env.requireLsuFinality).filter (fun c => c.lsuHash = appliedHash)).getD
        ⟨offer.cycle, appliedHash, .none, false⟩
    appliedHash ≠ offer.lsuHash ∧ incomingBeatsStored incoming applied

def tryReorgStrongerLsuAtAppliedCycle (dfs : Option ContentStore) (offer : OfferedLsu) :
    DatabaseM Bool := fun db =>
  if lastAppliedCycle db.toStore ≠ offer.cycle ∨ ¬env.beatsApplied dfs offer db.toStore then
    .ok false db
  else tryReconcileForkFromQuorumLsu env.toReconcileEnv (env.reconcileTarget dfs offer) db

def verifiedBundle (store : Store) (dfs : ContentStore) (offer : OfferedLsu) :
    Option StateProofBundle :=
  if offer.proofCid = "" then none
  else ((dfs offer.proofCid).bind env.decodeProofBundle).filter (fun bundle =>
    bundle.prevStateRoot = offer.prevStateRoot ∧ bundle.newStateRoot = offer.stateRoot ∧
      bundle.lsuHash = offer.lsuHash ∧ verifyStateTransitionBundle env.bundle offer.lsu bundle ∧
      env.verifyStateRootFinalityForApply store dfs offer.lsu offer.cycle bundle.newStateRoot
        offer.stateRootCid)

def applyByProof (dfs : Option ContentStore) (offer : OfferedLsu) (db : Database) :
    Database × Bool :=
  match dfs.bind (fun dfs => env.verifiedBundle db.toStore dfs offer) with
  | none => (db, false)
  | some bundle =>
    let outcome := applyLsuToStorageWithoutRootCheck
      (env.database.trusting db offer.lsu.cycleNumber) db.toStore offer.lsu offer.prevStateRoot
      bundle.newStateRoot
    ({ db with toStore := outcome.1 }, outcome.2 = .ok true)

def applyOffered (dfs : Option ContentStore) (offer : OfferedLsu) (db : Database) :
    Database × Bool :=
  let proved := env.applyByProof dfs offer db
  if proved.2 then proved
  else match applyLsuWithRootCheckLocked env.database offer.lsu offer.stateRoot proved.1 with
    | .ok applied db => (db, applied)
    | .error _ db => (db, false)

def finalityHolds (dfs : Option ContentStore) (offer : OfferedLsu) (store : Store) : Bool :=
  dfs.elim (¬env.requireLsuFinality) (fun dfs => env.verifyLsuFinalityForApply store dfs offer.lsu
    offer.cycle offer.finalityCid)

/-- What follows on a reorg that did not happen, with the head as it was before it: nothing, a
reconcile or an apply. -/
def advanceFrom (localPrev : Hash) (appliedNow : UInt64) (dfs : Option ContentStore)
    (offer : OfferedLsu) (db : Database) : Database × Bool :=
  if appliedNow = offer.cycle then (db, true)
  else if localPrev ≠ offer.prevStateRoot ∧
      ¬(localPrev = zeros 32 ∧ offer.prevStateRoot = zeros 32) then
    match tryReconcileForkFromQuorumLsu env.toReconcileEnv (env.reconcileTarget dfs offer) db with
    | .ok applied db => (db, applied)
    | .error _ db => (db, false)
  else env.applyOffered dfs offer db

def advanceTo (dfs : Option ContentStore) (offer : OfferedLsu) (db : Database) : Database × Bool :=
  let localPrev := localAppliedStateRoot db.toStore
  let appliedNow := lastAppliedCycle db.toStore
  match env.tryReorgStrongerLsuAtAppliedCycle dfs offer db with
  | .ok true db => (db, true)
  | .ok false db | .error _ db => env.advanceFrom localPrev appliedNow dfs offer db

def persistOffered (dfs : Option ContentStore) (offer : OfferedLsu) (db : Database) : Database :=
  db.onStore (fun store => persistLsuHistory env.node dfs env.requireLsuFinality offer.cycle store
    offer.bytes offer.lsuHash offer.cid offer.stateRoot offer.finalityCid)

def gateOffered (dfs : Option ContentStore) (offer : OfferedLsu) (store : Store) :
    ForkChoiceApplyGate × Store :=
  forkChoiceApplyGate env.node store dfs offer.lsu offer.cycle offer.lsuHash offer.finalityCid
    env.requireLsuFinality

/-- What both handlers do with an update they have the bytes of, and whether it is synced then. -/
def syncLsu (dfs : Option ContentStore) (offer : OfferedLsu) (db : Database) : Database × Bool :=
  let db := env.persistOffered dfs offer db
  let gate := env.gateOffered dfs offer db.toStore
  let db := { db with toStore := gate.2 }
  if gate.1 ≠ .allow then (db, false)
  else
    let advanced := env.advanceTo dfs offer db
    (advanced.1, advanced.2 ∧ env.finalityHolds dfs offer advanced.1.toStore)

def lsuWithHash (lsuHash : Hash) (bytes : Bytes) : Option LedgerStateUpdate :=
  (deserialize bytes : Option LedgerStateUpdate).filter (fun lsu =>
    hashData env.node.blake2b512 lsu = lsuHash)

/-- Unlike a reference, a response ends without recording the latest update. -/
def onFileResponse (state : NodeState) (resp : FileResponseMsg) : NodeState :=
  if resp.requester ≠ env.producerIdSelf then state
  else
    let dfs := state.dfs.map (fun dfs => putContent env.contentId dfs resp.bytes)
    match state.pendingLsuFetch[resp.cid]? with
    | none => { state with dfs }
    | some info =>
      let state := { state with dfs, pendingLsuFetch := state.pendingLsuFetch.erase resp.cid }
      if ¬env.withinLead info.cycle then state
      else match env.lsuWithHash info.lsuHash resp.bytes with
        | none => state
        | some lsu => { state with db := (env.syncLsu dfs (info.offer lsu resp) state.db).1 }

end InboundEnv

section Responses

variable {F G : Type} [Field F] [AddCommGroup G] [Module F G] [DecidableEq G]
  (env : InboundEnv F G) (state : NodeState)

/-- The response is for this node, which has asked for it, and holds the very update of the reference. -/
def NodeState.Answered (resp : FileResponseMsg) : Prop :=
  resp.requester = env.producerIdSelf ∧ ∃ info lsu, state.pendingLsuFetch[resp.cid]? = some info ∧
    env.withinLead info.cycle = true ∧ env.lsuWithHash info.lsuHash resp.bytes = some lsu

theorem onFileResponse_cases (resp : FileResponseMsg) :
    ((env.onFileResponse state resp).db = state.db ∨ state.Answered env resp) ∧
      ∀ (cid : String) (info : PendingLsuFetch),
        (env.onFileResponse state resp).pendingLsuFetch[cid]? = some info →
          state.pendingLsuFetch[cid]? = some info := by
  unfold InboundEnv.onFileResponse
  split
  next => exact ⟨.inl rfl, fun _ _ => id⟩
  next own =>
    dsimp only
    split
    next => exact ⟨.inl rfl, fun _ _ => id⟩
    next info asked =>
      have rest (cid : String) (other : PendingLsuFetch)
          (held : (state.pendingLsuFetch.erase resp.cid)[cid]? = some other) :
          state.pendingLsuFetch[cid]? = some other := by
        rw [Std.ExtTreeMap.getElem?_erase] at held
        split at held
        next => cases held
        next => exact held
      split
      next => exact ⟨.inl rfl, rest⟩
      next early =>
        split
        next => exact ⟨.inl rfl, rest⟩
        next lsu found => exact ⟨.inr ⟨not_not.mp own, info, lsu, asked, not_not.mp early, found⟩, rest⟩

/-- However many responses come in, each at its own time, the database changes only if one of them
answers a reference that was pending from the start. -/
theorem responses_answered (calls : List (InboundEnv F G × FileResponseMsg)) :
    (calls.foldl (fun state call => call.1.onFileResponse state call.2) state).db = state.db ∨
      ∃ call ∈ calls, state.Answered call.1 call.2 := by
  induction calls generalizing state with
  | nil => exact .inl rfl
  | cons call calls ih =>
    obtain ⟨first, pending⟩ := onFileResponse_cases call.1 state call.2
    rcases first with kept | answered
    · refine (ih (call.1.onFileResponse state call.2)).imp (·.trans kept) ?_
      rintro ⟨later, listed, own, info, lsu, asked, found⟩
      exact ⟨later, List.mem_cons_of_mem _ listed, own, info, lsu, pending _ info asked, found⟩
    · exact .inr ⟨call, List.mem_cons_self, answered⟩

end Responses

end CatalystNode
