import CatalystNode.Checkpoints
import CatalystNode.Eviction

namespace CatalystNode

open ByteVector HexCodec MachineInt Effects Eviction

/-- What a reconcile calls and is configured with. Both sides hash with one function. The order in
which the failure tracker's map lists its cycles may be another one at any time. -/
structure ReconcileEnv (F G : Type) where
  node : NodeEnv F G
  database : DatabaseEnv
  maxReplayCycles : UInt64
  circuitBreakThreshold : UInt32
  circuitBreakWindowMs : UInt64
  trackerRank : UInt64 → UInt64 → Nat
  sameHash : node.blake2b512 = database.tx.blake2b512

structure ReconcileTarget where
  lsu : LedgerStateUpdate
  cycle : UInt64
  expectedPrev : Hash
  expectedPost : Hash
  expectedLsuHash : Hash
  dfs : Option ContentStore
  finalityCidHint : String
  certifiedOnly : Bool

def localAppliedStateRoot (store : Store) : Hash :=
  store.currentStateRoot.getD
    (((store.getMetadata "consensus:last_applied_state_root").bind (toArray? 32)).getD (zeros 32))

def localAppliedLsuHash (store : Store) : Option Hash :=
  (store.getMetadata "consensus:last_applied_lsu_hash").bind (toArray? 32)

section Breaker

/-- Entries of one time are dropped in the order in which the map lists them. -/
def ReconcileFailureTracker.prune (rank : UInt64 → Nat) (tracker : ReconcileFailureTracker)
    (nowMs : UInt64) : ReconcileFailureTracker :=
  let recent := tracker.filter (fun _ e =>
    e.broken ∨ saturatingSubU64 nowMs (10 * 60 * 1000) ≤ e.lastSeenMs)
  if recent.size ≤ 2000 then recent
  else
    let oldest := (sortByKey (fun entry => entry.2.lastSeenMs.toNat) (listing rank recent)).take
      (recent.size - 1500)
    oldest.foldl (fun tracker entry => tracker.erase entry.1) recent

def reconcileCircuitIsBroken (tracker : ReconcileFailureTracker) (localCycle : UInt64) : Bool :=
  (tracker[localCycle]?.map ReconcileFailureEntry.broken).getD false

def recordReconcileFailure (threshold : UInt32) (windowMs nowMs localCycle : UInt64)
    (rank : UInt64 → Nat) (tracker : ReconcileFailureTracker) : ReconcileFailureTracker :=
  let tracker := tracker.prune rank nowMs
  let entry := tracker[localCycle]?.getD ⟨0, nowMs, false⟩
  let failures :=
    if windowMs < saturatingSubU64 nowMs entry.lastSeenMs then 0 else entry.consecutiveFailures
  let failures := if failures = 0xffffffff then failures else failures + 1
  tracker.insert localCycle ⟨failures, nowMs, entry.broken ∨ threshold ≤ failures⟩

end Breaker

def preservedTags : List String :=
  ["protocol:", "consensus:lsu_hash:", "consensus:lsu_cid:", "consensus:lsu_state_root:",
    "consensus:cycle_by_lsu_hash:", "consensus:lsu:", "consensus:lsu_finality_cid:",
    "consensus:tx_batch_commit:", "consensus:checkpoint:"]

/-- The pointer to the latest checkpoint lies under the tag of the checkpoints. -/
def metadataLogicalNameIsPreserved (name : String) : Bool :=
  UnderTag preservedTags name ∨ name = "consensus:checkpoint:latest_cycle"

def purgedFamilies : List String := ["transactions", "consensus", "contracts", "dfs_refs"]

def purgeMutableChainStatePreservingLsuHistory (db : Database) : Database :=
  { db with
    accounts := ∅
    metadata := db.metadata.filter (fun name _ => metadataLogicalNameIsPreserved name)
    stray := db.stray.filter (fun key _ => ¬(utf8 "meta:").isPrefixOf key)
    others := purgedFamilies.foldl (fun others cf => others.modify cf (fun _ => ∅)) db.others }

/-- The cycle a replay has to start at, if the history bridges the way to the target. -/
def resolveReplayStart (store : Store) (cycle prunedUpTo defaultStart : UInt64) : Option UInt64 :=
  if cycle ≤ defaultStart then some defaultStart
  else if ∀ i ∈ cyclesBetween defaultStart cycle, lsuMetadataPresent store i then some defaultStart
  else
    let replayStart := match reconcileCheckpointForMissingPrefix store cycle prunedUpTo with
      | some cp => saturatingAddU64 cp.cycle 1
      | none => defaultStart
    if ∀ i ∈ cyclesBetween replayStart cycle, lsuMetadataPresent store i then some replayStart
    else none

def verifySnapshotName (cycle nowMs : UInt64) : String := s!"verify_lsu_{cycle}_{nowMs}"

def reconcileSnapshotName (cycle nowMs : UInt64) : String := s!"quorum_reconcile_c{cycle}_{nowMs}"

section Database

variable (env : DatabaseEnv)

/-- Applies an update and goes back to the state before if its root is not the expected one. -/
def applyLsuWithRootCheckLocked (lsu : LedgerStateUpdate) (expectedStateRoot : Hash) :
    DatabaseM Bool := do
  let snap := verifySnapshotName lsu.cycleNumber env.nowMs
  createSnapshot snap
  let got ← applyLsuToDatabase env lsu
  if got = expectedStateRoot then
    modify (Database.deleteSnapshot snap)
    return true
  else
    loadSnapshot snap
    modify (fun db => endState (refreshCachedStateRoot env.sha256 db))
    modify (Database.deleteSnapshot snap)
    return false

def storedLsu (store : Store) (cycle : UInt64) : Except ReconcileError LedgerStateUpdate :=
  match store.getMetadata (lsuKey cycle) with
  | none => .error (.missingLsu cycle)
  | some bytes => match (deserialize bytes : Option LedgerStateUpdate) with
    | none => .error (.undecodableLsu cycle)
    | some lsu =>
      if lsu.cycleNumber ≠ cycle then .error (.cycleMismatch cycle)
      else match (store.getMetadata (lsuHashKey cycle)).bind (toArray? 32) with
        | none => .ok lsu
        | some recorded =>
          if hashData env.tx.blake2b512 lsu ≠ recorded then .error (.hashMismatch cycle)
          else .ok lsu

def replayCycle (cycle : UInt64) : DatabaseM Unit := fun db =>
  match storedLsu env db.toStore cycle with
  | .error e => .error e db
  | .ok lsu => (applyLsuToDatabase env lsu >>= fun _ => pure ()) db

def discardAppliedState (localCycle replayStart : UInt64) : DatabaseM Unit := do
  modify purgeMutableChainStatePreservingLsuHistory
  if 1 < replayStart then
    let db ← get
    match loadCheckpointAtCycle db.toStore (saturatingSubU64 replayStart 1) with
    | none => throw (.checkpointVanished (replayStart - 1))
    | some cp => restoreReconcileFromCheckpoint cp localCycle
  else refreshCachedStateRoot env.sha256

structure ReplayPlan where
  localCycle : UInt64
  replayStart : UInt64

/-- Leads to the state before the target: forward from the head, or from scratch if the target is
not above it. -/
def replayToTarget (cycle : UInt64) (plan : ReplayPlan) : DatabaseM Unit := do
  if ¬plan.localCycle < cycle then discardAppliedState env plan.localCycle plan.replayStart
  (cyclesBetween plan.replayStart cycle).forM (replayCycle env)
  modify (fun db => { db with base := some (.replayed plan.replayStart db.toStore) })

def reconcileInner (target : ReconcileTarget) (plan : ReplayPlan) : DatabaseM Unit := do
  replayToTarget env target.cycle plan
  let db ← get
  let prevAfter := localAppliedStateRoot db.toStore
  if prevAfter ≠ target.expectedPrev then throw (.prevRootMismatch prevAfter target.expectedPrev)
  let applied ← applyLsuWithRootCheckLocked env target.lsu target.expectedPost
  if ¬applied then throw .finalRootMismatch

/-- An update that chains directly onto the head is applied to it. Whatever else happens is left to
the replay. -/
def applyOntoHead (target : ReconcileTarget) : DatabaseM Bool := fun db =>
  if target.cycle = saturatingAddU64 (lastAppliedCycle db.toStore) 1 ∧
      target.expectedPrev = localAppliedStateRoot db.toStore then
    match applyLsuWithRootCheckLocked env target.lsu target.expectedPost
      { db with base := some (.head db.toStore) } with
    | .ok applied db => .ok applied db
    | .error _ db => .ok false db
  else .ok false db

end Database

section Reconcile

variable {F G : Type} [Field F] [AddCommGroup G] [Module F G] [DecidableEq G]
  (env : ReconcileEnv F G) (target : ReconcileTarget)

def reconcileRefuses (store : Store) : Bool :=
  let incoming := forkChoiceCandidateForLsu env.node store target.dfs target.lsu target.cycle
    target.expectedLsuHash target.finalityCidHint target.certifiedOnly
  (target.certifiedOnly ∧ incoming.tier ≠ .certified) ∨ ¬lsuHasBftVoteQuorum target.lsu ∨
    target.lsu.cycleNumber ≠ target.cycle ∨
    hashData env.database.tx.blake2b512 target.lsu ≠ target.expectedLsuHash ∨
    forkChoiceRejectWeakerIncoming env.node store target.dfs incoming target.certifiedOnly

def alreadyApplied (store : Store) : Bool :=
  lastAppliedCycle store = target.cycle ∧ localAppliedLsuHash store = some target.expectedLsuHash

def Database.recordFailure (localCycle : UInt64) (db : Database) : Database :=
  let failures := recordReconcileFailure env.circuitBreakThreshold env.circuitBreakWindowMs
    env.database.nowMs localCycle (env.trackerRank env.database.nowMs) db.failures
  { db with failures }

def planReplay : DatabaseM (Option ReplayPlan) := fun db =>
  let localCycle := lastAppliedCycle db.toStore
  let defaultStart :=
    if localCycle < target.cycle then max (saturatingAddU64 localCycle 1) 1 else 1
  if env.maxReplayCycles = 0 ∨ reconcileCircuitIsBroken db.failures localCycle ∨
      env.maxReplayCycles < saturatingSubU64 target.cycle localCycle then .ok none db
  else match resolveReplayStart db.toStore target.cycle ((prunedUpToCycle db.toStore).getD 0)
      defaultStart with
    | none => .ok none (db.recordFailure env localCycle)
    | some replayStart => .ok (some ⟨localCycle, replayStart⟩) db

/-- Keeps the outcome of a replay, or goes back to the snapshot taken before it. -/
def keepOrRevert (plan : ReplayPlan) (snap : String) : DatabaseM Bool := fun db =>
  match reconcileInner env.database target plan db with
  | .ok _ db =>
    let db := db.deleteSnapshot snap
    .ok true { db with failures := db.failures.erase plan.localCycle }
  | .error e db => match loadSnapshot snap db with
    | .error e' db => .error (.restoreFailed e e') db
    | .ok _ db =>
      let db := (endState (refreshCachedStateRoot env.database.sha256 db)).deleteSnapshot snap
      .ok false (db.recordFailure env plan.localCycle)

def commitOrRevert (plan : ReplayPlan) : DatabaseM Bool := do
  let snap := reconcileSnapshotName target.cycle env.database.nowMs
  createSnapshot snap
  keepOrRevert env target plan snap

def replayIfPossible : DatabaseM Bool := do
  match ← planReplay env target with
  | none => return false
  | some plan => commitOrRevert env target plan

def tryReconcileForkFromQuorumLsu : DatabaseM Bool := do
  modify (fun db => { db with base := none })
  let db ← get
  if reconcileRefuses env target db.toStore then return false
  if alreadyApplied target db.toStore then return true
  if ← applyOntoHead env.database target then return true
  replayIfPossible env target

end Reconcile

end CatalystNode
