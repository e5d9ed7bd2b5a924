import CatalystNode.Effects
import CatalystNode.HistoryPruning
import CatalystNode.RocksEngine

namespace CatalystNode

open ByteVector HexCodec MachineInt

structure ReconcileFailureEntry where
  consecutiveFailures : UInt32
  lastSeenMs : UInt64
  broken : Bool
  deriving DecidableEq

abbrev ReconcileFailureTracker := Std.ExtTreeMap UInt64 ReconcileFailureEntry

/-- The store the last reconcile held just before the apply it ends with: the head it found, or what
a replay from some cycle on led to. The code keeps no such record. -/
inductive ReconcileBase where
  | head (store : Store)
  | replayed (replayStart : UInt64) (store : Store)

def ReconcileBase.store : ReconcileBase → Store
  | .head store => store
  | .replayed _ store => store

/-- The contents of all column families. Metadata entries whose key is no tagged name are `stray`. -/
structure Columns where
  accounts : Family
  metadata : Std.ExtTreeMap String Bytes
  stray : Family
  others : Std.ExtTreeMap String Family

/-- The whole database of a node with its snapshots, and what the process remembers about it.
Snapshots are the contents they were taken of. -/
structure Database extends Store where
  stray : Family
  others : Std.ExtTreeMap String Family
  snapshots : Std.ExtTreeMap String Columns
  startupCheckpointWritten : Bool
  failures : ReconcileFailureTracker
  base : Option ReconcileBase

inductive ReconcileError where
  | snapshot (e : SnapshotError)
  | storage (e : StorageError)
  | checkpointVanished (cycle : UInt64)
  | missingLsu (cycle : UInt64)
  | undecodableLsu (cycle : UInt64)
  | cycleMismatch (cycle : UInt64)
  | hashMismatch (cycle : UInt64)
  | prevRootMismatch (got expected : Hash)
  | finalRootMismatch
  | restoreFailed (cause restore : ReconcileError)

abbrev DatabaseM := EStateM ReconcileError Database

namespace Database

def fresh : Database where
  toStore := Store.empty
  stray := ∅
  others := ∅
  snapshots := ∅
  startupCheckpointWritten := false
  failures := ∅
  base := none

def columns (db : Database) : Columns := ⟨db.accounts, db.metadata, db.stray, db.others⟩

def withColumns (db : Database) (columns : Columns) : Database :=
  { db with
    accounts := columns.accounts
    metadata := columns.metadata
    stray := columns.stray
    others := columns.others }

def onStore (db : Database) (change : Store → Store) : Database :=
  { db with toStore := change db.toStore }

def deleteSnapshot (name : String) (db : Database) : Database :=
  { db with snapshots := db.snapshots.erase name }

end Database

def createSnapshot (name : String) : DatabaseM Unit := fun db =>
  if name ∈ db.snapshots then
    .error (.snapshot (.snapshot s!"Snapshot '{name}' already exists")) db
  else .ok () { db with snapshots := db.snapshots.insert name db.columns }

def loadSnapshot (name : String) : DatabaseM Unit := fun db =>
  match db.snapshots[name]? with
  | none => .error (.snapshot (.snapshot s!"Snapshot '{name}' not found")) db
  | some columns => .ok () (db.withColumns columns)

def refreshCachedStateRoot (sha256 : Bytes → Hash) : DatabaseM Unit := fun db =>
  let computed := db.toStore.commit sha256
  match computed.2 with
  | .error e => .error (.storage e) { db with toStore := computed.1 }
  | .ok _ => .ok () { db with toStore := computed.1 }

structure CheckpointRecord where
  cycle : UInt64
  stateRoot : Hash
  lsuHash : Hash
  snapshotName : String

def checkpointMetaKey (cycle : UInt64) : String := s!"consensus:checkpoint:{cycle}"

def snapshotNameForCycle (cycle : UInt64) : String := s!"consensus_checkpoint_{cycle}"

def encodeCheckpointBlob (record : CheckpointRecord) : Bytes :=
  encodeU64 record.cycle ++ record.stateRoot.toList ++ record.lsuHash.toList ++
    utf8 record.snapshotName

def decodeCheckpointBlob (bytes : Bytes) : Option CheckpointRecord :=
  if bytes.length < 72 then none
  else
    let cycle := UInt64.ofNat (ofLeBytes (bytes.take 8))
    let stateRoot := padTo 32 ((bytes.drop 8).take 32)
    let lsuHash := padTo 32 ((bytes.drop 40).take 32)
    match String.fromUTF8? ⟨(bytes.drop 72).toArray⟩ with
    | none => none
    | some snapshotName =>
      if snapshotName = "" then none else some ⟨cycle, stateRoot, lsuHash, snapshotName⟩

def shouldWriteCheckpointAtCycle (cycle every : UInt64) : Bool :=
  0 < every ∧ 0 < cycle ∧ cycle % every = 0

def writeCheckpoint (cycle : UInt64) (stateRoot lsuHash : Hash) : DatabaseM Unit := do
  let snapshotName := snapshotNameForCycle cycle
  createSnapshot snapshotName
  let blob := encodeCheckpointBlob ⟨cycle, stateRoot, lsuHash, snapshotName⟩
  modify (·.onStore (fun store => (store.setMetadata (checkpointMetaKey cycle) blob).setMetadata
    "consensus:checkpoint:latest_cycle" (encodeU64 cycle)))

section Lookup

variable (store : Store)

def loadCheckpointAtCycle (cycle : UInt64) : Option CheckpointRecord :=
  (store.getMetadata (checkpointMetaKey cycle)).bind decodeCheckpointBlob

/-- The checkpoint the latest pointer names; if it lies above, the newest one of a bounded window. -/
def findLatestCheckpointAtOrBelow (maxCycle : UInt64) : Option CheckpointRecord := do
  let latest ← (store.getMetadata "consensus:checkpoint:latest_cycle").bind decodeU64
  if latest = 0 ∨ maxCycle < latest then
    (cyclesThrough (max (saturatingSubU64 maxCycle 4096) 1) maxCycle).reverse.findSome?
      (loadCheckpointAtCycle store)
  else loadCheckpointAtCycle store latest

def lsuMetadataPresent (cycle : UInt64) : Bool := (store.getMetadata (lsuKey cycle)).isSome

def reconcileCheckpointForMissingPrefix (targetCycle prunedUpTo : UInt64) :
    Option CheckpointRecord :=
  if targetCycle ≤ 1 then none
  else do
    let cp ← findLatestCheckpointAtOrBelow store (saturatingSubU64 targetCycle 1)
    let safeGapEnd := max cp.cycle prunedUpTo
    if cp.cycle = 0 then none
    else if ∀ i ∈ cyclesBetween (saturatingAddU64 safeGapEnd 1) targetCycle,
      lsuMetadataPresent store i then some cp
    else none

end Lookup

structure SavedCycleMeta where
  cycle : UInt64
  lsuBytes : Option Bytes
  lsuHash : Option Bytes
  lsuStateRoot : Option Bytes
  lsuCid : Option Bytes

def saveCycleMeta (store : Store) (cycle : UInt64) : Option SavedCycleMeta :=
  let saved : SavedCycleMeta := ⟨cycle, store.getMetadata (lsuKey cycle),
    store.getMetadata (lsuHashKey cycle), store.getMetadata (lsuStateRootKey cycle),
    store.getMetadata (lsuCidKey cycle)⟩
  if saved.lsuBytes.isSome ∨ saved.lsuStateRoot.isSome then some saved else none

def writeBack (key : String) (value : Option Bytes) (store : Store) : Store :=
  value.elim store (store.setMetadata key)

def SavedCycleMeta.restore (store : Store) (saved : SavedCycleMeta) : Store :=
  writeBack (lsuCidKey saved.cycle) saved.lsuCid
    (writeBack (lsuStateRootKey saved.cycle) saved.lsuStateRoot
      (writeBack (lsuHashKey saved.cycle) saved.lsuHash
        (writeBack (lsuKey saved.cycle) saved.lsuBytes store)))

def CheckpointRecord.setHead (record : CheckpointRecord) (store : Store) : Store :=
  (({ store with currentStateRoot := some record.stateRoot }.setMetadata
    "consensus:last_applied_cycle" (encodeU64 record.cycle)).setMetadata
    "consensus:last_applied_state_root" record.stateRoot.toList).setMetadata
    "consensus:last_applied_lsu_hash" record.lsuHash.toList

/-- Goes back to a checkpoint, but keeps the update history after it up to the head. -/
def restoreReconcileFromCheckpoint (record : CheckpointRecord) (currentHead : UInt64) :
    DatabaseM Unit := do
  let db ← get
  let saved := (cyclesBetween (saturatingAddU64 record.cycle 1)
    (saturatingAddU64 currentHead 1)).filterMap (saveCycleMeta db.toStore)
  loadSnapshot record.snapshotName
  modify (·.onStore (fun store => saved.foldl SavedCycleMeta.restore (record.setHead store)))

section Apply

variable (env : DatabaseEnv)

def maybeWriteCheckpointAfterApply (cycle : UInt64) (stateRoot lsuHash : Hash) : DatabaseM Unit :=
  if shouldWriteCheckpointAtCycle cycle env.checkpointEveryCycles then
    writeCheckpoint cycle stateRoot lsuHash
  else pure ()

/-- The first apply of a process always writes a checkpoint, later ones where one is due. A failed
one is only logged. -/
def checkpointAfterApply (lsu : LedgerStateUpdate) (stateRoot : Hash) (db : Database) : Database :=
  let lsuHash := hashData env.tx.blake2b512 lsu
  if db.startupCheckpointWritten then
    Effects.endState (maybeWriteCheckpointAfterApply env lsu.cycleNumber stateRoot lsuHash db)
  else Effects.endState (writeCheckpoint lsu.cycleNumber stateRoot lsuHash
    { db with startupCheckpointWritten := true })

/-- An apply on the whole database. An update at or below the head changes nothing. -/
def applyLsuToDatabase (lsu : LedgerStateUpdate) : DatabaseM Hash := fun db =>
  let applied := applyLsuToStorageLocked env.applying db.toStore lsu
  let after := { db with toStore := applied.1 }
  match applied.2 with
  | .error e => .error (.storage e) after
  | .ok root =>
    if lsu.cycleNumber ≤ lastAppliedCycle db.toStore then .ok root after
    else .ok root (checkpointAfterApply env lsu root after)

end Apply

end CatalystNode
