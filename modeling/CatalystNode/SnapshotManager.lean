import CatalystNode.RocksEngine
import CatalystNode.WireDecode

namespace CatalystNode

open ByteVector HexCodec Eviction

structure SnapshotConfig where
  maxSnapshots : Nat
  compressSnapshots : Bool

structure Snapshot where
  name : String
  createdAt : UInt64
  columnFamilies : List String

structure SnapshotManager where
  config : SnapshotConfig
  snapshots : Std.ExtTreeMap String Snapshot
  dataDirs : Std.ExtTreeMap String (Std.ExtTreeMap String Bytes)

def encodeRecord (r : Bytes × Bytes) : Bytes :=
  leBytes 4 r.1.length ++ r.1 ++ leBytes 4 r.2.length ++ r.2

def compressData (data : Bytes) : Bytes := 1 :: data

/-- Any file that starts with a 1 is taken for a compressed one. -/
def decompressData : Bytes → Bytes
  | [] => []
  | flag :: data => if flag = 1 then data else flag :: data

def cfFile (config : SnapshotConfig) (records : List (Bytes × Bytes)) : Bytes :=
  if config.compressSnapshots then compressData (records.flatMap encodeRecord)
  else records.flatMap encodeRecord

def writeCfFile (config : SnapshotConfig) (dir : Std.ExtTreeMap String Bytes) (cf : String) :
    EngineM (Std.ExtTreeMap String Bytes) := do
  let records ← RocksEngine.iterator cf
  return dir.insert cf (cfFile config records)

namespace SnapshotManager

/-- The directory may hold files of an older snapshot of the name. -/
def writeSnapshotData (manager : SnapshotManager) (snapshot : Snapshot) : EngineM SnapshotManager :=
  do
  let dir ← snapshot.columnFamilies.foldlM (writeCfFile manager.config)
    (manager.dataDirs[snapshot.name]?.getD ∅)
  return { manager with dataDirs := manager.dataDirs.insert snapshot.name dir }

def deleteSnapshot (manager : SnapshotManager) (name : String) :
    Except SnapshotError SnapshotManager :=
  if name ∈ manager.snapshots then
    .ok { manager with
      snapshots := manager.snapshots.erase name
      dataDirs := manager.dataDirs.erase name }
  else .error (.snapshot s!"Snapshot '{name}' not found")

def protectedSnapshotPrefix : String := "consensus_checkpoint_"

/-- Deletes the oldest snapshots beyond the configured number; checkpoints do not count. Snapshots of
one time are taken in the order in which the registry lists them. -/
def cleanupOldSnapshots (manager : SnapshotManager) (rank : String → Nat) : SnapshotManager :=
  let unprotected := ((listing rank manager.snapshots).map Prod.snd).filter (fun s =>
    ¬(utf8 protectedSnapshotPrefix).isPrefixOf (utf8 s.name))
  if unprotected.length ≤ manager.config.maxSnapshots then manager
  else
    let oldest := (sortByKey (fun s => s.createdAt.toNat) unprotected).take
      (unprotected.length - manager.config.maxSnapshots)
    oldest.foldl (fun manager s => match manager.deleteSnapshot s.name with
      | .ok manager => manager
      | .error _ => manager) manager

def createSnapshot (manager : SnapshotManager) (name : String) (nowMs : UInt64) (rank : String → Nat) :
    EngineM (SnapshotManager × Snapshot) :=
  if name ∈ manager.snapshots then throw (.snapshot s!"Snapshot '{name}' already exists")
  else do
    let engine ← get
    let snapshot : Snapshot := ⟨name, nowMs, engine.cfNames⟩
    let manager ← manager.writeSnapshotData snapshot
    let manager := { manager with snapshots := manager.snapshots.insert name snapshot }
    return (manager.cleanupOldSnapshots rank, snapshot)

end SnapshotManager

/-- One record off the front of a file; a file that is cut short gives none. -/
def readRecord (data : Bytes) : Option ((Bytes × Bytes) × Bytes) := do
  let (keyLen, data) ← readExact 4 data
  let (key, data) ← readExact (ofLeBytes keyLen) data
  let (valueLen, data) ← readExact 4 data
  let (value, data) ← readExact (ofLeBytes valueLen) data
  return ((key, value), data)

/-- The records of a file up to the first one that is cut short. Every record takes bytes off the
file, so its length is fuel enough. -/
def readRecords : Nat → Bytes → List (Bytes × Bytes)
  | 0, _ => []
  | fuel + 1, data => match readRecord data with
    | none => []
    | some (r, rest) => r :: readRecords fuel rest

def loadColumnFamilyData (cf : String) (data : Bytes) : EngineM Unit :=
  (readRecords data.length data).forM (fun r => RocksEngine.put cf r.1 r.2)

/-- Deletes the keys of a column family one by one; the default one is left alone. -/
def clearFamily (cf : String) : EngineM Unit :=
  if cf = "default" then return
  else do
    let records ← RocksEngine.iterator cf
    (records.map Prod.fst).forM (RocksEngine.delete cf)

def clearDatabase : EngineM Unit := do
  let engine ← get
  engine.cfNames.forM clearFamily

namespace SnapshotManager

def loadSnapshotData (manager : SnapshotManager) (snapshot : Snapshot) : EngineM Unit :=
  match manager.dataDirs[snapshot.name]? with
  | none => throw (.snapshot s!"Snapshot data directory not found for '{snapshot.name}'")
  | some dir => snapshot.columnFamilies.forM (fun cf =>
    dir[cf]?.elim (pure ()) (fun file => loadColumnFamilyData cf (decompressData file)))

def loadSnapshot (manager : SnapshotManager) (name : String) : EngineM Unit :=
  match manager.snapshots[name]? with
  | none => throw (.snapshot s!"Snapshot '{name}' not found")
  | some snapshot => do
    clearDatabase
    manager.loadSnapshotData snapshot

end SnapshotManager

end CatalystNode
