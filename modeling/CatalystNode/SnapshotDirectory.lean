import CatalystNode.SnapshotRetention

namespace CatalystNode

open ByteVector HexCodec FoldTrace

abbrev DataDir := Std.ExtTreeMap String Bytes

/-- What a metadata file says, nothing if it cannot be parsed. -/
abbrev MetaFile := Option Snapshot

/-- Metadata files by their name without extension, data directories by the name of the snapshot. -/
structure SnapshotDir where
  metaFiles : Std.ExtTreeMap String MetaFile
  dataDirs : Std.ExtTreeMap String DataDir

/-- A snapshot manager with its directory and the metadata files in it, and the other directories. -/
structure SnapshotDisk where
  manager : SnapshotManager
  dir : String
  metaFiles : Std.ExtTreeMap String MetaFile
  outside : Std.ExtTreeMap String SnapshotDir

/-- Whether reading a directory finds the file under this name with the extension of a snapshot: a name
with a separator lies deeper, and a file that is only an extension has none. -/
def listedFile (name : String) : Bool := name ≠ "" && !name.toList.contains '/'

/-- A file that is copied onto itself is truncated. -/
def copyDirRecursive (onItself : Bool) (src dest : DataDir) : DataDir :=
  src.toList.foldl (fun dest file => dest.insert file.1 (if onItself then [] else file.2)) dest

namespace SnapshotDisk

def readDir (disk : SnapshotDisk) (path : String) : Option SnapshotDir :=
  if path = disk.dir then some ⟨disk.metaFiles, disk.manager.dataDirs⟩ else disk.outside[path]?

def writeDir (disk : SnapshotDisk) (path : String) (dir : SnapshotDir) : SnapshotDisk :=
  if path = disk.dir then
    { disk with
      manager := { disk.manager with dataDirs := dir.dataDirs }
      metaFiles := dir.metaFiles }
  else { disk with outside := disk.outside.insert path dir }

def deleteSnapshot (disk : SnapshotDisk) (name : String) : Except SnapshotError SnapshotDisk := do
  let manager ← disk.manager.deleteSnapshot name
  return { disk with manager, metaFiles := disk.metaFiles.erase name }

def discard (disk : SnapshotDisk) (s : Snapshot) : SnapshotDisk :=
  match disk.deleteSnapshot s.name with
  | .ok disk => disk
  | .error _ => disk

def cleanupOldSnapshots (disk : SnapshotDisk) (rank : String → Nat) : SnapshotDisk :=
  (disk.manager.oldSnapshots rank).foldl discard disk

def createSnapshot (disk : SnapshotDisk) (name : String) (nowMs : UInt64) (rank : String → Nat) :
    EngineM SnapshotDisk :=
  if name ∈ disk.manager.snapshots then throw (.snapshot s!"Snapshot '{name}' already exists")
  else do
    let engine ← get
    let snapshot : Snapshot := ⟨name, nowMs, engine.cfNames⟩
    let manager ← disk.manager.writeSnapshotData snapshot
    return cleanupOldSnapshots { disk with
      manager := { manager with snapshots := manager.snapshots.insert name snapshot }
      metaFiles := disk.metaFiles.insert name (some snapshot) } rank

/-- Nothing is copied if the metadata file is missing. -/
def exportSnapshot (disk : SnapshotDisk) (name exportDir : String) :
    Except SnapshotError SnapshotDisk :=
  if name ∈ disk.manager.snapshots then
    match disk.metaFiles[name]? with
    | none => .error (.snapshot "No such file or directory")
    | some file =>
      let onItself := exportDir = disk.dir
      let dest := (disk.readDir exportDir).getD ⟨∅, ∅⟩
      let dataDirs := match disk.manager.dataDirs[name]? with
        | none => dest.dataDirs
        | some src =>
          dest.dataDirs.insert name (copyDirRecursive onItself src (dest.dataDirs[name]?.getD ∅))
      let metaFiles := dest.metaFiles.insert name (if onItself then none else file)
      .ok (disk.writeDir exportDir ⟨metaFiles, dataDirs⟩)
  else .error (.snapshot s!"Snapshot '{name}' not found")

/-- `found` is the first metadata file that reading the directory yields, if it yields one. The copy of
the file is left as it is, with the name it has inside. -/
def importSnapshot (disk : SnapshotDisk) (importDir : String) (found : Option String)
    (newName : Option String) (timestamp : Nat) : Except SnapshotError (String × SnapshotDisk) :=
  match disk.readDir importDir with
  | none => .error (.snapshot s!"Import directory {importDir} does not exist")
  | some dir => match found.bind (dir.metaFiles[·]?) with
    | none => .error (.snapshot "No snapshot metadata file found in import directory")
    | some none => .error (.snapshot "Failed to parse snapshot metadata")
    | some (some file) =>
      let finalName := newName.getD s!"{file.name}_imported_{timestamp}"
      if finalName ∈ disk.manager.snapshots then
        .error (.snapshot s!"Snapshot '{finalName}' already exists")
      else
        let dataDirs := match dir.dataDirs[file.name]? with
          | none => disk.manager.dataDirs
          | some src => disk.manager.dataDirs.insert finalName
              (copyDirRecursive (importDir = disk.dir ∧ file.name = finalName) src
                (disk.manager.dataDirs[finalName]?.getD ∅))
        let onItself := importDir = disk.dir ∧ found = some finalName
        .ok (finalName, { disk with
          manager := { disk.manager with
            snapshots := disk.manager.snapshots.insert finalName { file with name := finalName }
            dataDirs }
          metaFiles := disk.metaFiles.insert finalName (if onItself then none else some file) })

/-- A new manager on the directory, whose files are read in the order of `listing`. One that cannot be
parsed is skipped. -/
def loadExistingSnapshots (disk : SnapshotDisk) (listing : List String) : SnapshotManager :=
  { disk.manager with
    snapshots := (listing.filterMap (disk.metaFiles[·]?.join)).foldl
      (fun snapshots s => snapshots.insert s.name s) ∅ }

def Lists (disk : SnapshotDisk) (listing : List String) : Prop :=
  ∀ name, name ∈ listing ↔ name ∈ disk.metaFiles ∧ listedFile name = true

end SnapshotDisk

inductive DiskCall where
  | create (name : String) (nowMs : UInt64) (rank : String → Nat) (engine : RocksEngine)
  | delete (name : String)
  | exportTo (name exportDir : String)
  | importFrom (importDir : String) (found newName : Option String) (timestamp : Nat)

namespace SnapshotDisk

def call (disk : SnapshotDisk) : DiskCall → SnapshotDisk
  | .create name nowMs rank engine => match disk.createSnapshot name nowMs rank engine with
    | .ok disk _ => disk
    | .error _ _ => disk
  | .delete name => match disk.deleteSnapshot name with
    | .ok disk => disk
    | .error _ => disk
  | .exportTo name exportDir => match disk.exportSnapshot name exportDir with
    | .ok disk => disk
    | .error _ => disk
  | .importFrom importDir found newName timestamp =>
    match disk.importSnapshot importDir found newName timestamp with
    | .ok (_, disk) => disk
    | .error _ => disk

def Survives (disk : SnapshotDisk) : Prop :=
  ∀ listing, disk.Lists listing →
    (∀ name, name ∈ (disk.loadExistingSnapshots listing).snapshots ↔ name ∈ disk.manager.snapshots) ∧
    ∀ name engine, (disk.loadExistingSnapshots listing).loadSnapshot name engine =
      disk.manager.loadSnapshot name engine

/-- A snapshot is created under a name that reading the directory finds, exported to another directory,
and imported under the name it has inside its file, if that is such a name. -/
def KeepsNames (disk : SnapshotDisk) : DiskCall → Prop
  | .create name _ _ _ => listedFile name = true
  | .exportTo _ exportDir => exportDir ≠ disk.dir
  | .importFrom importDir found newName _ => ∀ dir file, disk.readDir importDir = some dir →
      found.bind (dir.metaFiles[·]?) = some (some file) →
      newName = some file.name ∧ listedFile file.name = true
  | .delete _ => True

/-- The files are those of the registry, each under its own name. -/
structure Coherent (disk : SnapshotDisk) : Prop where
  files : ∀ name : String, disk.metaFiles[name]? = disk.manager.snapshots[name]?.map some
  named : ∀ (name : String) (s : Snapshot), disk.manager.snapshots[name]? = some s →
    s.name = name ∧ listedFile name = true

section Steps

variable {disk : SnapshotDisk}

theorem getElem?_foldl_insert_name {file : String → Option Snapshot}
    (named : ∀ name s, file name = some s → s.name = name) (listing : List String)
    (snapshots : Std.ExtTreeMap String Snapshot) (name : String) :
    ((listing.filterMap file).foldl (fun snapshots s => snapshots.insert s.name s) snapshots)[name]? =
      (if name ∈ listing then file name else none).or snapshots[name]? := by
  induction listing generalizing snapshots with
  | nil => simp
  | cons first listing ih =>
    cases held : file first with
    | none =>
      rw [List.filterMap_cons_none held, ih]
      by_cases same : name = first
      · simp [same, held]
      · simp [same]
    | some s =>
      rw [List.filterMap_cons_some held, List.foldl_cons, ih, named first s held,
        Std.ExtTreeMap.getElem?_insert]
      by_cases same : name = first
      · simp only [same, held, Std.ReflCmp.compare_self, List.mem_cons, true_or, if_true]
        split <;> rfl
      · simp [same, Ne.symm same]

theorem Coherent.join_file (coherent : disk.Coherent) (name : String) :
    disk.metaFiles[name]?.join = disk.manager.snapshots[name]? := by
  rw [coherent.files]
  cases disk.manager.snapshots[name]? <;> rfl

theorem Coherent.restart (coherent : disk.Coherent) {listing : List String} (lists : disk.Lists listing) :
    disk.loadExistingSnapshots listing = disk.manager := by
  have same : (listing.filterMap (disk.metaFiles[·]?.join)).foldl
      (fun snapshots s => snapshots.insert s.name s) ∅ = disk.manager.snapshots := by
    refine Std.ExtTreeMap.ext_getElem? (fun {name} => ?_)
    rw [getElem?_foldl_insert_name (fun name s held => (coherent.named name s
      ((coherent.join_file name).symm.trans held)).1), coherent.join_file,
      Std.ExtTreeMap.getElem?_empty, Option.or_none]
    split
    next => rfl
    next unlisted =>
      cases held : disk.manager.snapshots[name]? with
      | none => rfl
      | some s =>
        have known : name ∈ disk.metaFiles := by
          rw [Std.ExtTreeMap.mem_iff_isSome_getElem?, coherent.files, held]
          rfl
        exact absurd ((lists name).mpr ⟨known, (coherent.named name s held).2⟩) unlisted
  rw [loadExistingSnapshots, same]

theorem Coherent.survives (coherent : disk.Coherent) : disk.Survives := by
  intro listing lists
  rw [coherent.restart lists]
  exact ⟨fun _ => Iff.rfl, fun _ _ => rfl⟩

theorem Coherent.discard (coherent : disk.Coherent) (s : Snapshot) : (disk.discard s).Coherent := by
  unfold SnapshotDisk.discard SnapshotDisk.deleteSnapshot SnapshotManager.deleteSnapshot
  by_cases registered : s.name ∈ disk.manager.snapshots
  · rw [if_pos registered]
    refine ⟨fun name => ?_, fun name t held => coherent.named name t ?_⟩
    · change (disk.metaFiles.erase s.name)[name]? =
        (disk.manager.snapshots.erase s.name)[name]?.map some
      rw [Std.ExtTreeMap.getElem?_erase, Std.ExtTreeMap.getElem?_erase, coherent.files]
      split <;> rfl
    · change (disk.manager.snapshots.erase s.name)[name]? = some t at held
      rw [Std.ExtTreeMap.getElem?_erase] at held
      split at held
      · cases held
      · exact held
  · rw [if_neg registered]
    exact coherent

theorem Coherent.cleanup (coherent : disk.Coherent) (rank : String → Nat) :
    (disk.cleanupOldSnapshots rank).Coherent :=
  foldl_invariant coherent (fun _ s _ coherent => coherent.discard s)

theorem Coherent.insert (coherent : disk.Coherent) {s : Snapshot} {manager : SnapshotManager}
    (listed : listedFile s.name = true)
    (registered : manager.snapshots = disk.manager.snapshots.insert s.name s) :
    Coherent { disk with manager, metaFiles := disk.metaFiles.insert s.name (some s) } := by
  refine ⟨fun name => ?_, fun name t held => ?_⟩
  · rw [registered, Std.ExtTreeMap.getElem?_insert, Std.ExtTreeMap.getElem?_insert, coherent.files]
    split <;> rfl
  · rw [registered, Std.ExtTreeMap.getElem?_insert] at held
    split at held
    next same =>
      cases held
      have same := Std.LawfulEqCmp.compare_eq_iff_eq.mp same
      exact ⟨same, same ▸ listed⟩
    next => exact coherent.named name t held

theorem Coherent.create (coherent : disk.Coherent) {name : String} (listed : listedFile name = true)
    (nowMs : UInt64) (rank : String → Nat) (engine : RocksEngine) :
    (disk.call (.create name nowMs rank engine)).Coherent := by
  by_cases taken : name ∈ disk.manager.snapshots
  · rw [SnapshotDisk.call, SnapshotDisk.createSnapshot, if_pos taken]
    exact coherent
  · obtain ⟨dir, written, -⟩ := writeSnapshotData_eq disk.manager engine name nowMs
    have done : disk.createSnapshot name nowMs rank engine = .ok (cleanupOldSnapshots { disk with
        manager := { disk.manager with
          snapshots := disk.manager.snapshots.insert name ⟨name, nowMs, engine.cfNames⟩
          dataDirs := disk.manager.dataDirs.insert name dir }
        metaFiles := disk.metaFiles.insert name (some ⟨name, nowMs, engine.cfNames⟩) } rank) engine := by
      rw [SnapshotDisk.createSnapshot, if_neg taken]
      change EStateM.bind (disk.manager.writeSnapshotData ⟨name, nowMs, engine.cfNames⟩) _ engine = _
      rw [EStateM.bind, written]
      rfl
    rw [SnapshotDisk.call, done]
    exact (@Coherent.insert disk coherent ⟨name, nowMs, engine.cfNames⟩ _ listed rfl).cleanup rank

theorem Coherent.exportTo (coherent : disk.Coherent) (name : String) {exportDir : String}
    (other : exportDir ≠ disk.dir) : (disk.call (.exportTo name exportDir)).Coherent := by
  rw [SnapshotDisk.call, SnapshotDisk.exportSnapshot]
  split_ifs with registered
  · cases disk.metaFiles[name]? with
    | none => exact coherent
    | some file =>
      simp only [SnapshotDisk.writeDir, if_neg other]
      exact ⟨coherent.files, coherent.named⟩
  · exact coherent

/-- A file of the manager's own directory is registered, so that it cannot be imported under its own
name. -/
theorem Coherent.not_onItself (coherent : disk.Coherent) {importDir : String} {found : Option String}
    {dir : SnapshotDir} {file : Snapshot} (there : disk.readDir importDir = some dir)
    (picked : found.bind (dir.metaFiles[·]?) = some (some file))
    (free : file.name ∉ disk.manager.snapshots) :
    ¬(importDir = disk.dir ∧ found = some file.name) := by
  rintro ⟨own, rfl⟩
  rw [SnapshotDisk.readDir, if_pos own] at there
  cases there
  rw [Option.bind_some, coherent.files, Std.ExtTreeMap.getElem?_eq_none free] at picked
  cases picked

theorem Coherent.importFrom (coherent : disk.Coherent) {importDir : String}
    {found newName : Option String} {timestamp : Nat}
    (keeps : disk.KeepsNames (.importFrom importDir found newName timestamp)) :
    (disk.call (.importFrom importDir found newName timestamp)).Coherent := by
  rw [SnapshotDisk.call, SnapshotDisk.importSnapshot]
  cases there : disk.readDir importDir with
  | none => exact coherent
  | some dir =>
    rcases picked : found.bind (dir.metaFiles[·]?) with _ | _ | file
    · simp only [picked]
      exact coherent
    · simp only [picked]
      exact coherent
    · obtain ⟨rfl, listed⟩ := keeps dir file there picked
      simp only [picked, Option.getD_some]
      by_cases taken : file.name ∈ disk.manager.snapshots
      · rw [if_pos taken]
        exact coherent
      · rw [if_neg taken, if_neg (coherent.not_onItself there picked taken)]
        exact coherent.insert listed rfl

theorem Coherent.call (coherent : disk.Coherent) {call : DiskCall} (keeps : disk.KeepsNames call) :
    (disk.call call).Coherent := by
  cases call with
  | create name nowMs rank engine => exact coherent.create keeps nowMs rank engine
  | delete name => exact coherent.discard ⟨name, 0, []⟩
  | exportTo name exportDir => exact coherent.exportTo name keeps
  | importFrom importDir found newName timestamp => exact coherent.importFrom keeps

end Steps

def empty (config : SnapshotConfig) (dir : String) (outside : Std.ExtTreeMap String SnapshotDir) :
    SnapshotDisk :=
  ⟨⟨config, ∅, ∅⟩, dir, ∅, outside⟩

/-- If snapshots keep their names and are exported to other directories, the registry survives a restart
after any sequence of calls. -/
theorem registry_survives (config : SnapshotConfig) (dir : String)
    (outside : Std.ExtTreeMap String SnapshotDir) (calls : List DiskCall)
    (keeps : ∀ p ∈ foldSteps SnapshotDisk.call (empty config dir outside) calls, p.1.KeepsNames p.2) :
    ∀ before after, calls = before ++ after →
      (before.foldl SnapshotDisk.call (empty config dir outside)).Survives := by
  rintro before after rfl
  rw [foldSteps_append] at keeps
  refine Coherent.survives (foldl_invariant ⟨fun name => ?_, fun name s held => ?_⟩ ?_)
  · simp [empty]
  · simp [empty] at held
  · exact fun disk call listed coherent => coherent.call (keeps _ (List.mem_append_left _ listed))

def exportImport (newName : String) : List DiskCall :=
  [.create "a" 1 (fun _ => 0) sampleEngine, .exportTo "a" "out", .delete "a",
    .importFrom "out" (some "a") (some newName) 2]

theorem registry_survives_same :
    ((exportImport "a").foldl SnapshotDisk.call (empty ⟨3, false⟩ "snapshots" ∅)).Survives ∧
    "a" ∈ ((exportImport "a").foldl SnapshotDisk.call (empty ⟨3, false⟩ "snapshots" ∅)).manager.snapshots := by
  refine ⟨registry_survives ⟨3, false⟩ "snapshots" ∅ (exportImport "a") (fun p listed => ?_) _ [] rfl,
    by decide +kernel⟩
  simp only [exportImport, foldSteps, List.mem_cons, List.not_mem_nil, or_false] at listed
  rcases listed with rfl | rfl | rfl | rfl
  · exact (by decide : listedFile "a" = true)
  · exact (by decide : "out" ≠ "snapshots")
  · trivial
  · intro dir file there picked
    have inside : ((some dir).bind (·.metaFiles["a"]?.join)).map Snapshot.name = some "a" := by
      rw [← there]
      decide +kernel
    have held : dir.metaFiles["a"]? = some (some file) := picked
    rw [Option.bind_some, held, Option.join_some, Option.map_some] at inside
    have name := Option.some.inj inside
    exact ⟨by rw [name], by rw [name]; decide⟩

/-- Imported under another name, the snapshot is `b` for the old manager and `a` for a new one. Exported
to its own directory, it is known to the old manager only. -/
theorem registry_renamed :
    let disk := (exportImport "b").foldl SnapshotDisk.call (empty ⟨3, false⟩ "snapshots" ∅)
    disk.metaFiles.keys = ["b"] ∧ disk.manager.snapshots.keys = ["b"] ∧
      (disk.loadExistingSnapshots ["b"]).snapshots.keys = ["a"] ∧
    let disk := [.create "a" 1 (fun _ => 0) sampleEngine, .exportTo "a" "snapshots"].foldl
      SnapshotDisk.call (empty ⟨3, false⟩ "snapshots" ∅)
    disk.metaFiles.keys = ["a"] ∧ disk.manager.snapshots.keys = ["a"] ∧
      (disk.loadExistingSnapshots ["a"]).snapshots.keys = [] := by
  decide +kernel

end SnapshotDisk

end CatalystNode
