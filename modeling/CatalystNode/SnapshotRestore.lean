import CatalystNode.SnapshotManager
import CatalystNode.Overlay
import CatalystNode.FoldTrace

namespace CatalystNode

open ByteVector HexCodec Framing Overlay FoldTrace

section Records

def RecordFits (r : Bytes × Bytes) : Prop := r.1.length < 2 ^ 32 ∧ r.2.length < 2 ^ 32

def recordSize (r : Bytes × Bytes) : Nat := 8 + r.1.length + r.2.length

theorem length_encodeRecord (r : Bytes × Bytes) : (encodeRecord r).length = recordSize r := by
  simp only [encodeRecord, recordSize, List.length_append, length_leBytes]
  omega

theorem length_flatMap_encodeRecord (records : List (Bytes × Bytes)) :
    (records.flatMap encodeRecord).length = (records.map recordSize).sum := by
  rw [List.length_flatMap]
  exact congrArg List.sum (List.map_congr_left (fun r _ => length_encodeRecord r))

theorem takes_readRecord {r : Bytes × Bytes} (fits : RecordFits r) :
    Takes readRecord (encodeRecord r) r := by
  have keyLen : ofLeBytes (leBytes 4 r.1.length) = r.1.length := ofLeBytes_leBytes fits.1
  have valueLen : ofLeBytes (leBytes 4 r.2.length) = r.2.length := ofLeBytes_leBytes fits.2
  refine Takes.of_eq (Takes.andThen (takes_readExact (length_leBytes 4 r.1.length)) <|
    Takes.andThen (takes_readExact keyLen.symm) <|
    Takes.andThen (takes_readExact (length_leBytes 4 r.2.length)) <|
    Takes.andThen (takes_readExact valueLen.symm) <| Takes.done r) ?_
  simp only [List.append_nil, encodeRecord, List.append_assoc]

theorem length_of_readRecord {data rest : Bytes} {r : Bytes × Bytes}
    (h : readRecord data = some (r, rest)) : data.length = recordSize r + rest.length := by
  have exact : ∀ {n : Nat} {data bytes rest : Bytes}, readExact n data = some (bytes, rest) →
      bytes.length = n ∧ data.length = n + rest.length := by
    intro n data bytes rest h
    unfold readExact at h
    split at h
    next enough =>
      cases Option.some.inj h
      simp only [List.length_take, List.length_drop]
      omega
    next => simp at h
  simp only [readRecord, Option.bind_eq_bind, Option.bind_eq_some_iff, Prod.exists, Option.pure_def,
    Option.some.injEq, Prod.mk.injEq] at h
  obtain ⟨_, _, h₁, key, _, h₂, _, _, h₃, value, _, h₄, rfl, rfl⟩ := h
  have s₁ := exact h₁
  have s₂ := exact h₂
  have s₃ := exact h₃
  have s₄ := exact h₄
  simp only [recordSize]
  omega

theorem sum_readRecords_le (fuel : Nat) (data : Bytes) :
    ((readRecords fuel data).map recordSize).sum ≤ data.length := by
  induction fuel generalizing data with
  | zero => simp [readRecords]
  | succ fuel ih =>
    cases front : readRecord data with
    | none => simp [readRecords, front]
    | some p =>
      have size := @length_of_readRecord data p.2 p.1 front
      have later := ih p.2
      simp only [readRecords, front, List.map_cons, List.sum_cons]
      omega

theorem readRecords_flatMap {records : List (Bytes × Bytes)} (fits : ∀ r ∈ records, RecordFits r)
    {fuel : Nat} (enough : records.length ≤ fuel) :
    readRecords fuel (records.flatMap encodeRecord) = records := by
  induction records generalizing fuel with
  | nil => cases fuel <;> rfl
  | cons r records ih =>
    cases fuel with
    | zero => simp at enough
    | succ fuel =>
      have front := takes_readRecord (fits r List.mem_cons_self) (records.flatMap encodeRecord)
      have later := ih (fun r hr => fits r (List.mem_cons_of_mem _ hr))
        (Nat.le_of_succ_le_succ enough)
      simp only [List.flatMap_cons, readRecords, front, later]

theorem length_le_sum_recordSize (records : List (Bytes × Bytes)) :
    records.length ≤ (records.map recordSize).sum := by
  induction records with
  | nil => simp
  | cons r records ih =>
    simp only [List.length_cons, List.map_cons, List.sum_cons, recordSize] at *
    omega

end Records

section Files

variable {config : SnapshotConfig} {family : Family}

def fileRecords (file : Bytes) : List (Bytes × Bytes) :=
  readRecords (decompressData file).length (decompressData file)

def ReadsBack (config : SnapshotConfig) (family : Family) : Prop :=
  config.compressSnapshots = true ∨ ∀ r ∈ family.toList.head?, r.1.length % 256 ≠ 1

def shiftedRecords (family : Family) : List (Bytes × Bytes) :=
  let data := (family.toList.flatMap encodeRecord).tail
  readRecords data.length data

/-- The first byte of uncompressed records is the low byte of the first key's length. -/
theorem decompressData_flatMap (records : List (Bytes × Bytes)) :
    decompressData (records.flatMap encodeRecord) =
      if ∀ r ∈ records.head?, r.1.length % 256 ≠ 1 then records.flatMap encodeRecord
      else (records.flatMap encodeRecord).tail := by
  cases records with
  | nil => rfl
  | cons r records =>
    have byte : UInt8.ofNat r.1.length = 1 ↔ r.1.length % 256 = 1 := by
      rw [← UInt8.toNat_inj, UInt8.toNat_ofNat']
      rfl
    simp only [List.flatMap_cons, encodeRecord, leBytes, List.cons_append, decompressData, byte,
      List.head?_cons, Option.mem_some_iff, forall_eq', List.tail_cons, ne_eq, ite_not]

theorem fileRecords_of_readsBack (fits : ∀ r ∈ family.toList, RecordFits r)
    (back : ReadsBack config family) : fileRecords (cfFile config family.toList) = family.toList := by
  have content : decompressData (cfFile config family.toList) =
      family.toList.flatMap encodeRecord := by
    unfold cfFile
    split
    next => rfl
    next plain => rw [decompressData_flatMap, if_pos (back.resolve_left plain)]
  have enough := length_le_sum_recordSize family.toList
  rw [← length_flatMap_encodeRecord] at enough
  rw [fileRecords, content]
  exact readRecords_flatMap fits enough

theorem fileRecords_of_not_readsBack (misread : ¬ReadsBack config family) :
    fileRecords (cfFile config family.toList) = shiftedRecords family := by
  obtain ⟨plain, mistaken⟩ := not_or.mp misread
  rw [fileRecords, cfFile, if_neg plain, decompressData_flatMap, if_neg mistaken]
  rfl

/-- A mistaken file is one byte short of the column family, so it cannot bring it back. -/
theorem overlay_shiftedRecords_ne (misread : ¬ReadsBack config family) :
    overlay ∅ (shiftedRecords family) ≠ family := by
  intro same
  obtain ⟨-, mistaken⟩ := not_or.mp misread
  have weight := sum_toList_le_of_overlay same recordSize
  have read := sum_readRecords_le (family.toList.flatMap encodeRecord).tail.length
    (family.toList.flatMap encodeRecord).tail
  have some : 0 < family.toList.length := by
    rcases hfirst : family.toList with _ | ⟨r, records⟩
    · simp [hfirst] at mistaken
    · simp
  have total := length_le_sum_recordSize family.toList
  rw [← length_flatMap_encodeRecord] at weight total
  rw [List.length_tail] at read
  change _ ≤ ((readRecords _ _).map recordSize).sum at weight
  rw [List.length_tail] at weight
  omega

end Files

section Steps

theorem foldl_erase_keys (family : Family) :
    (family.toList.map Prod.fst).foldl (fun family key => family.erase key) family = ∅ := by
  apply Std.ExtTreeMap.ext_getElem?
  intro k
  rw [List.foldl_map, Eviction.getElem?_foldl_erase, Std.ExtTreeMap.map_fst_toList_eq_keys,
    Std.ExtTreeMap.getElem?_empty]
  split
  next => rfl
  next missing => exact Std.ExtTreeMap.getElem?_eq_none (mt Std.ExtTreeMap.mem_keys.mpr missing)

def cleared (cf : String) (family : Family) : Family := if cf = "default" then family else ∅

theorem actsOn_clearFamily (cf : String) : ActsOn cf (cleared cf) (clearFamily cf) := by
  unfold clearFamily
  split
  next default => exact ActsOn.skip.congr (fun family => (if_pos default).symm)
  next other =>
    have deletes : ∀ family : Family, ActsOn cf _
        ((family.toList.map Prod.fst).forM (RocksEngine.delete cf)) := fun family =>
      ActsOn.forM (fun key => actsOn_write cf (fun family => family.erase key)) _
    refine (ActsOn.iterate deletes).congr (fun family => ?_)
    rw [foldl_erase_keys, cleared, if_neg other]

theorem actsOn_loadColumnFamilyData (cf : String) (file : Bytes) :
    ActsOn cf (fun family => overlay family (fileRecords file))
      (loadColumnFamilyData cf (decompressData file)) :=
  ActsOn.forM (fun r : Bytes × Bytes => actsOn_write cf (fun family => family.insert r.1 r.2))
    (fileRecords file)

theorem nodup_cfNames (engine : RocksEngine) : engine.cfNames.Nodup :=
  (Eviction.perm_sortByKey _).nodup_iff.mpr Std.ExtTreeMap.nodup_keys

theorem mem_cfNames {engine : RocksEngine} {cf : String} :
    cf ∈ engine.cfNames ↔ cf ∈ engine.families :=
  (Eviction.perm_sortByKey _).mem_iff.trans Std.ExtTreeMap.mem_keys

theorem clearDatabase_spec (engine : RocksEngine) :
    ∃ engine', clearDatabase engine = .ok () engine' ∧ ∀ cf,
      engine'.families[cf]? = engine.families[cf]?.map (cleared cf) := by
  obtain ⟨engine', done, after⟩ := forM_actsOn (nodup_cfNames engine)
    (fun cf _ => actsOn_clearFamily cf) (fun cf listed => mem_cfNames.mp listed)
  refine ⟨engine', done, fun cf => ?_⟩
  rw [after]
  split
  next => rfl
  next missing => rw [Std.ExtTreeMap.getElem?_eq_none (mt mem_cfNames.mpr missing), Option.map_none]

end Steps

section Manager

variable {manager : SnapshotManager} {engine : RocksEngine} {rank : String → Nat}

/-- A cleanup either drops a snapshot from the registry or keeps it together with its files. -/
theorem cleanupOldSnapshots_keeps {name : String}
    (kept : name ∈ (manager.cleanupOldSnapshots rank).snapshots) :
    (manager.cleanupOldSnapshots rank).snapshots[name]? = manager.snapshots[name]? ∧
      (manager.cleanupOldSnapshots rank).dataDirs[name]? = manager.dataDirs[name]? := by
  revert kept
  unfold SnapshotManager.cleanupOldSnapshots
  dsimp only
  split
  next => exact fun _ => ⟨rfl, rfl⟩
  next =>
    refine foldl_invariant (P := fun m : SnapshotManager => name ∈ m.snapshots →
      m.snapshots[name]? = manager.snapshots[name]? ∧ m.dataDirs[name]? = manager.dataDirs[name]?)
      (fun _ => ⟨rfl, rfl⟩) ?_
    intro m s _ same
    unfold SnapshotManager.deleteSnapshot
    by_cases registered : s.name ∈ m.snapshots
    · rw [if_pos registered]
      intro still
      obtain ⟨other, present⟩ := Std.ExtTreeMap.mem_erase.mp still
      simp only [Std.ExtTreeMap.getElem?_erase, other, if_false]
      exact same present
    · rw [if_neg registered]
      exact same

def snapshotFiles (config : SnapshotConfig) (engine : RocksEngine) (cf : String) : Option Bytes :=
  engine.families[cf]?.map (fun family => cfFile config family.toList)

theorem writeCfFile_of_getElem? (config : SnapshotConfig) (dir : Std.ExtTreeMap String Bytes)
    {cf : String} {family : Family} (held : engine.families[cf]? = some family) :
    writeCfFile config dir cf engine = .ok (dir.insert cf (cfFile config family.toList)) engine := by
  change EStateM.bind (RocksEngine.iterator cf) _ engine = _
  rw [EStateM.bind, RocksEngine.iterator, held]
  rfl

theorem foldlM_writeCfFile (config : SnapshotConfig) {names : List String}
    (present : ∀ cf ∈ names, cf ∈ engine.families) (dir : Std.ExtTreeMap String Bytes) :
    ∃ dir', names.foldlM (writeCfFile config) dir engine = .ok dir' engine ∧
      ∀ cf, dir'[cf]? = if cf ∈ names then snapshotFiles config engine cf else dir[cf]? := by
  induction names generalizing dir with
  | nil => exact ⟨dir, rfl, fun cf => by simp⟩
  | cons cf names ih =>
    obtain ⟨family, held⟩ := Option.isSome_iff_exists.mp
      (Std.ExtTreeMap.mem_iff_isSome_getElem?.mp (present cf List.mem_cons_self))
    obtain ⟨dir', done, files⟩ := ih (fun cf hcf => present cf (List.mem_cons_of_mem _ hcf))
      (dir.insert cf (cfFile config family.toList))
    refine ⟨dir', ?_, fun name => ?_⟩
    · change EStateM.bind (writeCfFile config dir cf) _ engine = _
      rw [EStateM.bind, writeCfFile_of_getElem? config dir held]
      exact done
    · rw [files, Std.ExtTreeMap.getElem?_insert]
      simp only [Std.LawfulEqCmp.compare_eq_iff_eq, List.mem_cons]
      by_cases same : name = cf
      · subst same
        simp [snapshotFiles, held]
      · simp [same, Ne.symm same]

theorem writeSnapshotData_eq (manager : SnapshotManager) (engine : RocksEngine) (name : String)
    (nowMs : UInt64) :
    ∃ dir, manager.writeSnapshotData ⟨name, nowMs, engine.cfNames⟩ engine =
        .ok { manager with dataDirs := manager.dataDirs.insert name dir } engine ∧
      ∀ cf ∈ engine.cfNames, dir[cf]? = snapshotFiles manager.config engine cf := by
  obtain ⟨dir, done, files⟩ := foldlM_writeCfFile manager.config
    (fun cf listed => mem_cfNames.mp listed) (manager.dataDirs[name]?.getD ∅)
  refine ⟨dir, ?_, fun cf listed => by rw [files, if_pos listed]⟩
  change EStateM.bind (engine.cfNames.foldlM (writeCfFile manager.config)
    (manager.dataDirs[name]?.getD ∅)) _ engine = _
  rw [EStateM.bind, done]
  rfl

/-- A snapshot under a new name is written and registered, then the old ones are cleaned up. -/
theorem createSnapshot_eq {name : String} (fresh : name ∉ manager.snapshots) (nowMs : UInt64) :
    ∃ dir, manager.createSnapshot name nowMs rank engine =
        .ok (SnapshotManager.cleanupOldSnapshots { manager with
            snapshots := manager.snapshots.insert name ⟨name, nowMs, engine.cfNames⟩
            dataDirs := manager.dataDirs.insert name dir } rank,
          ⟨name, nowMs, engine.cfNames⟩) engine ∧
      ∀ cf ∈ engine.cfNames, dir[cf]? = snapshotFiles manager.config engine cf := by
  obtain ⟨dir, written, files⟩ := writeSnapshotData_eq manager engine name nowMs
  refine ⟨dir, ?_, files⟩
  rw [SnapshotManager.createSnapshot, if_neg fresh]
  change EStateM.bind (manager.writeSnapshotData ⟨name, nowMs, engine.cfNames⟩) _ engine = _
  rw [EStateM.bind, written]
  rfl

/-- What a new snapshot consists of, unless the cleanup has already dropped it. -/
theorem createSnapshot_spec {name : String} {nowMs : UInt64} {manager' : SnapshotManager}
    {snapshot : Snapshot} {engine' : RocksEngine}
    (created : manager.createSnapshot name nowMs rank engine = .ok (manager', snapshot) engine')
    (kept : name ∈ manager'.snapshots) :
    manager'.snapshots[name]? = some ⟨name, nowMs, engine.cfNames⟩ ∧
      ∃ dir, manager'.dataDirs[name]? = some dir ∧
        ∀ cf ∈ engine.cfNames, dir[cf]? = snapshotFiles manager.config engine cf := by
  by_cases taken : name ∈ manager.snapshots
  · rw [SnapshotManager.createSnapshot, if_pos taken] at created
    cases created
  · obtain ⟨dir, done, files⟩ := @createSnapshot_eq manager engine rank name taken nowMs
    rw [done] at created
    cases created
    obtain ⟨registered, stored⟩ := cleanupOldSnapshots_keeps kept
    refine ⟨?_, dir, ?_, files⟩
    · rw [registered]
      exact Std.ExtTreeMap.getElem?_insert_self
    · rw [stored]
      exact Std.ExtTreeMap.getElem?_insert_self

/-- The database a snapshot is loaded into: every column family of the snapshot is cleared and
overlaid with the records of its file. -/
theorem loadSnapshot_spec {name : String} {snapshot : Snapshot} {dir : Std.ExtTreeMap String Bytes}
    {files : String → Bytes} (registered : manager.snapshots[name]? = some snapshot)
    (stored : manager.dataDirs[snapshot.name]? = some dir)
    (complete : ∀ cf ∈ snapshot.columnFamilies, dir[cf]? = some (files cf))
    (distinct : snapshot.columnFamilies.Nodup)
    (present : ∀ cf ∈ snapshot.columnFamilies, cf ∈ engine.families) :
    ∃ engine', manager.loadSnapshot name engine = .ok () engine' ∧ ∀ cf,
      engine'.families[cf]? = engine.families[cf]?.map (fun family =>
        if cf ∈ snapshot.columnFamilies then overlay (cleared cf family) (fileRecords (files cf))
        else cleared cf family) := by
  obtain ⟨engine₁, clearing, after₁⟩ := clearDatabase_spec engine
  have acts : ∀ cf ∈ snapshot.columnFamilies, ActsOn cf
      (fun family => overlay family (fileRecords (files cf))) (dir[cf]?.elim (pure ())
        (fun file => loadColumnFamilyData cf (decompressData file))) := by
    intro cf listed
    rw [complete cf listed]
    exact actsOn_loadColumnFamilyData cf (files cf)
  have still : ∀ cf ∈ snapshot.columnFamilies, cf ∈ engine₁.families := by
    intro cf listed
    have held := Std.ExtTreeMap.mem_iff_isSome_getElem?.mp (present cf listed)
    rw [Std.ExtTreeMap.mem_iff_isSome_getElem?, after₁, Option.isSome_map, held]
  obtain ⟨engine₂, loading, after₂⟩ := forM_actsOn distinct acts still
  refine ⟨engine₂, ?_, fun cf => ?_⟩
  · rw [SnapshotManager.loadSnapshot, registered]
    change EStateM.bind clearDatabase _ engine = _
    rw [EStateM.bind, clearing]
    change manager.loadSnapshotData snapshot engine₁ = _
    rw [SnapshotManager.loadSnapshotData, stored]
    exact loading
  · rw [after₂, after₁]
    split
    next listed => rw [Option.map_map]; rfl
    next => rfl

end Manager

section Restore

theorem mem_families_foldl_apply (ops : List EngineOp) (engine : RocksEngine) (name : String) :
    name ∈ (ops.foldl EngineOp.apply engine).families ↔ name ∈ engine.families := by
  induction ops generalizing engine with
  | nil => rfl
  | cons op ops ih => rw [List.foldl_cons, ih, mem_families_apply]

/-- The default column family comes back: its file is read as written and no key was added since, or
it is misread and every key ends up as saved all the same. -/
def DefaultRestored (config : SnapshotConfig) (saved live : Family) : Prop :=
  (ReadsBack config saved ∧ ∀ k ∈ live, k ∈ saved) ∨
    (¬ReadsBack config saved ∧ ∀ k, (lastOf (shiftedRecords saved) k).or live[k]? = saved[k]?)

variable {config : SnapshotConfig} {saved live : Family}

theorem restored_iff_of_ne {cf : String} (other : cf ≠ "default")
    (fits : ∀ r ∈ saved.toList, RecordFits r) :
    overlay (cleared cf live) (fileRecords (cfFile config saved.toList)) = saved ↔
      ReadsBack config saved := by
  rw [cleared, if_neg other]
  by_cases back : ReadsBack config saved
  · rw [fileRecords_of_readsBack fits back, overlay_toList_eq_iff]
    simp [back]
  · rw [fileRecords_of_not_readsBack back]
    exact iff_of_false (overlay_shiftedRecords_ne back) back

theorem restored_iff_default (fits : ∀ r ∈ saved.toList, RecordFits r) :
    overlay (cleared "default" live) (fileRecords (cfFile config saved.toList)) = saved ↔
      DefaultRestored config saved live := by
  rw [cleared, if_pos rfl, DefaultRestored]
  by_cases back : ReadsBack config saved
  · rw [fileRecords_of_readsBack fits back, overlay_toList_eq_iff]
    simp [back]
  · rw [fileRecords_of_not_readsBack back, Std.ExtTreeMap.ext_getElem?_iff]
    simp only [back, false_and, false_or, not_false_eq_true, true_and, getElem?_overlay]

end Restore

/-- A restore succeeds, and brings back every column family exactly when no file of a column family
is mistaken for a compressed one and the default column family has no keys added since. -/
theorem loadSnapshot_exact_iff {manager manager' : SnapshotManager} {engine engine' : RocksEngine}
    {name : String} {nowMs : UInt64} {rank : String → Nat} {snapshot : Snapshot}
    (created : manager.createSnapshot name nowMs rank engine = .ok (manager', snapshot) engine')
    (kept : name ∈ manager'.snapshots)
    (fits : ∀ (cf : String) (family : Family), engine.families[cf]? = some family →
      ∀ r ∈ family.toList, RecordFits r)
    (ops : List EngineOp) :
    ∃ restored, manager'.loadSnapshot name (ops.foldl EngineOp.apply engine) = .ok () restored ∧
      ((∀ cf : String, restored.families[cf]? = engine.families[cf]?) ↔
        (∀ (cf : String) (saved : Family), cf ≠ "default" → engine.families[cf]? = some saved →
          ReadsBack manager.config saved) ∧
        ∀ saved live : Family, engine.families["default"]? = some saved →
          (ops.foldl EngineOp.apply engine).families["default"]? = some live →
          DefaultRestored manager.config saved live) := by
  obtain ⟨registered, dir, stored, files⟩ := createSnapshot_spec created kept
  have complete : ∀ cf ∈ engine.cfNames, dir[cf]? =
      some (cfFile manager.config (engine.families[cf]?.getD ∅).toList) := by
    intro cf listed
    obtain ⟨family, held⟩ := Option.isSome_iff_exists.mp
      (Std.ExtTreeMap.mem_iff_isSome_getElem?.mp (mem_cfNames.mp listed))
    rw [files cf listed, snapshotFiles, held, Option.map_some, Option.getD_some]
  obtain ⟨restored, done, after⟩ := loadSnapshot_spec registered stored complete
    (nodup_cfNames engine) (fun cf listed =>
      (mem_families_foldl_apply ops engine cf).mpr (mem_cfNames.mp listed))
  have current : ∀ (cf : String) (saved : Family), engine.families[cf]? = some saved →
      ∃ live, (ops.foldl EngineOp.apply engine).families[cf]? = some live := by
    intro cf saved held
    apply Option.isSome_iff_exists.mp
    rw [← Std.ExtTreeMap.mem_iff_isSome_getElem?, mem_families_foldl_apply,
      Std.ExtTreeMap.mem_iff_isSome_getElem?, held]
    rfl
  have each : ∀ (cf : String) (saved live : Family), engine.families[cf]? = some saved →
      (ops.foldl EngineOp.apply engine).families[cf]? = some live →
      (restored.families[cf]? = some saved ↔
        overlay (cleared cf live) (fileRecords (cfFile manager.config saved.toList)) = saved) := by
    intro cf saved live held now
    have listed : cf ∈ engine.cfNames := by
      rw [mem_cfNames, Std.ExtTreeMap.mem_iff_isSome_getElem?, held]
      rfl
    rw [after, now, Option.map_some, if_pos listed, held, Option.getD_some, Option.some.injEq]
  refine ⟨restored, done, ?_, ?_⟩
  · intro exact
    refine ⟨fun cf saved other held => ?_, fun saved live held now => ?_⟩
    · obtain ⟨live, now⟩ := current cf saved held
      exact (restored_iff_of_ne other (fits cf saved held)).mp
        ((each cf saved live held now).mp (by rw [exact, held]))
    · exact (restored_iff_default (fits _ saved held)).mp
        ((each _ saved live held now).mp (by rw [exact, held]))
  · rintro ⟨others, default⟩ cf
    cases held : engine.families[cf]? with
    | none =>
      have missing : cf ∉ (ops.foldl EngineOp.apply engine).families := by
        rw [mem_families_foldl_apply, Std.ExtTreeMap.mem_iff_isSome_getElem?, held]
        simp
      rw [after, Std.ExtTreeMap.getElem?_eq_none missing, Option.map_none]
    | some saved =>
      obtain ⟨live, now⟩ := current cf saved held
      rw [each cf saved live held now]
      by_cases name : cf = "default"
      · subst name
        exact (restored_iff_default (fits _ saved held)).mpr (default saved live held now)
      · exact (restored_iff_of_ne name (fits cf saved held)).mpr (others cf saved name held)

def sampleEngine : RocksEngine where
  families := ((∅ : Std.ExtTreeMap String Family).insert "default" ∅).insert "accounts"
    ((∅ : Family).insert [97] [5])
  hasDefault := by simp

def sampleSnapshots (compress : Bool) : SnapshotManager := ⟨⟨10, compress⟩, ∅, ∅⟩

def createThenLoad (manager : SnapshotManager) (engine : RocksEngine) (ops : List EngineOp) :
    Option RocksEngine :=
  match manager.createSnapshot "s" 1 (fun _ => 0) engine with
  | .error _ _ => none
  | .ok (manager, _) engine =>
    match manager.loadSnapshot "s" (ops.foldl EngineOp.apply engine) with
    | .error _ _ => none
    | .ok _ engine => some engine

/-- An uncompressed snapshot loses an account with a key of one byte, and a compressed one keeps what
was put into the default column family after it. -/
theorem loadSnapshot_inexact :
    (sampleEngine.families["accounts"]?).map Std.ExtTreeMap.toList = some [([97], [5])] ∧
    (createThenLoad (sampleSnapshots false) sampleEngine []).map (fun engine =>
      (engine.families["accounts"]?).map Std.ExtTreeMap.toList) = some (some []) ∧
    (sampleEngine.families["default"]?).map Std.ExtTreeMap.toList = some [] ∧
    (createThenLoad (sampleSnapshots true) sampleEngine [.put "default" [1] [2]]).map (fun engine =>
      (engine.families["default"]?).map Std.ExtTreeMap.toList) = some (some [([1], [2])]) := by
  decide +kernel

theorem sampleEngine_fits (cf : String) (family : Family)
    (held : sampleEngine.families[cf]? = some family) : ∀ r ∈ family.toList, RecordFits r := by
  have all : ∀ p ∈ sampleEngine.families.toList, ∀ r ∈ p.2.toList,
      r.1.length < 2 ^ 32 ∧ r.2.length < 2 ^ 32 := by decide +kernel
  exact all (cf, family) (Std.ExtTreeMap.mem_toList_iff_getElem?_eq_some.mpr held)

/-- With compression, an account that is deleted and another that is added are both undone. -/
theorem loadSnapshot_exact_iff_compressed :
    ∃ manager' snapshot engine' restored,
      (sampleSnapshots true).createSnapshot "s" 1 (fun _ => 0) sampleEngine = .ok (manager', snapshot) engine' ∧
      manager'.loadSnapshot "s" ([.delete "accounts" [97], .put "accounts" [98] [6]].foldl
        EngineOp.apply sampleEngine) = .ok () restored ∧
      ∀ cf : String, restored.families[cf]? = sampleEngine.families[cf]? := by
  have registered : (match (sampleSnapshots true).createSnapshot "s" 1 (fun _ => 0) sampleEngine with
      | .ok (manager', _) _ => decide ("s" ∈ manager'.snapshots)
      | .error _ _ => false) = true := by decide +kernel
  have untouched : (([.delete "accounts" [97], .put "accounts" [98] [6]].foldl EngineOp.apply
      sampleEngine).families["default"]?).map Std.ExtTreeMap.toList = some [] := by decide +kernel
  cases created : (sampleSnapshots true).createSnapshot "s" 1 (fun _ => 0) sampleEngine with
  | error e engine' => simp [created] at registered
  | ok p engine' =>
    obtain ⟨manager', snapshot⟩ := p
    rw [created] at registered
    obtain ⟨restored, done, exact⟩ := loadSnapshot_exact_iff created (of_decide_eq_true registered)
      sampleEngine_fits [.delete "accounts" [97], .put "accounts" [98] [6]]
    refine ⟨manager', snapshot, engine', restored, rfl, done, exact.mpr ⟨?_, ?_⟩⟩
    · intro cf saved _ _
      exact Or.inl rfl
    · intro saved live _ now
      refine Or.inl ⟨Or.inl rfl, fun k present => ?_⟩
      rw [now, Option.map_some, Option.some.injEq] at untouched
      have listed := Std.ExtTreeMap.mem_keys.mpr present
      rw [← Std.ExtTreeMap.map_fst_toList_eq_keys, untouched] at listed
      simp at listed

end CatalystNode
