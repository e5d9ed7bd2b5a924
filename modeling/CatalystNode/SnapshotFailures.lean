import CatalystNode.SnapshotRestore

namespace CatalystNode

open ByteVector Overlay

def dirRecords (dir : Std.ExtTreeMap String Bytes) (cf : String) : List (Bytes × Bytes) :=
  dir[cf]?.elim [] fileRecords

/-- The database has the column family, or there is nothing to put into it. -/
def loadable (dir : Std.ExtTreeMap String Bytes) (engine : RocksEngine) (cf : String) : Bool :=
  cf ∈ engine.families ∨ dirRecords dir cf = []

/-- The records that are put into a column family. The restore ends at the first column family that
cannot be loaded. -/
def takenRecords (dir : Std.ExtTreeMap String Bytes) (engine : RocksEngine) (names : List String)
    (cf : String) : List (Bytes × Bytes) :=
  if cf ∈ names.takeWhile (loadable dir engine) then dirRecords dir cf else []

def afterLoad (dir : Std.ExtTreeMap String Bytes) (live : RocksEngine) (names : List String)
    (cf : String) : Option Family :=
  live.families[cf]?.map (fun family => overlay (cleared cf family) (takenRecords dir live names cf))

section Load

variable {dir : Std.ExtTreeMap String Bytes} {engine : RocksEngine} {cf : String}

def loadFamily (dir : Std.ExtTreeMap String Bytes) (cf : String) : EngineM Unit :=
  dir[cf]?.elim (pure ()) (fun file => loadColumnFamilyData cf (decompressData file))

theorem loadFamily_eq (dir : Std.ExtTreeMap String Bytes) (cf : String) :
    loadFamily dir cf = (dirRecords dir cf).forM (fun r => RocksEngine.put cf r.1 r.2) := by
  rw [loadFamily, dirRecords]
  cases dir[cf]? with
  | none => rfl
  | some file => rfl

theorem actsOn_loadFamily (dir : Std.ExtTreeMap String Bytes) (cf : String) :
    ActsOn cf (fun family => overlay family (dirRecords dir cf)) (loadFamily dir cf) := by
  rw [loadFamily_eq]
  exact ActsOn.forM (fun r : Bytes × Bytes => actsOn_write cf (fun family =>
    family.insert r.1 r.2)) (dirRecords dir cf)

/-- A column family that can be loaded is overlaid with its records, if the database has it. -/
theorem loadFamily_of_loadable (can : loadable dir engine cf = true) :
    ∃ engine', loadFamily dir cf engine = .ok () engine' ∧ ∀ name, engine'.families[name]? =
      if name = cf then engine.families[name]?.map (fun family => overlay family (dirRecords dir cf))
      else engine.families[name]? := by
  cases held : engine.families[cf]? with
  | some family =>
    obtain ⟨engine', done, after⟩ := actsOn_loadFamily dir cf engine family held
    refine ⟨engine', done, fun name => ?_⟩
    rw [after]
    split
    next same => rw [same, held, Option.map_some]
    next => rfl
  | none =>
    have none : dirRecords dir cf = [] := by
      refine (of_decide_eq_true can).resolve_left ?_
      rw [Std.ExtTreeMap.mem_iff_isSome_getElem?, held]
      simp
    refine ⟨engine, by rw [loadFamily_eq, none]; rfl, fun name => ?_⟩
    split
    next same => rw [same, held, Option.map_none]
    next => rfl

theorem loadFamily_of_not_loadable (cannot : loadable dir engine cf = false) :
    loadFamily dir cf engine = .error (.columnFamilyNotFound cf) engine := by
  obtain ⟨missing, some⟩ := not_or.mp (of_decide_eq_false cannot)
  obtain ⟨r, rest, records⟩ := List.exists_cons_of_ne_nil some
  rw [loadFamily_eq, records]
  change EStateM.bind (RocksEngine.put cf r.1 r.2) _ engine = _
  rw [EStateM.bind, RocksEngine.put, RocksEngine.write, Std.ExtTreeMap.getElem?_eq_none missing]

theorem loadable_congr {engine' : RocksEngine}
    (same : ∀ cf, cf ∈ engine'.families ↔ cf ∈ engine.families) :
    loadable dir engine' = loadable dir engine := by
  funext cf
  rw [loadable, loadable, decide_eq_decide, same]

theorem takenRecords_first {names : List String} (can : loadable dir engine cf = true) :
    takenRecords dir engine (cf :: names) cf = dirRecords dir cf := by
  rw [takenRecords, List.takeWhile_cons_of_pos can, if_pos List.mem_cons_self]

theorem takenRecords_later {first : String} {names : List String}
    (can : loadable dir engine first = true) (other : cf ≠ first) :
    takenRecords dir engine (first :: names) cf = takenRecords dir engine names cf := by
  rw [takenRecords, takenRecords, List.takeWhile_cons_of_pos can]
  refine if_congr ?_ rfl rfl
  rw [List.mem_cons, or_iff_right other]

theorem takenRecords_of_not_mem {names : List String} (missing : cf ∉ names) :
    takenRecords dir engine names cf = [] :=
  if_neg (fun listed => missing ((List.takeWhile_sublist _).mem listed))

/-- The loop over the column families succeeds if all of them can be loaded, and otherwise leaves those
before the first that cannot. -/
theorem forM_loadFamily {names : List String} (distinct : names.Nodup) :
    ∃ engine', (∀ cf, engine'.families[cf]? = engine.families[cf]?.map (fun family =>
        overlay family (takenRecords dir engine names cf))) ∧
      ((∀ cf ∈ names, loadable dir engine cf = true) → names.forM (loadFamily dir) engine =
        .ok () engine') ∧
      ((¬∀ cf ∈ names, loadable dir engine cf = true) → ∃ e, names.forM (loadFamily dir) engine =
        .error e engine') := by
  induction names generalizing engine with
  | nil =>
    refine ⟨engine, fun cf => ?_, fun _ => rfl, fun some => absurd (fun _ => by simp) some⟩
    cases engine.families[cf]? with
    | none => rfl
    | some family => rfl
  | cons first names ih =>
    obtain ⟨fresh, distinct⟩ := List.nodup_cons.mp distinct
    cases can : loadable dir engine first with
    | false =>
      refine ⟨engine, fun cf => ?_, fun all => ?_, fun _ => ⟨.columnFamilyNotFound first, ?_⟩⟩
      · rw [takenRecords, List.takeWhile_cons_of_neg (by rw [can]; exact Bool.false_ne_true),
          if_neg List.not_mem_nil]
        cases engine.families[cf]? with
        | none => rfl
        | some family => rfl
      · have := all first List.mem_cons_self
        rw [can] at this
        exact absurd this Bool.false_ne_true
      · change EStateM.bind (loadFamily dir first) _ engine = _
        rw [EStateM.bind, loadFamily_of_not_loadable can]
    | true =>
      obtain ⟨engine₁, done, after⟩ := loadFamily_of_loadable can
      have kept : ∀ cf, cf ∈ engine₁.families ↔ cf ∈ engine.families := by
        intro cf
        rw [Std.ExtTreeMap.mem_iff_isSome_getElem?, Std.ExtTreeMap.mem_iff_isSome_getElem?, after]
        split
        next => rw [Option.isSome_map]
        next => rfl
      obtain ⟨engine₂, families, ok, failed⟩ := @ih engine₁ distinct
      have next : (first :: names).forM (loadFamily dir) engine = names.forM (loadFamily dir) engine₁ := by
        change EStateM.bind (loadFamily dir first) _ engine = _
        rw [EStateM.bind, done]
      rw [loadable_congr kept] at ok failed
      rw [next, List.forall_mem_cons]
      refine ⟨engine₂, fun cf => ?_, fun all => ok all.2, fun some => failed (fun all => some ⟨can, all⟩)⟩
      rw [families, after, takenRecords, loadable_congr kept, ← takenRecords]
      by_cases same : cf = first
      · subst same
        rw [if_pos rfl, takenRecords_of_not_mem fresh, takenRecords_first can, Option.map_map]
        rfl
      · rw [if_neg same, takenRecords_later can same]

variable {manager : SnapshotManager} {live : RocksEngine} {name : String} {snapshot : Snapshot}

/-- Every way a load of a registered snapshot can end. -/
theorem loadSnapshot_ends (registered : manager.snapshots[name]? = some snapshot)
    (distinct : snapshot.columnFamilies.Nodup) :
    (manager.dataDirs[snapshot.name]? = none → ∃ e engine',
      manager.loadSnapshot name live = .error e engine' ∧
      ∀ cf, engine'.families[cf]? = live.families[cf]?.map (cleared cf)) ∧
    ∀ dir, manager.dataDirs[snapshot.name]? = some dir → ∃ engine',
      (∀ cf, engine'.families[cf]? = afterLoad dir live snapshot.columnFamilies cf) ∧
      ((∀ cf ∈ snapshot.columnFamilies, loadable dir live cf = true) →
        manager.loadSnapshot name live = .ok () engine') ∧
      ((¬∀ cf ∈ snapshot.columnFamilies, loadable dir live cf = true) →
        ∃ e, manager.loadSnapshot name live = .error e engine') := by
  obtain ⟨engine₁, clearing, after⟩ := clearDatabase_spec live
  have runs : manager.loadSnapshot name live = manager.loadSnapshotData snapshot engine₁ := by
    rw [SnapshotManager.loadSnapshot, registered]
    change EStateM.bind clearDatabase _ live = _
    rw [EStateM.bind, clearing]
  have kept : ∀ cf, cf ∈ engine₁.families ↔ cf ∈ live.families := by
    intro cf
    rw [Std.ExtTreeMap.mem_iff_isSome_getElem?, Std.ExtTreeMap.mem_iff_isSome_getElem?, after,
      Option.isSome_map]
  rw [runs, SnapshotManager.loadSnapshotData]
  constructor
  · intro gone
    rw [gone]
    exact ⟨_, engine₁, rfl, after⟩
  · intro dir stored
    rw [stored]
    obtain ⟨engine₂, families, ok, failed⟩ := @forM_loadFamily dir engine₁ _ distinct
    rw [loadable_congr kept] at ok failed
    refine ⟨engine₂, fun cf => ?_, ok, failed⟩
    rw [families, after, Option.map_map, takenRecords, loadable_congr kept]
    rfl

end Load

/-- A load that fails keeps every column family, and one that succeeds brings back what was saved,
exactly in these cases: the snapshot is not known; or its directory is gone and there was nothing to
clear; or the files that are read turn what clearing leaves into what was saved, or into what was there
where a column family is missing from the database. -/
theorem loadSnapshot_keeps_or_restores_iff (manager : SnapshotManager) (saved live : RocksEngine)
    (name : String) (createdAt : UInt64)
    (made : ∀ snapshot, manager.snapshots[name]? = some snapshot →
      snapshot = ⟨name, createdAt, saved.cfNames⟩) :
    ((∀ e engine', manager.loadSnapshot name live = .error e engine' →
        ∀ cf : String, engine'.families[cf]? = live.families[cf]?) ∧
      (∀ engine', manager.loadSnapshot name live = .ok () engine' →
        ∀ cf : String, engine'.families[cf]? = saved.families[cf]?)) ↔
      (name ∈ manager.snapshots →
        (manager.dataDirs[name]? = none → ∀ cf : String, cf ≠ "default" →
          ∀ family, live.families[cf]? = some family → family = ∅) ∧
        ∀ dir, manager.dataDirs[name]? = some dir →
          ((∀ cf ∈ saved.cfNames, loadable dir live cf = true) →
            ∀ cf : String, afterLoad dir live saved.cfNames cf = saved.families[cf]?) ∧
          ((¬∀ cf ∈ saved.cfNames, loadable dir live cf = true) →
            ∀ cf : String, afterLoad dir live saved.cfNames cf = live.families[cf]?)) := by
  cases registered : manager.snapshots[name]? with
  | none =>
    have unknown : name ∉ manager.snapshots := by
      rw [Std.ExtTreeMap.mem_iff_isSome_getElem?, registered]
      simp
    have fails : manager.loadSnapshot name live =
        .error (.snapshot s!"Snapshot '{name}' not found") live := by
      rw [SnapshotManager.loadSnapshot, registered]
      rfl
    refine iff_of_true ⟨fun e engine' ends cf => ?_, fun engine' ends => ?_⟩ (fun known =>
      absurd known unknown)
    · rw [fails] at ends
      cases ends
      rfl
    · rw [fails] at ends
      cases ends
  | some snapshot =>
    have known : name ∈ manager.snapshots := by
      rw [Std.ExtTreeMap.mem_iff_isSome_getElem?, registered]
      rfl
    have same := made snapshot registered
    subst same
    obtain ⟨missing, present⟩ := @loadSnapshot_ends manager live name _ registered
      (nodup_cfNames saved)
    rw [forall_prop_of_true known]
    cases stored : manager.dataDirs[name]? with
    | none =>
      obtain ⟨e, engine', ends, after⟩ := missing stored
      rw [ends]
      constructor
      · rintro ⟨keeps, -⟩
        refine ⟨fun _ cf other family held => ?_, fun dir found => by cases found⟩
        have same := keeps e engine' rfl cf
        rw [after, held, Option.map_some, Option.some.injEq, cleared, if_neg other] at same
        exact same.symm
      · rintro ⟨empty, -⟩
        refine ⟨fun e engine' ends cf => ?_, fun engine' ends => by cases ends⟩
        cases ends
        rw [after]
        cases held : live.families[cf]? with
        | none => rfl
        | some family =>
          rw [Option.map_some, cleared]
          split
          next => rfl
          next other => rw [empty rfl cf other family held]
    | some dir =>
      obtain ⟨engine', after, ok, failed⟩ := present dir stored
      have only : ∀ {P : Std.ExtTreeMap String Bytes → Prop},
          (∀ other, some dir = some other → P other) ↔ P dir :=
        ⟨fun all => all dir rfl, fun holds other same => Option.some.inj same ▸ holds⟩
      rw [only, forall_prop_of_false (Option.some_ne_none dir), true_and]
      by_cases all : ∀ cf ∈ saved.cfNames, loadable dir live cf = true
      · rw [ok all, forall_prop_of_true all, forall_prop_of_false (not_not_intro all), and_true]
        constructor
        · rintro ⟨-, restores⟩ cf
          rw [← after, restores engine' rfl]
        · intro exact
          refine ⟨fun e engine' ends => (by cases ends), fun engine' ends cf => ?_⟩
          cases ends
          rw [after, exact]
      · obtain ⟨e, ends⟩ := failed all
        rw [ends, forall_prop_of_true all, forall_prop_of_false all, true_and]
        constructor
        · rintro ⟨keeps, -⟩ cf
          rw [← after, keeps e engine' rfl]
        · intro same
          refine ⟨fun e engine' ends cf => ?_, fun engine' ends => by cases ends⟩
          cases ends
          rw [after, same]

def sampleTaken (change : Std.ExtTreeMap String Bytes → Option (Std.ExtTreeMap String Bytes)) :
    SnapshotManager :=
  match (sampleSnapshots true).createSnapshot "s" 1 (fun _ => 0) sampleEngine with
  | .error _ _ => sampleSnapshots true
  | .ok (manager, _) _ =>
    { manager with dataDirs := manager.dataDirs.alter "s" (fun dir => dir.bind change) }

def loadedAccounts (manager : SnapshotManager) (live : RocksEngine) :
    Bool × Option (List (Bytes × Bytes)) :=
  match manager.loadSnapshot "s" live with
  | .ok _ engine => (true, (engine.families["accounts"]?).map Std.ExtTreeMap.toList)
  | .error _ engine => (false, (engine.families["accounts"]?).map Std.ExtTreeMap.toList)

/-- Without the directory the load fails and the account is gone; without the file, or with a file cut
short, it succeeds and the account is gone as well. -/
theorem loadSnapshot_loses :
    (sampleEngine.families["accounts"]?).map Std.ExtTreeMap.toList = some [([97], [5])] ∧
    loadedAccounts (sampleTaken (fun _ => none)) sampleEngine = (false, some []) ∧
    loadedAccounts (sampleTaken (fun dir => some (dir.erase "accounts"))) sampleEngine =
      (true, some []) ∧
    loadedAccounts (sampleTaken (fun dir => some (dir.modify "accounts" List.dropLast))) sampleEngine =
      (true, some []) := by
  decide +kernel

def sampleLater : RocksEngine where
  families := ((∅ : Std.ExtTreeMap String Family).insert "default" ∅).insert "accounts"
    (((∅ : Family).insert [97] [4]).insert [98] [1])
  hasDefault := by simp

theorem afterLoad_sampleLater {dir : Std.ExtTreeMap String Bytes}
    (accounts : dirRecords dir "accounts" = [([97], [5])]) (others : dirRecords dir "default" = [])
    (all : ∀ cf ∈ sampleEngine.cfNames, loadable dir sampleLater cf = true) (cf : String) :
    afterLoad dir sampleLater sampleEngine.cfNames cf = sampleEngine.families[cf]? := by
  have taken : takenRecords dir sampleLater sampleEngine.cfNames cf =
      if cf ∈ sampleEngine.cfNames then dirRecords dir cf else [] := by
    rw [takenRecords, List.takeWhile_eq_self_iff.mpr all]
  rw [afterLoad, taken]
  by_cases account : cf = "accounts"
  · rw [account, if_pos (by decide +kernel), accounts]
    decide +kernel
  · by_cases fallback : cf = "default"
    · rw [fallback, if_pos (by decide +kernel), others]
      decide +kernel
    · simp [sampleLater, sampleEngine, Ne.symm account, Ne.symm fallback]

/-- With its files intact a snapshot comes back over a database that was changed meanwhile. -/
theorem loadSnapshot_keeps_or_restores_iff_intact :
    ∃ engine', (sampleTaken some).loadSnapshot "s" sampleLater = .ok () engine' ∧
      ∀ cf : String, engine'.families[cf]? = sampleEngine.families[cf]? := by
  have registered : ((sampleTaken some).snapshots["s"]?).map (fun snapshot =>
      (snapshot.name, snapshot.createdAt, snapshot.columnFamilies)) =
      some ("s", 1, sampleEngine.cfNames) := by decide +kernel
  have files : ((sampleTaken some).dataDirs["s"]?).map (fun dir =>
      (dirRecords dir "accounts", dirRecords dir "default")) = some ([([97], [5])], []) := by
    decide +kernel
  have loads : (loadedAccounts (sampleTaken some) sampleLater).1 = true := by decide +kernel
  have restores := (loadSnapshot_keeps_or_restores_iff (sampleTaken some) sampleEngine sampleLater "s" 1
    ?_).mpr (fun _ => ⟨fun gone => ?_, fun dir stored => ⟨?_, fun some => absurd ?_ some⟩⟩)
  · cases ends : (sampleTaken some).loadSnapshot "s" sampleLater with
    | ok _ engine' => exact ⟨engine', rfl, restores.2 engine' ends⟩
    | error e engine' =>
      rw [loadedAccounts, ends] at loads
      exact absurd (show false = true from loads) (by decide)
  · intro snapshot found
    rw [found] at registered
    cases snapshot
    simpa using registered
  · rw [gone] at files
    cases files
  · rw [stored] at files
    obtain ⟨accounts, others⟩ := Prod.mk.inj (Option.some.inj files)
    exact afterLoad_sampleLater accounts others
  · have held : ∀ cf ∈ sampleEngine.cfNames, cf ∈ sampleLater.families := by decide +kernel
    exact fun cf listed => decide_eq_true (.inl (held cf listed))

end CatalystNode
