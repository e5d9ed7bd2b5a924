import CatalystNode.CheckpointRuns

namespace CatalystNode

open ByteVector HexCodec MachineInt Store Effects

def CachesRoot (sha256 : Bytes → Hash) (store : Store) : Prop :=
  ∃ root, computeRootFromIter sha256 store.accounts.toList = .ok root ∧
    store.currentStateRoot = some root

def Store.OwnCheckpoints (store : Store) : Prop :=
  ∀ c record, loadCheckpointAtCycle store c = some record → record.cycle = c

def Database.OwnCheckpoints (db : Database) : Prop :=
  db.toStore.OwnCheckpoints ∧
    ∀ (name : String) (columns : Columns), db.snapshots[name]? = some columns → columns.store.OwnCheckpoints

section Applies

variable {env : DatabaseEnv} {db : Database} {lsu : LedgerStateUpdate} {expected : Hash}

theorem CachesRoot.congr {sha256 : Bytes → Hash} {s t : Store} (caches : CachesRoot sha256 s)
    (accounts : t.accounts = s.accounts) (cached : t.currentStateRoot = s.currentStateRoot) :
    CachesRoot sha256 t := by
  obtain ⟨root, built, same⟩ := caches
  exact ⟨root, accounts ▸ built, cached.trans same⟩

theorem cachesRoot_commit (sha256 : Bytes → Hash) (store : Store) :
    CachesRoot sha256 (store.commit sha256).1 := by
  obtain ⟨-, -, -, root, -, built, -⟩ := computeRoots_spec sha256 store.accounts.toList
  rw [Store.commit, built]
  exact ⟨root, built, rfl⟩

theorem cachesRoot_refresh (sha256 : Bytes → Hash) (db : Database) :
    CachesRoot sha256 (endState (refreshCachedStateRoot sha256 db)).toStore := by
  rw [endState_refreshCachedStateRoot]
  exact cachesRoot_commit sha256 db.toStore

theorem cachesRoot_of_applied (above : lastAppliedCycle db.toStore < lsu.cycleNumber) :
    CachesRoot env.sha256 (endState (applyLsuToDatabase env lsu db)).toStore := by
  obtain ⟨root, db', run, applied⟩ := @applyLsuToDatabase_apply env lsu db above
  rw [run]
  exact ⟨root, computeRoot_of_applied above run, applied.cachedRoot⟩

theorem keeps_cachesRoot_apply (lsu : LedgerStateUpdate) :
    Keeps (fun db : Database => CachesRoot env.sha256 db.toStore) (applyLsuToDatabase env lsu) := by
  intro db caches
  by_cases below : lsu.cycleNumber ≤ lastAppliedCycle db.toStore
  · rw [applyLsuToDatabase_skip below]
    exact caches
  · exact cachesRoot_of_applied (UInt64.not_le.mp below)

/-- Going back to a snapshot leaves the cached root behind, and the refresh after it makes up for it. -/
theorem keeps_cachesRoot_revert (snap : String) :
    Keeps (fun db : Database => CachesRoot env.sha256 db.toStore) (do
      loadSnapshot snap
      modify (fun db => endState (refreshCachedStateRoot env.sha256 db))
      modify (Database.deleteSnapshot snap)
      return false) := by
  intro db caches
  cases load : loadSnapshot snap db with
  | error e db' =>
    have same : db' = db := by
      unfold loadSnapshot at load
      split at load
      next =>
        cases load
        rfl
      next => cases load
    rw [bind_of_error load, same]
    exact caches
  | ok _ db' =>
    rw [bind_of_ok load]
    exact cachesRoot_refresh env.sha256 db'

theorem keeps_cachesRoot_rootCheck (lsu : LedgerStateUpdate) (expected : Hash) :
    Keeps (fun db : Database => CachesRoot env.sha256 db.toStore)
      (applyLsuWithRootCheckLocked env lsu expected) := by
  have create : Keeps (fun db : Database => CachesRoot env.sha256 db.toStore)
      (createSnapshot (verifySnapshotName lsu.cycleNumber env.nowMs)) := by
    intro db caches
    unfold createSnapshot
    split
    next => exact caches
    next => exact caches
  refine create.bind (fun _ => (keeps_cachesRoot_apply lsu).bind (fun got => ?_))
  split
  next => exact Keeps.bind (fun _ caches => caches) (fun _ => .pure true)
  next => exact keeps_cachesRoot_revert _

/-- Above the head a root-checked apply that succeeds caches the root it has checked, whatever was
cached before. -/
theorem cachesRoot_of_verified {db' : Database}
    (above : lastAppliedCycle db.toStore < lsu.cycleNumber)
    (run : applyLsuWithRootCheckLocked env lsu expected db = .ok true db') :
    CachesRoot env.sha256 db'.toStore := by
  refine ⟨expected, computeRoot_of_verified above run, ?_⟩
  have checked := rootChecked env lsu expected db
  rw [run] at checked
  cases checked with
  | skipped _ below => exact absurd above (UInt64.not_lt.mpr below)
  | applied _ applied => exact applied.cachedRoot

theorem recordTrusted_currentStateRoot (env : TrustedEnv) (lsu : LedgerStateUpdate) (newRoot : Hash)
    (outcomes : Std.ExtTreeMap Bytes ApplyOutcome) (store : Store) :
    (recordTrusted env lsu newRoot outcomes store).currentStateRoot = store.currentStateRoot := by
  refine FoldTrace.foldl_invariant
    (P := fun s : Store => s.currentStateRoot = store.currentStateRoot) rfl ?_
  intro s txid _ same
  rw [← same]
  unfold writeReceipt
  dsimp only
  split <;> rfl

theorem cachesRoot_trusted (caches : CachesRoot env.sha256 db.toStore) (lsu : LedgerStateUpdate)
    (expectedPrev newRoot : Hash) :
    CachesRoot env.sha256 (applyLsuToStorageWithoutRootCheck (env.trusting db lsu.cycleNumber)
      db.toStore lsu expectedPrev newRoot).1 := by
  unfold applyLsuToStorageWithoutRootCheck
  dsimp only
  split
  next => exact caches
  next =>
    split
    next => exact caches
    next =>
      split
      next => exact caches
      next =>
        have committed := cachesRoot_commit env.sha256
          (applyTrustedLedger (env.trusting db lsu.cycleNumber) db.toStore lsu).1
        split
        next => exact committed
        next =>
          split
          next => exact cachesRoot_commit env.sha256 _
          next =>
            exact committed.congr (recordTrusted_accounts _ _ _ _ _)
              (recordTrusted_currentStateRoot _ _ _ _ _)

end Applies

section Replay

variable {env : DatabaseEnv} {store : Store} {cycle prunedUpTo replayStart maxCycle : UInt64}
  {record : CheckpointRecord}

theorem findLatestCheckpointAtOrBelow_le (own : store.OwnCheckpoints)
    (found : findLatestCheckpointAtOrBelow store maxCycle = some record) :
    record.cycle ≤ maxCycle := by
  obtain ⟨latest, -, found⟩ := Option.bind_eq_some_iff.mp found
  split at found
  next =>
    obtain ⟨c, inside, here⟩ := List.exists_of_findSome?_eq_some found
    rw [own c record here]
    exact (mem_cyclesThrough.mp (List.mem_reverse.mp inside)).2
  next inside =>
    rw [not_or, UInt64.not_lt] at inside
    rw [own latest record found]
    exact inside.2

theorem reconcileCheckpointForMissingPrefix_lt (own : store.OwnCheckpoints)
    (found : reconcileCheckpointForMissingPrefix store cycle prunedUpTo = some record) :
    record.cycle < cycle := by
  obtain ⟨long, found⟩ := Option.ite_none_left_eq_some.mp found
  obtain ⟨cp, latest, found⟩ := Option.bind_eq_some_iff.mp found
  obtain ⟨-, found⟩ := Option.ite_none_left_eq_some.mp found
  obtain ⟨-, same⟩ := Option.ite_none_right_eq_some.mp found
  cases same
  have below := findLatestCheckpointAtOrBelow_le own latest
  have one : (1 : UInt64).toNat = 1 := rfl
  rw [UInt64.le_iff_toNat_le, toNat_saturatingSubU64, one] at below
  rw [UInt64.le_iff_toNat_le, one] at long
  rw [UInt64.lt_iff_toNat_lt]
  omega

theorem rebuild_below (own : store.OwnCheckpoints)
    (resolved : resolveReplayStart store cycle prunedUpTo 1 = some replayStart)
    (anchored : 1 < replayStart) : saturatingSubU64 replayStart 1 < cycle := by
  unfold resolveReplayStart at resolved
  split at resolved
  next =>
    cases resolved
    exact absurd anchored (UInt64.lt_irrefl _)
  next long =>
    split at resolved
    next =>
      cases resolved
      exact absurd anchored (UInt64.lt_irrefl _)
    next =>
      obtain ⟨-, same⟩ := Option.ite_none_right_eq_some.mp resolved
      cases bridge : reconcileCheckpointForMissingPrefix store cycle prunedUpTo with
      | none =>
        rw [bridge] at same
        cases same
        exact absurd anchored (UInt64.lt_irrefl _)
      | some cp =>
        rw [bridge] at same
        cases same
        have below := reconcileCheckpointForMissingPrefix_lt own bridge
        have one : (1 : UInt64).toNat = 1 := rfl
        rw [UInt64.lt_iff_toNat_lt] at below
        rw [UInt64.lt_iff_toNat_lt, toNat_saturatingSubU64, toNat_saturatingAddU64, one]
        omega

theorem keeps_cachesRoot_replay (cycles : List UInt64) :
    Keeps (fun db : Database => CachesRoot env.sha256 db.toStore)
      (cycles.forM (replayCycle env)) := by
  refine .forM (fun i _ db caches => ?_)
  unfold replayCycle
  split
  next => exact caches
  next lsu _ => exact (keeps_cachesRoot_apply lsu).bind (fun _ => .pure ()) db caches

/-- A rebuild that does not start from a checkpoint has just computed the root it caches; one that does
brings the head below the target. -/
theorem cachesRoot_or_below_discard {db restored : Database} {localCycle : UInt64}
    (own : db.toStore.OwnCheckpoints)
    (resolved : resolveReplayStart db.toStore cycle prunedUpTo 1 = some replayStart)
    (run : discardAppliedState env localCycle replayStart db = .ok () restored) :
    CachesRoot env.sha256 restored.toStore ∨ lastAppliedCycle restored.toStore < cycle := by
  rcases discardAppliedState_eq_ok.mp run with
    ⟨anchored, record, columns, found, -, rfl⟩ | ⟨-, root, built, rfl⟩
  · rw [loadCheckpointAtCycle_purge] at found
    right
    rw [headAt_broughtBack.lastAppliedCycle_eq, own _ _ found]
    exact rebuild_below own resolved anchored
  · exact .inl ⟨root, built, rfl⟩

/-- Where a replay ends, the cached root is that of the accounts or the target is still to come. -/
theorem cachesRoot_or_below_replay {db reached : Database} {plan : ReplayPlan}
    (caches : CachesRoot env.sha256 db.toStore) (own : db.toStore.OwnCheckpoints)
    (resolved : ¬plan.localCycle < cycle →
      resolveReplayStart db.toStore cycle prunedUpTo 1 = some plan.replayStart)
    (run : replayToTarget env cycle plan db = .ok () reached) :
    CachesRoot env.sha256 reached.toStore ∨ lastAppliedCycle reached.toStore < cycle := by
  obtain ⟨start, replayed, ground, replays, rfl⟩ := replayToTarget_eq_ok.mp run
  have started : CachesRoot env.sha256 start.toStore ∨ lastAppliedCycle start.toStore < cycle := by
    by_cases behind : plan.localCycle < cycle
    · rw [if_pos behind] at ground
      exact .inl (ground ▸ caches)
    · rw [if_neg behind] at ground
      exact cachesRoot_or_below_discard own (resolved behind) ground
  rcases started with caches | below
  · have kept := (keeps_cachesRoot_replay _).endState_eq_ok caches replays
    exact .inl kept
  · have kept := keeps_replay_below.endState_eq_ok below replays
    exact .inr kept

end Replay

section Reconcile

variable {F G : Type} {env : ReconcileEnv F G} {target : ReconcileTarget} {db : Database}

/-- A replay that is kept ends with a root-checked apply, one that is not with a refresh. -/
theorem cachesRoot_commitOrRevert {plan : ReplayPlan}
    (caches : CachesRoot env.database.sha256 db.toStore) (own : db.toStore.OwnCheckpoints)
    (numbered : target.lsu.cycleNumber = target.cycle)
    (resolved : ¬plan.localCycle < target.cycle →
      resolveReplayStart db.toStore target.cycle ((prunedUpToCycle db.toStore).getD 0) 1 =
        some plan.replayStart) :
    CachesRoot env.database.sha256 (endState (commitOrRevert env target plan db)).toStore := by
  by_cases free : reconcileSnapshotName target.cycle env.database.nowMs ∉ db.snapshots
  · have held := @keeps_reconcileInner_snapshot env.database target plan _ _
      (reconcileSnapshotName_not_checkpoint target.cycle env.database.nowMs)
      (db.withSnapshot (reconcileSnapshotName target.cycle env.database.nowMs))
      snapshots_withSnapshot_self
    rw [commitOrRevert_eq free]
    unfold keepOrRevert
    cases run : reconcileInner env.database target plan
        (db.withSnapshot (reconcileSnapshotName target.cycle env.database.nowMs)) with
    | ok _ inner =>
      obtain ⟨reached, replay, -, final⟩ := reconcileInner_eq_ok.mp run
      have kept : CachesRoot env.database.sha256 inner.toStore := by
        rcases @cachesRoot_or_below_replay env.database target.cycle _ (db.withSnapshot _) reached
          plan caches own resolved replay with caches | below
        · exact (keeps_cachesRoot_rootCheck _ _).endState_eq_ok caches final
        · exact cachesRoot_of_verified (numbered.symm ▸ below) final
      exact kept
    | error e failed =>
      rw [run] at held
      have back : loadSnapshot _ failed = .ok () (failed.withColumns db.columns) :=
        loadSnapshot_eq held
      dsimp only
      rw [back]
      exact cachesRoot_refresh env.database.sha256 (failed.withColumns db.columns)
  · obtain ⟨e, failed⟩ := createSnapshot_of_mem (not_not.mp free)
    have stopped : commitOrRevert env target plan db = .error e db := bind_of_error failed
    rw [stopped]
    exact caches

variable [Field F] [AddCommGroup G] [Module F G] [DecidableEq G]

theorem cachesRoot_tryReconcile (caches : CachesRoot env.database.sha256 db.toStore)
    (own : db.toStore.OwnCheckpoints) (target : ReconcileTarget) :
    CachesRoot env.database.sha256
      (endState (tryReconcileForkFromQuorumLsu env target db)).toStore := by
  have onto := keeps_applyOntoHead
    (P := fun db : Database => CachesRoot env.database.sha256 db.toStore) (fun _ _ caches => caches)
    (keeps_cachesRoot_rootCheck target.lsu target.expectedPost) { db with base := none } caches
  have outcome := reconciled env target db
  generalize tryReconcileForkFromQuorumLsu env target db = result at outcome
  cases outcome with
  | refused => exact caches
  | already => exact caches
  | onto _ _ run => rwa [run] at onto
  | unplanned _ _ run planned =>
    rw [run] at onto
    rcases planReplay_eq_none planned with rfl | rfl
    · exact onto
    · exact onto
  | @planned db₁ plan admitted _ run planned =>
    rw [run] at onto
    have plans := planReplay_eq_some.mp planned
    have columns := columns_applyOntoHead run
    have own₁ : db₁.toStore.OwnCheckpoints := by
      intro c record found
      refine own c record (Eq.trans ?_ found)
      exact loadCheckpointAtCycle_congr (fun _ _ => (getMetadata_of_columns columns).symm)
    have resolved := plans.2.2.2.2
    refine cachesRoot_commitOrRevert onto own₁ (admitted_spec admitted).1 (fun past => ?_)
    rwa [if_neg (plans.2.2.2.1 ▸ past)] at resolved

end Reconcile

section Own

variable {env : DatabaseEnv} {db : Database} {s t : Store}

theorem Store.OwnCheckpoints.congr (own : s.OwnCheckpoints)
    (same : ∀ name, UnderTag ["consensus:checkpoint:"] name → t.getMetadata name = s.getMetadata name) :
    t.OwnCheckpoints := by
  intro c record found
  exact own c record ((loadCheckpointAtCycle_congr same).symm.trans found)

theorem keeps_ownCheckpoints_create (name : String) :
    Keeps Database.OwnCheckpoints (createSnapshot name) := by
  intro db own
  by_cases free : name ∉ db.snapshots
  · rw [createSnapshot_of_not_mem free]
    refine ⟨own.1, fun other columns held => ?_⟩
    by_cases same : name = other
    · subst same
      cases snapshots_withSnapshot_self.symm.trans held
      exact own.1
    · exact own.2 other columns ((snapshots_withSnapshot_of_ne same).symm.trans held)
  · obtain ⟨e, failed⟩ := createSnapshot_of_mem (not_not.mp free)
    rw [failed]
    exact own

theorem keeps_ownCheckpoints_write (cycle : UInt64) (stateRoot lsuHash : Hash) :
    Keeps Database.OwnCheckpoints (writeCheckpoint cycle stateRoot lsuHash) := by
  refine (keeps_ownCheckpoints_create _).bind (fun _ db own => ⟨fun c record found => ?_, own.2⟩)
  let written : CheckpointRecord := ⟨cycle, stateRoot, lsuHash, snapshotNameForCycle cycle⟩
  have loaded := @loadCheckpointAtCycle_recordIn written db.toStore c
    (snapshotNameForCycle_ne_empty cycle)
  have found : loadCheckpointAtCycle (written.recordIn db.toStore) c = some record := found
  rw [loaded] at found
  split at found
  next here => exact (congrArg CheckpointRecord.cycle (Option.some.inj found)).symm.trans here.symm
  next => exact own.1 c record found

theorem ownCheckpoints_checkpointAfterApply (own : db.OwnCheckpoints) (lsu : LedgerStateUpdate)
    (root : Hash) : (checkpointAfterApply env lsu root db).OwnCheckpoints := by
  unfold checkpointAfterApply
  dsimp only
  split
  next =>
    unfold maybeWriteCheckpointAfterApply
    split
    next => exact keeps_ownCheckpoints_write _ _ _ db own
    next => exact own
  next => exact keeps_ownCheckpoints_write _ _ _ { db with startupCheckpointWritten := true } own

theorem keeps_ownCheckpoints_apply (keeps : KeepsMetadata env.runtime) (lsu : LedgerStateUpdate) :
    Keeps Database.OwnCheckpoints (applyLsuToDatabase env lsu) := by
  intro db own
  by_cases below : lsu.cycleNumber ≤ lastAppliedCycle db.toStore
  · rw [applyLsuToDatabase_skip below]
    exact own
  · have above := UInt64.not_le.mp below
    obtain ⟨root, built, -⟩ := appliedHistory_applyLsuToStorageLocked keeps above
    rw [applyLsuToDatabase_of_ok above built]
    have recorded : (recordedStore env lsu db).OwnCheckpoints :=
      own.1.congr (fun name under => getMetadata_recordedStore keeps above under)
    have whole : ({ db with toStore := recordedStore env lsu db } : Database).OwnCheckpoints :=
      ⟨recorded, own.2⟩
    exact ownCheckpoints_checkpointAfterApply whole lsu root

theorem keeps_ownCheckpoints_load (name : String) :
    Keeps Database.OwnCheckpoints (loadSnapshot name) := by
  intro db own
  unfold loadSnapshot
  split
  next => exact own
  next columns held => exact ⟨own.2 name columns held, own.2⟩

theorem keeps_ownCheckpoints_restore (record : CheckpointRecord) (localCycle : UInt64) :
    Keeps Database.OwnCheckpoints (restoreReconcileFromCheckpoint record localCycle) := by
  refine Keeps.bind (fun _ own => own) (fun before => ?_)
  refine (keeps_ownCheckpoints_load _).bind (fun _ db own => ⟨own.1.congr (fun name under => ?_), own.2⟩)
  have written := FoldTrace.foldl_invariant
    (P := fun s : Store => s.getMetadata name = (record.setHead db.toStore).getMetadata name)
    (l := (cyclesBetween (saturatingAddU64 record.cycle 1)
      (saturatingAddU64 localCycle 1)).filterMap (saveCycleMeta before.toStore))
    (f := SavedCycleMeta.restore) rfl (fun s saved _ same =>
      (getMetadata_restoreSaved saved s (under.not_of_apart (by decide))).trans same)
  exact written.trans (getMetadata_setHead record _ (under.not_of_apart (by decide)))

theorem ownCheckpoints_kept (keeps : KeepsMetadata env.runtime) :
    KeptByOperations env (fun _ => True) Database.OwnCheckpoints where
  congr db db' columns snapshots own := by
    refine ⟨own.1.congr (fun _ _ => getMetadata_of_columns columns), ?_⟩
    rw [snapshots]
    exact own.2
  create := keeps_ownCheckpoints_create
  load := keeps_ownCheckpoints_load
  delete name db _ own := by
    refine ⟨own.1, fun other columns held => own.2 other columns ?_⟩
    rw [snapshots_deleteSnapshot] at held
    exact (Option.ite_none_left_eq_some.mp held).2
  apply lsu _ := keeps_ownCheckpoints_apply keeps lsu
  stored _ _ _ _ _ := trivial
  purge db own :=
    ⟨fun c record found => own.1 c record ((loadCheckpointAtCycle_purge db c).symm.trans found),
      own.2⟩
  restore record localCycle := keeps_ownCheckpoints_restore record localCycle

end Own

section Runs

variable {F G : Type} [Field F] [AddCommGroup G] [Module F G] [DecidableEq G]

theorem ownCheckpoints_run {env : ReconcileEnv F G} (keeps : KeepsMetadata env.database.runtime)
    {db : Database} (own : db.OwnCheckpoints) (step : NodeStep) : (step.run env db).OwnCheckpoints := by
  cases step with
  | gate call =>
    exact ⟨own.1.congr (fun name under =>
      (@aside_gate F G _ _ _ _ env db call).records name (under.mono (by decide))), own.2⟩
  | apply nowMs lsu =>
    exact @keeps_ownCheckpoints_apply (env.database.atTime nowMs) keeps lsu db own
  | rootCheckedApply nowMs lsu expected =>
    exact (@ownCheckpoints_kept (env.database.atTime nowMs) keeps).applyLsuWithRootCheckLocked lsu
      trivial expected db own
  | trustedApply nowMs lsu expectedPrev newRoot =>
    refine ⟨own.1.congr (fun name under => ?_), own.2⟩
    exact @getMetadata_trustedApply (env.database.atTime nowMs) lsu db name keeps
      (under.not_of_apart (by decide)) (under.not_of_apart (by decide)) expectedPrev
      newRoot
  | checkpoint cycle stateRoot lsuHash =>
    exact keeps_ownCheckpoints_write cycle stateRoot lsuHash db own
  | reconcile nowMs target =>
    exact (@ownCheckpoints_kept (env.atTime nowMs).database keeps).tryReconcile target trivial db
      own

theorem ownCheckpoints_runSteps {env : ReconcileEnv F G} (keeps : KeepsMetadata env.database.runtime)
    {db : Database} (own : db.OwnCheckpoints) (steps : List NodeStep) :
    (runSteps env db steps).OwnCheckpoints :=
  FoldTrace.foldl_invariant own (fun _ step _ own => ownCheckpoints_run keeps own step)

/-- Each of the four ways to apply an update leaves the root of the accounts in the cache if it was
there before, however it ends. A reconcile relies on checkpoints being recorded under their own
cycles. -/
theorem cachedRoot_isRoot (env : ReconcileEnv F G) (db : Database) (own : db.toStore.OwnCheckpoints)
    (caches : CachesRoot env.database.sha256 db.toStore) :
    (∀ lsu, CachesRoot env.database.sha256 (endState (applyLsuToDatabase env.database lsu db)).toStore) ∧
    (∀ lsu expectedPrev newRoot, CachesRoot env.database.sha256 (applyLsuToStorageWithoutRootCheck
      (env.database.trusting db lsu.cycleNumber) db.toStore lsu expectedPrev newRoot).1) ∧
    (∀ lsu expected, CachesRoot env.database.sha256
      (endState (applyLsuWithRootCheckLocked env.database lsu expected db)).toStore) ∧
    ∀ target, CachesRoot env.database.sha256
      (endState (tryReconcileForkFromQuorumLsu env target db)).toStore :=
  ⟨fun lsu => keeps_cachesRoot_apply lsu db caches, cachesRoot_trusted caches,
    fun lsu expected => keeps_cachesRoot_rootCheck lsu expected db caches,
    cachesRoot_tryReconcile caches own⟩

end Runs

def sampleRooted : Database :=
  runSteps sampleReconcileEnv .fresh [.apply 1000 (sampleVoted 1 1)]

/-- There a reconcile that replaces the update leaves the right root in the cache. -/
theorem cachedRoot_isRoot_replaced :
    sampleRooted.toStore.OwnCheckpoints ∧
    CachesRoot sampleReconcileEnv.database.sha256 sampleRooted.toStore ∧
    CachesRoot sampleReconcileEnv.database.sha256 (endState (tryReconcileForkFromQuorumLsu
      sampleReconcileEnv (sampleTarget (sampleVoted 1 2)) sampleRooted)).toStore := by
  have fresh : Database.fresh.OwnCheckpoints := by
    refine ⟨fun c record found => ?_, fun name columns held => ?_⟩
    · rw [loadCheckpointAtCycle, Database.fresh, Store.getMetadata, Store.empty,
        Std.ExtTreeMap.getElem?_empty] at found
      cases found
    · rw [Database.fresh, Std.ExtTreeMap.getElem?_empty] at held
      cases held
  have own : sampleRooted.OwnCheckpoints :=
    @ownCheckpoints_runSteps _ _ _ _ _ _ sampleReconcileEnv (fun _ _ _ _ _ => rfl) _ fresh _
  have caches : CachesRoot sampleReconcileEnv.database.sha256 sampleRooted.toStore := by
    rw [sampleRooted, runSteps, List.foldl_cons, List.foldl_nil, NodeStep.run]
    exact cachesRoot_of_applied (by decide +kernel)
  exact ⟨own.1, caches,
    (cachedRoot_isRoot sampleReconcileEnv sampleRooted own.1 caches).2.2.2 _⟩

end CatalystNode
