import CatalystNode.ReconcileOutcome
import CatalystNode.CycleRuns

namespace CatalystNode

open ByteVector HexCodec MachineInt Store Effects

section Discard

variable {env : DatabaseEnv} {db restored : Database} {localCycle replayStart : UInt64}

theorem getMetadata_purge (db : Database) (name : String) :
    (purgeMutableChainStatePreservingLsuHistory db).getMetadata name =
      if metadataLogicalNameIsPreserved name then db.getMetadata name else none := by
  change (db.metadata.filter (fun name _ => metadataLogicalNameIsPreserved name))[name]? =
    if metadataLogicalNameIsPreserved name then db.metadata[name]? else none
  rw [Std.ExtTreeMap.getElem?_filter]
  simp only [Std.ExtTreeMap.getKey_eq, Option.pfilter_eq_filter]
  split
  next kept => cases db.metadata[name]? <;> simp [kept]
  next gone => simp [gone]

theorem getMetadata_restore {name : String} (other : ¬UnderTag ["consensus:lsu"] name)
    (store : Store) (saved : List SavedCycleMeta) :
    (saved.foldl SavedCycleMeta.restore store).getMetadata name = store.getMetadata name := by
  have back : ∀ tag rest value (s : Store), "consensus:lsu".toList <+: String.toList tag →
      (writeBack (tag ++ rest) value s).getMetadata name = s.getMetadata name := by
    intro tag rest value s starts
    cases value with
    | none => rfl
    | some bytes =>
      apply getMetadata_setMetadata_of_ne
      rintro rfl
      refine other ⟨_, List.mem_singleton.mpr rfl, ?_⟩
      rw [String.toList_append]
      exact starts.trans (List.prefix_append _ _)
  refine FoldTrace.foldl_invariant (P := fun s : Store =>
    s.getMetadata name = store.getMetadata name) rfl ?_
  intro s cycleMeta _ same
  exact (back "consensus:lsu_cid:" _ _ _ (by decide)).trans <|
    (back "consensus:lsu_state_root:" _ _ _ (by decide)).trans <|
    (back "consensus:lsu_hash:" _ _ _ (by decide)).trans <|
    (back "consensus:lsu:" _ _ _ (by decide)).trans same

theorem currentStateRoot_restore (store : Store) (saved : List SavedCycleMeta) :
    (saved.foldl SavedCycleMeta.restore store).currentStateRoot = store.currentStateRoot := by
  have back : ∀ key value (s : Store), (writeBack key value s).currentStateRoot =
      s.currentStateRoot := by
    intro key value s
    cases value <;> rfl
  refine FoldTrace.foldl_invariant (P := fun s : Store =>
    s.currentStateRoot = store.currentStateRoot) rfl ?_
  intro s cycleMeta _ same
  rw [SavedCycleMeta.restore, back, back, back, back, same]

theorem headAt_setHead (record : CheckpointRecord) (store : Store) :
    HeadAt record.cycle record.lsuHash record.stateRoot (record.setHead store) := by
  unfold CheckpointRecord.setHead
  refine ⟨?_, getMetadata_setMetadata_self _ _ _, ?_⟩
  · rw [getMetadata_setMetadata_of_ne _ _ (by decide), getMetadata_setMetadata_of_ne _ _ (by decide),
      getMetadata_setMetadata_self]
  · rw [getMetadata_setMetadata_of_ne _ _ (by decide), getMetadata_setMetadata_self]

def broughtBack (db : Database) (columns : Columns) (record : CheckpointRecord)
    (localCycle : UInt64) : Database :=
  let saved := (cyclesBetween (saturatingAddU64 record.cycle 1)
    (saturatingAddU64 localCycle 1)).filterMap (saveCycleMeta db.toStore)
  (db.withColumns columns).onStore (fun store =>
    saved.foldl SavedCycleMeta.restore (record.setHead store))

theorem restoreReconcileFromCheckpoint_eq_ok {record : CheckpointRecord} :
    restoreReconcileFromCheckpoint record localCycle db = .ok () restored ↔
      ∃ columns, db.snapshots[record.snapshotName]? = some columns ∧
        restored = broughtBack db columns record localCycle := by
  have start : restoreReconcileFromCheckpoint record localCycle db =
      (loadSnapshot record.snapshotName >>= fun _ => modify (·.onStore (fun store =>
        ((cyclesBetween (saturatingAddU64 record.cycle 1)
          (saturatingAddU64 localCycle 1)).filterMap (saveCycleMeta db.toStore)).foldl
          SavedCycleMeta.restore (record.setHead store)))) db := get_bind
  rw [start]
  cases held : db.snapshots[record.snapshotName]? with
  | none =>
    have failed : ∃ e, loadSnapshot record.snapshotName db = .error e db := by
      rw [loadSnapshot, held]
      exact ⟨_, rfl⟩
    obtain ⟨e, failed⟩ := failed
    rw [bind_of_error failed]
    simp
  | some columns =>
    rw [bind_of_ok (loadSnapshot_eq held)]
    constructor
    · intro run
      cases run
      exact ⟨columns, rfl, rfl⟩
    · rintro ⟨_, same, rfl⟩
      cases same
      rfl

/-- What the applied state is discarded for: the state of a checkpoint, or none at all. -/
theorem discardAppliedState_eq_ok :
    discardAppliedState env localCycle replayStart db = .ok () restored ↔
      (1 < replayStart ∧ ∃ record columns,
        loadCheckpointAtCycle (purgeMutableChainStatePreservingLsuHistory db).toStore
          (saturatingSubU64 replayStart 1) = some record ∧
        db.snapshots[record.snapshotName]? = some columns ∧
        restored = broughtBack (purgeMutableChainStatePreservingLsuHistory db) columns record
          localCycle) ∨
      (¬1 < replayStart ∧ ∃ root, computeRootFromIter env.sha256 (∅ : Family).toList = .ok root ∧
        restored =
          { purgeMutableChainStatePreservingLsuHistory db with currentStateRoot := some root }) := by
  unfold discardAppliedState
  rw [modify_bind]
  by_cases anchored : 1 < replayStart
  · rw [if_pos anchored]
    refine Iff.trans (by rw [get_bind]) ?_
    cases held : loadCheckpointAtCycle (purgeMutableChainStatePreservingLsuHistory db).toStore
        (saturatingSubU64 replayStart 1) with
    | none => simp [anchored, throw, throwThe, MonadExceptOf.throw, EStateM.throw]
    | some record =>
      rw [restoreReconcileFromCheckpoint_eq_ok]
      simp only [anchored, true_and, not_true_eq_false, false_and, or_false, Option.some.injEq]
      constructor
      · rintro ⟨columns, snapshot, same⟩
        exact ⟨record, columns, rfl, snapshot, same⟩
      · rintro ⟨_, columns, rfl, snapshot, same⟩
        exact ⟨columns, snapshot, same⟩
  · rw [if_neg anchored]
    obtain ⟨root, built, refreshed⟩ := refreshCachedStateRoot_eq env.sha256
      (purgeMutableChainStatePreservingLsuHistory db)
    rw [refreshed]
    simp only [anchored, false_and, not_false_eq_true, true_and, false_or]
    constructor
    · intro run
      cases run
      exact ⟨root, built, rfl⟩
    · rintro ⟨_, built', rfl⟩
      cases built.symm.trans built'
      rfl

theorem discardAppliedState_head
    (run : discardAppliedState env localCycle replayStart db = .ok () restored) :
    lastAppliedCycle restored.toStore = 0 ∨ ∃ record : CheckpointRecord,
      HeadAt record.cycle record.lsuHash record.stateRoot restored.toStore ∧
      restored.currentStateRoot = some record.stateRoot := by
  rcases discardAppliedState_eq_ok.mp run with ⟨-, record, columns, -, -, rfl⟩ | ⟨-, root, -, rfl⟩
  · right
    have head := headAt_setHead record
      ((purgeMutableChainStatePreservingLsuHistory db).withColumns columns).toStore
    refine ⟨record, head.congr (fun name under => ?_), currentStateRoot_restore _ _⟩
    exact getMetadata_restore (under.not_of_apart (by decide)) _ _
  · left
    have purged : (purgeMutableChainStatePreservingLsuHistory db).getMetadata
        "consensus:last_applied_cycle" = none := by
      rw [getMetadata_purge, if_neg (by decide)]
    change (((purgeMutableChainStatePreservingLsuHistory db).getMetadata
      "consensus:last_applied_cycle").bind decodeU64).getD 0 = 0
    rw [purged]
    rfl

/-- The rebuild looks neither at the cached root nor at what an earlier reconcile noted. -/
theorem discardAppliedState_forget
    (run : discardAppliedState env localCycle replayStart db = .ok () restored)
    (root : Option Hash) (base : Option ReconcileBase) :
    discardAppliedState env localCycle replayStart { db with currentStateRoot := root, base := base } =
      .ok () { restored with base := base } := by
  apply discardAppliedState_eq_ok.mpr
  rcases discardAppliedState_eq_ok.mp run with
    ⟨anchored, record, columns, held, snapshot, rfl⟩ | ⟨scratch, fresh, built, rfl⟩
  · exact .inl ⟨anchored, record, columns, held, snapshot, rfl⟩
  · exact .inr ⟨scratch, fresh, built, rfl⟩

end Discard

section Inner

variable {env : DatabaseEnv} {target : ReconcileTarget} {plan : ReplayPlan}
  {db reached inner : Database} {cycle : UInt64}

theorem replayToTarget_eq_ok :
    replayToTarget env cycle plan db = .ok () reached ↔
      ∃ start replayed,
        (if plan.localCycle < cycle then start = db
          else discardAppliedState env plan.localCycle plan.replayStart db = .ok () start) ∧
        (cyclesBetween plan.replayStart cycle).forM (replayCycle env) start = .ok () replayed ∧
        reached = { replayed with base := some (.replayed plan.replayStart replayed.toStore) } := by
  have rest : ∀ start, ((cyclesBetween plan.replayStart cycle).forM (replayCycle env) >>= fun _ =>
      modify (fun db : Database =>
        { db with base := some (.replayed plan.replayStart db.toStore) })) start = .ok () reached ↔
      ∃ replayed, (cyclesBetween plan.replayStart cycle).forM (replayCycle env) start =
          .ok () replayed ∧
        reached = { replayed with base := some (.replayed plan.replayStart replayed.toStore) } := by
    intro start
    rw [bind_eq_ok]
    constructor
    · rintro ⟨⟨⟩, replayed, run, noted⟩
      cases noted
      exact ⟨replayed, run, rfl⟩
    · rintro ⟨replayed, run, rfl⟩
      exact ⟨(), replayed, run, rfl⟩
  unfold replayToTarget
  by_cases behind : plan.localCycle < cycle
  · rw [if_neg (by simpa using behind)]
    simp only [behind, if_true, exists_and_left, exists_eq_left]
    exact rest db
  · rw [if_pos behind, bind_eq_ok]
    simp only [behind, if_false]
    constructor
    · rintro ⟨⟨⟩, start, discarded, run⟩
      obtain ⟨replayed, run, same⟩ := (rest start).mp run
      exact ⟨start, replayed, discarded, run, same⟩
    · rintro ⟨start, replayed, discarded, run, same⟩
      exact ⟨(), start, discarded, (rest start).mpr ⟨replayed, run, same⟩⟩

theorem reconcileInner_eq_ok :
    reconcileInner env target plan db = .ok () inner ↔
      ∃ reached, replayToTarget env target.cycle plan db = .ok () reached ∧
        localAppliedStateRoot reached.toStore = target.expectedPrev ∧
        applyLsuWithRootCheckLocked env target.lsu target.expectedPost reached =
          .ok true inner := by
  have last : ∀ reached, (applyLsuWithRootCheckLocked env target.lsu target.expectedPost >>=
      fun applied => if ¬applied = true then throw ReconcileError.finalRootMismatch
        else pure ()) reached = .ok () inner ↔
      applyLsuWithRootCheckLocked env target.lsu target.expectedPost reached = .ok true inner := by
    intro reached
    rw [bind_eq_ok]
    constructor
    · rintro ⟨applied, after, run, kept⟩
      cases applied with
      | true =>
        cases kept
        exact run
      | false => cases kept
    · intro run
      exact ⟨true, inner, run, rfl⟩
  unfold reconcileInner
  rw [bind_eq_ok]
  constructor
  · rintro ⟨⟨⟩, reached, run, rest⟩
    refine ⟨reached, run, ?_⟩
    rw [get_bind] at rest
    dsimp only at rest
    split at rest
    next => cases rest
    next same => exact ⟨not_not.mp same, (last reached).mp rest⟩
  · rintro ⟨reached, run, same, rest⟩
    refine ⟨(), reached, run, ?_⟩
    rw [get_bind]
    dsimp only
    rw [if_neg (not_not.mpr same)]
    exact (last reached).mpr rest

end Inner

section Exact

variable {F G : Type} [Field F] [AddCommGroup G] [Module F G] [DecidableEq G]

def HeadIsTarget (env : ReconcileEnv F G) (target : ReconcileTarget) (store : Store) : Prop :=
  lastAppliedCycle store = target.cycle ∧
    localAppliedLsuHash store = some (hashData env.database.tx.blake2b512 target.lsu)

/-- What a reconcile promises: on success the node stands at the target, and got there from the
expected root to the expected root unless it was there before; otherwise nothing has changed. -/
structure ReconcileExact (env : ReconcileEnv F G) (target : ReconcileTarget) (db : Database) :
    Prop where
  head : ∀ db', tryReconcileForkFromQuorumLsu env target db = .ok true db' →
    HeadIsTarget env target db'.toStore
  roots : ∀ db', tryReconcileForkFromQuorumLsu env target db = .ok true db' →
    ¬HeadIsTarget env target db.toStore →
    localAppliedStateRoot db'.toStore = target.expectedPost ∧
    db'.getMetadata "consensus:last_applied_state_root" = some target.expectedPost.toList ∧
    ∃ base, db'.base = some base ∧ localAppliedStateRoot base.store = target.expectedPrev
  unchanged : ∀ db', tryReconcileForkFromQuorumLsu env target db = .ok false db' →
    db'.columns = db.columns

/-- The head has the largest cycle number, which counts as the one after itself: another update of
that cycle is taken for the next one and skipped, since the head is not below it. -/
structure SkipsAtLargestCycle (env : ReconcileEnv F G) (target : ReconcileTarget)
    (db : Database) : Prop where
  head : lastAppliedCycle db.toStore = UInt64.ofNat (2 ^ 64 - 1)
  cycle : target.cycle = lastAppliedCycle db.toStore
  prev : target.expectedPrev = localAppliedStateRoot db.toStore
  post : target.expectedPost = db.currentStateRoot.getD (zeros 32)
  free : verifySnapshotName target.cycle env.database.nowMs ∉ db.snapshots

/-- The rebuild goes back to a checkpoint whose record puts the head at or above the target. Nothing
is applied from there on, and the root stays the one of the record. -/
structure RestoresPastTarget (env : ReconcileEnv F G) (target : ReconcileTarget) (db : Database)
    (replayStart : UInt64) (restored : Database) : Prop where
  replays : env.maxReplayCycles ≠ 0
  closed : reconcileCircuitIsBroken db.failures (lastAppliedCycle db.toStore) = false
  notBehind : target.cycle ≤ lastAppliedCycle db.toStore
  start : resolveReplayStart db.toStore target.cycle ((prunedUpToCycle db.toStore).getD 0) 1 =
    some replayStart
  free : reconcileSnapshotName target.cycle env.database.nowMs ∉ db.snapshots
  restores : discardAppliedState env.database (lastAppliedCycle db.toStore) replayStart
    (db.withSnapshot (reconcileSnapshotName target.cycle env.database.nowMs)) = .ok () restored
  past : target.cycle ≤ lastAppliedCycle restored.toStore
  other : ¬HeadIsTarget env target restored.toStore
  recorded : ∀ i ∈ cyclesBetween replayStart target.cycle, ∃ lsu,
    storedLsu env.database restored.toStore i = .ok lsu
  prev : localAppliedStateRoot restored.toStore = target.expectedPrev
  post : restored.currentStateRoot.getD (zeros 32) = target.expectedPost
  freeVerify : verifySnapshotName target.cycle env.database.nowMs ∉ restored.snapshots

variable {env : ReconcileEnv F G} {target : ReconcileTarget} {db db' : Database}

theorem admitted_spec (admitted : reconcileRefuses env target db.toStore = false) :
    target.lsu.cycleNumber = target.cycle ∧
      hashData env.database.tx.blake2b512 target.lsu = target.expectedLsuHash := by
  unfold reconcileRefuses at admitted
  simp only [decide_eq_false_iff_not, not_or, not_not] at admitted
  exact ⟨admitted.2.2.1, admitted.2.2.2.1⟩

theorem alreadyApplied_iff (admitted : reconcileRefuses env target db.toStore = false) :
    alreadyApplied target db.toStore = true ↔ HeadIsTarget env target db.toStore := by
  rw [alreadyApplied, decide_eq_true_iff, HeadIsTarget, (admitted_spec admitted).2]

theorem not_alreadyApplied (admitted : reconcileRefuses env target db.toStore = false)
    (other : ¬HeadIsTarget env target db.toStore) : alreadyApplied target db.toStore = false := by
  rw [Bool.eq_false_iff, ne_eq, alreadyApplied_iff admitted]
  exact other

omit [Field F] [AddCommGroup G] [Module F G] [DecidableEq G] in
theorem planReplay_eq_some {plan : ReplayPlan} :
    planReplay env target db = .ok (some plan) db ↔
      env.maxReplayCycles ≠ 0 ∧
      reconcileCircuitIsBroken db.failures (lastAppliedCycle db.toStore) = false ∧
      saturatingSubU64 target.cycle (lastAppliedCycle db.toStore) ≤ env.maxReplayCycles ∧
      plan.localCycle = lastAppliedCycle db.toStore ∧
      resolveReplayStart db.toStore target.cycle ((prunedUpToCycle db.toStore).getD 0)
        (if lastAppliedCycle db.toStore < target.cycle then
          max (saturatingAddU64 (lastAppliedCycle db.toStore) 1) 1 else 1) =
        some plan.replayStart := by
  obtain ⟨localCycle, replayStart⟩ := plan
  unfold planReplay
  dsimp only
  split
  next stopped =>
    simp only [EStateM.Result.ok.injEq, reduceCtorEq, false_and, false_iff, not_and]
    intro replays closed depth
    rcases stopped with none | broken | deep
    · exact absurd none replays
    · simp [closed] at broken
    · exact absurd depth (UInt64.not_le.mpr deep)
  next allowed =>
    rw [not_or, not_or, Bool.not_eq_true, UInt64.not_lt] at allowed
    split
    next unresolved => simp [unresolved]
    next start resolved =>
      simp only [EStateM.Result.ok.injEq, Option.some.injEq, ReplayPlan.mk.injEq, and_true, resolved]
      constructor
      · rintro ⟨rfl, rfl⟩
        exact ⟨allowed.1, allowed.2.1, allowed.2.2, rfl, rfl⟩
      · rintro ⟨-, -, -, same, start⟩
        exact ⟨same.symm, start⟩

omit [Field F] [AddCommGroup G] [Module F G] [DecidableEq G] in
theorem headIsTarget_of_applied {base : Database} (numbered : target.lsu.cycleNumber = target.cycle)
    (applied : Applied env.database target.lsu target.expectedPost base db) :
    HeadIsTarget env target db.toStore ∧
      localAppliedStateRoot db.toStore = target.expectedPost ∧
      db.getMetadata "consensus:last_applied_state_root" = some target.expectedPost.toList := by
  refine ⟨⟨applied.head.lastAppliedCycle_eq.trans numbered, ?_⟩, ?_, applied.head.stateRoot⟩
  · rw [localAppliedLsuHash, applied.head.lsuHash, Option.bind_some, toArray?_toList]
  · rw [localAppliedStateRoot, applied.cachedRoot, Option.getD_some]

theorem eq_largest_of_le {cycle head : UInt64} (next : cycle = saturatingAddU64 head 1)
    (below : cycle ≤ head) : head = UInt64.ofNat (2 ^ 64 - 1) ∧ cycle = head := by
  have sum := toNat_saturatingAddU64 head 1
  have bound := head.toNat_lt
  have one : (1 : UInt64).toNat = 1 := rfl
  rw [← next] at sum
  rw [UInt64.le_iff_toNat_le] at below
  have top : head.toNat = 2 ^ 64 - 1 := by omega
  refine ⟨UInt64.toNat_inj.mp ?_, UInt64.toNat_inj.mp (by omega)⟩
  rw [top, UInt64.toNat_ofNat', Nat.mod_eq_of_lt (by norm_num)]

omit [Field F] [AddCommGroup G] [Module F G] [DecidableEq G] in
/-- Applying onto the head, if that is what happened, was real or a skip at the largest cycle. -/
theorem applyOntoHead_true (numbered : target.lsu.cycleNumber = target.cycle)
    (run : applyOntoHead env.database target { db with base := none } = .ok true db') :
    SkipsAtLargestCycle env target db ∨
      lastAppliedCycle db.toStore < target.cycle ∧
      localAppliedStateRoot db.toStore = target.expectedPrev ∧
      Applied env.database target.lsu target.expectedPost
        { db with base := some (.head db.toStore) } db' := by
  unfold applyOntoHead at run
  split at run
  next chains =>
    have checked := rootChecked env.database target.lsu target.expectedPost
      { db with base := some (.head db.toStore) }
    generalize applyLsuWithRootCheckLocked env.database target.lsu target.expectedPost
      { db with base := some (.head db.toStore) } = result at checked run
    cases checked with
    | taken => simp at run
    | skipped free below same =>
      rw [numbered] at below free
      obtain ⟨top, cycle⟩ := eq_largest_of_le chains.1 below
      exact .inl ⟨top, cycle, chains.2, same.symm, free⟩
    | skippedOther => simp at run
    | applied above applied =>
      cases run
      exact .inr ⟨numbered ▸ above, chains.2.symm, applied⟩
    | reverted => simp at run
  next => simp at run

omit [Field F] [AddCommGroup G] [Module F G] [DecidableEq G] in
/-- If the node is not behind, a failed attempt to apply onto the head leaves at most another cached
root. -/
theorem applyOntoHead_false (numbered : target.lsu.cycleNumber = target.cycle)
    (notBehind : target.cycle ≤ lastAppliedCycle db.toStore)
    (run : applyOntoHead env.database target { db with base := none } = .ok false db') :
    ∃ root base, db' = { db with currentStateRoot := root, base := base } := by
  unfold applyOntoHead at run
  split at run
  next =>
    have checked := rootChecked env.database target.lsu target.expectedPost
      { db with base := some (.head db.toStore) }
    generalize applyLsuWithRootCheckLocked env.database target.lsu target.expectedPost
      { db with base := some (.head db.toStore) } = result at checked run
    cases checked with
    | taken =>
      cases run
      exact ⟨_, _, rfl⟩
    | skipped => simp at run
    | skippedOther =>
      cases run
      obtain ⟨root, -, refreshed⟩ := refreshCachedStateRoot_eq env.database.sha256
        { db with base := some (.head db.toStore) }
      have after := endState_refreshCachedStateRoot env.database.sha256
        { db with base := some (.head db.toStore) }
      rw [refreshed] at after
      exact ⟨some root, some (.head db.toStore), after.symm⟩
    | applied => simp at run
    | reverted above => exact absurd above (UInt64.not_lt.mpr (numbered ▸ notBehind))
  next =>
    cases run
    exact ⟨_, _, rfl⟩

theorem tryReconcile_of_onto (admitted : reconcileRefuses env target db.toStore = false)
    (fresh : alreadyApplied target db.toStore = false)
    (onto : applyOntoHead env.database target { db with base := none } = .ok true db') :
    tryReconcileForkFromQuorumLsu env target db = .ok true db' := by
  have outcome := reconciled env target db
  generalize tryReconcileForkFromQuorumLsu env target db = result at outcome
  cases outcome with
  | refused refused => simp [admitted] at refused
  | already _ already => simp [fresh] at already
  | onto _ _ onto' =>
    cases onto.symm.trans onto'
    rfl
  | unplanned _ _ onto' => cases onto.symm.trans onto'
  | planned _ _ onto' => cases onto.symm.trans onto'

theorem tryReconcile_of_planned (admitted : reconcileRefuses env target db.toStore = false)
    (fresh : alreadyApplied target db.toStore = false) {db₁ : Database} {plan : ReplayPlan}
    (onto : applyOntoHead env.database target { db with base := none } = .ok false db₁)
    (planned : planReplay env target db₁ = .ok (some plan) db₁) :
    tryReconcileForkFromQuorumLsu env target db = commitOrRevert env target plan db₁ := by
  have outcome := reconciled env target db
  generalize tryReconcileForkFromQuorumLsu env target db = result at outcome
  cases outcome with
  | refused refused => simp [admitted] at refused
  | already _ already => simp [fresh] at already
  | onto _ _ onto' => cases onto.symm.trans onto'
  | unplanned _ _ onto' planned' =>
    cases onto.symm.trans onto'
    cases planned.symm.trans planned'
  | planned _ _ onto' planned' =>
    cases onto.symm.trans onto'
    cases planned.symm.trans planned'
    rfl

omit [Field F] [AddCommGroup G] [Module F G] [DecidableEq G] in
/-- A replay that ends at or above the target has gone back to a state that was there, and changed
nothing since. -/
theorem replayToTarget_past {env : DatabaseEnv} {plan : ReplayPlan} {cycle : UInt64}
    {reached : Database} (here : plan.localCycle = lastAppliedCycle db.toStore)
    (run : replayToTarget env cycle plan db = .ok () reached)
    (past : cycle ≤ lastAppliedCycle reached.toStore) :
    cycle ≤ plan.localCycle ∧ ∃ restored,
      discardAppliedState env plan.localCycle plan.replayStart db = .ok () restored ∧
      (∀ i ∈ cyclesBetween plan.replayStart cycle, ∃ lsu,
        storedLsu env restored.toStore i = .ok lsu) ∧
      reached = { restored with base := some (.replayed plan.replayStart restored.toStore) } := by
  obtain ⟨start, replayed, begun, replay, rfl⟩ := replayToTarget_eq_ok.mp run
  have stays : ¬lastAppliedCycle start.toStore < cycle := fun below =>
    absurd (keeps_replay_below.endState_eq_ok below replay) (UInt64.not_lt.mpr past)
  split at begun
  next behind =>
    subst begun
    exact absurd (here ▸ behind) stays
  next notBehind =>
    have above : ∀ i ∈ cyclesBetween plan.replayStart cycle, i ≤ lastAppliedCycle start.toStore :=
      fun i inside => UInt64.le_trans (UInt64.le_of_lt (mem_cyclesBetween.mp inside).2)
        (UInt64.not_lt.mp stays)
    obtain ⟨rfl, recorded⟩ := (replay_skips_iff above).mp replay
    exact ⟨UInt64.not_lt.mp notBehind, replayed, begun, recorded, rfl⟩

omit [Field F] [AddCommGroup G] [Module F G] [DecidableEq G] in
/-- How the apply at the end of a successful replay went: it was real, or the replay had gone back
past the target. -/
theorem reconcileInner_ok {plan : ReplayPlan} {inner : Database}
    (numbered : target.lsu.cycleNumber = target.cycle)
    (here : plan.localCycle = lastAppliedCycle db.toStore)
    (run : reconcileInner env.database target plan db = .ok () inner) :
    (∃ reached, Applied env.database target.lsu target.expectedPost reached inner ∧
      reached.base = some (.replayed plan.replayStart reached.toStore) ∧
      localAppliedStateRoot reached.toStore = target.expectedPrev) ∨
    (target.cycle ≤ plan.localCycle ∧ ∃ restored,
      discardAppliedState env.database plan.localCycle plan.replayStart db = .ok () restored ∧
      target.cycle ≤ lastAppliedCycle restored.toStore ∧
      (∀ i ∈ cyclesBetween plan.replayStart target.cycle, ∃ lsu,
        storedLsu env.database restored.toStore i = .ok lsu) ∧
      localAppliedStateRoot restored.toStore = target.expectedPrev ∧
      restored.currentStateRoot.getD (zeros 32) = target.expectedPost ∧
      verifySnapshotName target.cycle env.database.nowMs ∉ restored.snapshots ∧
      inner = { restored with base := some (.replayed plan.replayStart restored.toStore) }) := by
  obtain ⟨reached, replay, prev, last⟩ := reconcileInner_eq_ok.mp run
  have checked := rootChecked env.database target.lsu target.expectedPost reached
  rw [last] at checked
  cases checked with
  | skipped free below same =>
    rw [numbered] at below free
    obtain ⟨notBehind, restored, discarded, recorded, rfl⟩ := replayToTarget_past here replay below
    exact .inr ⟨notBehind, restored, discarded, below, recorded, prev, same, free, rfl⟩
  | applied _ applied =>
    obtain ⟨start, replayed, -, -, rfl⟩ := replayToTarget_eq_ok.mp replay
    exact .inl ⟨_, applied, rfl, prev⟩

/-- At the largest cycle the reconcile succeeds and leaves the head as it was. -/
theorem tryReconcile_of_skips (admitted : reconcileRefuses env target db.toStore = false)
    (fresh : alreadyApplied target db.toStore = false) (skips : SkipsAtLargestCycle env target db) :
    tryReconcileForkFromQuorumLsu env target db =
      .ok true { db with base := some (.head db.toStore) } := by
  obtain ⟨numbered, -⟩ := admitted_spec admitted
  have next : target.cycle = saturatingAddU64 (lastAppliedCycle db.toStore) 1 := by
    rw [skips.cycle, skips.head]
    decide
  have below : target.lsu.cycleNumber ≤ lastAppliedCycle db.toStore := by
    rw [numbered, skips.cycle]
    exact UInt64.le_refl _
  have skip : applyLsuWithRootCheckLocked env.database target.lsu target.expectedPost
      { db with base := some (.head db.toStore) } =
        .ok true { db with base := some (.head db.toStore) } :=
    applyLsuWithRootCheckLocked_skip (by rw [numbered]; exact skips.free) below skips.post.symm
  refine tryReconcile_of_onto admitted fresh ?_
  unfold applyOntoHead
  rw [if_pos ⟨next, skips.prev⟩]
  dsimp only
  rw [skip]

/-- From a state past the target nothing is applied, and the reconcile ends at the head of it. -/
theorem tryReconcile_of_restores (admitted : reconcileRefuses env target db.toStore = false)
    (fresh : alreadyApplied target db.toStore = false) {replayStart : UInt64} {restored : Database}
    (restores : RestoresPastTarget env target db replayStart restored) {db₁ : Database}
    (onto : applyOntoHead env.database target { db with base := none } = .ok false db₁) :
    ∃ db', tryReconcileForkFromQuorumLsu env target db = .ok true db' ∧
      db'.toStore = restored.toStore := by
  obtain ⟨numbered, -⟩ := admitted_spec admitted
  obtain ⟨root, base, rfl⟩ := applyOntoHead_false numbered restores.notBehind onto
  let plan : ReplayPlan := ⟨lastAppliedCycle db.toStore, replayStart⟩
  let snap := reconcileSnapshotName target.cycle env.database.nowMs
  let before : Database := { db with currentStateRoot := root, base := base }
  let reached : Database :=
    { restored with base := some (.replayed replayStart restored.toStore) }
  have notBehind : ¬lastAppliedCycle db.toStore < target.cycle :=
    UInt64.not_lt.mpr restores.notBehind
  have planned : planReplay env target before = .ok (some plan) before := by
    refine planReplay_eq_some.mpr ⟨restores.replays, restores.closed, ?_, rfl, ?_⟩
    · have shallow := UInt64.le_iff_toNat_le.mp restores.notBehind
      rw [UInt64.le_iff_toNat_le, toNat_saturatingSubU64]
      exact le_trans (Nat.sub_eq_zero_of_le shallow).le (Nat.zero_le _)
    · exact (congrArg _ (if_neg notBehind)).trans restores.start
  -- the rebuild does not see the difference that the attempt on the head made
  have discarded := discardAppliedState_forget restores.restores root base
  have above : ∀ i ∈ cyclesBetween replayStart target.cycle,
      i ≤ lastAppliedCycle ({ restored with base := base } : Database).toStore := fun i inside =>
    UInt64.le_trans (UInt64.le_of_lt (mem_cyclesBetween.mp inside).2) restores.past
  have replayed : replayToTarget env.database target.cycle plan (before.withSnapshot snap) =
      .ok () reached :=
    replayToTarget_eq_ok.mpr ⟨_, _, (if_neg notBehind).mpr discarded,
      (replay_skips_iff above).mpr ⟨rfl, restores.recorded⟩, rfl⟩
  have inner : reconcileInner env.database target plan (before.withSnapshot snap) =
      .ok () reached :=
    reconcileInner_eq_ok.mpr ⟨reached, replayed, restores.prev,
      applyLsuWithRootCheckLocked_skip (by rw [numbered]; exact restores.freeVerify)
        (by rw [numbered]; exact restores.past) restores.post⟩
  obtain ⟨db', kept, store⟩ := @commitOrRevert_of_inner F G env target before plan reached
    restores.free inner
  exact ⟨db', (tryReconcile_of_planned admitted fresh onto planned).trans kept, store⟩

omit [Field F] [AddCommGroup G] [Module F G] [DecidableEq G] in
/-- A replay that went back past the target without going wrong had gone back to the target. -/
theorem headIsTarget_of_past {restored : Database} {localCycle replayStart : UInt64}
    (positive : 1 ≤ target.cycle)
    (discarded : discardAppliedState env.database localCycle replayStart db = .ok () restored)
    (past : target.cycle ≤ lastAppliedCycle restored.toStore)
    (post : restored.currentStateRoot.getD (zeros 32) = target.expectedPost) :
    localAppliedStateRoot restored.toStore = target.expectedPost ∧
      restored.getMetadata "consensus:last_applied_state_root" =
        some target.expectedPost.toList := by
  rcases discardAppliedState_head discarded with nothing | ⟨record, head, root⟩
  · rw [nothing] at past
    exact absurd (UInt64.le_trans positive past) (by decide)
  · rw [root, Option.getD_some] at post
    rw [localAppliedStateRoot, root, Option.getD_some, ← post]
    exact ⟨rfl, head.stateRoot⟩

theorem tryReconcile_succeeded
    (run : tryReconcileForkFromQuorumLsu env target db = .ok true db') :
    reconcileRefuses env target db.toStore = false ∧
      (alreadyApplied target db.toStore = true → db' = { db with base := none }) := by
  have outcome := reconciled env target db
  rw [run] at outcome
  generalize ended : EStateM.Result.ok true db' = result at outcome
  cases outcome with
  | refused => simp at ended
  | already admitted =>
    cases ended
    exact ⟨admitted, fun _ => rfl⟩
  | onto admitted fresh => exact ⟨admitted, fun already => by simp [fresh] at already⟩
  | unplanned => simp at ended
  | planned admitted fresh => exact ⟨admitted, fun already => by simp [fresh] at already⟩

/-- A successful reconcile that was neither of the two skips applied the target onto a base with the
expected root, or found it applied. -/
theorem tryReconcile_ok (positive : 1 ≤ target.cycle)
    (admitted : reconcileRefuses env target db.toStore = false)
    (fresh : alreadyApplied target db.toStore = false)
    (noSkip : ¬SkipsAtLargestCycle env target db)
    (noRestore : ∀ replayStart restored, ¬RestoresPastTarget env target db replayStart restored)
    (run : tryReconcileForkFromQuorumLsu env target db = .ok true db') :
    HeadIsTarget env target db'.toStore ∧
      localAppliedStateRoot db'.toStore = target.expectedPost ∧
      db'.getMetadata "consensus:last_applied_state_root" = some target.expectedPost.toList ∧
      ∃ base, db'.base = some base ∧ localAppliedStateRoot base.store = target.expectedPrev := by
  obtain ⟨numbered, -⟩ := admitted_spec admitted
  have outcome := reconciled env target db
  rw [run] at outcome
  generalize ended : EStateM.Result.ok true db' = result at outcome
  cases outcome with
  | refused refused => simp [admitted] at refused
  | already _ already => simp [fresh] at already
  | onto _ _ onto =>
    cases ended
    rcases applyOntoHead_true numbered onto with skips | ⟨-, prev, applied⟩
    · exact absurd skips noSkip
    · obtain ⟨head, post, recorded⟩ := headIsTarget_of_applied numbered applied
      exact ⟨head, post, recorded, .head db.toStore, applied.base, prev⟩
  | unplanned => simp at ended
  | @planned db₁ plan _ _ onto planned =>
    have outcome := committed env target plan db₁
    rw [← ended] at outcome
    cases outcome with
    | @kept inner _ free replay store columns base =>
      obtain ⟨replays, closed, -, here, start⟩ := planReplay_eq_some.mp planned
      have same : lastAppliedCycle db₁.toStore = lastAppliedCycle db.toStore := by
        have metadata := congrArg Columns.metadata (columns_applyOntoHead onto)
        exact congrArg (fun m : Std.ExtTreeMap String Bytes =>
          (m["consensus:last_applied_cycle"]?.bind decodeU64).getD 0) metadata
      rw [store, base]
      rw [same] at here start closed
      rcases @reconcileInner_ok F G env target (db₁.withSnapshot _) plan inner numbered
        (here.trans same.symm) replay with
        ⟨reached, applied, noted, prev⟩ |
        ⟨notBehind, restored, discarded, past, stored, prev, post, freeVerify, rfl⟩
      · obtain ⟨head, post, recorded⟩ := headIsTarget_of_applied numbered applied
        exact ⟨head, post, recorded, _, applied.base.trans noted, prev⟩
      · rw [here] at notBehind discarded
        rw [if_neg (UInt64.not_lt.mpr notBehind)] at start
        obtain ⟨root, noted, rfl⟩ := applyOntoHead_false numbered notBehind onto
        have discarded' := discardAppliedState_forget discarded db.currentStateRoot db.base
        have head : HeadIsTarget env target restored.toStore := by
          by_contra other
          exact noRestore plan.replayStart { restored with base := db.base } ⟨replays, closed,
            notBehind, start, free, discarded', past, other, stored, prev, post, freeVerify⟩
        obtain ⟨post, recorded⟩ := headIsTarget_of_past positive discarded past post
        exact ⟨head, post, recorded, _, rfl, prev⟩

/-- A reconcile does what it promises exactly if it neither takes the head of the largest cycle for
one below itself nor goes back to a checkpoint past its target. -/
theorem reconcileExact_iff (env : ReconcileEnv F G) (target : ReconcileTarget) (db : Database)
    (positive : 1 ≤ target.cycle) :
    ReconcileExact env target db ↔
      (reconcileRefuses env target db.toStore = false → ¬HeadIsTarget env target db.toStore →
        ¬SkipsAtLargestCycle env target db ∧
          ∀ replayStart restored, ¬RestoresPastTarget env target db replayStart restored) := by
  constructor
  · intro exact admitted other
    have fresh := not_alreadyApplied admitted other
    have noSkip : ¬SkipsAtLargestCycle env target db := by
      intro skips
      have head := exact.head _ (tryReconcile_of_skips admitted fresh skips)
      exact other head
    refine ⟨noSkip, fun replayStart restored restores => ?_⟩
    obtain ⟨applied, db₁, onto⟩ := applyOntoHead_ok env.database target { db with base := none }
    cases applied with
    | true =>
      rcases applyOntoHead_true (admitted_spec admitted).1 onto with skips | ⟨above, -⟩
      · exact noSkip skips
      · exact absurd above (UInt64.not_lt.mpr restores.notBehind)
    | false =>
      obtain ⟨db', run, store⟩ := tryReconcile_of_restores admitted fresh restores onto
      exact restores.other (store ▸ exact.head db' run)
  · intro condition
    have reaches : ∀ db', tryReconcileForkFromQuorumLsu env target db = .ok true db' →
        ¬HeadIsTarget env target db.toStore → _ := fun db' run other => by
      obtain ⟨admitted, -⟩ := tryReconcile_succeeded run
      obtain ⟨noSkip, noRestore⟩ := condition admitted other
      exact tryReconcile_ok positive admitted (not_alreadyApplied admitted other) noSkip noRestore run
    refine ⟨fun db' run => ?_, fun db' run other => (reaches db' run other).2, fun db' run => ?_⟩
    · by_cases there : HeadIsTarget env target db.toStore
      · obtain ⟨admitted, stays⟩ := tryReconcile_succeeded run
        rw [stays ((alreadyApplied_iff admitted).mpr there)]
        exact there
      · exact (reaches db' run there).1
    · have same := columns_of_unsuccessful (fun db'' success => by cases run.symm.trans success)
      rwa [run] at same

end Exact

def sampleDatabaseEnv : DatabaseEnv :=
  { sampleCycleEnv with
    encodeTxids := fun _ => none
    checkpointEveryCycles := 32 }

def sampleReconcileEnv : ReconcileEnv (ZMod 13) (ZMod 13) where
  node := sampleEnv outsiderCertificate
  database := sampleDatabaseEnv
  maxReplayCycles := 100
  circuitBreakThreshold := 5
  circuitBreakWindowMs := 30000
  trackerRank := fun _ => UInt64.toNat
  sameHash := rfl

def sampleVoted (cycle timestamp : UInt64) : LedgerStateUpdate :=
  { sampleUpdate [sampleId "0c"] timestamp with cycleNumber := cycle }

def sampleTarget (lsu : LedgerStateUpdate) : ReconcileTarget where
  lsu := lsu
  cycle := lsu.cycleNumber
  expectedPrev := zeros 32
  expectedPost := zeros 32
  expectedLsuHash := hashData checksum lsu
  dfs := none
  finalityCidHint := ""
  certifiedOnly := false

def sampleHeadedBy (lsu : LedgerStateUpdate) : Database :=
  { Database.fresh with
    toStore := { persistAppliedHead lsu (hashData checksum lsu) (zeros 32) .empty with
      currentStateRoot := some (zeros 32) } }

/-- Two updates of the largest cycle: a reconcile onto the second reports success on the first. -/
theorem reconcileExact_largestCycle :
    1 ≤ (sampleTarget (sampleVoted 18446744073709551615 2)).cycle ∧
    ¬ReconcileExact sampleReconcileEnv (sampleTarget (sampleVoted 18446744073709551615 2))
      (sampleHeadedBy (sampleVoted 18446744073709551615 1)) := by
  refine ⟨by decide, fun exact => ?_⟩
  have run := @tryReconcile_of_skips (ZMod 13) (ZMod 13) _ _ _ _ sampleReconcileEnv
    (sampleTarget (sampleVoted 18446744073709551615 2))
    (sampleHeadedBy (sampleVoted 18446744073709551615 1)) (by decide +kernel) (by decide +kernel)
    ⟨by decide +kernel, by decide +kernel, by decide +kernel, by decide +kernel, by decide +kernel⟩
  have hash := (exact.head _ run).2
  exact absurd hash (by decide +kernel)

/-- The first update of a chain is reconciled as promised. -/
theorem reconcileExact_iff_first :
    1 ≤ (sampleTarget (sampleVoted 1 1)).cycle ∧
    ReconcileExact sampleReconcileEnv (sampleTarget (sampleVoted 1 1)) .fresh := by
  refine ⟨by decide, (reconcileExact_iff sampleReconcileEnv (sampleTarget (sampleVoted 1 1)) .fresh
    (by decide)).mpr (fun _ _ => ⟨fun skips => ?_, fun _ _ restores => ?_⟩)⟩
  · exact absurd skips.head (by decide +kernel)
  · exact absurd restores.notBehind (by decide +kernel)

/-- And it does reach it. -/
example : (match tryReconcileForkFromQuorumLsu sampleReconcileEnv (sampleTarget (sampleVoted 1 1))
    .fresh with
  | .ok true db => decide (lastAppliedCycle db.toStore = 1)
  | _ => false) = true := by
  decide +kernel

end CatalystNode
