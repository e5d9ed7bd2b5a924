import CatalystNode.ReconcileSteps

namespace CatalystNode

open ByteVector HexCodec MachineInt Store Effects

section Paths

variable {F G : Type} [Field F] [AddCommGroup G] [Module F G] [DecidableEq G]
  {env : ReconcileEnv F G} {target : ReconcileTarget} {db : Database}

omit [Field F] [AddCommGroup G] [Module F G] [DecidableEq G] in
theorem planReplay_ok (env : ReconcileEnv F G) (target : ReconcileTarget) (db : Database) :
    (∃ db', planReplay env target db = .ok none db' ∧ db'.columns = db.columns) ∨
      ∃ plan, planReplay env target db = .ok (some plan) db := by
  unfold planReplay
  dsimp only
  split
  next => exact .inl ⟨db, rfl, rfl⟩
  next =>
    split
    next => exact .inl ⟨_, rfl, rfl⟩
    next => exact .inr ⟨_, rfl⟩

omit [Field F] [AddCommGroup G] [Module F G] [DecidableEq G] in
theorem planReplay_eq_none {db' : Database} (unplanned : planReplay env target db = .ok none db') :
    db' = db ∨ db' = db.recordFailure env (lastAppliedCycle db.toStore) := by
  unfold planReplay at unplanned
  dsimp only at unplanned
  split at unplanned
  next =>
    cases unplanned
    exact .inl rfl
  next =>
    split at unplanned
    next =>
      cases unplanned
      exact .inr rfl
    next => cases unplanned

theorem applyOntoHead_ok (env : DatabaseEnv) (target : ReconcileTarget) (db : Database) :
    ∃ applied db', applyOntoHead env target db = .ok applied db' := by
  unfold applyOntoHead
  split
  next =>
    split
    next applied db' _ => exact ⟨applied, db', rfl⟩
    next _ db' _ => exact ⟨false, db', rfl⟩
  next => exact ⟨false, db, rfl⟩

inductive Reconciled (env : ReconcileEnv F G) (target : ReconcileTarget) (db : Database) :
    EStateM.Result ReconcileError Database Bool → Prop
  | refused : reconcileRefuses env target db.toStore = true →
      Reconciled env target db (.ok false { db with base := none })
  | already : reconcileRefuses env target db.toStore = false →
      alreadyApplied target db.toStore = true →
      Reconciled env target db (.ok true { db with base := none })
  | onto {db'} : reconcileRefuses env target db.toStore = false →
      alreadyApplied target db.toStore = false →
      applyOntoHead env.database target { db with base := none } = .ok true db' →
      Reconciled env target db (.ok true db')
  | unplanned {db₁ db'} : reconcileRefuses env target db.toStore = false →
      alreadyApplied target db.toStore = false →
      applyOntoHead env.database target { db with base := none } = .ok false db₁ →
      planReplay env target db₁ = .ok none db' → Reconciled env target db (.ok false db')
  | planned {db₁ plan} : reconcileRefuses env target db.toStore = false →
      alreadyApplied target db.toStore = false →
      applyOntoHead env.database target { db with base := none } = .ok false db₁ →
      planReplay env target db₁ = .ok (some plan) db₁ →
      Reconciled env target db (commitOrRevert env target plan db₁)

theorem reconciled (env : ReconcileEnv F G) (target : ReconcileTarget) (db : Database) :
    Reconciled env target db (tryReconcileForkFromQuorumLsu env target db) := by
  have start : tryReconcileForkFromQuorumLsu env target db =
      (if reconcileRefuses env target db.toStore then pure false
        else if alreadyApplied target db.toStore then pure true
        else applyOntoHead env.database target >>= fun applied =>
          if applied then pure true else replayIfPossible env target) { db with base := none } :=
    modify_bind.trans get_bind
  cases refuses : reconcileRefuses env target db.toStore with
  | true =>
    rw [start, if_pos refuses]
    exact .refused refuses
  | false =>
    rw [start, if_neg (by simp [refuses])]
    cases already : alreadyApplied target db.toStore with
    | true =>
      rw [if_pos rfl]
      exact .already refuses already
    | false =>
      rw [if_neg (by simp)]
      obtain ⟨applied, db₁, onto⟩ := applyOntoHead_ok env.database target { db with base := none }
      rw [bind_of_ok onto]
      cases applied with
      | true => exact .onto refuses already onto
      | false =>
        change Reconciled env target db (replayIfPossible env target db₁)
        rcases planReplay_ok env target db₁ with ⟨db', planned, -⟩ | ⟨plan, planned⟩
        · have run : replayIfPossible env target db₁ = .ok false db' := bind_of_ok planned
          exact run ▸ .unplanned refuses already onto planned
        · have run : replayIfPossible env target db₁ = commitOrRevert env target plan db₁ :=
            bind_of_ok planned
          exact run ▸ .planned refuses already onto planned

inductive Committed (env : ReconcileEnv F G) (target : ReconcileTarget) (plan : ReplayPlan)
    (db : Database) : EStateM.Result ReconcileError Database Bool → Prop
  | taken {e} : Committed env target plan db (.error e db)
  | reverted {db'} : db'.columns = db.columns → Committed env target plan db (.ok false db')
  | kept {inner db' : Database} :
      reconcileSnapshotName target.cycle env.database.nowMs ∉ db.snapshots →
      reconcileInner env.database target plan
        (db.withSnapshot (reconcileSnapshotName target.cycle env.database.nowMs)) = .ok () inner →
      db'.toStore = inner.toStore → db'.columns = inner.columns → db'.base = inner.base →
      Committed env target plan db (.ok true db')

omit [Field F] [AddCommGroup G] [Module F G] [DecidableEq G] in
theorem commitOrRevert_eq {plan : ReplayPlan}
    (free : reconcileSnapshotName target.cycle env.database.nowMs ∉ db.snapshots) :
    commitOrRevert env target plan db = keepOrRevert env target plan
      (reconcileSnapshotName target.cycle env.database.nowMs)
      (db.withSnapshot (reconcileSnapshotName target.cycle env.database.nowMs)) :=
  bind_of_ok (createSnapshot_of_not_mem free)

omit [Field F] [AddCommGroup G] [Module F G] [DecidableEq G] in
theorem commitOrRevert_of_inner {plan : ReplayPlan} {inner : Database}
    (free : reconcileSnapshotName target.cycle env.database.nowMs ∉ db.snapshots)
    (run : reconcileInner env.database target plan
      (db.withSnapshot (reconcileSnapshotName target.cycle env.database.nowMs)) = .ok () inner) :
    ∃ db', commitOrRevert env target plan db = .ok true db' ∧ db'.toStore = inner.toStore := by
  rw [commitOrRevert_eq free, keepOrRevert, run]
  exact ⟨_, rfl, rfl⟩

omit [Field F] [AddCommGroup G] [Module F G] [DecidableEq G] in
theorem committed (env : ReconcileEnv F G) (target : ReconcileTarget) (plan : ReplayPlan)
    (db : Database) : Committed env target plan db (commitOrRevert env target plan db) := by
  by_cases free : reconcileSnapshotName target.cycle env.database.nowMs ∉ db.snapshots
  · have held := @keeps_reconcileInner_snapshot env.database target plan _ _
      (reconcileSnapshotName_not_checkpoint target.cycle env.database.nowMs)
      (db.withSnapshot (reconcileSnapshotName target.cycle env.database.nowMs))
      snapshots_withSnapshot_self
    rw [commitOrRevert_eq free]
    unfold keepOrRevert
    cases inner : reconcileInner env.database target plan
        (db.withSnapshot (reconcileSnapshotName target.cycle env.database.nowMs)) with
    | ok _ db' => exact .kept free inner rfl rfl rfl
    | error e db' =>
      rw [inner] at held
      have back : loadSnapshot _ db' = .ok () (db'.withColumns db.columns) := loadSnapshot_eq held
      dsimp only
      rw [back]
      refine .reverted ?_
      rw [endState_refreshCachedStateRoot]
      exact columns_commit env.database.sha256 _
  · rw [not_not] at free
    obtain ⟨e, failed⟩ := createSnapshot_of_mem free
    have stopped : commitOrRevert env target plan db = .error e db := bind_of_error failed
    rw [stopped]
    exact .taken

omit [Field F] [AddCommGroup G] [Module F G] [DecidableEq G] in
theorem columns_applyOntoHead {env : DatabaseEnv} {db' : Database}
    (run : applyOntoHead env target db = .ok false db') : db'.columns = db.columns := by
  unfold applyOntoHead at run
  split at run
  next =>
    have checked := rootChecked env target.lsu target.expectedPost
      { db with base := some (.head db.toStore) }
    generalize applyLsuWithRootCheckLocked env target.lsu target.expectedPost
      { db with base := some (.head db.toStore) } = result at checked run
    cases checked with
    | taken =>
      cases run
      rfl
    | skipped => simp at run
    | skippedOther =>
      cases run
      exact columns_commit env.sha256 _
    | applied => simp at run
    | reverted _ reverted =>
      cases run
      exact reverted.columns
  next =>
    cases run
    rfl

theorem columns_of_unsuccessful
    (failed : ∀ db', tryReconcileForkFromQuorumLsu env target db ≠ .ok true db') :
    (endState (tryReconcileForkFromQuorumLsu env target db)).columns = db.columns := by
  have outcome := reconciled env target db
  generalize tryReconcileForkFromQuorumLsu env target db = result at outcome failed
  cases outcome with
  | refused => rfl
  | already => rfl
  | onto => exact absurd rfl (failed _)
  | @unplanned db₁ db' _ _ onto planned =>
    have before := columns_applyOntoHead onto
    rcases planReplay_ok env target db₁ with ⟨db₂, planned', same⟩ | ⟨plan, planned'⟩
    · cases planned.symm.trans planned'
      exact same.trans before
    · cases planned.symm.trans planned'
  | @planned db₁ plan _ _ onto planned =>
    have before := columns_applyOntoHead onto
    have outcome := committed env target plan db₁
    generalize commitOrRevert env target plan db₁ = result at outcome failed
    cases outcome with
    | taken => exact before
    | reverted same => exact same.trans before
    | kept => exact absurd rfl (failed _)

end Paths

/-- What each operation that a reconcile is made of keeps, with updates of some kind that those on
record are of. -/
structure KeptByOperations (env : DatabaseEnv) (Q : LedgerStateUpdate → Prop)
    (P : Database → Prop) : Prop where
  congr : ∀ db db', db'.columns = db.columns → db'.snapshots = db.snapshots → P db → P db'
  create : ∀ name, Keeps P (createSnapshot name)
  load : ∀ name, Keeps P (loadSnapshot name)
  delete : ∀ name db, ¬IsCheckpointName name → P db → P (db.deleteSnapshot name)
  apply : ∀ lsu, Q lsu → Keeps P (applyLsuToDatabase env lsu)
  stored : ∀ db cycle lsu, P db → storedLsu env db.toStore cycle = .ok lsu → Q lsu
  purge : ∀ db, P db → P (purgeMutableChainStatePreservingLsuHistory db)
  restore : ∀ record localCycle, Keeps P (restoreReconcileFromCheckpoint record localCycle)

namespace KeptByOperations

variable {env : DatabaseEnv} {Q : LedgerStateUpdate → Prop} {P : Database → Prop}

theorem refresh (kept : KeptByOperations env Q P) : Keeps P (refreshCachedStateRoot env.sha256) := by
  intro db before
  rw [endState_refreshCachedStateRoot]
  exact kept.congr db _ (columns_commit env.sha256 db) rfl before

theorem applyLsuWithRootCheckLocked (kept : KeptByOperations env Q P) (lsu : LedgerStateUpdate)
    (own : Q lsu) (expected : Hash) :
    Keeps P (CatalystNode.applyLsuWithRootCheckLocked env lsu expected) := by
  have verify := verifySnapshotName_not_checkpoint lsu.cycleNumber env.nowMs
  refine (kept.create _).bind (fun _ => (kept.apply lsu own).bind (fun got => ?_))
  split
  next => exact Keeps.bind (fun db before => kept.delete _ db verify before) (fun _ => .pure true)
  next =>
    refine (kept.load _).bind (fun _ => Keeps.bind (fun db before => kept.refresh db before) ?_)
    exact fun _ => Keeps.bind (fun db before => kept.delete _ db verify before) (fun _ => .pure false)

theorem discardAppliedState (kept : KeptByOperations env Q P) (localCycle replayStart : UInt64) :
    Keeps P (CatalystNode.discardAppliedState env localCycle replayStart) := by
  refine Keeps.bind (fun db before => kept.purge db before) (fun _ => ?_)
  split
  next =>
    refine Keeps.bind (fun db before => before) (fun db => ?_)
    split
    next => exact .throw _
    next => exact kept.restore _ _
  next => exact kept.refresh

theorem replayToTarget (kept : KeptByOperations env Q P) (cycle : UInt64) (plan : ReplayPlan) :
    Keeps P (CatalystNode.replayToTarget env cycle plan) := by
  have replay : Keeps P ((cyclesBetween plan.replayStart cycle).forM (replayCycle env)) := by
    refine .forM (fun i _ db before => ?_)
    unfold replayCycle
    split
    next => exact before
    next lsu stored =>
      exact (kept.apply lsu (kept.stored db i lsu before stored)).bind (fun _ => .pure ()) db before
  have noted : Keeps P (modify (fun db : Database =>
      { db with base := some (.replayed plan.replayStart db.toStore) }) : DatabaseM PUnit) :=
    fun db before => kept.congr db _ rfl rfl before
  unfold CatalystNode.replayToTarget
  split
  next => exact (kept.discardAppliedState _ _).bind (fun _ => replay.bind (fun _ => noted))
  next => exact replay.bind (fun _ => noted)

theorem applyOntoHead (kept : KeptByOperations env Q P) (target : ReconcileTarget)
    (own : Q target.lsu) : Keeps P (CatalystNode.applyOntoHead env target) :=
  keeps_applyOntoHead (fun db _ before => kept.congr db _ rfl rfl before)
    (kept.applyLsuWithRootCheckLocked target.lsu own target.expectedPost)

variable {F G : Type} {renv : ReconcileEnv F G} {target : ReconcileTarget}

theorem recordFailure (kept : KeptByOperations renv.database Q P) (localCycle : UInt64) {db : Database}
    (before : P db) : P (db.recordFailure renv localCycle) :=
  kept.congr db _ rfl rfl before

theorem commitOrRevert (kept : KeptByOperations renv.database Q P) (own : Q target.lsu)
    (plan : ReplayPlan) : Keeps P (CatalystNode.commitOrRevert renv target plan) := by
  have other := reconcileSnapshotName_not_checkpoint target.cycle renv.database.nowMs
  refine (kept.create _).bind (fun _ db before => ?_)
  have inner := keeps_reconcileInner (kept.replayToTarget target.cycle plan)
    (kept.applyLsuWithRootCheckLocked target.lsu own target.expectedPost) db before
  unfold keepOrRevert
  cases run : reconcileInner renv.database target plan db with
  | ok _ db' =>
    rw [run] at inner
    have deleted := kept.delete _ db' other inner
    exact kept.congr (Database.deleteSnapshot _ db') _ rfl rfl deleted
  | error e db' =>
    rw [run] at inner
    have back := kept.load (reconcileSnapshotName target.cycle renv.database.nowMs) db' inner
    dsimp only
    split
    next load => rwa [load] at back
    next db'' load =>
      rw [load] at back
      exact kept.recordFailure _ (kept.delete _ _ other (kept.refresh db'' back))

variable [Field F] [AddCommGroup G] [Module F G] [DecidableEq G]

/-- What each of its operations keeps, a reconcile keeps. -/
theorem tryReconcile (kept : KeptByOperations renv.database Q P) (target : ReconcileTarget)
    (own : Q target.lsu) :
    Keeps P (tryReconcileForkFromQuorumLsu renv target) := by
  intro db before
  have start : P { db with base := none } := kept.congr db _ rfl rfl before
  have outcome := reconciled renv target db
  generalize tryReconcileForkFromQuorumLsu renv target db = result at outcome
  have onto := kept.applyOntoHead target own { db with base := none } start
  cases outcome with
  | refused => exact start
  | already => exact start
  | onto _ _ run => rwa [run] at onto
  | unplanned _ _ run planned =>
    rw [run] at onto
    rcases planReplay_eq_none planned with rfl | rfl
    · exact onto
    · exact kept.recordFailure _ onto
  | planned _ _ run _ =>
    rw [run] at onto
    exact kept.commitOrRevert own _ _ onto

end KeptByOperations

end CatalystNode
