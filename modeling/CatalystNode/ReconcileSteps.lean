import CatalystNode.DatabaseApply
import CatalystNode.Reconcile

namespace CatalystNode

open ByteVector HexCodec MachineInt Store Effects

structure Reverted (db db' : Database) : Prop where
  columns : db'.columns = db.columns
  snapshots : ∀ name, ¬IsCheckpointName name → db'.snapshots[name]? = db.snapshots[name]?
  failures : db'.failures = db.failures
  base : db'.base = db.base

section Snapshots

variable {db : Database} {name : String}

def Database.withSnapshot (name : String) (db : Database) : Database :=
  { db with snapshots := db.snapshots.insert name db.columns }

theorem createSnapshot_of_not_mem (free : name ∉ db.snapshots) :
    createSnapshot name db = .ok () (db.withSnapshot name) := if_neg free

theorem createSnapshot_of_mem (taken : name ∈ db.snapshots) :
    ∃ e, createSnapshot name db = .error e db := ⟨_, if_pos taken⟩

theorem loadSnapshot_eq {columns : Columns} (held : db.snapshots[name]? = some columns) :
    loadSnapshot name db = .ok () (db.withColumns columns) := by
  rw [loadSnapshot, held]

theorem snapshots_withSnapshot_self : (db.withSnapshot name).snapshots[name]? = some db.columns :=
  Std.ExtTreeMap.getElem?_insert_self

theorem snapshots_withSnapshot_of_ne {other : String} (apart : name ≠ other) :
    (db.withSnapshot name).snapshots[other]? = db.snapshots[other]? := by
  change (db.snapshots.insert name db.columns)[other]? = _
  rw [Std.ExtTreeMap.getElem?_insert, if_neg (by simpa using apart)]

theorem snapshots_deleteSnapshot {other : String} :
    (db.deleteSnapshot name).snapshots[other]? =
      if name = other then none else db.snapshots[other]? := by
  change (db.snapshots.erase name)[other]? = _
  rw [Std.ExtTreeMap.getElem?_erase]
  simp only [Std.LawfulEqCmp.compare_eq_iff_eq]

theorem snapshots_deleteSnapshot_of_kept (free : name ∉ db.snapshots) {db' : Database}
    {other : String} (kept : db'.snapshots[other]? = (db.withSnapshot name).snapshots[other]?) :
    (db'.deleteSnapshot name).snapshots[other]? = db.snapshots[other]? := by
  rw [snapshots_deleteSnapshot]
  split
  next same => rw [← same, Std.ExtTreeMap.getElem?_eq_none free]
  next apart => rw [kept, snapshots_withSnapshot_of_ne apart]

theorem deleteSnapshot_withSnapshot (free : name ∉ db.snapshots) :
    (db.withSnapshot name).deleteSnapshot name = db := by
  have same : ((db.withSnapshot name).deleteSnapshot name).snapshots = db.snapshots :=
    Std.ExtTreeMap.ext_getElem? (fun other => snapshots_deleteSnapshot_of_kept free rfl)
  have rest : (db.withSnapshot name).deleteSnapshot name =
      { db with snapshots := ((db.withSnapshot name).deleteSnapshot name).snapshots } := rfl
  rw [rest, same]

theorem endState_refreshCachedStateRoot (sha256 : Bytes → Hash) (db : Database) :
    endState (refreshCachedStateRoot sha256 db) =
      { db with toStore := (db.toStore.commit sha256).1 } := by
  unfold refreshCachedStateRoot
  dsimp only
  split <;> rfl

theorem refreshCachedStateRoot_eq (sha256 : Bytes → Hash) (db : Database) :
    ∃ root, computeRootFromIter sha256 db.accounts.toList = .ok root ∧
      refreshCachedStateRoot sha256 db = .ok () { db with currentStateRoot := some root } := by
  obtain ⟨-, -, -, root, -, built, -⟩ := computeRoots_spec sha256 db.accounts.toList
  refine ⟨root, built, ?_⟩
  simp only [refreshCachedStateRoot, Store.commit, built]

theorem commit_metadata (sha256 : Bytes → Hash) (store : Store) :
    (store.commit sha256).1.metadata = store.metadata := by
  unfold Store.commit
  split <;> rfl

theorem columns_commit (sha256 : Bytes → Hash) (db : Database) :
    ({ db with toStore := (db.toStore.commit sha256).1 } : Database).columns = db.columns := by
  simp only [Database.columns, commit_accounts, commit_metadata]

theorem not_isCheckpointName_append {tag : String}
    (apart : NamesApart [tag] ["consensus_checkpoint_"]) (rest : String) :
    ¬IsCheckpointName (tag ++ rest) :=
  fun checkpoint => not_underTag_append apart rest ⟨_, List.mem_singleton.mpr rfl, checkpoint⟩

theorem verifySnapshotName_not_checkpoint (cycle nowMs : UInt64) :
    ¬IsCheckpointName (verifySnapshotName cycle nowMs) := by
  change ¬IsCheckpointName ("verify_lsu_" ++ toString cycle ++ "_" ++ toString nowMs)
  rw [String.append_assoc, String.append_assoc]
  exact not_isCheckpointName_append (by decide) _

theorem reconcileSnapshotName_not_checkpoint (cycle nowMs : UInt64) :
    ¬IsCheckpointName (reconcileSnapshotName cycle nowMs) := by
  change ¬IsCheckpointName ("quorum_reconcile_c" ++ toString cycle ++ "_" ++ toString nowMs)
  rw [String.append_assoc, String.append_assoc]
  exact not_isCheckpointName_append (by decide) _

end Snapshots

section RootCheck

variable {env : DatabaseEnv} {lsu : LedgerStateUpdate} {expected : Hash} {db : Database}

inductive RootChecked (env : DatabaseEnv) (lsu : LedgerStateUpdate) (expected : Hash)
    (db : Database) : EStateM.Result ReconcileError Database Bool → Prop
  | taken {e} : verifySnapshotName lsu.cycleNumber env.nowMs ∈ db.snapshots →
      RootChecked env lsu expected db (.error e db)
  | skipped : verifySnapshotName lsu.cycleNumber env.nowMs ∉ db.snapshots →
      lsu.cycleNumber ≤ lastAppliedCycle db.toStore →
      db.currentStateRoot.getD (zeros 32) = expected →
      RootChecked env lsu expected db (.ok true db)
  | skippedOther : lsu.cycleNumber ≤ lastAppliedCycle db.toStore →
      db.currentStateRoot.getD (zeros 32) ≠ expected →
      RootChecked env lsu expected db
        (.ok false { db with toStore := (db.toStore.commit env.sha256).1 })
  | applied {db'} : lastAppliedCycle db.toStore < lsu.cycleNumber →
      Applied env lsu expected db db' → RootChecked env lsu expected db (.ok true db')
  | reverted {db'} : lastAppliedCycle db.toStore < lsu.cycleNumber → Reverted db db' →
      RootChecked env lsu expected db (.ok false db')

theorem applyLsuWithRootCheckLocked_eq (free : verifySnapshotName lsu.cycleNumber env.nowMs ∉
      db.snapshots) {root : Hash} {after : Database}
    (run : applyLsuToDatabase env lsu
      (db.withSnapshot (verifySnapshotName lsu.cycleNumber env.nowMs)) = .ok root after) :
    applyLsuWithRootCheckLocked env lsu expected db =
      if root = expected then
        .ok true (after.deleteSnapshot (verifySnapshotName lsu.cycleNumber env.nowMs))
      else .ok false (Database.deleteSnapshot (verifySnapshotName lsu.cycleNumber env.nowMs)
        { after.withColumns db.columns with
          toStore := ((after.withColumns db.columns).toStore.commit env.sha256).1 }) := by
  have kept : after.snapshots[verifySnapshotName lsu.cycleNumber env.nowMs]? = some db.columns := by
    by_cases below : lsu.cycleNumber ≤ lastAppliedCycle db.toStore
    · cases (@applyLsuToDatabase_skip env lsu (db.withSnapshot _) below).symm.trans run
      exact snapshots_withSnapshot_self
    · obtain ⟨_, _, run', applied⟩ :=
        @applyLsuToDatabase_apply env lsu (db.withSnapshot _) (UInt64.not_le.mp below)
      cases run'.symm.trans run
      exact (applied.snapshots _ (verifySnapshotName_not_checkpoint _ _)).trans
        snapshots_withSnapshot_self
  unfold applyLsuWithRootCheckLocked
  dsimp only
  rw [bind_of_ok (createSnapshot_of_not_mem free), bind_of_ok run]
  split
  next => rfl
  next =>
    rw [bind_of_ok (loadSnapshot_eq kept), ← endState_refreshCachedStateRoot]
    rfl

theorem applyLsuWithRootCheckLocked_taken
    (taken : verifySnapshotName lsu.cycleNumber env.nowMs ∈ db.snapshots) :
    ∃ e, applyLsuWithRootCheckLocked env lsu expected db = .error e db := by
  obtain ⟨e, failed⟩ := createSnapshot_of_mem taken
  exact ⟨e, bind_of_error failed⟩

theorem free_of_rootCheck {kept : Bool} {db' : Database}
    (run : applyLsuWithRootCheckLocked env lsu expected db = .ok kept db') :
    verifySnapshotName lsu.cycleNumber env.nowMs ∉ db.snapshots := by
  intro taken
  obtain ⟨e, stopped⟩ := applyLsuWithRootCheckLocked_taken taken
  cases run.symm.trans stopped

theorem rootChecked (env : DatabaseEnv) (lsu : LedgerStateUpdate) (expected : Hash)
    (db : Database) :
    RootChecked env lsu expected db (applyLsuWithRootCheckLocked env lsu expected db) := by
  by_cases free : verifySnapshotName lsu.cycleNumber env.nowMs ∉ db.snapshots
  · by_cases below : lsu.cycleNumber ≤ lastAppliedCycle db.toStore
    · have skip := @applyLsuToDatabase_skip env lsu
        (db.withSnapshot (verifySnapshotName lsu.cycleNumber env.nowMs)) below
      rw [applyLsuWithRootCheckLocked_eq free skip]
      split
      next same =>
        rw [deleteSnapshot_withSnapshot free]
        exact .skipped free below same
      next other =>
        have back : Database.deleteSnapshot (verifySnapshotName lsu.cycleNumber env.nowMs)
            { (db.withSnapshot (verifySnapshotName lsu.cycleNumber env.nowMs)) with
              toStore := (db.toStore.commit env.sha256).1 } =
            { db with toStore := (db.toStore.commit env.sha256).1 } :=
          congrArg (fun d : Database => { d with toStore := (db.toStore.commit env.sha256).1 })
            (deleteSnapshot_withSnapshot free)
        exact back ▸ .skippedOther below other
    · have above := UInt64.not_le.mp below
      obtain ⟨root, after, run, applied⟩ := @applyLsuToDatabase_apply env lsu
        (db.withSnapshot (verifySnapshotName lsu.cycleNumber env.nowMs)) above
      rw [applyLsuWithRootCheckLocked_eq free run]
      have snapshots : ∀ name, ¬IsCheckpointName name →
          (after.deleteSnapshot (verifySnapshotName lsu.cycleNumber env.nowMs)).snapshots[name]? =
            db.snapshots[name]? :=
        fun name other => snapshots_deleteSnapshot_of_kept free (applied.snapshots name other)
      split
      next same =>
        subst same
        exact .applied above ⟨applied.accounts, applied.cachedRoot, applied.head, applied.history,
          applied.records, snapshots, applied.failures, applied.base⟩
      next => exact .reverted above ⟨columns_commit env.sha256 _, snapshots, applied.failures,
          applied.base⟩
  · rw [not_not] at free
    obtain ⟨e, stopped⟩ := @applyLsuWithRootCheckLocked_taken env lsu expected db free
    rw [stopped]
    exact .taken free

theorem applyLsuWithRootCheckLocked_skip
    (free : verifySnapshotName lsu.cycleNumber env.nowMs ∉ db.snapshots)
    (below : lsu.cycleNumber ≤ lastAppliedCycle db.toStore)
    (same : db.currentStateRoot.getD (zeros 32) = expected) :
    applyLsuWithRootCheckLocked env lsu expected db = .ok true db := by
  have checked := rootChecked env lsu expected db
  generalize applyLsuWithRootCheckLocked env lsu expected db = result at checked
  cases checked with
  | taken taken => exact absurd taken free
  | skipped => rfl
  | skippedOther _ other => exact absurd same other
  | applied above => exact absurd above (UInt64.not_lt.mpr below)
  | reverted above => exact absurd above (UInt64.not_lt.mpr below)

theorem keeps_applyLsuToDatabase {P : Database → Prop}
    (step : ∀ root db db', lastAppliedCycle db.toStore < lsu.cycleNumber →
      Applied env lsu root db db' → P db → P db') : Keeps P (applyLsuToDatabase env lsu) := by
  intro db before
  by_cases below : lsu.cycleNumber ≤ lastAppliedCycle db.toStore
  · rw [applyLsuToDatabase_skip below]
    exact before
  · obtain ⟨root, db', run, applied⟩ := @applyLsuToDatabase_apply env lsu db
      (UInt64.not_le.mp below)
    rw [run]
    exact step root db db' (UInt64.not_le.mp below) applied before

end RootCheck

section Replay

variable {env : DatabaseEnv} {db : Database}

theorem storedLsu_eq_ok {store : Store} {cycle : UInt64} {lsu : LedgerStateUpdate} :
    storedLsu env store cycle = .ok lsu ↔
      (∃ bytes, store.getMetadata (lsuKey cycle) = some bytes ∧ deserialize bytes = some lsu) ∧
        lsu.cycleNumber = cycle ∧
        ∀ recorded, (store.getMetadata (lsuHashKey cycle)).bind (toArray? 32) = some recorded →
          hashData env.tx.blake2b512 lsu = recorded := by
  unfold storedLsu
  cases store.getMetadata (lsuKey cycle) with
  | none => simp
  | some bytes =>
    dsimp only
    cases decoded : (deserialize bytes : Option LedgerStateUpdate) with
    | none => simp [decoded]
    | some other =>
      dsimp only
      by_cases numbered : other.cycleNumber = cycle
      · rw [if_neg (not_not.mpr numbered)]
        cases (store.getMetadata (lsuHashKey cycle)).bind (toArray? 32) with
        | none =>
          constructor
          · rintro ⟨⟩
            exact ⟨⟨bytes, rfl, decoded⟩, numbered, nofun⟩
          · rintro ⟨⟨_, ⟨⟩, same⟩, -, -⟩
            cases decoded.symm.trans same
            rfl
        | some recorded =>
          dsimp only
          by_cases hashed : hashData env.tx.blake2b512 other = recorded
          · rw [if_neg (not_not.mpr hashed)]
            constructor
            · rintro ⟨⟩
              refine ⟨⟨bytes, rfl, decoded⟩, numbered, ?_⟩
              rintro _ ⟨⟩
              exact hashed
            · rintro ⟨⟨_, ⟨⟩, same⟩, -, -⟩
              cases decoded.symm.trans same
              rfl
          · rw [if_pos hashed]
            constructor
            · nofun
            · rintro ⟨⟨_, ⟨⟩, same⟩, -, matching⟩
              cases decoded.symm.trans same
              exact absurd (matching recorded rfl) hashed
      · rw [if_pos numbered]
        constructor
        · nofun
        · rintro ⟨⟨_, ⟨⟩, same⟩, own, -⟩
          cases decoded.symm.trans same
          exact absurd own numbered

theorem storedLsu_cycle {store : Store} {cycle : UInt64} {lsu : LedgerStateUpdate}
    (stored : storedLsu env store cycle = .ok lsu) : lsu.cycleNumber = cycle :=
  (storedLsu_eq_ok.mp stored).2.1

theorem replayCycle_of_stored {cycle : UInt64} {lsu : LedgerStateUpdate}
    (stored : storedLsu env db.toStore cycle = .ok lsu) :
    replayCycle env cycle db = (applyLsuToDatabase env lsu >>= fun _ => pure ()) db := by
  rw [replayCycle, stored]

theorem keeps_replayCycle {P : Database → Prop} {cycle : UInt64}
    (step : ∀ lsu root db db', lsu.cycleNumber = cycle → Applied env lsu root db db' →
      P db → P db') : Keeps P (replayCycle env cycle) := by
  intro db before
  cases stored : storedLsu env db.toStore cycle with
  | error e =>
    rw [replayCycle, stored]
    exact before
  | ok lsu =>
    rw [replayCycle_of_stored stored]
    exact (keeps_applyLsuToDatabase (fun root db db' _ applied =>
      step lsu root db db' (storedLsu_cycle stored) applied)).bind (fun _ => .pure ()) db before

theorem mem_cyclesBetween {first stop cycle : UInt64} :
    cycle ∈ cyclesBetween first stop ↔ first ≤ cycle ∧ cycle < stop := by
  have bound := stop.toNat_lt
  rw [cyclesBetween, List.mem_map, UInt64.le_iff_toNat_le, UInt64.lt_iff_toNat_lt]
  constructor
  · rintro ⟨n, inside, rfl⟩
    rw [List.mem_range'_1] at inside
    rw [UInt64.toNat_ofNat', Nat.mod_eq_of_lt (by omega)]
    omega
  · intro inside
    exact ⟨cycle.toNat, List.mem_range'_1.mpr (by omega), UInt64.ofNat_toNat⟩

theorem keeps_replay_below {first cycle : UInt64} :
    Keeps (fun db : Database => lastAppliedCycle db.toStore < cycle)
      ((cyclesBetween first cycle).forM (replayCycle env)) := by
  refine .forM (fun i inside => keeps_replayCycle ?_)
  intro lsu root db db' numbered applied _
  rw [applied.head.lastAppliedCycle_eq, numbered]
  exact (mem_cyclesBetween.mp inside).2

theorem keeps_replay_snapshot {cycles : List UInt64} {name : String} {held : Option Columns}
    (other : ¬IsCheckpointName name) :
    Keeps (fun db : Database => db.snapshots[name]? = held) (cycles.forM (replayCycle env)) :=
  .forM (fun _ _ => keeps_replayCycle (fun _ _ _ _ _ applied before =>
    (applied.snapshots name other).trans before))

/-- On a head above all of them, a replay of cycles only looks at their records. -/
theorem replay_skips_iff {cycles : List UInt64}
    (below : ∀ i ∈ cycles, i ≤ lastAppliedCycle db.toStore) {db' : Database} :
    cycles.forM (replayCycle env) db = .ok () db' ↔
      db' = db ∧ ∀ i ∈ cycles, ∃ lsu, storedLsu env db.toStore i = .ok lsu := by
  induction cycles with
  | nil => exact ⟨fun run => by cases run; exact ⟨rfl, by simp⟩, fun ⟨same, _⟩ => same ▸ rfl⟩
  | cons i cycles ih =>
    have rest := ih (fun j hj => below j (List.mem_cons_of_mem i hj))
    change (replayCycle env i >>= fun _ => cycles.forM (replayCycle env)) db = _ ↔ _
    cases stored : storedLsu env db.toStore i with
    | error e =>
      have failed : replayCycle env i db = .error e db := by rw [replayCycle, stored]
      rw [bind_of_error failed]
      simp [stored]
    | ok lsu =>
      have skip : applyLsuToDatabase env lsu db = .ok _ db := applyLsuToDatabase_skip
        ((storedLsu_cycle stored).symm ▸ below i List.mem_cons_self)
      have step : replayCycle env i db = .ok () db := by
        rw [replayCycle_of_stored stored, bind_of_ok skip]
        rfl
      rw [bind_of_ok step, rest]
      simp [stored]

/-- Discarding the applied state changes contents only: snapshots stay, and so does what the process
remembers. -/
theorem keeps_discardAppliedState {P : Database → Prop} {localCycle replayStart : UInt64}
    (step : ∀ db db', db'.snapshots = db.snapshots → db'.base = db.base → P db → P db') :
    Keeps P (discardAppliedState env localCycle replayStart) := by
  have load : ∀ name, Keeps P (loadSnapshot name) := by
    intro name db before
    unfold loadSnapshot
    split
    next => exact before
    next => exact step db _ rfl rfl before
  refine Keeps.bind (fun db before => step db _ rfl rfl before) (fun _ => ?_)
  split
  next =>
    refine Keeps.bind (fun db before => before) (fun db => ?_)
    split
    next => exact .throw _
    next cp _ =>
      refine Keeps.bind (fun db before => before) (fun db => ?_)
      exact (load cp.snapshotName).bind (fun _ db before => step db _ rfl rfl before)
  next =>
    intro db before
    rw [endState_refreshCachedStateRoot]
    exact step db _ rfl rfl before

theorem keeps_replayToTarget {cycle : UInt64} {plan : ReplayPlan} {name : String}
    {held : Option Columns} (other : ¬IsCheckpointName name) :
    Keeps (fun db : Database => db.snapshots[name]? = held) (replayToTarget env cycle plan) := by
  have discard : Keeps (fun db : Database => db.snapshots[name]? = held)
      (discardAppliedState env plan.localCycle plan.replayStart) :=
    keeps_discardAppliedState (fun _ _ same _ before => (congrArg (·[name]?) same).trans before)
  unfold replayToTarget
  split
  next => exact discard.bind (fun _ => (keeps_replay_snapshot other).bind (fun _ db before => before))
  next => exact (keeps_replay_snapshot other).bind (fun _ db before => before)

theorem keeps_applyLsuWithRootCheckLocked {P : Database → Prop} {lsu : LedgerStateUpdate}
    {expected : Hash} (forward : ∀ root db db', Applied env lsu root db db' → P db → P db')
    (back : ∀ db db', Reverted db db' → P db → P db') :
    Keeps P (applyLsuWithRootCheckLocked env lsu expected) := by
  intro db before
  have checked := rootChecked env lsu expected db
  generalize applyLsuWithRootCheckLocked env lsu expected db = result at checked
  cases checked with
  | taken => exact before
  | skipped => exact before
  | skippedOther =>
    exact back db _ ⟨columns_commit env.sha256 db, fun _ _ => rfl, rfl, rfl⟩ before
  | applied _ applied => exact forward expected db _ applied before
  | reverted _ reverted => exact back db _ reverted before

theorem keeps_applyOntoHead {P : Database → Prop} {target : ReconcileTarget}
    (rebase : ∀ db base, P db → P { db with base })
    (checked : Keeps P (applyLsuWithRootCheckLocked env target.lsu target.expectedPost)) :
    Keeps P (applyOntoHead env target) := by
  intro db before
  have after := checked { db with base := some (.head db.toStore) } (rebase db _ before)
  unfold applyOntoHead
  split
  next =>
    split
    next run => rwa [run] at after
    next run => rwa [run] at after
  next => exact before

/-- After its replay a reconcile checks a root and makes one root-checked apply. -/
theorem endState_reconcileInner {P : Database → Prop} {target : ReconcileTarget} {plan : ReplayPlan}
    {reached : Database} (run : replayToTarget env target.cycle plan db = .ok () reached)
    (last : Keeps P (applyLsuWithRootCheckLocked env target.lsu target.expectedPost))
    (here : P reached) : P (endState (reconcileInner env target plan db)) := by
  have check : Keeps P (applyLsuWithRootCheckLocked env target.lsu target.expectedPost >>=
      fun applied => if ¬applied = true then throw ReconcileError.finalRootMismatch
        else pure ()) := by
    refine last.bind (fun applied => ?_)
    split
    next => exact .throw _
    next => exact .pure _
  unfold reconcileInner
  rw [bind_of_ok run, get_bind]
  dsimp only
  split
  next => exact Keeps.bind (.throw _) (fun _ => check) reached here
  next => exact check reached here

theorem keeps_reconcileInner {P : Database → Prop} {target : ReconcileTarget} {plan : ReplayPlan}
    (replay : Keeps P (replayToTarget env target.cycle plan))
    (last : Keeps P (applyLsuWithRootCheckLocked env target.lsu target.expectedPost)) :
    Keeps P (reconcileInner env target plan) := by
  intro db before
  have after := replay db before
  cases run : replayToTarget env target.cycle plan db with
  | ok _ reached =>
    rw [run] at after
    exact endState_reconcileInner run last after
  | error e stopped =>
    have whole : reconcileInner env target plan db = .error e stopped := bind_of_error run
    rw [run] at after
    rw [whole]
    exact after

theorem keeps_reconcileInner_snapshot {target : ReconcileTarget} {plan : ReplayPlan} {name : String}
    {held : Option Columns} (other : ¬IsCheckpointName name) :
    Keeps (fun db : Database => db.snapshots[name]? = held) (reconcileInner env target plan) :=
  keeps_reconcileInner (keeps_replayToTarget other) (keeps_applyLsuWithRootCheckLocked
    (fun _ _ _ applied before => (applied.snapshots name other).trans before)
    (fun _ _ reverted before => (reverted.snapshots name other).trans before))

end Replay

end CatalystNode
