import CatalystNode.Checkpoints
import CatalystNode.LedgerReplay

namespace CatalystNode

open ByteVector HexCodec MachineInt Store Effects

def DatabaseEnv.atTime (env : DatabaseEnv) (nowMs : UInt64) : DatabaseEnv := { env with nowMs }

def applyTags : List String :=
  "tx:meta:" :: "consensus:last_applied_" :: "consensus:checkpoint:" :: bookkeepingTags

def recordTags : List String := "tx:meta:" :: "consensus:last_applied_" :: bookkeepingTags

def KeptOrPruned (name : String) (before after : Option Bytes) : Prop :=
  after = before ∨ UnderTag prunedTags name ∧ after = none

theorem KeptOrPruned.eq {name : String} {before after : Option Bytes}
    (kept : KeptOrPruned name before after) (lasting : ¬UnderTag prunedTags name) :
    after = before :=
  kept.resolve_right (fun gone => lasting gone.1)

section Record

variable {env : ApplyEnv} {lsu : LedgerStateUpdate} {store : Store} {name : String}

theorem getMetadata_writeReceipt {cycle : UInt64} {lsuHash stateRoot : Hash}
    {outcomes : Std.ExtTreeMap Bytes ApplyOutcome} (other : ¬UnderTag ["tx:meta:"] name)
    (store : Store) (txid : Hash) :
    (writeReceipt env cycle lsuHash stateRoot outcomes store txid).getMetadata name =
      store.getMetadata name := by
  unfold writeReceipt
  dsimp only
  split
  next => rfl
  next =>
    apply getMetadata_setMetadata_of_ne
    rintro rfl
    exact other (underTag_append (List.mem_singleton.mpr rfl) _)

theorem getMetadata_persistAppliedHead {lsuHash stateRoot : Hash}
    (other : ¬UnderTag ["consensus:last_applied_"] name) :
    (persistAppliedHead lsu lsuHash stateRoot store).getMetadata name = store.getMetadata name := by
  have apart : ∀ key, UnderTag ["consensus:last_applied_"] key → key ≠ name := by
    rintro key under rfl
    exact other under
  unfold persistAppliedHead
  rw [getMetadata_setMetadata_of_ne _ _ (apart _ (by decide)),
    getMetadata_setMetadata_of_ne _ _ (apart _ (by decide)),
    getMetadata_setMetadata_of_ne _ _ (apart _ (by decide))]

theorem getMetadata_persistAppliedHistory {lsuHash : Hash} (update : name ≠ lsuKey lsu.cycleNumber)
    (hash : name ≠ lsuHashKey lsu.cycleNumber) :
    (persistAppliedHistory lsu lsuHash store).getMetadata name = store.getMetadata name :=
  (getMetadata_setMetadata_of_ne _ _ (Ne.symm hash)).trans
    (getMetadata_setMetadata_of_ne _ _ (Ne.symm update))

structure HeadAt (cycle : UInt64) (lsuHash stateRoot : Hash) (store : Store) : Prop where
  cycle : store.getMetadata "consensus:last_applied_cycle" = some (encodeU64 cycle)
  lsuHash : store.getMetadata "consensus:last_applied_lsu_hash" = some lsuHash.toList
  stateRoot : store.getMetadata "consensus:last_applied_state_root" = some stateRoot.toList

theorem HeadAt.congr {cycle : UInt64} {lsuHash stateRoot : Hash} {s t : Store}
    (head : HeadAt cycle lsuHash stateRoot s)
    (same : ∀ name, UnderTag ["consensus:last_applied_"] name →
      t.getMetadata name = s.getMetadata name) : HeadAt cycle lsuHash stateRoot t :=
  ⟨(same _ (by decide)).trans head.cycle, (same _ (by decide)).trans head.lsuHash,
    (same _ (by decide)).trans head.stateRoot⟩

theorem headAt_persistAppliedHead (lsu : LedgerStateUpdate) (lsuHash stateRoot : Hash)
    (store : Store) :
    HeadAt lsu.cycleNumber lsuHash stateRoot (persistAppliedHead lsu lsuHash stateRoot store) := by
  unfold persistAppliedHead
  refine ⟨?_, ?_, getMetadata_setMetadata_self _ _ _⟩
  · rw [getMetadata_setMetadata_of_ne _ _ (by decide), getMetadata_setMetadata_of_ne _ _ (by decide),
      getMetadata_setMetadata_self]
  · rw [getMetadata_setMetadata_of_ne _ _ (by decide), getMetadata_setMetadata_self]

theorem lsuKey_not_underTag {tags : List String} (apart : NamesApart ["consensus:lsu:"] tags)
    (cycle : UInt64) : ¬UnderTag tags (lsuKey cycle) :=
  not_underTag_append apart _

theorem lsuHashKey_not_underTag {tags : List String}
    (apart : NamesApart ["consensus:lsu_hash:"] tags) (cycle : UInt64) :
    ¬UnderTag tags (lsuHashKey cycle) :=
  not_underTag_append apart _

end Record

section RecordApplied

variable (env : DatabaseEnv) (lsu : LedgerStateUpdate) (root : Hash)
  (outcomes : Std.ExtTreeMap Bytes ApplyOutcome) (store : Store)

def recordedBeforePruning : Store :=
  let lsuHash := hashData env.tx.blake2b512 lsu
  persistAppliedHistory lsu lsuHash (persistAppliedHead lsu lsuHash root
    ((loadCycleTxids env.toApplyEnv store lsu.cycleNumber).foldl
      (writeReceipt env.toApplyEnv lsu.cycleNumber lsuHash root outcomes) store))

theorem prunedTo_recordApplied :
    PrunedTo (recordedBeforePruning env lsu root outcomes store)
      (recordApplied env.applying lsu root outcomes store) :=
  prunedTo_housekeeping env _ _ _ _

theorem recordedBeforePruning_head :
    HeadAt lsu.cycleNumber (hashData env.tx.blake2b512 lsu) root
      (recordedBeforePruning env lsu root outcomes store) := by
  have written := headAt_persistAppliedHead lsu (hashData env.tx.blake2b512 lsu) root
    ((loadCycleTxids env.toApplyEnv store lsu.cycleNumber).foldl
      (writeReceipt env.toApplyEnv lsu.cycleNumber (hashData env.tx.blake2b512 lsu) root outcomes)
      store)
  refine written.congr (fun name head => ?_)
  exact getMetadata_persistAppliedHistory
    (fun same => lsuKey_not_underTag (by decide) _ (same ▸ head))
    (fun same => lsuHashKey_not_underTag (by decide) _ (same ▸ head))

theorem recordedBeforePruning_records {name : String}
    (other : ¬UnderTag ["tx:meta:", "consensus:last_applied_"] name)
    (update : name ≠ lsuKey lsu.cycleNumber) (hash : name ≠ lsuHashKey lsu.cycleNumber) :
    (recordedBeforePruning env lsu root outcomes store).getMetadata name = store.getMetadata name := by
  have outside : ∀ {tags}, tags ⊆ ["tx:meta:", "consensus:last_applied_"] → ¬UnderTag tags name :=
    fun sub under => other (under.mono sub)
  have receipts := FoldTrace.foldl_invariant (P := fun s : Store =>
      s.getMetadata name = store.getMetadata name)
    (l := loadCycleTxids env.toApplyEnv store lsu.cycleNumber)
    (f := writeReceipt env.toApplyEnv lsu.cycleNumber (hashData env.tx.blake2b512 lsu) root outcomes)
    rfl (fun s txid _ same => (getMetadata_writeReceipt (outside (by simp)) s txid).trans same)
  exact ((getMetadata_persistAppliedHistory update hash).trans
    (getMetadata_persistAppliedHead (outside (by simp)))).trans receipts

theorem recordApplied_head :
    HeadAt lsu.cycleNumber (hashData env.tx.blake2b512 lsu) root
      (recordApplied env.applying lsu root outcomes store) := by
  refine (recordedBeforePruning_head env lsu root outcomes store).congr (fun name head => ?_)
  have kept := (prunedTo_recordApplied env lsu root outcomes store).records name
    (head.not_of_apart (by decide))
  exact KeptOrPruned.eq kept (head.not_of_apart (by decide))

theorem recordApplied_history :
    KeptOrPruned (lsuKey lsu.cycleNumber) (some (serialize lsu))
      ((recordApplied env.applying lsu root outcomes store).getMetadata
        (lsuKey lsu.cycleNumber)) := by
  have written : (recordedBeforePruning env lsu root outcomes store).getMetadata
      (lsuKey lsu.cycleNumber) = some (serialize lsu) := by
    have apart : lsuHashKey lsu.cycleNumber ≠ lsuKey lsu.cycleNumber := lsuKey_ne_lsuHashKey.symm
    exact (getMetadata_setMetadata_of_ne _ _ apart).trans (getMetadata_setMetadata_self _ _ _)
  rw [← written]
  exact (prunedTo_recordApplied env lsu root outcomes store).records _
    (lsuKey_not_underTag (by decide) _)

theorem recordApplied_records {name : String} (other : ¬UnderTag recordTags name)
    (update : name ≠ lsuKey lsu.cycleNumber) (hash : name ≠ lsuHashKey lsu.cycleNumber) :
    KeptOrPruned name (store.getMetadata name)
      ((recordApplied env.applying lsu root outcomes store).getMetadata name) := by
  have outside : ∀ {tags}, tags ⊆ recordTags → ¬UnderTag tags name :=
    fun sub under => other (under.mono sub)
  have written := recordedBeforePruning_records env lsu root outcomes store
    (outside (by simp [recordTags])) update hash
  rw [← written]
  exact (prunedTo_recordApplied env lsu root outcomes store).records name
    (outside (by decide))

theorem recordApplied_root :
    (recordApplied env.applying lsu root outcomes store).currentStateRoot =
      store.currentStateRoot := by
  refine FoldTrace.foldl_invariant (P := fun s : Store =>
    s.currentStateRoot = store.currentStateRoot) rfl ?_
  intro s txid _ same
  rw [← same]
  unfold writeReceipt
  dsimp only
  split <;> rfl

end RecordApplied

def IsCheckpointName (name : String) : Prop := "consensus_checkpoint_".toList <+: name.toList

section Checkpoint

variable {env : DatabaseEnv} {lsu : LedgerStateUpdate} {root : Hash} {db : Database}

structure Checkpointed (db db' : Database) : Prop where
  accounts : db'.accounts = db.accounts
  cachedRoot : db'.currentStateRoot = db.currentStateRoot
  records : ∀ name, ¬UnderTag ["consensus:checkpoint:"] name →
    db'.getMetadata name = db.getMetadata name
  stray : db'.stray = db.stray
  others : db'.others = db.others
  snapshots : ∀ name, ¬IsCheckpointName name → db'.snapshots[name]? = db.snapshots[name]?
  failures : db'.failures = db.failures
  base : db'.base = db.base

theorem Checkpointed.refl (db : Database) : Checkpointed db db :=
  ⟨rfl, rfl, fun _ _ => rfl, rfl, rfl, fun _ _ => rfl, rfl, rfl⟩

theorem snapshotNameForCycle_isCheckpointName (cycle : UInt64) :
    IsCheckpointName (snapshotNameForCycle cycle) := by
  change "consensus_checkpoint_".toList <+: ("consensus_checkpoint_" ++ toString cycle).toList
  rw [String.toList_append]
  exact List.prefix_append _ _

theorem checkpointed_writeCheckpoint (cycle : UInt64) (stateRoot lsuHash : Hash) (db : Database) :
    Checkpointed db (endState (writeCheckpoint cycle stateRoot lsuHash db)) := by
  by_cases taken : snapshotNameForCycle cycle ∈ db.snapshots
  · have failed : createSnapshot (snapshotNameForCycle cycle) db = .error _ db := if_pos taken
    rw [writeCheckpoint, bind_of_error failed]
    exact .refl db
  · have created : createSnapshot (snapshotNameForCycle cycle) db = .ok () _ := if_neg taken
    rw [writeCheckpoint, bind_of_ok created]
    refine ⟨rfl, rfl, fun name other => ?_, rfl, rfl, fun name other => ?_, rfl, rfl⟩
    · have apart : ∀ key, UnderTag ["consensus:checkpoint:"] key → key ≠ name := by
        rintro key under rfl
        exact other under
      exact (getMetadata_setMetadata_of_ne _ _ (apart _ (by decide))).trans
        (getMetadata_setMetadata_of_ne _ _ (apart _ (underTag_append (List.mem_singleton.mpr rfl) _)))
    · change (db.snapshots.insert _ _)[name]? = _
      rw [Std.ExtTreeMap.getElem?_insert, if_neg]
      rw [Std.LawfulEqCmp.compare_eq_iff_eq]
      rintro rfl
      exact other (snapshotNameForCycle_isCheckpointName cycle)

theorem checkpointed_checkpointAfterApply :
    Checkpointed db (checkpointAfterApply env lsu root db) := by
  unfold checkpointAfterApply
  dsimp only
  split
  next =>
    unfold maybeWriteCheckpointAfterApply
    split
    next => exact checkpointed_writeCheckpoint _ _ _ db
    next => exact .refl db
  next =>
    obtain ⟨accounts, cachedRoot, records, stray, others, snapshots, failures, base⟩ :=
      checkpointed_writeCheckpoint lsu.cycleNumber root (hashData env.tx.blake2b512 lsu)
        { db with startupCheckpointWritten := true }
    exact ⟨accounts, cachedRoot, records, stray, others, snapshots, failures, base⟩

end Checkpoint

structure Applied (env : DatabaseEnv) (lsu : LedgerStateUpdate) (root : Hash) (db db' : Database) :
    Prop where
  accounts : db'.accounts = (applyLedger env.toApplyEnv db.toStore lsu).1.accounts
  cachedRoot : db'.currentStateRoot = some root
  head : HeadAt lsu.cycleNumber (hashData env.tx.blake2b512 lsu) root db'.toStore
  history : KeptOrPruned (lsuKey lsu.cycleNumber) (some (serialize lsu))
    (db'.getMetadata (lsuKey lsu.cycleNumber))
  records : ∀ name, ¬UnderTag applyTags name → name ≠ lsuKey lsu.cycleNumber →
    name ≠ lsuHashKey lsu.cycleNumber →
    KeptOrPruned name ((applyLedger env.toApplyEnv db.toStore lsu).1.getMetadata name)
      (db'.getMetadata name)
  snapshots : ∀ name, ¬IsCheckpointName name → db'.snapshots[name]? = db.snapshots[name]?
  failures : db'.failures = db.failures
  base : db'.base = db.base

section Apply

variable {env : DatabaseEnv} {lsu : LedgerStateUpdate} {db : Database}

theorem applyLsuToDatabase_skip (below : lsu.cycleNumber ≤ lastAppliedCycle db.toStore) :
    applyLsuToDatabase env lsu db = .ok (db.currentStateRoot.getD (zeros 32)) db := by
  have skipped : applyLsuToStorageLocked env.applying db.toStore lsu =
      (db.toStore, .ok (db.currentStateRoot.getD (zeros 32))) := if_pos below
  simp only [applyLsuToDatabase, skipped, if_pos below]

theorem applyLsuToDatabase_apply (above : lastAppliedCycle db.toStore < lsu.cycleNumber) :
    ∃ root db', applyLsuToDatabase env lsu db = .ok root db' ∧ Applied env lsu root db db' := by
  obtain ⟨-, -, -, root, -, built, -⟩ :=
    computeRoots_spec env.sha256 (applyLedger env.toApplyEnv db.toStore lsu).1.accounts.toList
  let ledger := applyLedger env.toApplyEnv db.toStore lsu
  let committed : Store := { ledger.1 with currentStateRoot := some root }
  let recorded := recordApplied env.applying lsu root ledger.2 committed
  have applied : applyLsuToStorageLocked env.applying db.toStore lsu = (recorded, .ok root) :=
    applyLsuToStorageLocked_eq above built
  refine ⟨root, checkpointAfterApply env lsu root { db with toStore := recorded }, ?_, ?_⟩
  · simp only [applyLsuToDatabase, applied, if_neg (UInt64.not_le.mpr above)]
  · obtain ⟨accounts, cachedRoot, records, -, -, snapshots, failures, base⟩ :=
      @checkpointed_checkpointAfterApply env lsu root { db with toStore := recorded }
    refine ⟨?_, ?_, ?_, ?_, fun name other update hash => ?_, snapshots, failures, base⟩
    · exact accounts.trans (recordApplied_accounts env.applying lsu root ledger.2 committed)
    · exact cachedRoot.trans (recordApplied_root env lsu root ledger.2 committed)
    · refine (recordApplied_head env lsu root ledger.2 committed).congr (fun name head => ?_)
      exact records name (head.not_of_apart (by decide))
    · rw [records _ (lsuKey_not_underTag (by decide) _)]
      exact recordApplied_history env lsu root ledger.2 committed
    · rw [records name (fun checkpoint => other (checkpoint.mono (by simp [applyTags])))]
      exact recordApplied_records env lsu root ledger.2 committed
        (fun recorded => other (recorded.mono (by decide))) update hash

theorem HeadAt.lastAppliedCycle_eq {cycle : UInt64} {lsuHash stateRoot : Hash} {store : Store}
    (head : HeadAt cycle lsuHash stateRoot store) : lastAppliedCycle store = cycle := by
  rw [lastAppliedCycle, head.cycle, Option.bind_some, decodeU64_encodeU64, Option.getD_some]

/-- An apply leaves the head where it was or takes it to its own cycle, whichever is later. -/
theorem lastAppliedCycle_applyLsuToDatabase (env : DatabaseEnv) (lsu : LedgerStateUpdate)
    (db : Database) :
    lastAppliedCycle (endState (applyLsuToDatabase env lsu db)).toStore =
      if lsu.cycleNumber ≤ lastAppliedCycle db.toStore then lastAppliedCycle db.toStore
      else lsu.cycleNumber := by
  split
  next below => rw [applyLsuToDatabase_skip below, endState]
  next below =>
    obtain ⟨root, db', run, applied⟩ := @applyLsuToDatabase_apply env lsu db
      (UInt64.not_le.mp below)
    rw [run, endState, applied.head.lastAppliedCycle_eq]

end Apply

end CatalystNode
