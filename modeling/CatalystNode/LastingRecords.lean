import CatalystNode.ReconcileOutcome

namespace CatalystNode

open ByteVector HexCodec MachineInt Store Effects FoldTrace

def KeepsMetadata (runtime : EvmRuntime) : Prop :=
  ∀ store pk chainId payload gas,
    (runtime.executeAndPersist store pk chainId payload gas).1.metadata = store.metadata

section Ledger

variable {env : ApplyEnv} {store : Store} {lsu : LedgerStateUpdate}

theorem metadata_applyEntry {runtime : EvmRuntime} (keeps : KeepsMetadata runtime)
    (chainId cycle : UInt64) (pass : EntryPass) (e : TransactionEntry) :
    (applyEntry runtime chainId cycle pass e).store.metadata = pass.store.metadata := by
  unfold applyEntry
  split
  next =>
    unfold registerWorker setWorkerLastRegistrationCycle ensureWorkerFirstSeenCycle
    dsimp only
    split <;> rfl
  next =>
    split
    next =>
      unfold applyEvmEntry
      split
      next => rfl
      next =>
        dsimp only
        split
        next => rfl
        next => exact keeps _ _ _ _ _
    next => rfl

theorem metadata_applyCompensation (store : Store) (c : CompensationEntry) :
    (applyCompensation store c).metadata = store.metadata := by
  unfold applyCompensation
  split <;> rfl

theorem metadata_settleStep (cycle : UInt64) (store : Store) (entries : List TransactionEntry) :
    (settleStep cycle store entries).metadata = store.metadata := by
  have spend : ∀ pk fee, (applyFeeCreditSpendForCycle store pk fee cycle).1.metadata =
      store.metadata := by
    intro pk fee
    unfold applyFeeCreditSpendForCycle
    dsimp only
    split
    next => rfl
    next => split <;> rfl
  unfold settleStep settleGroup
  dsimp only
  split
  next => rfl
  next =>
    split
    next => rfl
    next =>
      split
      next => rfl
      next =>
        split
        next => exact spend _ _
        next => exact spend _ _

theorem metadata_closeLedger (store : Store) (lsu : LedgerStateUpdate) :
    (closeLedger store lsu).metadata = store.metadata := by
  have settled : (settleFeeCreditSpendForAppliedCycle store lsu).metadata = store.metadata := by
    unfold settleFeeCreditSpendForAppliedCycle
    split
    next => rfl
    next =>
      exact foldl_invariant (P := fun s : Store => s.metadata = store.metadata) rfl
        (fun s entries _ same => (metadata_settleStep _ s entries).trans same)
  have paid : ∀ s : Store, (distributeWaitingPoolRewardsAndFeeCredits s lsu).metadata =
      s.metadata := by
    intro s
    unfold distributeWaitingPoolRewardsAndFeeCredits
    dsimp only
    split
    next => rfl
    next =>
      split
      next => rfl
      next =>
        refine foldl_invariant (P := fun t : Store × UInt64 => t.1.metadata = s.metadata) rfl ?_
        intro t pk _ same
        rw [← same]
        unfold payWaiting accrueFeeCredits
        dsimp only
        split <;> split <;> rfl
  exact (paid _).trans settled

theorem metadata_beforeNonces (keeps : KeepsMetadata env.runtime) :
    (beforeNonces env store lsu).metadata = store.metadata := by
  have entries : (applyEntries env.runtime store lsu).store.metadata = store.metadata :=
    foldl_invariant (P := fun pass : EntryPass => pass.store.metadata = store.metadata) rfl
      (fun pass e _ same => (metadata_applyEntry keeps _ _ pass e).trans same)
  exact foldl_invariant (P := fun s : Store => s.metadata = store.metadata) entries
    (fun s c _ same => (metadata_applyCompensation s c).trans same)

theorem metadata_applyLedger (keeps : KeepsMetadata env.runtime) :
    (applyLedger env store lsu).1.metadata = store.metadata := by
  rw [applyLedger_fst, metadata_closeLedger, (foldl_bumpSender_other _ _).2.1]
  exact metadata_beforeNonces keeps

theorem metadata_applyTrustedLedger {env : TrustedEnv} (keeps : KeepsMetadata env.runtime) :
    (applyTrustedLedger env store lsu).1.metadata = store.metadata := by
  rw [applyTrustedLedger_fst, metadata_closeLedger, (foldl_bumpSender_other _ _).2.1]
  exact metadata_beforeNonces keeps

end Ledger

structure LastingName (name : String) : Prop where
  applies : ¬UnderTag applyTags name
  prunes : ¬UnderTag prunedTags name

theorem LastingName.of_tag {tag : String} (applies : NamesApart [tag] applyTags)
    (prunes : NamesApart [tag] prunedTags) (rest : String) : LastingName (tag ++ rest) :=
  ⟨not_underTag_append applies rest, not_underTag_append prunes rest⟩

theorem LastingName.records {name : String} (lasting : LastingName name) :
    ¬UnderTag recordTags name := fun under => lasting.applies (under.mono (by decide))

theorem LastingName.ne_lsuKey {name : String} (lasting : LastingName name) (cycle : UInt64) :
    name ≠ lsuKey cycle := by
  rintro rfl
  exact lasting.prunes (underTag_append (by decide) _)

theorem LastingName.ne_lsuHashKey {name : String} (lasting : LastingName name) (cycle : UInt64) :
    name ≠ lsuHashKey cycle := by
  rintro rfl
  exact lasting.prunes (underTag_append (by decide) _)

section Lasting

variable {env : DatabaseEnv} {name : String} {held : Option Bytes}

theorem Applied.getMetadata_lasting {lsu : LedgerStateUpdate} {root : Hash} {db db' : Database}
    (applied : Applied env lsu root db db') (keeps : KeepsMetadata env.runtime)
    (lasting : LastingName name) : db'.getMetadata name = db.getMetadata name := by
  have kept := (applied.records name lasting.applies (lasting.ne_lsuKey _)
    (lasting.ne_lsuHashKey _)).eq lasting.prunes
  rw [kept, Store.getMetadata, metadata_applyLedger keeps, Store.getMetadata]

theorem getMetadata_of_columns {db db' : Database} (same : db'.columns = db.columns) :
    db'.getMetadata name = db.getMetadata name :=
  congrArg (fun columns : Columns => columns.metadata[name]?) same

theorem lastAppliedCycle_of_columns {db db' : Database} (same : db'.columns = db.columns) :
    lastAppliedCycle db'.toStore = lastAppliedCycle db.toStore := by
  rw [lastAppliedCycle, getMetadata_of_columns same]
  rfl

theorem keeps_lasting_applyLsuToDatabase (keeps : KeepsMetadata env.runtime)
    (lasting : LastingName name) (lsu : LedgerStateUpdate) :
    Keeps (fun db : Database => db.getMetadata name = held) (applyLsuToDatabase env lsu) :=
  keeps_applyLsuToDatabase (fun _ _ _ _ applied before =>
    (applied.getMetadata_lasting keeps lasting).trans before)

theorem keeps_lasting_applyLsuWithRootCheckLocked (keeps : KeepsMetadata env.runtime)
    (lasting : LastingName name) (lsu : LedgerStateUpdate) (expected : Hash) :
    Keeps (fun db : Database => db.getMetadata name = held)
      (applyLsuWithRootCheckLocked env lsu expected) :=
  keeps_applyLsuWithRootCheckLocked
    (fun _ _ _ applied before => (applied.getMetadata_lasting keeps lasting).trans before)
    (fun _ _ reverted before => (getMetadata_of_columns reverted.columns).trans before)

theorem keeps_lasting_applyOntoHead (keeps : KeepsMetadata env.runtime) (lasting : LastingName name)
    (target : ReconcileTarget) :
    Keeps (fun db : Database => db.getMetadata name = held) (applyOntoHead env target) :=
  keeps_applyOntoHead (fun _ _ before => before)
    (keeps_lasting_applyLsuWithRootCheckLocked keeps lasting target.lsu target.expectedPost)

/-- A replay forward from the head keeps what applies keep. -/
theorem keeps_lasting_reconcileInner (keeps : KeepsMetadata env.runtime)
    (lasting : LastingName name) {target : ReconcileTarget} {plan : ReplayPlan}
    (behind : plan.localCycle < target.cycle) :
    Keeps (fun db : Database => db.getMetadata name = held) (reconcileInner env target plan) := by
  refine keeps_reconcileInner ?_
    (keeps_lasting_applyLsuWithRootCheckLocked keeps lasting target.lsu target.expectedPost)
  unfold replayToTarget
  rw [if_neg (not_not.mpr behind)]
  refine (Keeps.forM (fun _ _ => keeps_replayCycle ?_)).bind (fun _ db before => before)
  intro lsu root db db' _ applied before
  exact (applied.getMetadata_lasting keeps lasting).trans before

end Lasting

/-- The proof-driven apply on the whole database. Its snapshot is gone when it is done. -/
def DatabaseEnv.trusting (env : DatabaseEnv) (db : Database) (cycle : UInt64) : TrustedEnv where
  toApplyEnv := env.applying
  createSnapshot _ :=
    let snap := s!"trusted_apply_verify_{cycle}_{env.nowMs}"
    if snap ∈ db.snapshots then .error s!"Snapshot '{snap}' already exists" else .ok ()
  loadSnapshot taken current := { taken with currentStateRoot := current.currentStateRoot }
  prune store := (maybePruneHistory env (prunePersistedMempool env store)).metadata

section Trusted

variable {env : DatabaseEnv} {lsu : LedgerStateUpdate} {db : Database} {name : String}

def trustedHead (env : DatabaseEnv) (lsu : LedgerStateUpdate) (newRoot : Hash) (store : Store) :
    Store :=
  ((store.setMetadata "consensus:last_applied_cycle" (encodeU64 lsu.cycleNumber)).setMetadata
    "consensus:last_applied_state_root" newRoot.toList).setMetadata
    "consensus:last_applied_lsu_hash" (hashData env.tx.blake2b512 lsu).toList

theorem getMetadata_recordTrusted_eq (other : ¬UnderTag ("tx:meta:" :: bookkeepingTags) name)
    (kept : ¬UnderTag prunedTags name) (newRoot : Hash)
    (outcomes : Std.ExtTreeMap Bytes ApplyOutcome) (store : Store) :
    (recordTrusted (env.trusting db lsu.cycleNumber) lsu newRoot outcomes store).getMetadata name =
      (trustedHead env lsu newRoot store).getMetadata name := by
  let lsuHash := hashData env.tx.blake2b512 lsu
  let history := persistAppliedHistory lsu lsuHash (trustedHead env lsu newRoot store)
  have recorded : history.getMetadata name = (trustedHead env lsu newRoot store).getMetadata name :=
    getMetadata_persistAppliedHistory
      (fun same => kept (same ▸ underTag_append (by decide) (toString lsu.cycleNumber)))
      (fun same => kept (same ▸ underTag_append (by decide) (toString lsu.cycleNumber)))
  have receipts := foldl_invariant
    (P := fun s : Store => s.getMetadata name = history.getMetadata name)
    (l := loadCycleTxids env.applying history lsu.cycleNumber)
    (f := writeReceipt env.applying lsu.cycleNumber lsuHash newRoot outcomes) rfl
    (fun s txid _ same => (getMetadata_writeReceipt (fun under => other (under.mono (by simp))) s
      txid).trans same)
  have pruned := (prunedTo_housekeeping env ((loadCycleTxids env.applying history
    lsu.cycleNumber).foldl (writeReceipt env.applying lsu.cycleNumber lsuHash newRoot outcomes)
    history) lsu.cycleNumber newRoot lsuHash).records name (fun under =>
      other (under.mono (List.subset_cons_self _ _)))
  exact (KeptOrPruned.eq pruned kept).trans (receipts.trans recorded)

theorem getMetadata_recordTrusted (other : ¬UnderTag recordTags name)
    (kept : ¬UnderTag prunedTags name) (newRoot : Hash)
    (outcomes : Std.ExtTreeMap Bytes ApplyOutcome) (store : Store) :
    (recordTrusted (env.trusting db lsu.cycleNumber) lsu newRoot outcomes store).getMetadata name =
      store.getMetadata name := by
  have apart : ∀ key, UnderTag ["consensus:last_applied_"] key → key ≠ name := by
    rintro key under rfl
    exact other (under.mono (by simp [recordTags]))
  rw [getMetadata_recordTrusted_eq (fun under => other (under.mono (by decide))) kept, trustedHead,
    getMetadata_setMetadata_of_ne _ _ (apart _ (by decide)),
    getMetadata_setMetadata_of_ne _ _ (apart _ (by decide)),
    getMetadata_setMetadata_of_ne _ _ (apart _ (by decide))]

theorem getMetadata_trustedApply (keeps : KeepsMetadata env.runtime)
    (other : ¬UnderTag recordTags name) (kept : ¬UnderTag prunedTags name)
    (expectedPrev newRoot : Hash) :
    (applyLsuToStorageWithoutRootCheck (env.trusting db lsu.cycleNumber) db.toStore lsu expectedPrev
      newRoot).1.getMetadata name = db.getMetadata name := by
  have ledger : (applyTrustedLedger (env.trusting db lsu.cycleNumber) db.toStore lsu).1.metadata =
      db.metadata := metadata_applyTrustedLedger keeps
  have committed := (commit_metadata env.sha256
    (applyTrustedLedger (env.trusting db lsu.cycleNumber) db.toStore lsu).1).trans ledger
  unfold applyLsuToStorageWithoutRootCheck
  dsimp only
  split
  next => rfl
  next =>
    split
    next => rfl
    next =>
      split
      next => rfl
      next =>
        split
        next => exact congrArg (·[name]?) committed
        next =>
          split
          next => exact congrArg (·[name]?) (commit_metadata env.sha256 _)
          next =>
            rw [getMetadata_recordTrusted other kept]
            exact congrArg (·[name]?) committed

end Trusted

end CatalystNode
