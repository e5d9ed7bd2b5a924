import CatalystNode.CycleHistory
import CatalystNode.ReconcileExactness
import CatalystNode.AccountPayments
import CatalystNode.EvmRevm

namespace CatalystNode

open ByteVector HexCodec MachineInt Store Effects

def ContractsAlike (s t : Store) : Prop :=
  ∀ rest, s.getState (utf8 "evm:" ++ rest) = t.getState (utf8 "evm:" ++ rest)

/-- The virtual machine sees nothing of a store but the records of contracts: its external database
looks up code, nonces, balances and storage slots. -/
def Revm.ReadsContracts (revm : Revm) : Prop :=
  ∀ s t, ContractsAlike s t → revm.transact s = revm.transact t

def Store.withRoot (root : Option Hash) (store : Store) : Store :=
  { store with currentStateRoot := root }

/-- What a contract does does not depend on the cached root, and it leaves that root alone. -/
def IgnoresCachedRoot (runtime : EvmRuntime) : Prop :=
  ∀ (root : Option Hash) (store : Store) pk chainId payload gas,
    runtime.executeAndPersist (store.withRoot root) pk chainId payload gas =
      Prod.map (Store.withRoot root) id (runtime.executeAndPersist store pk chainId payload gas)

section CachedRoot

variable {env : ApplyEnv} {root : Option Hash} {store : Store} {lsu : LedgerStateUpdate}

theorem foldl_withRoot {α : Type} {f : Store → α → Store}
    (step : ∀ (store : Store) a, f (store.withRoot root) a = (f store a).withRoot root) (l : List α)
    (store : Store) : l.foldl f (store.withRoot root) = (l.foldl f store).withRoot root :=
  List.foldl_hom (Store.withRoot root) step

theorem addToBalance_withRoot (store : Store) (pk : PublicKey) (delta : Int64) :
    addToBalance (store.withRoot root) pk delta = (addToBalance store pk delta).withRoot root := rfl

theorem registerWorker_withRoot (store : Store) (pk : PublicKey) (cycle : UInt64) :
    registerWorker (store.withRoot root) pk cycle = (registerWorker store pk cycle).withRoot root := by
  have seen : ∀ store : Store, ensureWorkerFirstSeenCycle (store.withRoot root) pk cycle =
      (ensureWorkerFirstSeenCycle store pk cycle).withRoot root := by
    intro store
    change (if (store.getState _).isNone then _ else _) = _
    unfold ensureWorkerFirstSeenCycle
    dsimp only
    split <;> rfl
  have marked := seen (store.setState (workerKeyForPubkey pk) [1])
  unfold registerWorker
  exact congrArg (setWorkerLastRegistrationCycle · pk cycle) marked

def EntryPass.withRoot (root : Option Hash) (pass : EntryPass) : EntryPass :=
  { pass with store := pass.store.withRoot root }

theorem applyEntry_withRoot {runtime : EvmRuntime} (ignores : IgnoresCachedRoot runtime)
    (chainId cycle : UInt64) (pass : EntryPass) (e : TransactionEntry) :
    applyEntry runtime chainId cycle (pass.withRoot root) e =
      (applyEntry runtime chainId cycle pass e).withRoot root := by
  unfold applyEntry
  split
  next =>
    have registered := @registerWorker_withRoot root pass.store e.publicKey cycle
    simp only [EntryPass.withRoot, registered]
  next =>
    split
    next =>
      unfold applyEvmEntry
      by_cases executed : e.signature ∈ pass.executedSigs
      · rw [if_pos executed, if_pos (show e.signature ∈ (pass.withRoot root).executedSigs from executed)]
      · rw [if_neg executed, if_neg (show e.signature ∉ (pass.withRoot root).executedSigs from executed)]
        cases decodeEvmMarker runtime e.signature with
        | none => rfl
        | some payload =>
          have run := ignores root pass.store e.publicKey chainId payload.1
            (max defaultEvmGasLimit 21000)
          simp only [EntryPass.withRoot, run]
          rfl
    next => rfl

theorem applyEntries_withRoot {runtime : EvmRuntime} (ignores : IgnoresCachedRoot runtime)
    (store : Store) (lsu : LedgerStateUpdate) :
    applyEntries runtime (store.withRoot root) lsu =
      (applyEntries runtime store lsu).withRoot root := by
  have passes : ∀ (entries : List TransactionEntry) (pass : EntryPass),
      entries.foldl (applyEntry runtime (loadChainIdU64 store) lsu.cycleNumber) (pass.withRoot root) =
        (entries.foldl (applyEntry runtime (loadChainIdU64 store) lsu.cycleNumber) pass).withRoot root :=
    fun entries pass => List.foldl_hom (EntryPass.withRoot root)
      (fun pass e => applyEntry_withRoot ignores _ _ pass e)
  exact passes _ ⟨store, ∅, []⟩

theorem applyCompensation_withRoot (store : Store) (c : CompensationEntry) :
    applyCompensation (store.withRoot root) c = (applyCompensation store c).withRoot root := by
  unfold applyCompensation
  split <;> rfl

theorem bumpNonce_withRoot (store : Store) (entries : List TransactionEntry) :
    bumpNonce (store.withRoot root) entries = (bumpNonce store entries).withRoot root := by
  unfold bumpNonce
  split <;> rfl

theorem settleStep_withRoot (cycle : UInt64) (store : Store) (entries : List TransactionEntry) :
    settleStep cycle (store.withRoot root) entries = (settleStep cycle store entries).withRoot root := by
  have spend : ∀ pk fee, applyFeeCreditSpendForCycle (store.withRoot root) pk fee cycle =
      Prod.map (Store.withRoot root) id (applyFeeCreditSpendForCycle store pk fee cycle) := by
    intro pk fee
    unfold applyFeeCreditSpendForCycle
    dsimp only
    split
    next => rfl
    next =>
      have allowed : feeCreditSpendableForCycle (store.withRoot root) pk fee cycle =
        feeCreditSpendableForCycle store pk fee cycle := rfl
      rw [allowed]
      split <;> rfl
  unfold settleStep settleGroup
  dsimp only
  split
  next => rfl
  next =>
    split
    next => rfl
    next =>
      split
      next => rfl
      next =>
        rw [spend]
        dsimp only [Prod.map, id]
        split <;> rfl

theorem payWaiting_withRoot (per : UInt64) (s : Store × UInt64) (pk : PublicKey) :
    payWaiting per (Prod.map (Store.withRoot root) id s) pk =
      Prod.map (Store.withRoot root) id (payWaiting per s pk) := by
  have accrued : ∀ store : Store, accrueFeeCredits (store.withRoot root) pk =
      (accrueFeeCredits store pk).withRoot root := by
    intro store
    unfold accrueFeeCredits
    split <;> rfl
  unfold payWaiting
  dsimp only [Prod.map, id]
  split
  next => rw [addToBalance_withRoot, accrued]
  next => rw [accrued]

theorem distribute_withRoot (store : Store) (lsu : LedgerStateUpdate) :
    distributeWaitingPoolRewardsAndFeeCredits (store.withRoot root) lsu =
      (distributeWaitingPoolRewardsAndFeeCredits store lsu).withRoot root := by
  have waiting : waitingWorkers (store.withRoot root) lsu = waitingWorkers store lsu := rfl
  unfold distributeWaitingPoolRewardsAndFeeCredits
  dsimp only
  rw [waiting]
  split
  next => rfl
  next =>
    split
    next => rfl
    next =>
      have paid : ∀ (per : UInt64) (workers : List PublicKey) (s : Store × UInt64),
          workers.foldl (payWaiting per) (Prod.map (Store.withRoot root) id s) =
            Prod.map (Store.withRoot root) id (workers.foldl (payWaiting per) s) :=
        fun per workers s => List.foldl_hom (Prod.map (Store.withRoot root) id)
          (payWaiting_withRoot per)
      exact congrArg Prod.fst (paid _ _ (store, _))

theorem applyLedger_withRoot (ignores : IgnoresCachedRoot env.runtime) (store : Store)
    (lsu : LedgerStateUpdate) :
    applyLedger env (store.withRoot root) lsu =
      Prod.map (Store.withRoot root) id (applyLedger env store lsu) := by
  have settled : ∀ store : Store, settleFeeCreditSpendForAppliedCycle (store.withRoot root) lsu =
      (settleFeeCreditSpendForAppliedCycle store lsu).withRoot root := by
    intro store
    unfold settleFeeCreditSpendForAppliedCycle
    split
    next => rfl
    next => exact foldl_withRoot (settleStep_withRoot _) _ store
  unfold applyLedger
  dsimp only
  rw [applyEntries_withRoot ignores]
  dsimp only [EntryPass.withRoot]
  rw [foldl_withRoot applyCompensation_withRoot, foldl_withRoot bumpNonce_withRoot, settled,
    distribute_withRoot]
  rfl

/-- An apply above the head takes no notice of the cached root, which it replaces. -/
theorem applyLsuToStorageLocked_withRoot (ignores : IgnoresCachedRoot env.runtime)
    (above : lastAppliedCycle store < lsu.cycleNumber) :
    applyLsuToStorageLocked env (store.withRoot root) lsu = applyLsuToStorageLocked env store lsu := by
  obtain ⟨-, -, -, computed, -, built, -⟩ :=
    computeRoots_spec env.sha256 (applyLedger env store lsu).1.accounts.toList
  have ledger := @applyLedger_withRoot env root ignores store lsu
  have built' : computeRootFromIter env.sha256
      (applyLedger env (store.withRoot root) lsu).1.accounts.toList = .ok computed := by
    rw [ledger]
    exact built
  have above' : lastAppliedCycle (store.withRoot root) < lsu.cycleNumber := above
  rw [applyLsuToStorageLocked_eq above built, applyLsuToStorageLocked_eq above' built', ledger]
  rfl

end CachedRoot

/-- The node's own runtime knows nothing of the cached root. -/
theorem ignoresCachedRoot_revmRuntime {revm : Revm} (reads : revm.ReadsContracts)
    (decode : Bytes → Option EvmTxPayload) : IgnoresCachedRoot (revmRuntime revm decode) := by
  intro root store pk chainId payload gas
  obtain ⟨nonce, kind⟩ := payload
  have persisted : ∀ state : Std.ExtTreeMap EvmAddress EvmAccount,
      persistState (store.withRoot root) state = (persistState store state).withRoot root := by
    intro state
    refine foldl_withRoot (fun store account => ?_) _ store
    have slots : ∀ store : Store, account.2.storage.foldl (fun store slot =>
        store.setState (keyEvmStorage account.1 slot.1) slot.2.toList) (store.withRoot root) =
          Store.withRoot root (account.2.storage.foldl (fun store slot =>
            store.setState (keyEvmStorage account.1 slot.1) slot.2.toList) store) :=
      fun store => foldl_withRoot (fun store slot => rfl) _ store
    unfold persistAccount
    dsimp only
    rw [← slots]
    cases account.2.code with
    | none => rfl
    | some code =>
      dsimp only
      split <;> rfl
  have same : ∀ kind data, transactAt revm (store.withRoot root) (pubkeyToEvmAddr20 pk) chainId nonce
      kind data gas = transactAt revm store (pubkeyToEvmAddr20 pk) chainId nonce kind data gas := by
    intro kind data
    rw [transactAt, reads (store.withRoot root) store (fun rest => rfl)]
    rfl
  cases kind with
  | deploy bytecode =>
    dsimp only [revmRuntime, executeDeployAndPersist]
    rw [same]
    split
    next => rfl
    next out _ =>
      rw [persisted]
      cases (if out.createdAddress.getD (revm.calculateEthereumCreateAddress
          (pubkeyToEvmAddr20 pk) (nonce - 1)) ∈ out.state then
          out.contracts (out.createdAddress.getD (revm.calculateEthereumCreateAddress
            (pubkeyToEvmAddr20 pk) (nonce - 1))) else none) <;> rfl
  | call target input =>
    dsimp only [revmRuntime, executeCallAndPersist]
    rw [same]
    split
    next => rfl
    next out _ =>
      rw [persisted]
      rfl

section Verified

variable {env : DatabaseEnv} {lsu : LedgerStateUpdate} {root expected : Hash} {db db' : Database}

theorem applyLsuToDatabase_of_ok (above : lastAppliedCycle db.toStore < lsu.cycleNumber)
    (built : (applyLsuToStorageLocked env.applying db.toStore lsu).2 = .ok root) :
    applyLsuToDatabase env lsu db = .ok root (checkpointAfterApply env lsu root
      { db with toStore := (applyLsuToStorageLocked env.applying db.toStore lsu).1 }) := by
  simp only [applyLsuToDatabase, built, if_neg (UInt64.not_le.mpr above)]

theorem computeRoot_of_applied (above : lastAppliedCycle db.toStore < lsu.cycleNumber)
    (run : applyLsuToDatabase env lsu db = .ok root db') :
    computeRootFromIter env.sha256 db'.accounts.toList = .ok root := by
  obtain ⟨-, -, -, computed, -, built, -⟩ :=
    computeRoots_spec env.sha256 (applyLedger env.toApplyEnv db.toStore lsu).1.accounts.toList
  have stored : applyLsuToStorageLocked env.applying db.toStore lsu = _ :=
    applyLsuToStorageLocked_eq above built
  have whole := @applyLsuToDatabase_of_ok env lsu computed db above (congrArg Prod.snd stored)
  rw [run] at whole
  cases whole
  have accounts := (@checkpointed_checkpointAfterApply env lsu root
    { db with toStore := (applyLsuToStorageLocked env.applying db.toStore lsu).1 }).accounts
  rw [accounts, stored]
  dsimp only
  rw [recordApplied_accounts]
  exact built

theorem computeRoot_of_verified (above : lastAppliedCycle db.toStore < lsu.cycleNumber)
    (run : applyLsuWithRootCheckLocked env lsu expected db = .ok true db') :
    computeRootFromIter env.sha256 db'.accounts.toList = .ok expected := by
  obtain ⟨root, after, inner, -⟩ := @applyLsuToDatabase_apply env lsu
    (db.withSnapshot (verifySnapshotName lsu.cycleNumber env.nowMs)) above
  have built := @computeRoot_of_applied env lsu root (db.withSnapshot _) after above inner
  rw [applyLsuWithRootCheckLocked_eq (free_of_rootCheck run) inner] at run
  split at run
  next same =>
    cases run
    exact same ▸ built
  next => cases run

/-- An apply above the head whose root is as expected leaves the head at the update. At or below the
head nothing is applied, and it is also enough that the cached root is as expected. -/
theorem verifiedApply_iff (env : DatabaseEnv) (lsu : LedgerStateUpdate) (expected : Hash)
    (db : Database) :
    (∀ db', applyLsuWithRootCheckLocked env lsu expected db = .ok true db' →
      HeadAt lsu.cycleNumber (hashData env.tx.blake2b512 lsu) expected db'.toStore) ↔
      lastAppliedCycle db.toStore < lsu.cycleNumber ∨
      HeadAt lsu.cycleNumber (hashData env.tx.blake2b512 lsu) expected db.toStore ∨
      db.currentStateRoot.getD (zeros 32) ≠ expected ∨
      verifySnapshotName lsu.cycleNumber env.nowMs ∈ db.snapshots := by
  constructor
  · intro means
    by_cases below : lsu.cycleNumber ≤ lastAppliedCycle db.toStore
    · by_cases cached : db.currentStateRoot.getD (zeros 32) = expected
      · by_cases free : verifySnapshotName lsu.cycleNumber env.nowMs ∉ db.snapshots
        · exact .inr (.inl (means db (applyLsuWithRootCheckLocked_skip free below cached)))
        · exact .inr (.inr (.inr (not_not.mp free)))
      · exact .inr (.inr (.inl cached))
    · exact .inl (UInt64.not_le.mp below)
  · intro condition db' run
    have ending := rootChecked env lsu expected db
    rw [run] at ending
    cases ending with
    | skipped free below cached =>
      rcases condition with above | head | other | taken
      · exact absurd below (UInt64.not_le.mpr above)
      · exact head
      · exact absurd cached other
      · exact absurd taken free
    | applied above applied => exact applied.head

/-- The head is at another update of the cycle and its root is cached: a verified apply says that it
has applied this one. -/
theorem verifiedApply_other :
    ∃ db', applyLsuWithRootCheckLocked sampleDatabaseEnv (sampleVoted 1 2) (zeros 32)
        (sampleHeadedBy (sampleVoted 1 1)) = .ok true db' ∧
      ¬HeadAt 1 (hashData checksum (sampleVoted 1 2)) (zeros 32) db'.toStore := by
  refine ⟨sampleHeadedBy (sampleVoted 1 1), ?_, fun head => ?_⟩
  · exact applyLsuWithRootCheckLocked_skip (by decide +kernel) (by decide +kernel) rfl
  · exact absurd head.lsuHash (by decide +kernel)

end Verified

section Rejected

variable {env : DatabaseEnv} {lsu : LedgerStateUpdate} {root expected : Hash} {db : Database}

def CheckpointRecord.recordIn (record : CheckpointRecord) (store : Store) : Store :=
  (store.setMetadata (checkpointMetaKey record.cycle) (encodeCheckpointBlob record)).setMetadata
    "consensus:checkpoint:latest_cycle" (encodeU64 record.cycle)

def checkpointOf (env : DatabaseEnv) (lsu : LedgerStateUpdate) (root : Hash) : CheckpointRecord :=
  ⟨lsu.cycleNumber, root, hashData env.tx.blake2b512 lsu, snapshotNameForCycle lsu.cycleNumber⟩

theorem checkpointMetaKey_ne_latest (cycle : UInt64) :
    checkpointMetaKey cycle ≠ "consensus:checkpoint:latest_cycle" := by
  intro same
  have number : cycle.toNat.repr = "latest_cycle" :=
    (String.append_right_inj "consensus:checkpoint:").mp same
  have listed : 'l' ∈ Nat.toDigits 10 cycle.toNat := by
    rw [← Nat.toList_repr, number]
    decide
  have digit := Nat.isDigit_of_mem_toDigits (by omega) (by omega) listed
  exact absurd digit (by decide)

theorem getMetadata_recordIn (record : CheckpointRecord) (store : Store) (name : String) :
    (record.recordIn store).getMetadata name =
      if name = "consensus:checkpoint:latest_cycle" then some (encodeU64 record.cycle)
      else if name = checkpointMetaKey record.cycle then some (encodeCheckpointBlob record)
      else store.getMetadata name := by
  unfold CheckpointRecord.recordIn
  by_cases latest : name = "consensus:checkpoint:latest_cycle"
  · rw [if_pos latest, latest, getMetadata_setMetadata_self]
  · rw [if_neg latest, getMetadata_setMetadata_of_ne _ _ (Ne.symm latest)]
    by_cases own : name = checkpointMetaKey record.cycle
    · rw [if_pos own, own, getMetadata_setMetadata_self]
    · rw [if_neg own, getMetadata_setMetadata_of_ne _ _ (Ne.symm own)]

theorem metadata_recordIn_eq_iff (record : CheckpointRecord) (store : Store) :
    (record.recordIn store).metadata = store.metadata ↔
      store.getMetadata (checkpointMetaKey record.cycle) = some (encodeCheckpointBlob record) ∧
      store.getMetadata "consensus:checkpoint:latest_cycle" = some (encodeU64 record.cycle) := by
  have lookup := getMetadata_recordIn record store
  constructor
  · intro same
    have kept : ∀ name, (record.recordIn store).getMetadata name = store.getMetadata name :=
      fun name => congrArg (·[name]?) same
    refine ⟨?_, ?_⟩
    · rw [← kept, lookup, if_neg (checkpointMetaKey_ne_latest _), if_pos rfl]
    · rw [← kept, lookup, if_pos rfl]
  · rintro ⟨own, latest⟩
    apply Std.ExtTreeMap.ext_getElem?
    intro name
    change (record.recordIn store).getMetadata name = store.getMetadata name
    rw [lookup]
    split
    next pointer => rw [pointer, latest]
    next =>
      split
      next key => rw [key, own]
      next => rfl

/-- An apply above the head writes a checkpoint of its own, if it is one of the cycles that have one
and no snapshot is in the way. -/
def WritesCheckpoint (env : DatabaseEnv) (cycle : UInt64) (db : Database) : Prop :=
  shouldWriteCheckpointAtCycle cycle env.checkpointEveryCycles = true ∧
    snapshotNameForCycle cycle ∉ db.snapshots

instance (env : DatabaseEnv) (cycle : UInt64) (db : Database) :
    Decidable (WritesCheckpoint env cycle db) := inferInstanceAs (Decidable (_ ∧ _))

/-- After the first apply of a process a checkpoint is written where one is due and its snapshot does
not exist yet. -/
theorem checkpointAfterApply_of_started (started : db.startupCheckpointWritten = true) :
    checkpointAfterApply env lsu root db =
      if WritesCheckpoint env lsu.cycleNumber db then
        (db.withSnapshot (snapshotNameForCycle lsu.cycleNumber)).onStore
          (checkpointOf env lsu root).recordIn
      else db := by
  unfold checkpointAfterApply maybeWriteCheckpointAfterApply
  dsimp only
  rw [if_pos started]
  by_cases due : shouldWriteCheckpointAtCycle lsu.cycleNumber env.checkpointEveryCycles = true
  · rw [if_pos due]
    by_cases free : snapshotNameForCycle lsu.cycleNumber ∉ db.snapshots
    · rw [if_pos ⟨due, free⟩, writeCheckpoint, bind_of_ok (createSnapshot_of_not_mem free)]
      rfl
    · obtain ⟨e, failed⟩ := createSnapshot_of_mem (not_not.mp free)
      rw [if_neg (fun both => free both.2), writeCheckpoint, bind_of_error failed]
      rfl
  · rw [if_neg due, if_neg (fun both => due both.1)]
    rfl

def recordedStore (env : DatabaseEnv) (lsu : LedgerStateUpdate) (db : Database) : Store :=
  (applyLsuToStorageLocked env.applying db.toStore lsu).1

def checkpointedStore (env : DatabaseEnv) (lsu : LedgerStateUpdate) (root : Hash) (db : Database) :
    Store :=
  if WritesCheckpoint env lsu.cycleNumber db then
    (checkpointOf env lsu root).recordIn (recordedStore env lsu db)
  else recordedStore env lsu db

theorem verifySnapshotName_ne_checkpoint (lsu : LedgerStateUpdate) (nowMs : UInt64) :
    verifySnapshotName lsu.cycleNumber nowMs ≠ snapshotNameForCycle lsu.cycleNumber := by
  intro same
  exact verifySnapshotName_not_checkpoint lsu.cycleNumber nowMs
    (same ▸ snapshotNameForCycle_isCheckpointName lsu.cycleNumber)

theorem checkpoint_withSnapshot_verify (lsu : LedgerStateUpdate) (nowMs : UInt64) (db : Database) :
    snapshotNameForCycle lsu.cycleNumber ∈
        (db.withSnapshot (verifySnapshotName lsu.cycleNumber nowMs)).snapshots ↔
      snapshotNameForCycle lsu.cycleNumber ∈ db.snapshots := by
  rw [Std.ExtTreeMap.mem_iff_isSome_getElem?,
    snapshots_withSnapshot_of_ne (verifySnapshotName_ne_checkpoint lsu nowMs),
    ← Std.ExtTreeMap.mem_iff_isSome_getElem?]

theorem applyLsuWithRootCheckLocked_above (started : db.startupCheckpointWritten = true)
    (free : verifySnapshotName lsu.cycleNumber env.nowMs ∉ db.snapshots)
    (above : lastAppliedCycle db.toStore < lsu.cycleNumber)
    (built : (applyLsuToStorageLocked env.applying db.toStore lsu).2 = .ok root) :
    ∃ after : Database,
      after.columns = ({ db with toStore := checkpointedStore env lsu root db } : Database).columns ∧
      after.startupCheckpointWritten = true ∧
      (snapshotNameForCycle lsu.cycleNumber ∈ after.snapshots ↔
        snapshotNameForCycle lsu.cycleNumber ∈ db.snapshots ∨ WritesCheckpoint env lsu.cycleNumber db) ∧
      applyLsuWithRootCheckLocked env lsu expected db =
        if root = expected then .ok true after
        else .ok false { after.withColumns db.columns with
          toStore := ((after.withColumns db.columns).toStore.commit env.sha256).1 } := by
  let snap := verifySnapshotName lsu.cycleNumber env.nowMs
  let inner := { db.withSnapshot snap with toStore := recordedStore env lsu db }
  have run := @applyLsuToDatabase_of_ok env lsu root (db.withSnapshot snap) above built
  have whole := @applyLsuWithRootCheckLocked_eq env lsu expected db free _ _ run
  have written := @checkpointAfterApply_of_started env lsu root inner started
  have same : WritesCheckpoint env lsu.cycleNumber inner ↔ WritesCheckpoint env lsu.cycleNumber db :=
    and_congr_right (fun _ => not_congr (checkpoint_withSnapshot_verify lsu env.nowMs db))
  have other : snap ≠ snapshotNameForCycle lsu.cycleNumber := verifySnapshotName_ne_checkpoint lsu _
  refine ⟨(checkpointAfterApply env lsu root inner).deleteSnapshot snap, ?_, ?_, ?_, whole⟩
  · rw [written, checkpointedStore, if_congr same rfl rfl]
    split <;> rfl
  · rw [written]
    split <;> exact started
  · rw [Std.ExtTreeMap.mem_iff_isSome_getElem?, snapshots_deleteSnapshot, if_neg other, written,
      ← Std.ExtTreeMap.mem_iff_isSome_getElem?, if_congr same rfl rfl]
    split
    next writes => exact iff_of_true Std.ExtTreeMap.mem_insert_self (.inr writes)
    next idle =>
      rw [checkpoint_withSnapshot_verify, or_iff_left idle]

theorem getMetadata_recordedStore (keeps : KeepsMetadata env.runtime)
    (above : lastAppliedCycle db.toStore < lsu.cycleNumber) {name : String}
    (checkpoint : UnderTag ["consensus:checkpoint:"] name) :
    (recordedStore env lsu db).getMetadata name = db.getMetadata name := by
  obtain ⟨-, -, -, root, -, built, -⟩ :=
    computeRoots_spec env.sha256 (applyLedger env.toApplyEnv db.toStore lsu).1.accounts.toList
  have applied : applyLsuToStorageLocked env.applying db.toStore lsu = _ :=
    applyLsuToStorageLocked_eq above built
  have records := recordApplied_records env lsu root (applyLedger env.toApplyEnv db.toStore lsu).2
    { (applyLedger env.toApplyEnv db.toStore lsu).1 with currentStateRoot := some root }
    (checkpoint.not_of_apart (by decide))
    (fun same => lsuKey_not_underTag (by decide) _ (same ▸ checkpoint))
    (fun same => lsuHashKey_not_underTag (by decide) _ (same ▸ checkpoint))
  have ledger : (applyLedger env.toApplyEnv db.toStore lsu).1.getMetadata name = db.getMetadata name :=
    congrArg (·[name]?) (metadata_applyLedger keeps)
  rw [recordedStore, applied]
  exact (KeptOrPruned.eq records (checkpoint.not_of_apart (by decide))).trans ledger

structure Rejected (env : DatabaseEnv) (cycle : UInt64) (db db' : Database) : Prop where
  columns : db'.columns = db.columns
  started : db'.startupCheckpointWritten = true
  checkpoint : snapshotNameForCycle cycle ∈ db'.snapshots ↔
    snapshotNameForCycle cycle ∈ db.snapshots ∨ WritesCheckpoint env cycle db
  snapshots : ∀ name, ¬IsCheckpointName name → db'.snapshots[name]? = db.snapshots[name]?

theorem rejected_above {db' : Database} (keeps : KeepsMetadata env.runtime)
    (started : db.startupCheckpointWritten = true)
    (above : lastAppliedCycle db.toStore < lsu.cycleNumber)
    (run : applyLsuWithRootCheckLocked env lsu expected db = .ok false db') :
    Rejected env lsu.cycleNumber db db' := by
  have ending := rootChecked env lsu expected db
  obtain ⟨root, built, -⟩ := appliedHistory_applyLsuToStorageLocked keeps above
  rw [run] at ending
  cases ending with
  | skippedOther below => exact absurd below (UInt64.not_le.mpr above)
  | reverted _ reverted =>
    obtain ⟨after, -, started', checkpoint, whole⟩ := @applyLsuWithRootCheckLocked_above env lsu
      root expected db started (free_of_rootCheck run) above built
    rw [run] at whole
    split at whole <;> cases whole
    exact ⟨reverted.columns, started', checkpoint, reverted.snapshots⟩

theorem accepted_above {db' : Database} (keeps : KeepsMetadata env.runtime)
    (started : db.startupCheckpointWritten = true)
    (above : lastAppliedCycle db.toStore < lsu.cycleNumber)
    (run : applyLsuWithRootCheckLocked env lsu expected db = .ok true db') :
    verifySnapshotName lsu.cycleNumber env.nowMs ∉ db.snapshots ∧
      (applyLsuToStorageLocked env.applying db.toStore lsu).2 = .ok expected ∧
      db'.columns = ({ db with toStore := checkpointedStore env lsu expected db } : Database).columns := by
  obtain ⟨root, built, -⟩ := appliedHistory_applyLsuToStorageLocked keeps above
  have free := free_of_rootCheck run
  obtain ⟨after, columns, -, -, whole⟩ :=
    @applyLsuWithRootCheckLocked_above env lsu root expected db started free above built
  rw [run] at whole
  split at whole
  next same =>
    cases whole
    exact ⟨free, same ▸ built, same ▸ columns⟩
  next => cases whole

theorem columns_applyLsuWithRootCheckLocked_below
    (below : lsu.cycleNumber ≤ lastAppliedCycle db.toStore) :
    (endState (applyLsuWithRootCheckLocked env lsu expected db)).columns = db.columns := by
  have ending := rootChecked env lsu expected db
  generalize applyLsuWithRootCheckLocked env lsu expected db = result at ending
  cases ending with
  | taken => rfl
  | skipped => rfl
  | skippedOther => exact columns_commit env.sha256 db
  | applied above => exact absurd below (UInt64.not_le.mpr above)
  | reverted above => exact absurd below (UInt64.not_le.mpr above)

end Rejected

/-- After a rejected apply another update of the cycle ends as it would have without it, unless the
rejected one has left the snapshot of a checkpoint that the other then cannot write. -/
theorem rejectedApply_noTrace_iff {env : DatabaseEnv} (ignores : IgnoresCachedRoot env.runtime)
    (keeps : KeepsMetadata env.runtime) {db db₁ plain : Database}
    (started : db.startupCheckpointWritten = true) {earlier : UInt64} {lsu lsu' : LedgerStateUpdate}
    {wrong right : Hash}
    (rejected : applyLsuWithRootCheckLocked (env.atTime earlier) lsu wrong db = .ok false db₁)
    (sameCycle : lsu'.cycleNumber = lsu.cycleNumber)
    (accepted : applyLsuWithRootCheckLocked env lsu' right db = .ok true plain) :
    (endState (applyLsuWithRootCheckLocked env lsu' right db₁)).columns = plain.columns ↔
      lsu.cycleNumber ≤ lastAppliedCycle db.toStore ∨ ¬WritesCheckpoint env lsu.cycleNumber db ∨
        db.getMetadata (checkpointMetaKey lsu.cycleNumber) =
            some (encodeCheckpointBlob (checkpointOf env lsu' right)) ∧
          db.getMetadata "consensus:checkpoint:latest_cycle" = some (encodeU64 lsu.cycleNumber) := by
  by_cases below : lsu.cycleNumber ≤ lastAppliedCycle db.toStore
  · have first := @columns_applyLsuWithRootCheckLocked_below (env.atTime earlier) lsu wrong db below
    have alone := @columns_applyLsuWithRootCheckLocked_below env lsu' right db (sameCycle ▸ below)
    rw [rejected, endState] at first
    rw [accepted, endState] at alone
    have head : lastAppliedCycle db₁.toStore = lastAppliedCycle db.toStore :=
      congrArg (fun columns : Columns =>
        ((columns.metadata["consensus:last_applied_cycle"]?).bind decodeU64).getD 0) first
    rw [columns_applyLsuWithRootCheckLocked_below (by rw [head, sameCycle]; exact below), first, alone]
    exact iff_of_true rfl (.inl below)
  · have above := UInt64.not_le.mp below
    have above' : lastAppliedCycle db.toStore < lsu'.cycleNumber := sameCycle ▸ above
    have left := @rejected_above (env.atTime earlier) _ _ _ _ keeps started above rejected
    obtain ⟨free, built, alone⟩ := accepted_above keeps started above' accepted
    -- the second apply starts from the same store, but for the cached root
    have store : db₁.toStore = db.toStore.withRoot db₁.currentStateRoot := by
      have accounts := congrArg Columns.accounts left.columns
      have metadata := congrArg Columns.metadata left.columns
      change db₁.accounts = db.accounts at accounts
      change db₁.metadata = db.metadata at metadata
      rw [Store.withRoot, ← accounts, ← metadata]
    have again : applyLsuToStorageLocked env.applying db₁.toStore lsu' =
        applyLsuToStorageLocked env.applying db.toStore lsu' := by
      rw [store]
      exact applyLsuToStorageLocked_withRoot ignores above'
    have free₁ : verifySnapshotName lsu'.cycleNumber env.nowMs ∉ db₁.snapshots := by
      rw [Std.ExtTreeMap.mem_iff_isSome_getElem?, left.snapshots _
        (verifySnapshotName_not_checkpoint _ _), ← Std.ExtTreeMap.mem_iff_isSome_getElem?]
      exact free
    obtain ⟨after, columns, -, -, whole⟩ := @applyLsuWithRootCheckLocked_above env lsu' right right db₁
      left.started free₁ (store ▸ above') (again ▸ built)
    have idle : ¬WritesCheckpoint env lsu'.cycleNumber db₁ := by
      rintro ⟨due, missing⟩
      rw [sameCycle] at due missing
      have absent := not_or.mp (mt left.checkpoint.mpr missing)
      exact absent.2 ⟨due, absent.1⟩
    have others : db₁.stray = db.stray ∧ db₁.others = db.others :=
      ⟨congrArg Columns.stray left.columns, congrArg Columns.others left.columns⟩
    have recorded : recordedStore env lsu' db₁ = recordedStore env lsu' db := congrArg Prod.fst again
    rw [whole, if_pos rfl, endState, columns, alone, checkpointedStore, if_neg idle, recorded,
      checkpointedStore]
    simp only [Database.columns, others, Columns.mk.injEq, and_true]
    rw [or_iff_right below, ← sameCycle]
    by_cases writes : WritesCheckpoint env lsu'.cycleNumber db
    · have same := metadata_recordIn_eq_iff (checkpointOf env lsu' right) (recordedStore env lsu' db)
      have own := @getMetadata_recordedStore env lsu' db keeps above'
        (checkpointMetaKey lsu'.cycleNumber) (underTag_append (List.mem_singleton.mpr rfl) _)
      have latest := @getMetadata_recordedStore env lsu' db keeps above'
        "consensus:checkpoint:latest_cycle" (by decide +kernel)
      change _ ↔ (recordedStore env lsu' db).getMetadata (checkpointMetaKey lsu'.cycleNumber) = _ ∧
        _ = some (encodeU64 lsu'.cycleNumber) at same
      rw [own, latest] at same
      rw [if_pos writes, or_iff_right (not_not.mpr writes), ← same]
      exact ⟨fun both => both.2.symm, fun metadata => ⟨rfl, metadata.symm⟩⟩
    · rw [if_neg writes]
      exact iff_of_true ⟨rfl, rfl⟩ (.inl writes)

def answers (b : Bool) : EStateM.Result ReconcileError Database Bool → Bool
  | .ok a _ => a = b
  | .error _ _ => false

theorem eq_ok_of_answers {b : Bool} {result : EStateM.Result ReconcileError Database Bool}
    (answered : answers b result = true) : ∃ db, result = .ok b db := by
  cases result with
  | ok a db => exact ⟨db, by rw [of_decide_eq_true answered]⟩
  | error e db => exact absurd answered Bool.false_ne_true

def sampleStarted : Database := { Database.fresh with startupCheckpointWritten := true }

/-- A rejected apply of cycle 32 keeps the right one from writing the checkpoint. -/
theorem rejectedApply_checkpointLost :
    let apply := applyLsuWithRootCheckLocked sampleDatabaseEnv
    let wrong := hashData checksum (sampleVoted 32 1)
    let attempted := endState (apply (sampleVoted 32 1) wrong sampleStarted)
    answers false (apply (sampleVoted 32 1) wrong sampleStarted) = true ∧
    answers true (apply (sampleVoted 32 2) (zeros 32) sampleStarted) = true ∧
    answers true (apply (sampleVoted 32 2) (zeros 32) attempted) = true ∧
    (loadCheckpointAtCycle (endState (apply (sampleVoted 32 2) (zeros 32) sampleStarted)).toStore
      32).isSome = true ∧
    (loadCheckpointAtCycle (endState (apply (sampleVoted 32 2) (zeros 32) attempted)).toStore
      32).isSome = false := by
  decide +kernel

/-- In a cycle without a checkpoint the rejected apply has left no trace. -/
theorem rejectedApply_noTrace_iff_first :
    ∃ attempted plain,
      applyLsuWithRootCheckLocked sampleDatabaseEnv (sampleVoted 1 1)
        (hashData checksum (sampleVoted 1 1)) sampleStarted = .ok false attempted ∧
      applyLsuWithRootCheckLocked sampleDatabaseEnv (sampleVoted 1 2) (zeros 32) sampleStarted =
        .ok true plain ∧
      (endState (applyLsuWithRootCheckLocked sampleDatabaseEnv (sampleVoted 1 2) (zeros 32)
        attempted)).columns = plain.columns := by
  obtain ⟨attempted, rejected⟩ := @eq_ok_of_answers false (applyLsuWithRootCheckLocked
    sampleDatabaseEnv (sampleVoted 1 1) (hashData checksum (sampleVoted 1 1)) sampleStarted)
    (by decide +kernel)
  obtain ⟨plain, accepted⟩ := @eq_ok_of_answers true (applyLsuWithRootCheckLocked
    sampleDatabaseEnv (sampleVoted 1 2) (zeros 32) sampleStarted) (by decide +kernel)
  refine ⟨attempted, plain, rejected, accepted, ?_⟩
  have same := @rejectedApply_noTrace_iff sampleDatabaseEnv (fun _ _ _ _ _ _ => rfl)
    (fun _ _ _ _ _ => rfl) sampleStarted attempted plain rfl sampleDatabaseEnv.nowMs
    (sampleVoted 1 1) (sampleVoted 1 2) _ _ rejected rfl accepted
  exact same.mpr (.inr (.inl (by decide +kernel)))

end CatalystNode
