import CatalystNode.PruningWindow
import CatalystNode.ReceiptStatus
import CatalystNode.EvmRevm

namespace CatalystNode

open ByteVector HexCodec FoldTrace Store

structure EvmCall where
  store : Store
  caller : PublicKey
  payload : EvmTxPayload

def callAt (runtime : EvmRuntime) (step : EntryPass × TransactionEntry) : Option EvmCall :=
  if isWorkerRegMarker step.2.signature then none
  else if ¬isEvmMarker step.2.signature then none
  else if step.2.signature ∈ step.1.executedSigs then none
  else (decodeEvmMarker runtime step.2.signature).map (fun payload =>
    ⟨step.1.store, step.2.publicKey, payload.1⟩)

section Executions

variable (runtime : EvmRuntime) (chainId cycle : UInt64)

def executionAt (step : EntryPass × TransactionEntry) : Option (Except String EvmExecution) :=
  (callAt runtime step).map (fun call => (runtime.executeAndPersist call.store call.caller chainId
    call.payload (max defaultEvmGasLimit 21000)).2)

def executionsFrom (pass : EntryPass) (entries : List TransactionEntry) (sig : Bytes) :
    List (Except String EvmExecution) :=
  (foldSteps (applyEntry runtime chainId cycle) pass entries).filterMap (fun step =>
    if step.2.signature = sig then executionAt runtime chainId step else none)

def executions (store : Store) (lsu : LedgerStateUpdate) (sig : Bytes) :
    List (Except String EvmExecution) :=
  executionsFrom runtime (loadChainIdU64 store) lsu.cycleNumber ⟨store, ∅, []⟩
    lsu.partialUpdate.transactionEntries sig

def executionSucceeded : Except String EvmExecution → Bool
  | .ok info => info.success
  | .error _ => false

theorem success_ofExecution (run : Except String EvmExecution) :
    (ApplyOutcome.ofExecution run).success = executionSucceeded run := by
  cases run <;> rfl

/-- The recorded outcomes tell how the executions so far went: each has left its own outcome, and only
an execution leaves a failure. -/
structure OutcomesTell (pass : EntryPass) (runs : Bytes → List (Except String EvmExecution)) : Prop where
  recorded : ∀ sig, ∀ run ∈ runs sig, pass.outcomeBySig[sig]? = some (.ofExecution run)
  failed : ∀ sig o, pass.outcomeBySig[sig]? = some o → o.success = false →
    ∃ run ∈ runs sig, executionSucceeded run = false
  executed : ∀ sig, runs sig ≠ [] → sig ∈ pass.executedSigs

variable {runtime chainId cycle} {pass : EntryPass} {runs : Bytes → List (Except String EvmExecution)}

theorem OutcomesTell.noteSuccess (tell : OutcomesTell pass runs) (sig : Bytes) (store : Store) :
    OutcomesTell ⟨store, pass.outcomeBySig.insertIfNew sig .succeeded, pass.executedSigs⟩ runs := by
  refine ⟨fun other run ran => ?_, fun other o found failed => ?_, tell.executed⟩
  · have before := tell.recorded other run ran
    have known : other ∈ pass.outcomeBySig := Std.ExtTreeMap.mem_iff_isSome_getElem?.mpr (by simp [before])
    rw [Std.ExtTreeMap.getElem?_insertIfNew, if_neg, before]
    rintro ⟨same, fresh⟩
    exact fresh (Std.LawfulEqCmp.eq_of_compare same ▸ known)
  · rw [Std.ExtTreeMap.getElem?_insertIfNew] at found
    split at found
    next =>
      cases found
      cases failed
    next => exact tell.failed other o found failed

theorem OutcomesTell.record (tell : OutcomesTell pass runs) {sig : Bytes}
    (fresh : sig ∉ pass.executedSigs) (store : Store) (run : Except String EvmExecution) :
    OutcomesTell ⟨store, pass.outcomeBySig.insert sig (.ofExecution run), sig :: pass.executedSigs⟩
      (fun other => runs other ++ (if sig = other then some run else none).toList) := by
  have never : runs sig = [] := by
    by_contra ran
    exact fresh (tell.executed sig ran)
  refine ⟨fun other r ran => ?_, fun other o found failed => ?_, fun other ran => ?_⟩
  · by_cases own : sig = other
    · subst own
      have only : r = run := by simpa [never] using ran
      rw [only, Std.ExtTreeMap.getElem?_insert_self]
    · have before : r ∈ runs other := by simpa [own] using ran
      rw [Std.ExtTreeMap.getElem?_insert, if_neg (by simpa using own), tell.recorded other r before]
  · by_cases own : sig = other
    · subst own
      rw [Std.ExtTreeMap.getElem?_insert_self] at found
      cases found
      exact ⟨run, by simp, success_ofExecution run ▸ failed⟩
    · rw [Std.ExtTreeMap.getElem?_insert, if_neg (by simpa using own)] at found
      obtain ⟨r, before, bad⟩ := tell.failed other o found failed
      exact ⟨r, List.mem_append_left _ before, bad⟩
  · by_cases own : sig = other
    · exact own ▸ List.mem_cons_self
    · exact List.mem_cons_of_mem _ (tell.executed other (by simpa [own] using ran))

theorem OutcomesTell.step (tell : OutcomesTell pass runs) (e : TransactionEntry) :
    OutcomesTell (applyEntry runtime chainId cycle pass e) (fun sig => runs sig ++
      (if e.signature = sig then executionAt runtime chainId (pass, e) else none).toList) := by
  have idle : executionAt runtime chainId (pass, e) = none → ∀ {after : EntryPass},
      OutcomesTell after runs → OutcomesTell after (fun sig => runs sig ++
        (if e.signature = sig then executionAt runtime chainId (pass, e) else none).toList) := by
    intro nothing after told
    simpa [nothing] using told
  unfold applyEntry
  split
  next registers =>
    apply idle
    · rw [executionAt, callAt, if_pos registers, Option.map_none]
    · exact tell.noteSuccess e.signature _
  next unmarked =>
    split
    next contract =>
      unfold applyEvmEntry
      split
      next before =>
        apply idle
        · rw [executionAt, callAt, if_neg unmarked, if_neg (not_not_intro contract), if_pos before,
            Option.map_none]
        · exact tell
      next fresh =>
        have called : callAt runtime (pass, e) = (decodeEvmMarker runtime e.signature).map
            (fun payload => ⟨pass.store, e.publicKey, payload.1⟩) := by
          rw [callAt, if_neg unmarked, if_neg (not_not_intro contract), if_neg fresh]
        dsimp only
        split
        next undecodable =>
          apply idle
          · rw [executionAt, called, undecodable, Option.map_none, Option.map_none]
          · exact ⟨tell.recorded, tell.failed, fun sig ran =>
              List.mem_cons_of_mem _ (tell.executed sig ran)⟩
        next payload decoded =>
          have ran : executionAt runtime chainId (pass, e) = some (runtime.executeAndPersist pass.store
              e.publicKey chainId payload.1 (max defaultEvmGasLimit 21000)).2 := by
            rw [executionAt, called, decoded, Option.map_some, Option.map_some]
          rw [ran]
          exact tell.record fresh _ _
    next plain =>
      apply idle
      · rw [executionAt, callAt, if_neg unmarked, if_pos plain, Option.map_none]
      · exact tell.noteSuccess e.signature _

theorem executionsFrom_cons (e : TransactionEntry) (entries : List TransactionEntry) (sig : Bytes) :
    executionsFrom runtime chainId cycle pass (e :: entries) sig =
      (if e.signature = sig then executionAt runtime chainId (pass, e) else none).toList ++
        executionsFrom runtime chainId cycle (applyEntry runtime chainId cycle pass e) entries sig := by
  rw [executionsFrom, foldSteps, List.filterMap_cons]
  cases (if e.signature = sig then executionAt runtime chainId (pass, e) else none) <;> rfl

theorem OutcomesTell.foldl (tell : OutcomesTell pass runs) (entries : List TransactionEntry) :
    OutcomesTell (entries.foldl (applyEntry runtime chainId cycle) pass) (fun sig => runs sig ++
      executionsFrom runtime chainId cycle pass entries sig) := by
  induction entries generalizing pass runs with
  | nil => simpa [executionsFrom, foldSteps] using tell
  | cons e entries ih =>
    have first : OutcomesTell (applyEntry runtime chainId cycle pass e) _ := tell.step e
    have rest := ih first
    simp only [List.append_assoc, ← executionsFrom_cons] at rest
    exact rest

/-- A boundary is recorded as failed exactly if one of its executions failed. -/
theorem outcome_success_iff (store : Store) (lsu : LedgerStateUpdate) (sig : Bytes) :
    (((applyEntries runtime store lsu).outcomeBySig[sig]?.map ApplyOutcome.success).getD true = true) ↔
      ∀ run ∈ executions runtime store lsu sig, executionSucceeded run = true := by
  have start : OutcomesTell ⟨store, ∅, []⟩ (fun _ => []) :=
    ⟨fun _ _ ran => absurd ran List.not_mem_nil, fun _ _ found => by simp at found,
      fun _ ran => absurd rfl ran⟩
  have tell : OutcomesTell (applyEntries runtime store lsu) (executions runtime store lsu) :=
    start.foldl _
  constructor
  · intro success run ran
    rw [tell.recorded sig run ran, Option.map_some, Option.getD_some, success_ofExecution] at success
    exact success
  · intro all
    by_contra failure
    cases found : (applyEntries runtime store lsu).outcomeBySig[sig]? with
    | none => simp [found] at failure
    | some o =>
      have bad : o.success = false := by simpa [found] using failure
      obtain ⟨run, ran, failed⟩ := tell.failed sig o found bad
      rw [all run ran] at failed
      cases failed

end Executions

section Receipts

def boundaries (lsu : LedgerStateUpdate) : List Bytes :=
  lsu.partialUpdate.transactionEntries.map TransactionEntry.signature

variable (env : DatabaseEnv)

/-- The boundary under which the apply looks for the outcome of a transaction: that of the transaction
recorded under its id. -/
def receiptBoundary (store : Store) (txid : Hash) : Option Bytes := do
  let bytes ← store.getMetadata (txRawKey txid)
  let tx ← env.decodeTx bytes
  return txBoundarySignature env.tx tx

variable {env} {store : Store} {lsu : LedgerStateUpdate} {txid : Hash} {cycle : UInt64}
  {lsuHash stateRoot : Hash} {outcomes : Std.ExtTreeMap Bytes ApplyOutcome}

theorem outcomeOf_eq : outcomeOf env.toApplyEnv store outcomes txid =
    (receiptBoundary env store txid).bind (fun sig => outcomes[sig]?) := by
  simp [outcomeOf, receiptBoundary, Option.bind_assoc]

theorem outcomeOf_congr {s t : Store}
    (same : t.getMetadata (txRawKey txid) = s.getMetadata (txRawKey txid)) :
    outcomeOf env.toApplyEnv t outcomes txid = outcomeOf env.toApplyEnv s outcomes txid := by
  rw [outcomeOf, outcomeOf, same]

structure Receipted (outcome : Option ApplyOutcome) (lsuHash : Hash) (txMeta : TxMeta) : Prop where
  status : txMeta.status = .applied
  lsuHash : txMeta.appliedLsuHash = some lsuHash
  success : txMeta.appliedSuccess = some ((outcome.map ApplyOutcome.success).getD true)

theorem receipted_writeReceipt (lawful : LawfulRecords env) (store : Store) :
    ∃ txMeta, readTxMeta env (writeReceipt env.toApplyEnv cycle lsuHash stateRoot outcomes store txid)
        txid = some txMeta ∧
      Receipted (outcomeOf env.toApplyEnv store outcomes txid) lsuHash txMeta := by
  refine ⟨_, readTxMeta_write lawful store _, ?_⟩
  cases outcomeOf env.toApplyEnv store outcomes txid with
  | none => exact ⟨rfl, rfl, rfl⟩
  | some o => exact ⟨rfl, rfl, rfl⟩

theorem txMetaKey_inj {a b : Hash} (same : txMetaKey a = txMetaKey b) : a = b :=
  encodeString_inj ((String.append_right_inj "tx:meta:").mp same)

theorem readTxMeta_writeReceipt_of_ne (store : Store) {other : Hash} (apart : other ≠ txid) :
    readTxMeta env (writeReceipt env.toApplyEnv cycle lsuHash stateRoot outcomes store other) txid =
      readTxMeta env store txid := by
  have keys : txMetaKey other ≠ txMetaKey txid := fun same => apart (txMetaKey_inj same)
  unfold writeReceipt
  dsimp only
  split
  next => rfl
  next => exact readTxMeta_set store _ keys

theorem readTxMeta_foldl_of_not_mem {ids : List Hash} (unlisted : txid ∉ ids) (store : Store) :
    readTxMeta env (ids.foldl (writeReceipt env.toApplyEnv cycle lsuHash stateRoot outcomes) store) txid =
      readTxMeta env store txid :=
  foldl_invariant (P := fun s => readTxMeta env s txid = readTxMeta env store txid) rfl
    (fun s id listed same => by
      have apart : id ≠ txid := fun own => unlisted (own ▸ mem_of_mem_foldSteps listed)
      rw [readTxMeta_writeReceipt_of_ne s apart, same])

/-- Every listed transaction gets a receipt, with the outcome found through its own record. -/
theorem receipted_foldl (lawful : LawfulRecords env) {ids : List Hash} (listed : txid ∈ ids)
    (store : Store) :
    ∃ txMeta, readTxMeta env (ids.foldl (writeReceipt env.toApplyEnv cycle lsuHash stateRoot outcomes)
        store) txid = some txMeta ∧
      Receipted (outcomeOf env.toApplyEnv store outcomes txid) lsuHash txMeta := by
  induction ids generalizing store with
  | nil => cases listed
  | cons id ids ih =>
    rw [List.foldl_cons]
    by_cases later : txid ∈ ids
    · obtain ⟨txMeta, read, receipted⟩ := ih later
        (writeReceipt env.toApplyEnv cycle lsuHash stateRoot outcomes store id)
      have raw : (writeReceipt env.toApplyEnv cycle lsuHash stateRoot outcomes store id).getMetadata
          (txRawKey txid) = store.getMetadata (txRawKey txid) :=
        getMetadata_writeReceipt (not_underTag_append (by decide) _) store id
      rw [outcomeOf_congr raw] at receipted
      exact ⟨txMeta, read, receipted⟩
    · have own : id = txid := by
        rcases List.mem_cons.mp listed with own | rest
        · exact own.symm
        · exact absurd rest later
      subst own
      rw [readTxMeta_foldl_of_not_mem later]
      exact receipted_writeReceipt lawful store

/-- What an apply has stored under the id of a transaction when it comes to its pruning: its own receipt
if the transaction is listed for the cycle, and otherwise what was stored before. -/
theorem readTxMeta_appliedBeforePruning (lawful : LawfulRecords env) (keeps : KeepsMetadata env.runtime)
    (lsu : LedgerStateUpdate) (root : Hash) (store : Store) (txid : Hash) :
    (txid ∈ loadCycleTxids env.toApplyEnv store lsu.cycleNumber ∧
      ∃ txMeta, readTxMeta env (appliedBeforePruning env lsu root store) txid = some txMeta ∧
        Receipted (outcomeOf env.toApplyEnv store (applyEntries env.runtime store lsu).outcomeBySig txid)
          (hashData env.tx.blake2b512 lsu) txMeta) ∨
    (txid ∉ loadCycleTxids env.toApplyEnv store lsu.cycleNumber ∧
      readTxMeta env (appliedBeforePruning env lsu root store) txid = readTxMeta env store txid) := by
  let ledger := applyLedger env.toApplyEnv store lsu
  let committed : Store := { ledger.1 with currentStateRoot := some root }
  have metadata : ∀ name, committed.getMetadata name = store.getMetadata name := fun name =>
    congrArg (·[name]?) (metadata_applyLedger keeps)
  have index : loadCycleTxids env.toApplyEnv committed lsu.cycleNumber =
      loadCycleTxids env.toApplyEnv store lsu.cycleNumber := by
    rw [loadCycleTxids, metadata, loadCycleTxids]
  have own : UnderTag ["tx:meta:"] (txMetaKey txid) := underTag_append (List.mem_singleton_self _) _
  have update : txMetaKey txid ≠ lsuKey lsu.cycleNumber := fun same =>
    lsuKey_not_underTag (by decide) lsu.cycleNumber (same ▸ own)
  have hash : txMetaKey txid ≠ lsuHashKey lsu.cycleNumber := fun same =>
    lsuHashKey_not_underTag (by decide) lsu.cycleNumber (same ▸ own)
  have receipts : readTxMeta env (appliedBeforePruning env lsu root store) txid =
      readTxMeta env ((loadCycleTxids env.toApplyEnv store lsu.cycleNumber).foldl
        (writeReceipt env.toApplyEnv lsu.cycleNumber (hashData env.tx.blake2b512 lsu) root ledger.2)
        committed) txid := by
    rw [← index, readTxMeta, appliedBeforePruning,
      getMetadata_prunePersistedMempool env _ (own.not_of_apart (by decide)), recordedBeforePruning,
      getMetadata_persistAppliedHistory update hash,
      getMetadata_persistAppliedHead (own.not_of_apart (by decide)), readTxMeta]
  rw [receipts]
  by_cases listed : txid ∈ loadCycleTxids env.toApplyEnv store lsu.cycleNumber
  · have receipted := @receipted_foldl env txid lsu.cycleNumber (hashData env.tx.blake2b512 lsu) root
      ledger.2 lawful _ listed committed
    rw [outcomeOf_congr (metadata _)] at receipted
    exact .inl ⟨listed, receipted⟩
  · refine .inr ⟨listed, ?_⟩
    rw [readTxMeta_foldl_of_not_mem listed, readTxMeta, metadata, readTxMeta]

theorem applyLsuToStorage_eq_prune (above : lastAppliedCycle store < lsu.cycleNumber) :
    ∃ root, (applyLsuToStorage env.applying store lsu).1 =
      maybePruneHistory env (appliedBeforePruning env lsu root store) := by
  obtain ⟨-, -, -, root, -, built, -⟩ :=
    computeRoots_spec env.sha256 (applyLedger env.toApplyEnv store lsu).1.accounts.toList
  exact ⟨root, applyLsuToStorageLocked_eq_prune above built⟩

theorem readTxMeta_of_pruned {txMeta : TxMeta}
    (stored : readTxMeta env (maybePruneHistory env store) txid = some txMeta) :
    readTxMeta env store txid = some txMeta := by
  rcases (prunedTo_maybePruneHistory env store).records (txMetaKey txid)
    (not_underTag_append (by decide) _) with same | ⟨-, gone⟩
  · rw [← stored, readTxMeta, readTxMeta, same]
  · rw [readTxMeta, gone, Option.bind_none] at stored
    cases stored

end Receipts

section Truth

variable (env : DatabaseEnv) (store : Store) (lsu : LedgerStateUpdate) (tx : Transaction)

def AppliedBy (txMeta : TxMeta) : Prop :=
  txMeta.status = .applied ∧ txMeta.appliedLsuHash = some (hashData env.tx.blake2b512 lsu)

/-- The transactions of which an apply says that its update has them: those listed for the cycle, and
those of which the store has said so before. -/
def GetsReceipt : Prop :=
  txIdV2 env.tx.blake2b512 tx ∈ loadCycleTxids env.toApplyEnv store lsu.cycleNumber ∨
    ∃ txMeta, readTxMeta env store (txIdV2 env.tx.blake2b512 tx) = some txMeta ∧ AppliedBy env lsu txMeta

/-- A receipt is true if the update has the transaction and none of its executions failed unnoticed. -/
def ReceiptTrue : Prop :=
  ∀ txMeta, readTxMeta env (applyLsuToStorage env.applying store lsu).1 (txIdV2 env.tx.blake2b512 tx) =
      some txMeta → AppliedBy env lsu txMeta →
    txBoundarySignature env.tx tx ∈ boundaries lsu ∧ (txMeta.appliedSuccess = some true →
      ∀ run ∈ executions env.runtime store lsu (txBoundarySignature env.tx tx),
        executionSucceeded run = true)

/-- A transaction that gets a receipt is one of the update. If it calls a contract, its outcome is found
through its own record, or it has an earlier receipt that does not say success. -/
def ReceiptBacked : Prop :=
  GetsReceipt env store lsu tx → txBoundarySignature env.tx tx ∈ boundaries lsu ∧
    (isEvmMarker (txBoundarySignature env.tx tx) →
      if txIdV2 env.tx.blake2b512 tx ∈ loadCycleTxids env.toApplyEnv store lsu.cycleNumber then
        receiptBoundary env store (txIdV2 env.tx.blake2b512 tx) = some (txBoundarySignature env.tx tx)
      else (readTxMeta env store (txIdV2 env.tx.blake2b512 tx)).bind TxMeta.appliedSuccess ≠ some true)

variable {env store lsu tx}

theorem executions_of_plain {runtime : EvmRuntime} {sig : Bytes} (plain : isEvmMarker sig = false) :
    executions runtime store lsu sig = [] := by
  refine List.filterMap_eq_nil_iff.mpr (fun step _ => ?_)
  split
  next own =>
    have none : callAt runtime step = none := by
      unfold callAt
      rw [own, plain]
      simp
    rw [executionAt, none, Option.map_none]
  next => rfl

/-- What an apply leaves of the receipt of a transaction, unless it prunes it. -/
theorem readTxMeta_applied (lawful : LawfulRecords env) (keeps : KeepsMetadata env.runtime)
    (above : lastAppliedCycle store < lsu.cycleNumber) {txid : Hash} {txMeta : TxMeta}
    (stored : readTxMeta env (applyLsuToStorage env.applying store lsu).1 txid = some txMeta) :
    txid ∈ loadCycleTxids env.toApplyEnv store lsu.cycleNumber ∧
      Receipted (outcomeOf env.toApplyEnv store (applyEntries env.runtime store lsu).outcomeBySig txid)
        (hashData env.tx.blake2b512 lsu) txMeta ∨
    txid ∉ loadCycleTxids env.toApplyEnv store lsu.cycleNumber ∧
      readTxMeta env store txid = some txMeta := by
  obtain ⟨root, pruned⟩ := @applyLsuToStorage_eq_prune env store lsu above
  rw [pruned] at stored
  have present := readTxMeta_of_pruned stored
  rcases readTxMeta_appliedBeforePruning lawful keeps lsu root store txid with
    ⟨listed, written, read, receipted⟩ | ⟨unlisted, old⟩
  · cases Option.some.inj (read.symm.trans present)
    exact .inl ⟨listed, receipted⟩
  · exact .inr ⟨unlisted, old.symm.trans present⟩

theorem receiptTrue_of_backed (lawful : LawfulRecords env) (keeps : KeepsMetadata env.runtime)
    (above : lastAppliedCycle store < lsu.cycleNumber) (backed : ReceiptBacked env store lsu tx) :
    ReceiptTrue env store lsu tx := by
  intro txMeta stored applied
  have old := readTxMeta_applied lawful keeps above stored
  obtain ⟨included, recorded⟩ := backed (old.imp And.left (fun kept => ⟨txMeta, kept.2, applied⟩))
  refine ⟨included, fun success => ?_⟩
  cases marker : isEvmMarker (txBoundarySignature env.tx tx) with
  | false =>
    rw [executions_of_plain marker]
    exact fun run ran => absurd ran List.not_mem_nil
  | true =>
    have recorded := recorded marker
    rcases old with ⟨listed, receipted⟩ | ⟨unlisted, kept⟩
    · rw [if_pos listed] at recorded
      rw [receipted.success, outcomeOf_eq, recorded, Option.some.injEq] at success
      exact (outcome_success_iff store lsu _).mp success
    · rw [if_neg unlisted, kept] at recorded
      exact absurd success recorded

/-- Where nothing is pruned, these receipts are there after the apply. -/
theorem exists_receipt (lawful : LawfulRecords env) (keeps : KeepsMetadata env.runtime)
    (above : lastAppliedCycle store < lsu.cycleNumber) (disabled : (loadPruneCfg store).enabled = false)
    (gets : GetsReceipt env store lsu tx) :
    ∃ txMeta, readTxMeta env (applyLsuToStorage env.applying store lsu).1
      (txIdV2 env.tx.blake2b512 tx) = some txMeta ∧ AppliedBy env lsu txMeta := by
  obtain ⟨root, pruned⟩ := @applyLsuToStorage_eq_prune env store lsu above
  have unpruned : maybePruneHistory env (appliedBeforePruning env lsu root store) =
      appliedBeforePruning env lsu root store := by
    have config := loadPruneCfg_enabled_congr (@getMetadata_appliedBeforePruning_storage env store lsu root
      keeps "storage:history_prune_enabled" (by decide))
    rw [maybePruneHistory, if_pos (by simp [config, disabled])]
  rw [pruned, unpruned]
  rcases readTxMeta_appliedBeforePruning lawful keeps lsu root store (txIdV2 env.tx.blake2b512 tx) with
    ⟨-, txMeta, read, receipted⟩ | ⟨unlisted, old⟩
  · exact ⟨txMeta, read, receipted.status, receipted.lsuHash⟩
  · obtain ⟨txMeta, kept, applied⟩ := gets.resolve_left unlisted
    exact ⟨txMeta, old.trans kept, applied⟩

end Truth

/-- The receipt of a transaction is true if the store backs it. Where nothing is pruned, a true receipt
is one of a transaction of the update. -/
theorem receipt_true (env : DatabaseEnv) (lawful : LawfulRecords env)
    (keeps : KeepsMetadata env.runtime) (store : Store) (lsu : LedgerStateUpdate)
    (above : lastAppliedCycle store < lsu.cycleNumber) (tx : Transaction) :
    (ReceiptBacked env store lsu tx → ReceiptTrue env store lsu tx) ∧
    ((loadPruneCfg store).enabled = false → ReceiptTrue env store lsu tx →
      GetsReceipt env store lsu tx → txBoundarySignature env.tx tx ∈ boundaries lsu) := by
  refine ⟨receiptTrue_of_backed lawful keeps above, fun disabled holds gets => ?_⟩
  obtain ⟨txMeta, stored, applied⟩ := exists_receipt lawful keeps above disabled gets
  exact (holds txMeta stored applied).1

section Samples

def sampleBounded (sigs : List Bytes) : LedgerStateUpdate :=
  ⟨⟨sigs.map (fun sig => ⟨zeros 32, 0, sig⟩), zeros 32, 0, 0⟩, [], 7, [], []⟩

def sampleSelected (ids : Bytes) (txid : Hash) : Store :=
  (Store.empty.setMetadata (cycleTxidsKey 7) ids).setMetadata (txRawKey txid) []

theorem getMetadata_sampleSelected {ids : Bytes} {txid : Hash} {name : String}
    (other : ¬UnderTag ["tx:cycle:", "tx:raw:"] name) :
    (sampleSelected ids txid).getMetadata name = none := by
  have index : cycleTxidsKey 7 ≠ name := by
    rintro rfl
    rw [cycleTxidsKey_eq] at other
    exact other (underTag_append (by simp) _)
  have raw : txRawKey txid ≠ name := by
    rintro rfl
    exact other (underTag_append (by simp) _)
  rw [sampleSelected, getMetadata_setMetadata_of_ne _ _ raw, getMetadata_setMetadata_of_ne _ _ index]
  simp [Store.empty, Store.getMetadata]

/-- What such a store holds, and the receipt that an update of the cycle leaves in it, whatever
boundaries the update has. -/
structure SampleReceipt (env : DatabaseEnv) (store : Store) (lsu : LedgerStateUpdate) (txMeta : TxMeta) :
    Prop where
  records : LawfulRecords env
  keeps : KeepsMetadata env.runtime
  above : lastAppliedCycle store < lsu.cycleNumber
  listed : sampleTxid env ∈ loadCycleTxids env.toApplyEnv store lsu.cycleNumber
  recorded : receiptBoundary env store (sampleTxid env) = some (txBoundarySignature env.tx sampleWireTx)
  stored : readTxMeta env (applyLsuToStorage env.applying store lsu).1 (sampleTxid env) = some txMeta
  applied : AppliedBy env lsu txMeta

theorem exists_sampleReceipt (sigs : TxEnv → List Bytes) :
    ∃ env store txMeta, SampleReceipt env store (sampleBounded (sigs env.tx)) txMeta := by
  obtain ⟨base, lawful, -⟩ := exists_lawfulRecords
  let env : DatabaseEnv := { base with
    runtime := sampleApplyEnv.runtime
    decodeTx := fun _ => some sampleWireTx }
  have records : LawfulRecords env := ⟨lawful.txMeta, lawful.txids, lawful.tx⟩
  have keeps : KeepsMetadata env.runtime := fun _ _ _ _ _ => rfl
  obtain ⟨ids, -, decoded⟩ := Option.bind_eq_some_iff.mp (records.txids [sampleTxid env])
  let store := sampleSelected ids (sampleTxid env)
  have above : lastAppliedCycle store < (sampleBounded (sigs env.tx)).cycleNumber := by
    rw [lastAppliedCycle, getMetadata_sampleSelected (by decide)]
    exact (by decide : (0 : UInt64) < 7)
  have disabled : (loadPruneCfg store).enabled = false := by
    rw [loadPruneCfg, getMetadata_sampleSelected (by decide)]
    rfl
  have listed : sampleTxid env ∈ loadCycleTxids env.toApplyEnv store
      (sampleBounded (sigs env.tx)).cycleNumber := by
    have apart : txRawKey (sampleTxid env) ≠ cycleTxidsKey 7 := by
      rw [cycleTxidsKey_eq]
      exact keyTag_ne 4 (by decide) (by decide) (by decide)
    change sampleTxid env ∈ (((sampleSelected ids (sampleTxid env)).getMetadata (cycleTxidsKey 7)).bind
      env.decodeTxids).getD []
    rw [sampleSelected, getMetadata_setMetadata_of_ne _ _ apart, getMetadata_setMetadata_self, Option.bind_some, decoded]
    exact List.mem_singleton_self _
  have recorded : receiptBoundary env store (sampleTxid env) =
      some (txBoundarySignature env.tx sampleWireTx) := by
    rw [receiptBoundary, show store = sampleSelected ids (sampleTxid env) from rfl, sampleSelected,
      getMetadata_setMetadata_self]
    rfl
  obtain ⟨txMeta, stored, applied⟩ := @exists_receipt env store _ sampleWireTx records keeps above
    disabled (.inl listed)
  exact ⟨env, store, txMeta, records, keeps, above, listed, recorded, stored, applied⟩

/-- A transaction that was selected for a cycle gets the receipt of an update that does not have it. -/
theorem receipt_of_absent :
    ∃ env store txMeta, SampleReceipt env store (sampleBounded []) txMeta ∧
      txBoundarySignature env.tx sampleWireTx ∉ boundaries (sampleBounded []) := by
  obtain ⟨env, store, txMeta, sample⟩ := exists_sampleReceipt (fun _ => [])
  exact ⟨env, store, txMeta, sample, List.not_mem_nil⟩

/-- If the update has it, the receipt is true. -/
theorem receipt_true_included :
    ∃ env store txMeta,
      SampleReceipt env store (sampleBounded [txBoundarySignature env.tx sampleWireTx]) txMeta ∧
      (txMeta.appliedSuccess = some true → ∀ run ∈ executions env.runtime store
        (sampleBounded [txBoundarySignature env.tx sampleWireTx])
        (txBoundarySignature env.tx sampleWireTx), executionSucceeded run = true) := by
  obtain ⟨env, store, txMeta, sample⟩ := exists_sampleReceipt (fun tx =>
    [txBoundarySignature tx sampleWireTx])
  have backed : ReceiptBacked env store (sampleBounded [txBoundarySignature env.tx sampleWireTx])
      sampleWireTx := by
    refine fun _ => ⟨List.mem_cons_self, fun _ => ?_⟩
    rw [← sampleTxid, if_pos sample.listed]
    exact sample.recorded
  have holds := (receipt_true env sample.records sample.keeps store _ sample.above sampleWireTx).1 backed
  exact ⟨env, store, txMeta, sample, (holds txMeta sample.stored sample.applied).2⟩

end Samples

end CatalystNode
