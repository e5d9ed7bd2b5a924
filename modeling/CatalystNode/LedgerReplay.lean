import CatalystNode.StateBundle
import CatalystNode.TrustedApply

namespace CatalystNode

open ByteVector HexCodec MachineInt KeyedUpdates Store

section Entries

variable (runtime : EvmRuntime) (chainId cycle : UInt64) (benv : BundleEnv)

/-- The contract calls among some entries write nothing but the records of contracts. -/
def ContractsContained (runtime : EvmRuntime) (entries : List TransactionEntry) : Prop :=
  ∀ e ∈ entries, isEvmMarker e.signature = true → ∀ store pk chainId payload gasLimit,
    WritesWithin [utf8 "evm:"] store
      (runtime.executeAndPersist store pk chainId payload gasLimit).1

theorem ContractsContained.of_mem {runtime : EvmRuntime} {entries : List TransactionEntry}
    (contained : ContractsContained runtime entries) {e : TransactionEntry} (he : e ∈ entries) :
    ContractsContained runtime [e] := by
  intro other member
  rw [List.mem_singleton.mp member]
  exact contained e he

theorem ContractsContained.tail {runtime : EvmRuntime} {e : TransactionEntry}
    {entries : List TransactionEntry} (contained : ContractsContained runtime (e :: entries)) :
    ContractsContained runtime entries :=
  fun other member => contained other (List.mem_cons_of_mem e member)

def entryTags : List Bytes := utf8 "evm:" :: utf8 "bal:" :: registrationTags

theorem writesWithin_applyEntry_unmarked (pass : EntryPass) {e : TransactionEntry}
    (contained : ContractsContained runtime [e]) (plain : isWorkerRegMarker e.signature = false) :
    WritesWithin [utf8 "evm:", utf8 "bal:"] pass.store
      (applyEntry runtime chainId cycle pass e).store := by
  rw [applyEntry, if_neg (by simp [plain])]
  split
  next contract =>
    unfold applyEvmEntry
    split
    next => exact .refl _ _
    next =>
      dsimp only
      split
      next => exact .refl _ _
      next => exact (contained e List.mem_cons_self contract _ _ _ _ _).mono (by simp)
  next => exact (writesWithin_addToBalance _ _ _).mono (by simp)

theorem writesWithin_applyEntry (pass : EntryPass) {e : TransactionEntry}
    (contained : ContractsContained runtime [e]) :
    WritesWithin entryTags pass.store (applyEntry runtime chainId cycle pass e).store := by
  cases marker : isWorkerRegMarker e.signature with
  | true =>
    rw [applyEntry, if_pos marker]
    exact (writesWithin_registerWorker _ _ _).mono (by simp [entryTags])
  | false =>
    exact (writesWithin_applyEntry_unmarked runtime chainId cycle pass contained marker).mono
      (by simp [entryTags])

theorem writesWithin_foldl_applyEntry {entries : List TransactionEntry}
    (contained : ContractsContained runtime entries) (pass : EntryPass) :
    WritesWithin entryTags pass.store
      (entries.foldl (applyEntry runtime chainId cycle) pass).store := by
  induction entries generalizing pass with
  | nil => exact .refl _ _
  | cons e entries ih =>
    exact (writesWithin_applyEntry runtime chainId cycle pass
      (contained.of_mem List.mem_cons_self)).trans (ih contained.tail _)

end Entries

section Ledger

variable {env : ApplyEnv} {store : Store} {lsu : LedgerStateUpdate} {benv : BundleEnv}

theorem getState_nonceKey_beforeNonces
    (contained : ContractsContained env.runtime lsu.partialUpdate.transactionEntries)
    (pk : PublicKey) :
    (beforeNonces env store lsu).getState (nonceKeyForPubkey pk) =
      store.getState (nonceKeyForPubkey pk) := by
  have entries : WritesWithin entryTags store (applyEntries env.runtime store lsu).store :=
    writesWithin_foldl_applyEntry env.runtime _ _ contained ⟨store, ∅, []⟩
  have paid : WritesWithin entryTags (applyEntries env.runtime store lsu).store
      (beforeNonces env store lsu) :=
    .foldl (fun s c => (writesWithin_applyCompensation s c).mono (by simp [entryTags])) _ _
  exact (entries.trans paid).getState_append (by decide) pk.toList

theorem getState_nonceKey_applyLedger
    (contained : ContractsContained env.runtime lsu.partialUpdate.transactionEntries)
    (pk : PublicKey) :
    (applyLedger env store lsu).1.getState (nonceKeyForPubkey pk) =
      nonceRecord (store.getState (nonceKeyForPubkey pk)) (nonceUses groupSender lsu pk) := by
  rw [applyLedger_fst, getState_nonceKey_closeLedger, getState_foldl_bumpSender,
    getState_nonceKey_beforeNonces contained]
  rfl

theorem applyLsuToStorageLocked_eq {root : Hash} (above : lastAppliedCycle store < lsu.cycleNumber)
    (built : computeRootFromIter env.sha256 (applyLedger env store lsu).1.accounts.toList = .ok root) :
    applyLsuToStorageLocked env store lsu =
      (recordApplied env lsu root (applyLedger env store lsu).2
        { (applyLedger env store lsu).1 with currentStateRoot := some root }, .ok root) := by
  have committed : (applyLedger env store lsu).1.commit env.sha256 =
      ({ (applyLedger env store lsu).1 with currentStateRoot := some root }, .ok root) := by
    rw [Store.commit, built]
  unfold applyLsuToStorageLocked
  rw [if_neg (UInt64.not_le.mpr above)]
  dsimp only
  rw [committed]

end Ledger

end CatalystNode
