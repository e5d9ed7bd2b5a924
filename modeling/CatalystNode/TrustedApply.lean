import CatalystNode.LedgerConservation
import CatalystNode.MerkleProofs
import CatalystNode.NonceBumps

namespace CatalystNode

open ByteVector HexCodec MachineInt Store

/-- What the proof-driven apply calls besides: snapshots of the whole database, and pruning. -/
structure TrustedEnv extends ApplyEnv where
  createSnapshot : Store → Except String Unit
  loadSnapshot : Store → Store → Store
  prune : Store → Std.ExtTreeMap String Bytes

def StorageError.display : StorageError → String
  | .internal message => s!"Internal error: {message}"

def refusedBase (cycle : UInt64) (expectedPrev current : Hash) : String :=
  s!"refusing apply for cycle {cycle}: expected prev root {encodeString expectedPrev.toList} " ++
    s!"does not match actual current root {encodeString current.toList} " ++
    "(stale caller-side check or genuine divergence -- would silently apply onto the wrong base)"

section Model

variable (env : TrustedEnv)

def bumpFirstDebitSender (store : Store) (entries : List TransactionEntry) : Store :=
  bumpSender store (firstDebitSender entries)

def applyTrustedLedger (store : Store) (lsu : LedgerStateUpdate) :
    Store × Std.ExtTreeMap Bytes ApplyOutcome :=
  let pass := applyEntries env.runtime store lsu
  let store := lsu.compensationEntries.foldl applyCompensation pass.store
  let store := (groupBySig lsu.partialUpdate.transactionEntries).foldl bumpFirstDebitSender store
  let store := settleFeeCreditSpendForAppliedCycle store lsu
  let store := distributeWaitingPoolRewardsAndFeeCredits store lsu
  (writeRootCycleCounter store lsu.cycleNumber, pass.outcomeBySig)

def recordTrusted (lsu : LedgerStateUpdate) (newRoot : Hash)
    (outcomes : Std.ExtTreeMap Bytes ApplyOutcome) (store : Store) : Store :=
  let lsuHash := hashData env.tx.blake2b512 lsu
  let store := ((store.setMetadata "consensus:last_applied_cycle"
    (encodeU64 lsu.cycleNumber)).setMetadata "consensus:last_applied_state_root"
    newRoot.toList).setMetadata "consensus:last_applied_lsu_hash" lsuHash.toList
  let store := persistAppliedHistory lsu lsuHash store
  let store := (loadCycleTxids env.toApplyEnv store lsu.cycleNumber).foldl
    (writeReceipt env.toApplyEnv lsu.cycleNumber lsuHash newRoot outcomes) store
  { store with metadata := env.prune store }

/-- Applies an update whose new root a peer has claimed; a claim that the own recomputation does not
confirm is answered by going back to the snapshot. -/
def applyLsuToStorageWithoutRootCheck (store : Store) (lsu : LedgerStateUpdate)
    (expectedPrev newRoot : Hash) : Store × Except String Bool :=
  if lsu.cycleNumber ≤ lastAppliedCycle store then (store, .ok false)
  else
    let currentRoot := store.currentStateRoot.getD (zeros 32)
    if currentRoot ≠ expectedPrev then
      (store, .error (refusedBase lsu.cycleNumber expectedPrev currentRoot))
    else match env.createSnapshot store with
      | .error e => (store, .error s!"snapshot create failed: {e}")
      | .ok () =>
        let ledger := applyTrustedLedger env store lsu
        let committed := ledger.1.commit env.sha256
        match committed.2 with
        | .error e =>
          (committed.1, .error s!"state root recompute failed: Storage error: {e.display}")
        | .ok recomputed =>
          if recomputed ≠ newRoot then
            (((env.loadSnapshot store committed.1).commit env.sha256).1, .ok false)
          else (recordTrusted env lsu newRoot ledger.2 committed.1, .ok true)

end Model

variable {env : TrustedEnv} {store : Store} {lsu : LedgerStateUpdate}

theorem recordTrusted_accounts (env : TrustedEnv) (lsu : LedgerStateUpdate) (newRoot : Hash)
    (outcomes : Std.ExtTreeMap Bytes ApplyOutcome) (store : Store) :
    (recordTrusted env lsu newRoot outcomes store).accounts = store.accounts := by
  refine FoldTrace.foldl_invariant (P := fun s : Store => s.accounts = store.accounts) rfl ?_
  intro s txid _ same
  rw [writeReceipt_accounts, same]

theorem applyLsuToStorageWithoutRootCheck_ok {expectedPrev newRoot : Hash}
    (run : (applyLsuToStorageWithoutRootCheck env store lsu expectedPrev newRoot).2 = .ok true) :
    lastAppliedCycle store < lsu.cycleNumber ∧
      (applyLsuToStorageWithoutRootCheck env store lsu expectedPrev newRoot).1.accounts =
        (applyTrustedLedger env store lsu).1.accounts := by
  unfold applyLsuToStorageWithoutRootCheck at run ⊢
  dsimp only at run ⊢
  split at run
  next => simp at run
  next fresh =>
    refine ⟨UInt64.not_le.mp fresh, ?_⟩
    rw [if_neg fresh]
    split at run
    next => simp at run
    next base =>
      rw [if_neg base]
      split at run
      next => simp at run
      next =>
        split at run
        next => simp at run
        next =>
          split at run
          next => simp at run
          next confirmed => rw [if_neg confirmed, recordTrusted_accounts, commit_accounts]

def beforeNonces (env : ApplyEnv) (store : Store) (lsu : LedgerStateUpdate) : Store :=
  lsu.compensationEntries.foldl applyCompensation (applyEntries env.runtime store lsu).store

theorem applyLedger_fst (env : ApplyEnv) (store : Store) (lsu : LedgerStateUpdate) :
    (applyLedger env store lsu).1 = closeLedger
      (((groupBySig lsu.partialUpdate.transactionEntries).map groupSender).foldl bumpSender
        (beforeNonces env store lsu)) lsu := by
  rw [← foldl_bumpNonce]
  rfl

theorem applyTrustedLedger_fst (env : TrustedEnv) (store : Store) (lsu : LedgerStateUpdate) :
    (applyTrustedLedger env store lsu).1 = closeLedger
      (((groupBySig lsu.partialUpdate.transactionEntries).map firstDebitSender).foldl bumpSender
        (beforeNonces env.toApplyEnv store lsu)) lsu := by
  rw [List.foldl_map]
  rfl

theorem getState_nonceKey_closeLedger (store : Store) (lsu : LedgerStateUpdate) (pk : PublicKey) :
    (closeLedger store lsu).getState (nonceKeyForPubkey pk) =
      store.getState (nonceKeyForPubkey pk) :=
  (writesWithin_closeLedger store lsu).getState_append (by decide) pk.toList

/-- Later passes neither read nor write nonces, so they tell apart exactly what the nonces do. -/
theorem closeLedger_accounts_eq_iff (senders senders' : List (Option PublicKey)) (store : Store)
    (lsu : LedgerStateUpdate) :
    (closeLedger (senders.foldl bumpSender store) lsu).accounts =
        (closeLedger (senders'.foldl bumpSender store) lsu).accounts ↔
      senders.foldl bumpSender store = senders'.foldl bumpSender store := by
  constructor
  · intro same
    rw [foldl_bumpSender_eq_iff]
    intro pk
    have record : ∀ s, (closeLedger s lsu).accounts[nonceKeyForPubkey pk]? =
        s.getState (nonceKeyForPubkey pk) := fun s => getState_nonceKey_closeLedger s lsu pk
    apply (nonceRecord_eq_iff (store.getState (nonceKeyForPubkey pk)) _ _).mp
    rw [← getState_foldl_bumpSender, ← getState_foldl_bumpSender, ← record, ← record, same]
  · intro same
    rw [same]

def nonceUses (rule : List TransactionEntry → Option PublicKey) (lsu : LedgerStateUpdate)
    (pk : PublicKey) : Nat :=
  ((groupBySig lsu.partialUpdate.transactionEntries).map rule).count (some pk)

theorem applyTrustedLedger_accounts_iff (env : TrustedEnv) (store : Store)
    (lsu : LedgerStateUpdate) :
    (applyTrustedLedger env store lsu).1.accounts =
        (applyLedger env.toApplyEnv store lsu).1.accounts ↔
      ∀ pk, nonceUses firstDebitSender lsu pk = nonceUses groupSender lsu pk ∨
        2 ^ 64 - 1 ≤ (getNonceU64 (beforeNonces env.toApplyEnv store lsu) pk).toNat +
          min (nonceUses firstDebitSender lsu pk) (nonceUses groupSender lsu pk) := by
  rw [applyTrustedLedger_fst, applyLedger_fst, closeLedger_accounts_eq_iff, foldl_bumpSender_eq_iff]
  rfl

/-- Given the current root and the root it will find, the proof-driven apply goes through. -/
theorem applyLsuToStorageWithoutRootCheck_recomputed (env : TrustedEnv) (store : Store)
    (lsu : LedgerStateUpdate) (above : lastAppliedCycle store < lsu.cycleNumber)
    (snapshot : env.createSnapshot store = .ok ()) :
    ∃ newRoot, (applyLsuToStorageWithoutRootCheck env store lsu
      (store.currentStateRoot.getD (zeros 32)) newRoot).2 = .ok true := by
  obtain ⟨-, -, -, root, -, built, -⟩ :=
    computeRoots_spec env.sha256 (applyTrustedLedger env store lsu).1.accounts.toList
  refine ⟨root, ?_⟩
  unfold applyLsuToStorageWithoutRootCheck
  rw [if_neg (UInt64.not_le.mpr above)]
  simp only [ne_eq, not_true_eq_false, if_false, snapshot, Store.commit, built]

theorem applyLsuToStorageLocked_accounts (env : ApplyEnv)
    (above : lastAppliedCycle store < lsu.cycleNumber) :
    (applyLsuToStorageLocked env store lsu).1.accounts = (applyLedger env store lsu).1.accounts :=
  applyLsuToStorage_accounts above

/-- The two apply paths leave the same accounts exactly if, for every account, they use up equally
many nonces, or its nonce ends at the largest one on both. -/
theorem applyPaths_accounts_iff (env : TrustedEnv) (store : Store) (lsu : LedgerStateUpdate)
    (expectedPrev newRoot : Hash)
    (run : (applyLsuToStorageWithoutRootCheck env store lsu expectedPrev newRoot).2 = .ok true) :
    (applyLsuToStorageWithoutRootCheck env store lsu expectedPrev newRoot).1.accounts =
        (applyLsuToStorageLocked env.toApplyEnv store lsu).1.accounts ↔
      ∀ pk, nonceUses firstDebitSender lsu pk = nonceUses groupSender lsu pk ∨
        2 ^ 64 - 1 ≤ (getNonceU64 (beforeNonces env.toApplyEnv store lsu) pk).toNat +
          min (nonceUses firstDebitSender lsu pk) (nonceUses groupSender lsu pk) := by
  obtain ⟨above, accounts⟩ := applyLsuToStorageWithoutRootCheck_ok run
  rw [accounts, applyLsuToStorageLocked_accounts _ above, applyTrustedLedger_accounts_iff]

def sampleTrustedEnv : TrustedEnv where
  toApplyEnv := sampleApplyEnv
  createSnapshot _ := .ok ()
  loadSnapshot taken _ := taken
  prune store := store.metadata

def sampleTwoDebits : LedgerStateUpdate :=
  { sampleLedgerUpdate sampleRegistration with
    partialUpdate := ⟨[⟨sampleAccount 1, -5, [9]⟩, ⟨sampleAccount 2, -5, [9]⟩,
      ⟨sampleAccount 3, 10, [9]⟩], zeros 32, 3, 7⟩ }

/-- The proof-driven apply uses up a nonce of the first account, the other apply none. -/
theorem applyPaths_twoDebits :
    ∃ newRoot, (applyLsuToStorageWithoutRootCheck sampleTrustedEnv sampleFunds sampleTwoDebits
        (sampleFunds.currentStateRoot.getD (zeros 32)) newRoot).2 = .ok true ∧
      (applyLsuToStorageWithoutRootCheck sampleTrustedEnv sampleFunds sampleTwoDebits
        (sampleFunds.currentStateRoot.getD (zeros 32)) newRoot).1.accounts ≠
      (applyLsuToStorageLocked sampleTrustedEnv.toApplyEnv sampleFunds sampleTwoDebits).1.accounts := by
  have above : lastAppliedCycle sampleFunds < sampleTwoDebits.cycleNumber := by decide +kernel
  obtain ⟨newRoot, run⟩ := applyLsuToStorageWithoutRootCheck_recomputed sampleTrustedEnv sampleFunds
    sampleTwoDebits above rfl
  refine ⟨newRoot, run, ?_⟩
  rw [(applyLsuToStorageWithoutRootCheck_ok run).2, applyLsuToStorageLocked_accounts _ above]
  intro same
  have alike := (applyTrustedLedger_accounts_iff sampleTrustedEnv sampleFunds sampleTwoDebits).mp
    same (sampleAccount 1)
  exact absurd alike (by decide +kernel)

theorem applyPaths_accounts_iff_transfer :
    ∃ newRoot, (applyLsuToStorageWithoutRootCheck sampleTrustedEnv sampleFunds
        (sampleLedgerUpdate (sampleTransfer 1 3 [(1, -5), (2, 5)]))
        (sampleFunds.currentStateRoot.getD (zeros 32)) newRoot).1.accounts =
      (applyLsuToStorageLocked sampleTrustedEnv.toApplyEnv sampleFunds
        (sampleLedgerUpdate (sampleTransfer 1 3 [(1, -5), (2, 5)]))).1.accounts := by
  obtain ⟨newRoot, run⟩ := applyLsuToStorageWithoutRootCheck_recomputed sampleTrustedEnv sampleFunds
    (sampleLedgerUpdate (sampleTransfer 1 3 [(1, -5), (2, 5)])) (by decide +kernel) rfl
  refine ⟨newRoot, (applyPaths_accounts_iff sampleTrustedEnv sampleFunds _ _ newRoot run).mpr ?_⟩
  have rules : (groupBySig (sampleLedgerUpdate (sampleTransfer 1 3
      [(1, -5), (2, 5)])).partialUpdate.transactionEntries).map firstDebitSender =
      (groupBySig (sampleLedgerUpdate (sampleTransfer 1 3
        [(1, -5), (2, 5)])).partialUpdate.transactionEntries).map groupSender := by decide +kernel
  intro pk
  left
  rw [nonceUses, rules, nonceUses]

end CatalystNode
