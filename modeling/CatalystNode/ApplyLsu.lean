import CatalystNode.ApplySettlement
import CatalystNode.SparseMerkle

namespace CatalystNode

open ByteVector HexCodec MachineInt

inductive TxStatus where
  | pending
  | selected
  | applied
  | dropped
  deriving DecidableEq, Repr

structure TxMeta where
  txId : Hash
  status : TxStatus
  receivedAtMs : UInt64
  sender : Option PublicKey
  nonce : UInt64
  fees : UInt64
  selectedCycle : Option UInt64
  appliedCycle : Option UInt64
  appliedLsuHash : Option Hash
  appliedStateRoot : Option Hash
  appliedSuccess : Option Bool
  appliedError : Option String
  evmGasUsed : Option UInt64
  evmReturn : Option Bytes
  deriving DecidableEq

/-- Library code, clock and background work an apply calls. Pruning and checkpoints run last and
write metadata only. -/
structure ApplyEnv where
  tx : TxEnv
  sha256 : Bytes → Hash
  runtime : EvmRuntime
  decodeTx : Bytes → Option Transaction
  decodeTxids : Bytes → Option (List Hash)
  decodeTxMeta : Bytes → Option TxMeta
  encodeTxMeta : TxMeta → Option Bytes
  nowMs : UInt64
  housekeeping : Store → UInt64 → Hash → Hash → Std.ExtTreeMap String Bytes

def txRawKey (txid : Hash) : String := "tx:raw:" ++ encodeString txid.toList

def txMetaKey (txid : Hash) : String := "tx:meta:" ++ encodeString txid.toList

def cycleTxidsKey (cycle : UInt64) : String := s!"tx:cycle:{cycle}:txids"

def rootCycleCounterKey : Bytes := utf8 "__root_cycle_counter__"

def writeRootCycleCounter (store : Store) (cycle : UInt64) : Store :=
  store.setState rootCycleCounterKey (encodeU64 cycle)

def lastAppliedCycle (store : Store) : UInt64 :=
  ((store.getMetadata "consensus:last_applied_cycle").bind decodeU64).getD 0

def Store.commit (sha256 : Bytes → Hash) (store : Store) : Store × Except StorageError Hash :=
  match computeRootFromIter sha256 store.accounts.toList with
  | .error e => (store, .error e)
  | .ok root => ({ store with currentStateRoot := some root }, .ok root)

section Apply

variable (env : ApplyEnv)

def loadCycleTxids (store : Store) (cycle : UInt64) : List Hash :=
  ((store.getMetadata (cycleTxidsKey cycle)).bind env.decodeTxids).getD []

def TxMeta.pendingAt (txid : Hash) (nowMs cycle : UInt64) : TxMeta where
  txId := txid
  status := .pending
  receivedAtMs := nowMs
  sender := none
  nonce := 0
  fees := 0
  selectedCycle := some cycle
  appliedCycle := none
  appliedLsuHash := none
  appliedStateRoot := none
  appliedSuccess := none
  appliedError := none
  evmGasUsed := none
  evmReturn := none

def outcomeOf (store : Store) (outcomes : Std.ExtTreeMap Bytes ApplyOutcome) (txid : Hash) :
    Option ApplyOutcome := do
  let bytes ← store.getMetadata (txRawKey txid)
  let tx ← env.decodeTx bytes
  outcomes[txBoundarySignature env.tx tx]?

def TxMeta.withOutcome (txMeta : TxMeta) : Option ApplyOutcome → TxMeta
  | some o => { txMeta with
      appliedSuccess := some o.success
      appliedError := o.error
      evmGasUsed := o.gasUsed
      evmReturn := o.returnData }
  | none => { txMeta with appliedSuccess := some true }

def writeReceipt (cycle : UInt64) (lsuHash stateRoot : Hash)
    (outcomes : Std.ExtTreeMap Bytes ApplyOutcome) (store : Store) (txid : Hash) : Store :=
  let key := txMetaKey txid
  let existing := ((store.getMetadata key).bind env.decodeTxMeta).getD (.pendingAt txid env.nowMs cycle)
  let updated := { existing with
    status := .applied
    appliedCycle := some cycle
    appliedLsuHash := some lsuHash
    appliedStateRoot := some stateRoot }
  match env.encodeTxMeta (updated.withOutcome (outcomeOf env store outcomes txid)) with
  | none => store
  | some bytes => store.setMetadata key bytes

def persistAppliedHead (lsu : LedgerStateUpdate) (lsuHash stateRoot : Hash) (store : Store) : Store :=
  (((store.setMetadata "consensus:last_applied_cycle" (encodeU64 lsu.cycleNumber)).setMetadata
    "consensus:last_applied_lsu_hash" lsuHash.toList).setMetadata
    "consensus:last_applied_state_root" stateRoot.toList)

def persistAppliedHistory (lsu : LedgerStateUpdate) (lsuHash : Hash) (store : Store) : Store :=
  (store.setMetadata s!"consensus:lsu:{lsu.cycleNumber}" (serialize lsu)).setMetadata
    s!"consensus:lsu_hash:{lsu.cycleNumber}" lsuHash.toList

def applyLedger (store : Store) (lsu : LedgerStateUpdate) :
    Store × Std.ExtTreeMap Bytes ApplyOutcome :=
  let pass := applyEntries env.runtime store lsu
  let store := lsu.compensationEntries.foldl applyCompensation pass.store
  let store := (groupBySig lsu.partialUpdate.transactionEntries).foldl bumpNonce store
  let store := settleFeeCreditSpendForAppliedCycle store lsu
  let store := distributeWaitingPoolRewardsAndFeeCredits store lsu
  (writeRootCycleCounter store lsu.cycleNumber, pass.outcomeBySig)

def recordApplied (lsu : LedgerStateUpdate) (stateRoot : Hash)
    (outcomes : Std.ExtTreeMap Bytes ApplyOutcome) (store : Store) : Store :=
  let lsuHash := hashData env.tx.blake2b512 lsu
  let store := (loadCycleTxids env store lsu.cycleNumber).foldl
    (writeReceipt env lsu.cycleNumber lsuHash stateRoot outcomes) store
  let store := persistAppliedHead lsu lsuHash stateRoot store
  let store := persistAppliedHistory lsu lsuHash store
  { store with metadata := env.housekeeping store lsu.cycleNumber stateRoot lsuHash }

def applyLsuToStorageLocked (store : Store) (lsu : LedgerStateUpdate) :
    Store × Except StorageError Hash :=
  if lsu.cycleNumber ≤ lastAppliedCycle store then
    (store, .ok (store.currentStateRoot.getD (zeros 32)))
  else
    let ledger := applyLedger env store lsu
    let committed := ledger.1.commit env.sha256
    match committed.2 with
    | .error e => (committed.1, .error e)
    | .ok root => (recordApplied env lsu root ledger.2 committed.1, .ok root)

def applyLsuToStorage (store : Store) (lsu : LedgerStateUpdate) : Store × Except StorageError Hash :=
  applyLsuToStorageLocked env store lsu

end Apply

end CatalystNode
