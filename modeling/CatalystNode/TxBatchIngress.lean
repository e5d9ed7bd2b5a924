import CatalystNode.ApplyLsu
import CatalystNode.WireCodec
import CatalystNode.Selection

namespace CatalystNode

open ByteVector HexCodec MachineInt CanonicalList

/-- Entries the batch leader fixed for a cycle, without the transactions behind them. -/
structure TxBatch where
  cycle : UInt64
  batchHash : Hash
  entries : List TransactionEntry
  deriving DecidableEq

instance instSerializeTxBatch : CatalystSerialize TxBatch :=
  ⟨fun b => serialize b.cycle ++ serialize b.batchHash ++ serialize b.entries⟩

instance instDeserializeTxBatch : CatalystDeserialize TxBatch where
  deserializeFrom data := do
    let (cycle, data) ← deserializeFrom data
    let (batchHash, data) ← deserializeFrom data
    let (entries, data) ← deserializeFrom data
    return (⟨cycle, batchHash, entries⟩, data)

structure ProtocolTxBatch where
  cycle : UInt64
  batchHash : Hash
  txs : List Transaction
  deriving DecidableEq

inductive TxBatchControl where
  | commit (cycle : UInt64) (batchHash : Hash) (txCount : UInt32)
  | resyncRequest (cycle : UInt64) (requester : String)
  deriving DecidableEq

/-- The message types that carry batches and their control messages; the others are one case here. -/
inductive BatchMessageType where
  | transactionRequest
  | transactionBatch
  | other
  deriving DecidableEq, Repr

structure BatchEnvelope where
  messageType : BatchMessageType
  payload : Bytes
  deriving DecidableEq

/-- The serde encodings the ingress goes through, and the configured slack in cycles. -/
structure TxBatchEnv where
  tx : TxEnv
  bincodeTxs : List Transaction → Option Bytes
  decodeTxBatchControl : Bytes → Option TxBatchControl
  decodeProtocolTxBatch : Bytes → Option ProtocolTxBatch
  encodeTxids : List Hash → Option Bytes
  decodeTxMeta : Bytes → Option TxMeta
  encodeTxMeta : TxMeta → Option Bytes
  maxCycleSlack : UInt64

/-- The maps the ingress shares with the rest of the node. -/
structure TxBatchP2pState where
  txBatches : Std.ExtTreeMap UInt64 (List TransactionEntry)
  commitRam : Std.ExtTreeMap UInt64 (Hash × UInt32)

def TxBatchP2pState.new : TxBatchP2pState := ⟨∅, ∅⟩

def ledgerCycleIndex (nowMs cycleDurationMs : UInt64) : UInt64 :=
  if cycleDurationMs = 0 then 0 else nowMs / cycleDurationMs

def p2pTxBatchCycleAllowsIngress (messageCycle wallNowMs cycleDurationMs slack : UInt64) : Bool :=
  if cycleDurationMs = 0 then true
  else
    let w := ledgerCycleIndex wallNowMs cycleDurationMs
    saturatingSubU64 w slack ≤ messageCycle ∧ messageCycle ≤ saturatingAddU64 w slack

def parseTxBatchCommitValue (bytes : Bytes) : Option (Hash × UInt32) :=
  if bytes.length ≠ 36 then none
  else some (padTo 32 (bytes.take 32), UInt32.ofNat (ofLeBytes (bytes.drop 32)))

def encodeTxBatchCommitValue (batchHash : Hash) (txCount : UInt32) : Bytes :=
  batchHash.toList ++ leBytes 4 txCount.toNat

def txBatchCommitKey (cycle : UInt64) : String := s!"consensus:tx_batch_commit:{cycle}"

def readTxBatchCommit (store : Store) (cycle : UInt64) : Option (Hash × UInt32) :=
  (store.getMetadata (txBatchCommitKey cycle)).bind parseTxBatchCommitValue

def persistTxBatchCommitMetadata (store : Store) (cycle : UInt64) (commit : Hash × UInt32) : Store :=
  store.setMetadata (txBatchCommitKey cycle) (encodeTxBatchCommitValue commit.1 commit.2)

/-- The number of transactions is compared as a 32-bit word. -/
def protocolTxBatchDisagreesWithCommit (batch : ProtocolTxBatch) (commit : Hash × UInt32) : Bool :=
  batch.batchHash ≠ commit.1 ∨ UInt32.ofNat batch.txs.length ≠ commit.2

def txWireMagicV2 : Bytes := utf8 "CTX2"

section Batches

variable (env : TxBatchEnv)

def ProtocolTxBatch.new (cycle : UInt64) (txs : List Transaction) : Option ProtocolTxBatch :=
  (env.bincodeTxs txs).map (fun bytes => ⟨cycle, blake2b512Trunc32 env.tx.blake2b512 bytes, txs⟩)

def ProtocolTxBatch.verifyHash (batch : ProtocolTxBatch) : Option Bool :=
  (ProtocolTxBatch.new env batch.cycle batch.txs).map (fun other => other.batchHash = batch.batchHash)

def mempoolTxid (tx : Transaction) : Hash :=
  blake2b512Trunc32 env.tx.blake2b512 (txWireMagicV2 ++ serialize tx)

def persistCycleTxids (store : Store) (cycle : UInt64) (txids : List Hash) : Store :=
  match env.encodeTxids (sortDedup txids) with
  | none => store
  | some bytes => store.setMetadata (cycleTxidsKey cycle) bytes

def TxMeta.received (tx : Transaction) (txid : Hash) (nowMs : UInt64) : TxMeta where
  txId := txid
  status := .pending
  receivedAtMs := nowMs
  sender := txSenderPubkey tx
  nonce := tx.core.nonce
  fees := tx.core.fees
  selectedCycle := none
  appliedCycle := none
  appliedLsuHash := none
  appliedStateRoot := none
  appliedSuccess := none
  appliedError := none
  evmGasUsed := none
  evmReturn := none

def updateTxMetaStatusSelected (nowMs cycle : UInt64) (store : Store) (tx : Transaction) : Store :=
  let txid := mempoolTxid env tx
  let key := txMetaKey txid
  let existing := ((store.getMetadata key).bind env.decodeTxMeta).getD (.received tx txid nowMs)
  let updated := if existing.status = .applied then existing
    else { existing with status := .selected, selectedCycle := some cycle }
  match env.encodeTxMeta updated with
  | none => store
  | some bytes => store.setMetadata key bytes

/-- What an ingress call is given besides the shared maps. The store is given with each call, since
the rest of the node writes to it in between. -/
structure IngressCall where
  envelope : BatchEnvelope
  nowMs : UInt64
  gossipCycleMs : UInt64
  storage : Option Store
  maxEntries : Nat
  /-- The clock the selection and the receipts read by themselves. -/
  timestampMs : UInt64

def IngressCall.admits (call : IngressCall) (cycle : UInt64) : Bool :=
  p2pTxBatchCycleAllowsIngress cycle call.nowMs call.gossipCycleMs env.maxCycleSlack

structure IngressResult where
  state : TxBatchP2pState
  storage : Option Store
  accepted : Bool

def ingestCommit (state : TxBatchP2pState) (call : IngressCall) (cycle : UInt64)
    (commit : Hash × UInt32) : IngressResult :=
  if call.admits env cycle then
    ⟨{ state with commitRam := state.commitRam.insert cycle commit },
      call.storage.map (fun store => persistTxBatchCommitMetadata store cycle commit), false⟩
  else ⟨state, call.storage, false⟩

def pinnedCommit (state : TxBatchP2pState) (storage : Option Store) (cycle : UInt64) :
    Option (Hash × UInt32) :=
  state.commitRam[cycle]?.or (storage.bind (fun store => readTxBatchCommit store cycle))

def recordSelected (state : TxBatchP2pState) (cycle timestampMs : UInt64) (valid : List Transaction)
    (store : Store) : Store :=
  let store := persistCycleTxids env store cycle (valid.map (mempoolTxid env))
  let store := valid.foldl (updateTxMetaStatusSelected env timestampMs cycle) store
  state.commitRam[cycle]?.elim store (persistTxBatchCommitMetadata store cycle)

def revalidate (call : IngressCall) (store : Store) (batch : ProtocolTxBatch) : List Transaction :=
  validateAndSelectProtocolTxsForConstruction env.tx store batch.cycle call.timestampMs
    call.maxEntries batch.txs

def ingestProtocolBatch (state : TxBatchP2pState) (call : IngressCall) (batch : ProtocolTxBatch) :
    IngressResult :=
  let refused : IngressResult := ⟨state, call.storage, false⟩
  if ¬call.admits env batch.cycle then refused
  else if ¬(batch.verifyHash env).getD false then refused
  else
    let pinned := pinnedCommit state call.storage batch.cycle
    if pinned.any (protocolTxBatchDisagreesWithCommit batch) then refused
    else match call.storage with
      | none => refused
      | some store =>
        let valid := revalidate env call store batch
        if valid.isEmpty ∧ pinned.any (fun commit => 0 < commit.2) then refused
        else
          let entries := valid.flatMap (txToConsensusEntries env.tx)
          ⟨{ state with txBatches := state.txBatches.insert batch.cycle entries },
            some (recordSelected env state batch.cycle call.timestampMs valid store), true⟩

/-- A legacy batch is checked against its own hash only. -/
def ingestTxBatch (state : TxBatchP2pState) (call : IngressCall) (batch : TxBatch) : IngressResult :=
  if ¬call.admits env batch.cycle then ⟨state, call.storage, false⟩
  else if hashData env.tx.blake2b512 batch.entries = batch.batchHash then
    ⟨{ state with txBatches := state.txBatches.insert batch.cycle batch.entries },
      call.storage, true⟩
  else ⟨state, call.storage, false⟩

def ingestP2pTxBatchEnvelope (state : TxBatchP2pState) (call : IngressCall) : IngressResult :=
  match call.envelope.messageType with
  | .transactionRequest =>
    match env.decodeTxBatchControl call.envelope.payload with
    | some (.commit cycle batchHash txCount) =>
      ingestCommit env state call cycle (batchHash, txCount)
    | some (.resyncRequest _ _) => ⟨state, call.storage, false⟩
    | none => ⟨state, call.storage, false⟩
  | .transactionBatch =>
    match env.decodeProtocolTxBatch call.envelope.payload with
    | some batch => ingestProtocolBatch env state call batch
    | none =>
      match (deserialize call.envelope.payload : Option TxBatch) with
      | some batch => ingestTxBatch env state call batch
      | none => ⟨state, call.storage, false⟩
  | .other => ⟨state, call.storage, false⟩

def ingestAll (state : TxBatchP2pState) (calls : List IngressCall) : TxBatchP2pState :=
  calls.foldl (fun state call => (ingestP2pTxBatchEnvelope env state call).state) state

end Batches

end CatalystNode
