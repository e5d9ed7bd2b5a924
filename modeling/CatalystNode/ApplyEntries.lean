import CatalystNode.ProtocolTransaction
import CatalystNode.FeeCredits

namespace CatalystNode

open ByteVector HexCodec MachineInt

structure EvmExecution where
  success : Bool
  gasUsed : UInt64
  returnData : Bytes
  error : Option String
  deriving DecidableEq

structure ApplyOutcome where
  success : Bool
  gasUsed : Option UInt64
  returnData : Option Bytes
  error : Option String
  deriving DecidableEq

/-- The contract runtime: it persists its own state and reports how the call went. -/
structure EvmRuntime where
  decodeEvmTxPayload : Bytes → Option EvmTxPayload
  executeAndPersist : Store → PublicKey → UInt64 → EvmTxPayload → UInt64 →
    Store × Except String EvmExecution

def ApplyOutcome.succeeded : ApplyOutcome := ⟨true, none, none, none⟩

def ApplyOutcome.ofExecution : Except String EvmExecution → ApplyOutcome
  | .ok info => ⟨info.success, some info.gasUsed, some info.returnData, info.error⟩
  | .error err => ⟨false, none, none, some err⟩

def defaultEvmGasLimit : UInt64 := 8000000

structure EntryPass where
  store : Store
  outcomeBySig : Std.ExtTreeMap Bytes ApplyOutcome
  executedSigs : List Bytes

def decodeEvmMarker (runtime : EvmRuntime) (sig : Bytes) : Option (EvmTxPayload × Bytes) :=
  if sig.length < 4 + 4 + 64 then none
  else if ¬isEvmMarker sig then none
  else
    let plen := ofLeBytes ((sig.drop 4).take 4)
    let stop := 8 + plen
    if sig.length ≠ stop + 64 then none
    else (runtime.decodeEvmTxPayload ((sig.drop 8).take plen)).map (fun payload =>
      (payload, sig.drop stop))

def ensureWorkerFirstSeenCycle (store : Store) (pubkey : PublicKey) (cycle : UInt64) : Store :=
  let key := feeCreditFirstSeenCycleKeyForPubkey pubkey
  if (store.getState key).isNone then store.setState key (encodeU64 cycle) else store

def setWorkerLastRegistrationCycle (store : Store) (pubkey : PublicKey) (cycle : UInt64) : Store :=
  store.setState (workerLastRegistrationCycleKeyForPubkey pubkey) (encodeU64 cycle)

def registerWorker (store : Store) (pubkey : PublicKey) (cycle : UInt64) : Store :=
  setWorkerLastRegistrationCycle (ensureWorkerFirstSeenCycle
    (store.setState (workerKeyForPubkey pubkey) [1]) pubkey cycle) pubkey cycle

def addToBalance (store : Store) (pubkey : PublicKey) (delta : Int64) : Store :=
  setBalanceI64 store pubkey (saturatingAddI64 (getBalanceI64 store pubkey) delta)

/-- A contract transaction is executed once for all entries that carry its marker. -/
def applyEvmEntry (runtime : EvmRuntime) (chainId : UInt64) (pass : EntryPass)
    (e : TransactionEntry) : EntryPass :=
  if e.signature ∈ pass.executedSigs then pass
  else
    let executed := e.signature :: pass.executedSigs
    match decodeEvmMarker runtime e.signature with
    | none => { pass with executedSigs := executed }
    | some payload =>
      let run := runtime.executeAndPersist pass.store e.publicKey chainId payload.1
        (max defaultEvmGasLimit 21000)
      ⟨run.1, pass.outcomeBySig.insert e.signature (.ofExecution run.2), executed⟩

/-- An entry that carries a registration marker registers its account and changes no balance. -/
def applyEntry (runtime : EvmRuntime) (chainId cycle : UInt64) (pass : EntryPass)
    (e : TransactionEntry) : EntryPass :=
  if isWorkerRegMarker e.signature then
    { pass with
      store := registerWorker pass.store e.publicKey cycle
      outcomeBySig := pass.outcomeBySig.insertIfNew e.signature .succeeded }
  else if isEvmMarker e.signature then applyEvmEntry runtime chainId pass e
  else
    { pass with
      store := addToBalance pass.store e.publicKey e.amount
      outcomeBySig := pass.outcomeBySig.insertIfNew e.signature .succeeded }

def applyEntries (runtime : EvmRuntime) (store : Store) (lsu : LedgerStateUpdate) : EntryPass :=
  lsu.partialUpdate.transactionEntries.foldl
    (applyEntry runtime (loadChainIdU64 store) lsu.cycleNumber) ⟨store, ∅, []⟩

def applyCompensation (store : Store) (c : CompensationEntry) : Store :=
  if c.amount = 0 then store else addToBalance store c.publicKey c.amount.toInt64

def groupBySig (entries : List TransactionEntry) : List (List TransactionEntry) :=
  let bySig : Std.ExtTreeMap Bytes (List TransactionEntry) := entries.foldl (fun m e =>
    m.insert e.signature (m.getD e.signature [] ++ [e])) ∅
  bySig.toList.map Prod.snd

def debitedKey : Option PublicKey → List TransactionEntry → Option PublicKey
  | sender, [] => sender
  | sender, e :: entries =>
    if e.amount < 0 then
      match sender with
      | none => debitedKey (some e.publicKey) entries
      | some pk => if pk = e.publicKey then debitedKey sender entries else none
    else debitedKey sender entries

/-- The account whose nonce a group of entries uses up. -/
def groupSender (entries : List TransactionEntry) : Option PublicKey :=
  (debitedKey none entries).or
    (((entries.find? (fun e => isWorkerRegMarker e.signature)).map TransactionEntry.publicKey).or
      ((entries.find? (fun e => isEvmMarker e.signature)).map TransactionEntry.publicKey))

def bumpNonce (store : Store) (entries : List TransactionEntry) : Store :=
  match groupSender entries with
  | none => store
  | some pk => setNonceU64 store pk (saturatingAddU64 (getNonceU64 store pk) 1)

end CatalystNode
