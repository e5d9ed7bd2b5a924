import CatalystNode.ConsensusTypes
import CatalystNode.MachineInt

namespace CatalystNode

open ByteVector HexCodec MachineInt

inductive TransactionType where
  | nonConfidentialTransfer
  | confidentialTransfer
  | dataStorageRequest
  | dataStorageRetrieve
  | smartContract
  | workerRegistration
  deriving DecidableEq, Repr

inductive EntryAmount where
  | nonConfidential (v : Int64)
  | confidential (commitment : ByteVec 32) (rangeProof : Bytes)
  deriving DecidableEq

/-- An entry of a protocol transaction; it becomes a consensus entry when it is selected. -/
structure ProtocolEntry where
  publicKey : PublicKey
  amount : EntryAmount
  deriving DecidableEq

structure TransactionCore where
  txType : TransactionType
  entries : List ProtocolEntry
  nonce : UInt64
  lockTime : UInt32
  fees : UInt64
  data : Bytes
  deriving DecidableEq

structure Transaction where
  core : TransactionCore
  signatureScheme : UInt8
  signature : Bytes
  senderPubkey : Option Bytes
  timestamp : UInt64
  deriving DecidableEq

inductive EvmTxKind where
  | deploy (bytecode : Bytes)
  | call (target : ByteVec 20) (input : Bytes)
  deriving DecidableEq

structure EvmTxPayload where
  nonce : UInt64
  kind : EvmTxKind
  deriving DecidableEq

/-- The serde encodings and the signature check a transaction goes through. -/
structure TxEnv where
  blake2b512 : Bytes → ByteVec 64
  bincodeTx : Transaction → Option Bytes
  decodeEvmTxKind : Bytes → Option EvmTxKind
  encodeEvmTxPayload : EvmTxPayload → Option Bytes
  verifyTxSignatureWithDomain : Transaction → UInt64 → Hash → Bool

def maxTxSignatureBytes : Nat := 8 * 1024

def maxTxSenderPubkeyBytes : Nat := 4 * 1024

def maxTxDataBytesSmall : Nat := 60

def maxTxDataBytesSmartContract : Nat := 48 * 1024

def minFeeForCore (core : TransactionCore) : UInt64 :=
  let base : UInt64 := match core.txType with
    | .smartContract => 5
    | _ => 1
  saturatingAddU64 base (saturatingMulU64 1 (UInt64.ofNat core.entries.length))

def minFee (tx : Transaction) : UInt64 := minFeeForCore tx.core

def isZeroAmount : EntryAmount → Bool
  | .nonConfidential v => v = 0
  | .confidential _ _ => false

/-- Registrations and contract calls carry one entry of amount zero, everything else at least two. -/
def validateEntries (core : TransactionCore) : Except String Unit :=
  match core.txType with
  | .workerRegistration =>
    match core.entries with
    | [e] => if isZeroAmount e.amount then .ok ()
      else .error "WorkerRegistration entry amount must be NonConfidential(0)"
    | _ => .error "WorkerRegistration must contain exactly 1 entry"
  | .smartContract =>
    match core.entries with
    | [e] => if isZeroAmount e.amount then .ok ()
      else .error "SmartContract entry amount must be NonConfidential(0)"
    | _ => .error "SmartContract must contain exactly 1 entry"
  | _ =>
    if core.entries.length < 2 then .error "Transaction must contain at least 2 entries" else .ok ()

def Transaction.validateBasic (tx : Transaction) : Except String Unit :=
  match validateEntries tx.core with
  | .error e => .error e
  | .ok () =>
    if tx.core.nonce = 0 then .error "Transaction nonce must be > 0"
    else
      let maxData := match tx.core.txType with
        | .smartContract => maxTxDataBytesSmartContract
        | _ => maxTxDataBytesSmall
      let got := tx.core.data.length
      if maxData < got then
        .error s!"Transaction data field must be <= {maxData} bytes (got={got})"
      else if tx.signature.isEmpty then .error "Transaction signature must be non-empty"
      else if maxTxSignatureBytes < tx.signature.length then
        .error "Transaction signature is too large"
      else if maxTxSenderPubkeyBytes < (tx.senderPubkey.getD []).length then
        .error "Transaction sender_pubkey is too large"
      else .ok ()

/-- The single account debited by a list of entries; two different ones make the sender unknown. -/
def debitedAccount : Option PublicKey → List ProtocolEntry → Option PublicKey
  | sender, [] => sender
  | sender, e :: entries =>
    match e.amount with
    | .confidential _ _ => debitedAccount sender entries
    | .nonConfidential v =>
      if v < 0 then
        match sender with
        | none => debitedAccount (some e.publicKey) entries
        | some pk => if pk = e.publicKey then debitedAccount sender entries else none
      else debitedAccount sender entries

def txSenderPubkey (tx : Transaction) : Option PublicKey :=
  match tx.core.txType with
  | .workerRegistration => tx.core.entries.head?.map ProtocolEntry.publicKey
  | .smartContract => tx.core.entries.head?.map ProtocolEntry.publicKey
  | _ => debitedAccount none tx.core.entries

def isWorkerRegMarker (sig : Bytes) : Bool := (utf8 "WRKREG1").isPrefixOf sig

def isEvmMarker (sig : Bytes) : Bool := (utf8 "EVM1").isPrefixOf sig

def encodeEvmMarker (env : TxEnv) (payload : EvmTxPayload) (sig64 : Bytes) : Option Bytes :=
  if sig64.length ≠ 64 then none
  else (env.encodeEvmTxPayload payload).map (fun p =>
    utf8 "EVM1" ++ leBytes 4 p.length ++ p ++ sig64)

def txBoundarySignature (env : TxEnv) (tx : Transaction) : Bytes :=
  match tx.core.txType with
  | .workerRegistration => utf8 "WRKREG1" ++ tx.signature
  | .smartContract =>
    let kind := (env.decodeEvmTxKind tx.core.data).getD (.call (zeros 20) [])
    (encodeEvmMarker env ⟨tx.core.nonce, kind⟩ tx.signature).getD tx.signature
  | _ => tx.signature

/-- The debit that charges a fee; a fee beyond the signed range is not encoded at all. -/
def feeDebitEntries (tx : Transaction) (sender : PublicKey) (sig : Bytes) : List TransactionEntry :=
  if tx.core.fees = 0 then []
  else match tryI64 tx.core.fees with
    | none => []
    | some fee => [⟨sender, -fee, sig⟩]

def transferEntries (sig : Bytes) (entries : List ProtocolEntry) : List TransactionEntry :=
  entries.filterMap (fun e => match e.amount with
    | .nonConfidential v => some ⟨e.publicKey, v, sig⟩
    | .confidential _ _ => none)

def markerEntries (env : TxEnv) (tx : Transaction) : List TransactionEntry :=
  let pk := (tx.core.entries.head?.map ProtocolEntry.publicKey).getD (zeros 32)
  let sig := txBoundarySignature env tx
  ⟨pk, 0, sig⟩ :: feeDebitEntries tx pk sig

def txToConsensusEntries (env : TxEnv) (tx : Transaction) : List TransactionEntry :=
  match tx.core.txType with
  | .workerRegistration => markerEntries env tx
  | .smartContract => markerEntries env tx
  | _ =>
    let sig := txBoundarySignature env tx
    transferEntries sig tx.core.entries ++
      (txSenderPubkey tx).elim [] (fun sender => feeDebitEntries tx sender sig)

end CatalystNode
