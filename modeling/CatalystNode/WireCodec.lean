import CatalystNode.WireDecode
import CatalystNode.ProtocolTransaction

namespace CatalystNode

open ByteVector HexCodec

instance instSerializeUInt32 : CatalystSerialize UInt32 := ⟨fun x => leBytes 4 x.toNat⟩

instance instDeserializeUInt32 : CatalystDeserialize UInt32 where
  deserializeFrom data := (readExact 4 data).map (fun (bytes, rest) =>
    (UInt32.ofNat (ofLeBytes bytes), rest))

instance instSerializeOption {α : Type} [CatalystSerialize α] : CatalystSerialize (Option α) where
  serialize
    | none => serialize (0 : UInt8)
    | some v => serialize (1 : UInt8) ++ serialize v

instance instDeserializeOption {α : Type} [CatalystDeserialize α] :
    CatalystDeserialize (Option α) where
  deserializeFrom data := do
    let (tag, data) ← (deserializeFrom data : Option (UInt8 × Bytes))
    if tag = 0 then return (none, data)
    else if tag = 1 then do
      let (v, data) ← deserializeFrom data
      return (some v, data)
    else none

def TransactionType.tag : TransactionType → UInt8
  | .nonConfidentialTransfer => 0
  | .confidentialTransfer => 1
  | .dataStorageRequest => 2
  | .dataStorageRetrieve => 3
  | .smartContract => 4
  | .workerRegistration => 5

def TransactionType.ofTag (tag : UInt8) : Option TransactionType :=
  if tag = 0 then some .nonConfidentialTransfer
  else if tag = 1 then some .confidentialTransfer
  else if tag = 2 then some .dataStorageRequest
  else if tag = 3 then some .dataStorageRetrieve
  else if tag = 4 then some .smartContract
  else if tag = 5 then some .workerRegistration
  else none

instance instSerializeTransactionType : CatalystSerialize TransactionType :=
  ⟨fun t => serialize t.tag⟩

instance instDeserializeTransactionType : CatalystDeserialize TransactionType where
  deserializeFrom data := do
    let (tag, data) ← deserializeFrom data
    let t ← TransactionType.ofTag tag
    return (t, data)

instance instSerializeEntryAmount : CatalystSerialize EntryAmount where
  serialize
    | .nonConfidential v => serialize (0 : UInt8) ++ serialize v
    | .confidential commitment rangeProof =>
      serialize (1 : UInt8) ++ serialize commitment ++ serialize rangeProof

instance instDeserializeEntryAmount : CatalystDeserialize EntryAmount where
  deserializeFrom data := do
    let (tag, data) ← (deserializeFrom data : Option (UInt8 × Bytes))
    if tag = 0 then do
      let (v, data) ← deserializeFrom data
      return (.nonConfidential v, data)
    else if tag = 1 then do
      let (commitment, data) ← deserializeFrom data
      let (rangeProof, data) ← deserializeFrom data
      return (.confidential commitment rangeProof, data)
    else none

instance instSerializeProtocolEntry : CatalystSerialize ProtocolEntry :=
  ⟨fun e => serialize e.publicKey ++ serialize e.amount⟩

instance instDeserializeProtocolEntry : CatalystDeserialize ProtocolEntry where
  deserializeFrom data := do
    let (publicKey, data) ← deserializeFrom data
    let (amount, data) ← deserializeFrom data
    return (⟨publicKey, amount⟩, data)

instance instSerializeTransactionCore : CatalystSerialize TransactionCore :=
  ⟨fun c => serialize c.txType ++ serialize c.entries ++ serialize c.nonce ++
    serialize c.lockTime ++ serialize c.fees ++ serialize c.data⟩

instance instDeserializeTransactionCore : CatalystDeserialize TransactionCore where
  deserializeFrom data := do
    let (txType, data) ← deserializeFrom data
    let (entries, data) ← deserializeFrom data
    let (nonce, data) ← deserializeFrom data
    let (lockTime, data) ← deserializeFrom data
    let (fees, data) ← deserializeFrom data
    let (txData, data) ← deserializeFrom data
    return (⟨txType, entries, nonce, lockTime, fees, txData⟩, data)

/-- The wire form of a transaction before it named its signature scheme. -/
structure TransactionV1 where
  core : TransactionCore
  signature : Bytes
  timestamp : UInt64
  deriving DecidableEq

instance instSerializeTransactionV1 : CatalystSerialize TransactionV1 :=
  ⟨fun t => serialize t.core ++ serialize t.signature ++ serialize t.timestamp⟩

instance instDeserializeTransactionV1 : CatalystDeserialize TransactionV1 where
  deserializeFrom data := do
    let (core, data) ← deserializeFrom data
    let (signature, data) ← deserializeFrom data
    let (timestamp, data) ← deserializeFrom data
    return (⟨core, signature, timestamp⟩, data)

instance instSerializeTransaction : CatalystSerialize Transaction :=
  ⟨fun t => serialize t.core ++ serialize t.signatureScheme ++ serialize t.signature ++
    serialize t.senderPubkey ++ serialize t.timestamp⟩

instance instDeserializeTransaction : CatalystDeserialize Transaction where
  deserializeFrom data := do
    let (core, data) ← deserializeFrom data
    let (signatureScheme, data) ← deserializeFrom data
    let (signature, data) ← deserializeFrom data
    let (senderPubkey, data) ← deserializeFrom data
    let (timestamp, data) ← deserializeFrom data
    return (⟨core, signatureScheme, signature, senderPubkey, timestamp⟩, data)

instance instSerializeProducerOutput : CatalystSerialize ProducerOutput :=
  ⟨fun o => serialize o.dfsAddress ++ serialize o.voteListHash ++ serialize o.cycleNumber ++
    serialize o.producerId ++ serialize o.timestamp⟩

instance instDeserializeProducerOutput : CatalystDeserialize ProducerOutput where
  deserializeFrom data := do
    let (dfsAddress, data) ← deserializeFrom data
    let (voteListHash, data) ← deserializeFrom data
    let (cycleNumber, data) ← deserializeFrom data
    let (producerId, data) ← deserializeFrom data
    let (timestamp, data) ← deserializeFrom data
    return (⟨dfsAddress, voteListHash, cycleNumber, producerId, timestamp⟩, data)

class SerializedSize (α : Type) where
  serializedSize : α → Nat

export SerializedSize (serializedSize)

instance instSizeUInt8 : SerializedSize UInt8 := ⟨fun _ => 1⟩

instance instSizeUInt32 : SerializedSize UInt32 := ⟨fun _ => 4⟩

instance instSizeUInt64 : SerializedSize UInt64 := ⟨fun _ => 8⟩

instance instSizeInt64 : SerializedSize Int64 := ⟨fun _ => 8⟩

instance instSizeByteVec (n : Nat) : SerializedSize (ByteVec n) := ⟨fun _ => n⟩

instance instSizeList {α : Type} [SerializedSize α] : SerializedSize (List α) :=
  ⟨fun items => 4 + (items.map serializedSize).sum⟩

instance instSizeOption {α : Type} [SerializedSize α] : SerializedSize (Option α) where
  serializedSize
    | none => 1
    | some v => 1 + serializedSize v

instance instSizeString : SerializedSize String := ⟨fun s => 4 + (utf8 s).length⟩

instance instSizeTransactionEntry : SerializedSize TransactionEntry :=
  ⟨fun e => serializedSize e.publicKey + serializedSize e.amount + serializedSize e.signature⟩

instance instSizePartialLedgerStateUpdate : SerializedSize PartialLedgerStateUpdate :=
  ⟨fun p => serializedSize p.transactionEntries + serializedSize p.transactionSignaturesHash +
    serializedSize p.totalFees + serializedSize p.timestamp⟩

instance instSizeCompensationEntry : SerializedSize CompensationEntry :=
  ⟨fun e => serializedSize e.producerId + serializedSize e.publicKey + serializedSize e.amount⟩

instance instSizeLedgerStateUpdate : SerializedSize LedgerStateUpdate :=
  ⟨fun l => serializedSize l.partialUpdate + serializedSize l.compensationEntries +
    serializedSize l.cycleNumber + serializedSize l.producerList + serializedSize l.voteList⟩

instance instSizeProducerQuantity : SerializedSize ProducerQuantity :=
  ⟨fun q => serializedSize q.firstHash + serializedSize q.cycleNumber +
    serializedSize q.producerId + serializedSize q.timestamp⟩

instance instSizeProducerCandidate : SerializedSize ProducerCandidate :=
  ⟨fun c => serializedSize c.majorityHash + serializedSize c.producerListHash +
    serializedSize c.cycleNumber + serializedSize c.producerId + serializedSize c.timestamp⟩

instance instSizeProducerVote : SerializedSize ProducerVote :=
  ⟨fun v => serializedSize v.ledgerStateHash + serializedSize v.voteListHash +
    serializedSize v.cycleNumber + serializedSize v.producerId + serializedSize v.timestamp⟩

instance instSizeProducerOutput : SerializedSize ProducerOutput :=
  ⟨fun o => serializedSize o.dfsAddress + serializedSize o.voteListHash +
    serializedSize o.cycleNumber + serializedSize o.producerId + serializedSize o.timestamp⟩

instance instSizeTransactionType : SerializedSize TransactionType := ⟨fun _ => 1⟩

instance instSizeEntryAmount : SerializedSize EntryAmount where
  serializedSize
    | .nonConfidential _ => 1 + 8
    | .confidential _ rangeProof => 1 + 32 + serializedSize rangeProof

instance instSizeProtocolEntry : SerializedSize ProtocolEntry :=
  ⟨fun e => serializedSize e.publicKey + serializedSize e.amount⟩

instance instSizeTransactionCore : SerializedSize TransactionCore :=
  ⟨fun c => serializedSize c.txType + serializedSize c.entries + serializedSize c.nonce +
    serializedSize c.lockTime + serializedSize c.fees + serializedSize c.data⟩

instance instSizeTransactionV1 : SerializedSize TransactionV1 :=
  ⟨fun t => serializedSize t.core + serializedSize t.signature + serializedSize t.timestamp⟩

instance instSizeTransaction : SerializedSize Transaction :=
  ⟨fun t => serializedSize t.core + serializedSize t.signatureScheme + serializedSize t.signature +
    serializedSize t.senderPubkey + serializedSize t.timestamp⟩

end CatalystNode
