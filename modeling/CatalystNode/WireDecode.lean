import CatalystNode.ConsensusTypes
import CatalystNode.Framing

namespace CatalystNode

open ByteVector HexCodec Framing

/-- A reader takes a value off the front of its input; what follows it is left unread. -/
class CatalystDeserialize (α : Type) where
  deserializeFrom : Bytes → Option (α × Bytes)

export CatalystDeserialize (deserializeFrom)

def deserialize {α : Type} [CatalystDeserialize α] (data : Bytes) : Option α :=
  (deserializeFrom data).map Prod.fst

def readExact (n : Nat) (data : Bytes) : Option (Bytes × Bytes) :=
  if n ≤ data.length then some (data.take n, data.drop n) else none

theorem takes_readExact {n : Nat} {bytes : Bytes} (h : bytes.length = n) :
    Takes (readExact n) bytes bytes := by
  intro rest
  rw [readExact, if_pos (by simp [h]), List.take_left' h, List.drop_left' h]

instance instDeserializeUInt8 : CatalystDeserialize UInt8 where
  deserializeFrom
    | [] => none
    | b :: rest => some (b, rest)

instance instDeserializeUInt64 : CatalystDeserialize UInt64 where
  deserializeFrom data := (readExact 8 data).map (fun (bytes, rest) =>
    (UInt64.ofNat (ofLeBytes bytes), rest))

instance instDeserializeInt64 : CatalystDeserialize Int64 where
  deserializeFrom data := (readExact 8 data).map (fun (bytes, rest) =>
    ((UInt64.ofNat (ofLeBytes bytes)).toInt64, rest))

instance instDeserializeByteVec (n : Nat) : CatalystDeserialize (ByteVec n) where
  deserializeFrom data := do
    let (bytes, rest) ← readExact n data
    let v ← toArray? n bytes
    return (v, rest)

def readItems {α : Type} [CatalystDeserialize α] : Nat → Bytes → Option (List α × Bytes)
  | 0, data => some ([], data)
  | n + 1, data => do
    let (item, rest) ← deserializeFrom data
    let (items, rest) ← readItems n rest
    return (item :: items, rest)

/-- A vector may announce at most a million items. -/
instance instDeserializeList {α : Type} [CatalystDeserialize α] : CatalystDeserialize (List α) where
  deserializeFrom data := do
    let (bytes, rest) ← readExact 4 data
    if 1000000 < ofLeBytes bytes then none else readItems (ofLeBytes bytes) rest

/-- A string may announce at most a hundred million bytes and must be valid UTF-8. -/
instance instDeserializeString : CatalystDeserialize String where
  deserializeFrom data := do
    let (bytes, rest) ← readExact 4 data
    if 100000000 < ofLeBytes bytes then none
    else do
      let (text, rest) ← readExact (ofLeBytes bytes) rest
      let s ← String.fromUTF8? ⟨text.toArray⟩
      return (s, rest)

instance instDeserializeTransactionEntry : CatalystDeserialize TransactionEntry where
  deserializeFrom data := do
    let (publicKey, data) ← deserializeFrom data
    let (amount, data) ← deserializeFrom data
    let (signature, data) ← deserializeFrom data
    return (⟨publicKey, amount, signature⟩, data)

instance instDeserializePartialLedgerStateUpdate : CatalystDeserialize PartialLedgerStateUpdate where
  deserializeFrom data := do
    let (transactionEntries, data) ← deserializeFrom data
    let (transactionSignaturesHash, data) ← deserializeFrom data
    let (totalFees, data) ← deserializeFrom data
    let (timestamp, data) ← deserializeFrom data
    return (⟨transactionEntries, transactionSignaturesHash, totalFees, timestamp⟩, data)

instance instDeserializeCompensationEntry : CatalystDeserialize CompensationEntry where
  deserializeFrom data := do
    let (producerId, data) ← deserializeFrom data
    let (publicKey, data) ← deserializeFrom data
    let (amount, data) ← deserializeFrom data
    return (⟨producerId, publicKey, amount⟩, data)

instance instDeserializeLedgerStateUpdate : CatalystDeserialize LedgerStateUpdate where
  deserializeFrom data := do
    let (partialUpdate, data) ← deserializeFrom data
    let (compensationEntries, data) ← deserializeFrom data
    let (cycleNumber, data) ← deserializeFrom data
    let (producerList, data) ← deserializeFrom data
    let (voteList, data) ← deserializeFrom data
    return (⟨partialUpdate, compensationEntries, cycleNumber, producerList, voteList⟩, data)

instance instDeserializeProducerQuantity : CatalystDeserialize ProducerQuantity where
  deserializeFrom data := do
    let (firstHash, data) ← deserializeFrom data
    let (cycleNumber, data) ← deserializeFrom data
    let (producerId, data) ← deserializeFrom data
    let (timestamp, data) ← deserializeFrom data
    return (⟨firstHash, cycleNumber, producerId, timestamp⟩, data)

instance instDeserializeProducerCandidate : CatalystDeserialize ProducerCandidate where
  deserializeFrom data := do
    let (majorityHash, data) ← deserializeFrom data
    let (producerListHash, data) ← deserializeFrom data
    let (cycleNumber, data) ← deserializeFrom data
    let (producerId, data) ← deserializeFrom data
    let (timestamp, data) ← deserializeFrom data
    return (⟨majorityHash, producerListHash, cycleNumber, producerId, timestamp⟩, data)

instance instDeserializeProducerVote : CatalystDeserialize ProducerVote where
  deserializeFrom data := do
    let (ledgerStateHash, data) ← deserializeFrom data
    let (voteListHash, data) ← deserializeFrom data
    let (cycleNumber, data) ← deserializeFrom data
    let (producerId, data) ← deserializeFrom data
    let (timestamp, data) ← deserializeFrom data
    return (⟨ledgerStateHash, voteListHash, cycleNumber, producerId, timestamp⟩, data)

end CatalystNode
