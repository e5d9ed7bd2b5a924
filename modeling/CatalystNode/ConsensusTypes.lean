import CatalystNode.HexCodec

namespace CatalystNode

open ByteVector HexCodec

abbrev Hash := ByteVec 32

abbrev PublicKey := ByteVec 32

instance instTransOrdPublicKey : Std.TransOrd PublicKey := inferInstance

abbrev ProducerId := String

inductive StorageError where
  | internal (message : String)
  deriving DecidableEq, Repr

class CatalystSerialize (α : Type) where
  serialize : α → Bytes

export CatalystSerialize (serialize)

instance instSerializeUInt8 : CatalystSerialize UInt8 := ⟨fun b => [b]⟩

instance instSerializeUInt64 : CatalystSerialize UInt64 := ⟨fun x => leBytes 8 x.toNat⟩

instance instSerializeInt64 : CatalystSerialize Int64 := ⟨fun x => leBytes 8 x.toUInt64.toNat⟩

instance instSerializeByteVec (n : Nat) : CatalystSerialize (ByteVec n) := ⟨fun v => v.toList⟩

/-- The length prefix keeps the low 32 bits of the length. -/
instance instSerializeList {α : Type} [CatalystSerialize α] : CatalystSerialize (List α) :=
  ⟨fun items => leBytes 4 items.length ++ items.flatMap serialize⟩

instance instSerializeString : CatalystSerialize String := ⟨fun s => serialize (utf8 s)⟩

def isWhitespace (c : Char) : Bool :=
  (9 ≤ c.toNat ∧ c.toNat ≤ 13) ∨ (0x2000 ≤ c.toNat ∧ c.toNat ≤ 0x200a) ∨
    c.toNat ∈ [0x20, 0x85, 0xa0, 0x1680, 0x2028, 0x2029, 0x202f, 0x205f, 0x3000]

def trim (s : List Char) : List Char := (s.dropWhile isWhitespace).rdropWhile isWhitespace

/-- Hex with optional surrounding blanks and an optional 0x in front. -/
def parseHex32 (s : String) : Option PublicKey :=
  let digits := match trim s.toList with
    | '0' :: 'x' :: rest => rest
    | other => other
  (decode (utf8 (String.ofList digits))).bind (toArray? 32)

structure TransactionEntry where
  publicKey : PublicKey
  amount : Int64
  signature : Bytes
  deriving DecidableEq

instance instSerializeTransactionEntry : CatalystSerialize TransactionEntry :=
  ⟨fun e => serialize e.publicKey ++ serialize e.amount ++ serialize e.signature⟩

structure PartialLedgerStateUpdate where
  transactionEntries : List TransactionEntry
  transactionSignaturesHash : Hash
  totalFees : UInt64
  timestamp : UInt64
  deriving DecidableEq

instance instSerializePartialLedgerStateUpdate : CatalystSerialize PartialLedgerStateUpdate :=
  ⟨fun p => serialize p.transactionEntries ++ serialize p.transactionSignaturesHash ++
    serialize p.totalFees ++ serialize p.timestamp⟩

structure CompensationEntry where
  producerId : ProducerId
  publicKey : PublicKey
  amount : UInt64
  deriving DecidableEq

instance instSerializeCompensationEntry : CatalystSerialize CompensationEntry :=
  ⟨fun e => serialize e.producerId ++ serialize e.publicKey ++ serialize e.amount⟩

structure LedgerStateUpdate where
  partialUpdate : PartialLedgerStateUpdate
  compensationEntries : List CompensationEntry
  cycleNumber : UInt64
  producerList : List ProducerId
  voteList : List ProducerId
  deriving DecidableEq

instance instSerializeLedgerStateUpdate : CatalystSerialize LedgerStateUpdate :=
  ⟨fun l => serialize l.partialUpdate ++ serialize l.compensationEntries ++
    serialize l.cycleNumber ++ serialize l.producerList ++ serialize l.voteList⟩

structure ProducerQuantity where
  firstHash : Hash
  cycleNumber : UInt64
  producerId : ProducerId
  timestamp : UInt64
  deriving DecidableEq

instance instSerializeProducerQuantity : CatalystSerialize ProducerQuantity :=
  ⟨fun q => serialize q.firstHash ++ serialize q.cycleNumber ++ serialize q.producerId ++
    serialize q.timestamp⟩

structure ProducerCandidate where
  majorityHash : Hash
  producerListHash : Hash
  cycleNumber : UInt64
  producerId : ProducerId
  timestamp : UInt64
  deriving DecidableEq

instance instSerializeProducerCandidate : CatalystSerialize ProducerCandidate :=
  ⟨fun c => serialize c.majorityHash ++ serialize c.producerListHash ++ serialize c.cycleNumber ++
    serialize c.producerId ++ serialize c.timestamp⟩

structure ProducerVote where
  ledgerStateHash : Hash
  voteListHash : Hash
  cycleNumber : UInt64
  producerId : ProducerId
  timestamp : UInt64
  deriving DecidableEq

instance instSerializeProducerVote : CatalystSerialize ProducerVote :=
  ⟨fun v => serialize v.ledgerStateHash ++ serialize v.voteListHash ++ serialize v.cycleNumber ++
    serialize v.producerId ++ serialize v.timestamp⟩

structure ProducerOutput where
  dfsAddress : ByteVec 21
  voteListHash : Hash
  cycleNumber : UInt64
  producerId : ProducerId
  timestamp : UInt64
  deriving DecidableEq

section Hashing

variable (blake2b512 : Bytes → ByteVec 64)

def blake2b512Trunc32 (data : Bytes) : Hash := @firstHalf 32 (blake2b512 data)

def hashData {α : Type} [CatalystSerialize α] (data : α) : Hash :=
  blake2b512Trunc32 blake2b512 (serialize data)

end Hashing

/-- A rolling checksum standing in for the hash on concrete inputs. -/
def checksum (data : Bytes) : ByteVec 64 :=
  padTo 64 (leBytes 8 (data.foldl (fun acc b => (acc * 257 + b.toNat + 1) % (2 ^ 61 - 1)) 7))

end CatalystNode
