import CatalystNode.WireCodec

namespace CatalystNode

open ByteVector HexCodec Framing

/-- A value that the caps of the reader let through: no vector of more than a million items and no
string of more than a hundred million bytes in it. -/
class Capped (α : Type) where
  withinCaps : α → Bool

export Capped (withinCaps)

/-- What is written within the caps is read back, whatever follows it, and its size is announced
exactly. -/
class LawfulCodec (α : Type) [CatalystSerialize α] [CatalystDeserialize α] [SerializedSize α]
    [Capped α] : Prop where
  takes : ∀ x : α, withinCaps x → Takes deserializeFrom (serialize x) x
  size : ∀ x : α, serializedSize x = (serialize x).length

open LawfulCodec (takes size)

theorem size_append {α : Type} [CatalystSerialize α] [CatalystDeserialize α] [SerializedSize α]
    [Capped α] [LawfulCodec α] {written : Bytes} {n : Nat} (x : α) (h : n = written.length) :
    n + serializedSize x = (written ++ serialize x).length := by
  rw [List.length_append, h, size]

section Scalars

instance instCappedUInt8 : Capped UInt8 := ⟨fun _ => true⟩

instance instCappedUInt32 : Capped UInt32 := ⟨fun _ => true⟩

instance instCappedUInt64 : Capped UInt64 := ⟨fun _ => true⟩

instance instCappedInt64 : Capped Int64 := ⟨fun _ => true⟩

instance instCappedByteVec (n : Nat) : Capped (ByteVec n) := ⟨fun _ => true⟩

instance instLawfulUInt8 : LawfulCodec UInt8 where
  takes _ _ := fun _ => rfl
  size _ := rfl

instance instLawfulUInt32 : LawfulCodec UInt32 where
  takes x _ := by
    have taken := (takes_readExact (length_leBytes 4 x.toNat)).map
      (fun bytes => UInt32.ofNat (ofLeBytes bytes))
    rwa [ofLeBytes_leBytes x.toNat_lt, UInt32.ofNat_toNat] at taken
  size x := (length_leBytes 4 x.toNat).symm

instance instLawfulUInt64 : LawfulCodec UInt64 where
  takes x _ := by
    have taken := (takes_readExact (length_leBytes 8 x.toNat)).map
      (fun bytes => UInt64.ofNat (ofLeBytes bytes))
    rwa [ofLeBytes_leBytes x.toNat_lt, UInt64.ofNat_toNat] at taken
  size x := (length_leBytes 8 x.toNat).symm

instance instLawfulInt64 : LawfulCodec Int64 where
  takes x _ := by
    have taken := (takes_readExact (length_leBytes 8 x.toUInt64.toNat)).map
      (fun bytes => (UInt64.ofNat (ofLeBytes bytes)).toInt64)
    rwa [ofLeBytes_leBytes x.toUInt64.toNat_lt, UInt64.ofNat_toNat] at taken
  size x := (length_leBytes 8 x.toUInt64.toNat).symm

instance instLawfulByteVec (n : Nat) : LawfulCodec (ByteVec n) where
  takes v _ := (takes_readExact v.toList_length).convert (dif_pos v.toList_length)
  size v := v.toList_length.symm

end Scalars

section Sequences

variable {α : Type}

instance instCappedList [Capped α] : Capped (List α) :=
  ⟨fun items => items.length ≤ 1000000 ∧ items.all withinCaps⟩

variable [CatalystSerialize α] [CatalystDeserialize α] [SerializedSize α] [Capped α] [LawfulCodec α]

theorem takes_readItems {items : List α} (caps : ∀ x ∈ items, withinCaps x) :
    Takes (readItems items.length) (items.flatMap serialize) items := by
  induction items with
  | nil => exact Takes.done []
  | cons x items ih =>
    have first := takes x (caps x List.mem_cons_self)
    have rest := ih (fun y hy => caps y (List.mem_cons_of_mem _ hy))
    rw [List.flatMap_cons, ← List.append_nil (items.flatMap serialize)]
    exact first.andThen (rest.andThen (Takes.done (x :: items)))

instance instLawfulList : LawfulCodec (List α) where
  takes items caps := by
    obtain ⟨short, each⟩ : items.length ≤ 1000000 ∧ ∀ x ∈ items, withinCaps x := by
      simpa only [withinCaps, decide_eq_true_eq, List.all_eq_true] using caps
    have count : ofLeBytes (leBytes 4 items.length) = items.length := ofLeBytes_leBytes (by omega)
    refine (takes_readExact (length_leBytes 4 items.length)).andThen ?_
    change Takes (fun data => if 1000000 < ofLeBytes (leBytes 4 items.length) then none
      else readItems (ofLeBytes (leBytes 4 items.length)) data) _ _
    rw [count]
    exact Takes.unless (by omega) (takes_readItems each)
  size items := by
    have each : items.map serializedSize = items.map (fun x => (serialize x).length) :=
      List.map_congr_left (fun x _ => size x)
    simp [serializedSize, serialize, length_leBytes, List.length_flatMap, each]

instance instCappedOption : Capped (Option α) := ⟨fun o => o.all withinCaps⟩

instance instLawfulOption : LawfulCodec (Option α) where
  takes
    | none, _ => (takes (0 : UInt8) rfl).andThen (Takes.done none)
    | some v, caps => (takes (1 : UInt8) rfl).andThen
        (((takes v caps).andThen (Takes.done (some v))).of_eq (List.append_nil _))
  size
    | none => rfl
    | some v => by simp [serializedSize, serialize, size v, add_comm]

end Sequences

section Strings

instance instCappedString : Capped String := ⟨fun s => (utf8 s).length ≤ 100000000⟩

theorem fromUTF8?_utf8 (s : String) : String.fromUTF8? ⟨(utf8 s).toArray⟩ = some s := by
  have same : (⟨(utf8 s).toArray⟩ : ByteArray) = s.toByteArray := by simp [utf8]
  rw [same, String.fromUTF8?, dif_pos s.isValidUTF8]
  rfl

theorem flatMap_serialize_bytes (bytes : Bytes) : bytes.flatMap serialize = bytes := by
  induction bytes with
  | nil => rfl
  | cons b bytes ih => rw [List.flatMap_cons, ih]; rfl

instance instLawfulString : LawfulCodec String where
  takes s caps := by
    have short : (utf8 s).length ≤ 100000000 := by
      simpa only [withinCaps, decide_eq_true_eq] using caps
    have count : ofLeBytes (leBytes 4 (utf8 s).length) = (utf8 s).length :=
      ofLeBytes_leBytes (by omega)
    refine (takes_readExact (length_leBytes 4 (utf8 s).length)).andThen ?_
    change Takes (fun data => if 100000000 < ofLeBytes (leBytes 4 (utf8 s).length) then none
      else (readExact (ofLeBytes (leBytes 4 (utf8 s).length)) data).bind (fun p =>
        (String.fromUTF8? ⟨p.1.toArray⟩).bind (fun s => some (s, p.2)))) _ _
    rw [count, flatMap_serialize_bytes]
    refine Takes.unless (by omega) ?_
    exact Takes.convert (f := fun text : Bytes => String.fromUTF8? ⟨text.toArray⟩)
      (takes_readExact rfl) (fromUTF8?_utf8 s)
  size s := by
    change _ = (leBytes 4 (utf8 s).length ++ (utf8 s).flatMap serialize).length
    rw [flatMap_serialize_bytes, List.length_append, length_leBytes]
    rfl

end Strings

section Consensus

instance instCappedTransactionEntry : Capped TransactionEntry := ⟨fun e => withinCaps e.signature⟩

instance instLawfulTransactionEntry : LawfulCodec TransactionEntry where
  takes e caps := by
    refine Takes.of_eq (Takes.andThen (takes e.publicKey rfl) <|
      Takes.andThen (takes e.amount rfl) <| Takes.andThen (takes e.signature caps) <|
      Takes.done e) ?_
    simp only [List.append_nil, ← List.append_assoc]
    rfl
  size e := size_append e.signature <| size_append e.amount <| size e.publicKey

instance instCappedPartialLedgerStateUpdate : Capped PartialLedgerStateUpdate :=
  ⟨fun p => withinCaps p.transactionEntries⟩

instance instLawfulPartialLedgerStateUpdate : LawfulCodec PartialLedgerStateUpdate where
  takes p caps := by
    refine Takes.of_eq (Takes.andThen (takes p.transactionEntries caps) <|
      Takes.andThen (takes p.transactionSignaturesHash rfl) <|
      Takes.andThen (takes p.totalFees rfl) <| Takes.andThen (takes p.timestamp rfl) <|
      Takes.done p) ?_
    simp only [List.append_nil, ← List.append_assoc]
    rfl
  size p := size_append p.timestamp <| size_append p.totalFees <|
    size_append p.transactionSignaturesHash <| size p.transactionEntries

instance instCappedCompensationEntry : Capped CompensationEntry :=
  ⟨fun e => withinCaps e.producerId⟩

instance instLawfulCompensationEntry : LawfulCodec CompensationEntry where
  takes e caps := by
    refine Takes.of_eq (Takes.andThen (takes e.producerId caps) <|
      Takes.andThen (takes e.publicKey rfl) <| Takes.andThen (takes e.amount rfl) <|
      Takes.done e) ?_
    simp only [List.append_nil, ← List.append_assoc]
    rfl
  size e := size_append e.amount <| size_append e.publicKey <| size e.producerId

instance instCappedLedgerStateUpdate : Capped LedgerStateUpdate :=
  ⟨fun l => withinCaps l.partialUpdate ∧ withinCaps l.compensationEntries ∧
    withinCaps l.producerList ∧ withinCaps l.voteList⟩

instance instLawfulLedgerStateUpdate : LawfulCodec LedgerStateUpdate where
  takes l caps := by
    obtain ⟨partialUpdate, compensationEntries, producerList, voteList⟩ :
        withinCaps l.partialUpdate = true ∧ withinCaps l.compensationEntries = true ∧
        withinCaps l.producerList = true ∧ withinCaps l.voteList = true := by
      simpa only [withinCaps, decide_eq_true_eq] using caps
    refine Takes.of_eq (Takes.andThen (takes l.partialUpdate partialUpdate) <|
      Takes.andThen (takes l.compensationEntries compensationEntries) <|
      Takes.andThen (takes l.cycleNumber rfl) <|
      Takes.andThen (takes l.producerList producerList) <|
      Takes.andThen (takes l.voteList voteList) <| Takes.done l) ?_
    simp only [List.append_nil, ← List.append_assoc]
    rfl
  size l := size_append l.voteList <| size_append l.producerList <| size_append l.cycleNumber <|
    size_append l.compensationEntries <| size l.partialUpdate

instance instCappedProducerQuantity : Capped ProducerQuantity := ⟨fun q => withinCaps q.producerId⟩

instance instLawfulProducerQuantity : LawfulCodec ProducerQuantity where
  takes q caps := by
    refine Takes.of_eq (Takes.andThen (takes q.firstHash rfl) <|
      Takes.andThen (takes q.cycleNumber rfl) <| Takes.andThen (takes q.producerId caps) <|
      Takes.andThen (takes q.timestamp rfl) <| Takes.done q) ?_
    simp only [List.append_nil, ← List.append_assoc]
    rfl
  size q := size_append q.timestamp <| size_append q.producerId <| size_append q.cycleNumber <|
    size q.firstHash

instance instCappedProducerCandidate : Capped ProducerCandidate :=
  ⟨fun c => withinCaps c.producerId⟩

instance instLawfulProducerCandidate : LawfulCodec ProducerCandidate where
  takes c caps := by
    refine Takes.of_eq (Takes.andThen (takes c.majorityHash rfl) <|
      Takes.andThen (takes c.producerListHash rfl) <| Takes.andThen (takes c.cycleNumber rfl) <|
      Takes.andThen (takes c.producerId caps) <| Takes.andThen (takes c.timestamp rfl) <|
      Takes.done c) ?_
    simp only [List.append_nil, ← List.append_assoc]
    rfl
  size c := size_append c.timestamp <| size_append c.producerId <| size_append c.cycleNumber <|
    size_append c.producerListHash <| size c.majorityHash

instance instCappedProducerVote : Capped ProducerVote := ⟨fun v => withinCaps v.producerId⟩

instance instLawfulProducerVote : LawfulCodec ProducerVote where
  takes v caps := by
    refine Takes.of_eq (Takes.andThen (takes v.ledgerStateHash rfl) <|
      Takes.andThen (takes v.voteListHash rfl) <| Takes.andThen (takes v.cycleNumber rfl) <|
      Takes.andThen (takes v.producerId caps) <| Takes.andThen (takes v.timestamp rfl) <|
      Takes.done v) ?_
    simp only [List.append_nil, ← List.append_assoc]
    rfl
  size v := size_append v.timestamp <| size_append v.producerId <| size_append v.cycleNumber <|
    size_append v.voteListHash <| size v.ledgerStateHash

instance instCappedProducerOutput : Capped ProducerOutput := ⟨fun o => withinCaps o.producerId⟩

instance instLawfulProducerOutput : LawfulCodec ProducerOutput where
  takes o caps := by
    refine Takes.of_eq (Takes.andThen (takes o.dfsAddress rfl) <|
      Takes.andThen (takes o.voteListHash rfl) <| Takes.andThen (takes o.cycleNumber rfl) <|
      Takes.andThen (takes o.producerId caps) <| Takes.andThen (takes o.timestamp rfl) <|
      Takes.done o) ?_
    simp only [List.append_nil, ← List.append_assoc]
    rfl
  size o := size_append o.timestamp <| size_append o.producerId <| size_append o.cycleNumber <|
    size_append o.voteListHash <| size o.dfsAddress

end Consensus

section Transactions

instance instCappedTransactionType : Capped TransactionType := ⟨fun _ => true⟩

theorem TransactionType.ofTag_tag (t : TransactionType) : ofTag t.tag = some t := by
  cases t <;> rfl

instance instLawfulTransactionType : LawfulCodec TransactionType where
  takes t _ := Takes.convert (f := TransactionType.ofTag) (takes t.tag rfl) t.ofTag_tag
  size _ := rfl

instance instCappedEntryAmount : Capped EntryAmount where
  withinCaps
    | .nonConfidential _ => true
    | .confidential _ rangeProof => withinCaps rangeProof

instance instLawfulEntryAmount : LawfulCodec EntryAmount where
  takes
    | .nonConfidential v, _ => by
      refine Takes.of_eq (Takes.andThen (takes (0 : UInt8) rfl) <| Takes.andThen (takes v rfl) <|
        Takes.done (EntryAmount.nonConfidential v)) ?_
      rw [List.append_nil]
      rfl
    | .confidential commitment rangeProof, caps => by
      refine Takes.of_eq (Takes.andThen (takes (1 : UInt8) rfl) <|
        Takes.andThen (takes commitment rfl) <| Takes.andThen (takes rangeProof caps) <|
        Takes.done (EntryAmount.confidential commitment rangeProof)) ?_
      simp only [List.append_nil, ← List.append_assoc]
      rfl
  size
    | .nonConfidential v => size_append v (size (0 : UInt8))
    | .confidential commitment rangeProof =>
      size_append rangeProof (size_append commitment (size (1 : UInt8)))

instance instCappedProtocolEntry : Capped ProtocolEntry := ⟨fun e => withinCaps e.amount⟩

instance instLawfulProtocolEntry : LawfulCodec ProtocolEntry where
  takes e caps := by
    refine Takes.of_eq (Takes.andThen (takes e.publicKey rfl) <|
      Takes.andThen (takes e.amount caps) <| Takes.done e) ?_
    rw [List.append_nil]
    rfl
  size e := size_append e.amount <| size e.publicKey

instance instCappedTransactionCore : Capped TransactionCore :=
  ⟨fun c => withinCaps c.entries ∧ withinCaps c.data⟩

instance instLawfulTransactionCore : LawfulCodec TransactionCore where
  takes c caps := by
    obtain ⟨entries, data⟩ : withinCaps c.entries = true ∧ withinCaps c.data = true := by
      simpa only [withinCaps, decide_eq_true_eq] using caps
    refine Takes.of_eq (Takes.andThen (takes c.txType rfl) <|
      Takes.andThen (takes c.entries entries) <| Takes.andThen (takes c.nonce rfl) <|
      Takes.andThen (takes c.lockTime rfl) <| Takes.andThen (takes c.fees rfl) <|
      Takes.andThen (takes c.data data) <| Takes.done c) ?_
    simp only [List.append_nil, ← List.append_assoc]
    rfl
  size c := size_append c.data <| size_append c.fees <| size_append c.lockTime <|
    size_append c.nonce <| size_append c.entries <| size c.txType

instance instCappedTransactionV1 : Capped TransactionV1 :=
  ⟨fun t => withinCaps t.core ∧ withinCaps t.signature⟩

instance instLawfulTransactionV1 : LawfulCodec TransactionV1 where
  takes t caps := by
    obtain ⟨core, signature⟩ : withinCaps t.core = true ∧ withinCaps t.signature = true := by
      simpa only [withinCaps, decide_eq_true_eq] using caps
    refine Takes.of_eq (Takes.andThen (takes t.core core) <|
      Takes.andThen (takes t.signature signature) <| Takes.andThen (takes t.timestamp rfl) <|
      Takes.done t) ?_
    simp only [List.append_nil, ← List.append_assoc]
    rfl
  size t := size_append t.timestamp <| size_append t.signature <| size t.core

instance instCappedTransaction : Capped Transaction :=
  ⟨fun t => withinCaps t.core ∧ withinCaps t.signature ∧ withinCaps t.senderPubkey⟩

instance instLawfulTransaction : LawfulCodec Transaction where
  takes t caps := by
    obtain ⟨core, signature, senderPubkey⟩ : withinCaps t.core = true ∧
        withinCaps t.signature = true ∧ withinCaps t.senderPubkey = true := by
      simpa only [withinCaps, decide_eq_true_eq] using caps
    refine Takes.of_eq (Takes.andThen (takes t.core core) <|
      Takes.andThen (takes t.signatureScheme rfl) <| Takes.andThen (takes t.signature signature) <|
      Takes.andThen (takes t.senderPubkey senderPubkey) <| Takes.andThen (takes t.timestamp rfl) <|
      Takes.done t) ?_
    simp only [List.append_nil, ← List.append_assoc]
    rfl
  size t := size_append t.timestamp <| size_append t.senderPubkey <| size_append t.signature <|
    size_append t.signatureScheme <| size t.core

end Transactions

/-- Every value within the caps is read back from its encoding, whatever bytes follow, with exactly
those left unread, and announces the length of its encoding. -/
def RoundTrips (α : Type) [CatalystSerialize α] [CatalystDeserialize α] [SerializedSize α]
    [Capped α] : Prop :=
  ∀ (x : α) (rest : Bytes), withinCaps x →
    deserializeFrom (serialize x ++ rest) = some (x, rest) ∧
      serializedSize x = (serialize x).length

theorem LawfulCodec.roundTrips (α : Type) [CatalystSerialize α] [CatalystDeserialize α]
    [SerializedSize α] [Capped α] [LawfulCodec α] : RoundTrips α :=
  fun x rest caps => ⟨takes x caps rest, size x⟩

theorem wireTypes_roundTrip :
    RoundTrips TransactionEntry ∧ RoundTrips PartialLedgerStateUpdate ∧
      RoundTrips CompensationEntry ∧ RoundTrips LedgerStateUpdate ∧ RoundTrips ProducerQuantity ∧
      RoundTrips ProducerCandidate ∧ RoundTrips ProducerVote ∧ RoundTrips ProducerOutput ∧
      RoundTrips Transaction ∧ RoundTrips TransactionV1 :=
  ⟨LawfulCodec.roundTrips _, LawfulCodec.roundTrips _, LawfulCodec.roundTrips _,
    LawfulCodec.roundTrips _, LawfulCodec.roundTrips _, LawfulCodec.roundTrips _,
    LawfulCodec.roundTrips _, LawfulCodec.roundTrips _, LawfulCodec.roundTrips _,
    LawfulCodec.roundTrips _⟩

/-- A transfer with a confidential entry and a sender key, in front of other bytes. -/
theorem wireTypes_roundTrip_transfer :
    let core : TransactionCore := ⟨.confidentialTransfer,
      [⟨zeros 32, .nonConfidential (-5)⟩, ⟨zeros 32, .confidential (zeros 32) [7, 8]⟩], 3, 0, 4, [1]⟩
    let tx : Transaction := ⟨core, 0, [9, 9], some [1, 2], 11⟩
    withinCaps tx ∧ deserializeFrom (serialize tx ++ [250, 251]) = some (tx, [250, 251]) ∧
      serializedSize tx = (serialize tx).length := by
  intro core tx
  have caps : withinCaps tx := by decide +kernel
  exact ⟨caps, wireTypes_roundTrip.2.2.2.2.2.2.2.2.1 tx [250, 251] caps⟩

end CatalystNode
