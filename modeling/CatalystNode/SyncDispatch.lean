import CatalystNode.InboundSync
import CatalystNode.Observer
import CatalystNode.WireExactness

namespace CatalystNode

open ByteVector HexCodec Framing
open ExactReader (consumes)
open CappedReader (capped)

section Messages

structure LsuGossip where
  cycle : UInt64
  lsuHash : Hash
  lsu : LedgerStateUpdate

def LsuGossip.new (blake2b512 : Bytes → ByteVec 64) (lsu : LedgerStateUpdate) : LsuGossip :=
  ⟨lsu.cycleNumber, hashData blake2b512 lsu, lsu⟩

instance instSerializeLsuCidGossip : CatalystSerialize LsuCidGossip :=
  ⟨fun m => serialize m.cycle ++ serialize m.lsuHash ++ serialize m.cid ++ serialize m.prevStateRoot ++
    serialize m.stateRoot ++ serialize m.proofCid ++ serialize m.finalityCid ++
    serialize m.stateRootCid⟩

instance instDeserializeLsuCidGossip : CatalystDeserialize LsuCidGossip where
  deserializeFrom data := do
    let (cycle, data) ← deserializeFrom data
    let (lsuHash, data) ← deserializeFrom data
    let (cid, data) ← deserializeFrom data
    let (prevStateRoot, data) ← deserializeFrom data
    let (stateRoot, data) ← deserializeFrom data
    let (proofCid, data) ← deserializeFrom data
    let (finalityCid, data) ← deserializeFrom data
    let (stateRootCid, data) ← deserializeFrom data
    return (⟨cycle, lsuHash, cid, prevStateRoot, stateRoot, proofCid, finalityCid, stateRootCid⟩, data)

instance instSizeLsuCidGossip : SerializedSize LsuCidGossip :=
  ⟨fun m => serializedSize m.cycle + serializedSize m.lsuHash + serializedSize m.cid +
    serializedSize m.prevStateRoot + serializedSize m.stateRoot + serializedSize m.proofCid +
    serializedSize m.finalityCid + serializedSize m.stateRootCid⟩

instance instCappedLsuCidGossip : Capped LsuCidGossip :=
  ⟨fun m => withinCaps m.cid ∧ withinCaps m.proofCid ∧ withinCaps m.finalityCid ∧
    withinCaps m.stateRootCid⟩

theorem withinCaps_lsuCidGossip {m : LsuCidGossip} : withinCaps m = true ↔ withinCaps m.cid = true ∧
    withinCaps m.proofCid = true ∧ withinCaps m.finalityCid = true ∧ withinCaps m.stateRootCid = true := by
  simp only [withinCaps, decide_eq_true_eq]

instance instLawfulLsuCidGossip : LawfulCodec LsuCidGossip where
  takes m caps := by
    obtain ⟨cid, proofCid, finalityCid, stateRootCid⟩ := withinCaps_lsuCidGossip.mp caps
    refine Takes.of_eq (Takes.andThen (LawfulCodec.takes m.cycle rfl) <|
      Takes.andThen (LawfulCodec.takes m.lsuHash rfl) <| Takes.andThen (LawfulCodec.takes m.cid cid) <|
      Takes.andThen (LawfulCodec.takes m.prevStateRoot rfl) <|
      Takes.andThen (LawfulCodec.takes m.stateRoot rfl) <|
      Takes.andThen (LawfulCodec.takes m.proofCid proofCid) <|
      Takes.andThen (LawfulCodec.takes m.finalityCid finalityCid) <|
      Takes.andThen (LawfulCodec.takes m.stateRootCid stateRootCid) <| Takes.done m) ?_
    simp only [List.append_nil, ← List.append_assoc]
    rfl
  size m := size_append m.stateRootCid <| size_append m.finalityCid <| size_append m.proofCid <|
    size_append m.stateRoot <| size_append m.prevStateRoot <| size_append m.cid <|
    size_append m.lsuHash <| LawfulCodec.size m.cycle

instance instCappedReaderLsuCidGossip : CappedReader LsuCidGossip where
  capped {data rest m} read := by
    obtain ⟨_, _, read⟩ := Option.bind_eq_some_iff.mp read
    obtain ⟨_, _, read⟩ := Option.bind_eq_some_iff.mp read
    obtain ⟨_, cid, read⟩ := Option.bind_eq_some_iff.mp read
    obtain ⟨_, _, read⟩ := Option.bind_eq_some_iff.mp read
    obtain ⟨_, _, read⟩ := Option.bind_eq_some_iff.mp read
    obtain ⟨_, proofCid, read⟩ := Option.bind_eq_some_iff.mp read
    obtain ⟨_, finalityCid, read⟩ := Option.bind_eq_some_iff.mp read
    obtain ⟨_, stateRootCid, read⟩ := Option.bind_eq_some_iff.mp read
    cases Option.some.inj read
    exact withinCaps_lsuCidGossip.mpr ⟨capped cid, capped proofCid, capped finalityCid,
      capped stateRootCid⟩

instance instExactLsuCidGossip : ExactReader LsuCidGossip where
  consumes data m rest read := by
    obtain ⟨_, cycle, read⟩ := Option.bind_eq_some_iff.mp read
    obtain ⟨_, lsuHash, read⟩ := Option.bind_eq_some_iff.mp read
    obtain ⟨_, cid, read⟩ := Option.bind_eq_some_iff.mp read
    obtain ⟨_, prevStateRoot, read⟩ := Option.bind_eq_some_iff.mp read
    obtain ⟨_, stateRoot, read⟩ := Option.bind_eq_some_iff.mp read
    obtain ⟨_, proofCid, read⟩ := Option.bind_eq_some_iff.mp read
    obtain ⟨_, finalityCid, read⟩ := Option.bind_eq_some_iff.mp read
    obtain ⟨_, stateRootCid, read⟩ := Option.bind_eq_some_iff.mp read
    cases Option.some.inj read
    rw [consumes cycle, consumes lsuHash, consumes cid, consumes prevStateRoot, consumes stateRoot,
      consumes proofCid, consumes finalityCid, consumes stateRootCid]
    simp only [← List.append_assoc]
    rfl

instance instSerializeLsuGossip : CatalystSerialize LsuGossip :=
  ⟨fun m => serialize m.cycle ++ serialize m.lsuHash ++ serialize m.lsu⟩

instance instDeserializeLsuGossip : CatalystDeserialize LsuGossip where
  deserializeFrom data := do
    let (cycle, data) ← deserializeFrom data
    let (lsuHash, data) ← deserializeFrom data
    let (lsu, data) ← deserializeFrom data
    return (⟨cycle, lsuHash, lsu⟩, data)

instance instSizeLsuGossip : SerializedSize LsuGossip :=
  ⟨fun m => serializedSize m.cycle + serializedSize m.lsuHash + serializedSize m.lsu⟩

instance instCappedLsuGossip : Capped LsuGossip := ⟨fun m => withinCaps m.lsu⟩

instance instLawfulLsuGossip : LawfulCodec LsuGossip where
  takes m caps := by
    refine Takes.of_eq (Takes.andThen (LawfulCodec.takes m.cycle rfl) <|
      Takes.andThen (LawfulCodec.takes m.lsuHash rfl) <| Takes.andThen (LawfulCodec.takes m.lsu caps) <|
      Takes.done m) ?_
    simp only [List.append_nil, ← List.append_assoc]
    rfl
  size m := size_append m.lsu <| size_append m.lsuHash <| LawfulCodec.size m.cycle

instance instCappedReaderLsuGossip : CappedReader LsuGossip where
  capped {data rest m} read := by
    obtain ⟨_, _, read⟩ := Option.bind_eq_some_iff.mp read
    obtain ⟨_, _, read⟩ := Option.bind_eq_some_iff.mp read
    obtain ⟨_, lsu, read⟩ := Option.bind_eq_some_iff.mp read
    cases Option.some.inj read
    have caps := capped lsu
    exact caps

instance instExactLsuGossip : ExactReader LsuGossip where
  consumes data m rest read := by
    obtain ⟨_, cycle, read⟩ := Option.bind_eq_some_iff.mp read
    obtain ⟨_, lsuHash, read⟩ := Option.bind_eq_some_iff.mp read
    obtain ⟨_, lsu, read⟩ := Option.bind_eq_some_iff.mp read
    cases Option.some.inj read
    rw [consumes cycle, consumes lsuHash, consumes lsu]
    simp only [← List.append_assoc]
    rfl

instance instSizeLsuBroadcast : SerializedSize LedgerStateUpdateBroadcast :=
  ⟨fun b => serializedSize b.lsu + serializedSize b.cycleNumber + serializedSize b.producerId⟩

instance instCappedLsuBroadcast : Capped LedgerStateUpdateBroadcast :=
  ⟨fun b => withinCaps b.lsu ∧ withinCaps b.producerId⟩

instance instLawfulLsuBroadcast : LawfulCodec LedgerStateUpdateBroadcast where
  takes b caps := by
    obtain ⟨lsu, producerId⟩ : withinCaps b.lsu = true ∧ withinCaps b.producerId = true := by
      simpa only [withinCaps, decide_eq_true_eq] using caps
    refine Takes.of_eq (Takes.andThen (LawfulCodec.takes b.lsu lsu) <|
      Takes.andThen (LawfulCodec.takes b.cycleNumber rfl) <|
      Takes.andThen (LawfulCodec.takes b.producerId producerId) <| Takes.done b) ?_
    simp only [List.append_nil, ← List.append_assoc]
    rfl
  size b := size_append b.producerId <| size_append b.cycleNumber <| LawfulCodec.size b.lsu

end Messages

section Dispatch

inductive SyncMessage where
  | cidGossip (msg : LsuCidGossip)
  | gossip (msg : LsuGossip)
  | broadcast (msg : LedgerStateUpdateBroadcast)

/-- The payload of a synchronisation message bears no mark of its type: the types are tried in turn. -/
def extractSync (payload : Bytes) : Option SyncMessage :=
  match (deserialize payload : Option LsuCidGossip) with
  | some msg => some (.cidGossip msg)
  | none =>
    match (deserialize payload : Option LsuGossip) with
    | some msg => some (.gossip msg)
    | none => (deserialize payload).map .broadcast

/-- The bytes begin with a string, two hashes and three strings: what a reference has after its cycle
and its hash. -/
def BeginsReference (bytes : Bytes) : Prop :=
  ∃ (cid : String) (prevStateRoot stateRoot : Hash) (proofCid finalityCid stateRootCid : String),
    withinCaps cid = true ∧ withinCaps proofCid = true ∧ withinCaps finalityCid = true ∧
    withinCaps stateRootCid = true ∧
    serialize cid ++ serialize prevStateRoot ++ serialize stateRoot ++ serialize proofCid ++
      serialize finalityCid ++ serialize stateRootCid <+: bytes

def BeginsUpdate (bytes : Bytes) : Prop :=
  ∃ lsu : LedgerStateUpdate, withinCaps lsu = true ∧ serialize lsu <+: bytes

theorem exists_cycle_hash {data : Bytes} (enough : 40 ≤ data.length) :
    ∃ (cycle : UInt64) (hash : Hash), data = serialize cycle ++ serialize hash ++ data.drop 40 := by
  have word : readExact 8 data = some (data.take 8, data.drop 8) := if_pos (by omega)
  have length : ((data.drop 8).take 32).length = 32 := by
    rw [List.length_take, List.length_drop]
    omega
  refine ⟨UInt64.ofNat (ofLeBytes (data.take 8)), ⟨(data.drop 8).take 32, length⟩, ?_⟩
  have cycle : serialize (UInt64.ofNat (ofLeBytes (data.take 8))) = data.take 8 :=
    leBytes_of_readExact word
  rw [cycle]
  change data = data.take 8 ++ (data.drop 8).take 32 ++ data.drop (8 + 32)
  rw [List.append_assoc, ← List.drop_drop, List.take_append_drop, List.take_append_drop]

theorem four_le_length_serialize {α : Type} [CatalystSerialize α] (items : List α) :
    4 ≤ (serialize items).length := by
  change 4 ≤ (leBytes 4 items.length ++ items.flatMap serialize).length
  rw [List.length_append, length_leBytes]
  omega

theorem length_serialize_u64 (x : UInt64) : (serialize x).length = 8 := length_leBytes 8 x.toNat

theorem length_serialize_hash (h : Hash) : (serialize h).length = 32 := h.toList_length

theorem drop_cycle_hash (cycle : UInt64) (hash : Hash) (rest : Bytes) :
    (serialize cycle ++ serialize hash ++ rest).drop 40 = rest := by
  apply List.drop_left'
  rw [List.length_append, length_serialize_u64, length_serialize_hash]

theorem length_serialize_lsu (lsu : LedgerStateUpdate) : 72 ≤ (serialize lsu).length := by
  change 72 ≤ (serialize lsu.partialUpdate.transactionEntries ++
    serialize lsu.partialUpdate.transactionSignaturesHash ++ serialize lsu.partialUpdate.totalFees ++
    serialize lsu.partialUpdate.timestamp ++ serialize lsu.compensationEntries ++
    serialize lsu.cycleNumber ++ serialize lsu.producerList ++ serialize lsu.voteList).length
  have := four_le_length_serialize lsu.partialUpdate.transactionEntries
  have := four_le_length_serialize lsu.compensationEntries
  have := four_le_length_serialize lsu.producerList
  have := four_le_length_serialize lsu.voteList
  simp only [List.length_append, length_serialize_u64, length_serialize_hash]
  omega

theorem BeginsUpdate.length_le {bytes : Bytes} (begins : BeginsUpdate bytes) : 72 ≤ bytes.length := by
  obtain ⟨lsu, -, leads⟩ := begins
  exact (length_serialize_lsu lsu).trans leads.length_le

theorem BeginsReference.length_le {bytes : Bytes} (begins : BeginsReference bytes) :
    80 ≤ bytes.length := by
  obtain ⟨cid, prevStateRoot, stateRoot, proofCid, finalityCid, stateRootCid, -, -, -, -, leads⟩ := begins
  have text : ∀ s : String, 4 ≤ (serialize s).length := fun s => four_le_length_serialize (utf8 s)
  have bound := leads.length_le
  simp only [List.length_append, length_serialize_hash] at bound
  have := text cid
  have := text proofCid
  have := text finalityCid
  have := text stateRootCid
  omega

/-- A reference is read exactly if what follows the cycle and the hash reads as the rest of one. -/
theorem cidGossip_isSome_iff {data : Bytes} :
    (deserialize data : Option LsuCidGossip).isSome ↔ BeginsReference (data.drop 40) := by
  rw [deserialize_isSome_iff]
  constructor
  · rintro ⟨m, caps, tail, rfl⟩
    obtain ⟨cid, proofCid, finalityCid, stateRootCid⟩ := withinCaps_lsuCidGossip.mp caps
    have after := drop_cycle_hash m.cycle m.lsuHash (serialize m.cid ++ serialize m.prevStateRoot ++
      serialize m.stateRoot ++ serialize m.proofCid ++ serialize m.finalityCid ++
      serialize m.stateRootCid ++ tail)
    simp only [← List.append_assoc] at after
    change BeginsReference ((serialize m.cycle ++ serialize m.lsuHash ++ serialize m.cid ++
      serialize m.prevStateRoot ++ serialize m.stateRoot ++ serialize m.proofCid ++
      serialize m.finalityCid ++ serialize m.stateRootCid ++ tail).drop 40)
    rw [after]
    exact ⟨m.cid, m.prevStateRoot, m.stateRoot, m.proofCid, m.finalityCid, m.stateRootCid, cid,
      proofCid, finalityCid, stateRootCid, List.prefix_append _ _⟩
  · intro begins
    have bound := begins.length_le
    rw [List.length_drop] at bound
    obtain ⟨cycle, hash, split⟩ := exists_cycle_hash (show 40 ≤ data.length by omega)
    obtain ⟨cid, prevStateRoot, stateRoot, proofCid, finalityCid, stateRootCid, caps₁, caps₂, caps₃,
      caps₄, tail, after⟩ := begins
    refine ⟨⟨cycle, hash, cid, prevStateRoot, stateRoot, proofCid, finalityCid, stateRootCid⟩,
      withinCaps_lsuCidGossip.mpr ⟨caps₁, caps₂, caps₃, caps₄⟩, tail, ?_⟩
    rw [split, ← after]
    simp only [← List.append_assoc]
    rfl

theorem gossip_isSome_iff {data : Bytes} :
    (deserialize data : Option LsuGossip).isSome ↔ BeginsUpdate (data.drop 40) := by
  rw [deserialize_isSome_iff]
  constructor
  · rintro ⟨m, caps, tail, rfl⟩
    change BeginsUpdate ((serialize m.cycle ++ serialize m.lsuHash ++ serialize m.lsu ++ tail).drop 40)
    rw [List.append_assoc, drop_cycle_hash]
    exact ⟨m.lsu, caps, List.prefix_append _ _⟩
  · intro begins
    have bound := begins.length_le
    rw [List.length_drop] at bound
    obtain ⟨cycle, hash, split⟩ := exists_cycle_hash (show 40 ≤ data.length by omega)
    obtain ⟨lsu, caps, tail, after⟩ := begins
    refine ⟨⟨cycle, hash, lsu⟩, caps, tail, ?_⟩
    rw [split, ← after, ← List.append_assoc]
    rfl

theorem extractSync_gossip_iff {msg : LsuGossip} (caps : withinCaps msg.lsu = true) :
    extractSync (serialize msg) = some (.gossip msg) ↔ ¬BeginsReference (serialize msg.lsu) := by
  have read : deserialize (serialize msg) = some msg := deserialize_serialize (x := msg) caps
  have other := @cidGossip_isSome_iff (serialize msg)
  have after : (serialize msg).drop 40 = serialize msg.lsu := drop_cycle_hash msg.cycle msg.lsuHash _
  rw [after] at other
  rw [← other, extractSync]
  cases (deserialize (serialize msg) : Option LsuCidGossip) with
  | some found => simp
  | none => simp [read]

theorem extractSync_broadcast_iff {msg : LedgerStateUpdateBroadcast} (caps : withinCaps msg = true) :
    extractSync (serialize msg) = some (.broadcast msg) ↔
      ¬BeginsReference ((serialize msg).drop 40) ∧ ¬BeginsUpdate ((serialize msg).drop 40) := by
  have read := deserialize_serialize caps
  rw [← cidGossip_isSome_iff, ← gossip_isSome_iff, extractSync]
  cases (deserialize (serialize msg) : Option LsuCidGossip) with
  | some found => simp
  | none =>
    cases (deserialize (serialize msg) : Option LsuGossip) with
    | some found => simp
    | none => simp [read]

end Dispatch

/-- A full update is recognised exactly if it does not begin like the rest of a reference, and a broadcast
exactly if, after its first forty bytes, it begins neither like the rest of a reference nor with an
update. -/
theorem syncPayload_recognised_iff (blake2b512 : Bytes → ByteVec 64) (lsu : LedgerStateUpdate)
    (caps : withinCaps lsu = true) :
    (extractSync (serialize (LsuGossip.new blake2b512 lsu)) = some (.gossip (LsuGossip.new blake2b512 lsu)) ↔
      ¬BeginsReference (serialize lsu)) ∧
    ∀ (cycle : UInt64) (id : ProducerId), withinCaps id = true →
      (extractSync (serialize (⟨lsu, cycle, id⟩ : LedgerStateUpdateBroadcast)) =
          some (.broadcast ⟨lsu, cycle, id⟩) ↔
        ¬BeginsReference ((serialize (⟨lsu, cycle, id⟩ : LedgerStateUpdateBroadcast)).drop 40) ∧
        ¬BeginsUpdate ((serialize (⟨lsu, cycle, id⟩ : LedgerStateUpdateBroadcast)).drop 40)) := by
  refine ⟨extractSync_gossip_iff caps, fun cycle id fits => extractSync_broadcast_iff ?_⟩
  simpa only [withinCaps, decide_eq_true_eq] using And.intro caps fits

/-- An update without transactions and rewards, of three producers or more, begins like the rest of a
reference: the empty list of transactions is read as an empty content id, and the names of the producers
as the ids of the proofs. -/
theorem beginsReference_of_idle {lsu : LedgerStateUpdate} {first second third : ProducerId}
    {more : List ProducerId} (caps : withinCaps lsu = true)
    (noEntries : lsu.partialUpdate.transactionEntries = []) (noRewards : lsu.compensationEntries = [])
    (producers : lsu.producerList = first :: second :: third :: more) :
    BeginsReference (serialize lsu) := by
  have listed : ∀ id ∈ lsu.producerList, withinCaps id = true := by
    have all := caps
    simp only [withinCaps, decide_eq_true_eq, List.all_eq_true] at all ⊢
    exact all.2.2.1.2
  rw [producers] at listed
  have zero : ∀ {α : Type} [CatalystSerialize α], serialize ([] : List α) = serialize "" := rfl
  let middle := serialize lsu.partialUpdate.totalFees ++ serialize lsu.partialUpdate.timestamp ++
    serialize "" ++ serialize lsu.cycleNumber ++ leBytes 4 lsu.producerList.length
  have length : middle.length = 32 := by
    simp only [middle, List.length_append, length_serialize_u64, length_leBytes]
    rfl
  let root : Hash := ⟨middle, length⟩
  have rootBytes : serialize root = middle := rfl
  refine ⟨"", lsu.partialUpdate.transactionSignaturesHash, root, first, second, third, rfl,
    listed first (by simp), listed second (by simp), listed third (by simp),
    more.flatMap serialize ++ serialize lsu.voteList, ?_⟩
  have written : serialize lsu = serialize lsu.partialUpdate.transactionEntries ++
      serialize lsu.partialUpdate.transactionSignaturesHash ++ serialize lsu.partialUpdate.totalFees ++
      serialize lsu.partialUpdate.timestamp ++ serialize lsu.compensationEntries ++
      serialize lsu.cycleNumber ++ serialize lsu.producerList ++ serialize lsu.voteList := rfl
  have names : serialize lsu.producerList = leBytes 4 lsu.producerList.length ++
      (serialize first ++ (serialize second ++ (serialize third ++ more.flatMap serialize))) := by
    rw [producers]
    rfl
  rw [written, noEntries, noRewards, zero, zero, names, rootBytes]
  simp only [middle, List.append_assoc]

def sampleIdle (producers : List ProducerId) : LedgerStateUpdate :=
  ⟨⟨[], zeros 32, 0, 7⟩, [], 5, producers, []⟩

/-- Sent in full, it is taken for a reference. -/
theorem idleGossip_misread :
    withinCaps (sampleIdle ["a", "b", "c"]) = true ∧
    extractSync (serialize (LsuGossip.new checksum (sampleIdle ["a", "b", "c"]))) ≠
      some (.gossip (LsuGossip.new checksum (sampleIdle ["a", "b", "c"]))) := by
  have caps : withinCaps (sampleIdle ["a", "b", "c"]) = true := by decide
  refine ⟨caps, fun recognised => ?_⟩
  exact (@extractSync_gossip_iff (LsuGossip.new checksum (sampleIdle ["a", "b", "c"])) caps).mp
    recognised (beginsReference_of_idle caps rfl rfl rfl)

def sampleBusy : LedgerStateUpdate :=
  ⟨⟨[⟨padTo 32 [200], -5, [9]⟩, ⟨padTo 32 [2], 5, [9]⟩], zeros 32, 3, 7⟩, [⟨"a", padTo 32 [3], 1⟩], 5,
    ["a", "b", "c"], ["a", "b"]⟩

/-- An update with entries is recognised: in full, since its first account would have to be a content id
and is no text, and as a broadcast, since a negative amount stands where a length is expected. -/
theorem syncPayload_recognised_iff_transfer :
    extractSync (serialize (LsuGossip.new checksum sampleBusy)) =
      some (.gossip (LsuGossip.new checksum sampleBusy)) ∧
    extractSync (serialize (⟨sampleBusy, 5, "a"⟩ : LedgerStateUpdateBroadcast)) =
      some (.broadcast ⟨sampleBusy, 5, "a"⟩) := by
  obtain ⟨gossip, broadcast⟩ := syncPayload_recognised_iff checksum sampleBusy (by decide)
  refine ⟨gossip.mpr ?_, (broadcast 5 "a" (by decide)).mpr ⟨?_, ?_⟩⟩
  · rw [← drop_cycle_hash 0 (zeros 32) (serialize sampleBusy), ← cidGossip_isSome_iff]
    decide +kernel
  · rw [← cidGossip_isSome_iff]
    decide +kernel
  · rw [← gossip_isSome_iff]
    decide +kernel

section Canonical

/-- A reader accepts a value's own bytes in front of anything, and nothing else as that value. -/
def ReadsCanonically (α : Type) [CatalystSerialize α] [CatalystDeserialize α] [Capped α] : Prop :=
  ∀ (data rest : Bytes) (x : α), deserializeFrom data = some (x, rest) ↔
    withinCaps x = true ∧ data = serialize x ++ rest

theorem ExactReader.readsCanonically (α : Type) [CatalystSerialize α] [CatalystDeserialize α]
    [SerializedSize α] [Capped α] [LawfulCodec α] [CappedReader α] [ExactReader α] :
    ReadsCanonically α := by
  intro data rest x
  constructor
  · intro read
    exact ⟨CappedReader.capped read, ExactReader.consumes read⟩
  · rintro ⟨caps, rfl⟩
    exact LawfulCodec.takes x caps rest

/-- No update and no message about one has a second encoding. -/
theorem syncMessages_readCanonically :
    ReadsCanonically TransactionEntry ∧ ReadsCanonically PartialLedgerStateUpdate ∧
      ReadsCanonically CompensationEntry ∧ ReadsCanonically LedgerStateUpdate ∧
      ReadsCanonically LsuCidGossip ∧ ReadsCanonically LsuGossip :=
  ⟨ExactReader.readsCanonically _, ExactReader.readsCanonically _, ExactReader.readsCanonically _,
    ExactReader.readsCanonically _, ExactReader.readsCanonically _, ExactReader.readsCanonically _⟩

end Canonical

end CatalystNode
