import CatalystNode.WireSeparation

namespace CatalystNode

open ByteVector HexCodec PrefixCode

def txSigDomainV1 : Bytes := utf8 "CATALYST_SIG_V1"

def txSigDomainV2 : Bytes := utf8 "CATALYST_SIG_V2"

/-- The payload of old wallets; the serde encoding of the core is a parameter. -/
def transactionSigningPayload (bincodeCore : TransactionCore → Bytes) (core : TransactionCore)
    (timestamp : UInt64) : Bytes :=
  bincodeCore core ++ leBytes 8 timestamp.toNat

def transactionSigningPayloadV1 (core : TransactionCore) (timestamp chainId : UInt64)
    (genesisHash : Hash) : Bytes :=
  txSigDomainV1 ++ leBytes 8 chainId.toNat ++ genesisHash.toList ++ serialize core ++
    leBytes 8 timestamp.toNat

def transactionSigningPayloadV2 (core : TransactionCore) (timestamp chainId : UInt64)
    (genesisHash : Hash) (signatureScheme : UInt8) (senderPubkey : Option Bytes) : Bytes :=
  txSigDomainV2 ++ leBytes 8 chainId.toNat ++ genesisHash.toList ++ [signatureScheme] ++
    serialize senderPubkey ++ serialize core ++ leBytes 8 timestamp.toNat

/-- The serde encoding of a core starts with the index of its type in four bytes. -/
def TagFirst (bincodeCore : TransactionCore → Bytes) : Prop :=
  ∀ core, leBytes 4 core.txType.tag.toNat <+: bincodeCore core

section Separation

variable {core core' : TransactionCore} {timestamp timestamp' chainId chainId' : UInt64}
  {genesisHash genesisHash' : Hash} {scheme scheme' : UInt8} {sender sender' : Option Bytes}

theorem transactionSigningPayloadV1_inj (fitsL : fits core) (fitsR : fits core')
    (same : transactionSigningPayloadV1 core timestamp chainId genesisHash =
      transactionSigningPayloadV1 core' timestamp' chainId' genesisHash') :
    core = core' ∧ timestamp = timestamp' ∧ chainId = chainId' ∧ genesisHash = genesisHash' := by
  simp only [transactionSigningPayloadV1, List.append_assoc, List.append_cancel_left_eq,
    leBytes_append_inj, toList_append_inj] at same
  obtain ⟨chains, geneses, cores⟩ := same
  obtain ⟨sameCore, times⟩ := SelfDelimiting.prefixFree fitsL fitsR cores
  have sameTime := instDelimitingUInt64.prefixFree.injOn trivial trivial times
  exact ⟨sameCore, sameTime, chains, geneses⟩

theorem transactionSigningPayloadV2_inj (fitsL : fits core) (fitsR : fits core')
    (senderL : fits sender) (senderR : fits sender')
    (same : transactionSigningPayloadV2 core timestamp chainId genesisHash scheme sender =
      transactionSigningPayloadV2 core' timestamp' chainId' genesisHash' scheme' sender') :
    core = core' ∧ timestamp = timestamp' ∧ chainId = chainId' ∧ genesisHash = genesisHash' ∧
      scheme = scheme' ∧ sender = sender' := by
  simp only [transactionSigningPayloadV2, List.append_assoc, List.append_cancel_left_eq,
    leBytes_append_inj, toList_append_inj] at same
  obtain ⟨chains, geneses, schemes⟩ := same
  obtain ⟨sameScheme, senders⟩ := instDelimitingUInt8.prefixFree trivial trivial schemes
  obtain ⟨sameSender, cores⟩ := SelfDelimiting.prefixFree senderL senderR senders
  obtain ⟨sameCore, times⟩ := SelfDelimiting.prefixFree fitsL fitsR cores
  have sameTime := instDelimitingUInt64.prefixFree.injOn trivial trivial times
  exact ⟨sameCore, sameTime, chains, geneses, sameScheme, sameSender⟩

theorem ne_of_take_ne {xs ys : Bytes} (n : Nat) (apart : xs.take n ≠ ys.take n) : xs ≠ ys :=
  fun same => apart (congrArg (List.take n) same)

theorem take_transactionSigningPayloadV1 :
    (transactionSigningPayloadV1 core timestamp chainId genesisHash).take 15 = txSigDomainV1 := by
  simp only [transactionSigningPayloadV1, List.append_assoc]
  exact List.take_left' (by decide)

theorem take_transactionSigningPayloadV2 :
    (transactionSigningPayloadV2 core timestamp chainId genesisHash scheme sender).take 15 =
      txSigDomainV2 := by
  simp only [transactionSigningPayloadV2, List.append_assoc]
  exact List.take_left' (by decide)

theorem TransactionType.take_leBytes_tag (t : TransactionType) :
    leBytes 4 t.tag.toNat ≠ txSigDomainV1.take 4 ∧ leBytes 4 t.tag.toNat ≠ txSigDomainV2.take 4 := by
  cases t <;> decide

theorem take_transactionSigningPayload {bincodeCore : TransactionCore → Bytes}
    (tagFirst : TagFirst bincodeCore) :
    (transactionSigningPayload bincodeCore core timestamp).take 4 =
      leBytes 4 core.txType.tag.toNat := by
  obtain ⟨rest, split⟩ := tagFirst core
  rw [transactionSigningPayload, ← split, List.append_assoc]
  exact List.take_left' (length_leBytes 4 _)

theorem transactionSigningPayloadV1_ne_V2 :
    transactionSigningPayloadV1 core timestamp chainId genesisHash ≠
      transactionSigningPayloadV2 core' timestamp' chainId' genesisHash' scheme' sender' := by
  apply ne_of_take_ne 15
  rw [take_transactionSigningPayloadV1, take_transactionSigningPayloadV2]
  decide

theorem transactionSigningPayload_ne_V1 {bincodeCore : TransactionCore → Bytes}
    (tagFirst : TagFirst bincodeCore) :
    transactionSigningPayload bincodeCore core timestamp ≠
      transactionSigningPayloadV1 core' timestamp' chainId' genesisHash' := by
  apply ne_of_take_ne 4
  rw [take_transactionSigningPayload tagFirst, show 4 = min 4 15 from rfl, ← List.take_take,
    take_transactionSigningPayloadV1]
  exact core.txType.take_leBytes_tag.1

theorem transactionSigningPayload_ne_V2 {bincodeCore : TransactionCore → Bytes}
    (tagFirst : TagFirst bincodeCore) :
    transactionSigningPayload bincodeCore core timestamp ≠
      transactionSigningPayloadV2 core' timestamp' chainId' genesisHash' scheme' sender' := by
  apply ne_of_take_ne 4
  rw [take_transactionSigningPayload tagFirst, show 4 = min 4 15 from rfl, ← List.take_take,
    take_transactionSigningPayloadV2]
  exact core.txType.take_leBytes_tag.2

/-- Every payload tells its own fields, and payloads of different versions never coincide. -/
theorem signingPayloads_separated {bincodeCore : TransactionCore → Bytes}
    (tagFirst : TagFirst bincodeCore) (fitsL : fits core) (fitsR : fits core')
    (senderL : fits sender) (senderR : fits sender') :
    (transactionSigningPayloadV1 core timestamp chainId genesisHash =
        transactionSigningPayloadV1 core' timestamp' chainId' genesisHash' →
      core = core' ∧ timestamp = timestamp' ∧ chainId = chainId' ∧ genesisHash = genesisHash') ∧
    (transactionSigningPayloadV2 core timestamp chainId genesisHash scheme sender =
        transactionSigningPayloadV2 core' timestamp' chainId' genesisHash' scheme' sender' →
      core = core' ∧ timestamp = timestamp' ∧ chainId = chainId' ∧ genesisHash = genesisHash' ∧
        scheme = scheme' ∧ sender = sender') ∧
    transactionSigningPayloadV1 core timestamp chainId genesisHash ≠
      transactionSigningPayloadV2 core' timestamp' chainId' genesisHash' scheme' sender' ∧
    transactionSigningPayload bincodeCore core timestamp ≠
      transactionSigningPayloadV1 core' timestamp' chainId' genesisHash' ∧
    transactionSigningPayload bincodeCore core timestamp ≠
      transactionSigningPayloadV2 core' timestamp' chainId' genesisHash' scheme' sender' :=
  ⟨transactionSigningPayloadV1_inj fitsL fitsR,
    transactionSigningPayloadV2_inj fitsL fitsR senderL senderR,
    transactionSigningPayloadV1_ne_V2, transactionSigningPayload_ne_V1 tagFirst,
    transactionSigningPayload_ne_V2 tagFirst⟩

end Separation

def sampleBincodeAmount : EntryAmount → Bytes
  | .nonConfidential v => leBytes 4 0 ++ leBytes 8 v.toUInt64.toNat
  | .confidential commitment rangeProof =>
    leBytes 4 1 ++ commitment.toList ++ leBytes 8 rangeProof.length ++ rangeProof

def sampleBincodeCore (core : TransactionCore) : Bytes :=
  leBytes 4 core.txType.tag.toNat ++ leBytes 8 core.entries.length ++
    core.entries.flatMap (fun e => e.publicKey.toList ++ sampleBincodeAmount e.amount) ++
    leBytes 8 core.nonce.toNat ++ leBytes 4 core.lockTime.toNat ++ leBytes 8 core.fees.toNat ++
    leBytes 8 core.data.length ++ core.data

def sampleCore (nonce : UInt64) : TransactionCore :=
  ⟨.nonConfidentialTransfer, [⟨padTo 32 [1], .nonConfidential (-5)⟩,
    ⟨padTo 32 [2], .nonConfidential 5⟩], nonce, 0, 3, [7]⟩

theorem signingPayloads_separated_transfer :
    transactionSigningPayloadV1 (sampleCore 1) 7 31337 (zeros 32) ≠
      transactionSigningPayloadV1 (sampleCore 2) 7 31337 (zeros 32) ∧
    transactionSigningPayloadV2 (sampleCore 1) 7 31337 (zeros 32) 0 none ≠
      transactionSigningPayloadV2 (sampleCore 2) 7 31337 (zeros 32) 0 (some [1]) ∧
    transactionSigningPayload sampleBincodeCore (sampleCore 1) 7 ≠
      transactionSigningPayloadV1 (sampleCore 2) 7 31337 (zeros 32) := by
  have tagFirst : TagFirst sampleBincodeCore := fun core => by
    simp only [sampleBincodeCore, List.append_assoc]
    exact List.prefix_append _ _
  have small : ∀ nonce, fits (sampleCore nonce) := by
    intro nonce
    refine ⟨⟨by simp [sampleCore], ?_⟩, ⟨by simp [sampleCore], fun _ _ => trivial⟩⟩
    intro e he
    simp only [sampleCore, List.mem_cons, List.not_mem_nil, or_false] at he
    rcases he with rfl | rfl <;> trivial
  obtain ⟨first, second, -, old, -⟩ := @signingPayloads_separated (sampleCore 1) (sampleCore 2) 7 7
    31337 31337 (zeros 32) (zeros 32) 0 0 none (some [1]) sampleBincodeCore tagFirst (small 1)
    (small 2) (fun x hx => by cases hx) (fun x hx => by cases hx; exact ⟨by decide, fun _ _ => trivial⟩)
  refine ⟨fun same => ?_, fun same => ?_, old⟩
  · exact absurd (first same).1 (by decide +kernel)
  · exact absurd (second same).1 (by decide +kernel)

end CatalystNode
