import CatalystNode.SigningPayload
import CatalystNode.StateRootFinality

namespace CatalystNode

open ByteVector HexCodec PrefixCode

/-- What a node key or a wallet key puts a signature under. -/
inductive ProtocolStatement where
  | finality (chainId : UInt64) (genesisHash : Hash) (cycle : UInt64)
    (lsuHash committeeHash voteListHash : Hash)
  | stateRoot (chainId : UInt64) (genesisHash : Hash) (cycle : UInt64)
    (lsuHash committeeHash stateRoot : Hash)
  | transaction (core : TransactionCore) (timestamp : UInt64)
  | transactionV1 (core : TransactionCore) (timestamp chainId : UInt64) (genesisHash : Hash)
  | transactionV2 (core : TransactionCore) (timestamp chainId : UInt64) (genesisHash : Hash)
    (signatureScheme : UInt8) (senderPubkey : Option Bytes)

/-- What is known of the serde encoding of a core: the index of the type comes first, the words and
length prefixes take forty bytes. -/
structure BincodeCore (bincodeCore : TransactionCore → Bytes) : Prop where
  tagFirst : TagFirst bincodeCore
  fixedWidth : ∀ core, 40 ≤ (bincodeCore core).length

namespace ProtocolStatement

def preimage : ProtocolStatement → Option Bytes
  | finality chainId genesisHash cycle lsuHash committeeHash voteListHash =>
    some (hCertPreimage chainId genesisHash cycle lsuHash committeeHash voteListHash)
  | .stateRoot chainId genesisHash cycle lsuHash committeeHash root =>
    some (hRootPreimage chainId genesisHash cycle lsuHash committeeHash root)
  | _ => none

def signedBytes (blake2b512 : Bytes → ByteVec 64) (bincodeCore : TransactionCore → Bytes) :
    ProtocolStatement → Bytes
  | finality chainId genesisHash cycle lsuHash committeeHash voteListHash =>
    (hCertV1 blake2b512 chainId genesisHash cycle lsuHash committeeHash voteListHash).toList
  | .stateRoot chainId genesisHash cycle lsuHash committeeHash root =>
    (hRootV1 blake2b512 chainId genesisHash cycle lsuHash committeeHash root).toList
  | transaction core timestamp => transactionSigningPayload bincodeCore core timestamp
  | transactionV1 core timestamp chainId genesisHash =>
    transactionSigningPayloadV1 core timestamp chainId genesisHash
  | transactionV2 core timestamp chainId genesisHash signatureScheme senderPubkey =>
    transactionSigningPayloadV2 core timestamp chainId genesisHash signatureScheme senderPubkey

def Fits : ProtocolStatement → Prop
  | transactionV1 core _ _ _ => fits core
  | transactionV2 core _ _ _ _ senderPubkey => fits core ∧ fits senderPubkey
  | _ => True

end ProtocolStatement

open ProtocolStatement

section Digests

variable {blake2b512 : Bytes → ByteVec 64} {bincodeCore : TransactionCore → Bytes}
  {s t : ProtocolStatement}

theorem hCertPreimage_ne_hRootPreimage (chain chain' cycle cycle' : UInt64)
    (genesis genesis' lsu lsu' committee committee' votes root : Hash) :
    hCertPreimage chain genesis cycle lsu committee votes ≠
      hRootPreimage chain' genesis' cycle' lsu' committee' root := by
  intro same
  rw [hCertPreimage, hRootPreimage, toList_append_inj] at same
  exact absurd same.1 (by decide)

theorem preimage_inj {p : Bytes} (hs : s.preimage = some p) (ht : t.preimage = some p) : s = t := by
  cases s with
  | finality chain genesis cycle lsu committee votes =>
    cases t with
    | finality chain' genesis' cycle' lsu' committee' votes' =>
      obtain ⟨rfl, rfl, rfl, rfl, rfl, rfl⟩ := hCertPreimage_inj
        (Option.some.inj (hs.trans ht.symm))
      rfl
    | stateRoot =>
      have same := Option.some.inj (hs.trans ht.symm)
      exact absurd same (hCertPreimage_ne_hRootPreimage _ _ _ _ _ _ _ _ _ _ _ _)
    | _ => cases ht
  | stateRoot chain genesis cycle lsu committee root =>
    cases t with
    | finality =>
      have same := Option.some.inj (ht.trans hs.symm)
      exact absurd same (hCertPreimage_ne_hRootPreimage _ _ _ _ _ _ _ _ _ _ _ _)
    | stateRoot chain' genesis' cycle' lsu' committee' root' =>
      obtain ⟨rfl, rfl, rfl, rfl, rfl, rfl⟩ := hRootPreimage_inj
        (Option.some.inj (hs.trans ht.symm))
      rfl
    | _ => cases ht
  | _ => cases hs

theorem signedBytes_of_preimage {p : Bytes} (hs : s.preimage = some p) :
    s.signedBytes blake2b512 bincodeCore = (blake2b512Trunc32 blake2b512 p).toList := by
  cases s with
  | finality => cases hs; rfl
  | stateRoot => cases hs; rfl
  | _ => cases hs

theorem length_signedBytes_of_transaction (layout : BincodeCore bincodeCore)
    (hs : s.preimage = none) : 32 < (s.signedBytes blake2b512 bincodeCore).length := by
  cases s with
  | finality => cases hs
  | stateRoot => cases hs
  | transaction core timestamp =>
    have width := layout.fixedWidth core
    simp only [signedBytes, transactionSigningPayload, List.length_append]
    omega
  | transactionV1 core timestamp chain genesis =>
    have domain : txSigDomainV1.length = 15 := by decide
    simp only [signedBytes, transactionSigningPayloadV1, List.length_append, domain,
      length_leBytes, List.Vector.toList_length]
    omega
  | transactionV2 core timestamp chain genesis scheme sender =>
    have domain : txSigDomainV2.length = 15 := by decide
    simp only [signedBytes, transactionSigningPayloadV2, List.length_append, domain,
      length_leBytes, List.Vector.toList_length]
    omega

theorem transactionSigningPayload_inj {core core' : TransactionCore}
    {timestamp timestamp' : UInt64}
    (same : transactionSigningPayload bincodeCore core timestamp =
      transactionSigningPayload bincodeCore core' timestamp') :
    bincodeCore core = bincodeCore core' ∧ timestamp = timestamp' := by
  obtain ⟨cores, times⟩ := List.append_inj' same (by simp [length_leBytes])
  exact ⟨cores, instDelimitingUInt64.prefixFree.injOn trivial trivial times⟩

theorem eq_of_signedBytes_of_transaction (layout : BincodeCore bincodeCore)
    {issued : Set ProtocolStatement}
    (lossless : Set.InjOn bincodeCore {core | ∃ timestamp, transaction core timestamp ∈ issued})
    (memS : s ∈ issued) (memT : t ∈ issued) (hs : s.preimage = none) (ht : t.preimage = none)
    (fitsS : s.Fits) (fitsT : t.Fits)
    (same : s.signedBytes blake2b512 bincodeCore = t.signedBytes blake2b512 bincodeCore) : s = t := by
  cases s with
  | finality => cases hs
  | stateRoot => cases hs
  | transaction core timestamp =>
    cases t with
    | finality => cases ht
    | stateRoot => cases ht
    | transaction =>
      obtain ⟨cores, rfl⟩ := transactionSigningPayload_inj same
      cases lossless ⟨_, memS⟩ ⟨_, memT⟩ cores
      rfl
    | transactionV1 => exact absurd same (transactionSigningPayload_ne_V1 layout.tagFirst)
    | transactionV2 => exact absurd same (transactionSigningPayload_ne_V2 layout.tagFirst)
  | transactionV1 core timestamp chain genesis =>
    cases t with
    | finality => cases ht
    | stateRoot => cases ht
    | transaction => exact absurd same.symm (transactionSigningPayload_ne_V1 layout.tagFirst)
    | transactionV1 =>
      obtain ⟨rfl, rfl, rfl, rfl⟩ := transactionSigningPayloadV1_inj fitsS fitsT same
      rfl
    | transactionV2 => exact absurd same transactionSigningPayloadV1_ne_V2
  | transactionV2 core timestamp chain genesis scheme sender =>
    cases t with
    | finality => cases ht
    | stateRoot => cases ht
    | transaction => exact absurd same.symm (transactionSigningPayload_ne_V2 layout.tagFirst)
    | transactionV1 => exact absurd same.symm transactionSigningPayloadV1_ne_V2
    | transactionV2 =>
      obtain ⟨rfl, rfl, rfl, rfl, rfl, rfl⟩ :=
        transactionSigningPayloadV2_inj fitsS.1 fitsT.1 fitsS.2 fitsT.2 same
      rfl

/-- Among statements whose digests do not collide, a digest belongs to one statement only: neither
another digest nor the payload of any transaction coincides with it. The same bytes are signed for
two statements only if they are one. -/
theorem signedBytes_separated (layout : BincodeCore bincodeCore) (issued : Set ProtocolStatement)
    (lossless : Set.InjOn bincodeCore {core | ∃ timestamp, transaction core timestamp ∈ issued})
    (apart : Set.InjOn (blake2b512Trunc32 blake2b512)
      {p | ∃ s ∈ issued, s.preimage = some p}) :
    (∀ s ∈ issued, ∀ t ∈ issued, s.preimage.isSome →
      s.signedBytes blake2b512 bincodeCore = t.signedBytes blake2b512 bincodeCore → s = t) ∧
    Set.InjOn (signedBytes blake2b512 bincodeCore) {s ∈ issued | s.Fits} := by
  have digests : ∀ s ∈ issued, ∀ t ∈ issued, s.preimage.isSome →
      s.signedBytes blake2b512 bincodeCore = t.signedBytes blake2b512 bincodeCore → s = t := by
    intro s hs t ht digest same
    obtain ⟨p, hp⟩ := Option.isSome_iff_exists.mp digest
    rw [signedBytes_of_preimage hp] at same
    cases hq : t.preimage with
    | none =>
      have longer : 32 < (t.signedBytes blake2b512 bincodeCore).length :=
        length_signedBytes_of_transaction layout hq
      rw [← same, List.Vector.toList_length] at longer
      omega
    | some q =>
      rw [signedBytes_of_preimage hq] at same
      have sameInput := apart ⟨s, hs, hp⟩ ⟨t, ht, hq⟩ (Subtype.ext same)
      exact preimage_inj hp (sameInput ▸ hq)
  refine ⟨digests, ?_⟩
  rintro s ⟨hs, fitsS⟩ t ⟨ht, fitsT⟩ same
  cases hp : s.preimage with
  | some p => exact digests s hs t ht (by simp [hp]) same
  | none =>
    cases hq : t.preimage with
    | some q => exact (digests t ht s hs (by simp [hq]) same.symm).symm
    | none => exact eq_of_signedBytes_of_transaction layout lossless hs ht hp hq fitsS fitsT same

end Digests

def sampleStatements : Set ProtocolStatement :=
  {finality 7 (zeros 32) 5 (padTo 32 [1]) (padTo 32 [2]) (padTo 32 [3]),
    stateRoot 7 (zeros 32) 5 (padTo 32 [1]) (padTo 32 [2]) (padTo 32 [3]),
    transaction (sampleCore 1) 7}

theorem signedBytes_separated_sample :
    hCertV1 checksum 7 (zeros 32) 5 (padTo 32 [1]) (padTo 32 [2]) (padTo 32 [3]) ≠
      hRootV1 checksum 7 (zeros 32) 5 (padTo 32 [1]) (padTo 32 [2]) (padTo 32 [3]) ∧
    (hCertV1 checksum 7 (zeros 32) 5 (padTo 32 [1]) (padTo 32 [2]) (padTo 32 [3])).toList ≠
      transactionSigningPayload sampleBincodeCore (sampleCore 1) 7 := by
  have layout : BincodeCore sampleBincodeCore := by
    constructor
    · intro core
      simp only [sampleBincodeCore, List.append_assoc]
      exact List.prefix_append _ _
    · intro core
      simp only [sampleBincodeCore, List.length_append, length_leBytes]
      omega
  have lossless : Set.InjOn sampleBincodeCore
      {core | ∃ timestamp, transaction core timestamp ∈ sampleStatements} := by
    rintro core ⟨time, hcore⟩ core' ⟨time', hcore'⟩ -
    simp only [sampleStatements, Set.mem_insert_iff, Set.mem_singleton_iff, reduceCtorEq, false_or,
      transaction.injEq] at hcore hcore'
    rw [hcore.1, hcore'.1]
  have apart : Set.InjOn (blake2b512Trunc32 checksum)
      {p | ∃ s ∈ sampleStatements, s.preimage = some p} := by
    have differ : blake2b512Trunc32 checksum (hCertPreimage 7 (zeros 32) 5 (padTo 32 [1])
        (padTo 32 [2]) (padTo 32 [3])) ≠ blake2b512Trunc32 checksum (hRootPreimage 7 (zeros 32) 5
        (padTo 32 [1]) (padTo 32 [2]) (padTo 32 [3])) := by decide +kernel
    rintro p ⟨s, hs, hp⟩ q ⟨t, ht, hq⟩ same
    simp only [sampleStatements, Set.mem_insert_iff, Set.mem_singleton_iff] at hs ht
    rcases hs with rfl | rfl | rfl <;> cases hp <;> rcases ht with rfl | rfl | rfl <;> cases hq
    · rfl
    · exact absurd same differ
    · exact absurd same.symm differ
    · rfl
  obtain ⟨digests, -⟩ := signedBytes_separated layout sampleStatements lossless apart
  have first := digests (finality 7 (zeros 32) 5 (padTo 32 [1]) (padTo 32 [2]) (padTo 32 [3]))
    (by simp [sampleStatements])
  refine ⟨fun same => ?_, fun same => ?_⟩
  · have equal := first (stateRoot 7 (zeros 32) 5 (padTo 32 [1]) (padTo 32 [2]) (padTo 32 [3]))
      (by simp [sampleStatements]) rfl (congrArg List.Vector.toList same)
    cases equal
  · have equal := first (transaction (sampleCore 1) 7) (by simp [sampleStatements]) rfl same
    cases equal

end CatalystNode
