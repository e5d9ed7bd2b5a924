import CatalystNode.ProducerMerkle
import CatalystNode.Plurality
import CatalystNode.MachineInt

namespace CatalystNode

open ByteVector HexCodec MachineInt CanonicalList Plurality

inductive ConsensusError where
  | insufficientData (got required : Nat)
  | noMajority (highest threshold : Nat) (details : String)
  | phaseTimeout (phase : String) (durationMs : UInt64)
  | consensusFailed (reason : String)
  | network (message : String)
  deriving DecidableEq, Repr

structure Producer where
  id : ProducerId
  publicKey : PublicKey
  cycleNumber : UInt64
  expectedProducers : Nat
  partialUpdate : Option PartialLedgerStateUpdate
  ledgerUpdate : Option LedgerStateUpdate
  firstHash : Option Hash
  producerList : Option (List ProducerId)
  voteList : Option (List ProducerId)
  selectedProducers : List ProducerId

def Producer.new (id : ProducerId) (publicKey : PublicKey) (cycleNumber : UInt64) : Producer where
  id
  publicKey
  cycleNumber
  expectedProducers := 1
  partialUpdate := none
  ledgerUpdate := none
  firstHash := none
  producerList := none
  voteList := none
  selectedProducers := []

def Producer.resetForCycle (p : Producer) (cycleNumber : UInt64)
    (selectedProducers : List ProducerId) : Producer :=
  let canonical := sortDedup selectedProducers
  { p with
    cycleNumber
    expectedProducers := max canonical.length 1
    selectedProducers := canonical
    partialUpdate := none
    ledgerUpdate := none
    firstHash := none
    producerList := none
    voteList := none }

def Producer.requiredMajority (p : Producer) : Nat := p.expectedProducers / 2 + 1

structure RewardConfig where
  blockReward : UInt64
  feeToRewardPoolBps : UInt16
  producerSetRewardBps : UInt16
  waitingPoolRewardBps : UInt16
  deriving DecidableEq

def RewardConfig.default : RewardConfig := ⟨1000000000, 3000, 7000, 3000⟩

def collectById {α : Type} (producerId : α → ProducerId) (messages : List α) :
    Std.ExtTreeMap ProducerId α :=
  messages.foldl (fun m a => m.insert (producerId a) a) ∅

/-- The debug rendering of how many ids stand behind each hash. -/
def showCounts (counts : List (Hash × List ProducerId)) : String :=
  "[" ++ ", ".intercalate (counts.map (fun c =>
    "(\"" ++ encodeString c.1.toList ++ "\", " ++ toString c.2.length ++ ")")) ++ "]"

section Phases

variable (blake2b512 : Bytes → ByteVec 64)

def signatureLeafHash (sig : Bytes) : Hash := blake2b512Trunc32 blake2b512 sig

/-- The order of entries in an update: signature hash, account, amount, signature length. -/
def entrySortKey (e : TransactionEntry) : Hash ×ₗ PublicKey ×ₗ Int ×ₗ Nat :=
  toLex (signatureLeafHash blake2b512 e.signature,
    toLex (e.publicKey, toLex (e.amount.toInt, e.signature.length)))

def netFees (entries : List TransactionEntry) : UInt64 :=
  let net := (entries.map (fun e => e.amount.toInt)).sum
  if net < 0 then UInt64.ofNat (min (-net).toNat (2 ^ 64 - 1)) else 0

def buildPartialUpdate (p : Producer) (transactions : List TransactionEntry) (nowMs : UInt64) :
    Producer × ProducerQuantity :=
  let sortedEntries := transactions.insertionSort (fun a b =>
    entrySortKey blake2b512 a ≤ entrySortKey blake2b512 b)
  let signaturesHash := computeMerkleRoot blake2b512
    (sortedEntries.map (fun e => signatureLeafHash blake2b512 e.signature))
  let partialUpdate := ⟨sortedEntries, signaturesHash, netFees sortedEntries, p.cycleNumber⟩
  let firstHash := hashData blake2b512 (partialUpdate : PartialLedgerStateUpdate)
  ({ p with partialUpdate := some partialUpdate, firstHash := some firstHash },
    ⟨firstHash, p.cycleNumber, p.id, nowMs⟩)

def includeSelf (p : Producer) (majorityHash : Hash) (ids : List ProducerId) : List ProducerId :=
  if p.firstHash = some majorityHash ∧ p.id ∉ ids then ids ++ [p.id] else ids

def findMajorityCandidate (p : Producer) (quantities : Std.ExtTreeMap ProducerId ProducerQuantity)
    (requiredMajority : Nat) (nowMs : UInt64) :
    Except ConsensusError (Producer × ProducerCandidate) :=
  if quantities.size < requiredMajority then
    .error (.insufficientData quantities.size requiredMajority)
  else
    let ballots := quantities.toList.map (fun q => (q.1, q.2.firstHash))
    let best := plurality ballots
    match best.1 with
    | none => .error (.noMajority 0 requiredMajority s!" (phase=campaigning cycle={p.cycleNumber})")
    | some majorityHash =>
      if best.2.length < requiredMajority then
        let counts := showCounts (voters ballots).toList
        .error (.noMajority best.2.length requiredMajority
          s!" (phase=campaigning cycle={p.cycleNumber} first_hash_counts={counts})")
      else
        let finalProducerList := sortDedup (includeSelf p majorityHash best.2)
        .ok ({ p with producerList := some finalProducerList },
          ⟨majorityHash, hashProducerListMerkle blake2b512 finalProducerList, p.cycleNumber, p.id,
            nowMs⟩)

/-- Pays the producers in order, the first ones one atom more while a remainder is left. -/
def splitReward (per : UInt64) : UInt64 → List ProducerId → List CompensationEntry
  | _, [] => []
  | remainder, id :: ids =>
    ⟨id, (parseHex32 id).getD (zeros 32), shareWithRemainder per remainder⟩ ::
      splitReward per (remainderLeft remainder) ids

def producerRewardPool (totalFees : UInt64) (rewardConfig : RewardConfig) : UInt64 :=
  let rewardFromFees := saturatingMulU64 totalFees rewardConfig.feeToRewardPoolBps.toUInt64 / 10000
  let totalRewardPool := saturatingAddU64 rewardConfig.blockReward rewardFromFees
  saturatingMulU64 totalRewardPool rewardConfig.producerSetRewardBps.toUInt64 / 10000

def createCompensationEntries (p : Producer) (producerList : List ProducerId)
    (rewardConfig : RewardConfig) : List CompensationEntry :=
  if producerList = [] then []
  else
    let totalFees := (p.partialUpdate.map PartialLedgerStateUpdate.totalFees).getD 0
    let pool := producerRewardPool totalFees rewardConfig
    let count := UInt64.ofNat producerList.length
    (splitReward (pool / count) (pool % count)
      (producerList.insertionSort (· ≤ ·))).insertionSort (fun a b => a.producerId ≤ b.producerId)

/-- The committee an update names: the selected producers, or in a setup without them the ids whose
messages were counted. -/
def committeeOr (p : Producer) (committee observed : List ProducerId) : List ProducerId :=
  if committee = [] then sortDedup (if p.id ∈ observed then observed else observed ++ [p.id])
  else committee

def createFinalLedgerUpdate (p : Producer)
    (candidates : Std.ExtTreeMap ProducerId ProducerCandidate) (requiredMajority : Nat)
    (rewardConfig : RewardConfig) (nowMs : UInt64) :
    Except ConsensusError (Producer × ProducerVote) :=
  match p.firstHash with
  | none => .error (.consensusFailed "No first hash available for voting")
  | some ourHash =>
    if candidates.size < requiredMajority then
      .error (.insufficientData candidates.size requiredMajority)
    else
      let best := plurality (candidates.toList.map (fun c => (c.1, c.2.majorityHash)))
      match best.1 with
      | none => .error (.noMajority 0 requiredMajority s!" (phase=voting cycle={p.cycleNumber})")
      | some majorityHash =>
        if best.2.length < requiredMajority then
          .error (.noMajority best.2.length requiredMajority
            s!" (phase=voting cycle={p.cycleNumber} candidate_majority_hash_counts=ambiguous)")
        else if ourHash ≠ majorityHash then
          .error (.consensusFailed "Our hash doesn't match majority, cannot vote")
        else
          let finalProducerList := committeeOr p (sortDedup p.selectedProducers) best.2
          match p.partialUpdate with
          | none => .error (.consensusFailed "No partial update available")
          | some partialUpdate =>
            let ledgerUpdate : LedgerStateUpdate :=
              ⟨partialUpdate, createCompensationEntries p finalProducerList rewardConfig,
                p.cycleNumber, finalProducerList, finalProducerList⟩
            .ok ({ p with
                ledgerUpdate := some ledgerUpdate
                voteList := some finalProducerList },
              ⟨hashData blake2b512 ledgerUpdate, hashProducerListMerkle blake2b512 finalProducerList,
                p.cycleNumber, p.id, nowMs⟩)

/-- The address of an update: a scheme byte and the first twenty bytes of its hash. -/
def storeToDfs (ledgerStateHash : Hash) : ByteVec 21 :=
  padTo 21 (1 :: ledgerStateHash.toList.take 20)

def finalizeLedgerUpdate (p : Producer) (votes : Std.ExtTreeMap ProducerId ProducerVote)
    (requiredMajority : Nat) (nowMs : UInt64) : Except ConsensusError ProducerOutput :=
  if votes.size < requiredMajority then .error (.insufficientData votes.size requiredMajority)
  else
    let best := plurality (votes.toList.map (fun v => (v.1, v.2.ledgerStateHash)))
    match best.1 with
    | none =>
      .error (.noMajority 0 requiredMajority s!" (phase=synchronization cycle={p.cycleNumber})")
    | some finalHash =>
      if best.2.length < requiredMajority then
        .error (.noMajority best.2.length requiredMajority
          s!" (phase=synchronization cycle={p.cycleNumber} ledger_state_hash_counts=ambiguous)")
      else
        let finalVoteList := committeeOr p p.selectedProducers best.2
        match p.ledgerUpdate with
        | none => .error (.consensusFailed "No ledger update available")
        | some ledgerUpdate =>
          if hashData blake2b512 ledgerUpdate ≠ finalHash then
            .error (.consensusFailed "Our ledger update doesn't match majority")
          else
            .ok ⟨storeToDfs finalHash, hashProducerListMerkle blake2b512 finalVoteList,
              p.cycleNumber, p.id, nowMs⟩

end Phases

end CatalystNode
