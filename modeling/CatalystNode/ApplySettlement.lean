import CatalystNode.ApplyEntries

namespace CatalystNode

open ByteVector HexCodec MachineInt CanonicalList

def groupNet (entries : List TransactionEntry) : Int :=
  (entries.map (fun e => e.amount.toInt)).sum

/-- Settles one transaction and returns the credits that were turned back into balance. The fee is
what a group of entries takes out of the ledger. -/
def settleGroup (cycle : UInt64) (store : Store) (entries : List TransactionEntry) :
    Store × UInt64 :=
  let net := groupNet entries
  if 0 ≤ net then (store, 0)
  else
    let fee := UInt64.ofNat (min (-net).toNat (2 ^ 64 - 1))
    if fee = 0 then (store, 0)
    else match groupSender entries with
      | none => (store, 0)
      | some sender =>
        let spent := applyFeeCreditSpendForCycle store sender fee cycle
        if 0 < spent.2 then (addToBalance spent.1 sender spent.2.toInt64, spent.2) else spent

def settleStep (cycle : UInt64) (store : Store) (entries : List TransactionEntry) : Store :=
  (settleGroup cycle store entries).1

def settleFeeCreditSpendForAppliedCycle (store : Store) (lsu : LedgerStateUpdate) : Store :=
  if ¬tokenomicsFeeCreditsEnabled then store
  else (groupBySig lsu.partialUpdate.transactionEntries).foldl (settleStep lsu.cycleNumber) store

def splitCycleFees (totalFees : UInt64) : UInt64 × UInt64 × UInt64 :=
  let toRewards := saturatingMulU64 totalFees tokenomicsFeeToRewardPoolBps / 10000
  let toTreasury := saturatingMulU64 totalFees tokenomicsFeeToTreasuryBps / 10000
  let used := min (saturatingAddU64 toRewards toTreasury) totalFees
  (saturatingSubU64 totalFees used, toRewards, toTreasury)

def getWorkerFirstSeenCycle (store : Store) (pubkey : PublicKey) : Option UInt64 :=
  (store.getState (feeCreditFirstSeenCycleKeyForPubkey pubkey)).bind decodeU64

def getWorkerLastRegistrationCycle (store : Store) (pubkey : PublicKey) : Option UInt64 :=
  (store.getState (workerLastRegistrationCycleKeyForPubkey pubkey)).bind decodeU64

def waitingWorkerIsEligible (store : Store) (pubkey : PublicKey) (cycle : UInt64) : Bool :=
  match getWorkerFirstSeenCycle store pubkey with
  | none => false
  | some firstSeen =>
    let warmupCycles := saturatingMulU64 tokenomicsFeeCreditsWarmupDays cyclesPerDay
    if cycle < saturatingAddU64 firstSeen warmupCycles then false
    else match getWorkerLastRegistrationCycle store pubkey with
      | none => true
      | some lastReg =>
        let churnCycles := saturatingMulU64 tokenomicsWaitingEligibilityChurnPenaltyDays cyclesPerDay
        ¬cycle < saturatingAddU64 lastReg churnCycles

def parseProducerIdPubkey (producerId : ProducerId) : Option PublicKey := parseHex32 producerId

/-- What is left for the waiting workers once the producers are paid. The sum of the producers'
amounts wraps around. -/
def waitingPool (lsu : LedgerStateUpdate) : UInt64 :=
  let rewardFromFees := (splitCycleFees lsu.partialUpdate.totalFees).2.1
  let totalRewardPool := saturatingAddU64 tokenomicsBlockRewardAtoms rewardFromFees
  let fromFormula := saturatingMulU64 totalRewardPool tokenomicsWaitingPoolRewardBps / 10000
  let paidToProducers := (lsu.compensationEntries.map CompensationEntry.amount).sum
  min fromFormula (saturatingSubU64 totalRewardPool paidToProducers)

def waitingWorkers (store : Store) (lsu : LedgerStateUpdate) : List PublicKey :=
  let producers := lsu.producerList.filterMap parseProducerIdPubkey
  (sortDedup (loadWorkersFromState store)).filter (fun pk =>
    pk ∉ producers ∧ waitingWorkerIsEligible store pk lsu.cycleNumber)

def accrueFeeCredits (store : Store) (pk : PublicKey) : Store :=
  if tokenomicsFeeCreditsEnabled then
    setFeeCreditBalanceU64 store pk (min
      (saturatingAddU64 (getFeeCreditBalanceU64 store pk) tokenomicsFeeCreditsAccrualAtomsPerDay)
      tokenomicsFeeCreditsMaxBalanceAtoms)
  else store

def payWaiting (per : UInt64) (s : Store × UInt64) (pk : PublicKey) : Store × UInt64 :=
  let paid :=
    if 0 < per ∨ 0 < s.2 then addToBalance s.1 pk (shareWithRemainder per s.2).toInt64 else s.1
  (accrueFeeCredits paid pk, remainderLeft s.2)

def distributeWaitingPoolRewardsAndFeeCredits (store : Store) (lsu : LedgerStateUpdate) : Store :=
  let pool := waitingPool lsu
  if pool = 0 ∧ ¬tokenomicsFeeCreditsEnabled then store
  else
    let waiting := waitingWorkers store lsu
    if waiting = [] then store
    else
      let n := UInt64.ofNat waiting.length
      (waiting.foldl (payWaiting (pool / n)) (store, pool % n)).1

end CatalystNode
