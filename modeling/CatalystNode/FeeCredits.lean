import CatalystNode.Store
import CatalystNode.MachineInt

namespace CatalystNode

open ByteVector HexCodec MachineInt

def tokenomicsBlockRewardAtoms : UInt64 := 1000000000

def tokenomicsFeeToRewardPoolBps : UInt64 := 3000

def tokenomicsFeeToTreasuryBps : UInt64 := 0

def tokenomicsWaitingPoolRewardBps : UInt64 := 3000

def tokenomicsFeeCreditsEnabled : Bool := true

def tokenomicsFeeCreditsWarmupDays : UInt64 := 14

def tokenomicsFeeCreditsAccrualAtomsPerDay : UInt64 := 200

def tokenomicsFeeCreditsMaxBalanceAtoms : UInt64 := 6000

def tokenomicsFeeCreditsDailySpendCapAtoms : UInt64 := 300

def tokenomicsWaitingEligibilityChurnPenaltyDays : UInt64 := 3

def tokenomicsCycleSeconds : UInt64 := 20

structure FeeCreditDailySpend where
  dayBucket : UInt64
  spentAtoms : UInt64
  deriving DecidableEq

def feeCreditBalanceKeyForPubkey (pubkey : PublicKey) : Bytes := utf8 "feecred:bal:" ++ pubkey.toList

def feeCreditFirstSeenCycleKeyForPubkey (pubkey : PublicKey) : Bytes := utf8 "wfs:" ++ pubkey.toList

def workerLastRegistrationCycleKeyForPubkey (pubkey : PublicKey) : Bytes :=
  utf8 "wlr:" ++ pubkey.toList

def feeCreditDailySpendKeyForPubkey (pubkey : PublicKey) : Bytes := utf8 "fcd:" ++ pubkey.toList

def cyclesPerDay : UInt64 := max (86400 / max tokenomicsCycleSeconds 1) 1

def feeCreditDayBucket (cycle : UInt64) : UInt64 := cycle / cyclesPerDay

def getFeeCreditBalanceU64 (store : Store) (pubkey : PublicKey) : UInt64 :=
  ((store.getState (feeCreditBalanceKeyForPubkey pubkey)).bind decodeU64).getD 0

def setFeeCreditBalanceU64 (store : Store) (pubkey : PublicKey) (v : UInt64) : Store :=
  store.setState (feeCreditBalanceKeyForPubkey pubkey) (encodeU64 v)

/-- The fixed-width encoding of the two words; bytes after them are ignored when reading. -/
def decodeDailySpend (bytes : Bytes) : Option FeeCreditDailySpend :=
  if bytes.length < 16 then none
  else some ⟨UInt64.ofNat (ofLeBytes (bytes.take 8)),
    UInt64.ofNat (ofLeBytes ((bytes.drop 8).take 8))⟩

def encodeDailySpend (daily : FeeCreditDailySpend) : Bytes :=
  encodeU64 daily.dayBucket ++ encodeU64 daily.spentAtoms

def getFeeCreditDailySpend (store : Store) (pubkey : PublicKey) : FeeCreditDailySpend :=
  ((store.getState (feeCreditDailySpendKeyForPubkey pubkey)).bind decodeDailySpend).getD ⟨0, 0⟩

def setFeeCreditDailySpend (store : Store) (pubkey : PublicKey) (daily : FeeCreditDailySpend) :
    Store :=
  store.setState (feeCreditDailySpendKeyForPubkey pubkey) (encodeDailySpend daily)

def spentInBucket (daily : FeeCreditDailySpend) (day : UInt64) : UInt64 :=
  if daily.dayBucket = day then daily.spentAtoms else 0

def feeCreditSpendableForCycle (store : Store) (pubkey : PublicKey) (feeDueAtoms cycle : UInt64) :
    UInt64 :=
  if ¬tokenomicsFeeCreditsEnabled ∨ feeDueAtoms = 0 then 0
  else
    let bal := getFeeCreditBalanceU64 store pubkey
    if bal = 0 then 0
    else
      let spentToday := spentInBucket (getFeeCreditDailySpend store pubkey) (feeCreditDayBucket cycle)
      let dailyRemaining := saturatingSubU64 tokenomicsFeeCreditsDailySpendCapAtoms spentToday
      min (min feeDueAtoms bal) dailyRemaining

def applyFeeCreditSpendForCycle (store : Store) (pubkey : PublicKey) (spendAtoms cycle : UInt64) :
    Store × UInt64 :=
  if spendAtoms = 0 then (store, 0)
  else
    let allowed := feeCreditSpendableForCycle store pubkey spendAtoms cycle
    if allowed = 0 then (store, 0)
    else
      let bal := getFeeCreditBalanceU64 store pubkey
      let store := setFeeCreditBalanceU64 store pubkey (saturatingSubU64 bal allowed)
      let day := feeCreditDayBucket cycle
      let spent := spentInBucket (getFeeCreditDailySpend store pubkey) day
      (setFeeCreditDailySpend store pubkey ⟨day, saturatingAddU64 spent allowed⟩, allowed)

theorem feeCreditSpendableForCycle_le (store : Store) (pubkey : PublicKey) (fee cycle : UInt64) :
    (feeCreditSpendableForCycle store pubkey fee cycle).toNat ≤
      tokenomicsFeeCreditsDailySpendCapAtoms.toNat := by
  unfold feeCreditSpendableForCycle
  dsimp only
  split
  next => exact Nat.zero_le _
  next =>
    split
    next => exact Nat.zero_le _
    next =>
      rw [toNat_min, toNat_saturatingSubU64]
      omega

theorem applyFeeCreditSpendForCycle_le (store : Store) (pubkey : PublicKey) (fee cycle : UInt64) :
    (applyFeeCreditSpendForCycle store pubkey fee cycle).2.toNat ≤
      tokenomicsFeeCreditsDailySpendCapAtoms.toNat := by
  unfold applyFeeCreditSpendForCycle
  dsimp only
  split
  next => exact Nat.zero_le _
  next =>
    split
    next => exact Nat.zero_le _
    next => exact feeCreditSpendableForCycle_le store pubkey fee cycle

end CatalystNode
