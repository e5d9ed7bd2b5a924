import CatalystNode.WarmUp

namespace CatalystNode

open ByteVector HexCodec MachineInt FoldTrace Store CanonicalList

section Accrual

variable {store : Store} {worker pk : PublicKey}

theorem getFeeCreditBalanceU64_accrueFeeCredits :
    getFeeCreditBalanceU64 (accrueFeeCredits store worker) pk =
      if worker = pk then min (saturatingAddU64 (getFeeCreditBalanceU64 store pk) 200) 6000
      else getFeeCreditBalanceU64 store pk := by
  have enabled : tokenomicsFeeCreditsEnabled = true := rfl
  rw [accrueFeeCredits, if_pos enabled]
  by_cases own : worker = pk
  · subst own
    rw [if_pos rfl, getFeeCreditBalanceU64, setFeeCreditBalanceU64, Store.getState_setState_self,
      Option.bind_some, decodeU64_encodeU64, Option.getD_some]
    rfl
  · have apart : feeCreditBalanceKeyForPubkey worker ≠ feeCreditBalanceKeyForPubkey pk :=
      fun same => own (Subtype.ext (List.append_cancel_left same))
    rw [if_neg own, getFeeCreditBalanceU64, setFeeCreditBalanceU64,
      Store.getState_setState_of_ne _ _ apart, getFeeCreditBalanceU64]

theorem getFeeCreditBalanceU64_payWaiting (per : UInt64) (s : Store × UInt64) :
    getFeeCreditBalanceU64 (payWaiting per s worker).1 pk =
      if worker = pk then min (saturatingAddU64 (getFeeCreditBalanceU64 s.1 pk) 200) 6000
      else getFeeCreditBalanceU64 s.1 pk := by
  have paid : ∀ delta, getFeeCreditBalanceU64 (addToBalance s.1 worker delta) pk =
      getFeeCreditBalanceU64 s.1 pk := fun delta =>
    congrArg Credits.balance ((writesWithin_addToBalance s.1 worker delta).creditsOf (by decide)
      (by decide) 0 pk)
  have kept : getFeeCreditBalanceU64 (if 0 < per ∨ 0 < s.2 then
      addToBalance s.1 worker (shareWithRemainder per s.2).toInt64 else s.1) pk =
        getFeeCreditBalanceU64 s.1 pk := by
    split
    next => exact paid _
    next => rfl
  rw [payWaiting, getFeeCreditBalanceU64_accrueFeeCredits, kept]

theorem getFeeCreditBalanceU64_foldl_payWaiting (per : UInt64) {workers : List PublicKey}
    (distinct : workers.Nodup) (s : Store × UInt64) :
    getFeeCreditBalanceU64 (workers.foldl (payWaiting per) s).1 pk =
      if pk ∈ workers then min (saturatingAddU64 (getFeeCreditBalanceU64 s.1 pk) 200) 6000
      else getFeeCreditBalanceU64 s.1 pk := by
  induction workers generalizing s with
  | nil => simp
  | cons worker workers ih =>
    obtain ⟨fresh, rest⟩ := List.nodup_cons.mp distinct
    rw [List.foldl_cons, ih rest, getFeeCreditBalanceU64_payWaiting]
    by_cases own : worker = pk
    · subst own
      simp [fresh]
    · simp [own, Ne.symm own]

end Accrual

section Days

variable (env : ApplyEnv) (initial : Store) (updates : List LedgerStateUpdate) (pk : PublicKey)
  (bucket : UInt64)

def accruedInDay : Nat :=
  ((foldSteps (applyNext env) initial updates).map (fun step =>
    if feeCreditDayBucket step.2.cycleNumber = bucket then (stepAccrual env pk step).toNat else 0)).sum

def waitedInDay : List (Store × LedgerStateUpdate) :=
  (appliedSteps env initial updates).filter (fun step =>
    feeCreditDayBucket step.2.cycleNumber = bucket ∧
      pk ∈ waitingWorkers (registeredStore step.1 step.2) step.2)

/-- What is missing to the cap once the fees of an update have been taken from the credits held before
it, and at most two hundred. -/
def creditRoom (step : Store × LedgerStateUpdate) : Nat :=
  min 200 (6000 - ((creditsOf step.1 step.2.cycleNumber pk).balance.toNat -
    min (chargedFees (groupBySig step.2.partialUpdate.transactionEntries) pk)
      (creditsOf step.1 step.2.cycleNumber pk).available))

variable {env initial updates pk bucket}

theorem creditRoom_le (step : Store × LedgerStateUpdate) : creditRoom pk step ≤ 200 :=
  min_le_left _ _

theorem creditRoom_eq {store : Store} (low : (getFeeCreditBalanceU64 store pk).toNat ≤ 5800)
    (lsu : LedgerStateUpdate) : creditRoom pk (store, lsu) = 200 := by
  have held : (creditsOf store lsu.cycleNumber pk).balance.toNat ≤ 5800 := low
  rw [creditRoom]
  dsimp only
  omega

/-- An update gives each of its waiting workers what is missing to the cap, and nobody else anything. -/
theorem accruedCredits_eq {store : Store} {lsu : LedgerStateUpdate}
    (contained : ContractsContained env.runtime lsu.partialUpdate.transactionEntries) :
    (accruedCredits env store lsu pk).toNat =
      if pk ∈ waitingWorkers (registeredStore store lsu) lsu then creditRoom pk (store, lsu) else 0 := by
  have distinct : (waitingWorkers (afterSettlement env store lsu) lsu).Nodup :=
    (nodup_sortDedup _).filter _
  have before : creditsOf (afterNonces env store lsu) lsu.cycleNumber pk =
      creditsOf store lsu.cycleNumber pk := creditsOf_afterNonces pk contained _
  have settled := (creditsOf_foldl_settleStep lsu.cycleNumber
    (groupBySig lsu.partialUpdate.transactionEntries) (afterNonces env store lsu) pk).1
  rw [before] at settled
  have held : (getFeeCreditBalanceU64 (afterSettlement env store lsu) pk).toNat =
      (creditsOf store lsu.cycleNumber pk).balance.toNat -
        min (chargedFees (groupBySig lsu.partialUpdate.transactionEntries) pk)
          (creditsOf store lsu.cycleNumber pk).available := settled
  rw [accruedCredits, distribute_eq_foldl, getFeeCreditBalanceU64_foldl_payWaiting _ distinct,
    ← rewardedWorkers_eq contained, rewardedWorkers]
  dsimp only
  split
  next =>
    have cap : (6000 : UInt64).toNat = 6000 := rfl
    have rate : (200 : UInt64).toNat = 200 := rfl
    rw [toNat_min, toNat_saturatingAddU64, creditRoom, held]
    dsimp only
    omega
  next => omega

theorem getFeeCreditBalanceU64_applyNext_le (store : Store) {lsu : LedgerStateUpdate} (pk : PublicKey)
    (contained : ContractsContained env.runtime lsu.partialUpdate.transactionEntries) :
    (getFeeCreditBalanceU64 (applyNext env store lsu) pk).toNat ≤
      (getFeeCreditBalanceU64 store pk).toNat + 200 := by
  have step := @creditStep env store lsu pk contained
  have balance := step.balance
  have spent := step.nonneg
  have accrual : (stepAccrual env pk (store, lsu)).toNat ≤ 200 := by
    unfold stepAccrual
    split
    next => exact Nat.zero_le _
    next =>
      rw [accruedCredits_eq contained]
      split
      next => exact creditRoom_le _
      next => exact Nat.zero_le _
  omega

theorem accruedInDay_eq_sum (contained : ∀ entries, ContractsContained env.runtime entries) :
    accruedInDay env initial updates pk bucket =
      ((waitedInDay env initial updates pk bucket).map (creditRoom pk)).sum := by
  rw [accruedInDay, waitedInDay, appliedSteps, List.filter_filter]
  induction foldSteps (applyNext env) initial updates with
  | nil => rfl
  | cons step steps ih =>
    rw [List.map_cons, List.sum_cons, ih, List.filter_cons]
    by_cases day : feeCreditDayBucket step.2.cycleNumber = bucket
    · rw [if_pos day, stepAccrual]
      by_cases skipped : step.2.cycleNumber ≤ lastAppliedCycle step.1
      · simp [skipped, UInt64.not_lt.mpr skipped]
      · rw [if_neg skipped, accruedCredits_eq (contained _)]
        by_cases waits : pk ∈ waitingWorkers (registeredStore step.1 step.2) step.2
        · simp [day, waits, UInt64.not_le.mp skipped]
        · simp [waits]
    · simp [day]

end Days

/-- The credits of a day keep to the daily rate exactly if the cap leaves no more room than that over
all the cycles of the day in which the account waits. -/
theorem accruedInDay_le_iff (env : ApplyEnv)
    (contained : ∀ entries, ContractsContained env.runtime entries) (initial : Store)
    (updates : List LedgerStateUpdate) (pk : PublicKey) (bucket : UInt64) :
    accruedInDay env initial updates pk bucket ≤ 200 ↔
      ((waitedInDay env initial updates pk bucket).map (creditRoom pk)).sum ≤ 200 := by
  rw [accruedInDay_eq_sum contained]

section Samples

def sampleDay : List LedgerStateUpdate :=
  [sampleSpending 100000 (sampleTransfer 1 3 [(1, -1), (2, 1)]),
    sampleSpending 100001 (sampleTransfer 1 3 [(1, -1), (2, 1)])]

theorem waitedInDay_sampleDay :
    waitedInDay sampleCycleEnv sampleWaiting sampleDay (sampleAccount 1) 23 =
      foldSteps (applyNext sampleCycleEnv) sampleWaiting sampleDay := by
  have above : ∀ lsu ∈ sampleDay, lastAppliedCycle sampleWaiting < lsu.cycleNumber := by decide
  have days : ∀ lsu ∈ sampleDay, feeCreditDayBucket lsu.cycleNumber = 23 := by decide
  have nobody : ∀ lsu ∈ sampleDay, registrants lsu = [] := by decide
  have waits : ∀ lsu ∈ sampleDay, sampleAccount 1 ∈ waitingWorkers sampleWaiting lsu := by decide +kernel
  rw [waitedInDay, appliedSteps_of_increasing sampleCycleEnv_lawful (by decide) above,
    List.filter_eq_self]
  intro step listed
  have known := mem_of_mem_foldSteps listed
  have alike := registeredAlike_foldSteps sampleCycleEnv_lawful.contracts nobody listed
  refine decide_eq_true ⟨days step.2 known, ?_⟩
  rw [registeredStore_of_nobody (nobody step.2 known), waitingWorkers_congr alike]
  exact waits step.2 known

/-- A worker that waits accrues in every cycle, not once in a day. -/
theorem accruedInDay_every_cycle :
    accruedInDay sampleCycleEnv sampleWaiting sampleDay (sampleAccount 1) 23 = 400 := by
  have contained := sampleCycleEnv_lawful.contracts
  have fresh : (getFeeCreditBalanceU64 sampleWaiting (sampleAccount 1)).toNat = 0 := by decide
  have first := creditRoom_eq (show (getFeeCreditBalanceU64 sampleWaiting (sampleAccount 1)).toNat ≤
    5800 by omega)
  have grown := getFeeCreditBalanceU64_applyNext_le sampleWaiting (sampleAccount 1) (contained
    (sampleSpending 100000 (sampleTransfer 1 3 [(1, -1), (2, 1)])).partialUpdate.transactionEntries)
  have second := creditRoom_eq (show (getFeeCreditBalanceU64 (applyNext sampleCycleEnv sampleWaiting
    (sampleSpending 100000 (sampleTransfer 1 3 [(1, -1), (2, 1)]))) (sampleAccount 1)).toNat ≤ 5800
    by omega)
  rw [accruedInDay_eq_sum contained, waitedInDay_sampleDay, sampleDay, foldSteps, foldSteps, foldSteps,
    List.map_cons, List.map_cons, first, second]
  rfl

/-- In the first of its cycles the worker keeps to the daily rate. -/
theorem accruedInDay_le_iff_first :
    ((waitedInDay sampleCycleEnv sampleWaiting (sampleDay.take 1) (sampleAccount 1) 23).map
      (creditRoom (sampleAccount 1))).sum = 200 ∧
    accruedInDay sampleCycleEnv sampleWaiting (sampleDay.take 1) (sampleAccount 1) 23 ≤ 200 := by
  have room : ((waitedInDay sampleCycleEnv sampleWaiting (sampleDay.take 1) (sampleAccount 1) 23).map
      (creditRoom (sampleAccount 1))).sum = 200 := by decide +kernel
  exact ⟨room, (accruedInDay_le_iff sampleCycleEnv sampleCycleEnv_lawful.contracts sampleWaiting
    (sampleDay.take 1) (sampleAccount 1) 23).mpr room.le⟩

end Samples

end CatalystNode
