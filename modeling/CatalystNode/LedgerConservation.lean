import CatalystNode.TotalBalance
import CatalystNode.SelectionValue

namespace CatalystNode

open ByteVector HexCodec MachineInt FoldTrace

section Stages

variable (env : ApplyEnv) (store : Store) (lsu : LedgerStateUpdate)

def entrySteps : List (EntryPass × TransactionEntry) :=
  foldSteps (applyEntry env.runtime (loadChainIdU64 store) lsu.cycleNumber) ⟨store, ∅, []⟩
    lsu.partialUpdate.transactionEntries

def compensationSteps : List (Store × CompensationEntry) :=
  foldSteps applyCompensation (applyEntries env.runtime store lsu).store lsu.compensationEntries

def afterNonces : Store :=
  (groupBySig lsu.partialUpdate.transactionEntries).foldl bumpNonce
    (lsu.compensationEntries.foldl applyCompensation (applyEntries env.runtime store lsu).store)

def settlementSteps : List (Store × List TransactionEntry) :=
  foldSteps (settleStep lsu.cycleNumber) (afterNonces env store lsu)
    (groupBySig lsu.partialUpdate.transactionEntries)

def afterSettlement : Store := settleFeeCreditSpendForAppliedCycle (afterNonces env store lsu) lsu

def rewardedWorkers : List PublicKey := waitingWorkers (afterSettlement env store lsu) lsu

def workerShare : UInt64 := waitingPool lsu / UInt64.ofNat (rewardedWorkers env store lsu).length

def rewardSteps : List ((Store × UInt64) × PublicKey) :=
  foldSteps (payWaiting (workerShare env store lsu)) (afterSettlement env store lsu,
    waitingPool lsu % UInt64.ofNat (rewardedWorkers env store lsu).length)
    (rewardedWorkers env store lsu)

structure NoSaturation : Prop where
  entries : ∀ step ∈ entrySteps env store lsu, isWorkerRegMarker step.2.signature = false →
    AdditionFits step.1.store step.2.publicKey step.2.amount
  compensation : ∀ step ∈ compensationSteps env store lsu,
    AdditionFits step.1 step.2.publicKey step.2.amount.toInt64
  settlement : ∀ step ∈ settlementSteps env store lsu, (groupSender step.2).all (fun sender =>
    AdditionFits step.1 sender (settleGroup lsu.cycleNumber step.1 step.2).2.toInt64)
  rewards : ∀ step ∈ rewardSteps env store lsu,
    AdditionFits step.1.1 step.2 (shareWithRemainder (workerShare env store lsu) step.1.2).toInt64

def entryTotal : Int :=
  (lsu.partialUpdate.transactionEntries.map (fun e => e.amount.toInt)).sum

def registrationTotal : Int :=
  ((lsu.partialUpdate.transactionEntries.filter (fun e => isWorkerRegMarker e.signature)).map
    (fun e => e.amount.toInt)).sum

def compensationTotal : Int := (lsu.compensationEntries.map (fun c => (c.amount.toNat : Int))).sum

def reimbursementTotal : Int :=
  ((settlementSteps env store lsu).map (fun step =>
    ((settleGroup lsu.cycleNumber step.1 step.2).2.toNat : Int))).sum

def rewardTotal : Int :=
  ((rewardSteps env store lsu).map (fun step =>
    ((shareWithRemainder (workerShare env store lsu) step.1.2).toNat : Int))).sum

end Stages

theorem totalBalance_applyEntry {runtime : EvmRuntime} {chainId cycle : UInt64} {pass : EntryPass}
    {e : TransactionEntry} (noEvm : isEvmMarker e.signature = false)
    (fits : isWorkerRegMarker e.signature = false → AdditionFits pass.store e.publicKey e.amount) :
    totalBalance (applyEntry runtime chainId cycle pass e).store =
      totalBalance pass.store + if isWorkerRegMarker e.signature then 0 else e.amount.toInt := by
  unfold applyEntry
  split
  next =>
    have same := totalBalance_congr (fun pk =>
      getBalanceI64_registerWorker pass.store pk e.publicKey cycle)
    rw [same, add_zero]
  next unmarked =>
    rw [if_neg (by simp [noEvm])]
    exact totalBalance_addToBalance (fits (by simpa using unmarked))

theorem totalBalance_applyCompensation {store : Store} {c : CompensationEntry}
    (small : c.amount.toNat < 2 ^ 63)
    (fits : AdditionFits store c.publicKey c.amount.toInt64) :
    totalBalance (applyCompensation store c) = totalBalance store + c.amount.toNat := by
  unfold applyCompensation
  split
  next zero => simp [zero]
  next => rw [totalBalance_addToBalance fits, toInt_toInt64_of_lt small]

theorem AdditionFits.congr {s t : Store} {pk : PublicKey} {delta : Int64}
    (same : getBalanceI64 t pk = getBalanceI64 s pk) (fits : AdditionFits s pk delta) :
    AdditionFits t pk delta := by
  unfold AdditionFits at *
  rw [same]
  exact fits

/-- Settling a group either moves nothing, or adds the spent credits to its sender's balance. -/
theorem settleGroup_cases (cycle : UInt64) (store : Store) (entries : List TransactionEntry) :
    ((settleGroup cycle store entries).2 = 0 ∧ ∀ pk,
      getBalanceI64 (settleGroup cycle store entries).1 pk = getBalanceI64 store pk) ∨
    ∃ sender spent, groupSender entries = some sender ∧
      (settleGroup cycle store entries).2.toNat ≤ tokenomicsFeeCreditsDailySpendCapAtoms.toNat ∧
      (∀ pk, getBalanceI64 spent pk = getBalanceI64 store pk) ∧
      (settleGroup cycle store entries).1 =
        addToBalance spent sender (settleGroup cycle store entries).2.toInt64 := by
  unfold settleGroup
  dsimp only
  split
  next => exact Or.inl ⟨rfl, fun _ => rfl⟩
  next =>
    split
    next => exact Or.inl ⟨rfl, fun _ => rfl⟩
    next =>
      cases hsender : groupSender entries with
      | none => exact Or.inl ⟨rfl, fun _ => rfl⟩
      | some sender =>
        have frame := fun pk => getBalanceI64_applyFeeCreditSpendForCycle store pk sender
          (UInt64.ofNat (min (-groupNet entries).toNat (2 ^ 64 - 1))) cycle
        dsimp only
        split
        next =>
          exact Or.inr ⟨sender, _, rfl, applyFeeCreditSpendForCycle_le store sender _ cycle, frame,
            rfl⟩
        next unspent => exact Or.inl ⟨by simpa using unspent, frame⟩

theorem totalBalance_settleStep {cycle : UInt64} {store : Store} {entries : List TransactionEntry}
    (fits : ∀ sender ∈ groupSender entries,
      AdditionFits store sender (settleGroup cycle store entries).2.toInt64) :
    totalBalance (settleStep cycle store entries) =
      totalBalance store + (settleGroup cycle store entries).2.toNat := by
  unfold settleStep
  rcases settleGroup_cases cycle store entries with
    ⟨none, same⟩ | ⟨sender, spent, hsender, small, same, paid⟩
  · rw [none, totalBalance_congr same]
    simp
  · have cap : tokenomicsFeeCreditsDailySpendCapAtoms.toNat < 2 ^ 63 := by decide
    have added := totalBalance_addToBalance ((fits sender hsender).congr (same sender))
    rw [paid, added, totalBalance_congr same, toInt_toInt64_of_lt (by omega)]

theorem toNat_waitingPool_le (lsu : LedgerStateUpdate) :
    (waitingPool lsu).toNat ≤ (2 ^ 64 - 1) / 10000 := by
  unfold waitingPool
  dsimp only
  rw [toNat_min]
  refine (min_le_left _ _).trans ?_
  rw [UInt64.toNat_div, toNat_saturatingMulU64]
  exact Nat.div_le_div_right (min_le_left _ _)

theorem workerShare_lt (env : ApplyEnv) (store : Store) (lsu : LedgerStateUpdate) :
    (workerShare env store lsu).toNat < 2 ^ 62 := by
  have pool := toNat_waitingPool_le lsu
  have part := Nat.div_le_self (waitingPool lsu).toNat
    (UInt64.ofNat (rewardedWorkers env store lsu).length).toNat
  rw [workerShare, UInt64.toNat_div]
  omega

theorem totalBalance_payWaiting {per : UInt64} {s : Store × UInt64} {pk : PublicKey}
    (small : per.toNat < 2 ^ 62) (fits : AdditionFits s.1 pk (shareWithRemainder per s.2).toInt64) :
    totalBalance (payWaiting per s pk).1 = totalBalance s.1 + (shareWithRemainder per s.2).toNat := by
  have share := toNat_shareWithRemainder small s.2
  unfold payWaiting
  dsimp only
  rw [totalBalance_congr (fun other => getBalanceI64_accrueFeeCredits _ other pk)]
  split
  next => rw [totalBalance_addToBalance fits, toInt_toInt64_of_lt (by omega)]
  next nothing =>
    have share : shareWithRemainder per s.2 = 0 := by
      rw [not_or, UInt64.not_lt, UInt64.not_lt] at nothing
      obtain ⟨noShare, noRem⟩ := nothing
      have zeroShare : per = 0 := by simpa using noShare
      have zeroRem : s.2 = 0 := by simpa using noRem
      rw [zeroShare, zeroRem]
      decide
    rw [share]
    simp

theorem map_share_foldSteps (per : UInt64) (workers : List PublicKey) (s : Store × UInt64) :
    (foldSteps (payWaiting per) s workers).map (fun step => shareWithRemainder per step.1.2) =
      shares per s.2 workers.length := by
  induction workers generalizing s with
  | nil => rfl
  | cons pk workers ih =>
    simp only [foldSteps, List.map_cons, List.length_cons, shares, ih]
    rfl

/-- Whoever waits, the rewards paid add up to the waiting pool. -/
theorem rewardTotal_eq_waitingPool {env : ApplyEnv} {store : Store} {lsu : LedgerStateUpdate}
    (waiting : rewardedWorkers env store lsu ≠ [])
    (fits : (rewardedWorkers env store lsu).length < 2 ^ 64) :
    rewardTotal env store lsu = (waitingPool lsu).toNat := by
  have bound := toNat_waitingPool_le lsu
  have total := @sum_shares_div_mod (waitingPool lsu) _ (by omega)
    (List.length_pos_of_ne_nil waiting) fits
  have paid := map_share_foldSteps (workerShare env store lsu) (rewardedWorkers env store lsu)
    (afterSettlement env store lsu,
      waitingPool lsu % UInt64.ofNat (rewardedWorkers env store lsu).length)
  rw [← total, ← workerShare, ← paid, List.map_map, rewardTotal, rewardSteps, Nat.cast_list_sum,
    List.map_map]
  rfl

section Passes

variable {env : ApplyEnv} {store : Store} {lsu : LedgerStateUpdate}

/-- The entries that change balances, as the difference the registration markers make. -/
theorem sum_unmarked (entries : List TransactionEntry) :
    (entries.map (fun e => if isWorkerRegMarker e.signature then 0 else e.amount.toInt)).sum =
      (entries.map (fun e => e.amount.toInt)).sum -
        ((entries.filter (fun e => isWorkerRegMarker e.signature)).map
          (fun e => e.amount.toInt)).sum := by
  induction entries with
  | nil => rfl
  | cons e entries ih =>
    cases marked : isWorkerRegMarker e.signature with
    | true =>
      simp only [List.map_cons, List.sum_cons, List.filter_cons, marked, if_true, ih]
      omega
    | false =>
      simp only [List.map_cons, List.sum_cons, List.filter_cons, marked, Bool.false_eq_true,
        if_false, ih]
      omega

theorem totalBalance_applyEntries (fits : NoSaturation env store lsu)
    (noEvm : ∀ e ∈ lsu.partialUpdate.transactionEntries, isEvmMarker e.signature = false) :
    totalBalance (applyEntries env.runtime store lsu).store =
      totalBalance store + (entryTotal lsu - registrationTotal lsu) := by
  have applied := sum_unmarked lsu.partialUpdate.transactionEntries
  have pass : totalBalance (applyEntries env.runtime store lsu).store = totalBalance store +
      (lsu.partialUpdate.transactionEntries.map (fun e =>
        if isWorkerRegMarker e.signature then 0 else e.amount.toInt)).sum :=
    foldl_measure_elem (m := fun pass : EntryPass => totalBalance pass.store)
      (fun step hstep => totalBalance_applyEntry (noEvm step.2 (mem_of_mem_foldSteps hstep))
        (fits.entries step hstep))
  rw [pass, applied]
  rfl

theorem totalBalance_afterNonces (fits : NoSaturation env store lsu)
    (small : ∀ c ∈ lsu.compensationEntries, c.amount.toNat < 2 ^ 63) :
    totalBalance (afterNonces env store lsu) =
      totalBalance (applyEntries env.runtime store lsu).store + compensationTotal lsu := by
  have nonces : ∀ pk, getBalanceI64 (afterNonces env store lsu) pk = getBalanceI64
      (lsu.compensationEntries.foldl applyCompensation (applyEntries env.runtime store lsu).store)
      pk := by
    refine foldl_invariant (P := fun s : Store => ∀ pk, getBalanceI64 s pk = getBalanceI64
      (lsu.compensationEntries.foldl applyCompensation (applyEntries env.runtime store lsu).store)
      pk) (fun _ => rfl) ?_
    intro s entries _ same pk
    rw [getBalanceI64_bumpNonce, same]
  rw [totalBalance_congr nonces]
  exact foldl_measure_elem (m := totalBalance) (fun step hstep =>
    totalBalance_applyCompensation (small step.2 (mem_of_mem_foldSteps hstep))
      (fits.compensation step hstep))

theorem totalBalance_afterSettlement (fits : NoSaturation env store lsu) :
    totalBalance (afterSettlement env store lsu) =
      totalBalance (afterNonces env store lsu) + reimbursementTotal env store lsu := by
  have enabled : ¬¬tokenomicsFeeCreditsEnabled = true := by decide
  rw [afterSettlement, settleFeeCreditSpendForAppliedCycle, if_neg enabled]
  refine foldl_measure (m := totalBalance) (fun step hstep => totalBalance_settleStep ?_)
  intro sender hsender
  have sent : groupSender step.2 = some sender := hsender
  simpa [sent] using fits.settlement step hstep

/-- With fee credits enabled the waiting workers are always walked, with nobody waiting as the
empty walk. -/
theorem distribute_eq_foldl (store : Store) (lsu : LedgerStateUpdate) :
    distributeWaitingPoolRewardsAndFeeCredits store lsu = ((waitingWorkers store lsu).foldl
      (payWaiting (waitingPool lsu / UInt64.ofNat (waitingWorkers store lsu).length))
      (store, waitingPool lsu % UInt64.ofNat (waitingWorkers store lsu).length)).1 := by
  have enabled : ¬(waitingPool lsu = 0 ∧ ¬tokenomicsFeeCreditsEnabled = true) := by
    intro h
    exact h.2 rfl
  rw [distributeWaitingPoolRewardsAndFeeCredits, if_neg enabled]
  dsimp only
  split
  next nobody => rw [nobody, List.foldl_nil]
  next => rfl

theorem totalBalance_distribute (fits : NoSaturation env store lsu) :
    totalBalance (distributeWaitingPoolRewardsAndFeeCredits (afterSettlement env store lsu) lsu) =
      totalBalance (afterSettlement env store lsu) + rewardTotal env store lsu := by
  rw [distribute_eq_foldl]
  exact foldl_measure (m := fun s : Store × UInt64 => totalBalance s.1) (fun step hstep =>
    totalBalance_payWaiting (workerShare_lt env store lsu) (fits.rewards step hstep))

/-- An apply above the head leaves the accounts its passes compute, whether or not the commit
succeeds. -/
theorem applyLsuToStorage_accounts (above : lastAppliedCycle store < lsu.cycleNumber) :
    (applyLsuToStorage env store lsu).1.accounts = (applyLedger env store lsu).1.accounts := by
  have fresh : ¬lsu.cycleNumber ≤ lastAppliedCycle store := UInt64.not_le.mpr above
  unfold applyLsuToStorage applyLsuToStorageLocked
  rw [if_neg fresh]
  dsimp only
  split
  next => exact commit_accounts env.sha256 _
  next => rw [recordApplied_accounts, commit_accounts]

theorem totalBalance_applyLsuToStorage (above : lastAppliedCycle store < lsu.cycleNumber)
    (noEvm : ∀ e ∈ lsu.partialUpdate.transactionEntries, isEvmMarker e.signature = false)
    (small : ∀ c ∈ lsu.compensationEntries, c.amount.toNat < 2 ^ 63)
    (fits : NoSaturation env store lsu) :
    totalBalance (applyLsuToStorage env store lsu).1 = totalBalance store +
      (entryTotal lsu - registrationTotal lsu) + compensationTotal lsu +
      reimbursementTotal env store lsu + rewardTotal env store lsu := by
  have committed : ∀ pk, getBalanceI64 (applyLsuToStorage env store lsu).1 pk = getBalanceI64
      (distributeWaitingPoolRewardsAndFeeCredits (afterSettlement env store lsu) lsu) pk := by
    intro pk
    rw [getBalanceI64_congr (applyLsuToStorage_accounts above)]
    exact getBalanceI64_writeRootCycleCounter _ pk lsu.cycleNumber
  rw [totalBalance_congr committed, totalBalance_distribute fits, totalBalance_afterSettlement fits,
    totalBalance_afterNonces fits small, totalBalance_applyEntries fits noEvm]

end Passes

/-- An apply changes the sum of all balances by the entries, the compensation, the waiting pool and
the reimbursed credits exactly when the entries of worker registrations sum to zero: their fee debits
are skipped along with the markers. -/
theorem applyLsuToStorage_conserves_iff (env : ApplyEnv) (store : Store) (lsu : LedgerStateUpdate)
    (above : lastAppliedCycle store < lsu.cycleNumber)
    (noEvm : ∀ e ∈ lsu.partialUpdate.transactionEntries, isEvmMarker e.signature = false)
    (small : ∀ c ∈ lsu.compensationEntries, c.amount.toNat < 2 ^ 63)
    (fits : NoSaturation env store lsu) :
    totalBalance (applyLsuToStorage env store lsu).1 - totalBalance store =
        entryTotal lsu + compensationTotal lsu + rewardTotal env store lsu +
          reimbursementTotal env store lsu ↔
      registrationTotal lsu = 0 := by
  have change := totalBalance_applyLsuToStorage above noEvm small fits
  omega

def sampleApplyEnv : ApplyEnv where
  tx := sampleTxEnv
  sha256 data := @firstHalf 32 (checksum data)
  runtime := ⟨fun _ => none, fun store _ _ _ _ => (store, .error "no contracts")⟩
  decodeTx _ := none
  decodeTxids _ := none
  decodeTxMeta _ := none
  encodeTxMeta _ := none
  nowMs := 1000
  housekeeping store _ _ _ := store.metadata

def sampleRegistration : Transaction where
  core := {
    txType := .workerRegistration
    entries := [⟨sampleAccount 1, .nonConfidential 0⟩]
    nonce := 1
    lockTime := 0
    fees := 3
    data := [] }
  signatureScheme := 0
  signature := [9]
  senderPubkey := none
  timestamp := 1

def sampleLedgerUpdate (tx : Transaction) : LedgerStateUpdate where
  partialUpdate := ⟨txToConsensusEntries sampleTxEnv tx, zeros 32, 3, 7⟩
  compensationEntries := [⟨"producer", sampleAccount 3, 100⟩]
  cycleNumber := 7
  producerList := ["producer"]
  voteList := ["producer"]

theorem sampleRegistration_noSaturation :
    NoSaturation sampleApplyEnv sampleFunds (sampleLedgerUpdate sampleRegistration) where
  entries := by decide
  compensation := by decide
  settlement := by decide
  rewards := by decide

/-- The fee of a worker registration is listed in the update and never taken from the account. -/
theorem applyLsuToStorage_registration_unpaid :
    lastAppliedCycle sampleFunds < (sampleLedgerUpdate sampleRegistration).cycleNumber ∧
    (∀ e ∈ (sampleLedgerUpdate sampleRegistration).partialUpdate.transactionEntries,
      isEvmMarker e.signature = false) ∧
    (∀ c ∈ (sampleLedgerUpdate sampleRegistration).compensationEntries, c.amount.toNat < 2 ^ 63) ∧
    NoSaturation sampleApplyEnv sampleFunds (sampleLedgerUpdate sampleRegistration) ∧
    totalBalance (applyLsuToStorage sampleApplyEnv sampleFunds
        (sampleLedgerUpdate sampleRegistration)).1 - totalBalance sampleFunds ≠
      entryTotal (sampleLedgerUpdate sampleRegistration) +
        compensationTotal (sampleLedgerUpdate sampleRegistration) +
        rewardTotal sampleApplyEnv sampleFunds (sampleLedgerUpdate sampleRegistration) +
        reimbursementTotal sampleApplyEnv sampleFunds (sampleLedgerUpdate sampleRegistration) := by
  have above : lastAppliedCycle sampleFunds <
      (sampleLedgerUpdate sampleRegistration).cycleNumber := by decide +kernel
  have noEvm : ∀ e ∈ (sampleLedgerUpdate sampleRegistration).partialUpdate.transactionEntries,
      isEvmMarker e.signature = false := by decide +kernel
  have small : ∀ c ∈ (sampleLedgerUpdate sampleRegistration).compensationEntries,
      c.amount.toNat < 2 ^ 63 := by decide
  refine ⟨above, noEvm, small, sampleRegistration_noSaturation, ?_⟩
  have change := totalBalance_applyLsuToStorage above noEvm small sampleRegistration_noSaturation
  have fee : registrationTotal (sampleLedgerUpdate sampleRegistration) = -3 := by decide +kernel
  omega

theorem applyLsuToStorage_conserves_iff_transfer :
    totalBalance (applyLsuToStorage sampleApplyEnv sampleFunds
        (sampleLedgerUpdate (sampleTransfer 1 3 [(1, -5), (2, 5)]))).1 - totalBalance sampleFunds =
      entryTotal (sampleLedgerUpdate (sampleTransfer 1 3 [(1, -5), (2, 5)])) +
        compensationTotal (sampleLedgerUpdate (sampleTransfer 1 3 [(1, -5), (2, 5)])) +
        rewardTotal sampleApplyEnv sampleFunds
          (sampleLedgerUpdate (sampleTransfer 1 3 [(1, -5), (2, 5)])) +
        reimbursementTotal sampleApplyEnv sampleFunds
          (sampleLedgerUpdate (sampleTransfer 1 3 [(1, -5), (2, 5)])) :=
  (applyLsuToStorage_conserves_iff sampleApplyEnv sampleFunds
    (sampleLedgerUpdate (sampleTransfer 1 3 [(1, -5), (2, 5)])) (by decide +kernel)
    (by decide +kernel) (by decide) ⟨by decide +kernel, by decide +kernel, by decide +kernel,
      by decide +kernel⟩).mpr (by decide +kernel)

end CatalystNode
