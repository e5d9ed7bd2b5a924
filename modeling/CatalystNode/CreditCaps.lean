import CatalystNode.FeeSettlement
import CatalystNode.CycleRuns

namespace CatalystNode

open ByteVector HexCodec MachineInt FoldTrace Store

def accruedCredits (env : ApplyEnv) (store : Store) (lsu : LedgerStateUpdate) (pk : PublicKey) : Int :=
  (getFeeCreditBalanceU64 (distributeWaitingPoolRewardsAndFeeCredits (afterSettlement env store lsu)
      lsu) pk).toNat -
    (getFeeCreditBalanceU64 (afterSettlement env store lsu) pk).toNat

def applyNext (env : ApplyEnv) (store : Store) (lsu : LedgerStateUpdate) : Store :=
  (applyLsuToStorage env store lsu).1

theorem applyNext_of_le {env : ApplyEnv} {store : Store} {lsu : LedgerStateUpdate}
    (skipped : lsu.cycleNumber ≤ lastAppliedCycle store) : applyNext env store lsu = store := by
  rw [applyNext, applyLsuToStorage, applyLsuToStorageLocked, if_pos skipped]

def stepSpend (env : ApplyEnv) (pk : PublicKey) (step : Store × LedgerStateUpdate) : Int :=
  if step.2.cycleNumber ≤ lastAppliedCycle step.1 then 0 else settledCredits env step.1 step.2 pk

def stepAccrual (env : ApplyEnv) (pk : PublicKey) (step : Store × LedgerStateUpdate) : Int :=
  if step.2.cycleNumber ≤ lastAppliedCycle step.1 then 0 else accruedCredits env step.1 step.2 pk

section Totals

variable (env : ApplyEnv) (initial : Store) (updates : List LedgerStateUpdate) (pk : PublicKey)

def spentInDay (bucket : UInt64) : Int :=
  ((foldSteps (applyNext env) initial updates).map (fun step =>
    if feeCreditDayBucket step.2.cycleNumber = bucket then stepSpend env pk step else 0)).sum

def spentInAll : Int := ((foldSteps (applyNext env) initial updates).map (stepSpend env pk)).sum

def accruedInAll : Int := ((foldSteps (applyNext env) initial updates).map (stepAccrual env pk)).sum

variable {env initial updates pk}

theorem foldSteps_concat (last : LedgerStateUpdate) :
    foldSteps (applyNext env) initial (updates ++ [last]) =
      foldSteps (applyNext env) initial updates ++
        [(updates.foldl (applyNext env) initial, last)] := by
  rw [foldSteps_append]
  rfl

theorem spentInDay_concat (last : LedgerStateUpdate) (bucket : UInt64) :
    spentInDay env initial (updates ++ [last]) pk bucket = spentInDay env initial updates pk bucket +
      if feeCreditDayBucket last.cycleNumber = bucket then
        stepSpend env pk (updates.foldl (applyNext env) initial, last) else 0 := by
  simp [spentInDay, foldSteps_concat]

theorem spentInAll_concat (last : LedgerStateUpdate) :
    spentInAll env initial (updates ++ [last]) pk = spentInAll env initial updates pk +
      stepSpend env pk (updates.foldl (applyNext env) initial, last) := by
  simp [spentInAll, foldSteps_concat]

theorem accruedInAll_concat (last : LedgerStateUpdate) :
    accruedInAll env initial (updates ++ [last]) pk = accruedInAll env initial updates pk +
      stepAccrual env pk (updates.foldl (applyNext env) initial, last) := by
  simp [accruedInAll, foldSteps_concat]

theorem spentInDay_of_none {bucket : UInt64}
    (other : ∀ lsu ∈ updates, feeCreditDayBucket lsu.cycleNumber ≠ bucket) :
    spentInDay env initial updates pk bucket = 0 := by
  apply List.sum_eq_zero
  intro amount listed
  obtain ⟨step, handled, rfl⟩ := List.mem_map.mp listed
  rw [if_neg (other step.2 (mem_of_mem_foldSteps handled))]

end Totals

section Step

theorem toNat_accrueFeeCredits_le {store : Store} {worker pk : PublicKey}
    (capped : (getFeeCreditBalanceU64 store pk).toNat ≤ 6000) :
    (getFeeCreditBalanceU64 (accrueFeeCredits store worker) pk).toNat ≤ 6000 := by
  have cap : tokenomicsFeeCreditsMaxBalanceAtoms.toNat = 6000 := rfl
  have enabled : tokenomicsFeeCreditsEnabled = true := rfl
  rw [accrueFeeCredits, if_pos enabled]
  by_cases own : worker = pk
  · subst own
    rw [getFeeCreditBalanceU64, setFeeCreditBalanceU64, Store.getState_setState_self,
      Option.bind_some, decodeU64_encodeU64, Option.getD_some, toNat_min]
    omega
  · have apart : feeCreditBalanceKeyForPubkey worker ≠ feeCreditBalanceKeyForPubkey pk :=
      fun same => own (Subtype.ext (List.append_cancel_left same))
    rw [getFeeCreditBalanceU64, setFeeCreditBalanceU64, Store.getState_setState_of_ne _ _ apart]
    exact capped

theorem toNat_distribute_le {store : Store} {pk : PublicKey} (lsu : LedgerStateUpdate)
    (capped : (getFeeCreditBalanceU64 store pk).toNat ≤ 6000) :
    (getFeeCreditBalanceU64 (distributeWaitingPoolRewardsAndFeeCredits store lsu) pk).toNat ≤ 6000 := by
  have paid : ∀ s worker delta, getFeeCreditBalanceU64 (addToBalance s worker delta) pk =
      getFeeCreditBalanceU64 s pk := by
    intro s worker delta
    have kept := (writesWithin_addToBalance s worker delta).creditsOf (by decide)
      (by decide) 0 pk
    exact congrArg Credits.balance kept
  have step : ∀ per (s : Store × UInt64) worker, (getFeeCreditBalanceU64 s.1 pk).toNat ≤ 6000 →
      (getFeeCreditBalanceU64 (payWaiting per s worker).1 pk).toNat ≤ 6000 := by
    intro per s worker before
    apply toNat_accrueFeeCredits_le
    split
    next => rwa [paid]
    next => exact before
  unfold distributeWaitingPoolRewardsAndFeeCredits
  dsimp only
  split
  next => exact capped
  next =>
    split
    next => exact capped
    next =>
      exact foldl_invariant (P := fun s : Store × UInt64 =>
        (getFeeCreditBalanceU64 s.1 pk).toNat ≤ 6000) capped (fun s worker _ => step _ s worker)

variable {env : ApplyEnv} {store : Store} {lsu : LedgerStateUpdate} {pk : PublicKey}

/-- An update that is applied above the head changes the credits of an account by what it settles and
by what it accrues. -/
theorem creditsOf_applyNext (above : lastAppliedCycle store < lsu.cycleNumber) :
    ((creditsOf (applyNext env store lsu) lsu.cycleNumber pk).balance.toNat : Int) =
        (creditsOf (afterSettlement env store lsu) lsu.cycleNumber pk).balance.toNat +
          accruedCredits env store lsu pk ∧
      (creditsOf (applyNext env store lsu) lsu.cycleNumber pk).spentToday =
        (creditsOf (afterSettlement env store lsu) lsu.cycleNumber pk).spentToday := by
  have closed : (applyNext env store lsu).accounts = (writeRootCycleCounter
      (distributeWaitingPoolRewardsAndFeeCredits (afterSettlement env store lsu) lsu)
      lsu.cycleNumber).accounts := applyLsuToStorage_accounts above
  have counter := (writesWithin_writeRootCycleCounter (distributeWaitingPoolRewardsAndFeeCredits
    (afterSettlement env store lsu) lsu) lsu.cycleNumber).creditsOf (by decide)
    (by decide) lsu.cycleNumber pk
  have after : creditsOf (applyNext env store lsu) lsu.cycleNumber pk =
      creditsOf (distributeWaitingPoolRewardsAndFeeCredits (afterSettlement env store lsu) lsu)
        lsu.cycleNumber pk := by
    rw [← counter]
    apply creditsOf_congr
    · rw [Store.getState, closed, Store.getState]
    · rw [Store.getState, closed, Store.getState]
  have daily : (distributeWaitingPoolRewardsAndFeeCredits (afterSettlement env store lsu)
      lsu).getState (feeCreditDailySpendKeyForPubkey pk) =
        (afterSettlement env store lsu).getState (feeCreditDailySpendKeyForPubkey pk) :=
    (writesWithin_distributeWaitingPoolRewardsAndFeeCredits _ lsu).getState_append (by decide)
      pk.toList
  rw [after]
  constructor
  · rw [accruedCredits, creditsOf, creditsOf]
    dsimp only
    omega
  · rw [creditsOf, getFeeCreditDailySpend, daily]
    rfl

/-- What one update does to the credits of an account: it spends within what is available on its day,
and leaves at most the cap. -/
structure CreditStep (env : ApplyEnv) (store : Store) (lsu : LedgerStateUpdate) (pk : PublicKey) :
    Prop where
  nonneg : 0 ≤ stepSpend env pk (store, lsu)
  within : stepSpend env pk (store, lsu) ≤ (creditsOf store lsu.cycleNumber pk).available
  balance : ((getFeeCreditBalanceU64 (applyNext env store lsu) pk).toNat : Int) =
    (getFeeCreditBalanceU64 store pk).toNat - stepSpend env pk (store, lsu) +
      stepAccrual env pk (store, lsu)
  capped : (getFeeCreditBalanceU64 store pk).toNat ≤ 6000 →
    (getFeeCreditBalanceU64 (applyNext env store lsu) pk).toNat ≤ 6000
  spent : ((creditsOf (applyNext env store lsu) lsu.cycleNumber pk).spentToday.toNat : Int) =
    (creditsOf store lsu.cycleNumber pk).spentToday.toNat + stepSpend env pk (store, lsu)

theorem creditStep (contained : ContractsContained env.runtime lsu.partialUpdate.transactionEntries) :
    CreditStep env store lsu pk := by
  by_cases skipped : lsu.cycleNumber ≤ lastAppliedCycle store
  · have same : applyNext env store lsu = store := applyNext_of_le skipped
    have nothing : stepSpend env pk (store, lsu) = 0 := if_pos skipped
    have none : stepAccrual env pk (store, lsu) = 0 := if_pos skipped
    refine ⟨nothing.ge, ?_, ?_, ?_, ?_⟩
    · rw [nothing]
      exact Int.natCast_nonneg _
    · rw [same, nothing, none]
      omega
    · rw [same]
      exact id
    · rw [same, nothing]
      omega
  · have above := UInt64.not_le.mp skipped
    have spend : stepSpend env pk (store, lsu) = settledCredits env store lsu pk := if_neg skipped
    have accrual : stepAccrual env pk (store, lsu) = accruedCredits env store lsu pk := if_neg skipped
    have before : creditsOf (afterNonces env store lsu) lsu.cycleNumber pk =
        creditsOf store lsu.cycleNumber pk := creditsOf_afterNonces pk contained _
    obtain ⟨balance, today⟩ := creditsOf_foldl_settleStep lsu.cycleNumber
      (groupBySig lsu.partialUpdate.transactionEntries) (afterNonces env store lsu) pk
    rw [before] at balance today
    obtain ⟨gained, unchanged⟩ := @creditsOf_applyNext env store lsu pk above
    have settled : (creditsOf (afterSettlement env store lsu) lsu.cycleNumber pk).balance.toNat =
        (creditsOf store lsu.cycleNumber pk).balance.toNat - min (chargedFees
          (groupBySig lsu.partialUpdate.transactionEntries) pk)
          (creditsOf store lsu.cycleNumber pk).available := balance
    have used : (creditsOf (afterSettlement env store lsu) lsu.cycleNumber pk).spentToday.toNat =
        (creditsOf store lsu.cycleNumber pk).spentToday.toNat + min (chargedFees
          (groupBySig lsu.partialUpdate.transactionEntries) pk)
          (creditsOf store lsu.cycleNumber pk).available := today
    have held : (creditsOf store lsu.cycleNumber pk).available ≤
        (creditsOf store lsu.cycleNumber pk).balance.toNat := min_le_left _ _
    have amount : settledCredits env store lsu pk = min (chargedFees
        (groupBySig lsu.partialUpdate.transactionEntries) pk : Int)
        (creditsOf store lsu.cycleNumber pk).available := by
      have start : getFeeCreditBalanceU64 (afterNonces env store lsu) pk =
          (creditsOf store lsu.cycleNumber pk).balance := congrArg Credits.balance before
      have finish : getFeeCreditBalanceU64 (afterSettlement env store lsu) pk =
          (creditsOf (afterSettlement env store lsu) lsu.cycleNumber pk).balance := rfl
      rw [settledCredits, start, finish, settled]
      omega
    refine ⟨?_, ?_, ?_, ?_, ?_⟩
    · rw [spend, amount]
      omega
    · rw [spend, amount]
      omega
    · have stored : getFeeCreditBalanceU64 store pk =
          (creditsOf store lsu.cycleNumber pk).balance := rfl
      have reached : getFeeCreditBalanceU64 (applyNext env store lsu) pk =
          (creditsOf (applyNext env store lsu) lsu.cycleNumber pk).balance := rfl
      rw [reached, gained, stored, spend, accrual, settled, amount]
      omega
    · intro capped
      have low : (getFeeCreditBalanceU64 (afterSettlement env store lsu) pk).toNat ≤ 6000 :=
        settled.trans_le ((Nat.sub_le _ _).trans capped)
      have kept := toNat_distribute_le lsu low
      have reached : ((getFeeCreditBalanceU64 (applyNext env store lsu) pk).toNat : Int) =
          (getFeeCreditBalanceU64 (afterSettlement env store lsu) pk).toNat +
            accruedCredits env store lsu pk := gained
      rw [accruedCredits] at reached
      omega
    · rw [unchanged, used, spend, amount]
      omega

end Step

section Runs

variable {env : ApplyEnv} {initial : Store} {updates : List LedgerStateUpdate} {pk : PublicKey}

theorem feeCreditDayBucket_le {a b : UInt64} (le : a ≤ b) :
    feeCreditDayBucket a ≤ feeCreditDayBucket b := by
  rw [feeCreditDayBucket, feeCreditDayBucket, UInt64.le_iff_toNat_le, UInt64.toNat_div,
    UInt64.toNat_div]
  exact Nat.div_le_div_right (UInt64.le_iff_toNat_le.mp le)

/-- The credits of an account after a run: what it was given less what it spent, and a daily record
that accounts for the day of every cycle that may still come. -/
structure CreditsInRun (env : ApplyEnv) (initial : Store) (updates : List LedgerStateUpdate)
    (pk : PublicKey) : Prop where
  balance : ((getFeeCreditBalanceU64 (updates.foldl (applyNext env) initial) pk).toNat : Int) =
    accruedInAll env initial updates pk - spentInAll env initial updates pk
  capped : (getFeeCreditBalanceU64 (updates.foldl (applyNext env) initial) pk).toNat ≤ 6000
  daily : ∀ bucket, 0 ≤ spentInDay env initial updates pk bucket ∧
    spentInDay env initial updates pk bucket ≤ 300 ∧
    spentInDay env initial updates pk bucket ≤ spentInAll env initial updates pk
  recorded : ∀ cycle : UInt64, (∀ lsu ∈ updates, lsu.cycleNumber ≤ cycle) →
    spentInDay env initial updates pk (feeCreditDayBucket cycle) ≤
      (creditsOf (updates.foldl (applyNext env) initial) cycle pk).spentToday.toNat

theorem creditsInRun_concat {last : LedgerStateUpdate}
    (contained : ContractsContained env.runtime last.partialUpdate.transactionEntries)
    (below : ∀ lsu ∈ updates, lsu.cycleNumber < last.cycleNumber)
    (before : CreditsInRun env initial updates pk) :
    CreditsInRun env initial (updates ++ [last]) pk := by
  obtain ⟨balance, capped, daily, recorded⟩ := before
  have step := @creditStep env (updates.foldl (applyNext env) initial) last pk contained
  have nonneg := step.nonneg
  have within := step.within
  have reached : (updates ++ [last]).foldl (applyNext env) initial =
      applyNext env (updates.foldl (applyNext env) initial) last := by
    rw [List.foldl_append]
    rfl
  have today := recorded last.cycleNumber (fun lsu listed => UInt64.le_of_lt (below lsu listed))
  have cap : tokenomicsFeeCreditsDailySpendCapAtoms.toNat = 300 := rfl
  refine ⟨?_, ?_, ?_, ?_⟩
  · rw [reached, step.balance, balance, accruedInAll_concat, spentInAll_concat]
    omega
  · rw [reached]
    exact step.capped capped
  · intro bucket
    obtain ⟨positive, atMost, part⟩ := daily bucket
    rw [spentInDay_concat, spentInAll_concat]
    by_cases own : feeCreditDayBucket last.cycleNumber = bucket
    · rw [if_pos own]
      rw [own] at today
      unfold Credits.available at within
      refine ⟨by omega, by omega, by omega⟩
    · rw [if_neg own]
      refine ⟨by omega, by omega, by omega⟩
  · intro cycle latest
    have later : last.cycleNumber ≤ cycle := latest last (by simp)
    rw [reached, spentInDay_concat]
    by_cases same : feeCreditDayBucket last.cycleNumber = feeCreditDayBucket cycle
    · have view : creditsOf (applyNext env (updates.foldl (applyNext env) initial) last) cycle pk =
          creditsOf (applyNext env (updates.foldl (applyNext env) initial) last)
            last.cycleNumber pk := by
        rw [creditsOf, creditsOf, same]
      rw [if_pos same, view, step.spent, ← same]
      omega
    · -- a later day: nothing has been spent in it yet
      have nothing : spentInDay env initial updates pk (feeCreditDayBucket cycle) = 0 := by
        apply spentInDay_of_none
        intro lsu listed equal
        have low := feeCreditDayBucket_le (UInt64.le_of_lt (below lsu listed))
        rw [equal] at low
        exact same (UInt64.le_antisymm (feeCreditDayBucket_le later) low)
      rw [if_neg same, nothing]
      exact Int.natCast_nonneg _

theorem creditsInRun (contained : ∀ entries, ContractsContained env.runtime entries)
    (fresh : ∀ pk, getFeeCreditBalanceU64 initial pk = 0)
    (increasing : updates.Pairwise (fun a b => a.cycleNumber < b.cycleNumber)) :
    CreditsInRun env initial updates pk := by
  induction updates using List.reverseRecOn with
  | nil =>
    have zero : (0 : UInt64).toNat = 0 := rfl
    refine ⟨?_, ?_, fun bucket => ?_, fun cycle _ => ?_⟩
    · rw [List.foldl_nil, fresh]
      rfl
    · rw [List.foldl_nil, fresh]
      omega
    · have nothing : spentInDay env initial [] pk bucket = 0 := rfl
      have none : spentInAll env initial [] pk = 0 := rfl
      rw [nothing, none]
      omega
    · exact Int.natCast_nonneg _
  | append_singleton updates last ih =>
    rw [List.pairwise_append] at increasing
    obtain ⟨earlier, -, apart⟩ := increasing
    exact creditsInRun_concat (contained _) (fun lsu listed => apart lsu listed last (by simp))
      (ih earlier)

end Runs

/-- From a state without fee credits, every account stays at or below 6000 of them, spends at most 300
in the cycles of a day, and never more than it has been given by then. -/
theorem feeCredits_capped (env : ApplyEnv) (contained : ∀ entries, ContractsContained env.runtime entries)
    (initial : Store) (fresh : ∀ pk, getFeeCreditBalanceU64 initial pk = 0)
    (updates : List LedgerStateUpdate)
    (increasing : updates.Pairwise (fun a b => a.cycleNumber < b.cycleNumber)) (pk : PublicKey) :
    (getFeeCreditBalanceU64 (updates.foldl (applyNext env) initial) pk).toNat ≤ 6000 ∧
    (∀ bucket, spentInDay env initial updates pk bucket ≤ 300) ∧
    ∀ done last, updates = done ++ [last] → ∀ bucket,
      spentInDay env initial updates pk bucket ≤ accruedInAll env initial done pk := by
  have run := @creditsInRun env initial updates pk contained fresh increasing
  refine ⟨run.capped, fun bucket => (run.daily bucket).2.1, ?_⟩
  rintro done last rfl bucket
  have earlier := @creditsInRun env initial done pk contained fresh
    (List.pairwise_append.mp increasing).1
  have balance := earlier.balance
  have part := (run.daily bucket).2.2
  have step := @creditStep env (done.foldl (applyNext env) initial) last pk (contained _)
  -- the last update spends out of what is held before it accrues anything
  have held : (creditsOf (done.foldl (applyNext env) initial) last.cycleNumber pk).available ≤
      (getFeeCreditBalanceU64 (done.foldl (applyNext env) initial) pk).toNat := min_le_left _ _
  have within := step.within
  rw [spentInAll_concat] at part
  omega

section Samples

def sampleWaiting : Store :=
  (sampleFunds.setState (workerKeyForPubkey (sampleAccount 1)) [1]).setState
    (feeCreditFirstSeenCycleKeyForPubkey (sampleAccount 1)) (encodeU64 0)

def sampleSpending (cycle : UInt64) (tx : Transaction) : LedgerStateUpdate :=
  { sampleLedgerUpdate tx with cycleNumber := cycle }

/-- A worker that has waited accrues two hundred credits in a cycle, which are its to spend later. -/
theorem feeCredits_capped_worker :
    accruedInAll sampleCycleEnv sampleWaiting
      [sampleSpending 100000 (sampleTransfer 1 3 [(1, -1), (2, 1)])] (sampleAccount 1) = 200 ∧
    (getFeeCreditBalanceU64 ([sampleSpending 100000 (sampleTransfer 1 3 [(1, -1), (2, 1)]),
      sampleSpending 100001 (sampleTransfer 2 3 [(1, -1), (2, 1)])].foldl (applyNext sampleCycleEnv)
        sampleWaiting) (sampleAccount 1)).toNat ≤ 6000 ∧
    spentInDay sampleCycleEnv sampleWaiting
      [sampleSpending 100000 (sampleTransfer 1 3 [(1, -1), (2, 1)]),
        sampleSpending 100001 (sampleTransfer 2 3 [(1, -1), (2, 1)])] (sampleAccount 1) 23 ≤ 200 := by
  have fresh : ∀ pk, getFeeCreditBalanceU64 sampleWaiting pk = 0 := by
    intro pk
    have within : WritesWithin [utf8 "bal:", utf8 "workers:", utf8 "wfs:"] .empty sampleWaiting :=
      ((WritesWithin.setState _ (List.prefix_append (utf8 "bal:") _) (by simp)).trans
        (.setState _ (List.prefix_append (utf8 "workers:") _) (by simp))).trans
        (.setState _ (List.prefix_append (utf8 "wfs:") _) (by simp))
    have nothing := within.creditsOf (by decide +kernel) (by decide +kernel) 0 pk
    exact congrArg Credits.balance nothing
  have accrued : accruedInAll sampleCycleEnv sampleWaiting
      [sampleSpending 100000 (sampleTransfer 1 3 [(1, -1), (2, 1)])] (sampleAccount 1) = 200 := by
    decide +kernel
  obtain ⟨capped, -, spent⟩ := feeCredits_capped sampleCycleEnv
    (fun _ _ _ _ _ _ _ _ _ => .refl _ _) sampleWaiting fresh
    [sampleSpending 100000 (sampleTransfer 1 3 [(1, -1), (2, 1)]),
      sampleSpending 100001 (sampleTransfer 2 3 [(1, -1), (2, 1)])] (by decide) (sampleAccount 1)
  exact ⟨accrued, capped, accrued ▸ spent [_] _ rfl 23⟩

end Samples

end CatalystNode
