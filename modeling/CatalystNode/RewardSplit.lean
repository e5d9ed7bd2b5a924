import CatalystNode.LedgerConservation
import CatalystNode.VotingDeterminism

namespace CatalystNode

open ByteVector HexCodec MachineInt FoldTrace CanonicalList

def rewardPool (totalFees : UInt64) : Nat := 1000000000 + totalFees.toNat * 3000 / 10000

/-- The rates a committee is configured with; the part paid to the producers is left open. -/
def rewardConfigOf (producerSetRewardBps waitingPoolRewardBps : UInt16) : RewardConfig :=
  ⟨1000000000, 3000, producerSetRewardBps, waitingPoolRewardBps⟩

def compensationCredited (env : ApplyEnv) (store : Store) (lsu : LedgerStateUpdate) : Int :=
  totalBalance (lsu.compensationEntries.foldl applyCompensation
    (applyEntries env.runtime store lsu).store) - totalBalance (applyEntries env.runtime store lsu).store

def rewardsCredited (env : ApplyEnv) (store : Store) (lsu : LedgerStateUpdate) : Int :=
  totalBalance (distributeWaitingPoolRewardsAndFeeCredits (afterSettlement env store lsu) lsu) -
    totalBalance (afterSettlement env store lsu)

section Pool

variable {totalFees : UInt64}

theorem toNat_totalRewardPool (exact : totalFees.toNat * 3000 < 2 ^ 64) :
    (saturatingAddU64 1000000000 (saturatingMulU64 totalFees 3000 / 10000)).toNat =
      rewardPool totalFees := by
  have rate : (3000 : UInt64).toNat = 3000 := rfl
  have base : (10000 : UInt64).toNat = 10000 := rfl
  have block : (1000000000 : UInt64).toNat = 1000000000 := rfl
  rw [toNat_saturatingAddU64, UInt64.toNat_div, toNat_saturatingMulU64, rate, base, block, rewardPool]
  omega

theorem toNat_producerRewardPool {b w : UInt16} (exact : totalFees.toNat * 3000 < 2 ^ 64)
    (exactProduct : rewardPool totalFees * b.toNat < 2 ^ 64) :
    (producerRewardPool totalFees (rewardConfigOf b w)).toNat =
      rewardPool totalFees * b.toNat / 10000 := by
  have pool : (saturatingAddU64 (rewardConfigOf b w).blockReward (saturatingMulU64 totalFees
      (rewardConfigOf b w).feeToRewardPoolBps.toUInt64 / 10000)).toNat = rewardPool totalFees :=
    toNat_totalRewardPool exact
  have rate : (rewardConfigOf b w).producerSetRewardBps.toUInt64.toNat = b.toNat := by
    simp [rewardConfigOf]
  have base : (10000 : UInt64).toNat = 10000 := rfl
  unfold producerRewardPool
  dsimp only
  rw [UInt64.toNat_div, toNat_saturatingMulU64, pool, rate, base, min_eq_right (by omega)]

end Pool

section Compensation

theorem map_amount_splitReward (per rem : UInt64) (ids : List ProducerId) :
    (splitReward per rem ids).map CompensationEntry.amount = shares per rem ids.length := by
  induction ids generalizing rem with
  | nil => rfl
  | cons id ids ih => simp [splitReward, shares, ih]

/-- Sorting does not change the amounts, so a committee is paid the shares of an even split. -/
theorem perm_amounts_committeeUpdate (cycle : UInt64) (partialUpdate : PartialLedgerStateUpdate)
    (committee : List ProducerId) (rewardConfig : RewardConfig) :
    ((committeeUpdate cycle partialUpdate committee rewardConfig).compensationEntries.map
        CompensationEntry.amount).Perm
      (shares (producerRewardPool partialUpdate.totalFees rewardConfig /
          UInt64.ofNat committee.length)
        (producerRewardPool partialUpdate.totalFees rewardConfig %
          UInt64.ofNat committee.length) committee.length) := by
  have split := map_amount_splitReward
    (producerRewardPool partialUpdate.totalFees rewardConfig / UInt64.ofNat committee.length)
    (producerRewardPool partialUpdate.totalFees rewardConfig % UInt64.ofNat committee.length)
    (committee.insertionSort (· ≤ ·))
  rw [List.length_insertionSort] at split
  rw [← split]
  exact (List.perm_insertionSort _ _).map CompensationEntry.amount

theorem toNat_producerRewardPool_lt (totalFees : UInt64) (rewardConfig : RewardConfig) :
    (producerRewardPool totalFees rewardConfig).toNat < 2 ^ 62 := by
  have base : (10000 : UInt64).toNat = 10000 := rfl
  unfold producerRewardPool
  dsimp only
  rw [UInt64.toNat_div, toNat_saturatingMulU64, base]
  omega

variable {cycle : UInt64} {partialUpdate : PartialLedgerStateUpdate} {committee : List ProducerId}
  {rewardConfig : RewardConfig}

theorem sum_amounts_committeeUpdate (nonempty : committee ≠ []) (fits : committee.length < 2 ^ 64) :
    ((committeeUpdate cycle partialUpdate committee rewardConfig).compensationEntries.map
      (fun c => c.amount.toNat)).sum =
      (producerRewardPool partialUpdate.totalFees rewardConfig).toNat := by
  have paid := (perm_amounts_committeeUpdate cycle partialUpdate committee rewardConfig).map
    UInt64.toNat
  rw [List.map_map] at paid
  exact paid.sum_eq.trans (sum_shares_div_mod (toNat_producerRewardPool_lt _ _)
    (List.length_pos_of_ne_nil nonempty) fits)

theorem amount_le_succ_committeeUpdate {c c' : CompensationEntry}
    (h : c ∈ (committeeUpdate cycle partialUpdate committee rewardConfig).compensationEntries)
    (h' : c' ∈ (committeeUpdate cycle partialUpdate committee rewardConfig).compensationEntries) :
    c.amount.toNat ≤ c'.amount.toNat + 1 := by
  have paid := perm_amounts_committeeUpdate cycle partialUpdate committee rewardConfig
  have small : (producerRewardPool partialUpdate.totalFees rewardConfig /
      UInt64.ofNat committee.length).toNat < 2 ^ 62 := by
    rw [UInt64.toNat_div]
    exact (Nat.div_le_self _ _).trans_lt (toNat_producerRewardPool_lt _ _)
  have bounds := bounds_of_mem_shares small (paid.subset (List.mem_map_of_mem h))
  have bounds' := bounds_of_mem_shares small (paid.subset (List.mem_map_of_mem h'))
  omega

end Compensation

section Credits

theorem totalBalance_addToBalance_le (store : Store) (pk : PublicKey) {delta : Int64}
    (gain : 0 ≤ delta.toInt) :
    totalBalance (addToBalance store pk delta) ≤ totalBalance store + delta.toInt := by
  have added : ∀ other, (getBalanceI64 (addToBalance store pk delta) other).toInt ≤
      (getBalanceI64 store other).toInt + if pk = other then delta.toInt else 0 := by
    intro other
    unfold addToBalance
    by_cases same : pk = other
    · subst same
      have low := (getBalanceI64 store pk).le_toInt
      rw [getBalanceI64_setBalanceI64_self, if_pos rfl]
      exact toInt_saturatingAddI64_le (by omega)
    · rw [getBalanceI64_setBalanceI64_of_ne _ _ same, if_neg same, add_zero]
  unfold totalBalance
  refine (Finset.sum_le_sum (fun other _ => added other)).trans_eq ?_
  rw [Finset.sum_add_distrib, Finset.sum_ite_eq, if_pos (Finset.mem_univ pk)]

theorem totalBalance_applyCompensation_le {store : Store} {c : CompensationEntry}
    (small : c.amount.toNat < 2 ^ 63) :
    totalBalance (applyCompensation store c) ≤ totalBalance store + c.amount.toNat := by
  unfold applyCompensation
  split
  next => omega
  next =>
    have amount := toInt_toInt64_of_lt small
    rw [← amount]
    exact totalBalance_addToBalance_le _ _ (by omega)

theorem totalBalance_payWaiting_le {per : UInt64} (small : per.toNat < 2 ^ 62) (s : Store × UInt64)
    (pk : PublicKey) :
    totalBalance (payWaiting per s pk).1 ≤
      totalBalance s.1 + (shareWithRemainder per s.2).toNat := by
  have share := toNat_shareWithRemainder small s.2
  have amount := toInt_toInt64_of_lt (x := shareWithRemainder per s.2) (by omega)
  unfold payWaiting
  dsimp only
  rw [totalBalance_congr (fun other => getBalanceI64_accrueFeeCredits _ other pk)]
  split
  next =>
    rw [← amount]
    exact totalBalance_addToBalance_le _ _ (by omega)
  next => omega

variable {env : ApplyEnv} {store : Store} {lsu : LedgerStateUpdate}

theorem compensationCredited_le (small : ∀ c ∈ lsu.compensationEntries, c.amount.toNat < 2 ^ 63) :
    compensationCredited env store lsu ≤ compensationTotal lsu := by
  have growth := foldl_measure_le (m := totalBalance) (f := applyCompensation)
    (s := (applyEntries env.runtime store lsu).store) (l := lsu.compensationEntries)
    (fun step hstep => totalBalance_applyCompensation_le (small step.2 (mem_of_mem_foldSteps hstep)))
  have amounts := map_snd_foldSteps applyCompensation (applyEntries env.runtime store lsu).store
    lsu.compensationEntries
  have total : ((foldSteps applyCompensation (applyEntries env.runtime store lsu).store
      lsu.compensationEntries).map (fun step => (step.2.amount.toNat : Int))).sum =
      compensationTotal lsu := by
    conv_rhs => rw [compensationTotal, ← amounts, List.map_map]
    rfl
  unfold compensationCredited
  omega

theorem rewardsCredited_le : rewardsCredited env store lsu ≤ rewardTotal env store lsu := by
  have growth := foldl_measure_le (m := fun s : Store × UInt64 => totalBalance s.1)
    (f := payWaiting (workerShare env store lsu)) (l := rewardedWorkers env store lsu)
    (s := (afterSettlement env store lsu,
      waitingPool lsu % UInt64.ofNat (rewardedWorkers env store lsu).length))
    (fun step _ => totalBalance_payWaiting_le (workerShare_lt env store lsu) step.1 step.2)
  rw [rewardsCredited, distribute_eq_foldl]
  exact Int.sub_left_le_of_le_add growth

theorem rewardTotal_le_waitingPool (fits : (rewardedWorkers env store lsu).length < 2 ^ 64) :
    rewardTotal env store lsu ≤ (waitingPool lsu).toNat := by
  by_cases waiting : rewardedWorkers env store lsu = []
  · rw [rewardTotal, rewardSteps, waiting]
    exact Int.natCast_nonneg _
  · exact (rewardTotal_eq_waitingPool waiting fits).le

/-- Whatever the formula asks for, the waiting workers get no more than the producers left. -/
theorem waitingPool_le {paid : Nat} (exact : lsu.partialUpdate.totalFees.toNat * 3000 < 2 ^ 64)
    (amounts : (lsu.compensationEntries.map (fun c => c.amount.toNat)).sum = paid)
    (below : paid ≤ rewardPool lsu.partialUpdate.totalFees) :
    (waitingPool lsu).toNat ≤ rewardPool lsu.partialUpdate.totalFees - paid := by
  have pool : (saturatingAddU64 tokenomicsBlockRewardAtoms
      (splitCycleFees lsu.partialUpdate.totalFees).2.1).toNat =
      rewardPool lsu.partialUpdate.totalFees := toNat_totalRewardPool exact
  have size : rewardPool lsu.partialUpdate.totalFees < 2 ^ 64 := by
    rw [← pool]
    exact UInt64.toNat_lt _
  have total : (lsu.compensationEntries.map CompensationEntry.amount).sum.toNat = paid := by
    have sum : ((lsu.compensationEntries.map CompensationEntry.amount).map UInt64.toNat).sum =
        paid := by
      rw [List.map_map]
      exact amounts
    rw [toNat_sum, sum]
    exact Nat.mod_eq_of_lt (by omega)
  unfold waitingPool
  dsimp only
  rw [toNat_min, toNat_saturatingSubU64, pool, total]
  exact min_le_right _ _

end Credits

theorem eq_committeeUpdate {blake2b512 : Bytes → ByteVec 64} {p q : Producer}
    {candidates : Std.ExtTreeMap ProducerId ProducerCandidate} {requiredMajority : Nat}
    {rewardConfig : RewardConfig} {nowMs : UInt64} {vote : ProducerVote} {lsu : LedgerStateUpdate}
    (produced : createFinalLedgerUpdate blake2b512 p candidates requiredMajority rewardConfig
      nowMs = .ok (q, vote))
    (update : q.ledgerUpdate = some lsu) (committee : lsu.producerList ≠ []) :
    lsu = committeeUpdate lsu.cycleNumber lsu.partialUpdate lsu.producerList rewardConfig := by
  obtain ⟨partialUpdate, members, present, -, built, content, stored, -⟩ :=
    createFinalLedgerUpdate_spec produced
  have same : built = lsu := by
    rw [stored] at update
    exact Option.some.inj update
  rw [← same, content] at committee ⊢
  rw [createCompensationEntries_eq present committee rewardConfig]
  rfl

/-- A committee is paid exactly its part of the pool in shares that differ by at most one atom, and
an apply of its update credits no more than the pool to producers and waiting workers together. -/
theorem createFinalLedgerUpdate_rewards_capped {blake2b512 : Bytes → ByteVec 64} {p q : Producer}
    {candidates : Std.ExtTreeMap ProducerId ProducerCandidate} {requiredMajority : Nat}
    {b w : UInt16} {nowMs : UInt64} {vote : ProducerVote} {lsu : LedgerStateUpdate}
    (produced : createFinalLedgerUpdate blake2b512 p candidates requiredMajority (rewardConfigOf b w)
      nowMs = .ok (q, vote))
    (update : q.ledgerUpdate = some lsu) (committee : lsu.producerList ≠ [])
    (fits : lsu.producerList.length < 2 ^ 64) (rate : b.toNat ≤ 10000)
    (exactFees : lsu.partialUpdate.totalFees.toNat * 3000 < 2 ^ 64)
    (exactShare : rewardPool lsu.partialUpdate.totalFees * b.toNat < 2 ^ 64) :
    (lsu.compensationEntries.map (fun c => c.amount.toNat)).sum =
        rewardPool lsu.partialUpdate.totalFees * b.toNat / 10000 ∧
      (∀ c ∈ lsu.compensationEntries, ∀ c' ∈ lsu.compensationEntries,
        c.amount.toNat ≤ c'.amount.toNat + 1) ∧
      ∀ env store, (rewardedWorkers env store lsu).length < 2 ^ 64 →
        compensationTotal lsu + rewardTotal env store lsu ≤
            rewardPool lsu.partialUpdate.totalFees ∧
          compensationCredited env store lsu + rewardsCredited env store lsu ≤
            rewardPool lsu.partialUpdate.totalFees := by
  have same := eq_committeeUpdate produced update committee
  have paid := @sum_amounts_committeeUpdate lsu.cycleNumber lsu.partialUpdate lsu.producerList
    (rewardConfigOf b w) committee fits
  have close := @amount_le_succ_committeeUpdate lsu.cycleNumber lsu.partialUpdate lsu.producerList
    (rewardConfigOf b w)
  rw [← same, toNat_producerRewardPool exactFees exactShare] at paid
  rw [← same] at close
  refine ⟨paid, fun c hc c' hc' => close hc hc', ?_⟩
  intro env store workers
  have below : rewardPool lsu.partialUpdate.totalFees * b.toNat / 10000 ≤
      rewardPool lsu.partialUpdate.totalFees :=
    Nat.div_le_of_le_mul (by rw [mul_comm 10000]; exact Nat.mul_le_mul_left _ rate)
  have left := waitingPool_le exactFees paid below
  have rewards := rewardTotal_le_waitingPool workers
  have total : compensationTotal lsu =
      (rewardPool lsu.partialUpdate.totalFees * b.toNat / 10000 : Nat) := by
    rw [← paid, compensationTotal, Nat.cast_list_sum, List.map_map]
    rfl
  have compensation := @compensationCredited_le env store lsu (fun c hc => by
    have part := List.single_le_sum (fun n _ => Nat.zero_le n) _
      (List.mem_map_of_mem (f := fun c : CompensationEntry => c.amount.toNat) hc)
    omega)
  have credited := @rewardsCredited_le env store lsu
  omega

def sampleRewardUpdate : LedgerStateUpdate :=
  committeeUpdate 7 ⟨[], computeMerkleRoot checksum [], 0, 7⟩ ["a", "b", "c"]
    (rewardConfigOf 7000 3000)

theorem createFinalLedgerUpdate_rewards_capped_three :
    ∃ q vote, createFinalLedgerUpdate checksum (sampleMember "a" ["a", "b", "c"])
        (sampleCandidates ["a", "b"]) 2 (rewardConfigOf 7000 3000) 1 = .ok (q, vote) ∧
      q.ledgerUpdate = some sampleRewardUpdate ∧
      (sampleRewardUpdate.compensationEntries.map (fun c => c.amount.toNat)).sum = 700000000 ∧
      compensationCredited sampleApplyEnv sampleFunds sampleRewardUpdate +
        rewardsCredited sampleApplyEnv sampleFunds sampleRewardUpdate ≤ 1000000000 := by
  obtain ⟨⟨q, vote⟩, produced⟩ := exists_of_isOk (x := createFinalLedgerUpdate checksum
    (sampleMember "a" ["a", "b", "c"]) (sampleCandidates ["a", "b"]) 2 (rewardConfigOf 7000 3000) 1)
    (by decide +kernel)
  obtain ⟨partialUpdate, batch, update, -⟩ := createFinalLedgerUpdate_ok (by decide +kernel) produced
  have content : partialUpdate = ⟨[], computeMerkleRoot checksum [], 0, 7⟩ :=
    Option.some.inj (batch.symm.trans (by decide +kernel))
  have members : sortDedup (sampleMember "a" ["a", "b", "c"]).selectedProducers =
      ["a", "b", "c"] := by decide +kernel
  rw [content, members] at update
  obtain ⟨paid, -, capped⟩ := createFinalLedgerUpdate_rewards_capped produced update (by decide)
    (by decide) (by decide) (by decide) (by decide)
  exact ⟨q, vote, produced, update, paid, (capped sampleApplyEnv sampleFunds (by decide +kernel)).2⟩

end CatalystNode
