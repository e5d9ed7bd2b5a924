import CatalystNode.ApplyLsu
import CatalystNode.FoldTrace

namespace CatalystNode

open ByteVector HexCodec MachineInt FoldTrace

def totalBalance (store : Store) : Int := ∑ pk : PublicKey, (getBalanceI64 store pk).toInt

def AdditionFits (store : Store) (pk : PublicKey) (delta : Int64) : Prop :=
  -2 ^ 63 ≤ (getBalanceI64 store pk).toInt + delta.toInt ∧
    (getBalanceI64 store pk).toInt + delta.toInt < 2 ^ 63

instance instDecidableAdditionFits (store : Store) (pk : PublicKey) (delta : Int64) :
    Decidable (AdditionFits store pk delta) :=
  inferInstanceAs (Decidable (_ ∧ _))

theorem totalBalance_congr {s t : Store} (same : ∀ pk, getBalanceI64 s pk = getBalanceI64 t pk) :
    totalBalance s = totalBalance t := by
  unfold totalBalance
  exact Finset.sum_congr rfl (fun pk _ => by rw [same pk])

theorem totalBalance_addToBalance {store : Store} {pk : PublicKey} {delta : Int64}
    (fits : AdditionFits store pk delta) :
    totalBalance (addToBalance store pk delta) = totalBalance store + delta.toInt := by
  have added : ∀ other, (getBalanceI64 (addToBalance store pk delta) other).toInt =
      (getBalanceI64 store other).toInt + if pk = other then delta.toInt else 0 := by
    intro other
    unfold addToBalance
    by_cases same : pk = other
    · subst same
      rw [getBalanceI64_setBalanceI64_self, toInt_saturatingAddI64_of_fits fits.1 fits.2,
        if_pos rfl]
    · rw [getBalanceI64_setBalanceI64_of_ne _ _ same, if_neg same, add_zero]
  unfold totalBalance
  rw [Finset.sum_congr rfl (fun other _ => added other), Finset.sum_add_distrib,
    Finset.sum_ite_eq, if_pos (Finset.mem_univ pk)]

section Frame

variable (store : Store) (pk other : PublicKey)

theorem getBalanceI64_setState_append {kind : Bytes} (long : 4 ≤ kind.length)
    (differs : kind.take 4 ≠ utf8 "bal:") (suffix value : Bytes) :
    getBalanceI64 (store.setState (kind ++ suffix) value) pk = getBalanceI64 store pk := by
  apply getBalanceI64_setState
  rw [List.take_append_of_le_length long]
  exact differs

@[simp] theorem getBalanceI64_setNonceU64 (v : UInt64) :
    getBalanceI64 (setNonceU64 store other v) pk = getBalanceI64 store pk :=
  getBalanceI64_setState_append store pk (by decide) (by decide) _ _

@[simp] theorem getBalanceI64_setFeeCreditBalanceU64 (v : UInt64) :
    getBalanceI64 (setFeeCreditBalanceU64 store other v) pk = getBalanceI64 store pk :=
  getBalanceI64_setState_append store pk (by decide) (by decide) _ _

@[simp] theorem getBalanceI64_setFeeCreditDailySpend (daily : FeeCreditDailySpend) :
    getBalanceI64 (setFeeCreditDailySpend store other daily) pk = getBalanceI64 store pk :=
  getBalanceI64_setState_append store pk (by decide) (by decide) _ _

@[simp] theorem getBalanceI64_writeRootCycleCounter (cycle : UInt64) :
    getBalanceI64 (writeRootCycleCounter store cycle) pk = getBalanceI64 store pk :=
  getBalanceI64_setState (by decide) store _ pk

theorem getBalanceI64_registerWorker (cycle : UInt64) :
    getBalanceI64 (registerWorker store other cycle) pk = getBalanceI64 store pk := by
  have seen : getBalanceI64 (ensureWorkerFirstSeenCycle
      (store.setState (workerKeyForPubkey other) [1]) other cycle) pk =
      getBalanceI64 (store.setState (workerKeyForPubkey other) [1]) pk := by
    unfold ensureWorkerFirstSeenCycle
    dsimp only
    split
    next => exact getBalanceI64_setState_append _ pk (by decide) (by decide) _ _
    next => rfl
  rw [registerWorker, setWorkerLastRegistrationCycle, workerLastRegistrationCycleKeyForPubkey,
    getBalanceI64_setState_append _ pk (by decide) (by decide), seen, workerKeyForPubkey,
    getBalanceI64_setState_append _ pk (by decide) (by decide)]

theorem getBalanceI64_bumpNonce (entries : List TransactionEntry) :
    getBalanceI64 (bumpNonce store entries) pk = getBalanceI64 store pk := by
  unfold bumpNonce
  split
  next => rfl
  next => simp

theorem getBalanceI64_applyFeeCreditSpendForCycle (fee cycle : UInt64) :
    getBalanceI64 (applyFeeCreditSpendForCycle store other fee cycle).1 pk =
      getBalanceI64 store pk := by
  unfold applyFeeCreditSpendForCycle
  dsimp only
  split
  next => rfl
  next =>
    split
    next => rfl
    next => simp

theorem getBalanceI64_accrueFeeCredits :
    getBalanceI64 (accrueFeeCredits store other) pk = getBalanceI64 store pk := by
  unfold accrueFeeCredits
  split
  next => simp
  next => rfl

end Frame

theorem getBalanceI64_congr {s t : Store} (same : s.accounts = t.accounts) (pk : PublicKey) :
    getBalanceI64 s pk = getBalanceI64 t pk := by
  simp only [getBalanceI64, Store.getState, same]

theorem commit_accounts (sha256 : Bytes → Hash) (store : Store) :
    (store.commit sha256).1.accounts = store.accounts := by
  unfold Store.commit
  split <;> rfl

theorem writeReceipt_accounts (env : ApplyEnv) (cycle : UInt64) (lsuHash stateRoot : Hash)
    (outcomes : Std.ExtTreeMap Bytes ApplyOutcome) (store : Store) (txid : Hash) :
    (writeReceipt env cycle lsuHash stateRoot outcomes store txid).accounts = store.accounts := by
  unfold writeReceipt
  dsimp only
  split <;> rfl

theorem recordApplied_accounts (env : ApplyEnv) (lsu : LedgerStateUpdate) (stateRoot : Hash)
    (outcomes : Std.ExtTreeMap Bytes ApplyOutcome) (store : Store) :
    (recordApplied env lsu stateRoot outcomes store).accounts = store.accounts := by
  refine foldl_invariant (P := fun s : Store => s.accounts = store.accounts) rfl ?_
  intro s txid _ same
  rw [writeReceipt_accounts, same]

end CatalystNode
