import CatalystNode.CreditRefunds
import CatalystNode.WaitingRewards

namespace CatalystNode

open ByteVector HexCodec MachineInt Store

section Ledger

variable (store : Store) (lsu : LedgerStateUpdate) (pk : PublicKey)

variable {store lsu} {env : ApplyEnv}

theorem afterNonces_eq (env : ApplyEnv) (store : Store) (lsu : LedgerStateUpdate) :
    afterNonces env store lsu =
      ((groupBySig lsu.partialUpdate.transactionEntries).map groupSender).foldl bumpSender
        (beforeNonces env store lsu) :=
  foldl_bumpNonce _ _

theorem writesWithin_afterNonces (env : ApplyEnv) (store : Store) (lsu : LedgerStateUpdate) :
    WritesWithin [utf8 "bal:", utf8 "nonce:"] (applyEntries env.runtime store lsu).store
      (afterNonces env store lsu) := by
  have paid : WritesWithin [utf8 "bal:", utf8 "nonce:"] (applyEntries env.runtime store lsu).store
      (beforeNonces env store lsu) :=
    .foldl (fun s c => (writesWithin_applyCompensation s c).mono (by simp)) _ _
  rw [afterNonces_eq]
  exact paid.trans ((writesWithin_foldl_bumpSender _ _).mono (by simp))

theorem creditsOf_afterNonces
    (contained : ContractsContained env.runtime lsu.partialUpdate.transactionEntries) (cycle : UInt64) :
    creditsOf (afterNonces env store lsu) cycle pk = creditsOf store cycle pk := by
  have entries : WritesWithin entryTags store (applyEntries env.runtime store lsu).store :=
    writesWithin_foldl_applyEntry env.runtime _ _ contained ⟨store, ∅, []⟩
  rw [(writesWithin_afterNonces env store lsu).creditsOf (by decide) (by decide),
    entries.creditsOf (by decide) (by decide)]

theorem rewardedWorkers_eq
    (contained : ContractsContained env.runtime lsu.partialUpdate.transactionEntries) :
    rewardedWorkers env store lsu = waitingWorkers (registeredStore store lsu) lsu := by
  have entries : RegisteredAlike (applyEntries env.runtime store lsu).store
      (registeredStore store lsu) :=
    registeredAlike_foldl_applyEntry env.runtime _ _ contained ⟨store, ∅, []⟩ store
      (fun _ _ _ => rfl)
  have later := RegisteredAlike.of_writesWithin (writesWithin_afterNonces env store lsu)
    (by decide)
  have settled := RegisteredAlike.of_writesWithin
    (writesWithin_settleFeeCreditSpendForAppliedCycle (afterNonces env store lsu) lsu)
    (by decide)
  exact waitingWorkers_congr ((settled.trans later).trans entries) lsu

end Ledger

end CatalystNode
