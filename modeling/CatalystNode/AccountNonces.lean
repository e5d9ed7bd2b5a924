import CatalystNode.AppliedHead
import CatalystNode.CycleRuns
import CatalystNode.EvmRevm
import CatalystNode.LastingRecords
import CatalystNode.SignatureBinding

namespace CatalystNode

open ByteVector HexCodec MachineInt Store Effects FoldTrace

section Contracts

variable {revm : Revm} {decode : Bytes → Option EvmTxPayload}

theorem writesWithin_evm {tags : List Bytes} {s t : Store} (within : WritesWithin tags s t)
    (evm : ∀ tag ∈ tags, utf8 "evm:" <+: tag) : WritesWithin [utf8 "evm:"] s t :=
  fun key apart => within key (fun tag listed under =>
    apart _ List.mem_cons_self ((evm tag listed).trans under))

theorem writesWithin_setContract {tag : Bytes} (evm : utf8 "evm:" <+: tag) (store : Store)
    (rest value : Bytes) : WritesWithin [utf8 "evm:"] store (store.setState (tag ++ rest) value) :=
  .setState store (evm.trans (List.prefix_append tag rest)) List.mem_cons_self

theorem writesWithin_persistState (store : Store) (state : Std.ExtTreeMap EvmAddress EvmAccount) :
    WritesWithin [utf8 "evm:"] store (persistState store state) := by
  refine .foldl (fun store account => ?_) _ _
  have rest := writesWithin_evm (writesWithin_persistAccount_rest store account) (by decide)
  exact ((writesWithin_setContract (by decide) store _ _).trans
    (writesWithin_setContract (by decide) _ _ _)).trans rest

/-- Whatever the virtual machine answers, the node's own runtime keeps contracts to their records. -/
theorem contractsContained_revmRuntime (entries : List TransactionEntry) :
    ContractsContained (revmRuntime revm decode) entries := by
  intro e _ _ store pk chainId payload gasLimit
  obtain ⟨nonce, kind⟩ := payload
  cases kind with
  | deploy bytecode =>
    dsimp only [revmRuntime, executeDeployAndPersist]
    split
    next => exact .refl _ store
    next out _ =>
      have persisted := writesWithin_persistState store out.state
      generalize (if _ ∈ out.state then out.contracts _ else none) = code
      cases code with
      | none => exact persisted
      | some code => exact persisted.trans (writesWithin_setContract (by decide) _ _ _)
  | call target input =>
    dsimp only [revmRuntime, executeCallAndPersist]
    split
    next => exact .refl _ store
    next out _ =>
      exact ((writesWithin_persistState store out.state).trans
        (writesWithin_setContract (by decide) _ _ _)).trans (writesWithin_setContract (by decide) _ _ _)

theorem metadata_persistAccount (store : Store) (account : EvmAddress × EvmAccount) :
    (persistAccount store account).metadata = store.metadata := by
  refine foldl_invariant (P := fun s : Store => s.metadata = store.metadata) ?_ (fun _ _ _ same => same)
  split
  next => rfl
  next => split <;> rfl

theorem keepsMetadata_revmRuntime : KeepsMetadata (revmRuntime revm decode) := by
  intro store pk chainId payload gasLimit
  have persisted : ∀ state, (persistState store state).metadata = store.metadata := fun state =>
    foldl_invariant (P := fun s : Store => s.metadata = store.metadata) rfl
      (fun s account _ same => (metadata_persistAccount s account).trans same)
  obtain ⟨nonce, kind⟩ := payload
  cases kind with
  | deploy bytecode =>
    dsimp only [revmRuntime, executeDeployAndPersist]
    split
    next => rfl
    next out _ =>
      generalize (if _ ∈ out.state then out.contracts _ else none) = code
      cases code <;> exact persisted out.state
  | call target input =>
    dsimp only [revmRuntime, executeCallAndPersist]
    split
    next => rfl
    next out _ => exact persisted out.state

/-- The node as it is built, with its own runtime, pruning and signature check, meets what the results
about cycles assume, given that calls of contracts can be encoded. -/
theorem lawfulApplyEnv_applying {F G : Type} [Field F] [AddCommGroup G] [Module F G] [DecidableEq G]
    {ops : RistrettoOps F G} {blake2b512 : Bytes → ByteVec 64}
    {bincodeCore : TransactionCore → Except String Bytes} {env : DatabaseEnv}
    (runs : env.runtime = revmRuntime revm decode)
    (verifies : ∀ tx chainId genesisHash, env.tx.verifyTxSignatureWithDomain tx chainId genesisHash =
      decide (verifyTxSignatureWithDomain ops blake2b512 bincodeCore tx chainId genesisHash = .ok ()))
    (encodes : ∀ payload, (env.tx.encodeEvmTxPayload payload).isSome) :
    LawfulApplyEnv env.applying where
  tx := by
    refine ⟨fun tx chainId genesisHash accepted => ?_, encodes⟩
    exact length_of_verifyTxSignatureWithDomain ops blake2b512 bincodeCore
      (of_decide_eq_true ((verifies tx chainId genesisHash).symm.trans accepted))
  contracts entries := by
    change ContractsContained env.runtime entries
    rw [runs]
    exact contractsContained_revmRuntime entries
  head store cycle stateRoot lsuHash := by
    have pruned := (@prunedTo_housekeeping env store cycle stateRoot lsuHash).records
      "consensus:last_applied_cycle" (by decide)
    exact pruned.resolve_right (fun gone => absurd gone.1 (by decide))

end Contracts

section Nonces

variable {env : DatabaseEnv} (contained : ∀ entries, ContractsContained env.runtime entries)

def usesIn (steps : List (UInt64 × LedgerStateUpdate)) (pk : PublicKey) : Nat :=
  (steps.map (fun step => nonceUses groupSender step.2 pk)).sum

include contained in
theorem getState_nonceKey_applyStep {db : Database} {step : UInt64 × LedgerStateUpdate}
    (above : lastAppliedCycle db.toStore < step.2.cycleNumber) (pk : PublicKey) :
    (applyStep env db step).getState (nonceKeyForPubkey pk) =
      nonceRecord (db.getState (nonceKeyForPubkey pk)) (nonceUses groupSender step.2 pk) := by
  obtain ⟨root, db', run, applied⟩ := @applyLsuToDatabase_apply (env.atTime step.1) step.2 db above
  have ledger := @getState_nonceKey_applyLedger (env.atTime step.1).toApplyEnv db.toStore step.2
    (contained _) pk
  rw [applyStep, run, endState, Store.getState, applied.accounts]
  exact ledger

include contained in
theorem nonce_applySteps (steps : List (UInt64 × LedgerStateUpdate)) (db : Database)
    (pk : PublicKey) :
    (getNonceU64 (applySteps env db steps).toStore pk).toNat = min (2 ^ 64 - 1)
      ((getNonceU64 db.toStore pk).toNat +
        usesIn (strictRecords (lastAppliedCycle db.toStore) steps) pk) := by
  induction steps generalizing db with
  | nil =>
    have bound := (getNonceU64 db.toStore pk).toNat_lt
    simp only [applySteps, List.foldl_nil, strictRecords, usesIn, List.map_nil, List.sum_nil]
    omega
  | cons step steps ih =>
    rw [strictRecords]
    split
    next below => rw [← ih db, applySteps, List.foldl_cons, applyStep_skip below, applySteps]
    next notBelow =>
      have above := UInt64.not_le.mp notBelow
      have record := getState_nonceKey_applyStep contained above pk
      have first : (getNonceU64 (applyStep env db step).toStore pk).toNat = min (2 ^ 64 - 1)
          ((getNonceU64 db.toStore pk).toNat + nonceUses groupSender step.2 pk) := by
        rw [show getNonceU64 (applyStep env db step).toStore pk = nonceOf _ from congrArg nonceOf record]
        exact toNat_nonceOf_nonceRecord _ _
      have rest := ih (applyStep env db step)
      rw [lastAppliedCycle_applyStep_of_above above, first] at rest
      rw [applySteps, List.foldl_cons, ← applySteps, rest, usesIn, usesIn, List.map_cons, List.sum_cons]
      omega

end Nonces

/-- With any virtual machine behind the contracts, a run takes the nonce of an account up by the number
of groups that the applied updates have of it. -/
theorem nonces_count_groups (revm : Revm) (decode : Bytes → Option EvmTxPayload) (env : DatabaseEnv)
    (db : Database) (steps : List (UInt64 × LedgerStateUpdate)) (pk : PublicKey) :
    (getNonceU64 (applySteps { env with runtime := revmRuntime revm decode } db steps).toStore pk).toNat =
      min (2 ^ 64 - 1) ((getNonceU64 db.toStore pk).toNat +
        usesIn (strictRecords (lastAppliedCycle db.toStore) steps) pk) :=
  nonce_applySteps contractsContained_revmRuntime steps db pk

end CatalystNode
