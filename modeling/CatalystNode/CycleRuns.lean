import CatalystNode.SenderAttribution
import CatalystNode.LedgerReplay

namespace CatalystNode

open ByteVector HexCodec MachineInt Ladder

/-- What the code around an apply guarantees: contracts keep to their own records, and pruning and
checkpoints leave the applied head alone. -/
structure LawfulApplyEnv (env : ApplyEnv) : Prop where
  tx : LawfulTxEnv env.tx
  contracts : ∀ entries, ContractsContained env.runtime entries
  head : ∀ store cycle stateRoot lsuHash,
    (env.housekeeping store cycle stateRoot lsuHash)["consensus:last_applied_cycle"]? =
      store.getMetadata "consensus:last_applied_cycle"

/-- Stores reached by cycles with increasing numbers, with the lists selected so far: each cycle
selects on the current store and applies an update with the entries of what it selected. -/
inductive CycleReach (env : ApplyEnv) (initial : Store) :
    UInt64 → Store → List (List Transaction) → Prop
  | start : CycleReach env initial (lastAppliedCycle initial) initial []
  | next {cycle store history} {lsu : LedgerStateUpdate} {nowMs maxEntries txs selected} :
      CycleReach env initial cycle store history → cycle < lsu.cycleNumber →
      validateAndSelectProtocolTxsForConstruction env.tx store lsu.cycleNumber nowMs maxEntries txs =
        selected →
      lsu.partialUpdate.transactionEntries.Perm (selected.flatMap (txToConsensusEntries env.tx)) →
      (selected.map (txBoundarySignature env.tx)).Nodup →
      CycleReach env initial lsu.cycleNumber (applyLsuToStorage env store lsu).1
        (history ++ [selected])

section Step

variable {env : ApplyEnv} {store : Store} {lsu : LedgerStateUpdate}

theorem lastAppliedCycle_persistAppliedHead (lsuHash stateRoot : Hash) (store : Store) :
    (persistAppliedHistory lsu lsuHash
      (persistAppliedHead lsu lsuHash stateRoot store)).getMetadata "consensus:last_applied_cycle" =
      some (encodeU64 lsu.cycleNumber) := by
  have cycleKey : s!"consensus:lsu:{lsu.cycleNumber}" ≠ "consensus:last_applied_cycle" ++ "" :=
    keyTag_ne 12 (by decide) (by decide) (by decide)
  have hashKey : s!"consensus:lsu_hash:{lsu.cycleNumber}" ≠ "consensus:last_applied_cycle" ++ "" :=
    keyTag_ne 12 (by decide) (by decide) (by decide)
  rw [String.append_empty] at cycleKey hashKey
  rw [persistAppliedHistory, Store.getMetadata_setMetadata_of_ne _ _ hashKey,
    Store.getMetadata_setMetadata_of_ne _ _ cycleKey, persistAppliedHead,
    Store.getMetadata_setMetadata_of_ne _ _ (by decide),
    Store.getMetadata_setMetadata_of_ne _ _ (by decide), Store.getMetadata_setMetadata_self]

theorem lastAppliedCycle_recordApplied (lawful : LawfulApplyEnv env) (stateRoot : Hash)
    (outcomes : Std.ExtTreeMap Bytes ApplyOutcome) (store : Store) :
    lastAppliedCycle (recordApplied env lsu stateRoot outcomes store) = lsu.cycleNumber := by
  unfold lastAppliedCycle recordApplied Store.getMetadata
  rw [lawful.head, lastAppliedCycle_persistAppliedHead, Option.bind_some, decodeU64_encodeU64,
    Option.getD_some]

theorem lastAppliedCycle_applyLsuToStorage (lawful : LawfulApplyEnv env)
    (above : lastAppliedCycle store < lsu.cycleNumber) :
    lastAppliedCycle (applyLsuToStorage env store lsu).1 = lsu.cycleNumber := by
  obtain ⟨-, -, -, root, -, built, -⟩ :=
    computeRoots_spec env.sha256 (applyLedger env store lsu).1.accounts.toList
  rw [applyLsuToStorage, applyLsuToStorageLocked_eq above built]
  exact lastAppliedCycle_recordApplied lawful root _ _

theorem getNonceU64_applyLsuToStorage (lawful : LawfulApplyEnv env)
    (above : lastAppliedCycle store < lsu.cycleNumber) (pk : PublicKey) :
    (getNonceU64 (applyLsuToStorage env store lsu).1 pk).toNat =
      min (2 ^ 64 - 1) ((getNonceU64 store pk).toNat + nonceUses groupSender lsu pk) := by
  have record : (applyLsuToStorage env store lsu).1.getState (nonceKeyForPubkey pk) =
      nonceRecord (store.getState (nonceKeyForPubkey pk)) (nonceUses groupSender lsu pk) := by
    rw [Store.getState, applyLsuToStorage_accounts above]
    exact getState_nonceKey_applyLedger (lawful.contracts _) pk
  have value := toNat_nonceOf_nonceRecord (store.getState (nonceKeyForPubkey pk))
    (nonceUses groupSender lsu pk)
  rw [← record] at value
  exact value

end Step

section Runs

variable {env : ApplyEnv} {initial store : Store} {cycle : UInt64} {history : List (List Transaction)}

/-- The nonces an account has used over a run climb from the one it started with, and the store holds
the last of them. -/
structure NoncesTracked (initial : Store) (cycle : UInt64) (store : Store)
    (history : List (List Transaction)) : Prop where
  head : lastAppliedCycle store = cycle
  sent : ∀ tx ∈ history.flatten, ∃ pk, txSenderPubkey tx = some pk
  climbs : ∀ pk, Climbs (2 ^ 64 - 1) (getNonceU64 initial pk).toNat (noncesOf pk history.flatten)
  stored : ∀ pk, (getNonceU64 store pk).toNat =
    (noncesOf pk history.flatten).getLastD (getNonceU64 initial pk).toNat

theorem noncesTracked_start (initial : Store) :
    NoncesTracked initial (lastAppliedCycle initial) initial [] :=
  ⟨rfl, by simp, fun _ => trivial, fun _ => rfl⟩

theorem noncesTracked_next (lawful : LawfulApplyEnv env)
    (before : NoncesTracked initial cycle store history) {lsu : LedgerStateUpdate}
    (above : cycle < lsu.cycleNumber) {selected : List Transaction} {nowMs : UInt64}
    {maxEntries : Nat} {txs : List Transaction}
    (chosen : validateAndSelectProtocolTxsForConstruction env.tx store lsu.cycleNumber nowMs
      maxEntries txs = selected)
    (shuffled : lsu.partialUpdate.transactionEntries.Perm
      (selected.flatMap (txToConsensusEntries env.tx)))
    (distinct : (selected.map (txBoundarySignature env.tx)).Nodup) :
    NoncesTracked initial lsu.cycleNumber (applyLsuToStorage env store lsu).1
      (history ++ [selected]) := by
  subst chosen
  have attributed := @selected_attributed env.tx lawful.tx store lsu.cycleNumber nowMs maxEntries txs
  have fresh : lastAppliedCycle store < lsu.cycleNumber := before.head ▸ above
  have flat : (history ++ [validateAndSelectProtocolTxsForConstruction env.tx store lsu.cycleNumber
      nowMs maxEntries txs]).flatten = history.flatten ++
        validateAndSelectProtocolTxsForConstruction env.tx store lsu.cycleNumber nowMs maxEntries
          txs := by simp
  have climbs := selected_climbs env.tx store lsu.cycleNumber nowMs maxEntries txs
  refine ⟨lastAppliedCycle_applyLsuToStorage lawful fresh, ?_, fun pk => ?_, fun pk => ?_⟩
  · intro tx htx
    rw [flat] at htx
    rcases List.mem_append.mp htx with earlier | now
    · exact before.sent tx earlier
    · obtain ⟨pk, sender, -⟩ := attributed tx now
      exact ⟨pk, sender⟩
  · rw [flat, noncesOf_append, climbs_append, ← before.stored pk]
    exact ⟨before.climbs pk, climbs pk⟩
  · -- the apply counts the sender's groups, the selection climbed one step for each of them
    have low : (getNonceU64 store pk).toNat ≤ 2 ^ 64 - 1 :=
      Nat.le_sub_one_of_lt (getNonceU64 store pk).toNat_lt
    rw [getNonceU64_applyLsuToStorage lawful fresh, nonceUses_eq_length attributed shuffled distinct,
      ← (climbs pk).getLastD low, before.stored pk, flat, noncesOf_append, getLastD_append]

theorem cycleReach_tracked (lawful : LawfulApplyEnv env)
    (reach : CycleReach env initial cycle store history) :
    NoncesTracked initial cycle store history := by
  induction reach with
  | start => exact noncesTracked_start initial
  | next _ above chosen shuffled distinct ih =>
    exact noncesTracked_next lawful ih above chosen shuffled distinct

theorem noncesOf_flatten (pk : PublicKey) (history : List (List Transaction)) :
    noncesOf pk history.flatten = (history.map (noncesOf pk)).flatten := by
  induction history with
  | nil => rfl
  | cons l history ih => rw [List.flatten_cons, noncesOf_append, ih, List.map_cons, List.flatten_cons]

/-- A transaction below the largest nonce is in one of the lists at most. -/
theorem NoncesTracked.pairwise (tracked : NoncesTracked initial cycle store history) :
    history.Pairwise (fun earlier later => ∀ tx ∈ earlier, tx.core.nonce.toNat < 2 ^ 64 - 1 →
      tx ∉ later) := by
  rw [List.pairwise_iff_forall_sublist]
  intro earlier later pair tx first below second
  obtain ⟨pk, sender⟩ := tracked.sent tx
    (List.mem_flatten.mpr ⟨earlier, pair.subset List.mem_cons_self, first⟩)
  have low : (getNonceU64 initial pk).toNat ≤ 2 ^ 64 - 1 :=
    Nat.le_sub_one_of_lt (getNonceU64 initial pk).toNat_lt
  have listed : ∀ txs : List Transaction, tx ∈ txs → tx.core.nonce.toNat ∈ noncesOf pk txs := by
    intro txs member
    exact List.mem_map_of_mem (List.mem_filter.mpr ⟨member, by simpa using sender⟩)
  have ordered := (tracked.climbs pk).pairwise low
  rw [noncesOf_flatten, List.pairwise_flatten, List.pairwise_map,
    List.pairwise_iff_forall_sublist] at ordered
  rcases ordered.2 pair _ (listed earlier first) _ (listed later second) with less | top
  · exact lt_irrefl _ less
  · exact below.ne top

end Runs

/-- Over every run of cycles the stored nonce of a sender is that of its last selected transaction,
and no transaction below the largest nonce is selected in two cycles. -/
theorem cycleReach_selected_once (env : ApplyEnv) (lawful : LawfulApplyEnv env) (initial : Store)
    (cycle : UInt64) (store : Store) (history : List (List Transaction))
    (reach : CycleReach env initial cycle store history) :
    (∀ pk tx, (history.flatten.filter (fun tx => txSenderPubkey tx = some pk)).getLast? = some tx →
      getNonceU64 store pk = tx.core.nonce) ∧
    history.Pairwise (fun earlier later => ∀ tx ∈ earlier, tx.core.nonce.toNat < 2 ^ 64 - 1 →
      tx ∉ later) := by
  have tracked := cycleReach_tracked lawful reach
  refine ⟨fun pk tx last => ?_, tracked.pairwise⟩
  apply UInt64.toNat_inj.mp
  rw [tracked.stored, noncesOf, List.getLastD_eq_getLast?, List.getLast?_map, last]
  rfl

section Samples

def sampleCycleEnv : ApplyEnv :=
  { sampleApplyEnv with
    tx := { sampleTxEnv with
      encodeEvmTxPayload := fun _ => some []
      verifyTxSignatureWithDomain := fun tx _ _ => tx.signature.length = 64 }
    sha256 := fun _ => zeros 32 }

theorem sampleCycleEnv_lawful : LawfulApplyEnv sampleCycleEnv where
  tx := ⟨fun tx _ _ h => by simpa [sampleCycleEnv] using h, fun _ => rfl⟩
  contracts := fun _ _ _ _ _ _ _ _ _ => .refl _ _
  head := fun _ _ _ _ => rfl

def sampleSaver (nonce : UInt64) : Store :=
  setNonceU64 (setBalanceI64 .empty (sampleAccount 1) 100) (sampleAccount 1) nonce

def sampleSigned (nonce : UInt64) : Transaction :=
  { sampleTransfer nonce 3 [(1, -5), (2, 5)] with signature := List.replicate 64 9 }

def sampleCycleUpdate (cycle : UInt64) (tx : Transaction) : LedgerStateUpdate :=
  { sampleLedgerUpdate tx with
    partialUpdate := ⟨txToConsensusEntries sampleCycleEnv.tx tx, zeros 32, 3, 7⟩
    cycleNumber := cycle }

theorem CycleReach.single {initial store : Store} {cycle : UInt64} {history : List (List Transaction)}
    (reach : CycleReach sampleCycleEnv initial cycle store history) {later : UInt64}
    (above : cycle < later) (tx : Transaction)
    (chosen : validateAndSelectProtocolTxsForConstruction sampleCycleEnv.tx store later 1000 100
      [tx] = [tx]) :
    CycleReach sampleCycleEnv initial later
      (applyLsuToStorage sampleCycleEnv store (sampleCycleUpdate later tx)).1 (history ++ [[tx]]) :=
  @CycleReach.next _ _ _ _ _ (sampleCycleUpdate later tx) 1000 100 [tx] [tx] reach above chosen
    (by simp [sampleCycleUpdate]) (by simp)

/-- With the largest nonce stored, a transaction that carries it is selected and applied again. -/
theorem cycleReach_selected_twice :
    LawfulApplyEnv sampleCycleEnv ∧
    ∃ store, CycleReach sampleCycleEnv (sampleSaver (2 ^ 64 - 1)) 8 store
      [[sampleSigned (2 ^ 64 - 1)], [sampleSigned (2 ^ 64 - 1)]] := by
  have head : lastAppliedCycle (sampleSaver (2 ^ 64 - 1)) < 7 := by decide +kernel
  have first := CycleReach.start.single head (sampleSigned (2 ^ 64 - 1)) (by decide +kernel)
  exact ⟨sampleCycleEnv_lawful, _, first.single (by decide) (sampleSigned (2 ^ 64 - 1))
    (by decide +kernel)⟩

theorem cycleReach_selected_once_transfers :
    ∃ store, CycleReach sampleCycleEnv (sampleSaver 0) 8 store [[sampleSigned 1], [sampleSigned 2]] ∧
      getNonceU64 store (sampleAccount 1) = 2 := by
  have head : lastAppliedCycle (sampleSaver 0) < 7 := by decide +kernel
  have first := CycleReach.start.single head (sampleSigned 1) (by decide +kernel)
  have second := first.single (show (7 : UInt64) < 8 by decide) (sampleSigned 2) (by decide +kernel)
  exact ⟨_, second, (cycleReach_selected_once sampleCycleEnv sampleCycleEnv_lawful (sampleSaver 0) 8 _
    _ second).1 (sampleAccount 1) (sampleSigned 2) (by decide +kernel)⟩

end Samples

end CatalystNode
