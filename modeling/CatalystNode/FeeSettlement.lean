import CatalystNode.AccountPayments
import CatalystNode.Reselection
import CatalystNode.SenderAttribution

namespace CatalystNode

open ByteVector HexCodec MachineInt Grouping FoldTrace

def Credits.available (credits : Credits) : Nat :=
  min credits.balance.toNat
    (tokenomicsFeeCreditsDailySpendCapAtoms.toNat - credits.spentToday.toNat)

def simulatedCredits (out : List SelectedTx) (pk : PublicKey) : Nat :=
  (out.map (fun sel => if txSenderPubkey sel.tx = some pk then sel.creditSpend.toNat else 0)).sum

def settledCredits (env : ApplyEnv) (store : Store) (lsu : LedgerStateUpdate) (pk : PublicKey) : Int :=
  (getFeeCreditBalanceU64 (afterNonces env store lsu) pk).toNat -
    (getFeeCreditBalanceU64 (afterSettlement env store lsu) pk).toNat

def declaredFees (selected : List Transaction) (pk : PublicKey) : Nat :=
  (selected.map (fun tx => if txSenderPubkey tx = some pk then tx.core.fees.toNat else 0)).sum

def takenFees (env : TxEnv) (selected : List Transaction) (pk : PublicKey) : Nat :=
  (selected.map (fun tx => if txSenderPubkey tx = some pk then
    (groupFee (txToConsensusEntries env tx)).toNat else 0)).sum

section Spending

theorem Credits.toNat_spendable (credits : Credits) (fee : UInt64) :
    (credits.spendable fee).toNat = min fee.toNat credits.available := by
  unfold Credits.spendable Credits.available
  have zero : (0 : UInt64).toNat = 0 := rfl
  split
  next nothing =>
    rcases nothing with free | empty
    · rw [free]
      omega
    · rw [empty]
      omega
  next =>
    rw [toNat_min, toNat_min, toNat_saturatingSubU64]
    omega

theorem Credits.spend_available (credits : Credits) {amount : UInt64}
    (within : amount.toNat ≤ credits.available) :
    (credits.spend amount).balance.toNat = credits.balance.toNat - amount.toNat ∧
      (credits.spend amount).spentToday.toNat = credits.spentToday.toNat + amount.toNat ∧
      (credits.spend amount).available = credits.available - amount.toNat := by
  unfold Credits.available at within
  have cap : tokenomicsFeeCreditsDailySpendCapAtoms.toNat = 300 := rfl
  have balance : (credits.spend amount).balance.toNat = credits.balance.toNat - amount.toNat :=
    toNat_saturatingSubU64 _ _
  have spent : (credits.spend amount).spentToday.toNat =
      min (2 ^ 64 - 1) (credits.spentToday.toNat + amount.toNat) := toNat_saturatingAddU64 _ _
  have bound := credits.spentToday.toNat_lt
  refine ⟨balance, by omega, ?_⟩
  unfold Credits.available
  rw [balance, spent]
  omega

end Spending

section Settlement

def chargedFees (groups : List (List TransactionEntry)) (pk : PublicKey) : Nat :=
  (groups.map (fun entries => if groupSender entries = some pk then
    (groupFee entries).toNat else 0)).sum

theorem creditsOf_foldl_settleStep (cycle : UInt64) (groups : List (List TransactionEntry))
    (store : Store) (pk : PublicKey) :
    (creditsOf (groups.foldl (settleStep cycle) store) cycle pk).balance.toNat =
        (creditsOf store cycle pk).balance.toNat -
          min (chargedFees groups pk) (creditsOf store cycle pk).available ∧
      (creditsOf (groups.foldl (settleStep cycle) store) cycle pk).spentToday.toNat =
        (creditsOf store cycle pk).spentToday.toNat +
          min (chargedFees groups pk) (creditsOf store cycle pk).available := by
  induction groups generalizing store with
  | nil => simp [chargedFees]
  | cons entries groups ih =>
    have credits := (settleStep_effect cycle store entries pk).2
    obtain ⟨balance, spent⟩ := ih (settleStep cycle store entries)
    rw [List.foldl_cons, balance, spent, credits]
    simp only [chargedFees, List.map_cons, List.sum_cons]
    by_cases own : groupSender entries = some pk
    · rw [if_pos own, if_pos own]
      have amount := (creditsOf store cycle pk).toNat_spendable (groupFee entries)
      obtain ⟨held, used, left⟩ := (creditsOf store cycle pk).spend_available
        (amount.trans_le (min_le_right _ _))
      rw [held, used, left, amount]
      omega
    · rw [if_neg own, if_neg own, Nat.zero_add]
      exact ⟨rfl, rfl⟩

theorem groupFee_perm {entries group : List TransactionEntry} (shuffled : group.Perm entries) :
    groupFee group = groupFee entries := by
  have net : groupNet group = groupNet entries := (shuffled.map _).sum_eq
  rw [groupFee, groupFee, net]

theorem exists_debit_of_groupFee {entries : List TransactionEntry} (charged : groupFee entries ≠ 0) :
    ∃ e ∈ entries, e.amount < 0 := by
  by_contra none
  apply charged
  have gains : 0 ≤ groupNet entries := by
    apply List.sum_nonneg
    intro v hv
    obtain ⟨e, he, rfl⟩ := List.mem_map.mp hv
    by_contra debit
    exact none ⟨e, he, Int64.lt_iff_toInt_lt.mpr (not_le.mp debit)⟩
  rw [groupFee, if_pos gains]

variable {env : TxEnv} {tx : Transaction} {sender : PublicKey}

theorem labelled_txToConsensusEntries (env : TxEnv) (tx : Transaction) :
    ∀ e ∈ txToConsensusEntries env tx, e.signature = txBoundarySignature env tx := by
  have marker : ∀ e ∈ markerEntries env tx, e.signature = txBoundarySignature env tx := by
    intro e he
    rcases List.mem_cons.mp he with rfl | fee
    · rfl
    · exact (mem_feeDebitEntries fee).2
  have transfer : ∀ e ∈ transferEntries (txBoundarySignature env tx) tx.core.entries ++
      (txSenderPubkey tx).elim [] (fun sender =>
        feeDebitEntries tx sender (txBoundarySignature env tx)),
      e.signature = txBoundarySignature env tx := by
    intro e he
    rcases List.mem_append.mp he with entry | fee
    · exact signature_of_mem_transferEntries entry
    · cases sent : txSenderPubkey tx with
      | none => simp [sent] at fee
      | some sender =>
        rw [sent] at fee
        exact (mem_feeDebitEntries fee).2
  unfold txToConsensusEntries
  split
  next => exact marker
  next => exact marker
  next => exact transfer

theorem debits_txToConsensusEntries (sent : txSenderPubkey tx = some sender) :
    txToConsensusEntries env tx ≠ [] ∧
      ∀ e ∈ txToConsensusEntries env tx, e.amount < 0 → e.publicKey = sender := by
  have marker : tx.core.entries.head?.map ProtocolEntry.publicKey = some sender →
      markerEntries env tx ≠ [] ∧ ∀ e ∈ markerEntries env tx, e.amount < 0 → e.publicKey = sender := by
    intro own
    refine ⟨List.cons_ne_nil _ _, fun e he _ => ?_⟩
    rw [markerEntries, own, Option.getD_some] at he
    rcases List.mem_cons.mp he with rfl | fee
    · rfl
    · exact (mem_feeDebitEntries fee).1
  have transfer : debitedAccount none tx.core.entries = some sender →
      transferEntries (txBoundarySignature env tx) tx.core.entries ++
          (txSenderPubkey tx).elim [] (fun sender =>
            feeDebitEntries tx sender (txBoundarySignature env tx)) ≠ [] ∧
        ∀ e ∈ transferEntries (txBoundarySignature env tx) tx.core.entries ++
          (txSenderPubkey tx).elim [] (fun sender =>
            feeDebitEntries tx sender (txBoundarySignature env tx)),
          e.amount < 0 → e.publicKey = sender := by
    intro debited
    rw [sent]
    have attributed := @attributed_transfer tx sender _ (txBoundarySignature env tx) debited
    exact ⟨attributed.ne_nil, attributed.debits⟩
  cases kind : tx.core.txType with
  | workerRegistration =>
    rw [txSenderPubkey, kind] at sent
    simp only [txToConsensusEntries, kind]
    exact marker sent
  | smartContract =>
    rw [txSenderPubkey, kind] at sent
    simp only [txToConsensusEntries, kind]
    exact marker sent
  | _ =>
    simp only [txToConsensusEntries, kind]
    rw [txSenderPubkey, kind] at sent
    exact transfer sent

/-- The groups of an update made of transactions charge what the transactions take. -/
theorem chargedFees_groupBySig {selected : List Transaction} {entries : List TransactionEntry}
    (known : ∀ tx ∈ selected, ∃ sender, txSenderPubkey tx = some sender)
    (shuffled : entries.Perm (selected.flatMap (txToConsensusEntries env)))
    (distinct : (selected.map (txBoundarySignature env)).Nodup) (pk : PublicKey) :
    chargedFees (groupBySig entries) pk = takenFees env selected pk := by
  have filled : ∀ tx ∈ selected, txToConsensusEntries env tx ≠ [] := by
    intro tx htx
    obtain ⟨sender, sent⟩ := known tx htx
    exact (debits_txToConsensusEntries sent).1
  obtain ⟨grouped, parts⟩ := groups_perm shuffled
    (fun tx _ => labelled_txToConsensusEntries env tx) filled distinct
  have charges := (grouped.map (fun entries => if groupSender entries = some pk then
    (groupFee entries).toNat else 0)).sum_eq
  refine Eq.trans charges ?_
  rw [takenFees, List.map_map]
  congr 1
  apply List.map_congr_left
  intro tx htx
  obtain ⟨sender, sent⟩ := known tx htx
  have debits := (@debits_txToConsensusEntries env tx sender sent).2
  have part := parts tx htx
  rw [Function.comp_apply, groupFee_perm part, sent]
  by_cases free : groupFee (txToConsensusEntries env tx) = 0
  · rw [free]
    simp
  · obtain ⟨e, he, debit⟩ := exists_debit_of_groupFee free
    have found : groupSender (entries.filter (fun e => e.signature = txBoundarySignature env tx)) =
        some sender := by
      apply groupSender_eq_some
      · exact fun e he debit => debits e (part.mem_iff.mp he) debit
      · exact Or.inl ⟨e, part.mem_iff.mpr he, debit⟩
    rw [found]

end Settlement

section Simulation

variable {env : TxEnv} {store : Store} {cycle nowMs : UInt64} {maxEntries : Nat}

def SelectionView.credits (v : SelectionView) (pk : PublicKey) : Credits := ⟨v.credit pk, v.spent pk⟩

theorem toNat_creditSpend (v : SelectionView) (sender : PublicKey) (fees : UInt64) :
    (v.creditSpend sender fees).toNat = min fees.toNat (v.credits sender).available := by
  rw [SelectionView.creditSpend, toNat_min, toNat_min, toNat_saturatingSubU64]
  unfold Credits.available SelectionView.credits
  dsimp only
  omega

/-- What a selection charges in credits: the fee, as far as the credits go. -/
theorem toNat_charged (v : SelectionView) (sender : PublicKey) (fees : UInt64) :
    (saturatingSubU64 fees (v.feeDue sender fees)).toNat =
      min fees.toNat (v.credits sender).available := by
  have spend := toNat_creditSpend v sender fees
  unfold SelectionView.feeDue
  rw [toNat_saturatingSubU64]
  split
  next =>
    rw [toNat_saturatingSubU64]
    omega
  next free =>
    have none : ¬0 < fees := fun due => free ⟨rfl, due⟩
    have zero : fees.toNat = 0 := by
      have small := UInt64.le_iff_toNat_le.mp (UInt64.not_lt.mp none)
      have nothing : (0 : UInt64).toNat = 0 := rfl
      omega
    omega

theorem credits_commit (v : SelectionView) (tx : Transaction) (choice : Choice) (pk : PublicKey) :
    (v.commit store tx choice).credits pk = if choice.sender = pk then
      (v.credits pk).spend (saturatingSubU64 tx.core.fees choice.feeDue) else v.credits pk := by
  by_cases charged : choice.feeDue < tx.core.fees
  · by_cases own : choice.sender = pk
    · subst own
      simp [SelectionView.credits, SelectionView.commit, tokenomicsFeeCreditsEnabled, charged,
        Credits.spend]
    · have other : pk ≠ choice.sender := fun same => own same.symm
      simp [SelectionView.credits, SelectionView.commit, tokenomicsFeeCreditsEnabled, charged, own,
        other]
  · have nothing : saturatingSubU64 tx.core.fees choice.feeDue = 0 := by
      have small := UInt64.le_iff_toNat_le.mp (UInt64.not_lt.mp charged)
      apply UInt64.toNat_inj.mp
      rw [toNat_saturatingSubU64]
      have zero : (0 : UInt64).toNat = 0 := rfl
      omega
    rw [nothing, Credits.spend_zero, ite_self]
    simp [SelectionView.credits, SelectionView.commit, charged]

structure CreditsTracked (store : Store) (cycle : UInt64) (pk : PublicKey) (s : Selection) : Prop where
  available : ((s.view store cycle).credits pk).available + simulatedCredits s.out pk =
    (creditsOf store cycle pk).available
  charged : simulatedCredits s.out pk =
    min (declaredFees (s.out.map SelectedTx.tx) pk) (creditsOf store cycle pk).available

theorem creditsTracked_selectStep {pk : PublicKey} {s : Selection} {tx : Transaction}
    (before : CreditsTracked store cycle pk s) :
    CreditsTracked store cycle pk (selectStep env store cycle nowMs maxEntries s tx) := by
  have unmoved := @view_consider env store cycle nowMs maxEntries s tx
  unfold selectStep
  rcases considered : consider env store cycle nowMs maxEntries s tx with ⟨s', _ | choice⟩
  · rw [considered] at unmoved
    have out := consider_out considered
    dsimp only at unmoved ⊢
    exact ⟨by rw [out, unmoved]; exact before.available, by rw [out]; exact before.charged⟩
  · have facts := consider_some considered
    have view := view_commit considered
    have due : choice.feeDue = (s.view store cycle).feeDue choice.sender tx.core.fees := by
      obtain ⟨s₁, same, paid⟩ := consider_due considered
      rw [← same, ← feeDueTokens_snd, paid]
    have amount := toNat_charged (s.view store cycle) choice.sender tx.core.fees
    rw [← due] at amount
    have out := out_commit considered
    have simulated : simulatedCredits (s'.commit tx choice).out pk = simulatedCredits s.out pk +
        if choice.sender = pk then (saturatingSubU64 tx.core.fees choice.feeDue).toNat else 0 := by
      simp [out, simulatedCredits, facts.sender]
    have declared : declaredFees ((s'.commit tx choice).out.map SelectedTx.tx) pk =
        declaredFees (s.out.map SelectedTx.tx) pk +
          if choice.sender = pk then tx.core.fees.toNat else 0 := by
      simp [out, declaredFees, facts.sender]
    obtain ⟨available, charged⟩ := before
    dsimp only
    by_cases own : choice.sender = pk
    · subst own
      have left := ((s.view store cycle).credits choice.sender).spend_available
        (amount.trans_le (min_le_right _ _))
      rw [if_pos rfl] at simulated declared
      constructor
      · rw [view, credits_commit, if_pos rfl, left.2.2, simulated]
        omega
      · rw [simulated, declared]
        omega
    · rw [if_neg own] at simulated declared
      constructor
      · rw [view, credits_commit, if_neg own, simulated]
        exact available
      · rw [simulated, declared]
        exact charged

/-- A selection charges an account the sum of its fees, as far as its credits go. -/
theorem simulatedCredits_selectionRun (txs : List Transaction) (pk : PublicKey) :
    simulatedCredits (selectionRun env store cycle nowMs maxEntries txs).out pk =
      min (declaredFees (validateAndSelectProtocolTxsForConstruction env store cycle nowMs maxEntries
        txs) pk) (creditsOf store cycle pk).available := by
  have view : (Selection.start.view store cycle).credits pk = creditsOf store cycle pk := rfl
  have start : CreditsTracked store cycle pk .start := by
    constructor
    · rw [view]
      rfl
    · have nothing : declaredFees (Selection.start.out.map SelectedTx.tx) pk = 0 := rfl
      rw [nothing, Nat.zero_min]
      rfl
  have run : CreditsTracked store cycle pk (selectionRun env store cycle nowMs maxEntries txs) :=
    foldl_invariant start (fun _ _ _ before => creditsTracked_selectStep before)
  exact run.charged

end Simulation

/-- The settlement of an update made of selected transactions spends the fee credits that the selection
charged exactly if, for every account, the declared fees and what the entries take out of the ledger
agree as far as the credits go. -/
theorem settledCredits_eq_simulated_iff (env : ApplyEnv) (store : Store) (nowMs : UInt64)
    (maxEntries : Nat) (txs : List Transaction) (lsu : LedgerStateUpdate)
    (contracts : ContractsContained env.runtime lsu.partialUpdate.transactionEntries)
    (shuffled : lsu.partialUpdate.transactionEntries.Perm
      ((validateAndSelectProtocolTxsForConstruction env.tx store lsu.cycleNumber nowMs maxEntries
        txs).flatMap (txToConsensusEntries env.tx)))
    (distinct : ((validateAndSelectProtocolTxsForConstruction env.tx store lsu.cycleNumber nowMs
      maxEntries txs).map (txBoundarySignature env.tx)).Nodup) :
    (∀ pk, settledCredits env store lsu pk = simulatedCredits
      (selectionRun env.tx store lsu.cycleNumber nowMs maxEntries txs).out pk) ↔
    ∀ pk, min (takenFees env.tx (validateAndSelectProtocolTxsForConstruction env.tx store
        lsu.cycleNumber nowMs maxEntries txs) pk) (creditsOf store lsu.cycleNumber pk).available =
      min (declaredFees (validateAndSelectProtocolTxsForConstruction env.tx store lsu.cycleNumber nowMs
        maxEntries txs) pk) (creditsOf store lsu.cycleNumber pk).available := by
  refine forall_congr' fun pk => ?_
  have known : ∀ tx ∈ validateAndSelectProtocolTxsForConstruction env.tx store lsu.cycleNumber nowMs
      maxEntries txs, ∃ sender, txSenderPubkey tx = some sender :=
    forall_selected (fun s tx s' choice facts => ⟨choice.sender, facts.sender⟩)
  have same : creditsOf (afterNonces env store lsu) lsu.cycleNumber pk =
      creditsOf store lsu.cycleNumber pk := creditsOf_afterNonces pk contracts _
  have settled : (getFeeCreditBalanceU64 (afterSettlement env store lsu) pk).toNat =
      (getFeeCreditBalanceU64 (afterNonces env store lsu) pk).toNat -
        min (takenFees env.tx (validateAndSelectProtocolTxsForConstruction env.tx store
          lsu.cycleNumber nowMs maxEntries txs) pk) (creditsOf store lsu.cycleNumber pk).available := by
    rw [← chargedFees_groupBySig known shuffled distinct, ← same]
    exact (creditsOf_foldl_settleStep lsu.cycleNumber
      (groupBySig lsu.partialUpdate.transactionEntries) (afterNonces env store lsu) pk).1
  have within : (creditsOf store lsu.cycleNumber pk).available ≤
      (getFeeCreditBalanceU64 (afterNonces env store lsu) pk).toNat := by
    rw [← same]
    exact min_le_left _ _
  rw [settledCredits, settled, simulatedCredits_selectionRun]
  omega

section Samples

def sampleCredited : Store := setFeeCreditBalanceU64 sampleFunds (sampleAccount 1) 100

/-- A transfer of ten that pays out five, with a fee of three: the selection charges three credits, the
settlement takes eight. -/
theorem settledCredits_burned :
    validateAndSelectProtocolTxsForConstruction sampleTxEnv sampleCredited 7 1000 100
      [sampleTransfer 1 3 [(1, -10), (2, 5)]] = [sampleTransfer 1 3 [(1, -10), (2, 5)]] ∧
    (sampleLedgerUpdate (sampleTransfer 1 3 [(1, -10), (2, 5)])).partialUpdate.transactionEntries =
      txToConsensusEntries sampleTxEnv (sampleTransfer 1 3 [(1, -10), (2, 5)]) ∧
    settledCredits sampleApplyEnv sampleCredited
      (sampleLedgerUpdate (sampleTransfer 1 3 [(1, -10), (2, 5)])) (sampleAccount 1) = 8 ∧
    simulatedCredits (selectionRun sampleTxEnv sampleCredited 7 1000 100
      [sampleTransfer 1 3 [(1, -10), (2, 5)]]).out (sampleAccount 1) = 3 := by
  decide +kernel

theorem settledCredits_eq_simulated_iff_transfer :
    settledCredits sampleApplyEnv sampleCredited
        (sampleLedgerUpdate (sampleTransfer 1 3 [(1, -5), (2, 5)])) (sampleAccount 1) =
      simulatedCredits (selectionRun sampleTxEnv sampleCredited 7 1000 100
        [sampleTransfer 1 3 [(1, -5), (2, 5)]]).out (sampleAccount 1) := by
  have selected : validateAndSelectProtocolTxsForConstruction sampleTxEnv sampleCredited 7 1000 100
      [sampleTransfer 1 3 [(1, -5), (2, 5)]] = [sampleTransfer 1 3 [(1, -5), (2, 5)]] := by
    decide +kernel
  have same : (sampleLedgerUpdate (sampleTransfer 1 3 [(1, -5), (2, 5)])).cycleNumber = 7 := rfl
  have tx : sampleApplyEnv.tx = sampleTxEnv := rfl
  refine (settledCredits_eq_simulated_iff sampleApplyEnv sampleCredited 1000 100
    [sampleTransfer 1 3 [(1, -5), (2, 5)]]
    (sampleLedgerUpdate (sampleTransfer 1 3 [(1, -5), (2, 5)]))
    (fun _ _ _ _ _ _ _ _ => .refl _ _) ?_ ?_).mpr (fun pk => ?_) (sampleAccount 1)
  · rw [same, tx, selected, List.flatMap_singleton]
    exact List.Perm.refl _
  · rw [same, tx, selected]
    exact List.nodup_singleton _
  · have fees : groupFee (txToConsensusEntries sampleTxEnv (sampleTransfer 1 3 [(1, -5), (2, 5)])) =
        3 := by decide +kernel
    have taken : takenFees sampleTxEnv [sampleTransfer 1 3 [(1, -5), (2, 5)]] pk =
        declaredFees [sampleTransfer 1 3 [(1, -5), (2, 5)]] pk := by
      simp only [takenFees, declaredFees, List.map_cons, List.map_nil, fees]
      rfl
    rw [same, tx, selected, taken]

end Samples

end CatalystNode
