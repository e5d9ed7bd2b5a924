import CatalystNode.SelectionSteps

namespace CatalystNode

open ByteVector HexCodec MachineInt

def entriesValue (entries : List TransactionEntry) : Int :=
  (entries.map (fun e => e.amount.toInt)).sum

def nonConfidentialAmount : EntryAmount → Int
  | .nonConfidential v => v.toInt
  | .confidential _ _ => 0

def transferValue (tx : Transaction) : Int :=
  (tx.core.entries.map (fun e => nonConfidentialAmount e.amount)).sum

def encodedFee (tx : Transaction) : Int :=
  if tx.core.fees.toNat < 2 ^ 63 then tx.core.fees.toNat else 0

theorem entriesValue_feeDebitEntries (tx : Transaction) (sender : PublicKey) (sig : Bytes) :
    entriesValue (feeDebitEntries tx sender sig) = -encodedFee tx := by
  unfold feeDebitEntries encodedFee
  split
  next zero => simp [zero, entriesValue]
  next =>
    split
    next none =>
      unfold tryI64 at none
      split at none
      next => simp at none
      next large =>
        rw [if_neg large]
        simp [entriesValue]
    next fee some =>
      obtain ⟨fits, value⟩ := tryI64_eq_some some
      rw [if_pos fits]
      simp only [entriesValue, List.map_cons, List.map_nil, List.sum_cons, List.sum_nil]
      rw [toInt_neg_of_nonneg (by omega), value]
      omega

theorem entriesValue_transferEntries (sig : Bytes) (entries : List ProtocolEntry) :
    entriesValue (transferEntries sig entries) =
      (entries.map (fun e => nonConfidentialAmount e.amount)).sum := by
  induction entries with
  | nil => rfl
  | cons e entries ih =>
    rcases e with ⟨pk, v | ⟨commitment, proof⟩⟩
    · simpa [transferEntries, entriesValue, nonConfidentialAmount] using ih
    · simpa [transferEntries, entriesValue, nonConfidentialAmount] using ih

theorem transferValue_of_marker {tx : Transaction} (valid : tx.validateBasic = .ok ())
    (marker : tx.core.txType = .workerRegistration ∨ tx.core.txType = .smartContract) :
    transferValue tx = 0 := by
  have entries : validateEntries tx.core = .ok () := by
    unfold Transaction.validateBasic at valid
    split at valid
    next => simp at valid
    next ok => exact ok
  have single : ∃ e, tx.core.entries = [e] ∧ isZeroAmount e.amount = true := by
    unfold validateEntries at entries
    rcases marker with marker | marker
    all_goals
      rw [marker] at entries
      dsimp only at entries
      split at entries
      next e single =>
        split at entries
        next zero => exact ⟨e, single, zero⟩
        next => simp at entries
      next => simp at entries
  obtain ⟨e, single, zero⟩ := single
  rcases e with ⟨pk, v | ⟨commitment, proof⟩⟩
  · have none : v = 0 := by simpa [isZeroAmount] using zero
    simp [transferValue, single, nonConfidentialAmount, none]
  · simp [isZeroAmount] at zero

theorem entriesValue_markerEntries (env : TxEnv) (tx : Transaction) :
    entriesValue (markerEntries env tx) = -encodedFee tx := by
  have debit := entriesValue_feeDebitEntries tx
    ((tx.core.entries.head?.map ProtocolEntry.publicKey).getD (zeros 32)) (txBoundarySignature env tx)
  rw [entriesValue] at debit
  simp only [markerEntries, entriesValue, List.map_cons, List.sum_cons, debit]
  simp

theorem entriesValue_txToConsensusEntries {env : TxEnv} {tx : Transaction} {sender : PublicKey}
    (valid : tx.validateBasic = .ok ()) (hsender : txSenderPubkey tx = some sender) :
    entriesValue (txToConsensusEntries env tx) = transferValue tx - encodedFee tx := by
  have transfer : entriesValue (transferEntries (txBoundarySignature env tx) tx.core.entries ++
      (txSenderPubkey tx).elim [] (fun sender =>
        feeDebitEntries tx sender (txBoundarySignature env tx))) =
      transferValue tx - encodedFee tx := by
    have moved := entriesValue_transferEntries (txBoundarySignature env tx) tx.core.entries
    have debit := entriesValue_feeDebitEntries tx sender (txBoundarySignature env tx)
    rw [entriesValue] at moved debit
    rw [hsender, Option.elim_some, entriesValue, List.map_append, List.sum_append, moved, debit,
      transferValue]
    omega
  unfold txToConsensusEntries
  split
  next type => rw [entriesValue_markerEntries, transferValue_of_marker valid (Or.inl type)]; omega
  next type => rw [entriesValue_markerEntries, transferValue_of_marker valid (Or.inr type)]; omega
  next => exact transfer

/-- A selected transaction creates no value exactly when its listed amounts sum to at most its fee;
nothing in the selection checks that they do. -/
theorem selected_entriesValue_nonpos_iff (env : TxEnv) (store : Store) (cycle nowMs : UInt64)
    (maxEntries : Nat) (txs : List Transaction) :
    ∀ tx ∈ validateAndSelectProtocolTxsForConstruction env store cycle nowMs maxEntries txs,
      entriesValue (txToConsensusEntries env tx) ≤ 0 ↔ transferValue tx ≤ encodedFee tx := by
  apply forall_selected
  intro s tx s' choice facts
  have checks := facts.checks
  simp only [passesFormationChecks, decide_eq_true_eq] at checks
  rw [entriesValue_txToConsensusEntries checks.1 facts.sender]
  omega

def sampleTxEnv : TxEnv where
  blake2b512 := checksum
  bincodeTx tx := some (encodeU64 tx.core.nonce)
  decodeEvmTxKind _ := none
  encodeEvmTxPayload _ := none
  verifyTxSignatureWithDomain _ _ _ := true

def sampleAccount (n : UInt8) : PublicKey := padTo 32 [n]

def sampleTransfer (nonce fees : UInt64) (amounts : List (UInt8 × Int64)) : Transaction where
  core := {
    txType := .nonConfidentialTransfer
    entries := amounts.map (fun a => ⟨sampleAccount a.1, .nonConfidential a.2⟩)
    nonce
    lockTime := 0
    fees
    data := [] }
  signatureScheme := 0
  signature := [9]
  senderPubkey := none
  timestamp := 1

def sampleFunds : Store := setBalanceI64 .empty (sampleAccount 1) 10

/-- A debit of one and a credit of a thousand are selected together. -/
theorem selected_entriesValue_minting :
    sampleTransfer 1 3 [(1, -1), (2, 1000)] ∈ validateAndSelectProtocolTxsForConstruction sampleTxEnv
        sampleFunds 7 1000 100 [sampleTransfer 1 3 [(1, -1), (2, 1000)]] ∧
      0 < entriesValue (txToConsensusEntries sampleTxEnv
        (sampleTransfer 1 3 [(1, -1), (2, 1000)])) := by
  decide +kernel

theorem selected_entriesValue_nonpos_iff_transfer :
    entriesValue (txToConsensusEntries sampleTxEnv (sampleTransfer 1 3 [(1, -5), (2, 5)])) ≤ 0 :=
  (selected_entriesValue_nonpos_iff sampleTxEnv sampleFunds 7 1000 100
    [sampleTransfer 1 3 [(1, -5), (2, 5)]] (sampleTransfer 1 3 [(1, -5), (2, 5)])
    (by decide +kernel)).mpr (by decide +kernel)

end CatalystNode
