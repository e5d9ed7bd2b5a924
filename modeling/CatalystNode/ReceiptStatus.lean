import CatalystNode.DatabaseApply
import CatalystNode.TxBatchPinning
import CatalystNode.WireTransactions

namespace CatalystNode

open ByteVector HexCodec CanonicalList FoldTrace Store

/-- A receipt that is not final goes back to pending, with the latest of what is known. -/
def TxMeta.resubmitted (txMeta : TxMeta) (tx : Transaction) (nowMs : UInt64) : TxMeta :=
  if txMeta.status = .applied then txMeta
  else { txMeta with
    status := .pending
    receivedAtMs := max txMeta.receivedAtMs nowMs
    sender := txMeta.sender.or (txSenderPubkey tx)
    nonce := max txMeta.nonce tx.core.nonce
    fees := max txMeta.fees tx.core.fees }

section Writers

variable (env : DatabaseEnv)

/-- The encodings of the database, for a node that also takes in batches. -/
def DatabaseEnv.batching (batch : TxBatchEnv) : TxBatchEnv :=
  { batch with
    tx := env.tx
    encodeTxids := env.encodeTxids
    decodeTxMeta := env.decodeTxMeta
    encodeTxMeta := env.encodeTxMeta }

def readTxMeta (store : Store) (txid : Hash) : Option TxMeta :=
  (store.getMetadata (txMetaKey txid)).bind env.decodeTxMeta

def writeTxMeta (store : Store) (txid : Hash) (txMeta : TxMeta) : Store :=
  match env.encodeTxMeta txMeta with
  | none => store
  | some bytes => store.setMetadata (txMetaKey txid) bytes

def sendRawTransactionRecords (nowMs : UInt64) (store : Store) (tx : Transaction) : Store :=
  match env.tx.bincodeTx tx with
  | none => store
  | some bytes =>
    let txid := txIdV2 env.tx.blake2b512 tx
    let store := store.setMetadata (txRawKey txid) bytes
    writeTxMeta env store txid (.received tx txid nowMs)

def persistMempoolTx (nowMs : UInt64) (store : Store) (tx : Transaction) : Store :=
  match env.tx.bincodeTx tx with
  | none => store
  | some bytes =>
    let txid := txIdV2 env.tx.blake2b512 tx
    let store := store.setMetadata (mempoolTxKey txid) bytes
    let store := store.setMetadata (txRawKey txid) bytes
    let existing := (readTxMeta env store txid).getD (.received tx txid nowMs)
    let store := writeTxMeta env store txid (existing.resubmitted tx nowMs)
    let ids := loadMempoolTxids env store
    if txid ∈ ids then store else saveMempoolTxids env store (ids ++ [txid])

end Writers

structure LawfulRecords (env : DatabaseEnv) : Prop where
  txMeta : ∀ txMeta, (env.encodeTxMeta txMeta).bind env.decodeTxMeta = some txMeta
  txids : ∀ ids, (env.encodeTxids ids).bind env.decodeTxids = some ids
  tx : ∀ tx, (env.tx.bincodeTx tx).isSome

/-- What can happen to the receipt of one transaction: a submission over RPC, its persistence when it
is gossiped, its selection for a cycle and the receipt an apply writes. -/
inductive ReceiptStep (env : DatabaseEnv) (txid : Hash) where
  | submit (tx : Transaction) (own : txIdV2 env.tx.blake2b512 tx = txid) (nowMs : UInt64)
  | persist (tx : Transaction) (own : txIdV2 env.tx.blake2b512 tx = txid) (nowMs : UInt64)
  | select (tx : Transaction) (own : txIdV2 env.tx.blake2b512 tx = txid) (cycle nowMs : UInt64)
  | apply (cycle : UInt64) (lsuHash stateRoot : Hash)
      (outcomes : Std.ExtTreeMap Bytes ApplyOutcome) (nowMs : UInt64)

section Steps

variable {env : DatabaseEnv} {txid : Hash}

def ReceiptStep.run (batch : TxBatchEnv) (store : Store) : ReceiptStep env txid → Store
  | .submit tx _ nowMs => sendRawTransactionRecords env nowMs store tx
  | .persist tx _ nowMs => persistMempoolTx env nowMs store tx
  | .select tx _ cycle nowMs =>
    updateTxMetaStatusSelected (env.batching batch) nowMs cycle store tx
  | .apply cycle lsuHash stateRoot outcomes nowMs =>
    writeReceipt (env.atTime nowMs).toApplyEnv cycle lsuHash stateRoot outcomes store txid

def ReceiptStep.receipt (outcome : Option ApplyOutcome) (before : Option TxMeta) :
    ReceiptStep env txid → TxMeta
  | .submit tx _ nowMs => .received tx txid nowMs
  | .persist tx _ nowMs => (before.getD (.received tx txid nowMs)).resubmitted tx nowMs
  | .select tx _ cycle nowMs =>
    let existing := before.getD (.received tx txid nowMs)
    if existing.status = .applied then existing
    else { existing with status := .selected, selectedCycle := some cycle }
  | .apply cycle lsuHash stateRoot _ nowMs =>
    TxMeta.withOutcome { before.getD (.pendingAt txid nowMs cycle) with
      status := .applied
      appliedCycle := some cycle
      appliedLsuHash := some lsuHash
      appliedStateRoot := some stateRoot } outcome

theorem readTxMeta_write (lawful : LawfulRecords env) (store : Store) (txMeta : TxMeta) :
    readTxMeta env (writeTxMeta env store txid txMeta) txid = some txMeta := by
  have codec := lawful.txMeta txMeta
  obtain ⟨bytes, written, read⟩ := Option.bind_eq_some_iff.mp codec
  rw [writeTxMeta, written]
  dsimp only
  rw [readTxMeta, getMetadata_setMetadata_self]
  exact read

theorem readTxMeta_set (store : Store) {key : String} (bytes : Bytes)
    (other : key ≠ txMetaKey txid) :
    readTxMeta env (store.setMetadata key bytes) txid = readTxMeta env store txid := by
  rw [readTxMeta, getMetadata_setMetadata_of_ne _ _ other, readTxMeta]

theorem readTxMeta_saveMempoolTxids (store : Store) (ids : List Hash) :
    readTxMeta env (saveMempoolTxids env store ids) txid = readTxMeta env store txid := by
  unfold saveMempoolTxids
  split
  next => rfl
  next bytes _ =>
    refine readTxMeta_set store bytes ?_
    have tag : "mempool:txids" = "mempool:txids" ++ "" := by simp
    rw [tag, txMetaKey]
    exact keyTag_ne 1 (by decide) (by decide) (by decide)

theorem txRawKey_ne_txMetaKey (id : Hash) : txRawKey id ≠ txMetaKey txid :=
  keyTag_ne 4 (by decide) (by decide) (by decide)

theorem mempoolTxKey_ne_txMetaKey (id : Hash) : mempoolTxKey id ≠ txMetaKey txid :=
  keyTag_ne 1 (by decide) (by decide) (by decide)

/-- Each of the four writers leaves the receipt that its step says. -/
theorem ReceiptStep.readTxMeta_run (lawful : LawfulRecords env) (batch : TxBatchEnv)
    (store : Store) (step : ReceiptStep env txid) :
    ∃ outcome, readTxMeta env (step.run batch store) txid =
      some (step.receipt outcome (readTxMeta env store txid)) := by
  cases step with
  | submit tx own nowMs =>
    obtain ⟨bytes, encoded⟩ := Option.isSome_iff_exists.mp (lawful.tx tx)
    refine ⟨none, ?_⟩
    simp only [run, sendRawTransactionRecords, encoded, own]
    exact readTxMeta_write lawful _ _
  | persist tx own nowMs =>
    obtain ⟨bytes, encoded⟩ := Option.isSome_iff_exists.mp (lawful.tx tx)
    refine ⟨none, ?_⟩
    simp only [run, persistMempoolTx, encoded, own, receipt]
    rw [readTxMeta_set _ _ (txRawKey_ne_txMetaKey txid),
      readTxMeta_set _ _ (mempoolTxKey_ne_txMetaKey txid)]
    split
    next => exact readTxMeta_write lawful _ _
    next =>
      rw [readTxMeta_saveMempoolTxids]
      exact readTxMeta_write lawful _ _
  | select tx own cycle nowMs =>
    have named : mempoolTxid (env.batching batch) tx = txid := own
    refine ⟨none, ?_⟩
    simp only [run, updateTxMetaStatusSelected, named]
    exact readTxMeta_write lawful store _
  | apply cycle lsuHash stateRoot outcomes nowMs =>
    exact ⟨outcomeOf (env.atTime nowMs).toApplyEnv store outcomes txid,
      readTxMeta_write lawful store _⟩

end Steps

/-- Forward in the order pending, selected, applied; a status outside of it is not compared. -/
def TxStatus.noLaterThan : TxStatus → TxStatus → Bool
  | .selected, after => after = .selected ∨ after = .applied
  | .applied, after => after = .applied
  | _, _ => true

section Forward

variable {env : DatabaseEnv} {txid : Hash}

/-- A step keeps the recorded apply, or is the apply that is recorded after it. -/
def ReceiptStep.settles (step : ReceiptStep env txid) (before after : TxMeta) : Prop :=
  (after.appliedCycle = before.appliedCycle ∧ after.appliedLsuHash = before.appliedLsuHash) ∨
    ∃ cycle lsuHash stateRoot outcomes nowMs, step = .apply cycle lsuHash stateRoot outcomes nowMs ∧
      after.appliedCycle = some cycle ∧ after.appliedLsuHash = some lsuHash

def ReceiptStep.MovesForward (batch : TxBatchEnv) (store : Store) (step : ReceiptStep env txid) :
    Prop :=
  ∀ before, readTxMeta env store txid = some before →
    ∃ after, readTxMeta env (step.run batch store) txid = some after ∧
      before.status.noLaterThan after.status ∧
      (before.status = .applied → step.settles before after)

/-- No submission over RPC meets a receipt that is selected or applied, and no persistence one that
is selected. -/
def ReceiptStep.Timely (store : Store) : ReceiptStep env txid → Prop
  | .submit _ _ _ => ∀ before, readTxMeta env store txid = some before →
    before.status ≠ .selected ∧ before.status ≠ .applied
  | .persist _ _ _ => ∀ before, readTxMeta env store txid = some before →
    before.status ≠ .selected
  | _ => True

def ReceiptStep.advances (step : ReceiptStep env txid) (outcome : Option ApplyOutcome)
    (before : TxMeta) : Prop :=
  before.status.noLaterThan (step.receipt outcome (some before)).status ∧
    (before.status = .applied → step.settles before (step.receipt outcome (some before)))

theorem submit_advances_iff {tx : Transaction} {own : txIdV2 env.tx.blake2b512 tx = txid}
    {nowMs : UInt64} {outcome : Option ApplyOutcome} {before : TxMeta} :
    (ReceiptStep.submit tx own nowMs).advances outcome before ↔
      before.status ≠ .selected ∧ before.status ≠ .applied := by
  unfold ReceiptStep.advances
  cases before.status <;> simp [ReceiptStep.receipt, TxMeta.received, TxStatus.noLaterThan]

theorem persist_advances_iff {tx : Transaction} {own : txIdV2 env.tx.blake2b512 tx = txid}
    {nowMs : UInt64} {outcome : Option ApplyOutcome} {before : TxMeta} :
    (ReceiptStep.persist tx own nowMs).advances outcome before ↔ before.status ≠ .selected := by
  unfold ReceiptStep.advances
  by_cases final : before.status = .applied
  · have kept : (ReceiptStep.persist tx own nowMs).receipt outcome (some before) = before := by
      simp [ReceiptStep.receipt, TxMeta.resubmitted, final]
    rw [kept]
    simp [final, TxStatus.noLaterThan, ReceiptStep.settles]
  · have reset : ((ReceiptStep.persist tx own nowMs).receipt outcome (some before)).status =
        .pending := by
      simp [ReceiptStep.receipt, TxMeta.resubmitted, final]
    rw [reset]
    cases status : before.status <;> simp_all [TxStatus.noLaterThan]

theorem select_advances {tx : Transaction} {own : txIdV2 env.tx.blake2b512 tx = txid}
    {cycle nowMs : UInt64} {outcome : Option ApplyOutcome} {before : TxMeta} :
    (ReceiptStep.select tx own cycle nowMs).advances outcome before := by
  unfold ReceiptStep.advances
  by_cases final : before.status = .applied
  · have kept : (ReceiptStep.select tx own cycle nowMs).receipt outcome (some before) = before := by
      simp [ReceiptStep.receipt, final]
    rw [kept]
    simp [final, TxStatus.noLaterThan, ReceiptStep.settles]
  · have chosen : ((ReceiptStep.select tx own cycle nowMs).receipt outcome (some before)).status =
        .selected := by
      simp [ReceiptStep.receipt, final]
    rw [chosen]
    cases status : before.status <;> simp_all [TxStatus.noLaterThan]

theorem apply_advances {cycle nowMs : UInt64} {lsuHash stateRoot : Hash}
    {outcomes : Std.ExtTreeMap Bytes ApplyOutcome} {outcome : Option ApplyOutcome}
    {before : TxMeta} :
    (ReceiptStep.apply cycle lsuHash stateRoot outcomes nowMs : ReceiptStep env txid).advances
      outcome before := by
  have recorded : ∀ txMeta : TxMeta, (txMeta.withOutcome outcome).status = txMeta.status ∧
      (txMeta.withOutcome outcome).appliedCycle = txMeta.appliedCycle ∧
      (txMeta.withOutcome outcome).appliedLsuHash = txMeta.appliedLsuHash := by
    intro txMeta
    cases outcome <;> exact ⟨rfl, rfl, rfl⟩
  obtain ⟨status, appliedCycle, appliedHash⟩ := recorded
    { before with
      status := .applied
      appliedCycle := some cycle
      appliedLsuHash := some lsuHash
      appliedStateRoot := some stateRoot }
  refine ⟨?_, fun _ => Or.inr ⟨cycle, lsuHash, stateRoot, outcomes, nowMs, rfl, appliedCycle,
    appliedHash⟩⟩
  simp only [ReceiptStep.receipt, Option.getD_some, status]
  cases before.status <;> rfl

/-- A step moves the stored receipt forward exactly if it is timely. -/
theorem ReceiptStep.movesForward_iff (lawful : LawfulRecords env) (batch : TxBatchEnv)
    (store : Store) (step : ReceiptStep env txid) :
    step.MovesForward batch store ↔ step.Timely store := by
  obtain ⟨outcome, written⟩ := step.readTxMeta_run lawful batch store
  have stored : step.MovesForward batch store ↔ ∀ before,
      readTxMeta env store txid = some before → step.advances outcome before := by
    refine forall₂_congr (fun before read => ?_)
    rw [written, read]
    constructor
    · rintro ⟨after, same, moved⟩
      cases Option.some.inj same
      exact moved
    · exact fun moved => ⟨_, rfl, moved⟩
  rw [stored]
  cases step with
  | submit tx own nowMs => simp only [submit_advances_iff, Timely]
  | persist tx own nowMs => simp only [persist_advances_iff, Timely]
  | select tx own cycle nowMs => exact iff_of_true (fun _ _ => select_advances) trivial
  | apply cycle lsuHash stateRoot outcomes nowMs =>
    exact iff_of_true (fun _ _ => apply_advances) trivial

end Forward

/-- In every run of the four writers on one transaction, all steps move the receipt forward exactly
if all of them are timely. -/
theorem receipts_moveForward_iff (env : DatabaseEnv) (lawful : LawfulRecords env)
    (batch : TxBatchEnv) (txid : Hash) (store : Store) (steps : List (ReceiptStep env txid)) :
    (∀ s ∈ foldSteps (ReceiptStep.run batch) store steps, s.2.MovesForward batch s.1) ↔
    ∀ s ∈ foldSteps (ReceiptStep.run batch) store steps, s.2.Timely s.1 :=
  forall₂_congr (fun s _ => s.2.movesForward_iff lawful batch s.1)

theorem exists_codec (α : Type) [Countable α] :
    ∃ (encode : α → Bytes) (decode : Bytes → Option α), ∀ a, decode (encode a) = some a := by
  classical
  obtain ⟨number, injective⟩ := exists_injective_nat α
  refine ⟨fun a => List.replicate (number a) 0, fun bytes =>
    if h : ∃ a, number a = bytes.length then some h.choose else none, fun a => ?_⟩
  have known : ∃ b, number b = (List.replicate (number a) (0 : UInt8)).length :=
    ⟨a, by rw [List.length_replicate]⟩
  refine (dif_pos known).trans (congrArg some (injective ?_))
  rw [known.choose_spec, List.length_replicate]

instance instCountableString : Countable String := Function.Injective.countable @utf8_inj

deriving instance Countable for TxStatus

deriving instance Countable for TxMeta

theorem exists_lawfulRecords : ∃ env : DatabaseEnv, LawfulRecords env ∧ env.tx = sampleTxEnv := by
  obtain ⟨encodeMeta, decodeMeta, metas⟩ := exists_codec TxMeta
  obtain ⟨encodeIds, decodeIds, ids⟩ := exists_codec (List Hash)
  refine ⟨{ sampleApplyEnv with
    encodeTxMeta := some ∘ encodeMeta
    decodeTxMeta := decodeMeta
    encodeTxids := some ∘ encodeIds
    decodeTxids := decodeIds
    checkpointEveryCycles := 0 }, ⟨?_, ?_, ?_⟩, rfl⟩
  · exact fun txMeta => metas txMeta
  · exact fun list => ids list
  · exact fun tx => rfl

theorem readTxMeta_empty {env : DatabaseEnv} {txid : Hash} :
    readTxMeta env Store.empty txid = none := by
  simp [readTxMeta, Store.empty, Store.getMetadata]

section Sample

variable (env : DatabaseEnv)

def sampleTxid : Hash := txIdV2 env.tx.blake2b512 sampleWireTx

def sampleGossip : ReceiptStep env (sampleTxid env) := .persist sampleWireTx rfl 100

def sampleSelect : ReceiptStep env (sampleTxid env) := .select sampleWireTx rfl 7 200

def sampleReceipt : ReceiptStep env (sampleTxid env) := .apply 7 (zeros 32) (zeros 32) ∅ 300

def sampleSubmit : ReceiptStep env (sampleTxid env) := .submit sampleWireTx rfl 400

def sampleOutcome (steps : List (ReceiptStep env (sampleTxid env))) : Option TxMeta :=
  readTxMeta env (steps.foldl (ReceiptStep.run sampleBatchEnv) Store.empty) (sampleTxid env)

end Sample

/-- A selected transaction that is gossiped again is pending again; an applied one that is submitted
again is pending too, and the record of its apply is gone. -/
theorem receipts_moveBack :
    ∃ (env : DatabaseEnv) (selected gossiped applied submitted : TxMeta), LawfulRecords env ∧
      sampleOutcome env [sampleSelect env] = some selected ∧
      sampleOutcome env [sampleSelect env, sampleGossip env] = some gossiped ∧
      selected.status = .selected ∧ gossiped.status = .pending ∧
      sampleOutcome env [sampleReceipt env] = some applied ∧
      sampleOutcome env [sampleReceipt env, sampleSubmit env] = some submitted ∧
      applied.status = .applied ∧ applied.appliedCycle = some 7 ∧
      submitted.status = .pending ∧ submitted.appliedCycle = none := by
  obtain ⟨env, lawful, -⟩ := exists_lawfulRecords
  have start : readTxMeta env Store.empty (sampleTxid env) = none := readTxMeta_empty
  obtain ⟨o₁, selected⟩ := (sampleSelect env).readTxMeta_run lawful sampleBatchEnv Store.empty
  obtain ⟨o₂, gossiped⟩ := (sampleGossip env).readTxMeta_run lawful sampleBatchEnv
    ((sampleSelect env).run sampleBatchEnv Store.empty)
  obtain ⟨o₃, applied⟩ := (sampleReceipt env).readTxMeta_run lawful sampleBatchEnv Store.empty
  obtain ⟨o₄, submitted⟩ := (sampleSubmit env).readTxMeta_run lawful sampleBatchEnv
    ((sampleReceipt env).run sampleBatchEnv Store.empty)
  rw [start] at selected applied
  rw [selected] at gossiped
  refine ⟨env, _, _, _, _, lawful, selected, gossiped, rfl, rfl, applied, submitted, ?_, ?_, rfl,
    rfl⟩
  · cases o₃ <;> rfl
  · cases o₃ <;> rfl

/-- Gossip, selection and apply in their usual order. -/
theorem receipts_moveForward_usual :
    ∃ env : DatabaseEnv, LawfulRecords env ∧
      ∀ s ∈ foldSteps (ReceiptStep.run sampleBatchEnv) Store.empty
        [sampleGossip env, sampleSelect env, sampleReceipt env],
        s.2.MovesForward sampleBatchEnv s.1 := by
  obtain ⟨env, lawful, -⟩ := exists_lawfulRecords
  refine ⟨env, lawful,
    (receipts_moveForward_iff env lawful sampleBatchEnv (sampleTxid env) _ _).mpr ?_⟩
  intro s listed
  simp only [foldSteps, List.mem_cons, List.not_mem_nil, or_false] at listed
  rcases listed with rfl | rfl | rfl
  · intro before read
    rw [readTxMeta_empty] at read
    cases read
  · trivial
  · trivial

end CatalystNode
