import CatalystNode.SelectionNonces
import CatalystNode.TrustedApply
import CatalystNode.Grouping

namespace CatalystNode

open ByteVector HexCodec MachineInt Grouping

/-- What the signature check and the encoding of contract calls guarantee: accepted signatures have 64
bytes, and every call can be encoded. -/
structure LawfulTxEnv (env : TxEnv) : Prop where
  signature : ∀ tx chainId genesis, env.verifyTxSignatureWithDomain tx chainId genesis = true →
    tx.signature.length = 64
  payload : ∀ payload, (env.encodeEvmTxPayload payload).isSome

section Groups

variable {known : Option PublicKey} {entries : List TransactionEntry} {pk : PublicKey}

theorem debitedKey_eq_some_iff : debitedKey known entries = some pk ↔
    (known = none ∨ known = some pk) ∧ (∀ e ∈ entries, e.amount < 0 → e.publicKey = pk) ∧
      (known = some pk ∨ ∃ e ∈ entries, e.amount < 0) := by
  induction entries generalizing known with
  | nil =>
    simp only [debitedKey, List.not_mem_nil, false_and, exists_false, or_false, false_imp_iff,
      implies_true, true_and]
    exact ⟨fun h => ⟨Or.inr h, h⟩, And.right⟩
  | cons e entries ih =>
    simp only [debitedKey, List.forall_mem_cons, List.exists_mem_cons_iff]
    split
    next debit =>
      simp only [debit, true_imp_iff, true_or, or_true, and_true]
      cases known with
      | none =>
        dsimp only
        rw [ih]
        simp only [reduceCtorEq, false_or, true_or, true_and, Option.some.injEq]
        tauto
      | some other =>
        dsimp only
        simp only [reduceCtorEq, false_or, Option.some.injEq]
        split
        next same =>
          subst same
          rw [ih]
          simp only [reduceCtorEq, false_or, Option.some.injEq]
          tauto
        next different =>
          simp only [reduceCtorEq, false_iff]
          rintro ⟨rfl, here, -⟩
          exact different here.symm
    next credit =>
      rw [ih]
      simp only [credit, false_imp_iff, true_and, false_or]

/-- A group with one debited account is that account's; so is a marked group with entries of one
account. The order of the entries does not matter. -/
theorem groupSender_eq_some (debits : ∀ e ∈ entries, e.amount < 0 → e.publicKey = pk)
    (named : (∃ e ∈ entries, e.amount < 0) ∨
      (∃ e ∈ entries, isWorkerRegMarker e.signature = true ∨ isEvmMarker e.signature = true) ∧
        ∀ e ∈ entries, e.publicKey = pk) :
    groupSender entries = some pk := by
  unfold groupSender
  by_cases debited : ∃ e ∈ entries, e.amount < 0
  · rw [debitedKey_eq_some_iff.mpr ⟨Or.inl rfl, debits, Or.inr debited⟩, Option.some_or]
  · -- without a debit the markers name the sender, registrations first
    obtain ⟨⟨marked, member, marker⟩, own⟩ := named.resolve_left debited
    have found : ∀ p : TransactionEntry → Bool, ∀ e, entries.find? p = some e → e.publicKey = pk :=
      fun p e h => own e (List.mem_of_find?_eq_some h)
    have nobody : debitedKey none entries = none := by
      cases key : debitedKey none entries with
      | none => rfl
      | some other =>
        exact absurd ((debitedKey_eq_some_iff.mp key).2.2.resolve_left (by simp)) debited
    rw [nobody, Option.none_or]
    cases worker : entries.find? (fun e => isWorkerRegMarker e.signature) with
    | some e => rw [Option.map_some, found _ e worker, Option.some_or]
    | none =>
      rw [Option.map_none, Option.none_or]
      cases evm : entries.find? (fun e => isEvmMarker e.signature) with
      | some e => rw [Option.map_some, found _ e evm]
      | none =>
        rw [List.find?_eq_none] at worker evm
        rcases marker with isWorker | isEvm
        · exact absurd isWorker (worker marked member)
        · exact absurd isEvm (evm marked member)

end Groups

section Entries

variable {env : TxEnv} {tx : Transaction} {sender : PublicKey}

theorem mem_feeDebitEntries {sig : Bytes} {e : TransactionEntry}
    (h : e ∈ feeDebitEntries tx sender sig) : e.publicKey = sender ∧ e.signature = sig := by
  unfold feeDebitEntries at h
  split at h
  next => simp at h
  next =>
    split at h
    next => simp at h
    next =>
      cases List.mem_singleton.mp h
      exact ⟨rfl, rfl⟩

theorem debitedAccount_eq_debitedKey (known : Option PublicKey) (sig : Bytes)
    (entries : List ProtocolEntry) :
    debitedAccount known entries = debitedKey known (transferEntries sig entries) := by
  induction entries generalizing known with
  | nil => rfl
  | cons e entries ih =>
    rcases e with ⟨pk, v | ⟨commitment, proof⟩⟩
    · have listed : transferEntries sig (⟨pk, .nonConfidential v⟩ :: entries) =
          ⟨pk, v, sig⟩ :: transferEntries sig entries := rfl
      rw [listed]
      cases known with
      | none => simp only [debitedAccount, debitedKey, ih]
      | some other => simp only [debitedAccount, debitedKey, ih]
    · have skipped : transferEntries sig (⟨pk, .confidential commitment proof⟩ :: entries) =
          transferEntries sig entries := rfl
      rw [skipped, ← ih]
      rfl

theorem signature_of_mem_transferEntries {sig : Bytes} {entries : List ProtocolEntry}
    {e : TransactionEntry} (h : e ∈ transferEntries sig entries) : e.signature = sig := by
  obtain ⟨p, -, made⟩ := List.mem_filterMap.mp h
  split at made
  next =>
    cases made
    rfl
  next => simp at made

structure Attributed (entries : List TransactionEntry) (label : Bytes) (sender : PublicKey) : Prop where
  labelled : ∀ e ∈ entries, e.signature = label
  debits : ∀ e ∈ entries, e.amount < 0 → e.publicKey = sender
  named : (∃ e ∈ entries, e.amount < 0) ∨
    (∃ e ∈ entries, isWorkerRegMarker e.signature = true ∨ isEvmMarker e.signature = true) ∧
      ∀ e ∈ entries, e.publicKey = sender

theorem Attributed.ne_nil {entries : List TransactionEntry} {label : Bytes}
    (attributed : Attributed entries label sender) : entries ≠ [] := by
  rintro rfl
  simpa using attributed.named

theorem Attributed.groupSender_of_perm {entries group : List TransactionEntry} {label : Bytes}
    (attributed : Attributed entries label sender) (shuffled : group.Perm entries) :
    groupSender group = some sender := by
  have members : ∀ e, e ∈ group ↔ e ∈ entries := fun e => shuffled.mem_iff
  apply groupSender_eq_some
  · simpa only [members] using attributed.debits
  · simpa only [members] using attributed.named

theorem attributed_markerEntries (own : tx.core.entries.head?.map ProtocolEntry.publicKey = some sender)
    (marker : isWorkerRegMarker (txBoundarySignature env tx) = true ∨
      isEvmMarker (txBoundarySignature env tx) = true) :
    Attributed (markerEntries env tx) (txBoundarySignature env tx) sender := by
  have members : ∀ e ∈ markerEntries env tx,
      e.publicKey = sender ∧ e.signature = txBoundarySignature env tx := by
    intro e he
    rw [markerEntries, own, Option.getD_some] at he
    rcases List.mem_cons.mp he with rfl | fee
    · exact ⟨rfl, rfl⟩
    · exact mem_feeDebitEntries fee
  exact ⟨fun e he => (members e he).2, fun e he _ => (members e he).1,
    Or.inr ⟨⟨_, List.mem_cons_self, marker⟩, fun e he => (members e he).1⟩⟩

theorem attributed_transfer {entries : List ProtocolEntry} {sig : Bytes}
    (debited : debitedAccount none entries = some sender) :
    Attributed (transferEntries sig entries ++ feeDebitEntries tx sender sig) sig sender := by
  rw [debitedAccount_eq_debitedKey none sig, debitedKey_eq_some_iff] at debited
  obtain ⟨-, debits, some⟩ := debited
  obtain ⟨e, he, debit⟩ := some.resolve_left (by simp)
  refine ⟨fun e he => ?_, fun e he debit => ?_, Or.inl ⟨e, List.mem_append_left _ he, debit⟩⟩
  · rcases List.mem_append.mp he with entry | fee
    · exact signature_of_mem_transferEntries entry
    · exact (mem_feeDebitEntries fee).2
  · rcases List.mem_append.mp he with entry | fee
    · exact debits e entry debit
    · exact (mem_feeDebitEntries fee).1

theorem isEvmMarker_encodeEvmMarker (lawful : LawfulTxEnv env) (payload : EvmTxPayload)
    {sig : Bytes} (length : sig.length = 64) :
    isEvmMarker ((encodeEvmMarker env payload sig).getD sig) = true := by
  obtain ⟨p, encoded⟩ := Option.isSome_iff_exists.mp (lawful.payload payload)
  rw [encodeEvmMarker, if_neg (by simpa using length), encoded, Option.map_some, Option.getD_some,
    isEvmMarker, List.isPrefixOf_iff_prefix, List.append_assoc, List.append_assoc]
  exact List.prefix_append _ _

/-- The apply finds the sender of a transaction with an accepted signature where the selection
does. -/
theorem attributed_txToConsensusEntries (lawful : LawfulTxEnv env)
    (sent : txSenderPubkey tx = some sender) (length : tx.signature.length = 64) :
    Attributed (txToConsensusEntries env tx) (txBoundarySignature env tx) sender := by
  have transfer : debitedAccount none tx.core.entries = some sender →
      Attributed (transferEntries tx.signature tx.core.entries ++
        (txSenderPubkey tx).elim [] (fun sender => feeDebitEntries tx sender tx.signature))
        tx.signature sender := by
    intro debited
    rw [sent]
    exact attributed_transfer debited
  cases kind : tx.core.txType with
  | workerRegistration =>
    have own : tx.core.entries.head?.map ProtocolEntry.publicKey = some sender := by
      rwa [txSenderPubkey, kind] at sent
    have marker : isWorkerRegMarker (txBoundarySignature env tx) = true := by
      rw [txBoundarySignature, kind, isWorkerRegMarker, List.isPrefixOf_iff_prefix]
      exact List.prefix_append _ _
    rw [txToConsensusEntries, kind]
    exact attributed_markerEntries own (Or.inl marker)
  | smartContract =>
    have own : tx.core.entries.head?.map ProtocolEntry.publicKey = some sender := by
      rwa [txSenderPubkey, kind] at sent
    have marker : isEvmMarker (txBoundarySignature env tx) = true := by
      rw [txBoundarySignature, kind]
      exact isEvmMarker_encodeEvmMarker lawful _ length
    rw [txToConsensusEntries, kind]
    exact attributed_markerEntries own (Or.inr marker)
  | _ =>
    rw [txSenderPubkey, kind] at sent
    simp only [txToConsensusEntries, txBoundarySignature, kind]
    exact transfer sent

end Entries

theorem selected_attributed {env : TxEnv} (lawful : LawfulTxEnv env) {store : Store}
    {cycle nowMs : UInt64} {maxEntries : Nat} {txs : List Transaction} :
    ∀ tx ∈ validateAndSelectProtocolTxsForConstruction env store cycle nowMs maxEntries txs,
      ∃ sender, txSenderPubkey tx = some sender ∧
        Attributed (txToConsensusEntries env tx) (txBoundarySignature env tx) sender := by
  refine forall_selected (fun s tx s' choice facts => ⟨choice.sender, facts.sender, ?_⟩)
  have checks := facts.checks
  simp only [passesFormationChecks, decide_eq_true_eq] at checks
  exact attributed_txToConsensusEntries lawful facts.sender
    (lawful.signature tx _ _ checks.2.2.2)

/-- An update with the entries of the selected transactions uses up one nonce for each of them. -/
theorem nonceUses_eq_length {env : TxEnv} {lsu : LedgerStateUpdate} {selected : List Transaction}
    (attributed : ∀ tx ∈ selected, ∃ sender, txSenderPubkey tx = some sender ∧
      Attributed (txToConsensusEntries env tx) (txBoundarySignature env tx) sender)
    (shuffled : lsu.partialUpdate.transactionEntries.Perm
      (selected.flatMap (txToConsensusEntries env)))
    (distinct : (selected.map (txBoundarySignature env)).Nodup) (pk : PublicKey) :
    nonceUses groupSender lsu pk = (noncesOf pk selected).length := by
  have labelled : ∀ tx ∈ selected, ∀ e ∈ txToConsensusEntries env tx,
      e.signature = txBoundarySignature env tx := by
    intro tx htx
    obtain ⟨sender, -, facts⟩ := attributed tx htx
    exact facts.labelled
  have filled : ∀ tx ∈ selected, txToConsensusEntries env tx ≠ [] := by
    intro tx htx
    obtain ⟨sender, -, facts⟩ := attributed tx htx
    exact facts.ne_nil
  obtain ⟨grouped, parts⟩ := groups_perm shuffled labelled filled distinct
  have senders : (selected.map (fun tx => lsu.partialUpdate.transactionEntries.filter
      (fun e => e.signature = txBoundarySignature env tx))).map groupSender =
      selected.map txSenderPubkey := by
    rw [List.map_map]
    apply List.map_congr_left
    intro tx htx
    obtain ⟨sender, sent, facts⟩ := attributed tx htx
    rw [Function.comp_apply, facts.groupSender_of_perm (parts tx htx), sent]
  have counted := (grouped.map groupSender).count_eq (some pk)
  rw [senders] at counted
  rw [noncesOf, List.length_map, ← List.countP_eq_length_filter]
  refine Eq.trans counted ?_
  rw [List.count, List.countP_map]
  apply List.countP_congr
  intro tx _
  simp

end CatalystNode
