import CatalystNode.Selection
import CatalystNode.FoldTrace

namespace CatalystNode

open ByteVector HexCodec MachineInt FoldTrace

structure Chosen (env : TxEnv) (store : Store) (cycle nowMs : UInt64) (s : Selection)
    (tx : Transaction) (s' : Selection) (choice : Choice) : Prop where
  checks : passesFormationChecks env store nowMs tx = true
  sender : txSenderPubkey tx = some choice.sender
  nonce : tx.core.nonce =
    saturatingAddU64 ((s.loadNonce store choice.sender).nonces.getD choice.sender 0) 1
  due : Selection.feeDueTokens store cycle choice.sender tx.core.fees
    { s.loadNonce store choice.sender with
      balances := preloadBalances store tx.core.entries s.balances } = (s', choice.feeDue)
  deltas : ∃ entries fee, entryDeltas tx.core.entries = some entries ∧
    tryI64 choice.feeDue = some fee ∧ choice.deltas = entries ++ feeDelta choice.sender fee

theorem Selection.feeDueTokens_frame {store : Store} {cycle : UInt64} {sender : PublicKey}
    {fees due : UInt64} {s s' : Selection}
    (h : s.feeDueTokens store cycle sender fees = (s', due)) :
    s'.balances = s.balances ∧ s'.out = s.out ∧ due.toNat ≤ fees.toNat := by
  unfold Selection.feeDueTokens at h
  split at h
  next =>
    cases h
    refine ⟨rfl, rfl, ?_⟩
    rw [toNat_saturatingSubU64]
    omega
  next =>
    cases h
    exact ⟨rfl, rfl, le_refl _⟩

abbrev BalanceMap := Std.ExtTreeMap PublicKey Int64

theorem getElem?_seeded (entries : List ProtocolEntry) (balances : BalanceMap) (pk : PublicKey) :
    (entries.foldl (fun m e => m.insertIfNew e.publicKey (0 : Int64)) balances)[pk]? =
      if pk ∉ balances ∧ ∃ e ∈ entries, e.publicKey = pk then some 0 else balances[pk]? := by
  induction entries generalizing balances with
  | nil => simp
  | cons e entries ih =>
    rw [List.foldl_cons, ih]
    simp only [Std.ExtTreeMap.mem_insertIfNew, Std.ExtTreeMap.getElem?_insertIfNew,
      compare_eq_iff_eq]
    by_cases same : e.publicKey = pk
    · subst same
      by_cases cached : e.publicKey ∈ balances <;> simp [cached]
    · simp [same]

theorem mem_entryDeltas {entries : List ProtocolEntry} {deltas : List (PublicKey × Int64)}
    (h : entryDeltas entries = some deltas) {d : PublicKey × Int64} (hd : d ∈ deltas) :
    ∃ e ∈ entries, e.publicKey = d.1 := by
  induction entries generalizing deltas with
  | nil =>
    cases Option.some.inj h
    simp at hd
  | cons e entries ih =>
    rcases e with ⟨account, v | ⟨commitment, proof⟩⟩
    · obtain ⟨rest, hrest, rfl⟩ := Option.map_eq_some_iff.mp h
      rcases List.mem_cons.mp hd with rfl | hd
      · exact ⟨_, List.mem_cons_self, rfl⟩
      · obtain ⟨e, he, key⟩ := ih hrest hd
        exact ⟨e, List.mem_cons_of_mem _ he, key⟩
    · simp [entryDeltas] at h

theorem debitedAccount_mem {known : Option PublicKey} {entries : List ProtocolEntry}
    {sender : PublicKey} (h : debitedAccount known entries = some sender) :
    known = some sender ∨ ∃ e ∈ entries, e.publicKey = sender := by
  induction entries generalizing known with
  | nil => exact Or.inl h
  | cons e entries ih =>
    have skip : debitedAccount known entries = some sender →
        known = some sender ∨ ∃ e' ∈ e :: entries, e'.publicKey = sender := by
      intro h
      rcases ih h with known | ⟨e', he', key⟩
      · exact Or.inl known
      · exact Or.inr ⟨e', List.mem_cons_of_mem _ he', key⟩
    unfold debitedAccount at h
    split at h
    next => exact skip h
    next =>
      split at h
      next =>
        split at h
        next =>
          rcases ih h with first | ⟨e', he', key⟩
          · exact Or.inr ⟨e, List.mem_cons_self, Option.some.inj first⟩
          · exact Or.inr ⟨e', List.mem_cons_of_mem _ he', key⟩
        next =>
          split at h
          next => exact skip h
          next => simp at h
      next => exact skip h

theorem txSenderPubkey_mem {tx : Transaction} {sender : PublicKey}
    (h : txSenderPubkey tx = some sender) : ∃ e ∈ tx.core.entries, e.publicKey = sender := by
  have head : tx.core.entries.head?.map ProtocolEntry.publicKey = some sender →
      ∃ e ∈ tx.core.entries, e.publicKey = sender := by
    intro h
    obtain ⟨e, he, key⟩ := Option.map_eq_some_iff.mp h
    exact ⟨e, List.mem_of_head? he, key⟩
  unfold txSenderPubkey at h
  split at h
  next => exact head h
  next => exact head h
  next =>
    rcases debitedAccount_mem h with none | found
    · simp at none
    · exact found

section Step

variable {env : TxEnv} {store : Store} {cycle nowMs : UInt64} {maxEntries : Nat}
  {s s' : Selection} {tx : Transaction}

theorem considerFunds_some {sender : PublicKey} {entries : List (PublicKey × Int64)}
    {choice : Choice}
    (h : considerFunds env store cycle maxEntries s tx sender entries = (s', some choice)) :
    choice.sender = sender ∧ s.feeDueTokens store cycle sender tx.core.fees = (s', choice.feeDue) ∧
      ∃ fee, tryI64 choice.feeDue = some fee ∧ choice.deltas = entries ++ feeDelta sender fee := by
  unfold considerFunds at h
  dsimp only at h
  split at h
  next => simp at h
  next fee hfee =>
    split at h
    next => simp at h
    next =>
      split at h
      next => simp at h
      next =>
        cases h
        exact ⟨rfl, rfl, fee, hfee, rfl⟩

theorem consider_some {choice : Choice}
    (h : consider env store cycle nowMs maxEntries s tx = (s', some choice)) :
    Chosen env store cycle nowMs s tx s' choice := by
  unfold consider at h
  dsimp only at h
  split at h
  next => simp at h
  next checks =>
    rw [not_not] at checks
    cases hsender : txSenderPubkey tx with
    | none => simp [hsender] at h
    | some sender =>
      rw [hsender] at h
      dsimp only at h
      split at h
      next => simp at h
      next nonce =>
        cases hentries : entryDeltas tx.core.entries with
        | none => simp [hentries] at h
        | some entries =>
          rw [hentries] at h
          obtain ⟨rfl, due, fee, hfee, deltas⟩ := considerFunds_some h
          exact ⟨checks, hsender, not_not.mp nonce, due, entries, fee, hentries, hfee, deltas⟩

theorem out_considerFunds (sender : PublicKey) (entries : List (PublicKey × Int64)) :
    (considerFunds env store cycle maxEntries s tx sender entries).1.out = s.out := by
  have frame := @Selection.feeDueTokens_frame store cycle sender tx.core.fees _ s _ rfl
  unfold considerFunds
  dsimp only
  repeat' split
  all_goals exact frame.2.1

/-- Only the commit of a choice selects anything. -/
theorem consider_out {choice : Option Choice}
    (h : consider env store cycle nowMs maxEntries s tx = (s', choice)) : s'.out = s.out := by
  have first : s' = (consider env store cycle nowMs maxEntries s tx).1 := by rw [h]
  rw [first, consider]
  dsimp only
  repeat' split
  all_goals first
    | rfl
    | exact out_considerFunds _ _

theorem out_commit {choice : Choice}
    (h : consider env store cycle nowMs maxEntries s tx = (s', some choice)) :
    (s'.commit tx choice).out = s.out ++ [⟨tx, saturatingSubU64 tx.core.fees choice.feeDue⟩] := by
  rw [← consider_out h]
  rfl

/-- What holds of every transaction that passes the checks holds of every selected transaction. -/
theorem forall_selected {P : Transaction → Prop} {txs : List Transaction}
    (chosen : ∀ s tx s' choice, Chosen env store cycle nowMs s tx s' choice → P tx) :
    ∀ tx ∈ validateAndSelectProtocolTxsForConstruction env store cycle nowMs maxEntries txs,
      P tx := by
  have run : ∀ sel ∈ (selectionRun env store cycle nowMs maxEntries txs).out, P sel.tx := by
    refine foldl_invariant (P := fun s : Selection => ∀ sel ∈ s.out, P sel.tx)
      (by simp [Selection.start]) ?_
    intro s tx _ ih
    unfold selectStep
    rcases considered : consider env store cycle nowMs maxEntries s tx with ⟨s', _ | choice⟩
    · exact consider_out considered ▸ ih
    · intro sel hsel
      rcases List.mem_append.mp (out_commit considered ▸ hsel) with hsel | hsel
      · exact ih sel hsel
      · cases List.mem_singleton.mp hsel
        exact chosen s tx s' choice (consider_some considered)
  intro tx htx
  obtain ⟨sel, hsel, rfl⟩ := List.mem_map.mp htx
  exact run sel hsel

end Step

end CatalystNode
