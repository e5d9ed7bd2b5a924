import CatalystNode.Reselection
import CatalystNode.SenderAttribution

namespace CatalystNode

open ByteVector HexCodec MachineInt Sift

/-- Adds the entries up per account; a confidential entry ends the admission. -/
def netEntries (nets : Std.ExtTreeMap PublicKey Int64) :
    List ProtocolEntry → Option (Std.ExtTreeMap PublicKey Int64)
  | [] => some nets
  | e :: entries =>
    match e.amount with
    | .nonConfidential v =>
      netEntries (nets.insert e.publicKey (saturatingAddI64 (nets.getD e.publicKey 0) v)) entries
    | .confidential _ _ => none

def admissionFeeDue (store : Store) (sender : PublicKey) (fees cycle : UInt64) : UInt64 :=
  if tokenomicsFeeCreditsEnabled ∧ 0 < fees then
    saturatingSubU64 fees (feeCreditSpendableForCycle store sender fees cycle)
  else fees

def chargeFee (sender : PublicKey) (fee : Int64) (nets : Std.ExtTreeMap PublicKey Int64) :
    Std.ExtTreeMap PublicKey Int64 :=
  if 0 < fee then nets.insert sender (saturatingSubI64 (nets.getD sender 0) fee) else nets

/-- Accounts that gain are not looked at. -/
def netsCovered (store : Store) (nets : Std.ExtTreeMap PublicKey Int64) : Bool :=
  nets.toList.all (fun net =>
    ¬net.2 < 0 ∨ ¬saturatingAddI64 (getBalanceI64 store net.1) net.2 < 0)

def protocolTxIsFundedWithFeeCredits (store : Store) (tx : Transaction) (cycle : UInt64) : Bool :=
  match txSenderPubkey tx with
  | none => false
  | some sender =>
    match netEntries ∅ tx.core.entries with
    | none => false
    | some nets =>
      match tryI64 (admissionFeeDue store sender tx.core.fees cycle) with
      | none => false
      | some fee => netsCovered store (chargeFee sender fee nets)

/-- What a transaction adds to accounts, one entry after another and the token fee last. -/
def tokenDeltas (store : Store) (cycle : UInt64) (tx : Transaction) (sender : PublicKey) :
    Option (List (PublicKey × Int64)) := do
  let entries ← entryDeltas tx.core.entries
  let fee ← tryI64 (admissionFeeDue store sender tx.core.fees cycle)
  return entries ++ feeDelta sender fee

def netOf (deltas : List (PublicKey × Int64)) (pk : PublicKey) : Int64 :=
  deltas.foldl (fun net delta => if delta.1 = pk then saturatingAddI64 net delta.2 else net) 0

def Overdraws (store : Store) (pk : PublicKey) (delta : Int64) : Prop :=
  saturatingAddI64 (getBalanceI64 store pk) delta < 0

section Nets

theorem saturatingSubI64_eq {fee : Int64} (due : 0 < fee) (a : Int64) :
    saturatingSubI64 a fee = saturatingAddI64 a (-fee) := by
  have positive : 0 < fee.toInt := Int64.lt_iff_toInt_lt.mp due
  rw [saturatingSubI64, saturatingAddI64, toInt_neg_of_nonneg positive.le, ← Int.sub_eq_add_neg]

theorem netEntries_eq (nets : Std.ExtTreeMap PublicKey Int64) (entries : List ProtocolEntry) :
    netEntries nets entries = (entryDeltas entries).map (applyDeltas nets) := by
  induction entries generalizing nets with
  | nil => rfl
  | cons e entries ih =>
    rcases e with ⟨pk, v | ⟨commitment, proof⟩⟩
    · have rest := ih (nets.insert pk (saturatingAddI64 (nets.getD pk 0) v))
      simp only [netEntries, entryDeltas, Option.map_map]
      rw [rest]
      rfl
    · rfl

theorem chargeFee_eq (sender : PublicKey) (fee : Int64) (nets : Std.ExtTreeMap PublicKey Int64) :
    chargeFee sender fee nets = applyDeltas nets (feeDelta sender fee) := by
  unfold chargeFee feeDelta
  split
  next due =>
    rw [saturatingSubI64_eq due]
    rfl
  next => rfl

theorem getD_applyDeltas_empty (deltas : List (PublicKey × Int64)) (pk : PublicKey) :
    (applyDeltas ∅ deltas).getD pk 0 = netOf deltas pk := by
  have folded : ∀ nets : Std.ExtTreeMap PublicKey Int64, (applyDeltas nets deltas).getD pk 0 =
      deltas.foldl (fun net delta => if delta.1 = pk then saturatingAddI64 net delta.2 else net)
        (nets.getD pk 0) := by
    induction deltas with
    | nil => exact fun _ => rfl
    | cons d deltas ih =>
      intro nets
      have rest := ih (nets.insert d.1 (saturatingAddI64 (nets.getD d.1 0) d.2))
      rw [applyDeltas, List.foldl_cons] at *
      rw [rest, List.foldl_cons, Std.ExtTreeMap.getD_insert]
      simp only [Std.LawfulEqCmp.compare_eq_iff_eq]
      by_cases own : d.1 = pk
      · rw [if_pos own, if_pos own, own]
      · rw [if_neg own, if_neg own]
  rw [folded, Std.ExtTreeMap.getD_empty]
  rfl

/-- Only negative nets are compared with balances, and accounts without an entry have none. -/
theorem netsCovered_iff (store : Store) (deltas : List (PublicKey × Int64)) :
    netsCovered store (applyDeltas ∅ deltas) = true ↔
      ∀ pk, netOf deltas pk < 0 → ¬Overdraws store pk (netOf deltas pk) := by
  simp only [netsCovered, List.all_eq_true, decide_eq_true_eq, Overdraws,
    ← getD_applyDeltas_empty, Std.ExtTreeMap.getD_eq_getD_getElem?]
  constructor
  · intro covered pk negative
    cases held : (applyDeltas ∅ deltas)[pk]? with
    | none =>
      rw [held] at negative
      exact absurd negative (by decide)
    | some net =>
      rw [held] at negative
      have listed : (pk, net) ∈ (applyDeltas ∅ deltas).toList :=
        Std.ExtTreeMap.mem_toList_iff_getElem?_eq_some.mpr held
      exact (covered (pk, net) listed).resolve_left (not_not_intro negative)
  · intro covered net listed
    have held := Std.ExtTreeMap.mem_toList_iff_getElem?_eq_some.mp listed
    have here := covered net.1
    rw [held, Option.getD_some] at here
    by_cases negative : net.2 < 0
    · exact Or.inr (here negative)
    · exact Or.inl negative

theorem not_netOf_neg {deltas : List (PublicKey × Int64)} {pk : PublicKey}
    (gains : ∀ d ∈ deltas, d.1 = pk → ¬d.2 < 0) : ¬netOf deltas pk < 0 := by
  have folded : ∀ net : Int64, ¬net < 0 → ¬deltas.foldl (fun net delta =>
      if delta.1 = pk then saturatingAddI64 net delta.2 else net) net < 0 := by
    induction deltas with
    | nil => exact fun _ h => h
    | cons d deltas ih =>
      intro net gained
      rw [List.foldl_cons]
      apply ih (fun d' hd' => gains d' (List.mem_cons_of_mem d hd'))
      split
      next own =>
        have more := gains d List.mem_cons_self own
        rw [Int64.lt_iff_toInt_lt] at gained more ⊢
        rw [toInt_saturatingAddI64]
        have zero : (0 : Int64).toInt = 0 := rfl
        omega
      next => exact gained
  exact folded 0 (by decide)

end Nets

section Agreement

variable {env : TxEnv} {store : Store} {cycle nowMs : UInt64} {maxEntries : Nat} {tx : Transaction}
  {sender : PublicKey} {deltas : List (PublicKey × Int64)}

theorem entryDeltas_debits {entries : List ProtocolEntry} {listed : List (PublicKey × Int64)}
    (h : entryDeltas entries = some listed) (sig : Bytes) :
    transferEntries sig entries = listed.map (fun d => ⟨d.1, d.2, sig⟩) := by
  induction entries generalizing listed with
  | nil =>
    cases Option.some.inj h
    rfl
  | cons e entries ih =>
    rcases e with ⟨pk, v | ⟨commitment, proof⟩⟩
    · obtain ⟨rest, found, rfl⟩ := Option.map_eq_some_iff.mp h
      have head : transferEntries sig (⟨pk, .nonConfidential v⟩ :: entries) =
          ⟨pk, v, sig⟩ :: transferEntries sig entries := rfl
      rw [head, ih found]
      rfl
    · simp [entryDeltas] at h

theorem debits_sender (checks : passesFormationChecks env store nowMs tx = true)
    (sent : txSenderPubkey tx = some sender) {entries : List (PublicKey × Int64)}
    (listed : entryDeltas tx.core.entries = some entries) :
    ∀ d ∈ entries, d.2 < 0 → d.1 = sender := by
  have transfer : debitedAccount none tx.core.entries = some sender →
      ∀ d ∈ entries, d.2 < 0 → d.1 = sender := by
    intro debited d hd negative
    rw [debitedAccount_eq_debitedKey none [], debitedKey_eq_some_iff,
      entryDeltas_debits listed] at debited
    exact debited.2.1 ⟨d.1, d.2, []⟩ (List.mem_map_of_mem hd) negative
  -- registrations and contract calls list one entry of amount zero
  have marker : ∀ e, tx.core.entries = [e] → isZeroAmount e.amount = true →
      ∀ d ∈ entries, d.2 < 0 → d.1 = sender := by
    intro e single zero d hd negative
    rw [single] at listed
    rcases e with ⟨pk, v | ⟨commitment, proof⟩⟩
    · cases Option.some.inj listed
      cases List.mem_singleton.mp hd
      have nothing : v = 0 := by simpa [isZeroAmount] using zero
      subst nothing
      exact absurd negative Int64.lt_irrefl
    · simp [entryDeltas] at listed
  simp only [passesFormationChecks, decide_eq_true_eq] at checks
  have valid : validateEntries tx.core = .ok () := by
    have basic := checks.1
    unfold Transaction.validateBasic at basic
    split at basic
    next => simp at basic
    next shaped => exact shaped
  cases kind : tx.core.txType with
  | workerRegistration | smartContract =>
    simp only [validateEntries, kind] at valid
    split at valid
    next e single =>
      split at valid
      next zero => exact marker e single zero
      next => simp at valid
    next => simp at valid
  | _ =>
    rw [txSenderPubkey, kind] at sent
    exact transfer sent

theorem tokenDeltas_eq_some : tokenDeltas store cycle tx sender = some deltas ↔
    ∃ entries fee, entryDeltas tx.core.entries = some entries ∧
      tryI64 (admissionFeeDue store sender tx.core.fees cycle) = some fee ∧
      entries ++ feeDelta sender fee = deltas := by
  simp [tokenDeltas, Option.bind_eq_some_iff]

theorem debits_tokenDeltas (checks : passesFormationChecks env store nowMs tx = true)
    (sent : txSenderPubkey tx = some sender)
    (listed : tokenDeltas store cycle tx sender = some deltas) :
    ∀ d ∈ deltas, d.2 < 0 → d.1 = sender := by
  obtain ⟨entries, fee, found, -, rfl⟩ := tokenDeltas_eq_some.mp listed
  intro d hd negative
  rcases List.mem_append.mp hd with entry | charged
  · exact debits_sender checks sent found d entry negative
  · unfold feeDelta at charged
    split at charged
    next =>
      cases List.mem_singleton.mp charged
      rfl
    next => simp at charged

/-- Admission looks at the net of the sender alone. -/
theorem funded_iff (checks : passesFormationChecks env store nowMs tx = true) :
    protocolTxIsFundedWithFeeCredits store tx cycle = true ↔
      ∃ sender deltas, txSenderPubkey tx = some sender ∧
        tokenDeltas store cycle tx sender = some deltas ∧
        ¬(netOf deltas sender < 0 ∧ Overdraws store sender (netOf deltas sender)) := by
  unfold protocolTxIsFundedWithFeeCredits
  cases sent : txSenderPubkey tx with
  | none => simp
  | some sender =>
    dsimp only
    rw [netEntries_eq]
    cases found : entryDeltas tx.core.entries with
    | none => simp [tokenDeltas, found]
    | some entries =>
      dsimp only [Option.map_some]
      cases due : tryI64 (admissionFeeDue store sender tx.core.fees cycle) with
      | none => simp [tokenDeltas, found, due]
      | some fee =>
        have listed : tokenDeltas store cycle tx sender = some (entries ++ feeDelta sender fee) :=
          tokenDeltas_eq_some.mpr ⟨entries, fee, found, due, rfl⟩
        have nets : chargeFee sender fee (applyDeltas ∅ entries) =
            applyDeltas ∅ (entries ++ feeDelta sender fee) := by
          rw [chargeFee_eq, applyDeltas, applyDeltas, applyDeltas, List.foldl_append]
        dsimp only
        rw [nets, netsCovered_iff]
        constructor
        · intro covered
          exact ⟨sender, _, rfl, listed, fun overdrawn => covered sender overdrawn.1 overdrawn.2⟩
        · rintro ⟨sender', deltas, same, listed', covered⟩ pk negative overdrawn
          cases Option.some.inj same
          cases Option.some.inj (listed.symm.trans listed')
          have own : pk = sender := by
            by_contra other
            refine not_netOf_neg (fun d hd here debit => other ?_) negative
            exact here.symm.trans (debits_tokenDeltas checks sent listed d hd debit)
          subst own
          exact covered ⟨negative, overdrawn⟩

theorem feeDue_start (sender : PublicKey) (fees : UInt64) :
    (Selection.start.view store cycle).feeDue sender fees =
      admissionFeeDue store sender fees cycle := by
  have credit : (Selection.start.view store cycle).creditSpend sender fees =
      min (min fees (getFeeCreditBalanceU64 store sender))
        (saturatingSubU64 tokenomicsFeeCreditsDailySpendCapAtoms
          (spentInBucket (getFeeCreditDailySpend store sender) (feeCreditDayBucket cycle))) := rfl
  unfold SelectionView.feeDue admissionFeeDue
  split
  next charged =>
    have due : ¬(¬tokenomicsFeeCreditsEnabled = true ∨ fees = 0) := by
      intro free
      rcases free with off | zero
      · exact off charged.1
      · rw [zero] at charged
        exact absurd charged.2 (by decide)
    rw [credit, feeCreditSpendableForCycle, if_neg due]
    dsimp only
    split
    next empty =>
      congr 1
      apply UInt64.toNat_inj.mp
      rw [toNat_min, toNat_min, empty]
      have zero : (0 : UInt64).toNat = 0 := rfl
      omega
    next => rfl
  next => rfl

/-- The selection of a single transaction looks at every delta by itself. -/
theorem selected_single_iff (checks : passesFormationChecks env store nowMs tx = true)
    (next : ∀ sender, txSenderPubkey tx = some sender →
      tx.core.nonce.toNat = (getNonceU64 store sender).toNat + 1)
    (budget : (txToConsensusEntries env tx).length ≤ maxEntries) :
    validateAndSelectProtocolTxsForConstruction env store cycle nowMs maxEntries [tx] = [tx] ↔
      ∃ sender deltas, txSenderPubkey tx = some sender ∧
        tokenDeltas store cycle tx sender = some deltas ∧ ∀ d ∈ deltas, ¬Overdraws store d.1 d.2 := by
  have order : formationOrder env [tx] = [tx] := rfl
  have chosen : validateAndSelectProtocolTxsForConstruction env store cycle nowMs maxEntries [tx] =
      [tx] ↔ ((Selection.start.view store cycle).choose env store nowMs maxEntries tx).isSome := by
    rw [select_eq_sift, order, sift, SelectionView.step]
    cases (Selection.start.view store cycle).choose env store nowMs maxEntries tx with
    | none => simp [sift]
    | some choice => simp [sift]
  rw [chosen, SelectionView.choose, if_neg (not_not_intro checks)]
  cases sent : txSenderPubkey tx with
  | none => simp
  | some sender =>
    have nonce : tx.core.nonce =
        saturatingAddU64 ((Selection.start.view store cycle).nonce sender) 1 := by
      have bound := tx.core.nonce.toNat_lt
      have stored : (Selection.start.view store cycle).nonce sender = getNonceU64 store sender := rfl
      apply UInt64.toNat_inj.mp
      rw [stored, toNat_saturatingAddU64, next sender sent]
      have one : (1 : UInt64).toNat = 1 := rfl
      have here := next sender sent
      omega
    dsimp only
    rw [if_neg (not_not_intro nonce)]
    cases found : entryDeltas tx.core.entries with
    | none => simp [tokenDeltas, found]
    | some entries =>
      dsimp only
      rw [SelectionView.chooseFunds, feeDue_start]
      cases due : tryI64 (admissionFeeDue store sender tx.core.fees cycle) with
      | none => simp [tokenDeltas, found, due]
      | some fee =>
        have fits : ¬maxEntries < (Selection.start.view store cycle).usedEntries +
            (txToConsensusEntries env tx).length := by
          have none : (Selection.start.view store cycle).usedEntries = 0 := rfl
          omega
        have covers : (Selection.start.view store cycle).covers (entries ++ feeDelta sender fee) =
            true ↔ ∀ d ∈ entries ++ feeDelta sender fee, ¬Overdraws store d.1 d.2 := by
          have balance : ∀ pk, (Selection.start.view store cycle).balance pk =
              getBalanceI64 store pk := by
            intro pk
            have fresh : Selection.start.balances.getD pk 0 = 0 := Std.ExtTreeMap.getD_empty
            have read : (Selection.start.view store cycle).balance pk =
                refresh store pk (Selection.start.balances.getD pk 0) := rfl
            rw [read, fresh]
            rfl
          simp only [SelectionView.covers, List.all_eq_true, decide_eq_true_eq, balance, Overdraws,
            Int64.not_lt]
        have listed : tokenDeltas store cycle tx sender = some (entries ++ feeDelta sender fee) :=
          tokenDeltas_eq_some.mpr ⟨entries, fee, found, due, rfl⟩
        dsimp only
        rw [if_neg fits]
        by_cases covered :
            (Selection.start.view store cycle).covers (entries ++ feeDelta sender fee) = true
        · rw [if_neg (not_not_intro covered)]
          simp only [Option.isSome_some, true_iff]
          exact ⟨sender, _, rfl, listed, covers.mp covered⟩
        · rw [if_pos covered]
          simp only [Option.isSome_none, Bool.false_eq_true, false_iff]
          rintro ⟨sender', deltas, same, listed', safe⟩
          cases Option.some.inj same
          cases Option.some.inj (listed.symm.trans listed')
          exact covered (covers.mpr safe)

end Agreement

/-- Admission and the selection of a single transaction agree exactly if the sender's net debit exceeds
its balance just when one of the deltas by itself leaves its account negative. -/
theorem funded_iff_selected_iff (env : TxEnv) (store : Store) (cycle nowMs : UInt64)
    (maxEntries : Nat) (tx : Transaction)
    (checks : passesFormationChecks env store nowMs tx = true)
    (next : ∀ sender, txSenderPubkey tx = some sender →
      tx.core.nonce.toNat = (getNonceU64 store sender).toNat + 1)
    (budget : (txToConsensusEntries env tx).length ≤ maxEntries) :
    (protocolTxIsFundedWithFeeCredits store tx cycle = true ↔
      validateAndSelectProtocolTxsForConstruction env store cycle nowMs maxEntries [tx] = [tx]) ↔
    ∀ sender deltas, txSenderPubkey tx = some sender →
      tokenDeltas store cycle tx sender = some deltas →
      (netOf deltas sender < 0 ∧ Overdraws store sender (netOf deltas sender) ↔
        ∃ d ∈ deltas, Overdraws store d.1 d.2) := by
  rw [funded_iff checks, selected_single_iff checks next budget]
  constructor
  · intro agree sender deltas sent listed
    have only : ∀ P : PublicKey → List (PublicKey × Int64) → Prop,
        (∃ sender' deltas', txSenderPubkey tx = some sender' ∧
          tokenDeltas store cycle tx sender' = some deltas' ∧ P sender' deltas') ↔ P sender deltas := by
      intro P
      constructor
      · rintro ⟨sender', deltas', sent', listed', holds⟩
        cases Option.some.inj (sent.symm.trans sent')
        cases Option.some.inj (listed.symm.trans listed')
        exact holds
      · exact fun holds => ⟨sender, deltas, sent, listed, holds⟩
    rw [only (fun sender deltas =>
        ¬(netOf deltas sender < 0 ∧ Overdraws store sender (netOf deltas sender))),
      only (fun _ deltas => ∀ d ∈ deltas, ¬Overdraws store d.1 d.2)] at agree
    have flipped := not_congr agree
    rw [not_not] at flipped
    rw [flipped]
    simp
  · intro same
    refine exists_congr fun sender => exists_congr fun deltas => and_congr_right fun sent =>
      and_congr_right fun listed => ?_
    rw [same sender deltas sent listed]
    simp

/-- Ten tokens and a fee of three out of a balance of ten: not admitted, but selected. -/
theorem unfunded_selected :
    passesFormationChecks sampleTxEnv sampleFunds 1000 (sampleTransfer 1 3 [(1, -10), (2, 10)]) = true ∧
    txSenderPubkey (sampleTransfer 1 3 [(1, -10), (2, 10)]) = some (sampleAccount 1) ∧
    (sampleTransfer 1 3 [(1, -10), (2, 10)]).core.nonce.toNat =
      (getNonceU64 sampleFunds (sampleAccount 1)).toNat + 1 ∧
    (txToConsensusEntries sampleTxEnv (sampleTransfer 1 3 [(1, -10), (2, 10)])).length ≤ 100 ∧
    protocolTxIsFundedWithFeeCredits sampleFunds (sampleTransfer 1 3 [(1, -10), (2, 10)]) 7 = false ∧
    validateAndSelectProtocolTxsForConstruction sampleTxEnv sampleFunds 7 1000 100
      [sampleTransfer 1 3 [(1, -10), (2, 10)]] = [sampleTransfer 1 3 [(1, -10), (2, 10)]] := by
  decide +kernel

theorem funded_iff_selected_iff_transfer :
    protocolTxIsFundedWithFeeCredits sampleFunds (sampleTransfer 1 3 [(1, -5), (2, 5)]) 7 = true ∧
    (protocolTxIsFundedWithFeeCredits sampleFunds (sampleTransfer 1 3 [(1, -5), (2, 5)]) 7 = true ↔
      validateAndSelectProtocolTxsForConstruction sampleTxEnv sampleFunds 7 1000 100
        [sampleTransfer 1 3 [(1, -5), (2, 5)]] = [sampleTransfer 1 3 [(1, -5), (2, 5)]]) := by
  have sent : txSenderPubkey (sampleTransfer 1 3 [(1, -5), (2, 5)]) = some (sampleAccount 1) := by
    decide +kernel
  refine ⟨by decide +kernel, (funded_iff_selected_iff sampleTxEnv sampleFunds 7 1000 100
    (sampleTransfer 1 3 [(1, -5), (2, 5)]) (by decide +kernel) ?_ (by decide +kernel)).mpr ?_⟩
  · intro sender same
    cases Option.some.inj (sent.symm.trans same)
    decide +kernel
  · intro sender deltas same listed
    cases Option.some.inj (sent.symm.trans same)
    have evaluated : tokenDeltas sampleFunds 7 (sampleTransfer 1 3 [(1, -5), (2, 5)])
        (sampleAccount 1) = some [(sampleAccount 1, -5), (sampleAccount 2, 5),
          (sampleAccount 1, -3)] := by decide +kernel
    cases Option.some.inj (evaluated.symm.trans listed)
    simp only [Overdraws]
    decide +kernel

end CatalystNode
