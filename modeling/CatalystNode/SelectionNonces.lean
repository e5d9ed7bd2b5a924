import CatalystNode.SelectionSteps
import CatalystNode.Ladder

namespace CatalystNode

open ByteVector HexCodec MachineInt FoldTrace Ladder

def Selection.cachedNonce (store : Store) (s : Selection) (pk : PublicKey) : UInt64 :=
  s.nonces.getD pk (getNonceU64 store pk)

def noncesOf (pk : PublicKey) (txs : List Transaction) : List Nat :=
  (txs.filter (fun tx => txSenderPubkey tx = some pk)).map (fun tx => tx.core.nonce.toNat)

theorem noncesOf_append (pk : PublicKey) (txs txs' : List Transaction) :
    noncesOf pk (txs ++ txs') = noncesOf pk txs ++ noncesOf pk txs' := by
  simp [noncesOf]

section Step

variable {env : TxEnv} {store : Store} {cycle nowMs : UInt64} {maxEntries : Nat}
  {s s' : Selection} {tx : Transaction}

theorem Selection.feeDueTokens_nonces (store : Store) (cycle : UInt64) (sender : PublicKey)
    (fees : UInt64) (s : Selection) :
    (s.feeDueTokens store cycle sender fees).1.nonces = s.nonces := by
  unfold Selection.feeDueTokens
  split <;> rfl

theorem considerFunds_nonces (sender : PublicKey) (entries : List (PublicKey × Int64)) :
    (considerFunds env store cycle maxEntries s tx sender entries).1.nonces = s.nonces := by
  have due := s.feeDueTokens_nonces store cycle sender tx.core.fees
  unfold considerFunds
  dsimp only
  split
  next => exact due
  next =>
    split
    next => exact due
    next => split <;> exact due

theorem cachedNonce_loadNonce (store : Store) (sender pk : PublicKey) (s : Selection) :
    (s.loadNonce store sender).cachedNonce store pk = s.cachedNonce store pk := by
  simp only [Selection.cachedNonce, Selection.loadNonce, Std.ExtTreeMap.getD_insertIfNew,
    Std.LawfulEqCmp.compare_eq_iff_eq]
  split
  next missing =>
    obtain ⟨rfl, absent⟩ := missing
    rw [Std.ExtTreeMap.getD_eq_fallback absent]
  next => rfl

theorem getD_loadNonce (store : Store) (sender : PublicKey) (s : Selection) (fallback : UInt64) :
    (s.loadNonce store sender).nonces.getD sender fallback = s.cachedNonce store sender := by
  simp only [Selection.cachedNonce, Selection.loadNonce, Std.ExtTreeMap.getD_insertIfNew,
    Std.LawfulEqCmp.compare_eq_iff_eq, true_and]
  split
  next absent => rw [Std.ExtTreeMap.getD_eq_fallback absent]
  next present =>
    rw [not_not, Std.ExtTreeMap.mem_iff_isSome_getElem?, Option.isSome_iff_exists] at present
    obtain ⟨nonce, held⟩ := present
    rw [Std.ExtTreeMap.getD_eq_getD_getElem?, Std.ExtTreeMap.getD_eq_getD_getElem?, held]
    rfl

theorem consider_cachedNonce (s : Selection) (tx : Transaction) (pk : PublicKey) :
    (consider env store cycle nowMs maxEntries s tx).1.cachedNonce store pk =
      s.cachedNonce store pk := by
  unfold consider
  split
  next => rfl
  next =>
    cases txSenderPubkey tx with
    | none => rfl
    | some sender =>
      have loaded := cachedNonce_loadNonce store sender pk s
      dsimp only
      split
      next => exact loaded
      next =>
        cases entryDeltas tx.core.entries with
        | none => exact loaded
        | some entries =>
          rw [← loaded]
          exact congrArg (fun m : Std.ExtTreeMap PublicKey UInt64 => m.getD pk _)
            (considerFunds_nonces sender entries)

theorem cachedNonce_commit (choice : Choice) (pk : PublicKey) :
    (s.commit tx choice).cachedNonce store pk =
      if choice.sender = pk then tx.core.nonce else s.cachedNonce store pk := by
  simp only [Selection.cachedNonce, Selection.commit, Std.ExtTreeMap.getD_insert,
    Std.LawfulEqCmp.compare_eq_iff_eq]

def CountsFrom (store : Store) (pk : PublicKey) (s : Selection) : Prop :=
  Climbs (2 ^ 64 - 1) (getNonceU64 store pk).toNat (noncesOf pk (s.out.map SelectedTx.tx)) ∧
    (s.cachedNonce store pk).toNat =
      (noncesOf pk (s.out.map SelectedTx.tx)).getLastD (getNonceU64 store pk).toNat

theorem countsFrom_selectStep {pk : PublicKey} (before : CountsFrom store pk s) :
    CountsFrom store pk (selectStep env store cycle nowMs maxEntries s tx) := by
  have cached := @consider_cachedNonce env store cycle nowMs maxEntries s tx pk
  unfold selectStep
  rcases considered : consider env store cycle nowMs maxEntries s tx with ⟨s', _ | choice⟩
  · rw [considered] at cached
    have out := consider_out considered
    unfold CountsFrom
    rw [out, cached]
    exact before
  · rw [considered] at cached
    have facts := consider_some considered
    have nonce := getD_loadNonce store choice.sender s 0 ▸ facts.nonce
    have out : (s'.commit tx choice).out.map SelectedTx.tx = s.out.map SelectedTx.tx ++ [tx] := by
      simp [out_commit considered]
    obtain ⟨climbs, last⟩ := before
    unfold CountsFrom
    dsimp only
    rw [out, noncesOf_append, cachedNonce_commit, cached]
    by_cases own : choice.sender = pk
    · subst own
      have single : noncesOf choice.sender [tx] = [tx.core.nonce.toNat] := by
        simp [noncesOf, facts.sender]
      rw [single, if_pos rfl, climbs_append, List.getLastD_concat]
      refine ⟨⟨climbs, ?_, trivial⟩, rfl⟩
      rw [nonce, toNat_saturatingAddU64, last]
      rfl
    · have none : noncesOf pk [tx] = [] := by
        simp [noncesOf, facts.sender, own]
      rw [none, if_neg own, List.append_nil]
      exact ⟨climbs, last⟩

theorem selected_climbs (env : TxEnv) (store : Store) (cycle nowMs : UInt64) (maxEntries : Nat)
    (txs : List Transaction) (pk : PublicKey) :
    Climbs (2 ^ 64 - 1) (getNonceU64 store pk).toNat (noncesOf pk
      (validateAndSelectProtocolTxsForConstruction env store cycle nowMs maxEntries txs)) := by
  have start : CountsFrom store pk .start := ⟨trivial, rfl⟩
  have run : CountsFrom store pk (selectionRun env store cycle nowMs maxEntries txs) :=
    foldl_invariant start (fun _ _ _ before => countsFrom_selectStep before)
  exact run.1

end Step

end CatalystNode
