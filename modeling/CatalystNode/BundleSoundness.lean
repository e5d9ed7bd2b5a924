import CatalystNode.MerkleSoundness
import CatalystNode.StateBundle
import CatalystNode.Overlay

namespace CatalystNode

open ByteVector HexCodec MachineInt KeyedUpdates Overlay

def changeInputs (sha256 : Bytes → Hash) (m : StateMap) (key value : Bytes) (proof : MerkleProof) :
    Set Bytes :=
  insert (leafInput key value) (treeInputs sha256 m.toList key ∪ proofInputs sha256 key proof)

def bundleInputs (sha256 : Bytes → Hash) (before after : StateMap) (bundle : StateProofBundle) :
    Set Bytes :=
  {x | ∃ c ∈ bundle.changes, x ∈ changeInputs sha256 before c.key c.oldValue c.oldProof ∨
    x ∈ changeInputs sha256 after c.key c.newValue c.newProof}

/-- The roots of a bundle commit to two maps, and nothing that is hashed for it collides. -/
structure BundleCommitted (sha256 : Bytes → Hash) (before after : StateMap)
    (bundle : StateProofBundle) : Prop where
  prev : computeRootFromIter sha256 before.toList = .ok bundle.prevStateRoot
  next : computeRootFromIter sha256 after.toList = .ok bundle.newStateRoot
  paths : Set.InjOn (keyPath sha256)
    {k | k ∈ bundle.changes.map KeyProofChange.key ∨ k ∈ before ∨ k ∈ after}
  free : Set.InjOn sha256 (bundleInputs sha256 before after bundle)

theorem nodup_map_fst_toList (m : StateMap) : (m.toList.map Prod.fst).Nodup := by
  rw [Std.ExtTreeMap.map_fst_toList_eq_keys]
  exact Std.ExtTreeMap.nodup_keys

theorem mem_map_fst_toList (m : StateMap) (k : Bytes) : k ∈ m.toList.map Prod.fst ↔ k ∈ m := by
  rw [Std.ExtTreeMap.map_fst_toList_eq_keys, Std.ExtTreeMap.mem_keys]

variable {env : BundleEnv}

/-- An accepted side of a change carries the committed value, an absent one as the empty value. -/
theorem value_of_verifyStateProofForChange {m : StateMap} {root : Hash} {key value : Bytes}
    {proof : MerkleProof} (paths : Set.InjOn (keyPath env.sha256) (insert key {k | k ∈ m}))
    (free : Set.InjOn env.sha256 (changeInputs env.sha256 m key value proof))
    (built : computeRootFromIter env.sha256 m.toList = .ok root)
    (accepted : verifyStateProofForChange env root key value proof = true) :
    m[key]?.getD [] = value := by
  have listed : Set.InjOn (keyPath env.sha256) (insert key {k | k ∈ m.toList.map Prod.fst}) := by
    simpa only [mem_map_fst_toList] using paths
  unfold verifyStateProofForChange at accepted
  split at accepted
  next =>
    obtain ⟨empty, absent⟩ := Bool.and_eq_true_iff.mp accepted
    have missing := not_mem_of_verifyAbsenceProofForKey (nodup_map_fst_toList m) listed
      (free.mono (Set.subset_insert _ _)) built absent
    rw [mem_map_fst_toList] at missing
    rw [Std.ExtTreeMap.getElem?_eq_none missing, List.isEmpty_iff.mp empty]
    rfl
  next =>
    have member := mem_of_verifyProofForKey (nodup_map_fst_toList m) listed free built accepted
    rw [Std.ExtTreeMap.mem_toList_iff_getElem?_eq_some.mp member]
    rfl

variable {lsu : LedgerStateUpdate} {bundle : StateProofBundle} {before after : StateMap}

theorem BundleCommitted.values (committed : BundleCommitted env.sha256 before after bundle)
    (verified : ∀ c ∈ bundle.changes,
      verifyStateProofForChange env bundle.prevStateRoot c.key c.oldValue c.oldProof = true ∧
      verifyStateProofForChange env bundle.newStateRoot c.key c.newValue c.newProof = true) :
    ∀ c ∈ bundle.changes, c.oldValue = before[c.key]?.getD [] ∧
      c.newValue = after[c.key]?.getD [] := by
  intro c hc
  have listed : c.key ∈ bundle.changes.map KeyProofChange.key := List.mem_map_of_mem hc
  obtain ⟨old, new⟩ := verified c hc
  have oldInputs : changeInputs env.sha256 before c.key c.oldValue c.oldProof ⊆
      bundleInputs env.sha256 before after bundle := fun _ h => ⟨c, hc, Or.inl h⟩
  have newInputs : changeInputs env.sha256 after c.key c.newValue c.newProof ⊆
      bundleInputs env.sha256 before after bundle := fun _ h => ⟨c, hc, Or.inr h⟩
  constructor
  · exact (value_of_verifyStateProofForChange
      (committed.paths.mono (Set.insert_subset (Or.inl listed) (fun _ h => Or.inr (Or.inl h))))
      (committed.free.mono oldInputs) committed.prev old).symm
  · exact (value_of_verifyStateProofForChange
      (committed.paths.mono (Set.insert_subset (Or.inl listed) (fun _ h => Or.inr (Or.inr h))))
      (committed.free.mono newInputs) committed.next new).symm

theorem BundleCommitted.covered (committed : BundleCommitted env.sha256 before after bundle)
    (noEvm : lsuContainsEvm lsu = false)
    (accepted : verifyStateTransitionBundle env lsu bundle = true) {k : Bytes}
    (touched : k ∈ touchedKeysForLsu env lsu)
    (supplied : k ∈ bundle.changes.map KeyProofChange.key) :
    after[k]? = (expectedAfter env lsu before)[k]? := by
  obtain ⟨-, -, verified, compared⟩ := (verifyStateTransitionBundle_iff env lsu bundle).mp accepted
  have values := committed.values verified
  have old : (oldValues bundle)[k]? = some (before[k]?.getD []) := by
    rw [oldValues, getElem?_foldl_insert (f := fun k => before[k]?.getD [])
      (fun c hc => (values c hc).1), if_pos supplied]
  have new : (newValues bundle)[k]? = some (after[k]?.getD []) := by
    rw [newValues, getElem?_foldl_insert (f := fun k => after[k]?.getD [])
      (fun c hc => (values c hc).2), if_pos supplied]
  obtain ⟨x, value, nonempty, wire⟩ := getElem?_expectedAfter_touched noEvm touched before
  have same := compared k x _ (wire _ old) new
  rw [value]
  cases held : after[k]? with
  | none =>
    rw [held] at same
    exact absurd same.symm nonempty
  | some v =>
    rw [held] at same
    exact congrArg some same

/-- An accepted bundle vouches for the touched keys it covers and for no others: all touched keys are
as the update demands exactly if the ones it leaves out happen to be. -/
theorem verifyStateTransitionBundle_sound_iff (env : BundleEnv) (lsu : LedgerStateUpdate)
    (bundle : StateProofBundle) (before after : StateMap)
    (committed : BundleCommitted env.sha256 before after bundle)
    (noEvm : lsuContainsEvm lsu = false)
    (accepted : verifyStateTransitionBundle env lsu bundle = true) :
    (∀ k ∈ touchedKeysForLsu env lsu, after[k]? = (expectedAfter env lsu before)[k]?) ↔
      ∀ k ∈ touchedKeysForLsu env lsu, k ∉ bundle.changes.map KeyProofChange.key →
        after[k]? = (expectedAfter env lsu before)[k]? := by
  constructor
  · intro all k touched _
    exact all k touched
  · intro left k touched
    by_cases supplied : k ∈ bundle.changes.map KeyProofChange.key
    · exact committed.covered noEvm accepted touched supplied
    · exact left k touched supplied

section Samples

def sampleBundleEnv : BundleEnv where
  sha256 := countingSha
  runtime := ⟨fun _ => none, fun store _ _ _ _ => (store, .error "no contracts")⟩
  calculateEthereumCreateAddress addr _ := addr

def sampleDeposit : LedgerStateUpdate where
  partialUpdate := ⟨[⟨padTo 32 [1], 5, [9]⟩], zeros 32, 0, 7⟩
  compensationEntries := []
  cycleNumber := 7
  producerList := []
  voteList := []

def sampleState : StateMap := Std.ExtTreeMap.ofList oneItem

def sampleBundle (root : Hash) (proof : MerkleProof) : StateProofBundle where
  cycle := 7
  lsuHash := zeros 32
  prevStateRoot := root
  newStateRoot := root
  changes := [⟨[0], [7], proof, [7], proof⟩]

theorem toList_sampleState : sampleState.toList = oneItem := by decide

theorem sampleBundle_committed {root : Hash} {proof : MerkleProof}
    (built : computeRootFromIter countingSha oneItem = .ok root)
    (free : Set.InjOn countingSha (insert (leafInput [0] [7])
      (treeInputs countingSha oneItem [0] ∪ proofInputs countingSha [0] proof))) :
    BundleCommitted countingSha sampleState sampleState (sampleBundle root proof) where
  prev := by rw [toList_sampleState]; exact built
  next := by rw [toList_sampleState]; exact built
  paths := by
    refine injOn_keyPath_oneItem.mono ?_
    rintro k (listed | stored | stored)
    · exact Or.inl (List.mem_singleton.mp listed)
    · exact Or.inr (by rwa [← mem_map_fst_toList, toList_sampleState] at stored)
    · exact Or.inr (by rwa [← mem_map_fst_toList, toList_sampleState] at stored)
  free := by
    refine free.mono ?_
    rintro x ⟨c, hc, hashed⟩
    cases List.mem_singleton.mp hc
    simpa [changeInputs, toList_sampleState] using hashed

theorem sampleBundle_accepted {root : Hash} {proof : MerkleProof}
    (accepted : verifyProofForKey countingSha root [0] [7] proof = true) :
    verifyStateTransitionBundle sampleBundleEnv sampleDeposit (sampleBundle root proof) = true := by
  have leaf : proof.leaf ≠ hEmptyLeaf sampleBundleEnv.sha256 := by
    rw [(walk_of_verifyProofForKeyAndLeaf accepted).2.1]
    decide
  have side : verifyStateProofForChange sampleBundleEnv root [0] [7] proof = true := by
    unfold verifyStateProofForChange
    rw [if_neg leaf]
    exact accepted
  have old : oldValues (sampleBundle root proof) = sampleState := rfl
  have new : newValues (sampleBundle root proof) = sampleState := rfl
  have kept : ∀ entry ∈ (expectedAfter sampleBundleEnv sampleDeposit sampleState).toList,
      sampleState[entry.1]?.all (fun v => v = entry.2) := by decide
  rw [verifyStateTransitionBundle_iff, old, new]
  refine ⟨rfl, List.cons_ne_nil _ _, ?_, fun k vexp vnew expected supplied => ?_⟩
  · intro c hc
    cases List.mem_singleton.mp hc
    exact ⟨side, side⟩
  · have entry := kept (k, vexp) (Std.ExtTreeMap.mem_toList_iff_getElem?_eq_some.mpr expected)
    simpa [supplied] using entry

end Samples

/-- A bundle that says nothing about the account of a deposit is accepted, and the new root may leave
the account without its tokens. -/
theorem verifyStateTransitionBundle_uncovered :
    ∃ root proof,
      BundleCommitted sampleBundleEnv.sha256 sampleState sampleState (sampleBundle root proof) ∧
      lsuContainsEvm sampleDeposit = false ∧
      verifyStateTransitionBundle sampleBundleEnv sampleDeposit (sampleBundle root proof) = true ∧
      balanceKeyForPubkey (padTo 32 [1]) ∈ touchedKeysForLsu sampleBundleEnv sampleDeposit ∧
      sampleState[balanceKeyForPubkey (padTo 32 [1])]? ≠
        (expectedAfter sampleBundleEnv sampleDeposit sampleState)[balanceKeyForPubkey
          (padTo 32 [1])]? := by
  obtain ⟨root, proof, built, accepted, free⟩ := exists_proof_oneItem
  exact ⟨root, proof, sampleBundle_committed built free, by decide +kernel,
    sampleBundle_accepted accepted, by decide +kernel, by decide +kernel⟩

theorem verifyStateTransitionBundle_sound_iff_deposit :
    ∃ root proof,
      verifyStateTransitionBundle sampleBundleEnv sampleDeposit (sampleBundle root proof) = true ∧
      ((∀ k ∈ touchedKeysForLsu sampleBundleEnv sampleDeposit,
          sampleState[k]? = (expectedAfter sampleBundleEnv sampleDeposit sampleState)[k]?) ↔
        ∀ k ∈ touchedKeysForLsu sampleBundleEnv sampleDeposit,
          k ∉ (sampleBundle root proof).changes.map KeyProofChange.key →
          sampleState[k]? = (expectedAfter sampleBundleEnv sampleDeposit sampleState)[k]?) := by
  obtain ⟨root, proof, built, accepted, free⟩ := exists_proof_oneItem
  exact ⟨root, proof, sampleBundle_accepted accepted, verifyStateTransitionBundle_sound_iff
    sampleBundleEnv sampleDeposit (sampleBundle root proof) sampleState sampleState
    (sampleBundle_committed built free) (by decide +kernel) (sampleBundle_accepted accepted)⟩

end CatalystNode
