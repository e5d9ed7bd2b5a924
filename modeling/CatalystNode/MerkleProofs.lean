import CatalystNode.SparseMerkle

namespace CatalystNode

open ByteVector SparseTree

structure MerkleStep where
  siblingIsLeft : Bool
  sibling : Hash
  deriving DecidableEq

structure MerkleProof where
  leaf : Hash
  steps : List MerkleStep
  deriving DecidableEq

section Model

variable (sha256 : Bytes → Hash)

/-- The loop of the verifier: a step whose direction is not the one of the path is refused. -/
def verifySteps : ByteVec 32 → Hash → List MerkleStep → Option Hash
  | _, cur, [] => some cur
  | idx, cur, step :: steps =>
    if step.siblingIsLeft ≠ decide (idxLsb idx = 1) then none
    else verifySteps (idxShr1 idx) (if step.siblingIsLeft then hNode sha256 step.sibling cur
      else hNode sha256 cur step.sibling) steps

def verifyProofForKeyAndLeaf (root : Hash) (key : Bytes) (expectedLeaf : Hash)
    (proof : MerkleProof) : Bool :=
  if proof.steps.length ≠ treeDepth then false
  else if proof.leaf ≠ expectedLeaf then false
  else verifySteps sha256 (keyPath sha256 key) proof.leaf proof.steps = some root

def verifyProofForKey (root : Hash) (key value : Bytes) (proof : MerkleProof) : Bool :=
  verifyProofForKeyAndLeaf sha256 root key (leafHashForKv sha256 key value) proof

def verifyAbsenceProofForKey (root : Hash) (key : Bytes) (proof : MerkleProof) : Bool :=
  verifyProofForKeyAndLeaf sha256 root key (hEmptyLeaf sha256) proof

def proofSteps (depths : List PathMap) : Nat → ByteVec 32 → List MerkleStep
  | 0, _ => []
  | d + 1, idx =>
    ⟨idxLsb idx = 1,
      (depths.getD (d + 1) ∅).getD (idxXor1 idx) (emptyHashes sha256 (treeDepth - (d + 1)))⟩ ::
      proofSteps depths d (idxShr1 idx)

def proofForLeaf (depths : List PathMap) (key : Bytes) (leaf : Hash) : MerkleProof :=
  ⟨leaf, proofSteps sha256 depths treeDepth (keyPath sha256 key)⟩

def targetValue (items : List (Bytes × Bytes)) (key : Bytes) : Option Bytes :=
  items.foldl (fun target item => if item.1 = key then some item.2 else target) none

def computeRootAndProofFromIter (items : List (Bytes × Bytes)) (key : Bytes) :
    Except StorageError (Option (Hash × Bytes × MerkleProof)) :=
  match targetValue items key with
  | none => .ok none
  | some value => do
    let (root, depths) ← buildDepthMaps sha256 (leafMapFromIter sha256 items)
    return some (root, value, proofForLeaf sha256 depths key (leafHashForKv sha256 key value))

def valuesFromIter (items : List (Bytes × Bytes)) : Std.ExtTreeMap Bytes Bytes :=
  items.foldl (fun values item => values.insert item.1 item.2) ∅

def proofOfKey (depths : List PathMap) (values : Std.ExtTreeMap Bytes Bytes) (key : Bytes) :
    Bytes × Option Bytes × MerkleProof :=
  let leaf := match values[key]? with
    | some value => leafHashForKv sha256 key value
    | none => hEmptyLeaf sha256
  (key, values[key]?, proofForLeaf sha256 depths key leaf)

def computeRootAndMultiProofsFromIter (items : List (Bytes × Bytes)) (keys : List Bytes) :
    Except StorageError (Hash × List (Bytes × Option Bytes × MerkleProof)) := do
  let (root, depths) ← buildDepthMaps sha256 (leafMapFromIter sha256 items)
  return (root, keys.map (proofOfKey sha256 depths (valuesFromIter items)))

end Model

section Paths

variable {sha256 : Bytes → Hash}

theorem pathNumber_idxXor1_eq_siblingOf (idx : ByteVec 32) :
    pathNumber (idxXor1 idx) = siblingOf (pathNumber idx) := by
  rw [pathNumber_idxXor1, siblingOf]
  split
  next => omega
  next => omega

theorem orient_of_idxLsb (idx : ByteVec 32) (cur sibling : Hash) :
    (if decide (idxLsb idx = 1) then hNode sha256 sibling cur else hNode sha256 cur sibling) =
      hNode sha256 (orient (pathNumber idx) cur sibling).1
        (orient (pathNumber idx) cur sibling).2 := by
  simp only [decide_eq_true_eq, idxLsb_eq_one_iff]
  unfold orient
  split
  next => rfl
  next => rfl

/-- A walk the verifier does not refuse climbs the tree along the bits of the path. -/
theorem climb_of_verifySteps {idx : ByteVec 32} {cur root : Hash} {steps : List MerkleStep}
    (h : verifySteps sha256 idx cur steps = some root) :
    climb (hNode sha256) (pathNumber idx) cur (steps.map MerkleStep.sibling) = root := by
  induction steps generalizing idx cur with
  | nil => exact Option.some.inj h
  | cons step steps ih =>
    rw [verifySteps] at h
    split at h
    next => simp at h
    next direction =>
      rw [not_not] at direction
      have rest := ih h
      rw [pathNumber_idxShr1, direction, orient_of_idxLsb] at rest
      exact rest

theorem verifySteps_proofSteps (depths : List PathMap) (d : Nat) (idx : ByteVec 32) (cur : Hash) :
    verifySteps sha256 idx cur (proofSteps sha256 depths d idx) =
      some (climb (hNode sha256) (pathNumber idx) cur
        ((proofSteps sha256 depths d idx).map MerkleStep.sibling)) := by
  induction d generalizing idx cur with
  | zero => rfl
  | succ d ih =>
    rw [proofSteps, verifySteps, if_neg (by simp), ih, List.map_cons, climb, pathNumber_idxShr1]
    dsimp only
    rw [orient_of_idxLsb]

theorem length_proofSteps (depths : List PathMap) (d : Nat) (idx : ByteVec 32) :
    (proofSteps sha256 depths d idx).length = d := by
  induction d generalizing idx with
  | zero => rfl
  | succ d ih => rw [proofSteps, List.length_cons, ih]

/-- What a depth's map stores next to a path is the root of the subtree there. -/
theorem DepthMap.getD_idxXor1 {leafMap m : PathMap} {d : Nat} (level : DepthMap sha256 leafMap d m)
    {idx : ByteVec 32} (below : pathNumber idx < 2 ^ d) (inner : 0 < d) :
    m.getD (idxXor1 idx) (emptyHashes sha256 (treeDepth - d)) =
      subtreeRoot (hNode sha256) (leafAt sha256 leafMap) (treeDepth - d)
        (siblingOf (pathNumber idx)) := by
  have even : 2 ^ d % 2 = 0 := by
    obtain ⟨e, rfl⟩ : ∃ e, d = e + 1 := ⟨d - 1, by omega⟩
    rw [Nat.pow_succ]
    omega
  have beside : siblingOf (pathNumber idx) < 2 ^ d := by
    unfold siblingOf
    split
    next => omega
    next => omega
  have value := level.value _ beside
  rw [← emptyHashes_eq_emptyRoot, entryAt, ← Std.ExtTreeMap.getD_eq_getD_getElem?,
    ← pathNumber_idxXor1_eq_siblingOf, pathNumber, beBytes_ofBeBytes] at value
  rw [value, ← pathNumber_idxXor1_eq_siblingOf]
  rfl

theorem map_sibling_proofSteps {leafMap : PathMap} {depths : List PathMap}
    (length : depths.length = treeDepth + 1)
    (maps : ∀ k m, depths[k]? = some m → DepthMap sha256 leafMap k m) {d : Nat}
    (hd : d ≤ treeDepth) {idx : ByteVec 32} (below : pathNumber idx < 2 ^ d) :
    (proofSteps sha256 depths d idx).map MerkleStep.sibling =
      siblings (hNode sha256) (leafAt sha256 leafMap) (treeDepth - d) (pathNumber idx) d := by
  induction d generalizing idx with
  | zero => rfl
  | succ d ih =>
    have stored : depths[d + 1]? = some (depths.getD (d + 1) ∅) := by
      rw [List.getD_eq_getElem?_getD, List.getElem?_eq_getElem (by omega), Option.getD_some]
    have half : pathNumber (idxShr1 idx) < 2 ^ d := by
      rw [pathNumber_idxShr1]
      rw [Nat.pow_succ] at below
      omega
    rw [proofSteps, List.map_cons, siblings, (maps _ _ stored).getD_idxXor1 below (by omega),
      ih (by omega) half, pathNumber_idxShr1, show treeDepth - (d + 1) + 1 = treeDepth - d by omega]

end Paths

section Completeness

variable {sha256 : Bytes → Hash} {items : List (Bytes × Bytes)}

theorem pathNumber_lt (idx : ByteVec 32) : pathNumber idx < 2 ^ treeDepth := by
  have bound := ofLeBytes_lt idx.toList.reverse
  rw [List.length_reverse, idx.toList_length] at bound
  exact lt_of_lt_of_eq bound (by norm_num [treeDepth])

/-- The prover's steps lead the verifier from the leaf the tree has at a key to the root. -/
theorem verifyProofForKeyAndLeaf_proofForLeaf {leafMap : PathMap} {depths : List PathMap}
    (length : depths.length = treeDepth + 1)
    (maps : ∀ k m, depths[k]? = some m → DepthMap sha256 leafMap k m) {key : Bytes} {leaf : Hash}
    (here : leafAt sha256 leafMap (pathNumber (keyPath sha256 key)) = leaf) :
    verifyProofForKeyAndLeaf sha256
      (subtreeRoot (hNode sha256) (leafAt sha256 leafMap) treeDepth 0) key leaf
      (proofForLeaf sha256 depths key leaf) = true := by
  have below := pathNumber_lt (keyPath sha256 key)
  unfold verifyProofForKeyAndLeaf proofForLeaf
  rw [if_neg (by simp [length_proofSteps]), if_neg (by simp), verifySteps_proofSteps,
    map_sibling_proofSteps length maps le_rfl below, decide_eq_true_eq, Nat.sub_self, ← here]
  have walk := @climb_siblings _ (hNode sha256) (leafAt sha256 leafMap) treeDepth 0
    (pathNumber (keyPath sha256 key))
  rw [subtreeRoot] at walk
  rw [walk, Nat.zero_add, Nat.div_eq_of_lt below]

theorem targetValue_eq (key : Bytes) :
    targetValue items key = (valuesFromIter items)[key]? := by
  induction items using List.reverseRecOn with
  | nil => simp [targetValue, valuesFromIter]
  | append_singleton items item ih =>
    rw [targetValue, valuesFromIter, List.foldl_concat, List.foldl_concat,
      Std.ExtTreeMap.getElem?_insert]
    simp only [Std.LawfulEqCmp.compare_eq_iff_eq]
    split
    next => rfl
    next => exact ih

theorem getElem?_valuesFromIter (distinct : (items.map Prod.fst).Nodup) (key value : Bytes) :
    (valuesFromIter items)[key]? = some value ↔ (key, value) ∈ items := by
  induction items using List.reverseRecOn with
  | nil => simp [valuesFromIter]
  | append_singleton items item ih =>
    rw [List.map_append, List.nodup_append] at distinct
    obtain ⟨init, -, apart⟩ := distinct
    rw [valuesFromIter, List.foldl_concat, Std.ExtTreeMap.getElem?_insert, List.mem_append,
      List.mem_singleton]
    change (if _ then _ else (valuesFromIter items)[key]?) = _ ↔ _
    simp only [Std.LawfulEqCmp.compare_eq_iff_eq]
    split
    next same =>
      subst same
      constructor
      · intro h
        exact Or.inr (Prod.ext rfl (Option.some.inj h).symm)
      · rintro (h | h)
        · exact absurd rfl (apart _ (List.mem_map_of_mem h) item.1 (by simp))
        · rw [← h]
    next other =>
      rw [ih init]
      constructor
      · exact Or.inl
      · rintro (h | rfl)
        · exact h
        · exact absurd rfl other

theorem nodup_keyPath (distinct : (items.map Prod.fst).Nodup)
    (paths : Set.InjOn (keyPath sha256) {k | k ∈ items.map Prod.fst}) :
    (items.map (fun item => keyPath sha256 item.1)).Nodup := by
  have split : items.map (fun item => keyPath sha256 item.1) =
      (items.map Prod.fst).map (keyPath sha256) := by rw [List.map_map]; rfl
  rw [split]
  exact List.Nodup.map_on (fun a ha b hb same => paths ha hb same) distinct

theorem leafAt_keyPath (distinct : (items.map Prod.fst).Nodup) {key : Bytes}
    (paths : Set.InjOn (keyPath sha256) (insert key {k | k ∈ items.map Prod.fst})) :
    leafAt sha256 (leafMapFromIter sha256 items) (pathNumber (keyPath sha256 key)) =
      match (valuesFromIter items)[key]? with
      | some value => leafHashForKv sha256 key value
      | none => hEmptyLeaf sha256 := by
  have known := getElem?_leafMapFromIter
    (nodup_keyPath distinct (paths.mono (Set.subset_insert _ _)))
  rw [leafAt, entryAt, pathNumber, beBytes_ofBeBytes]
  cases stored : (valuesFromIter items)[key]? with
  | some value =>
    have listed := (getElem?_valuesFromIter distinct key value).mp stored
    rw [(known _ _).mpr ⟨(key, value), listed, rfl, rfl⟩]
    rfl
  | none =>
    have missing : (leafMapFromIter sha256 items)[keyPath sha256 key]? = none := by
      rw [Option.eq_none_iff_forall_ne_some]
      intro v hv
      obtain ⟨item, listed, same, -⟩ := (known _ _).mp hv
      have mine : item.1 = key :=
        paths (Or.inr (List.mem_map_of_mem listed)) (Or.inl rfl) same
      have found := (getElem?_valuesFromIter distinct item.1 item.2).mpr listed
      rw [mine, stored] at found
      exact Option.some_ne_none _ found.symm
    rw [missing]
    rfl

theorem verifyProofForKeyAndLeaf_proofOfKey (distinct : (items.map Prod.fst).Nodup) {key : Bytes}
    (paths : Set.InjOn (keyPath sha256) (insert key {k | k ∈ items.map Prod.fst}))
    {depths : List PathMap} (length : depths.length = treeDepth + 1)
    (maps : ∀ k m, depths[k]? = some m → DepthMap sha256 (leafMapFromIter sha256 items) k m) :
    verifyProofForKeyAndLeaf sha256
      (subtreeRoot (hNode sha256) (leafAt sha256 (leafMapFromIter sha256 items)) treeDepth 0) key
      (match (valuesFromIter items)[key]? with
        | some value => leafHashForKv sha256 key value
        | none => hEmptyLeaf sha256)
      (proofOfKey sha256 depths (valuesFromIter items) key).2.2 = true :=
  verifyProofForKeyAndLeaf_proofForLeaf length maps (leafAt_keyPath distinct paths)

/-- What the two provers return for the keys of a list, from the depth maps they both build. -/
theorem computeRoots_spec (sha256 : Bytes → Hash) (items : List (Bytes × Bytes)) :
    ∃ depths, depths.length = treeDepth + 1 ∧
      (∀ k m, depths[k]? = some m → DepthMap sha256 (leafMapFromIter sha256 items) k m) ∧
      ∃ root, root = subtreeRoot (hNode sha256) (leafAt sha256 (leafMapFromIter sha256 items))
          treeDepth 0 ∧
        computeRootFromIter sha256 items = .ok root ∧
        (∀ keys, computeRootAndMultiProofsFromIter sha256 items keys =
          .ok (root, keys.map (proofOfKey sha256 depths (valuesFromIter items)))) ∧
        ∀ key, computeRootAndProofFromIter sha256 items key =
          .ok ((valuesFromIter items)[key]?.map fun value =>
            (root, value, proofForLeaf sha256 depths key (leafHashForKv sha256 key value))) := by
  obtain ⟨depths, run, length, maps⟩ := buildDepthMaps_ok (leafMapFromIter sha256 items)
  refine ⟨depths, length, maps, _, rfl, ?_, fun keys => ?_, fun key => ?_⟩
  · rw [computeRootFromIter, run]
    rfl
  · rw [computeRootAndMultiProofsFromIter, run]
    rfl
  · rw [computeRootAndProofFromIter, targetValue_eq, run]
    cases (valuesFromIter items)[key]? with
    | none => rfl
    | some value => rfl

end Completeness

/-- Every listed key gets a proof that its verifier accepts, of its value or of its absence, and the
single-key prover makes the same one. -/
theorem computeRootAndMultiProofs_complete (sha256 : Bytes → Hash) (items : List (Bytes × Bytes))
    (keys : List Bytes) (distinct : (items.map Prod.fst).Nodup)
    (paths : Set.InjOn (keyPath sha256) {k | k ∈ keys ∨ k ∈ items.map Prod.fst}) :
    ∃ root proofs, computeRootFromIter sha256 items = .ok root ∧
      computeRootAndMultiProofsFromIter sha256 items keys = .ok (root, proofs) ∧
      proofs.map Prod.fst = keys ∧
      ∀ key found proof, (key, found, proof) ∈ proofs →
        (∀ value, (key, value) ∈ items →
          found = some value ∧ verifyProofForKey sha256 root key value proof = true ∧
          computeRootAndProofFromIter sha256 items key = .ok (some (root, value, proof))) ∧
        (key ∉ items.map Prod.fst →
          found = none ∧ verifyAbsenceProofForKey sha256 root key proof = true) := by
  obtain ⟨depths, length, maps, root, isRoot, single, multi, one⟩ := computeRoots_spec sha256 items
  refine ⟨root, _, single, multi keys, ?_, fun key found proof listed => ?_⟩
  · rw [List.map_map]
    exact List.map_id _
  · obtain ⟨k, hk, made⟩ := List.mem_map.mp listed
    obtain rfl : k = key := congrArg Prod.fst made
    obtain rfl : (valuesFromIter items)[k]? = found := congrArg (fun e => e.2.1) made
    obtain rfl : (proofOfKey sha256 depths (valuesFromIter items) k).2.2 = proof :=
      congrArg (fun e => e.2.2) made
    have accepted := verifyProofForKeyAndLeaf_proofOfKey distinct
      (paths.mono (Set.insert_subset (Or.inl hk) (fun _ hj => Or.inr hj))) length maps
    rw [← isRoot] at accepted
    refine ⟨fun value member => ?_, fun missing => ?_⟩
    · have stored := (getElem?_valuesFromIter distinct k value).mpr member
      rw [stored] at accepted
      refine ⟨stored, accepted, ?_⟩
      rw [one, proofOfKey, stored]
      rfl
    · have absent : (valuesFromIter items)[k]? = none := by
        rw [Option.eq_none_iff_forall_ne_some]
        intro value stored
        exact missing (List.mem_map_of_mem ((getElem?_valuesFromIter distinct k value).mp stored))
      rw [absent] at accepted
      exact ⟨absent, accepted⟩

/-- One of two accounts and a key that no account has, with the key itself as its path. -/
theorem computeRootAndMultiProofs_complete_padTo :
    ∃ root member absent, computeRootFromIter (padTo 32) [([1], [7]), ([2], [8])] = .ok root ∧
      computeRootAndMultiProofsFromIter (padTo 32) [([1], [7]), ([2], [8])] [[2], [3]] =
        .ok (root, [([2], some [8], member), ([3], none, absent)]) ∧
      verifyProofForKey (padTo 32) root [2] [8] member = true ∧
      verifyAbsenceProofForKey (padTo 32) root [3] absent = true := by
  have paths : Set.InjOn (keyPath (padTo 32))
      {k | k ∈ [[2], [3]] ∨ k ∈ [([1], [7]), ([2], [8])].map (Prod.fst : Bytes × Bytes → Bytes)} := by
    intro a ha b hb same
    simp only [List.mem_cons, List.not_mem_nil, List.map_cons, List.map_nil, or_false,
      Set.mem_ofPred_eq] at ha hb
    rcases ha with (rfl | rfl) | (rfl | rfl) <;> rcases hb with (rfl | rfl) | (rfl | rfl) <;>
      first | rfl | exact absurd same (by decide)
  obtain ⟨root, proofs, single, multi, listed, each⟩ := computeRootAndMultiProofs_complete (padTo 32)
    [([1], [7]), ([2], [8])] [[2], [3]] (by decide) paths
  match proofs, listed with
  | [(k₂, f₂, p₂), (k₃, f₃, p₃)], listed =>
    simp only [List.map_cons, List.map_nil, List.cons.injEq, and_true] at listed
    obtain ⟨rfl, rfl⟩ := listed
    obtain ⟨rfl, accepted, -⟩ := (each [2] f₂ p₂ (by simp)).1 [8] (by decide)
    obtain ⟨rfl, refused⟩ := (each [3] f₃ p₃ (by simp)).2 (by decide)
    exact ⟨root, p₂, p₃, single, multi, accepted, refused⟩

end CatalystNode
