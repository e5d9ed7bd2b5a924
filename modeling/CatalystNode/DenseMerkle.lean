import CatalystNode.BalanceProofs

namespace CatalystNode

open ByteVector HexCodec SparseTree DenseTree

section Storage

variable (sha256 : Bytes → Hash)

def merkleRoot (leaves : List Hash) : Hash :=
  if leaves.isEmpty then zeros 32
  else (collapse (hNode sha256) leaves.length leaves).headD (zeros 32)

/-- Nothing stands for an index out of bounds in a level. -/
def merkleProof (leaves : List Hash) (index : Nat) : Option (Except StorageError MerkleProof) :=
  if leaves.isEmpty then some (.error (.internal "Cannot build proof for empty tree"))
  else
    match leaves[index]? with
    | none => some (.error (.internal "Merkle proof index out of bounds"))
    | some leaf =>
      (collapseWith (hNode sha256) MerkleStep.mk leaves.length index leaves []).map
        (fun built => .ok ⟨leaf, built.2⟩)

/-- The side of each step is taken from the proof. -/
def verifyProof (root : Hash) (proof : MerkleProof) : Bool :=
  proof.steps.foldl (fun cur step =>
    if step.siblingIsLeft then hNode sha256 step.sibling cur else hNode sha256 cur step.sibling) proof.leaf = root

end Storage

section Rpc

variable (blake2b512 : Bytes → ByteVec 64)

/-- A single leaf is its own root; nothing stands for an index out of bounds in a level. -/
def merkleRootAndProof (leaves : List Hash) (index : Nat) : Option (Hash × List String) :=
  if leaves.isEmpty then some (zeros 32, [])
  else if leaves.length = 1 then some (leaves.headD (zeros 32), [])
  else
    (collapseWith (hashPair blake2b512) (fun isRight sib => stepText ⟨isRight, sib⟩) leaves.length index
      leaves []).map (fun built => (built.1.headD (zeros 32), built.2))

def foldProof (leaf : Hash) (proof : List String) : Except String Hash :=
  proof.foldlM (fun cur step => do
    let (left, sib) ← stepOfText step
    return if left then hashPair blake2b512 sib cur else hashPair blake2b512 cur sib) leaf

end Rpc

section Verified

variable {sha256 : Bytes → Hash} {blake2b512 : Bytes → ByteVec 64} {leaves : List Hash} {index : Nat}
  {leaf : Hash}

theorem foldl_merkleSteps (cur : Hash) (steps : List (Bool × Hash)) :
    (steps.map (fun step => MerkleStep.mk step.1 step.2)).foldl (fun cur step =>
      if step.siblingIsLeft then hNode sha256 step.sibling cur else hNode sha256 cur step.sibling) cur =
      ascend (hNode sha256) cur steps := by
  induction steps generalizing cur with
  | nil => rfl
  | cons step steps ih =>
    rw [List.map_cons, List.foldl_cons, ih, ascend, beside]
    split <;> rfl

theorem isEmpty_eq_false (here : leaves[index]? = some leaf) : leaves.isEmpty = false := by
  cases leaves with
  | nil => cases here
  | cons first rest => rfl

theorem verifyProof_merkleProof (here : leaves[index]? = some leaf) :
    ∃ proof, merkleProof sha256 leaves index = some (.ok proof) ∧ proof.leaf = leaf ∧
      verifyProof sha256 (merkleRoot sha256 leaves) proof = true := by
  have filled := isEmpty_eq_false here
  obtain ⟨steps, noted, root⟩ := collapseWith_eq (hNode sha256) MerkleStep.mk [] (Nat.le_succ leaves.length) here
  refine ⟨⟨leaf, steps.map (fun step => MerkleStep.mk step.1 step.2)⟩, ?_, rfl, ?_⟩
  · simp only [merkleProof, filled, here, noted, Bool.false_eq_true, if_false, Option.map_some, List.nil_append]
  · simp only [verifyProof, merkleRoot, filled, root, Bool.false_eq_true, if_false, List.headD_cons,
      foldl_merkleSteps, decide_true]

theorem foldProof_stepText (cur : Hash) (steps : List (Bool × Hash)) :
    foldProof blake2b512 cur (steps.map (fun step => stepText ⟨step.1, step.2⟩)) =
      .ok (ascend (hashPair blake2b512) cur steps) := by
  have read := mapM_stepOfText_stepText (steps.map (fun step => MerkleStep.mk step.1 step.2))
  rw [List.map_map, List.map_map] at read
  rw [foldProof, foldlM_stepOfText]
  exact (congrArg (Except.map _) read).trans (by simp [Except.map, Function.comp_def])

theorem foldProof_merkleRootAndProof (here : leaves[index]? = some leaf) :
    ∃ root proof, merkleRootAndProof blake2b512 leaves index = some (root, proof) ∧
      foldProof blake2b512 leaf proof = .ok root := by
  rw [merkleRootAndProof, isEmpty_eq_false here, if_neg Bool.false_ne_true]
  by_cases single : leaves.length = 1
  · obtain ⟨only, rfl⟩ := List.length_eq_one_iff.mp single
    obtain rfl : index = 0 := by simpa using (List.getElem?_eq_some_iff.mp here).1
    cases here
    exact ⟨leaf, [], rfl, rfl⟩
  · obtain ⟨steps, noted, -⟩ := collapseWith_eq (hashPair blake2b512)
      (fun isRight sib => stepText ⟨isRight, sib⟩) [] (Nat.le_succ leaves.length) here
    refine ⟨_, _, ?_, foldProof_stepText leaf steps⟩
    rw [if_neg single, noted]
    rfl

/-- Proofs of both dense trees lead from their leaf to the root, for every number of leaves. -/
theorem denseProofs_verify (sha256 : Bytes → Hash) (blake2b512 : Bytes → ByteVec 64) {leaves : List Hash}
    {index : Nat} (inside : index < leaves.length) :
    (∃ proof, merkleProof sha256 leaves index = some (.ok proof) ∧ proof.leaf = leaves[index] ∧
      verifyProof sha256 (merkleRoot sha256 leaves) proof = true) ∧
    ∃ root proof, merkleRootAndProof blake2b512 leaves index = some (root, proof) ∧
      foldProof blake2b512 leaves[index] proof = .ok root :=
  ⟨verifyProof_merkleProof (List.getElem?_eq_getElem inside),
    foldProof_merkleRootAndProof (List.getElem?_eq_getElem inside)⟩

def oddLeaves : List Hash := [padTo 32 [1], padTo 32 [2], padTo 32 [3]]

theorem denseProofs_verify_odd :
    (∃ proof, merkleProof (padTo 32) oddLeaves 2 = some (.ok proof) ∧ proof.leaf = padTo 32 [3] ∧
      verifyProof (padTo 32) (merkleRoot (padTo 32) oddLeaves) proof = true) ∧
    ∃ root proof, merkleRootAndProof (padTo 64) oddLeaves 2 = some (root, proof) ∧
      foldProof (padTo 64) (padTo 32 [3]) proof = .ok root :=
  denseProofs_verify (padTo 32) (padTo 64) (show 2 < oddLeaves.length by decide)

end Verified

end CatalystNode
