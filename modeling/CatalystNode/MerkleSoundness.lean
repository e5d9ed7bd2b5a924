import CatalystNode.MerkleProofs

namespace CatalystNode

open ByteVector SparseTree

def nodeInput (pair : Hash × Hash) : Bytes := 1 :: pair.1.toList ++ pair.2.toList

def leafInput (key value : Bytes) : Bytes :=
  0 :: leBytes 8 key.length ++ key ++ leBytes 8 value.length ++ value

def walkInputs (sha256 : Bytes → Hash) (key : Bytes) (leaf : Hash) (above : List Hash) : Set Bytes :=
  {x | ∃ pair ∈ climbPairs (hNode sha256) (pathNumber (keyPath sha256 key)) leaf above,
    x = nodeInput pair}

def treeInputs (sha256 : Bytes → Hash) (items : List (Bytes × Bytes)) (key : Bytes) : Set Bytes :=
  let leaves := leafAt sha256 (leafMapFromIter sha256 items)
  let path := pathNumber (keyPath sha256 key)
  {x | x = [2] ∨ (∃ item ∈ items, x = leafInput item.1 item.2) ∨
    x ∈ walkInputs sha256 key (leaves path) (siblings (hNode sha256) leaves 0 path treeDepth)}

def proofInputs (sha256 : Bytes → Hash) (key : Bytes) (proof : MerkleProof) : Set Bytes :=
  walkInputs sha256 key proof.leaf (proof.steps.map MerkleStep.sibling)

variable {sha256 : Bytes → Hash} {items : List (Bytes × Bytes)}

theorem nodeInput_inj {p q : Hash × Hash} (h : nodeInput p = nodeInput q) : p = q := by
  have bodies : p.1.toList ++ p.2.toList = q.1.toList ++ q.2.toList := List.tail_eq_of_cons_eq h
  obtain ⟨left, right⟩ := toList_append_inj.mp bodies
  exact Prod.ext left (Subtype.ext right)

/-- For one key the leaf hash's input determines the value, whatever the lengths. -/
theorem leafInput_inj {key value value' : Bytes}
    (h : leafInput key value = leafInput key value') : value = value' := by
  unfold leafInput at h
  simp only [List.append_assoc, List.append_right_inj] at h
  exact (List.append_inj h (by simp [length_leBytes])).2

theorem leafInput_ne_empty (key value : Bytes) : leafInput key value ≠ [2] := by
  intro h
  have head := (List.cons.inj h).1
  exact absurd head (by decide)

theorem injOn_hNode {inputs : Set Bytes} (free : Set.InjOn sha256 inputs) :
    Set.InjOn (fun p : Hash × Hash => hNode sha256 p.1 p.2) (Set.preimage nodeInput inputs) :=
  fun _ hp _ hq same => nodeInput_inj (free hp hq same)

theorem walk_of_verifyProofForKeyAndLeaf {root leaf : Hash} {key : Bytes} {proof : MerkleProof}
    (accepted : verifyProofForKeyAndLeaf sha256 root key leaf proof = true) :
    proof.steps.length = treeDepth ∧ proof.leaf = leaf ∧
      climb (hNode sha256) (pathNumber (keyPath sha256 key)) proof.leaf
        (proof.steps.map MerkleStep.sibling) = root := by
  unfold verifyProofForKeyAndLeaf at accepted
  split at accepted
  next => simp at accepted
  next length =>
    split at accepted
    next => simp at accepted
    next same =>
      rw [not_not] at length same
      exact ⟨length, same, climb_of_verifySteps (of_decide_eq_true accepted)⟩

theorem leaf_eq_of_verifyProofForKeyAndLeaf {root leaf : Hash} {key : Bytes} {proof : MerkleProof}
    (free : Set.InjOn sha256 (treeInputs sha256 items key ∪ proofInputs sha256 key proof))
    (isRoot : root = subtreeRoot (hNode sha256) (leafAt sha256 (leafMapFromIter sha256 items))
      treeDepth 0)
    (accepted : verifyProofForKeyAndLeaf sha256 root key leaf proof = true) :
    leaf = leafAt sha256 (leafMapFromIter sha256 items) (pathNumber (keyPath sha256 key)) := by
  obtain ⟨length, rfl, walk⟩ := walk_of_verifyProofForKeyAndLeaf accepted
  have honest := @climb_siblings _ (hNode sha256) (leafAt sha256 (leafMapFromIter sha256 items))
    treeDepth 0 (pathNumber (keyPath sha256 key))
  rw [Nat.zero_add, Nat.div_eq_of_lt (pathNumber_lt _), ← isRoot, ← walk] at honest
  have inTree : ∀ p ∈ climbPairs (hNode sha256) _ _ (siblings (hNode sha256) _ 0 _ treeDepth),
      p ∈ Set.preimage nodeInput (treeInputs sha256 items key ∪ proofInputs sha256 key proof) :=
    fun p hp => Or.inl (Or.inr (Or.inr ⟨p, hp, rfl⟩))
  have inProof : ∀ p ∈ climbPairs (hNode sha256) _ _ (proof.steps.map MerkleStep.sibling),
      p ∈ Set.preimage nodeInput (treeInputs sha256 items key ∪ proofInputs sha256 key proof) :=
    fun p hp => Or.inr ⟨p, hp, rfl⟩
  have same := eq_of_climb_eq (injOn_hNode free) inTree inProof
    (by rw [length_siblings, List.length_map, length]) honest
  exact same.1.symm

theorem eq_subtreeRoot_of_computeRootFromIter {root : Hash}
    (built : computeRootFromIter sha256 items = .ok root) :
    root = subtreeRoot (hNode sha256) (leafAt sha256 (leafMapFromIter sha256 items)) treeDepth 0 := by
  obtain ⟨-, -, -, r, isRoot, single, -⟩ := computeRoots_spec sha256 items
  rw [← isRoot]
  exact Except.ok.inj (built.symm.trans single)

section Binding

variable {root : Hash} {key value : Bytes} {proof : MerkleProof}

theorem mem_of_verifyProofForKey (distinct : (items.map Prod.fst).Nodup)
    (paths : Set.InjOn (keyPath sha256) (insert key {k | k ∈ items.map Prod.fst}))
    (free : Set.InjOn sha256 (insert (leafInput key value)
      (treeInputs sha256 items key ∪ proofInputs sha256 key proof)))
    (built : computeRootFromIter sha256 items = .ok root)
    (accepted : verifyProofForKey sha256 root key value proof = true) : (key, value) ∈ items := by
  have same := (leaf_eq_of_verifyProofForKeyAndLeaf (free.mono (Set.subset_insert _ _))
    (eq_subtreeRoot_of_computeRootFromIter built) accepted).trans (leafAt_keyPath distinct paths)
  cases stored : (valuesFromIter items)[key]? with
  | some v =>
    have listed := (getElem?_valuesFromIter distinct key v).mp stored
    have hashed : leafInput key v ∈ treeInputs sha256 items key :=
      Or.inr (Or.inl ⟨(key, v), listed, rfl⟩)
    rw [stored] at same
    rw [leafInput_inj (free (Or.inl rfl) (Or.inr (Or.inl hashed)) same)]
    exact listed
  | none =>
    rw [stored] at same
    exact absurd (free (Or.inl rfl) (Or.inr (Or.inl (Or.inl rfl))) same)
      (leafInput_ne_empty key value)

theorem not_mem_of_verifyAbsenceProofForKey (distinct : (items.map Prod.fst).Nodup)
    (paths : Set.InjOn (keyPath sha256) (insert key {k | k ∈ items.map Prod.fst}))
    (free : Set.InjOn sha256 (treeInputs sha256 items key ∪ proofInputs sha256 key proof))
    (built : computeRootFromIter sha256 items = .ok root)
    (accepted : verifyAbsenceProofForKey sha256 root key proof = true) :
    key ∉ items.map Prod.fst := by
  intro listed
  obtain ⟨⟨k, v⟩, member, rfl⟩ := List.mem_map.mp listed
  have same := (leaf_eq_of_verifyProofForKeyAndLeaf free
    (eq_subtreeRoot_of_computeRootFromIter built) accepted).trans (leafAt_keyPath distinct paths)
  rw [(getElem?_valuesFromIter distinct k v).mpr member] at same
  exact absurd (free (Or.inl (Or.inr (Or.inl ⟨(k, v), member, rfl⟩))) (Or.inl (Or.inl rfl)) same.symm)
    (leafInput_ne_empty k v)

end Binding

/-- Whatever a proof contains, the verifiers accept it only for what the map says of the key. -/
theorem verifyProofForKey_sound (sha256 : Bytes → Hash) (items : List (Bytes × Bytes)) (root : Hash)
    (key value : Bytes) (proof : MerkleProof) (distinct : (items.map Prod.fst).Nodup)
    (paths : Set.InjOn (keyPath sha256) (insert key {k | k ∈ items.map Prod.fst}))
    (free : Set.InjOn sha256 (insert (leafInput key value)
      (treeInputs sha256 items key ∪ proofInputs sha256 key proof)))
    (built : computeRootFromIter sha256 items = .ok root) :
    (verifyProofForKey sha256 root key value proof = true → (key, value) ∈ items) ∧
      (verifyAbsenceProofForKey sha256 root key proof = true → key ∉ items.map Prod.fst) :=
  ⟨mem_of_verifyProofForKey distinct paths free built,
    not_mem_of_verifyAbsenceProofForKey distinct paths (free.mono (Set.subset_insert _ _)) built⟩

section Counting

/-- A hash that counts: a node is two above the larger child, an empty leaf two, a leaf three. -/
def countingSha : Bytes → Hash
  | 1 :: rest => beBytes 32 (max (ofBeBytes (rest.take 32)) (ofBeBytes (rest.drop 32)) + 2)
  | 2 :: _ => beBytes 32 2
  | 0 :: _ :: _ => beBytes 32 3
  | _ => zeros 32

def oneItem : List (Bytes × Bytes) := [([0], [7])]

theorem hNode_countingSha {a b : Nat} (ha : a < 256 ^ 32) (hb : b < 256 ^ 32) :
    hNode countingSha (beBytes 32 a) (beBytes 32 b) = beBytes 32 (max a b + 2) := by
  have left : ((beBytes 32 a).toList ++ (beBytes 32 b).toList).take 32 = (beBytes 32 a).toList :=
    List.take_left' (by simp)
  have right : ((beBytes 32 a).toList ++ (beBytes 32 b).toList).drop 32 = (beBytes 32 b).toList :=
    List.drop_left' (by simp)
  rw [hNode, List.cons_append, countingSha, left, right, ofBeBytes_beBytes ha, ofBeBytes_beBytes hb]

section Single

variable {key : Bytes} (path : keyPath countingSha key = beBytes 32 0) (value : Bytes)

include path

theorem leafAt_single {i : Nat} (hi : i < 2 ^ treeDepth) :
    leafAt countingSha (leafMapFromIter countingSha [(key, value)]) i =
      beBytes 32 (if i = 0 then 3 else 2) := by
  have leaf : leafHashForKv countingSha key value = beBytes 32 3 := rfl
  have blank : hEmptyLeaf countingSha = beBytes 32 2 := by decide
  rw [leafAt, entryAt, leafMapFromIter, List.foldl_cons, List.foldl_nil, path, leaf, blank,
    Std.ExtTreeMap.getElem?_insert]
  simp only [compare_eq_iff_eq]
  split
  next same =>
    have zero := congrArg (fun v : ByteVec 32 => ofBeBytes v.toList) same
    rw [ofBeBytes_beBytes (by norm_num), ofBeBytes_beBytes (lt_of_lt_of_eq hi (by norm_num [treeDepth]))]
      at zero
    rw [if_pos zero.symm]
    rfl
  next other =>
    rw [if_neg (fun zero => other (by rw [zero]))]
    simp

theorem subtreeRoot_single {h i : Nat} (hh : h ≤ treeDepth) (hi : i < 2 ^ (treeDepth - h)) :
    subtreeRoot (hNode countingSha) (leafAt countingSha (leafMapFromIter countingSha [(key, value)])) h i =
      beBytes 32 (if i = 0 then 3 + 2 * h else 2 + 2 * h) := by
  induction h generalizing i with
  | zero => exact leafAt_single path value hi
  | succ h ih =>
    have wide : 2 * 2 ^ (treeDepth - (h + 1)) = 2 ^ (treeDepth - h) := by
      rw [← Nat.pow_succ', show (treeDepth - (h + 1)).succ = treeDepth - h by omega]
    have small : 3 + 2 * h < 256 ^ 32 := lt_of_le_of_lt (by unfold treeDepth at hh; omega)
      (show 600 < 256 ^ 32 by norm_num)
    rw [subtreeRoot, ih (by omega) (by omega), ih (by omega) (by omega),
      if_neg (show ¬2 * i + 1 = 0 by omega), hNode_countingSha]
    · congr 1
      split_ifs <;> omega
    · split_ifs <;> omega
    · omega

end Single

theorem subtreeRoot_oneItem {h i : Nat} (hh : h ≤ treeDepth) (hi : i < 2 ^ (treeDepth - h)) :
    subtreeRoot (hNode countingSha) (leafAt countingSha (leafMapFromIter countingSha oneItem)) h i =
      beBytes 32 (if i = 0 then 3 + 2 * h else 2 + 2 * h) :=
  subtreeRoot_single (by decide) _ hh hi

theorem mem_climbPairs_oneItem {n h : Nat} (hh : h + n ≤ treeDepth) {p : Hash × Hash}
    (hp : p ∈ climbPairs (hNode countingSha) 0
      (subtreeRoot (hNode countingSha) (leafAt countingSha (leafMapFromIter countingSha oneItem)) h 0)
      (siblings (hNode countingSha) (leafAt countingSha (leafMapFromIter countingSha oneItem)) h 0 n)) :
    ∃ k, k < treeDepth ∧ p = (beBytes 32 (3 + 2 * k), beBytes 32 (2 + 2 * k)) := by
  induction n generalizing h with
  | zero => simp [siblings, climbPairs] at hp
  | succ n ih =>
    rw [siblings, climbPairs, orient_children] at hp
    rcases List.mem_cons.mp hp with rfl | above
    · have two : 1 < 2 ^ (treeDepth - h) := Nat.one_lt_two_pow (by omega)
      refine ⟨h, by omega, ?_⟩
      rw [subtreeRoot_oneItem (by omega) (by omega), subtreeRoot_oneItem (by omega) (by omega)]
      rfl
    · exact ih (h := h + 1) (by omega) above

theorem pathNumber_oneItem : pathNumber (keyPath countingSha [0]) = 0 := by decide

/-- The inputs hashed for the only key of the tree, with what each counts to. -/
inductive Counts : Bytes → Nat → Prop
  | empty : Counts [2] 2
  | leaf : Counts (leafInput [0] [7]) 3
  | node (k : Nat) : k < treeDepth →
    Counts (nodeInput (beBytes 32 (3 + 2 * k), beBytes 32 (2 + 2 * k))) (5 + 2 * k)

theorem Counts.lt {x : Bytes} {n : Nat} (h : Counts x n) : n < 256 ^ 32 := by
  have room : 600 < 256 ^ 32 := by norm_num
  cases h with
  | empty => omega
  | leaf => omega
  | node k hk =>
    unfold treeDepth at hk
    omega

theorem Counts.hash {x : Bytes} {n : Nat} (h : Counts x n) : countingSha x = beBytes 32 n := by
  have small := h.lt
  cases h with
  | empty => rfl
  | leaf => rfl
  | node k hk =>
    have counted := hNode_countingSha (a := 3 + 2 * k) (b := 2 + 2 * k) (by omega) (by omega)
    rw [show max (3 + 2 * k) (2 + 2 * k) + 2 = 5 + 2 * k by omega] at counted
    exact counted

theorem Counts.input_unique {x y : Bytes} {n m : Nat} (hx : Counts x n) (hy : Counts y m)
    (same : n = m) : x = y := by
  cases hx with
  | empty =>
    cases hy with
    | empty => rfl
    | leaf => omega
    | node j => omega
  | leaf =>
    cases hy with
    | empty => omega
    | leaf => rfl
    | node j => omega
  | node k =>
    cases hy with
    | empty => omega
    | leaf => omega
    | node j => rw [show k = j by omega]

theorem exists_counts_of_mem_treeInputs {x : Bytes}
    (hx : x ∈ treeInputs countingSha oneItem [0]) : ∃ n, Counts x n := by
  rcases hx with rfl | ⟨item, listed, rfl⟩ | ⟨p, hp, rfl⟩
  · exact ⟨2, .empty⟩
  · cases List.mem_singleton.mp listed
    exact ⟨3, .leaf⟩
  · rw [pathNumber_oneItem] at hp
    obtain ⟨k, hk, rfl⟩ := mem_climbPairs_oneItem (h := 0) (by omega) hp
    exact ⟨5 + 2 * k, .node k hk⟩

theorem injOn_treeInputs_oneItem :
    Set.InjOn countingSha (treeInputs countingSha oneItem [0]) := by
  intro x hx y hy same
  obtain ⟨n, countX⟩ := exists_counts_of_mem_treeInputs hx
  obtain ⟨m, countY⟩ := exists_counts_of_mem_treeInputs hy
  have numbers := congrArg (fun v : ByteVec 32 => ofBeBytes v.toList) same
  rw [countX.hash, countY.hash, ofBeBytes_beBytes countX.lt, ofBeBytes_beBytes countY.lt] at numbers
  exact countX.input_unique countY numbers

theorem injOn_keyPath_oneItem :
    Set.InjOn (keyPath countingSha) (insert [0] {k | k ∈ oneItem.map Prod.fst}) := by
  intro a ha b hb _
  simp only [oneItem, List.map_cons, List.map_nil, List.mem_singleton, Set.mem_insert_iff,
    Set.mem_ofPred_eq, or_self] at ha hb
  rw [ha, hb]

/-- The tree of one item has a proof of it, made without any two hashed inputs colliding. -/
theorem exists_proof_oneItem :
    ∃ root proof, computeRootFromIter countingSha oneItem = .ok root ∧
      verifyProofForKey countingSha root [0] [7] proof = true ∧
      Set.InjOn countingSha (insert (leafInput [0] [7])
        (treeInputs countingSha oneItem [0] ∪ proofInputs countingSha [0] proof)) := by
  obtain ⟨depths, length, maps, root, isRoot, built, -⟩ := computeRoots_spec countingSha oneItem
  have leaf := leafAt_keyPath (by decide) injOn_keyPath_oneItem
  have accepted := verifyProofForKeyAndLeaf_proofOfKey (by decide) injOn_keyPath_oneItem length maps
  have walk := map_sibling_proofSteps length maps le_rfl (pathNumber_lt (keyPath countingSha [0]))
  have stored : (valuesFromIter oneItem)[([0] : Bytes)]? = some [7] := by
    rw [getElem?_valuesFromIter (by decide)]
    decide
  have proved : proofInputs countingSha [0]
      (proofOfKey countingSha depths (valuesFromIter oneItem) [0]).2.2 ⊆
      treeInputs countingSha oneItem [0] := by
    intro x hx
    rw [Nat.sub_self] at walk
    refine Or.inr (Or.inr ?_)
    rw [leaf, ← walk]
    exact hx
  have hashed : leafInput [0] [7] ∈ treeInputs countingSha oneItem [0] :=
    Or.inr (Or.inl ⟨([0], [7]), by decide, rfl⟩)
  rw [← isRoot, stored] at accepted
  refine ⟨root, _, built, accepted, ?_⟩
  rw [Set.union_eq_self_of_subset_right proved, Set.insert_eq_of_mem hashed]
  exact injOn_treeInputs_oneItem

end Counting

/-- The proof of the only item is accepted as a proof of its value, and of nothing else. -/
theorem verifyProofForKey_sound_oneItem :
    ∃ root proof, computeRootFromIter countingSha oneItem = .ok root ∧
      verifyProofForKey countingSha root [0] [7] proof = true ∧ ([0], [7]) ∈ oneItem ∧
      verifyAbsenceProofForKey countingSha root [0] proof = false := by
  obtain ⟨root, proof, built, accepted, free⟩ := exists_proof_oneItem
  have sound := verifyProofForKey_sound countingSha oneItem root [0] [7] proof (by decide)
    injOn_keyPath_oneItem free built
  refine ⟨root, proof, built, accepted, sound.1 accepted, ?_⟩
  rw [Bool.eq_false_iff]
  intro absent
  exact sound.2 absent (by decide)

end CatalystNode
