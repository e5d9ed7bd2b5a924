import CatalystNode.BalanceProofs

namespace CatalystNode

open ByteVector HexCodec Store SparseTree

section Model

variable (sha256 : Bytes → Hash)

def rootInputs (items : List (Bytes × Bytes)) : Set Bytes :=
  let leaves := leafAt sha256 (leafMapFromIter sha256 items)
  {x | x = [2] ∨ (∃ item ∈ items, x = item.1 ∨ x = leafInput item.1 item.2) ∨
    ∃ h < treeDepth, ∃ i < 2 ^ (treeDepth - (h + 1)), x = nodeInput
      (subtreeRoot (hNode sha256) leaves h (2 * i), subtreeRoot (hNode sha256) leaves h (2 * i + 1))}

def stepInputs (key value : Bytes) (steps : List (Bool × Hash)) : Set Bytes :=
  {x | x = leafInput key value ∨
    ∃ pair ∈ ascendPairs (hNode sha256) (leafHashForKv sha256 key value) steps, x = nodeInput pair}

def checkInputs (pk : PublicKey) (p : RpcBalanceProof) : Set Bytes :=
  stepInputs sha256 (balanceKeyForPubkey pk) (encodeI64 ((parseI64 p.balance).getD 0))
    ((p.proof.mapM stepOfText).toOption.getD [])

def NotFooled (store : Store) (address : String) (pk : PublicKey) (p : RpcBalanceProof) : Prop :=
  balanceProof sha256 address p = .ok true →
    ∃ b, parseI64 p.balance = some b ∧ store.getState (balanceKeyForPubkey pk) = some (encodeI64 b)

/-- The accounts hold a zero balance, and the answer's steps are those of the accounts' own proof of it. -/
def ProvesZero (store : Store) (pk : PublicKey) (p : RpcBalanceProof) : Prop :=
  store.getState (balanceKeyForPubkey pk) = some (encodeI64 0) ∧
    ∃ root value proof, computeRootAndProofFromIter sha256 store.accounts.toList (balanceKeyForPubkey pk) =
      .ok (some (root, value, proof)) ∧ p.proof.mapM stepOfText = .ok proof.read

end Model

section Leaves

variable {sha256 : Bytes → Hash} {items : List (Bytes × Bytes)}

theorem exists_item_of_leafMapFromIter {path : ByteVec 32} {leaf : Hash}
    (held : (leafMapFromIter sha256 items)[path]? = some leaf) :
    ∃ item ∈ items, keyPath sha256 item.1 = path ∧ leafHashForKv sha256 item.1 item.2 = leaf := by
  induction items using List.reverseRecOn with
  | nil => simp [leafMapFromIter] at held
  | append_singleton items item ih =>
    rw [leafMapFromIter, List.foldl_concat, Std.ExtTreeMap.getElem?_insert] at held
    simp only [compare_eq_iff_eq] at held
    split at held
    next here => exact ⟨item, List.mem_append_right _ (List.mem_singleton_self _), here, Option.some.inj held⟩
    next =>
      obtain ⟨other, listed, found⟩ := ih held
      exact ⟨other, List.mem_append_left _ listed, found⟩

theorem leafAt_cases (sha256 : Bytes → Hash) (items : List (Bytes × Bytes)) (i : Nat) :
    leafAt sha256 (leafMapFromIter sha256 items) i = sha256 [2] ∨
      ∃ item ∈ items, keyPath sha256 item.1 = beBytes 32 i ∧
        leafAt sha256 (leafMapFromIter sha256 items) i = sha256 (leafInput item.1 item.2) := by
  rw [leafAt, entryAt]
  cases held : (leafMapFromIter sha256 items)[beBytes 32 i]? with
  | none => exact .inl rfl
  | some leaf =>
    obtain ⟨item, listed, path, same⟩ := exists_item_of_leafMapFromIter held
    exact .inr ⟨item, listed, path, same.symm⟩

theorem nodeInput_ne_leafInput (pair : Hash × Hash) (key value : Bytes) :
    nodeInput pair ≠ leafInput key value := fun same => absurd (List.cons.inj same).1 (by decide)

theorem nodeInput_ne_empty (pair : Hash × Hash) : nodeInput pair ≠ [2] :=
  fun same => absurd (List.cons.inj same).1 (by decide)

/-- The input of a leaf determines its key and its value, if these are of a length that 64 bits hold. -/
theorem leafInput_inj_pair {key value key' value' : Bytes}
    (short : key'.length + value'.length < 2 ^ 64)
    (same : leafInput key value = leafInput key' value') : key = key' ∧ value = value' := by
  have lengths := congrArg List.length same
  simp only [leafInput, List.length_cons, List.length_append, length_leBytes] at lengths
  unfold leafInput at same
  simp only [List.cons_append, List.cons.injEq, true_and, List.append_assoc] at same
  obtain ⟨sameLength, rest⟩ := List.append_inj same (by rw [length_leBytes, length_leBytes])
  have keyLength : key.length = key'.length := by
    have number := congrArg ofLeBytes sameLength
    rw [ofLeBytes_leBytes (by norm_num; omega), ofLeBytes_leBytes (by norm_num; omega)] at number
    exact number
  obtain ⟨sameKey, tail⟩ := List.append_inj rest keyLength
  exact ⟨sameKey, (List.append_inj tail (by rw [length_leBytes, length_leBytes])).2⟩

end Leaves

section Soundness

variable {sha256 : Bytes → Hash} {store : Store} {root : Hash}

/-- Steps that lead from the leaf of a value to the root are the tree's own, and the accounts hold the value. -/
theorem held_of_ascend {key value : Bytes} {steps : List (Bool × Hash)}
    (free : Set.InjOn sha256 (rootInputs sha256 store.accounts.toList ∪ stepInputs sha256 key value steps))
    (short : key.length + value.length < 2 ^ 64)
    (built : computeRootFromIter sha256 store.accounts.toList = .ok root)
    (leads : ascend (hNode sha256) (leafHashForKv sha256 key value) steps = root) :
    store.getState key = some value ∧
      steps = ownSteps (hNode sha256) (leafAt sha256 (leafMapFromIter sha256 store.accounts.toList))
        (pathNumber (keyPath sha256 key)) treeDepth := by
  have leaf : leafInput key value ∈
      rootInputs sha256 store.accounts.toList ∪ stepInputs sha256 key value steps := .inr (.inl rfl)
  have empty : [2] ∈ rootInputs sha256 store.accounts.toList ∪ stepInputs sha256 key value steps :=
    .inl (.inl rfl)
  have items : ∀ item ∈ store.accounts.toList, leafInput item.1 item.2 ∈
      rootInputs sha256 store.accounts.toList ∪ stepInputs sha256 key value steps :=
    fun item listed => .inl (.inr (.inl ⟨item, listed, .inr rfl⟩))
  have apart : ∀ p ∈ Set.preimage nodeInput
      (rootInputs sha256 store.accounts.toList ∪ stepInputs sha256 key value steps), ∀ i < 2 ^ treeDepth,
      hNode sha256 p.1 p.2 ≠ leafAt sha256 (leafMapFromIter sha256 store.accounts.toList) i := by
    intro p combined i _ same
    rcases leafAt_cases sha256 store.accounts.toList i with blank | ⟨item, listed, -, itsLeaf⟩
    · exact nodeInput_ne_empty p (free combined empty (same.trans blank))
    · exact nodeInput_ne_leafInput p _ _ (free combined (items item listed) (same.trans itsLeaf))
  rw [eq_subtreeRoot_of_computeRootFromIter built] at leads
  obtain ⟨j, top, here, own⟩ := eq_ownSteps_of_ascend (injOn_hNode free)
    (fun h low i inside => .inl (.inr (.inr ⟨h, low, i, inside, rfl⟩))) apart
    (fun p combined same => nodeInput_ne_leafInput p _ _ (free combined leaf same))
    (fun p combined => .inr (.inr ⟨p, combined, rfl⟩)) le_rfl (by simp) leads
  rcases leafAt_cases sha256 store.accounts.toList j with blank | ⟨item, listed, path, itsLeaf⟩
  · exact absurd (free leaf empty (here.symm.trans blank)) (leafInput_ne_empty key value)
  · obtain ⟨rfl, rfl⟩ := leafInput_inj_pair short (free (items item listed) leaf (itsLeaf.symm.trans here))
    have bound : j < 2 ^ treeDepth := by
      rw [Nat.div_eq_zero_iff_lt (by positivity)] at top
      exact top
    refine ⟨Std.ExtTreeMap.mem_toList_iff_getElem?_eq_some.mp listed, ?_⟩
    rw [path, pathNumber_beBytes bound]
    exact own

theorem injOn_keyPath_of_free {inputs : Set Bytes}
    (free : Set.InjOn sha256 (rootInputs sha256 store.accounts.toList ∪ inputs)) :
    Set.InjOn (keyPath sha256) {key | (store.getState key).isSome = true} := by
  have hashed : ∀ key, (store.getState key).isSome = true →
      key ∈ rootInputs sha256 store.accounts.toList ∪ inputs := by
    intro key held
    obtain ⟨value, held⟩ := Option.isSome_iff_exists.mp held
    exact .inl (.inr (.inl ⟨(key, value), Std.ExtTreeMap.mem_toList_iff_getElem?_eq_some.mpr held, .inl rfl⟩))
  exact free.mono hashed

theorem length_balance (pk : PublicKey) (b : Int64) :
    (balanceKeyForPubkey pk).length + (encodeI64 b).length = 44 := by
  rw [balanceKeyForPubkey, encodeI64, List.length_append, length_leBytes, pk.toList_length]
  rfl

theorem balanceProof_of_read {address : String} {pk : PublicKey} {p : RpcBalanceProof}
    (parsed : cliParseHex32 address = .ok pk) (answered : rootBytes p.stateRoot = .ok root) :
    balanceProof sha256 address p = .ok true ↔
      ∃ read, p.proof.mapM stepOfText = .ok read ∧
        ascend (hNode sha256) (leafHashForKv sha256 (balanceKeyForPubkey pk)
          (encodeI64 ((parseI64 p.balance).getD 0))) read = root := by
  have check : balanceProof sha256 address p = verifyMerkleProof sha256 root
      (leafHashForKv sha256 (balanceKeyForPubkey pk) (encodeI64 ((parseI64 p.balance).getD 0))) p.proof := by
    rw [balanceProof, parsed, answered]
    rfl
  rw [check, verifyMerkleProof_eq]
  cases p.proof.mapM stepOfText with
  | error e => simp [Except.map]
  | ok read => simp [Except.map]

end Soundness

/-- An accepted answer shows the balance that the accounts hold, unless its text is no number and its steps prove
a balance of zero. -/
theorem notFooled_iff (sha256 : Bytes → Hash) (store : Store) (address : String) (pk : PublicKey)
    (p : RpcBalanceProof) (root : Hash) (parsed : cliParseHex32 address = .ok pk)
    (built : computeRootFromIter sha256 store.accounts.toList = .ok root)
    (answered : rootBytes p.stateRoot = .ok root)
    (free : Set.InjOn sha256 (rootInputs sha256 store.accounts.toList ∪ checkInputs sha256 pk p)) :
    NotFooled sha256 store address pk p ↔
      (parseI64 p.balance).isSome = true ∨ ¬ProvesZero sha256 store pk p := by
  have paths := injOn_keyPath_of_free free
  rw [NotFooled, balanceProof_of_read parsed answered]
  constructor
  · intro sound
    by_contra neither
    obtain ⟨unread, held, r, value, proof, made, read⟩ := not_or.mp neither |>.imp id not_not.mp
    obtain ⟨-, r', proof', built', made', -, leads⟩ := computeRootAndProof_of_held paths held
    rw [made] at made'
    cases made'
    rw [Option.not_isSome_iff_eq_none] at unread
    obtain ⟨b, number, -⟩ := sound ⟨proof.read, read, by
      rw [unread, Option.getD_none, leads]
      exact Except.ok.inj (built'.symm.trans built)⟩
    rw [unread] at number
    cases number
  · rintro cond ⟨read, reads, leads⟩
    have inputs : checkInputs sha256 pk p = stepInputs sha256 (balanceKeyForPubkey pk)
        (encodeI64 ((parseI64 p.balance).getD 0)) read := by
      rw [checkInputs, reads]
      rfl
    rw [inputs] at free
    obtain ⟨held, own⟩ := held_of_ascend free (by rw [length_balance]; decide) built leads
    cases number : parseI64 p.balance with
    | some b =>
      rw [number] at held
      exact ⟨b, rfl, held⟩
    | none =>
      rw [number, Option.getD_none] at held
      obtain ⟨-, r, proof, -, made, ownProof, -⟩ := computeRootAndProof_of_held paths held
      refine absurd ⟨held, r, _, proof, made, ?_⟩ (cond.resolve_left (by simp [number]))
      rw [reads, own, ownProof]

section Samples

/-- The input that a count comes from, in a tree of one item at the leftmost path. -/
def inputOf (key value : Bytes) (n : Nat) : Bytes :=
  if n = 0 then key else if n = 2 then [2] else if n = 3 then leafInput key value
  else nodeInput (beBytes 32 (n - 2), beBytes 32 (if n % 2 = 1 then n - 3 else n - 2))

theorem injOn_rootInputs_single {key : Bytes} (path : keyPath countingSha key = beBytes 32 0) (value : Bytes) :
    Set.InjOn countingSha (rootInputs countingSha [(key, value)]) := by
  suffices inverse : Set.LeftInvOn (fun hash : Hash => inputOf key value (ofBeBytes hash.toList)) countingSha
      (rootInputs countingSha [(key, value)]) from inverse.injOn
  have counted : ∀ {x : Bytes} {n : Nat}, countingSha x = beBytes 32 n → n < 600 → inputOf key value n = x →
      inputOf key value (ofBeBytes (countingSha x).toList) = x := by
    intro x n hash small input
    rw [hash, ofBeBytes_beBytes (lt_trans small (by norm_num)), input]
  rintro x (rfl | ⟨item, listed, rfl | rfl⟩ | ⟨h, low, i, inside, rfl⟩)
  · exact counted (n := 2) rfl (by omega) rfl
  · cases List.mem_singleton.mp listed
    exact counted path (by omega) rfl
  · cases List.mem_singleton.mp listed
    exact counted (n := 3) rfl (by omega) rfl
  · have high : h < 256 := low
    have wide : 2 * 2 ^ (treeDepth - (h + 1)) = 2 ^ (treeDepth - h) := by
      rw [← Nat.pow_succ', show (treeDepth - (h + 1)).succ = treeDepth - h by omega]
    have small : 600 < 256 ^ 32 := by norm_num
    rw [subtreeRoot_single path value (le_of_lt low) (by omega),
      subtreeRoot_single path value (le_of_lt low) (by omega), if_neg (show ¬2 * i + 1 = 0 by omega)]
    by_cases leftmost : i = 0
    · rw [if_pos (by omega)]
      refine counted (n := 5 + 2 * h) ?_ (by omega) ?_
      · exact (hNode_countingSha (by omega) (by omega)).trans (congrArg _ (by omega))
      · rw [inputOf, if_neg (by omega), if_neg (by omega), if_neg (by omega), if_pos (by omega),
          show 5 + 2 * h - 2 = 3 + 2 * h by omega, show 5 + 2 * h - 3 = 2 + 2 * h by omega]
    · rw [if_neg (by omega)]
      refine counted (n := 4 + 2 * h) ?_ (by omega) ?_
      · exact (hNode_countingSha (by omega) (by omega)).trans (congrArg _ (by omega))
      · rw [inputOf, if_neg (by omega), if_neg (by omega), if_neg (by omega), if_neg (by omega),
          show 4 + 2 * h - 2 = 2 + 2 * h by omega]

/-- Along the tree's own steps nothing is hashed that was not for the root. -/
theorem stepInputs_subset {sha256 : Bytes → Hash} {items : List (Bytes × Bytes)} {key value : Bytes}
    (listed : (key, value) ∈ items)
    (here : leafAt sha256 (leafMapFromIter sha256 items) (pathNumber (keyPath sha256 key)) =
      leafHashForKv sha256 key value) :
    stepInputs sha256 key value (ownSteps (hNode sha256) (leafAt sha256 (leafMapFromIter sha256 items))
      (pathNumber (keyPath sha256 key)) treeDepth) ⊆ rootInputs sha256 items := by
  rintro x (rfl | ⟨pair, combined, rfl⟩)
  · exact .inr (.inl ⟨(key, value), listed, .inr rfl⟩)
  · rw [← here] at combined
    obtain ⟨h, low, rfl⟩ := mem_ascendPairs_ownSteps combined
    refine .inr (.inr ⟨h, low, _, ?_, rfl⟩)
    have below := pathNumber_lt (keyPath sha256 key)
    rw [show treeDepth = (treeDepth - (h + 1)) + (h + 1) by omega, Nat.pow_add] at below
    exact Nat.div_lt_of_lt_mul (by rwa [Nat.mul_comm] at below)

def singleBalance (b : Int64) : Store := setBalanceI64 Store.empty (zeros 32) b

theorem toList_singleBalance (b : Int64) :
    (singleBalance b).accounts.toList = [(balanceKeyForPubkey (zeros 32), encodeI64 b)] := by
  rfl

/-- An honest answer, but for the text of the balance. -/
theorem exists_answer {text : String} {b : Int64} (reads : (parseI64 text).getD 0 = b) :
    ∃ p root, p.balance = text ∧
      computeRootFromIter countingSha (singleBalance b).accounts.toList = .ok root ∧
      rootBytes p.stateRoot = .ok root ∧
      Set.InjOn countingSha (rootInputs countingSha (singleBalance b).accounts.toList ∪
        checkInputs countingSha (zeros 32) p) ∧
      balanceProof countingSha (hexText (zeros 32).toList) p = .ok true := by
  have held : (singleBalance b).getState (balanceKeyForPubkey (zeros 32)) = some (encodeI64 b) :=
    Store.getState_setState_self _ _ _
  have path : keyPath countingSha (balanceKeyForPubkey (zeros 32)) = beBytes 32 0 := by decide
  have free := injOn_rootInputs_single path (encodeI64 b)
  rw [← toList_singleBalance] at free
  have paths := @injOn_keyPath_of_free countingSha (singleBalance b) ∅ (by rwa [Set.union_empty])
  obtain ⟨here, root, proof, built, -, own, leads⟩ := computeRootAndProof_of_held paths held
  have answered : rootBytes (hexText root.toList) = .ok root :=
    hexHash_of_parseHexBytes "bad state_root len" (parseHexBytes_hexText root.toList)
  have read := mapM_stepOfText_stepText proof.steps
  refine ⟨⟨text, hexText root.toList, proof.steps.map stepText⟩, root, rfl, built, answered, ?_, ?_⟩
  · have listed := Std.ExtTreeMap.mem_toList_iff_getElem?_eq_some.mpr held
    have inputs : checkInputs countingSha (zeros 32) ⟨text, hexText root.toList, proof.steps.map stepText⟩ =
        stepInputs countingSha (balanceKeyForPubkey (zeros 32)) (encodeI64 b) proof.read := by
      rw [checkInputs, read, reads]
      rfl
    rw [inputs, own, Set.union_eq_self_of_subset_right (stepInputs_subset listed here)]
    exact free
  · have parsed : cliParseHex32 (hexText (zeros 32).toList) = .ok (zeros 32) :=
      hexHash_of_parseHexBytes "expected 32-byte hex" (parseHexBytes_hexText (zeros 32).toList)
    have check := @balanceProof_of_read countingSha root (hexText (zeros 32).toList) (zeros 32)
      ⟨text, hexText root.toList, proof.steps.map stepText⟩ parsed answered
    refine check.mpr ⟨proof.read, read, ?_⟩
    rw [reads]
    exact leads

end Samples

/-- A balance of five, proved and shown. -/
theorem notFooled_five :
    ∃ p, p.balance = "5" ∧ balanceProof countingSha (hexText (zeros 32).toList) p = .ok true ∧
      NotFooled countingSha (singleBalance 5) (hexText (zeros 32).toList) (zeros 32) p := by
  obtain ⟨p, root, shown, built, answered, free, accepted⟩ :=
    @exists_answer "5" 5 (by decide)
  have parsed : cliParseHex32 (hexText (zeros 32).toList) = .ok (zeros 32) :=
    hexHash_of_parseHexBytes "expected 32-byte hex" (parseHexBytes_hexText (zeros 32).toList)
  refine ⟨p, shown, accepted, (notFooled_iff countingSha _ _ _ p root parsed built answered free).mpr (.inl ?_)⟩
  rw [shown]
  decide

/-- A text that is no number is shown and reported as proved, where the balance is zero. -/
theorem fooled_unreadable :
    ∃ p root, p.balance = "1000000 coins" ∧
      computeRootFromIter countingSha (singleBalance 0).accounts.toList = .ok root ∧
      rootBytes p.stateRoot = .ok root ∧
      Set.InjOn countingSha (rootInputs countingSha (singleBalance 0).accounts.toList ∪
        checkInputs countingSha (zeros 32) p) ∧
      ¬NotFooled countingSha (singleBalance 0) (hexText (zeros 32).toList) (zeros 32) p := by
  have unread : parseI64 "1000000 coins" = none := by decide
  obtain ⟨p, root, shown, built, answered, free, accepted⟩ :=
    @exists_answer "1000000 coins" 0 (by rw [unread]; rfl)
  refine ⟨p, root, shown, built, answered, free, fun sound => ?_⟩
  obtain ⟨b, number, -⟩ := sound accepted
  rw [shown, unread] at number
  cases number

section Commitment

variable {sha256 : Bytes → Hash} {s t : Store} {root : Hash}

theorem held_of_root_eq {key value : Bytes}
    (free : Set.InjOn sha256 (rootInputs sha256 t.accounts.toList ∪ rootInputs sha256 s.accounts.toList))
    (short : key.length + value.length < 2 ^ 64)
    (built : computeRootFromIter sha256 s.accounts.toList = .ok root)
    (built' : computeRootFromIter sha256 t.accounts.toList = .ok root)
    (held : s.getState key = some value) : t.getState key = some value := by
  have paths := @injOn_keyPath_of_free sha256 s _ (Set.union_comm _ _ ▸ free)
  obtain ⟨here, r, proof, again, -, own, leads⟩ := computeRootAndProof_of_held paths held
  have same : r = root := Except.ok.inj (again.symm.trans built)
  have listed := Std.ExtTreeMap.mem_toList_iff_getElem?_eq_some.mpr held
  have hashed := stepInputs_subset listed here
  rw [← own] at hashed
  exact (held_of_ascend (free.mono (Set.union_subset_union_right _ hashed)) short built'
    (leads.trans same)).1

end Commitment

/-- The state root binds the state: unless two inputs that are hashed for them collide, stores with one root
have the same accounts. -/
theorem accounts_eq_of_root_eq (sha256 : Bytes → Hash) (s t : Store) (root : Hash)
    (free : Set.InjOn sha256 (rootInputs sha256 s.accounts.toList ∪ rootInputs sha256 t.accounts.toList))
    (short : ∀ key value, s.getState key = some value ∨ t.getState key = some value →
      key.length + value.length < 2 ^ 64)
    (built : computeRootFromIter sha256 s.accounts.toList = .ok root)
    (built' : computeRootFromIter sha256 t.accounts.toList = .ok root) : s.accounts = t.accounts := by
  refine Std.ExtTreeMap.ext_getElem? (fun {key} => Option.ext (fun value => ?_))
  constructor
  · intro held
    exact held_of_root_eq (Set.union_comm _ _ ▸ free) (short key value (.inl held)) built built' held
  · intro held
    exact held_of_root_eq free (short key value (.inr held)) built' built held

/-- A balance that was overwritten leaves no trace in the accounts. -/
theorem accounts_eq_of_root_eq_rewritten :
    (setBalanceI64 (singleBalance 3) (zeros 32) 5).accounts = (singleBalance 5).accounts := by
  have path : keyPath countingSha (balanceKeyForPubkey (zeros 32)) = beBytes 32 0 := by decide
  have free := injOn_rootInputs_single path (encodeI64 5)
  have items : (setBalanceI64 (singleBalance 3) (zeros 32) 5).accounts.toList =
      [(balanceKeyForPubkey (zeros 32), encodeI64 5)] := rfl
  obtain ⟨-, root, -, built, -⟩ := @exists_answer "5" 5 (by decide)
  refine accounts_eq_of_root_eq countingSha _ _ root ?_ ?_ built built
  · rw [items, toList_singleBalance, Set.union_self]
    exact free
  · intro key value held
    have held := or_self_iff.mp held
    have listed := Std.ExtTreeMap.mem_toList_iff_getElem?_eq_some.mpr held
    rw [items] at listed
    cases List.mem_singleton.mp listed
    rw [length_balance]
    decide

end CatalystNode
