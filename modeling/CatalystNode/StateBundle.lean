import CatalystNode.KeyedUpdates
import CatalystNode.MerkleProofs
import CatalystNode.NonceBumps

namespace CatalystNode

open ByteVector HexCodec MachineInt KeyedUpdates

abbrev StateMap := Std.ExtTreeMap Bytes Bytes

/-- One touched key with its value and proof under the old and under the new root; an absent key
travels as an empty value. -/
structure KeyProofChange where
  key : Bytes
  oldValue : Bytes
  oldProof : MerkleProof
  newValue : Bytes
  newProof : MerkleProof
  deriving DecidableEq

structure StateProofBundle where
  cycle : UInt64
  lsuHash : Hash
  prevStateRoot : Hash
  newStateRoot : Hash
  changes : List KeyProofChange
  deriving DecidableEq

def lsuContainsEvm (lsu : LedgerStateUpdate) : Bool :=
  lsu.partialUpdate.transactionEntries.any (fun e => isEvmMarker e.signature)

def pubkeyToEvmAddr20 (pk : PublicKey) : ByteVec 20 := ⟨pk.toList.drop 12, by simp⟩

def evmCodeKey (addr20 : ByteVec 20) : Bytes := utf8 "evm:code:" ++ addr20.toList

def evmLastReturnKey (addr20 : ByteVec 20) : Bytes := utf8 "evm:last_return:" ++ addr20.toList

/-- Hashing, the decoding of contract payloads and the address of a new contract. -/
structure BundleEnv where
  sha256 : Bytes → Hash
  runtime : EvmRuntime
  calculateEthereumCreateAddress : ByteVec 20 → UInt64 → ByteVec 20

section Model

variable (env : BundleEnv)

def evmTouchedKey (pk : PublicKey) (payload : EvmTxPayload) : Bytes :=
  match payload.kind with
  | .deploy _ => evmCodeKey (env.calculateEthereumCreateAddress (pubkeyToEvmAddr20 pk)
      (saturatingSubU64 payload.nonce 1))
  | .call target _ => evmLastReturnKey target

def entryTouchedKey (e : TransactionEntry) : Option Bytes :=
  if isWorkerRegMarker e.signature then some (workerKeyForPubkey e.publicKey)
  else if isEvmMarker e.signature then
    (decodeEvmMarker env.runtime e.signature).map (fun decoded =>
      evmTouchedKey env e.publicKey decoded.1)
  else some (balanceKeyForPubkey e.publicKey)

def touchedKeysForLsu (lsu : LedgerStateUpdate) : List Bytes :=
  let entries := lsu.partialUpdate.transactionEntries
  let senders := (groupBySig entries).filterMap firstDebitSender
  (Std.ExtTreeSet.ofList (entries.filterMap (entryTouchedKey env) ++
    senders.map nonceKeyForPubkey)).toList

/-- Checks one side of a change; whether the key is absent is read off the proof's leaf. -/
def verifyStateProofForChange (root : Hash) (key value : Bytes) (proof : MerkleProof) : Bool :=
  if proof.leaf = hEmptyLeaf env.sha256 then
    value.isEmpty && verifyAbsenceProofForKey env.sha256 root key proof
  else verifyProofForKey env.sha256 root key value proof

def expectEntry (expected : StateMap) (e : TransactionEntry) : StateMap :=
  if isWorkerRegMarker e.signature then expected.insert (workerKeyForPubkey e.publicKey) [1]
  else if isEvmMarker e.signature then
    match decodeEvmMarker env.runtime e.signature with
    | none => expected
    | some decoded => expected.insert (evmTouchedKey env e.publicKey decoded.1) []
  else
    let key := balanceKeyForPubkey e.publicKey
    let cur := (expected[key]?.bind decodeI64).getD 0
    expected.insert key (encodeI64 (saturatingAddI64 cur e.amount))

def expectNonce (expected : StateMap) (entries : List TransactionEntry) : StateMap :=
  match firstDebitSender entries with
  | none => expected
  | some pk =>
    let key := nonceKeyForPubkey pk
    let cur := (expected[key]?.bind decodeU64).getD 0
    expected.insert key (encodeU64 (saturatingAddU64 cur 1))

/-- The entry deltas, worker registrations and nonce increments of an update applied to a map. -/
def expectedAfter (lsu : LedgerStateUpdate) (old : StateMap) : StateMap :=
  (groupBySig lsu.partialUpdate.transactionEntries).foldl expectNonce
    (lsu.partialUpdate.transactionEntries.foldl (expectEntry env) old)

def changesVerified (bundle : StateProofBundle) : Bool :=
  bundle.changes.all (fun c =>
    verifyStateProofForChange env bundle.prevStateRoot c.key c.oldValue c.oldProof &&
      verifyStateProofForChange env bundle.newStateRoot c.key c.newValue c.newProof)

def oldValues (bundle : StateProofBundle) : StateMap :=
  bundle.changes.foldl (fun old c => old.insert c.key c.oldValue) ∅

def newValues (bundle : StateProofBundle) : StateMap :=
  bundle.changes.foldl (fun new c => new.insert c.key c.newValue) ∅

/-- Only keys for which the bundle supplies a new value are compared. -/
def verifyStateTransitionBundle (lsu : LedgerStateUpdate) (bundle : StateProofBundle) : Bool :=
  if bundle.cycle ≠ lsu.cycleNumber then false
  else if bundle.changes.isEmpty then false
  else if ¬changesVerified env bundle then false
  else (expectedAfter env lsu (oldValues bundle)).toList.all (fun entry =>
    match (newValues bundle)[entry.1]? with
    | some vnew => vnew = entry.2
    | none => true)

end Model

section Updates

variable (env : BundleEnv) (lsu : LedgerStateUpdate)

def entryUpdate (e : TransactionEntry) : Option (Update Bytes Bytes) :=
  if isWorkerRegMarker e.signature then some ⟨workerKeyForPubkey e.publicKey, fun _ => [1]⟩
  else if isEvmMarker e.signature then
    (decodeEvmMarker env.runtime e.signature).map (fun decoded =>
      ⟨evmTouchedKey env e.publicKey decoded.1, fun _ => []⟩)
  else some ⟨balanceKeyForPubkey e.publicKey, fun v =>
    encodeI64 (saturatingAddI64 ((v.bind decodeI64).getD 0) e.amount)⟩

def nonceUpdate (entries : List TransactionEntry) : Option (Update Bytes Bytes) :=
  (firstDebitSender entries).map (fun pk =>
    ⟨nonceKeyForPubkey pk, fun v => encodeU64 (saturatingAddU64 ((v.bind decodeU64).getD 0) 1)⟩)

/-- An update as the list of single-key writes that the verifier replays. -/
def ledgerUpdates : List (Update Bytes Bytes) :=
  lsu.partialUpdate.transactionEntries.filterMap (entryUpdate env) ++
    (groupBySig lsu.partialUpdate.transactionEntries).filterMap nonceUpdate

theorem expectEntry_eq (m : StateMap) (e : TransactionEntry) :
    expectEntry env m e = applyOption m (entryUpdate env e) := by
  unfold expectEntry entryUpdate
  split
  next => rfl
  next =>
    split
    next =>
      cases decodeEvmMarker env.runtime e.signature with
      | none => rfl
      | some decoded => rfl
    next => rfl

theorem expectNonce_eq (m : StateMap) (entries : List TransactionEntry) :
    expectNonce m entries = applyOption m (nonceUpdate entries) := by
  unfold expectNonce nonceUpdate
  cases firstDebitSender entries with
  | none => rfl
  | some pk => rfl

theorem expectedAfter_eq (m : StateMap) :
    expectedAfter env lsu m = (ledgerUpdates env lsu).foldl Update.apply m := by
  rw [expectedAfter, ledgerUpdates, List.foldl_append, foldl_filterMap_apply, foldl_filterMap_apply]
  simp only [← expectEntry_eq, ← expectNonce_eq]

theorem getElem?_expectedAfter (m : StateMap) (k : Bytes) :
    (expectedAfter env lsu m)[k]? = runCell k (ledgerUpdates env lsu) m[k]? := by
  rw [expectedAfter_eq, getElem?_foldl_apply]

theorem map_key_entryUpdate (e : TransactionEntry) :
    (entryUpdate env e).map Update.key = entryTouchedKey env e := by
  unfold entryUpdate entryTouchedKey
  split
  next => rfl
  next =>
    split
    next => rw [Option.map_map]; rfl
    next => rfl

theorem mem_touchedKeysForLsu (k : Bytes) :
    k ∈ touchedKeysForLsu env lsu ↔ ∃ u ∈ ledgerUpdates env lsu, u.key = k := by
  rw [touchedKeysForLsu, Std.ExtTreeSet.mem_toList, Std.ExtTreeSet.mem_ofList, List.contains_iff_mem,
    ledgerUpdates, ← List.mem_map, List.map_append, List.map_filterMap, List.map_filterMap,
    List.map_filterMap]
  have nonces : ∀ entries, (nonceUpdate entries).map Update.key =
      (firstDebitSender entries).map nonceKeyForPubkey := fun entries => Option.map_map _ _ _
  simp only [map_key_entryUpdate, nonces]

theorem change_empty {u : Update Bytes Bytes} (hu : u ∈ ledgerUpdates env lsu) :
    u.change none = u.change (some []) := by
  rcases List.mem_append.mp hu with hu | hu
  · obtain ⟨e, -, made⟩ := List.mem_filterMap.mp hu
    unfold entryUpdate at made
    split at made
    next => cases made; rfl
    next =>
      split at made
      next =>
        obtain ⟨decoded, -, rfl⟩ := Option.map_eq_some_iff.mp made
        rfl
      next => cases made; rfl
  · obtain ⟨entries, -, made⟩ := List.mem_filterMap.mp hu
    obtain ⟨pk, -, rfl⟩ := Option.map_eq_some_iff.mp made
    rfl

variable {env lsu}

theorem change_ne_nil (noEvm : lsuContainsEvm lsu = false) {u : Update Bytes Bytes}
    (hu : u ∈ ledgerUpdates env lsu) (v : Option Bytes) : u.change v ≠ [] := by
  have word : ∀ n, leBytes 8 n ≠ [] := fun n empty => by
    simpa [length_leBytes] using congrArg List.length empty
  rcases List.mem_append.mp hu with hu | hu
  · obtain ⟨e, he, made⟩ := List.mem_filterMap.mp hu
    have plain : isEvmMarker e.signature = false := by
      unfold lsuContainsEvm at noEvm
      simpa using List.any_eq_false.mp noEvm e he
    unfold entryUpdate at made
    split at made
    next =>
      cases made
      exact List.cons_ne_nil _ _
    next =>
      rw [if_neg (by simp [plain])] at made
      cases made
      exact word _
  · obtain ⟨entries, -, made⟩ := List.mem_filterMap.mp hu
    obtain ⟨pk, -, rfl⟩ := Option.map_eq_some_iff.mp made
    exact word _

/-- A touched key is left with a value, the same whether it was absent or empty before. -/
theorem getElem?_expectedAfter_touched (noEvm : lsuContainsEvm lsu = false) {k : Bytes}
    (touched : k ∈ touchedKeysForLsu env lsu) (m : StateMap) :
    ∃ x, (expectedAfter env lsu m)[k]? = some x ∧ x ≠ [] ∧
      ∀ m' : StateMap, m'[k]? = some (m[k]?.getD []) → (expectedAfter env lsu m')[k]? = some x := by
  have written := (mem_touchedKeysForLsu env lsu k).mp touched
  obtain ⟨x, value, nonempty⟩ := runCell_spec (P := fun x => x ≠ [])
    (fun u hu _ v => change_ne_nil noEvm hu v) written m[k]?
  refine ⟨x, ?_, nonempty, fun m' wire => ?_⟩
  · rw [getElem?_expectedAfter, value]
  · rw [getElem?_expectedAfter, wire, ← value]
    cases held : m[k]? with
    | some v => rfl
    | none => exact runCell_congr (fun u hu _ => (change_empty env lsu hu).symm) written

end Updates

theorem verifyStateTransitionBundle_iff (env : BundleEnv) (lsu : LedgerStateUpdate)
    (bundle : StateProofBundle) :
    verifyStateTransitionBundle env lsu bundle = true ↔
      bundle.cycle = lsu.cycleNumber ∧ bundle.changes ≠ [] ∧
      (∀ c ∈ bundle.changes,
        verifyStateProofForChange env bundle.prevStateRoot c.key c.oldValue c.oldProof = true ∧
        verifyStateProofForChange env bundle.newStateRoot c.key c.newValue c.newProof = true) ∧
      ∀ k vexp vnew : Bytes, (expectedAfter env lsu (oldValues bundle))[k]? = some vexp →
        (newValues bundle)[k]? = some vnew → vnew = vexp := by
  unfold verifyStateTransitionBundle
  split
  next other =>
    constructor
    · intro h
      simp at h
    · intro h
      exact absurd h.1 other
  next same =>
    rw [not_not] at same
    split
    next empty =>
      constructor
      · intro h
        simp at h
      · intro h
        exact absurd (List.isEmpty_iff.mp empty) h.2.1
    next some =>
      rw [List.isEmpty_iff] at some
      split
      next refused =>
        constructor
        · intro h
          simp at h
        · intro h
          exact absurd (by simpa [changesVerified] using h.2.2.1) refused
      next proved =>
        rw [not_not] at proved
        have verified : ∀ c ∈ bundle.changes,
            verifyStateProofForChange env bundle.prevStateRoot c.key c.oldValue c.oldProof = true ∧
            verifyStateProofForChange env bundle.newStateRoot c.key c.newValue c.newProof =
              true := by
          simpa [changesVerified] using proved
        rw [List.all_eq_true]
        constructor
        · intro compared
          refine ⟨same, some, verified, fun k vexp vnew expected supplied => ?_⟩
          have entry := compared (k, vexp)
            (Std.ExtTreeMap.mem_toList_iff_getElem?_eq_some.mpr expected)
          simpa [supplied] using entry
        · rintro ⟨-, -, -, compared⟩ ⟨k, vexp⟩ listed
          have expected := Std.ExtTreeMap.mem_toList_iff_getElem?_eq_some.mp listed
          cases supplied : (newValues bundle)[k]? with
          | none => simp
          | some vnew => simp [compared k vexp vnew expected supplied]

end CatalystNode
