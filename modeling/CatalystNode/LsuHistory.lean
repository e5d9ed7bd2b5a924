import CatalystNode.ForkChoiceGate
import CatalystNode.SlotContest

namespace CatalystNode

open ByteVector HexCodec SlotContest

def lsuKey (cycle : UInt64) : String := s!"consensus:lsu:{cycle}"

def lsuHashKey (cycle : UInt64) : String := s!"consensus:lsu_hash:{cycle}"

def lsuCidKey (cycle : UInt64) : String := s!"consensus:lsu_cid:{cycle}"

def lsuStateRootKey (cycle : UInt64) : String := s!"consensus:lsu_state_root:{cycle}"

def cycleByLsuHashKey (lsuHash : Hash) : String :=
  s!"consensus:cycle_by_lsu_hash:{encodeString lsuHash.toList}"

section Model

variable {F G : Type} [Field F] [AddCommGroup G] [Module F G] [DecidableEq G] (env : NodeEnv F G)
  (dfs : Option ContentStore) (certifiedOnly : Bool) (cycle : UInt64)

def losesCanonicalSlot (store : Store) (lsuBytes : Bytes) (lsuHash : Hash)
    (finalityCidHint : String) : Bool :=
  match (deserialize lsuBytes : Option LedgerStateUpdate) with
  | none => false
  | some lsu => forkChoiceRejectWeakerIncoming env store dfs
      (forkChoiceCandidateForLsu env store dfs lsu cycle lsuHash finalityCidHint certifiedOnly)
      certifiedOnly

/-- Records an update for its cycle. Root and content id of a recipe that is already settled are
left as they are. -/
def persistLsuHistory (store : Store) (lsuBytes : Bytes) (lsuHash : Hash) (cid : String)
    (stateRoot : Hash) (finalityCidHint : String) : Store :=
  let settled := store.getMetadata (lsuHashKey cycle) = some lsuHash.toList ∧
    (store.getMetadata (lsuStateRootKey cycle)).isSome
  let recorded :=
    if losesCanonicalSlot env dfs certifiedOnly cycle store lsuBytes lsuHash finalityCidHint then
      store
    else
      let slot := (store.setMetadata (lsuKey cycle) lsuBytes).setMetadata (lsuHashKey cycle)
        lsuHash.toList
      if settled then slot
      else (if cid ≠ "" then slot.setMetadata (lsuCidKey cycle) (utf8 cid) else slot).setMetadata
        (lsuStateRootKey cycle) stateRoot.toList
  recorded.setMetadata (cycleByLsuHashKey lsuHash) (encodeU64 cycle)

end Model

/-- One call that persists an update of a cycle; the bytes decode to the update and the hash is its
own. -/
structure LsuArrival (blake2b512 : Bytes → ByteVec 64) (cycle : UInt64) where
  lsu : LedgerStateUpdate
  lsuBytes : Bytes
  lsuHash : Hash
  cid : String
  stateRoot : Hash
  finalityCidHint : String
  decodes : deserialize lsuBytes = some lsu
  ofCycle : lsu.cycleNumber = cycle
  hashed : lsuHash = hashData blake2b512 lsu

section Persist

variable {F G : Type} [Field F] [AddCommGroup G] [Module F G] [DecidableEq G] {env : NodeEnv F G}
  {dfs : Option ContentStore} {certifiedOnly : Bool} {cycle : UInt64} {store : Store}
  {lsuBytes : Bytes} {lsuHash : Hash} {cid : String} {stateRoot : Hash} {finalityCidHint : String}

theorem lsuKey_ne_lsuHashKey : lsuKey cycle ≠ lsuHashKey cycle :=
  keyTag_ne 14 (by decide) (by decide) (by decide)

theorem getMetadata_persistLsuHistory {key : String} (lsu : lsuKey cycle ≠ key)
    (hash : lsuHashKey cycle ≠ key) (content : lsuCidKey cycle ≠ key)
    (root : lsuStateRootKey cycle ≠ key) (index : cycleByLsuHashKey lsuHash ≠ key) :
    (persistLsuHistory env dfs certifiedOnly cycle store lsuBytes lsuHash cid stateRoot
      finalityCidHint).getMetadata key = store.getMetadata key := by
  unfold persistLsuHistory
  dsimp only
  rw [Store.getMetadata_setMetadata_of_ne _ _ index]
  split
  next => rfl
  next =>
    have slot : ((store.setMetadata (lsuKey cycle) lsuBytes).setMetadata (lsuHashKey cycle)
        lsuHash.toList).getMetadata key = store.getMetadata key := by
      rw [Store.getMetadata_setMetadata_of_ne _ _ hash, Store.getMetadata_setMetadata_of_ne _ _ lsu]
    split
    next => exact slot
    next =>
      rw [Store.getMetadata_setMetadata_of_ne _ _ root]
      split
      next => rw [Store.getMetadata_setMetadata_of_ne _ _ content, slot]
      next => exact slot

/-- The slot holds the newcomer, unless it loses; then it holds what it held. -/
theorem slot_persistLsuHistory :
    let after := persistLsuHistory env dfs certifiedOnly cycle store lsuBytes lsuHash cid stateRoot
      finalityCidHint
    let loses := losesCanonicalSlot env dfs certifiedOnly cycle store lsuBytes lsuHash
      finalityCidHint
    after.getMetadata (lsuHashKey cycle) =
        (if loses then store.getMetadata (lsuHashKey cycle) else some lsuHash.toList) ∧
      after.getMetadata (lsuKey cycle) =
        (if loses then store.getMetadata (lsuKey cycle) else some lsuBytes) := by
  have indexHash : cycleByLsuHashKey lsuHash ≠ lsuHashKey cycle :=
    keyTag_ne 11 (by decide) (by decide) (by decide)
  have indexLsu : cycleByLsuHashKey lsuHash ≠ lsuKey cycle :=
    keyTag_ne 11 (by decide) (by decide) (by decide)
  have cidHash : lsuCidKey cycle ≠ lsuHashKey cycle :=
    keyTag_ne 15 (by decide) (by decide) (by decide)
  have cidLsu : lsuCidKey cycle ≠ lsuKey cycle := keyTag_ne 14 (by decide) (by decide) (by decide)
  have rootHash : lsuStateRootKey cycle ≠ lsuHashKey cycle :=
    keyTag_ne 15 (by decide) (by decide) (by decide)
  have rootLsu : lsuStateRootKey cycle ≠ lsuKey cycle :=
    keyTag_ne 14 (by decide) (by decide) (by decide)
  have slotLsu : ((store.setMetadata (lsuKey cycle) lsuBytes).setMetadata (lsuHashKey cycle)
      lsuHash.toList).getMetadata (lsuKey cycle) = some lsuBytes := by
    rw [Store.getMetadata_setMetadata_of_ne _ _ lsuKey_ne_lsuHashKey.symm,
      Store.getMetadata_setMetadata_self]
  dsimp only
  unfold persistLsuHistory
  dsimp only
  rw [Store.getMetadata_setMetadata_of_ne _ _ indexHash,
    Store.getMetadata_setMetadata_of_ne _ _ indexLsu]
  split
  next => exact ⟨rfl, rfl⟩
  next =>
    split
    next => exact ⟨Store.getMetadata_setMetadata_self _ _ _, slotLsu⟩
    next =>
      rw [Store.getMetadata_setMetadata_of_ne _ _ rootHash,
        Store.getMetadata_setMetadata_of_ne _ _ rootLsu]
      split
      next =>
        rw [Store.getMetadata_setMetadata_of_ne _ _ cidHash,
          Store.getMetadata_setMetadata_of_ne _ _ cidLsu]
        exact ⟨Store.getMetadata_setMetadata_self _ _ _, slotLsu⟩
      next => exact ⟨Store.getMetadata_setMetadata_self _ _ _, slotLsu⟩

end Persist

end CatalystNode
