import CatalystNode.LedgerReplay

namespace CatalystNode

open ByteVector HexCodec MachineInt Store CanonicalList

section Workers

def RegisteredAlike (s t : Store) : Prop :=
  ∀ tag ∈ registrationTags, ∀ rest, s.getState (tag ++ rest) = t.getState (tag ++ rest)

theorem RegisteredAlike.of_writesWithin {tags : List Bytes} {s t : Store} (h : WritesWithin tags s t)
    (apart : ∀ other ∈ tags, ∀ tag ∈ registrationTags, TagsApart other tag) : RegisteredAlike t s :=
  fun tag ht rest => h.getState_append (fun other ho => apart other ho tag ht) rest

theorem RegisteredAlike.trans {s t u : Store} (first : RegisteredAlike s t)
    (second : RegisteredAlike t u) : RegisteredAlike s u :=
  fun tag ht rest => (first tag ht rest).trans (second tag ht rest)

theorem RegisteredAlike.setState {s t : Store} (alike : RegisteredAlike s t) (key value : Bytes) :
    RegisteredAlike (s.setState key value) (t.setState key value) := by
  intro tag ht rest
  rw [Store.getState_setState, Store.getState_setState, alike tag ht rest]

theorem RegisteredAlike.registerWorker {s t : Store} (alike : RegisteredAlike s t) (pk : PublicKey)
    (cycle : UInt64) : RegisteredAlike (registerWorker s pk cycle) (registerWorker t pk cycle) := by
  have marked := alike.setState (workerKeyForPubkey pk) [1]
  have seen := marked (utf8 "wfs:") (by simp [registrationTags]) pk.toList
  have dated : RegisteredAlike
      (ensureWorkerFirstSeenCycle (s.setState (workerKeyForPubkey pk) [1]) pk cycle)
      (ensureWorkerFirstSeenCycle (t.setState (workerKeyForPubkey pk) [1]) pk cycle) := by
    unfold ensureWorkerFirstSeenCycle
    dsimp only
    rw [feeCreditFirstSeenCycleKeyForPubkey, seen]
    split
    next => exact marked.setState _ _
    next => exact marked
  exact dated.setState _ _

theorem workerOfEntry_eq_some_iff (entry : Bytes × Bytes) (pk : PublicKey) :
    workerOfEntry entry = some pk ↔ entry = (workerKeyForPubkey pk, [1]) := by
  rcases entry with ⟨key, value⟩
  unfold workerOfEntry
  constructor
  · intro named
    split at named
    next marked =>
      obtain ⟨initial, registered⟩ := marked
      obtain ⟨rest, rfl⟩ := List.isPrefixOf_iff_prefix.mp initial
      rw [List.drop_left] at named
      rw [workerKeyForPubkey, toArray?_eq_some named, ← registered]
    next => simp at named
  · rintro ⟨rfl, rfl⟩
    rw [if_pos ⟨List.isPrefixOf_iff_prefix.mpr (List.prefix_append _ _), rfl⟩, workerKeyForPubkey,
      List.drop_left, toArray?_toList]

theorem mem_loadWorkersFromState (store : Store) (pk : PublicKey) :
    pk ∈ loadWorkersFromState store ↔ store.getState (workerKeyForPubkey pk) = some [1] := by
  rw [loadWorkersFromState, mem_sortDedup, List.mem_filterMap]
  simp only [workerOfEntry_eq_some_iff, exists_eq_right]
  exact Std.ExtTreeMap.mem_toList_iff_getElem?_eq_some

theorem waitingWorkers_congr {s t : Store} (alike : RegisteredAlike s t) (lsu : LedgerStateUpdate) :
    waitingWorkers s lsu = waitingWorkers t lsu := by
  have workers : sortDedup (loadWorkersFromState s) = sortDedup (loadWorkersFromState t) := by
    apply sortDedup_congr
    intro pk
    rw [mem_loadWorkersFromState, mem_loadWorkersFromState, workerKeyForPubkey,
      alike (utf8 "workers:") (by simp [registrationTags])]
  have eligible : ∀ pk cycle, waitingWorkerIsEligible s pk cycle = waitingWorkerIsEligible t pk cycle := by
    intro pk cycle
    simp only [waitingWorkerIsEligible, getWorkerFirstSeenCycle, getWorkerLastRegistrationCycle,
      feeCreditFirstSeenCycleKeyForPubkey, workerLastRegistrationCycleKeyForPubkey,
      alike (utf8 "wfs:") (by simp [registrationTags]), alike (utf8 "wlr:") (by simp [registrationTags])]
  simp only [waitingWorkers, workers, eligible]

def registeredStore (store : Store) (lsu : LedgerStateUpdate) : Store :=
  (lsu.partialUpdate.transactionEntries.filter (fun e => isWorkerRegMarker e.signature)).foldl
    (fun s e => registerWorker s e.publicKey lsu.cycleNumber) store

theorem registeredAlike_foldl_applyEntry (runtime : EvmRuntime) (chainId cycle : UInt64)
    {entries : List TransactionEntry} (contained : ContractsContained runtime entries)
    (pass : EntryPass) (store : Store) (alike : RegisteredAlike pass.store store) :
    RegisteredAlike (entries.foldl (applyEntry runtime chainId cycle) pass).store
      ((entries.filter (fun e => isWorkerRegMarker e.signature)).foldl
        (fun s e => registerWorker s e.publicKey cycle) store) := by
  induction entries generalizing pass store with
  | nil => exact alike
  | cons e entries ih =>
    rw [List.foldl_cons]
    cases marker : isWorkerRegMarker e.signature with
    | true =>
      rw [List.filter_cons, if_pos marker, List.foldl_cons]
      refine ih contained.tail _ _ ?_
      rw [applyEntry, if_pos marker]
      exact alike.registerWorker e.publicKey cycle
    | false =>
      rw [List.filter_cons, if_neg (by simp [marker])]
      have kept := RegisteredAlike.of_writesWithin (writesWithin_applyEntry_unmarked runtime chainId
        cycle pass (contained.of_mem List.mem_cons_self) marker) (by decide)
      exact ih contained.tail _ _ (kept.trans alike)

end Workers

end CatalystNode
