import CatalystNode.LockedThreads
import CatalystNode.PruningWindow
import CatalystNode.ReceiptStatus

namespace CatalystNode

open ByteVector HexCodec CanonicalList LockedThreads Store

structure GossipCall where
  tx : Transaction
  nowMs : UInt64
  deriving DecidableEq

/-- Where a task is: the storage operation it makes next, with what it has read so far and the work
after it. The gossip task persists a queue of transactions, the apply task prunes a number of times. -/
inductive PoolStage where
  | writingTx (queue : List GossipCall)
  | writingRaw (call : GossipCall) (bytes : Bytes) (queue : List GossipCall)
  | readingMeta (call : GossipCall) (queue : List GossipCall)
  | writingMeta (call : GossipCall) (existing : Option TxMeta) (queue : List GossipCall)
  | loadingIds (call : GossipCall) (queue : List GossipCall)
  | savingIds (ids : List Hash) (queue : List GossipCall)
  | pruning (prunes : ℕ)
  | checking (ids : List Hash) (prunes : ℕ)
  | deletingTx (txid : Hash) (ids : List Hash) (prunes : ℕ)
  | loadingRest (txid : Hash) (ids : List Hash) (prunes : ℕ)
  | savingRest (rest : List Hash) (ids : List Hash) (prunes : ℕ)
  deriving DecidableEq

/-- A record has been written or deleted and the list of ids does not show it yet. -/
def PoolStage.midway : PoolStage → Bool
  | .writingTx _ | .pruning _ | .checking _ _ | .deletingTx _ _ _ => false
  | _ => true

section Model

variable (env : DatabaseEnv)

def GossipCall.txid (call : GossipCall) : Hash := txIdV2 env.tx.blake2b512 call.tx

/-- One storage operation of a task, and what the task does up to the next one. Of what a check of a
persisted transaction reads, the two tasks write its record only. -/
def poolStep : PoolStage → Store → Option (PoolStage × Store)
  | .writingTx [], _ => none
  | .writingTx (call :: queue), store =>
    match env.tx.bincodeTx call.tx with
    | none => some (.writingTx queue, store)
    | some bytes =>
      some (.writingRaw call bytes queue, store.setMetadata (mempoolTxKey (call.txid env)) bytes)
  | .writingRaw call bytes queue, store =>
    some (.readingMeta call queue, store.setMetadata (txRawKey (call.txid env)) bytes)
  | .readingMeta call queue, store =>
    some (.writingMeta call (readTxMeta env store (call.txid env)) queue, store)
  | .writingMeta call existing queue, store =>
    let existing := existing.getD (.received call.tx (call.txid env) call.nowMs)
    some (.loadingIds call queue,
      writeTxMeta env store (call.txid env) (existing.resubmitted call.tx call.nowMs))
  | .loadingIds call queue, store =>
    let ids := loadMempoolTxids env store
    some (if call.txid env ∈ ids then .writingTx queue else .savingIds (ids ++ [call.txid env]) queue,
      store)
  | .savingIds ids queue, store => some (.writingTx queue, saveMempoolTxids env store ids)
  | .pruning 0, _ => none
  | .pruning (prunes + 1), store => some (.checking (loadMempoolTxids env store) prunes, store)
  | .checking [] prunes, store => some (.pruning prunes, store)
  | .checking (txid :: ids) prunes, store =>
    some (if staysInMempool env store txid then .checking ids prunes else .deletingTx txid ids prunes,
      store)
  | .deletingTx txid ids prunes, store =>
    some (.loadingRest txid ids prunes, store.deleteMetadata (mempoolTxKey txid))
  | .loadingRest txid ids prunes, store =>
    some (.savingRest ((loadMempoolTxids env store).filter (· ≠ txid)) ids prunes, store)
  | .savingRest rest ids prunes, store => some (.checking ids prunes, saveMempoolTxids env store rest)

/-- The two tasks with a lock around what is midway. The code has none: its system is the unlocked
one. -/
def poolRace : System Bool PoolStage Store where
  step _ := poolStep env
  holds := PoolStage.midway

def poolTasks (queue : List GossipCall) (prunes : ℕ) (i : Bool) : PoolStage :=
  if i then .pruning prunes else .writingTx queue

def Store.HasMempoolTx (store : Store) (txid : Hash) : Prop :=
  (store.getMetadata (mempoolTxKey txid)).isSome = true

def MempoolIndexed (store : Store) : Prop :=
  ∀ txid, txid ∈ loadMempoolTxids env store ↔ store.HasMempoolTx txid

def PoolStage.listing (store : Store) : PoolStage → List Hash
  | .writingRaw call _ _ | .readingMeta call _ | .writingMeta call _ _ | .loadingIds call _ =>
    loadMempoolTxids env store ++ [call.txid env]
  | .savingIds ids _ => ids
  | .loadingRest txid _ _ => (loadMempoolTxids env store).filter (· ≠ txid)
  | .savingRest rest _ _ => rest
  | _ => loadMempoolTxids env store

def PoolStage.Indexed (stage : PoolStage) (store : Store) : Prop :=
  ∀ txid, txid ∈ stage.listing env store ↔ store.HasMempoolTx txid

end Model

section Alone

variable {env : DatabaseEnv} {i : Bool}

/-- By itself, the gossip task persists the transactions one by one. -/
theorem alone_persistMempoolTx (call : GossipCall) (queue : List GossipCall) (store : Store) :
    ∃ n, alone (poolRace env) i n (.writingTx (call :: queue), store) =
      some (.writingTx queue, persistMempoolTx env call.nowMs store call.tx) := by
  unfold persistMempoolTx
  cases encoded : env.tx.bincodeTx call.tx with
  | none => exact ⟨1, by simp [alone, poolRace, poolStep, encoded]⟩
  | some bytes =>
    dsimp only
    split
    next listed =>
      refine ⟨5, ?_⟩
      simp [alone, poolRace, poolStep, encoded, GossipCall.txid, listed]
    next missing =>
      refine ⟨6, ?_⟩
      simp [alone, poolRace, poolStep, encoded, GossipCall.txid, missing]

theorem alone_checking (ids : List Hash) (prunes : ℕ) (store : Store) :
    ∃ n, alone (poolRace env) i n (.checking ids prunes, store) =
      some (.pruning prunes, ids.foldl (fun store txid =>
        if staysInMempool env store txid then store
        else deletePersistedMempoolTx env store txid) store) := by
  induction ids generalizing store with
  | nil => exact ⟨1, rfl⟩
  | cons txid ids ih =>
    rw [List.foldl_cons]
    split
    next stays =>
      obtain ⟨n, rest⟩ := ih store
      refine ⟨1 + n, (alone_add ?_ n).trans rest⟩
      simp [alone, poolRace, poolStep, stays]
    next leaves =>
      obtain ⟨n, rest⟩ := ih (deletePersistedMempoolTx env store txid)
      refine ⟨4 + n, (alone_add ?_ n).trans rest⟩
      simp [alone, poolRace, poolStep, leaves, deletePersistedMempoolTx]

/-- By itself, the apply task prunes as it is told. -/
theorem alone_prunePersistedMempool (prunes : ℕ) (store : Store) :
    ∃ n, alone (poolRace env) i n (.pruning (prunes + 1), store) =
      some (.pruning prunes, prunePersistedMempool env store) := by
  obtain ⟨n, checked⟩ := @alone_checking env i (loadMempoolTxids env store) prunes store
  exact ⟨1 + n, (alone_add rfl n).trans checked⟩

end Alone

section Index

variable {env : DatabaseEnv} {store : Store}

theorem mempoolTxKey_ne_txids (txid : Hash) : mempoolTxKey txid ≠ "mempool:txids" := by
  have tag : "mempool:txids" = "mempool:txids" ++ "" := by simp
  rw [tag, mempoolTxKey]
  exact keyTag_ne 11 (by decide) (by decide) (by decide)

theorem mempoolTxKey_inj {a b : Hash} (same : mempoolTxKey a = mempoolTxKey b) : a = b := by
  unfold mempoolTxKey at same
  exact encodeString_inj (by simpa using same)

theorem loadMempoolTxids_set {key : String} (bytes : Bytes) (other : key ≠ "mempool:txids") :
    loadMempoolTxids env (store.setMetadata key bytes) = loadMempoolTxids env store := by
  rw [loadMempoolTxids, getMetadata_setMetadata_of_ne _ _ other, loadMempoolTxids]

theorem hasMempoolTx_set {key : String} (bytes : Bytes) (other : ∀ txid, key ≠ mempoolTxKey txid)
    (txid : Hash) : (store.setMetadata key bytes).HasMempoolTx txid ↔ store.HasMempoolTx txid := by
  rw [HasMempoolTx, getMetadata_setMetadata_of_ne _ _ (other txid), HasMempoolTx]

theorem hasMempoolTx_record (txid : Hash) (bytes : Bytes) (id : Hash) :
    (store.setMetadata (mempoolTxKey txid) bytes).HasMempoolTx id ↔
      store.HasMempoolTx id ∨ id = txid := by
  by_cases same : id = txid
  · subst same
    simp [HasMempoolTx]
  · have other : mempoolTxKey txid ≠ mempoolTxKey id := fun keys => same (mempoolTxKey_inj keys).symm
    rw [HasMempoolTx, getMetadata_setMetadata_of_ne _ _ other, HasMempoolTx]
    simp [same]

theorem hasMempoolTx_delete (txid id : Hash) :
    (store.deleteMetadata (mempoolTxKey txid)).HasMempoolTx id ↔
      store.HasMempoolTx id ∧ id ≠ txid := by
  rw [HasMempoolTx, getMetadata_deleteMetadata, HasMempoolTx]
  by_cases same : id = txid
  · simp [same]
  · have other : mempoolTxKey txid ≠ mempoolTxKey id := fun keys => same (mempoolTxKey_inj keys).symm
    simp [same, other]

theorem loadMempoolTxids_delete (txid : Hash) :
    loadMempoolTxids env (store.deleteMetadata (mempoolTxKey txid)) = loadMempoolTxids env store := by
  rw [loadMempoolTxids, getMetadata_deleteMetadata, if_neg (mempoolTxKey_ne_txids txid),
    loadMempoolTxids]

theorem hasMempoolTx_save (ids : List Hash) (txid : Hash) :
    (saveMempoolTxids env store ids).HasMempoolTx txid ↔ store.HasMempoolTx txid := by
  unfold saveMempoolTxids
  split
  next => rfl
  next bytes _ => exact hasMempoolTx_set bytes (fun id => (mempoolTxKey_ne_txids id).symm) txid

theorem mempoolIndexed_save
    (codec : ∀ ids, (env.encodeTxids ids).bind env.decodeTxids = some ids) {ids : List Hash}
    (matched : ∀ txid, txid ∈ ids ↔ store.HasMempoolTx txid) :
    MempoolIndexed env (saveMempoolTxids env store ids) := by
  intro txid
  rw [hasMempoolTx_save, ← matched]
  obtain ⟨bytes, written, read⟩ := Option.bind_eq_some_iff.mp (codec (sortDedup ids))
  rw [saveMempoolTxids, written]
  dsimp only
  rw [loadMempoolTxids, getMetadata_setMetadata_self, Option.bind_some, read, Option.getD_some,
    mem_sortDedup]

theorem txRawKey_ne_mempool (txid : Hash) :
    txRawKey txid ≠ "mempool:txids" ∧ ∀ id, txRawKey txid ≠ mempoolTxKey id := by
  refine ⟨?_, fun id => keyTag_ne 1 (by decide) (by decide) (by decide)⟩
  have tag : "mempool:txids" = "mempool:txids" ++ "" := by simp
  rw [tag, txRawKey]
  exact keyTag_ne 1 (by decide) (by decide) (by decide)

theorem txMetaKey_ne_mempool (txid : Hash) :
    txMetaKey txid ≠ "mempool:txids" ∧ ∀ id, txMetaKey txid ≠ mempoolTxKey id := by
  refine ⟨?_, fun id => keyTag_ne 1 (by decide) (by decide) (by decide)⟩
  have tag : "mempool:txids" = "mempool:txids" ++ "" := by simp
  rw [tag, txMetaKey]
  exact keyTag_ne 1 (by decide) (by decide) (by decide)

theorem indexed_set {call : GossipCall} {queue : List GossipCall} {key : String} (bytes : Bytes)
    (other : key ≠ "mempool:txids" ∧ ∀ txid, key ≠ mempoolTxKey txid)
    (indexed : (PoolStage.loadingIds call queue).Indexed env store) :
    (PoolStage.loadingIds call queue).Indexed env (store.setMetadata key bytes) := by
  intro txid
  rw [PoolStage.listing, loadMempoolTxids_set bytes other.1, hasMempoolTx_set bytes other.2]
  exact indexed txid

/-- Each storage operation brings about what its task expects of the index. -/
theorem poolStep_indexed (codec : ∀ ids, (env.encodeTxids ids).bind env.decodeTxids = some ids)
    {stage stage' : PoolStage} {store' : Store} (indexed : stage.Indexed env store)
    (stepped : poolStep env stage store = some (stage', store')) : stage'.Indexed env store' := by
  cases stage with
  | writingTx queue =>
    cases queue with
    | nil => cases stepped
    | cons call queue =>
      rw [poolStep] at stepped
      split at stepped
      next =>
        cases Option.some.inj stepped
        exact indexed
      next bytes _ =>
        cases Option.some.inj stepped
        intro txid
        rw [PoolStage.listing, loadMempoolTxids_set _ (mempoolTxKey_ne_txids _), hasMempoolTx_record,
          List.mem_append, List.mem_singleton]
        exact or_congr_left (indexed txid)
  | writingRaw call bytes queue =>
    cases Option.some.inj stepped
    exact @indexed_set env store call queue _ bytes (txRawKey_ne_mempool _) indexed
  | readingMeta call queue =>
    cases Option.some.inj stepped
    exact indexed
  | writingMeta call existing queue =>
    cases Option.some.inj stepped
    unfold writeTxMeta
    split
    next => exact indexed
    next bytes _ => exact indexed_set bytes (txMetaKey_ne_mempool _) indexed
  | loadingIds call queue =>
    cases Option.some.inj stepped
    split
    next listed =>
      intro txid
      rw [← indexed txid]
      simp only [PoolStage.listing, List.mem_append, List.mem_singleton]
      exact ⟨Or.inl, fun either => either.elim id (fun same => same ▸ listed)⟩
    next => exact indexed
  | savingIds ids queue =>
    cases Option.some.inj stepped
    exact mempoolIndexed_save codec indexed
  | pruning prunes =>
    cases prunes with
    | zero => cases stepped
    | succ prunes =>
      cases Option.some.inj stepped
      exact indexed
  | checking ids prunes =>
    cases ids with
    | nil =>
      cases Option.some.inj stepped
      exact indexed
    | cons txid ids =>
      cases Option.some.inj stepped
      split
      next => exact indexed
      next => exact indexed
  | deletingTx txid ids prunes =>
    cases Option.some.inj stepped
    intro id
    rw [PoolStage.listing, loadMempoolTxids_delete, hasMempoolTx_delete, ← indexed id]
    simp [PoolStage.listing]
  | loadingRest txid ids prunes =>
    cases Option.some.inj stepped
    exact indexed
  | savingRest rest ids prunes =>
    cases Option.some.inj stepped
    exact mempoolIndexed_save codec indexed

theorem poolStep_still {stage stage' : PoolStage} {store' : Store} (start : stage.midway = false)
    (stop : stage'.midway = false) (stepped : poolStep env stage store = some (stage', store')) :
    store' = store := by
  cases stage with
  | writingTx queue =>
    cases queue with
    | nil => cases stepped
    | cons call queue =>
      rw [poolStep] at stepped
      split at stepped
      next => exact (congrArg Prod.snd (Option.some.inj stepped)).symm
      next =>
        cases Option.some.inj stepped
        cases stop
  | pruning prunes =>
    cases prunes with
    | zero => cases stepped
    | succ prunes => exact (congrArg Prod.snd (Option.some.inj stepped)).symm
  | checking ids prunes =>
    cases ids with
    | nil => exact (congrArg Prod.snd (Option.some.inj stepped)).symm
    | cons txid ids => exact (congrArg Prod.snd (Option.some.inj stepped)).symm
  | deletingTx txid ids prunes =>
    cases Option.some.inj stepped
    cases stop
  | writingRaw | readingMeta | writingMeta | loadingIds | savingIds | loadingRest | savingRest =>
    cases start

theorem indexed_iff_of_not_midway {stage : PoolStage} (stop : stage.midway = false) :
    stage.Indexed env store ↔ MempoolIndexed env store := by
  cases stage with
  | writingTx | pruning | checking | deletingTx => rfl
  | writingRaw | readingMeta | writingMeta | loadingIds | savingIds | loadingRest | savingRest =>
    cases stop

end Index

/-- In every interleaving of the gossip task's calls with the apply task's prunes in which no task
changes a record while the other has changed one and not yet saved the list, the list has exactly the
ids with a record once all calls have finished. -/
theorem mempoolIndex_kept (env : DatabaseEnv)
    (codec : ∀ ids, (env.encodeTxids ids).bind env.decodeTxids = some ids)
    (queue : List GossipCall) (prunes : ℕ) (store : Store) (indexed : MempoolIndexed env store)
    (schedule : List Bool) {final : State Bool PoolStage Store}
    (ran : run (poolRace env).unlocked ⟨poolTasks queue prunes, store⟩ schedule = some final)
    (finished : final.threads = poolTasks [] 0)
    (apart : (run (poolRace env) ⟨poolTasks queue prunes, store⟩ schedule).isSome = true) :
    MempoolIndexed env final.shared := by
  obtain ⟨locked, allowed⟩ := Option.isSome_iff_exists.mp apart
  have same : locked = final := Option.some.inj ((run_unlocked allowed).symm.trans ran)
  subst same
  have outside : ∀ (queue : List GossipCall) (prunes : ℕ) (i : Bool),
      (poolTasks queue prunes i).midway = false := by
    intro queue prunes i
    cases i <;> rfl
  have start : Guarded (poolRace env) (PoolStage.Indexed env) ⟨poolTasks queue prunes, store⟩ :=
    ⟨fun _ j _ _ => outside queue prunes j,
      fun i _ => (indexed_iff_of_not_midway (outside queue prunes i)).mpr indexed⟩
  have guarded : Guarded (poolRace env) (PoolStage.Indexed env) locked := by
    refine @guarded_run _ _ _ _ _ _ _ (MempoolIndexed env) ?_ ?_ ?_ _ _ _ start allowed
    · exact fun _ _ _ _ _ expected stepped => poolStep_indexed codec expected stepped
    · exact fun _ _ stop => indexed_iff_of_not_midway stop
    · exact fun _ _ _ _ _ start stop stepped => poolStep_still start stop stepped
  have stopped : ∀ i, (locked.threads i).midway = false := by
    intro i
    rw [finished]
    exact outside [] 0 i
  exact (indexed_iff_of_not_midway (stopped false)).mp
    (guarded.2 false (fun j _ => stopped j))

section Sample

def splitIds : ℕ → Bytes → List Hash
  | 0, _ => []
  | n + 1, bytes => padTo 32 bytes :: splitIds n (bytes.drop 32)

theorem splitIds_flatMap (ids : List Hash) :
    splitIds ids.length (ids.flatMap List.Vector.toList) = ids := by
  induction ids with
  | nil => rfl
  | cons txid ids ih =>
    have size : txid.toList.length = 32 := txid.toList_length
    have first : padTo 32 (txid.toList ++ ids.flatMap List.Vector.toList) = txid := by
      apply Subtype.ext
      simp [padTo, size]
    have rest : (txid.toList ++ ids.flatMap List.Vector.toList).drop 32 =
        ids.flatMap List.Vector.toList := List.drop_left' size
    rw [List.length_cons, List.flatMap_cons, splitIds, first, rest, ih]

def sampleMempoolEnv : DatabaseEnv :=
  { sampleApplyEnv with
    decodeTx := fun bytes => (decodeU64 bytes).map (fun nonce =>
      { sampleWireTx with core := { sampleWireTx.core with nonce } })
    decodeTxids := fun bytes => some (splitIds (bytes.length / 32) bytes)
    encodeTxids := fun ids => some (ids.flatMap List.Vector.toList)
    checkpointEveryCycles := 0 }

theorem sampleMempoolEnv_codec (ids : List Hash) :
    (sampleMempoolEnv.encodeTxids ids).bind sampleMempoolEnv.decodeTxids = some ids := by
  have size : (ids.flatMap List.Vector.toList).length / 32 = ids.length := by
    have sum : (ids.flatMap List.Vector.toList).length = 32 * ids.length := by
      simp [List.length_flatMap, Nat.mul_comm]
    rw [sum, Nat.mul_div_cancel_left _ (by decide)]
  change some (splitIds _ _) = some ids
  rw [size, splitIds_flatMap]

def staleTx : Transaction := { sampleWireTx with core := { sampleWireTx.core with nonce := 0 } }

def freshCall : GossipCall := ⟨sampleWireTx, 100⟩

def staleId : Hash := txIdV2 sampleTxEnv.blake2b512 staleTx

def staleStore : Store :=
  saveMempoolTxids sampleMempoolEnv
    (Store.empty.setMetadata (mempoolTxKey staleId) (encodeU64 0)) [staleId]

theorem staleStore_indexed : MempoolIndexed sampleMempoolEnv staleStore := by
  refine mempoolIndexed_save sampleMempoolEnv_codec (fun txid => ?_)
  rw [hasMempoolTx_record, List.mem_singleton]
  simp [HasMempoolTx, Store.empty, Store.getMetadata]

def sampleEnd (system : System Bool PoolStage Store) (schedule : List Bool) :
    Option (PoolStage × PoolStage × List Hash × Bool) :=
  (run system ⟨poolTasks [freshCall] 1, staleStore⟩ schedule).map (fun final =>
    (final.threads false, final.threads true, loadMempoolTxids sampleMempoolEnv final.shared,
      (final.shared.getMetadata (mempoolTxKey (freshCall.txid sampleMempoolEnv))).isSome))

theorem threads_eq_poolTasks {threads : Bool → PoolStage} (gossip : threads false = .writingTx [])
    (apply : threads true = .pruning 0) : threads = poolTasks [] 0 := by
  funext i
  cases i with
  | false => exact gossip
  | true => exact apply

/-- The apply task has deleted the stale transaction and loaded the list without it when the gossip
task persists a fresh one; its save then loses the fresh id, whose record stays. -/
theorem mempoolIndex_lost :
    (∀ ids, (sampleMempoolEnv.encodeTxids ids).bind sampleMempoolEnv.decodeTxids = some ids) ∧
    MempoolIndexed sampleMempoolEnv staleStore ∧
    ∃ final, run (poolRace sampleMempoolEnv).unlocked ⟨poolTasks [freshCall] 1, staleStore⟩
        (List.replicate 4 true ++ List.replicate 6 false ++ List.replicate 2 true) = some final ∧
      final.threads = poolTasks [] 0 ∧ loadMempoolTxids sampleMempoolEnv final.shared = [] ∧
      final.shared.HasMempoolTx (freshCall.txid sampleMempoolEnv) ∧
      ¬MempoolIndexed sampleMempoolEnv final.shared := by
  have ended : sampleEnd (poolRace sampleMempoolEnv).unlocked
      (List.replicate 4 true ++ List.replicate 6 false ++ List.replicate 2 true) =
      some (.writingTx [], .pruning 0, [], true) := by decide +kernel
  obtain ⟨final, ran, shown⟩ := Option.map_eq_some_iff.mp ended
  simp only [Prod.mk.injEq] at shown
  obtain ⟨gossip, apply, listed, recorded⟩ := shown
  refine ⟨sampleMempoolEnv_codec, staleStore_indexed, final, ran,
    threads_eq_poolTasks gossip apply, listed, recorded, fun indexed => ?_⟩
  have missing := (indexed (freshCall.txid sampleMempoolEnv)).mpr recorded
  rw [listed] at missing
  cases missing

/-- The same calls one after the other. -/
theorem mempoolIndex_kept_inTurn :
    ∃ final, run (poolRace sampleMempoolEnv).unlocked ⟨poolTasks [freshCall] 1, staleStore⟩
        (List.replicate 6 true ++ List.replicate 6 false) = some final ∧
      MempoolIndexed sampleMempoolEnv final.shared := by
  have ended : sampleEnd (poolRace sampleMempoolEnv)
      (List.replicate 6 true ++ List.replicate 6 false) =
      some (.writingTx [], .pruning 0, [freshCall.txid sampleMempoolEnv], true) := by decide +kernel
  obtain ⟨final, ran, shown⟩ := Option.map_eq_some_iff.mp ended
  simp only [Prod.mk.injEq] at shown
  exact ⟨final, run_unlocked ran, mempoolIndex_kept sampleMempoolEnv sampleMempoolEnv_codec
    [freshCall] 1 staleStore staleStore_indexed _ (run_unlocked ran)
    (threads_eq_poolTasks shown.1 shown.2.1) (Option.isSome_of_mem ran)⟩

end Sample

end CatalystNode
