import CatalystNode.LastingRecords

namespace CatalystNode

open ByteVector HexCodec MachineInt Store Effects FoldTrace

inductive HistoryField where
  | lsu
  | hash
  | cid
  | stateRoot
  deriving DecidableEq

namespace HistoryField

def tag : HistoryField → String
  | lsu => "consensus:lsu:"
  | hash => "consensus:lsu_hash:"
  | cid => "consensus:lsu_cid:"
  | stateRoot => "consensus:lsu_state_root:"

def key : HistoryField → UInt64 → String
  | lsu => lsuKey
  | hash => lsuHashKey
  | cid => lsuCidKey
  | stateRoot => lsuStateRootKey

def tags : List String := [lsu.tag, hash.tag, cid.tag, stateRoot.tag]

theorem key_eq (field : HistoryField) (cycle : UInt64) :
    field.key cycle = field.tag ++ toString cycle := by
  cases field <;> rfl

theorem tag_mem_tags (field : HistoryField) : field.tag ∈ tags := by
  cases field <;> decide

theorem key_underTag (field : HistoryField) (cycle : UInt64) : UnderTag tags (field.key cycle) := by
  rw [key_eq]
  exact underTag_append field.tag_mem_tags _

theorem tag_inj {field field' : HistoryField} (same : field.tag = field'.tag) : field = field' := by
  revert same
  cases field <;> cases field' <;> decide

def otherTags : List String :=
  ["tx:raw:", "tx:meta:", "tx:cycle:", "consensus:tx_batch_commit:", "consensus:cycle_by_lsu_hash:",
    "consensus:last_applied_", "consensus:checkpoint:", "storage:", "storage:history_prune",
    "mempool:tx"]

/-- No name lies under a tag of the history and another one. -/
theorem tags_apart {others : List String} (known : others ⊆ otherTags) : NamesApart tags others := by
  have apart : NamesApart tags otherTags := by decide
  exact fun tag listed other listed' => apart tag listed other (known listed')

theorem key_inj {field field' : HistoryField} {a b : UInt64} (same : field.key a = field'.key b) :
    field = field' ∧ a = b := by
  rw [key_eq, key_eq] at same
  obtain ⟨tag, digits⟩ := tagged_inj (by decide) (tag_mem_tags field) (tag_mem_tags field') same
  exact ⟨tag_inj tag, UInt64.toNat_inj.mp (Nat.repr_inj.mp digits)⟩

end HistoryField

def Store.history (store : Store) (cycle : UInt64) (field : HistoryField) : Option Bytes :=
  store.getMetadata (field.key cycle)

section Writes

variable {store : Store} {cycle : UInt64} {key : String} {value : Bytes}

theorem history_congr {s t : Store} (same : ∀ field : HistoryField,
    t.getMetadata (field.key cycle) = s.getMetadata (field.key cycle)) :
    t.history cycle = s.history cycle :=
  funext same

theorem history_setMetadata {field : HistoryField} {a : UInt64} :
    (store.setMetadata (field.key a) value).history cycle =
      if a = cycle then Function.update (store.history cycle) field (some value)
      else store.history cycle := by
  funext read
  split
  next same =>
    subst same
    by_cases own : read = field
    · rw [own, Function.update_self, Store.history, getMetadata_setMetadata_self]
    · rw [Function.update_of_ne own, Store.history, getMetadata_setMetadata_of_ne]
      · rfl
      · exact fun same => own (HistoryField.key_inj same).1.symm
  next other =>
    rw [Store.history, getMetadata_setMetadata_of_ne]
    · rfl
    · exact fun same => other (HistoryField.key_inj same).2

theorem history_setMetadata_of_ne (other : ∀ field : HistoryField, key ≠ field.key cycle) :
    (store.setMetadata key value).history cycle = store.history cycle :=
  history_congr (fun field => getMetadata_setMetadata_of_ne _ _ (other field))

theorem ne_historyKey_of_underTag {tags : List String} (apart : NamesApart HistoryField.tags tags)
    (under : UnderTag tags key) (field : HistoryField) : key ≠ field.key cycle := by
  intro same
  exact (field.key_underTag cycle).not_of_apart apart (same ▸ under)

theorem ne_historyKey {tag : String} (apart : NamesApart HistoryField.tags [tag]) (rest : String)
    (field : HistoryField) : tag ++ rest ≠ field.key cycle :=
  ne_historyKey_of_underTag apart (underTag_append (List.mem_singleton.mpr rfl) rest) field

end Writes

section Pruning

variable {env : DatabaseEnv} {store : Store}

theorem getMetadata_foldl_deleteMetadata (keys : List String) (store : Store) (name : String) :
    (keys.foldl Store.deleteMetadata store).getMetadata name =
      if name ∈ keys then none else store.getMetadata name := by
  induction keys generalizing store with
  | nil => rfl
  | cons key keys ih =>
    rw [List.foldl_cons, ih, getMetadata_deleteMetadata]
    by_cases here : key = name
    · simp [here]
    · simp [here, Ne.symm here]

theorem historyKey_mem_prunedKeys {field : HistoryField} {a cycle : UInt64} :
    field.key cycle ∈ prunedKeys a ↔ a = cycle := by
  constructor
  · intro listed
    simp only [prunedKeys, List.mem_cons, List.not_mem_nil, or_false] at listed
    rcases listed with own | own | own | own | other
    · exact (@HistoryField.key_inj field .lsu _ _ own).2.symm
    · exact (@HistoryField.key_inj field .hash _ _ own).2.symm
    · exact (@HistoryField.key_inj field .cid _ _ own).2.symm
    · exact (@HistoryField.key_inj field .stateRoot _ _ own).2.symm
    · exact absurd other.symm (ne_historyKey (HistoryField.tags_apart (by decide)) _ field)
  · rintro rfl
    cases field <;> simp [prunedKeys, HistoryField.key]

def deletedKeys (env : DatabaseEnv) (store : Store) (cycle : UInt64) : List String :=
  (loadCycleTxids env.toApplyEnv store cycle).flatMap (fun txid => [txRawKey txid, txMetaKey txid]) ++
    cycleTxidsKey cycle :: prunedKeys cycle ++
    (((store.getMetadata (lsuHashKey cycle)).bind (toArray? 32)).map cycleByLsuHashKey).toList

theorem cycleTxidsKey_eq (cycle : UInt64) :
    cycleTxidsKey cycle = "tx:cycle:" ++ (toString cycle ++ ":txids") := String.append_assoc

theorem pruneCycle_eq (env : DatabaseEnv) (store : Store) (cycle : UInt64) :
    pruneCycle env store cycle = (deletedKeys env store cycle).foldl Store.deleteMetadata store := by
  let txids := loadCycleTxids env.toApplyEnv store cycle
  have receipts : txids.foldl pruneTx store = (txids.flatMap (fun txid =>
      [txRawKey txid, txMetaKey txid])).foldl Store.deleteMetadata store := by
    rw [List.foldl_flatMap]
    rfl
  -- the hash is read after the transactions are gone, which is no difference
  have hash : store.getMetadata (lsuHashKey cycle) =
      ((txids.foldl pruneTx store).deleteMetadata (cycleTxidsKey cycle)).getMetadata
        (lsuHashKey cycle) := by
    have listing : cycleTxidsKey cycle ≠ lsuHashKey cycle := by
      rw [cycleTxidsKey_eq]
      exact ne_historyKey (HistoryField.tags_apart (by decide)) _ .hash
    rw [getMetadata_deleteMetadata, if_neg listing, receipts, getMetadata_foldl_deleteMetadata,
      if_neg]
    simp only [List.mem_flatMap, List.mem_cons, List.not_mem_nil, or_false, not_exists, not_and]
    rintro txid - (raw | receipt)
    · exact ne_historyKey (HistoryField.tags_apart (by decide)) _ .hash raw.symm
    · exact ne_historyKey (HistoryField.tags_apart (by decide)) _ .hash receipt.symm
  unfold pruneCycle deletedKeys
  dsimp only
  rw [List.foldl_append, List.foldl_append, ← receipts, List.foldl_cons]
  split
  next missing =>
    rw [(congrArg (·.bind (toArray? 32)) hash).trans missing, Option.map_none, Option.toList_none,
      List.foldl_nil]
    rfl
  next lsuHash found =>
    rw [(congrArg (·.bind (toArray? 32)) hash).trans found, Option.map_some, Option.toList_some,
      List.foldl_cons, List.foldl_nil]
    rfl

theorem getMetadata_pruneCycle (env : DatabaseEnv) (store : Store) (cycle : UInt64) (name : String) :
    (pruneCycle env store cycle).getMetadata name =
      if name ∈ deletedKeys env store cycle then none else store.getMetadata name := by
  rw [pruneCycle_eq, getMetadata_foldl_deleteMetadata]

theorem mem_deletedKeys {env : DatabaseEnv} {store : Store} {cycle : UInt64} {name : String} :
    name ∈ deletedKeys env store cycle ↔
      (∃ txid ∈ loadCycleTxids env.toApplyEnv store cycle, name = txRawKey txid ∨ name = txMetaKey txid) ∨
      name = cycleTxidsKey cycle ∨ name ∈ prunedKeys cycle ∨
      ∃ h, (store.getMetadata (lsuHashKey cycle)).bind (toArray? 32) = some h ∧
        cycleByLsuHashKey h = name := by
  simp only [deletedKeys, List.mem_append, List.mem_flatMap, List.mem_cons, List.not_mem_nil, or_false,
    Option.mem_toList, Option.map_eq_some_iff, or_assoc]

theorem history_pruneCycle (env : DatabaseEnv) (store : Store) (a cycle : UInt64) :
    (pruneCycle env store a).history cycle =
      if a = cycle then fun _ => none else store.history cycle := by
  funext field
  have listed : field.key cycle ∈ deletedKeys env store a ↔ a = cycle := by
    rw [mem_deletedKeys, ← @historyKey_mem_prunedKeys field]
    constructor
    · rintro (⟨txid, -, raw | receipt⟩ | listing | own | ⟨h, -, index⟩)
      · exact absurd raw.symm (ne_historyKey (HistoryField.tags_apart (by decide)) _ field)
      · exact absurd receipt.symm (ne_historyKey (HistoryField.tags_apart (by decide)) _ field)
      · rw [cycleTxidsKey_eq] at listing
        exact absurd listing.symm (ne_historyKey (HistoryField.tags_apart (by decide)) _ field)
      · exact own
      · exact absurd index (ne_historyKey (HistoryField.tags_apart (by decide)) _ field)
    · exact fun own => .inr (.inr (.inl own))
  rw [Store.history, getMetadata_pruneCycle, if_congr listed rfl rfl]
  split <;> rfl

theorem history_foldl_pruneCycle (env : DatabaseEnv) (cycles : List UInt64) (store : Store)
    (cycle : UInt64) :
    (cycles.foldl (pruneCycle env) store).history cycle =
      if cycle ∈ cycles then fun _ => none else store.history cycle := by
  induction cycles generalizing store with
  | nil => rfl
  | cons a cycles ih =>
    rw [List.foldl_cons, ih, history_pruneCycle]
    by_cases here : a = cycle
    · simp [here]
    · simp [here, Ne.symm here]

theorem mem_cyclesThrough {first last cycle : UInt64} :
    cycle ∈ cyclesThrough first last ↔ first ≤ cycle ∧ cycle ≤ last := by
  have bound := last.toNat_lt
  rw [cyclesThrough, List.mem_map, UInt64.le_iff_toNat_le, UInt64.le_iff_toNat_le]
  constructor
  · rintro ⟨n, inside, rfl⟩
    rw [List.mem_range'_1] at inside
    rw [UInt64.toNat_ofNat', Nat.mod_eq_of_lt (by omega)]
    omega
  · intro inside
    exact ⟨cycle.toNat, List.mem_range'_1.mpr (by omega), UInt64.ofNat_toNat⟩

/-- The history of a store is that of another, but for whole cycles below a bound that are gone. -/
def PrunedBelow (bound : UInt64) (s t : Store) : Prop :=
  ∀ cycle, t.history cycle = s.history cycle ∨ cycle < bound ∧ t.history cycle = fun _ => none

theorem minU64_le_left (a b : UInt64) : min a b ≤ a := by
  change (if a ≤ b then a else b) ≤ a
  split
  next => exact UInt64.le_refl a
  next larger => exact UInt64.le_of_lt (UInt64.not_le.mp larger)

theorem history_bookkeep {key : String} (own : UnderTag bookkeepingTags key) (value : Bytes)
    (cycle : UInt64) : (store.setMetadata key value).history cycle = store.history cycle :=
  history_setMetadata_of_ne (ne_historyKey_of_underTag (HistoryField.tags_apart (by decide)) own)

theorem prunedBelow_pruneOnce (env : DatabaseEnv) (store : Store) (keepCycles batchCycles : UInt64) :
    PrunedBelow (lastAppliedCycle store) store (pruneOnce env store keepCycles batchCycles) := by
  intro cycle
  unfold pruneOnce
  dsimp only
  split
  next => exact .inl rfl
  next due =>
    rw [history_bookkeep (by decide), history_foldl_pruneCycle]
    split
    next inside =>
      refine .inr ⟨?_, rfl⟩
      have reached := UInt64.le_trans (mem_cyclesThrough.mp inside).2 (minU64_le_left _ _)
      have positive : saturatingSubU64 (saturatingSubU64 (lastAppliedCycle store) keepCycles) 1 ≠ 0 :=
        fun none => due (.inr (.inl none))
      have some : (saturatingSubU64 (saturatingSubU64 (lastAppliedCycle store) keepCycles) 1).toNat ≠
          0 := fun zero => positive (UInt64.toNat_inj.mp zero)
      rw [UInt64.le_iff_toNat_le] at reached
      rw [toNat_saturatingSubU64, toNat_saturatingSubU64] at reached some
      rw [UInt64.lt_iff_toNat_lt]
      have one : (1 : UInt64).toNat = 1 := rfl
      omega
    next => exact .inl rfl

theorem getMetadata_prunePersistedMempool (env : DatabaseEnv) (store : Store) {name : String}
    (other : ¬UnderTag ["mempool:tx"] name) :
    (prunePersistedMempool env store).getMetadata name = store.getMetadata name := by
  have apart : ∀ key, UnderTag ["mempool:tx"] key → key ≠ name := by
    rintro key under rfl
    exact other under
  refine foldl_invariant (P := fun s : Store => s.getMetadata name = store.getMetadata name) rfl ?_
  intro s txid _ same
  split
  next => exact same
  next =>
    have own : UnderTag ["mempool:tx"] (mempoolTxKey txid) :=
      ⟨"mempool:tx", by decide, by
        rw [mempoolTxKey, String.toList_append]
        exact List.IsPrefix.trans (by decide) (List.prefix_append _ _)⟩
    have deleted : (s.deleteMetadata (mempoolTxKey txid)).getMetadata name =
        store.getMetadata name := by
      rw [getMetadata_deleteMetadata, if_neg (apart _ own), same]
    unfold deletePersistedMempoolTx saveMempoolTxids
    dsimp only
    split
    next => exact deleted
    next => rw [getMetadata_setMetadata_of_ne _ _ (apart _ (by decide)), deleted]

/-- Below which cycle an apply that leaves the given head can have pruned. -/
def pruningBound (store : Store) (head : UInt64) : UInt64 :=
  if (loadPruneCfg store).enabled then head else 0

theorem loadPruneCfg_enabled_congr {s t : Store} (same : t.getMetadata "storage:history_prune_enabled" =
    s.getMetadata "storage:history_prune_enabled") :
    (loadPruneCfg t).enabled = (loadPruneCfg s).enabled := by
  rw [loadPruneCfg, same]
  rfl

theorem prunedBelow_maybePruneHistory (env : DatabaseEnv) (store : Store) :
    PrunedBelow (pruningBound store (lastAppliedCycle store)) store (maybePruneHistory env store) := by
  unfold maybePruneHistory pruningBound
  dsimp only
  by_cases enabled : (loadPruneCfg store).enabled = true
  · rw [if_neg (not_not.mpr enabled), if_pos enabled]
    split
    next => exact fun _ => .inl rfl
    next =>
      intro cycle
      have pruned := prunedBelow_pruneOnce env (store.setMetadata "storage:history_prune_last_run_ms"
        (encodeU64 env.nowMs)) (loadPruneCfg store).keepCycles (loadPruneCfg store).batchCycles cycle
      have head : lastAppliedCycle (store.setMetadata "storage:history_prune_last_run_ms"
          (encodeU64 env.nowMs)) = lastAppliedCycle store := by
        rw [lastAppliedCycle, getMetadata_setMetadata_of_ne _ _ (by decide)]
        rfl
      rw [head, history_bookkeep (by decide)] at pruned
      exact pruned
  · rw [if_pos enabled]
    exact fun _ => .inl rfl

/-- What an apply ends with prunes whole cycles below its head, if it is told to prune. -/
theorem prunedBelow_housekeeping (env : DatabaseEnv) (store : Store) :
    PrunedBelow (pruningBound store (lastAppliedCycle store)) store
      (maybePruneHistory env (prunePersistedMempool env store)) := by
  have kept := fun {name : String} => @getMetadata_prunePersistedMempool env store name
  have head : lastAppliedCycle (prunePersistedMempool env store) = lastAppliedCycle store := by
    rw [lastAppliedCycle, kept (by decide)]
    rfl
  have enabled := loadPruneCfg_enabled_congr (@kept "storage:history_prune_enabled" (by decide))
  have history : ∀ cycle, (prunePersistedMempool env store).history cycle = store.history cycle :=
    fun cycle => history_congr (fun field => kept (fun under =>
      (field.key_underTag cycle).not_of_apart (HistoryField.tags_apart (by decide)) under))
  intro cycle
  have pruned := prunedBelow_maybePruneHistory env (prunePersistedMempool env store) cycle
  rw [head, history, pruningBound, enabled] at pruned
  exact pruned

end Pruning

def historyWith (lsu : LedgerStateUpdate) (lsuHash : Hash) (store : Store) (cycle : UInt64) :
    HistoryField → Option Bytes :=
  if lsu.cycleNumber = cycle then Function.update (Function.update (store.history cycle) .lsu
    (some (serialize lsu))) .hash (some lsuHash.toList)
  else store.history cycle

/-- A store has the history of another one with an update recorded as applied, but for whole cycles
below it that are pruned. -/
def AppliedHistory (lsu : LedgerStateUpdate) (lsuHash : Hash) (s t : Store) : Prop :=
  ∀ cycle, t.history cycle = historyWith lsu lsuHash s cycle ∨
    cycle < pruningBound s lsu.cycleNumber ∧ t.history cycle = fun _ => none

section Applied

variable {env : DatabaseEnv} {lsu : LedgerStateUpdate} {lsuHash : Hash} {s t u : Store}

theorem historyWith_self (field : HistoryField) (lsuHash : Hash) (store : Store) :
    historyWith lsu lsuHash store lsu.cycleNumber field =
      match field with
      | .lsu => some (serialize lsu)
      | .hash => some lsuHash.toList
      | .cid => store.getMetadata (lsuCidKey lsu.cycleNumber)
      | .stateRoot => store.getMetadata (lsuStateRootKey lsu.cycleNumber) := by
  rw [historyWith, if_pos rfl]
  cases field <;> rfl

theorem historyWith_of_ne {cycle : UInt64} (other : lsu.cycleNumber ≠ cycle) (lsuHash : Hash)
    (store : Store) : historyWith lsu lsuHash store cycle = store.history cycle :=
  if_neg other

theorem history_persistAppliedHistory (store : Store) (cycle : UInt64) :
    (persistAppliedHistory lsu lsuHash store).history cycle = historyWith lsu lsuHash store cycle := by
  have slot : persistAppliedHistory lsu lsuHash store =
      (store.setMetadata (HistoryField.lsu.key lsu.cycleNumber) (serialize lsu)).setMetadata
        (HistoryField.hash.key lsu.cycleNumber) lsuHash.toList := rfl
  rw [slot, history_setMetadata, history_setMetadata, historyWith]
  split <;> rfl

/-- An apply writes the history of its update into what had it before, and prunes. -/
theorem appliedHistory_of_prunedBelow (before : ∀ cycle, u.history cycle = historyWith lsu lsuHash s cycle)
    (head : lastAppliedCycle u = lsu.cycleNumber)
    (enabled : u.getMetadata "storage:history_prune_enabled" =
      s.getMetadata "storage:history_prune_enabled")
    (pruned : PrunedBelow (pruningBound u (lastAppliedCycle u)) u t) :
    AppliedHistory lsu lsuHash s t := by
  intro cycle
  have same := pruned cycle
  rwa [head, before, pruningBound, loadPruneCfg_enabled_congr enabled] at same

theorem getMetadata_foldl_writeReceipt {env : ApplyEnv} {cycle : UInt64} {stateRoot : Hash}
    {outcomes : Std.ExtTreeMap Bytes ApplyOutcome} {name : String} (txids : List Hash) (store : Store)
    (other : ¬UnderTag ["tx:meta:"] name) :
    (txids.foldl (writeReceipt env cycle lsuHash stateRoot outcomes) store).getMetadata name =
      store.getMetadata name :=
  foldl_invariant (P := fun s : Store => s.getMetadata name = store.getMetadata name) rfl
    (fun s txid _ same => (getMetadata_writeReceipt other s txid).trans same)

theorem getMetadata_persistAppliedHistory_of_underTag {name : String} {tags : List String}
    (apart : NamesApart HistoryField.tags tags) (under : UnderTag tags name) (store : Store) :
    (persistAppliedHistory lsu lsuHash store).getMetadata name = store.getMetadata name :=
  getMetadata_persistAppliedHistory (ne_historyKey_of_underTag apart under .lsu)
    (ne_historyKey_of_underTag apart under .hash)

theorem appliedHistory_recordApplied (env : DatabaseEnv) (lsu : LedgerStateUpdate) (root : Hash)
    (outcomes : Std.ExtTreeMap Bytes ApplyOutcome) (store : Store) :
    AppliedHistory lsu (hashData env.tx.blake2b512 lsu) store
      (recordApplied env.applying lsu root outcomes store) := by
  let receipts := (loadCycleTxids env.toApplyEnv store lsu.cycleNumber).foldl (writeReceipt
    env.toApplyEnv lsu.cycleNumber (hashData env.tx.blake2b512 lsu) root outcomes) store
  let headed := persistAppliedHead lsu (hashData env.tx.blake2b512 lsu) root receipts
  have kept : ∀ name, ¬UnderTag ["tx:meta:", "consensus:last_applied_"] name →
      headed.getMetadata name = store.getMetadata name := by
    intro name other
    exact (getMetadata_persistAppliedHead (fun under => other (under.mono (by simp)))).trans
      (getMetadata_foldl_writeReceipt _ store (fun under => other (under.mono (by simp))))
  refine appliedHistory_of_prunedBelow (u := persistAppliedHistory lsu
    (hashData env.tx.blake2b512 lsu) headed) ?_ ?_ ?_ (prunedBelow_housekeeping env _)
  · intro cycle
    have same := history_congr (fun field : HistoryField => kept (field.key cycle)
      ((field.key_underTag cycle).not_of_apart (HistoryField.tags_apart (by decide))))
    rw [history_persistAppliedHistory, historyWith, historyWith, same]
  · have head := headAt_persistAppliedHead lsu (hashData env.tx.blake2b512 lsu) root receipts
    refine (head.congr (fun name under => ?_)).lastAppliedCycle_eq
    exact getMetadata_persistAppliedHistory_of_underTag (HistoryField.tags_apart (by decide)) under
      headed
  · exact (@getMetadata_persistAppliedHistory_of_underTag _ _ _ ["storage:"]
      (HistoryField.tags_apart (by decide)) (by decide) headed).trans (kept _ (by decide))

theorem appliedHistory_recordTrusted (db : Database) (newRoot : Hash)
    (outcomes : Std.ExtTreeMap Bytes ApplyOutcome) (store : Store) :
    AppliedHistory lsu (hashData env.tx.blake2b512 lsu) store
      (recordTrusted (env.trusting db lsu.cycleNumber) lsu newRoot outcomes store) := by
  let lsuHash := hashData env.tx.blake2b512 lsu
  let headed := ((store.setMetadata "consensus:last_applied_cycle"
    (encodeU64 lsu.cycleNumber)).setMetadata "consensus:last_applied_state_root"
    newRoot.toList).setMetadata "consensus:last_applied_lsu_hash" lsuHash.toList
  let history := persistAppliedHistory lsu lsuHash headed
  let recorded := (loadCycleTxids env.applying history lsu.cycleNumber).foldl
    (writeReceipt env.applying lsu.cycleNumber lsuHash newRoot outcomes) history
  have head : ∀ name, ¬UnderTag ["consensus:last_applied_"] name →
      headed.getMetadata name = store.getMetadata name := by
    intro name other
    have apart : ∀ key, UnderTag ["consensus:last_applied_"] key → key ≠ name := by
      rintro key under rfl
      exact other under
    exact (getMetadata_setMetadata_of_ne _ _ (apart _ (by decide))).trans
      ((getMetadata_setMetadata_of_ne _ _ (apart _ (by decide))).trans
        (getMetadata_setMetadata_of_ne _ _ (apart _ (by decide))))
  have receipts : ∀ name, ¬UnderTag ["tx:meta:"] name →
      recorded.getMetadata name = history.getMetadata name := fun name other =>
    getMetadata_foldl_writeReceipt _ history other
  refine appliedHistory_of_prunedBelow (u := recorded) ?_ ?_ ?_ (prunedBelow_housekeeping env recorded)
  · intro cycle
    have after := history_congr (fun field : HistoryField => receipts (field.key cycle)
      ((field.key_underTag cycle).not_of_apart (HistoryField.tags_apart (by decide))))
    have before := history_congr (fun field : HistoryField => head (field.key cycle)
      ((field.key_underTag cycle).not_of_apart (HistoryField.tags_apart (by decide))))
    rw [after, history_persistAppliedHistory, historyWith, historyWith, before]
  · have written : recorded.getMetadata "consensus:last_applied_cycle" =
        some (encodeU64 lsu.cycleNumber) := by
      rw [receipts _ (by decide), @getMetadata_persistAppliedHistory_of_underTag _ _ _
        ["consensus:last_applied_"] (HistoryField.tags_apart (by decide)) (by decide) headed,
        getMetadata_setMetadata_of_ne _ _ (by decide), getMetadata_setMetadata_of_ne _ _ (by decide),
        getMetadata_setMetadata_self]
    rw [lastAppliedCycle, written, Option.bind_some, decodeU64_encodeU64, Option.getD_some]
  · exact (receipts _ (by decide)).trans
      ((@getMetadata_persistAppliedHistory_of_underTag _ _ _ ["storage:"]
        (HistoryField.tags_apart (by decide)) (by decide) headed).trans (head _ (by decide)))

theorem AppliedHistory.congr_left {s' : Store} (applied : AppliedHistory lsu lsuHash s t)
    (same : s'.metadata = s.metadata) : AppliedHistory lsu lsuHash s' t := by
  have records : ∀ name, s'.getMetadata name = s.getMetadata name :=
    fun name => congrArg (·[name]?) same
  intro cycle
  have history : s'.history cycle = s.history cycle := history_congr (fun field => records _)
  rw [historyWith, history, pruningBound, loadPruneCfg_enabled_congr (records _)]
  exact applied cycle

theorem appliedHistory_applyLsuToStorageLocked (keeps : KeepsMetadata env.runtime) {store : Store}
    (above : lastAppliedCycle store < lsu.cycleNumber) :
    ∃ root, (applyLsuToStorageLocked env.applying store lsu).2 = .ok root ∧
      AppliedHistory lsu (hashData env.tx.blake2b512 lsu) store
        (applyLsuToStorageLocked env.applying store lsu).1 := by
  obtain ⟨-, -, -, root, -, built, -⟩ :=
    computeRoots_spec env.sha256 (applyLedger env.toApplyEnv store lsu).1.accounts.toList
  let ledger := applyLedger env.toApplyEnv store lsu
  let committed : Store := { ledger.1 with currentStateRoot := some root }
  have applied : applyLsuToStorageLocked env.applying store lsu =
      (recordApplied env.applying lsu root ledger.2 committed, .ok root) :=
    applyLsuToStorageLocked_eq above built
  rw [applied]
  exact ⟨root, rfl, (appliedHistory_recordApplied env lsu root ledger.2 committed).congr_left
    (metadata_applyLedger keeps).symm⟩

theorem history_checkpointAfterApply (root : Hash) (db : Database) (cycle : UInt64) :
    (checkpointAfterApply env lsu root db).toStore.history cycle = db.toStore.history cycle :=
  history_congr (fun field => (@checkpointed_checkpointAfterApply env lsu root db).records _
    ((field.key_underTag cycle).not_of_apart (HistoryField.tags_apart (by decide))))

theorem applyLsuToDatabase_eq_checkpoint (keeps : KeepsMetadata env.runtime) {db : Database}
    (above : lastAppliedCycle db.toStore < lsu.cycleNumber) :
    ∃ root, ∃ recorded : Store, AppliedHistory lsu (hashData env.tx.blake2b512 lsu) db.toStore recorded ∧
      applyLsuToDatabase env lsu db =
        .ok root (checkpointAfterApply env lsu root { db with toStore := recorded }) := by
  obtain ⟨root, applied, history⟩ := appliedHistory_applyLsuToStorageLocked keeps above
  refine ⟨root, _, history, ?_⟩
  simp only [applyLsuToDatabase, applied, if_neg (UInt64.not_le.mpr above)]

theorem appliedHistory_applyLsuToDatabase (keeps : KeepsMetadata env.runtime) {db : Database}
    (above : lastAppliedCycle db.toStore < lsu.cycleNumber) :
    AppliedHistory lsu (hashData env.tx.blake2b512 lsu) db.toStore
      (endState (applyLsuToDatabase env lsu db)).toStore := by
  obtain ⟨root, recorded, history, run⟩ := applyLsuToDatabase_eq_checkpoint keeps above
  intro cycle
  rw [run, endState, history_checkpointAfterApply]
  exact history cycle

theorem history_rootCheckedApply (keeps : KeepsMetadata env.runtime) (expected : Hash) (db : Database) :
    let after := endState (applyLsuWithRootCheckLocked env lsu expected db)
    after.metadata = db.metadata ∨ lastAppliedCycle db.toStore < lsu.cycleNumber ∧
      AppliedHistory lsu (hashData env.tx.blake2b512 lsu) db.toStore after.toStore := by
  have checked := rootChecked env lsu expected db
  generalize run : applyLsuWithRootCheckLocked env lsu expected db = result at checked
  cases checked with
  | taken => exact .inl rfl
  | skipped => exact .inl rfl
  | skippedOther => exact .inl (commit_metadata env.sha256 _)
  | reverted _ reverted => exact .inl (congrArg Columns.metadata reverted.columns)
  | applied above =>
    have history := @appliedHistory_applyLsuToDatabase env lsu keeps
      (db.withSnapshot (verifySnapshotName lsu.cycleNumber env.nowMs)) above
    obtain ⟨root, after, inner, -⟩ := @applyLsuToDatabase_apply env lsu (db.withSnapshot _) above
    rw [applyLsuWithRootCheckLocked_eq (free_of_rootCheck run) inner] at run
    rw [inner] at history
    split at run <;> cases run
    exact .inr ⟨above, history⟩

/-- The proof-driven apply leaves the metadata alone, or goes through and is recorded like the other
one. -/
theorem history_trustedApply (keeps : KeepsMetadata env.runtime) (db : Database)
    (expectedPrev newRoot : Hash) :
    let outcome := applyLsuToStorageWithoutRootCheck (env.trusting db lsu.cycleNumber) db.toStore lsu
      expectedPrev newRoot
    outcome.2 ≠ .ok true ∧ outcome.1.metadata = db.metadata ∨
      outcome.2 = .ok true ∧ lastAppliedCycle db.toStore < lsu.cycleNumber ∧
        AppliedHistory lsu (hashData env.tx.blake2b512 lsu) db.toStore outcome.1 := by
  have ledger : (applyTrustedLedger (env.trusting db lsu.cycleNumber) db.toStore lsu).1.metadata =
      db.metadata := metadata_applyTrustedLedger keeps
  have committed := (commit_metadata env.sha256
    (applyTrustedLedger (env.trusting db lsu.cycleNumber) db.toStore lsu).1).trans ledger
  unfold applyLsuToStorageWithoutRootCheck
  dsimp only
  split
  next => exact .inl ⟨by simp, rfl⟩
  next above =>
    split
    next => exact .inl ⟨by simp, rfl⟩
    next =>
      split
      next => exact .inl ⟨by simp, rfl⟩
      next =>
        split
        next => exact .inl ⟨by simp, committed⟩
        next =>
          split
          next => exact .inl ⟨by simp, commit_metadata env.sha256 _⟩
          next =>
            exact .inr ⟨rfl, UInt64.not_le.mp above,
              (appliedHistory_recordTrusted db newRoot _ _).congr_left committed.symm⟩

end Applied

section Persist

variable {F G : Type} [Field F] [AddCommGroup G] [Module F G] [DecidableEq G] {env : NodeEnv F G}
  {dfs : Option ContentStore} {certifiedOnly : Bool} {a : UInt64} {store : Store} {lsuBytes : Bytes}
  {lsuHash : Hash} {cid : String} {stateRoot : Hash} {finalityCidHint : String}

/-- The recipe of a cycle is settled: its hash and its root are recorded. -/
def RecipeSettled (store : Store) (cycle : UInt64) (lsuHash : Hash) : Prop :=
  store.getMetadata (lsuHashKey cycle) = some lsuHash.toList ∧
    (store.getMetadata (lsuStateRootKey cycle)).isSome

instance instDecidableRecipeSettled (store : Store) (cycle : UInt64) (lsuHash : Hash) :
    Decidable (RecipeSettled store cycle lsuHash) :=
  inferInstanceAs (Decidable (_ ∧ _))

/-- An update that takes the slot brings its root and content id, unless its recipe is settled. -/
theorem history_persistLsuHistory (cycle : UInt64) :
    (persistLsuHistory env dfs certifiedOnly a store lsuBytes lsuHash cid stateRoot
        finalityCidHint).history cycle =
      if a ≠ cycle ∨ losesCanonicalSlot env dfs certifiedOnly a store lsuBytes lsuHash
          finalityCidHint = true then store.history cycle
      else fun
        | .lsu => some lsuBytes
        | .hash => some lsuHash.toList
        | .cid => if RecipeSettled store a lsuHash ∨ cid = "" then store.history cycle .cid
          else some (utf8 cid)
        | .stateRoot => if RecipeSettled store a lsuHash then store.history cycle .stateRoot
          else some stateRoot.toList := by
  have index : ∀ field : HistoryField, cycleByLsuHashKey lsuHash ≠ field.key cycle :=
    ne_historyKey (HistoryField.tags_apart (by decide)) _
  let slot := (store.setMetadata (HistoryField.lsu.key a) lsuBytes).setMetadata
    (HistoryField.hash.key a) lsuHash.toList
  have slotHistory : slot.history cycle = if a = cycle then Function.update (Function.update
      (store.history cycle) .lsu (some lsuBytes)) .hash (some lsuHash.toList)
      else store.history cycle := by
    rw [history_setMetadata, history_setMetadata]
    split <;> rfl
  have unfolded : (persistLsuHistory env dfs certifiedOnly a store lsuBytes lsuHash cid stateRoot
      finalityCidHint).history cycle =
      (if losesCanonicalSlot env dfs certifiedOnly a store lsuBytes lsuHash finalityCidHint then store
        else if RecipeSettled store a lsuHash then slot
        else (if cid ≠ "" then slot.setMetadata (HistoryField.cid.key a) (utf8 cid)
          else slot).setMetadata (HistoryField.stateRoot.key a) stateRoot.toList).history cycle :=
    history_setMetadata_of_ne index
  rw [unfolded]
  by_cases loses : losesCanonicalSlot env dfs certifiedOnly a store lsuBytes lsuHash
      finalityCidHint = true
  · rw [if_pos loses, if_pos (.inr loses)]
  · rw [if_neg loses]
    by_cases here : a = cycle
    · rw [if_neg (not_or.mpr ⟨not_not.mpr here, loses⟩)]
      rw [if_pos here] at slotHistory
      funext field
      by_cases settled : RecipeSettled store a lsuHash
      · rw [if_pos settled, slotHistory]
        cases field <;> simp [settled, Function.update]
      · rw [if_neg settled, history_setMetadata, if_pos here]
        by_cases empty : cid = ""
        · rw [if_neg (not_not.mpr empty), slotHistory]
          cases field <;> simp [settled, empty, Function.update]
        · rw [if_pos empty, history_setMetadata, if_pos here, slotHistory]
          cases field <;> simp [settled, empty, Function.update]
    · have elsewhere : a ≠ cycle ∨ losesCanonicalSlot env dfs certifiedOnly a store lsuBytes lsuHash
          finalityCidHint = true := .inl here
      rw [if_pos elsewhere]
      rw [if_neg here] at slotHistory
      split
      next => exact slotHistory
      next =>
        rw [history_setMetadata, if_neg here]
        split
        next => rw [history_setMetadata, if_neg here, slotHistory]
        next => exact slotHistory

end Persist

end CatalystNode
