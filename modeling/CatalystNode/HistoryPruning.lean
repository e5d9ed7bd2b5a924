import CatalystNode.LsuHistory
import CatalystNode.TxBatchIngress

namespace CatalystNode

open ByteVector HexCodec MachineInt CanonicalList

/-- What keeping a database needs besides applying: the encoding of transaction ids, and how often a
checkpoint is due. -/
structure DatabaseEnv extends ApplyEnv where
  encodeTxids : List Hash → Option Bytes
  checkpointEveryCycles : UInt64

def Store.deleteMetadata (store : Store) (key : String) : Store :=
  { store with metadata := store.metadata.erase key }

def cyclesBetween (first stop : UInt64) : List UInt64 :=
  (List.range' first.toNat (stop.toNat - first.toNat)).map UInt64.ofNat

def cyclesThrough (first last : UInt64) : List UInt64 :=
  (List.range' first.toNat (last.toNat + 1 - first.toNat)).map UInt64.ofNat

def mempoolTxKey (txid : Hash) : String := "mempool:tx:" ++ encodeString txid.toList

def prunedKeys (cycle : UInt64) : List String :=
  [lsuKey cycle, lsuHashKey cycle, lsuCidKey cycle, lsuStateRootKey cycle, txBatchCommitKey cycle]

structure PruneCfg where
  enabled : Bool
  keepCycles : UInt64
  intervalSecs : UInt64
  batchCycles : UInt64

def decodeBool (bytes : Bytes) : Option Bool :=
  match bytes with
  | [b] => some (b ≠ 0)
  | _ => none

def loadPruneCfg (store : Store) : PruneCfg where
  enabled := ((store.getMetadata "storage:history_prune_enabled").bind decodeBool).getD false
  keepCycles := ((store.getMetadata "storage:history_keep_cycles").bind decodeU64).getD 0
  intervalSecs :=
    max (((store.getMetadata "storage:history_prune_interval_seconds").bind decodeU64).getD 300) 1
  batchCycles :=
    max (((store.getMetadata "storage:history_prune_batch_cycles").bind decodeU64).getD 1000) 1

section Model

variable (env : DatabaseEnv)

def loadMempoolTxids (store : Store) : List Hash :=
  ((store.getMetadata "mempool:txids").bind env.decodeTxids).getD []

def saveMempoolTxids (store : Store) (ids : List Hash) : Store :=
  match env.encodeTxids (sortDedup ids) with
  | none => store
  | some bytes => store.setMetadata "mempool:txids" bytes

def deletePersistedMempoolTx (store : Store) (txid : Hash) : Store :=
  let store := store.deleteMetadata (mempoolTxKey txid)
  saveMempoolTxids env store ((loadMempoolTxids env store).filter (· ≠ txid))

/-- Whether a persisted transaction is still waiting: it decodes, is valid and signed, and its nonce
is not used up. -/
def staysInMempool (store : Store) (txid : Hash) : Bool :=
  match (store.getMetadata (mempoolTxKey txid)).bind env.decodeTx with
  | none => false
  | some tx =>
    if tx.validateBasic ≠ .ok () ∨ ¬verifyProtocolTxSignatureWithDomain env.tx store tx then false
    else match txSenderPubkey tx with
      | none => false
      | some sender => getNonceU64 store sender < tx.core.nonce

def prunePersistedMempool (store : Store) : Store :=
  (loadMempoolTxids env store).foldl (fun store txid =>
    if staysInMempool env store txid then store else deletePersistedMempoolTx env store txid) store

def pruneTx (store : Store) (txid : Hash) : Store :=
  (store.deleteMetadata (txRawKey txid)).deleteMetadata (txMetaKey txid)

def pruneCycle (store : Store) (cycle : UInt64) : Store :=
  let txids := ((store.getMetadata (cycleTxidsKey cycle)).bind env.decodeTxids).getD []
  let store := (txids.foldl pruneTx store).deleteMetadata (cycleTxidsKey cycle)
  let lsuHash := (store.getMetadata (lsuHashKey cycle)).bind (toArray? 32)
  let store := (prunedKeys cycle).foldl Store.deleteMetadata store
  match lsuHash with
  | none => store
  | some h => store.deleteMetadata (cycleByLsuHashKey h)

def prunedUpToCycle (store : Store) : Option UInt64 :=
  (store.getMetadata "storage:history_pruned_up_to_cycle").bind decodeU64

def pruneOnce (store : Store) (keepCycles batchCycles : UInt64) : Store :=
  let pruneUpTo := saturatingSubU64 (saturatingSubU64 (lastAppliedCycle store) keepCycles) 1
  let start := ((prunedUpToCycle store).map (saturatingAddU64 · 1)).getD 0
  if keepCycles = 0 ∨ pruneUpTo = 0 ∨ pruneUpTo < start then store
  else
    let last := min pruneUpTo (saturatingAddU64 start (saturatingSubU64 batchCycles 1))
    ((cyclesThrough start last).foldl (pruneCycle env) store).setMetadata
      "storage:history_pruned_up_to_cycle" (encodeU64 last)

def maybePruneHistory (store : Store) : Store :=
  let cfg := loadPruneCfg store
  let lastRun := ((store.getMetadata "storage:history_prune_last_run_ms").bind decodeU64).getD 0
  if ¬cfg.enabled then store
  else if saturatingSubU64 env.nowMs lastRun < saturatingMulU64 cfg.intervalSecs 1000 then store
  else pruneOnce env (store.setMetadata "storage:history_prune_last_run_ms" (encodeU64 env.nowMs))
    cfg.keepCycles cfg.batchCycles

def DatabaseEnv.applying : ApplyEnv :=
  { env.toApplyEnv with
    housekeeping := fun store _ _ _ =>
      (maybePruneHistory env (prunePersistedMempool env store)).metadata }

end Model

def UnderTag (tags : List String) (name : String) : Prop :=
  ∃ tag ∈ tags, tag.toList <+: name.toList

instance instDecidableUnderTag (tags : List String) (name : String) :
    Decidable (UnderTag tags name) :=
  -- on the bytes, since the characters of a text have to be decoded first
  decidable_of_iff (∃ tag ∈ tags, utf8 tag <+: utf8 name)
    (by simp only [UnderTag, toList_prefix_iff])

theorem underTag_append {tags : List String} {tag : String} (listed : tag ∈ tags) (rest : String) :
    UnderTag tags (tag ++ rest) :=
  ⟨tag, listed, by rw [String.toList_append]; exact List.prefix_append _ _⟩

theorem UnderTag.mono {tags tags' : List String} (sub : tags ⊆ tags') {name : String}
    (under : UnderTag tags name) : UnderTag tags' name := by
  obtain ⟨tag, listed, starts⟩ := under
  exact ⟨tag, sub listed, starts⟩

/-- No name lies under both of two lists of tags. -/
def NamesApart (tags tags' : List String) : Prop :=
  ∀ tag ∈ tags, ∀ tag' ∈ tags', ¬tag.toList <+: tag'.toList ∧ ¬tag'.toList <+: tag.toList

instance instDecidableNamesApart (tags tags' : List String) : Decidable (NamesApart tags tags') :=
  decidable_of_iff
    (∀ tag ∈ tags, ∀ tag' ∈ tags', ¬utf8 tag <+: utf8 tag' ∧ ¬utf8 tag' <+: utf8 tag)
    (by simp only [NamesApart, toList_prefix_iff])

theorem UnderTag.not_of_apart {tags tags' : List String} (apart : NamesApart tags tags')
    {name : String} (under : UnderTag tags name) : ¬UnderTag tags' name := by
  rintro ⟨tag', listed', starts'⟩
  obtain ⟨tag, listed, starts⟩ := under
  rcases List.prefix_or_prefix_of_prefix starts starts' with short | long
  · exact (apart tag listed tag' listed').1 short
  · exact (apart tag listed tag' listed').2 long

theorem not_underTag_append {tags : List String} {tag : String} (apart : NamesApart [tag] tags)
    (rest : String) : ¬UnderTag tags (tag ++ rest) :=
  (underTag_append (List.mem_singleton.mpr rfl) rest).not_of_apart apart

theorem taggedCycle_inj {tag : String} {a b : UInt64}
    (same : tag ++ toString a = tag ++ toString b) : a = b := by
  have digits : toString a = toString b := (String.append_right_inj tag).mp same
  exact UInt64.toNat_inj.mp (Nat.repr_inj.mp digits)

theorem tagged_inj {tags : List String}
    (apart : ∀ tag ∈ tags, ∀ tag' ∈ tags, tag = tag' ∨ NamesApart [tag] [tag'])
    {tag tag' rest rest' : String} (listed : tag ∈ tags) (listed' : tag' ∈ tags)
    (same : tag ++ rest = tag' ++ rest') : tag = tag' ∧ rest = rest' := by
  rcases apart tag listed tag' listed' with rfl | other
  · exact ⟨rfl, (String.append_right_inj tag).mp same⟩
  · have under : UnderTag [tag'] (tag ++ rest) :=
      same ▸ underTag_append (List.mem_singleton.mpr rfl) _
    exact absurd under (not_underTag_append other rest)

def bookkeepingTags : List String := ["mempool:tx", "storage:history_prune"]

def prunedTags : List String :=
  ["tx:raw:", "tx:meta:", "tx:cycle:", "consensus:lsu:", "consensus:lsu_hash:",
    "consensus:lsu_cid:", "consensus:lsu_state_root:", "consensus:tx_batch_commit:",
    "consensus:cycle_by_lsu_hash:"]

/-- One store is another after some pruning: outside its own books a record is kept, or it is one of
those that pruning deletes and gone. -/
structure Store.PrunedTo (s t : Store) : Prop where
  accounts : t.accounts = s.accounts
  root : t.currentStateRoot = s.currentStateRoot
  records : ∀ name, ¬UnderTag bookkeepingTags name →
    t.getMetadata name = s.getMetadata name ∨ UnderTag prunedTags name ∧ t.getMetadata name = none

theorem Store.getMetadata_deleteMetadata (store : Store) (key name : String) :
    (store.deleteMetadata key).getMetadata name =
      if key = name then none else store.getMetadata name := by
  rw [Store.deleteMetadata, Store.getMetadata, Store.getMetadata, Std.ExtTreeMap.getElem?_erase]
  simp only [Std.LawfulEqCmp.compare_eq_iff_eq]

namespace Store.PrunedTo

variable {s t u : Store}

theorem refl (s : Store) : PrunedTo s s := ⟨rfl, rfl, fun _ _ => .inl rfl⟩

theorem trans (first : PrunedTo s t) (second : PrunedTo t u) : PrunedTo s u := by
  refine ⟨second.accounts.trans first.accounts, second.root.trans first.root, fun name own => ?_⟩
  rcases second.records name own with kept | gone
  · rw [kept]
    exact first.records name own
  · exact .inr gone

theorem foldl {α : Type} {f : Store → α → Store} {l : List α}
    (step : ∀ s, ∀ a ∈ l, PrunedTo s (f s a)) (s : Store) : PrunedTo s (l.foldl f s) := by
  induction l generalizing s with
  | nil => exact refl s
  | cons a l ih =>
    exact (step s a List.mem_cons_self).trans
      (ih (fun s b hb => step s b (List.mem_cons_of_mem a hb)) (f s a))

theorem delete (s : Store) {key : String} (deletable : UnderTag prunedTags key) :
    PrunedTo s (s.deleteMetadata key) := by
  refine ⟨rfl, rfl, fun name _ => ?_⟩
  rw [getMetadata_deleteMetadata]
  split
  next same => exact .inr ⟨same ▸ deletable, rfl⟩
  next => exact .inl rfl

theorem bookkeep (s : Store) {key : String} (own : UnderTag bookkeepingTags key) (value : Bytes) :
    PrunedTo s (s.setMetadata key value) := by
  refine ⟨rfl, rfl, fun name other => .inl ?_⟩
  apply getMetadata_setMetadata_of_ne
  rintro rfl
  exact other own

theorem bookkeep_delete (s : Store) {key : String} (own : UnderTag bookkeepingTags key) :
    PrunedTo s (s.deleteMetadata key) := by
  refine ⟨rfl, rfl, fun name other => .inl ?_⟩
  rw [getMetadata_deleteMetadata, if_neg]
  rintro rfl
  exact other own

end Store.PrunedTo

section Pruning

open Store

variable (env : DatabaseEnv) (store : Store)

theorem prunedTo_saveMempoolTxids (ids : List Hash) :
    PrunedTo store (saveMempoolTxids env store ids) := by
  unfold saveMempoolTxids
  split
  next => exact .refl store
  next => exact .bookkeep store (by decide) _

theorem prunedTo_prunePersistedMempool : PrunedTo store (prunePersistedMempool env store) := by
  refine .foldl (fun s txid _ => ?_) store
  split
  next => exact .refl s
  next =>
    have key : UnderTag bookkeepingTags (mempoolTxKey txid) :=
      ⟨"mempool:tx", by decide, by
        rw [mempoolTxKey, String.toList_append]
        exact List.IsPrefix.trans (by decide) (List.prefix_append _ _)⟩
    exact (PrunedTo.bookkeep_delete s key).trans (prunedTo_saveMempoolTxids env _ _)

theorem prunedTo_pruneTx (txid : Hash) : PrunedTo store (pruneTx store txid) :=
  (PrunedTo.delete store (underTag_append (by decide) _)).trans
    (.delete _ (underTag_append (by decide) _))

theorem prunedTo_pruneCycle (cycle : UInt64) : PrunedTo store (pruneCycle env store cycle) := by
  have txids : UnderTag prunedTags (cycleTxidsKey cycle) := by
    have shape : cycleTxidsKey cycle = "tx:cycle:" ++ (toString cycle ++ ":txids") :=
      String.append_assoc
    rw [shape]
    exact underTag_append (by decide) _
  have keys : ∀ key ∈ prunedKeys cycle, UnderTag prunedTags key := by
    simp only [prunedKeys, List.forall_mem_cons]
    exact ⟨underTag_append (by decide) _, underTag_append (by decide) _,
      underTag_append (by decide) _, underTag_append (by decide) _, underTag_append (by decide) _,
      by simp⟩
  have transactions : ∀ ids : List Hash, PrunedTo store (ids.foldl pruneTx store) := fun ids =>
    .foldl (fun s txid _ => prunedTo_pruneTx s txid) store
  have history := ((transactions (((store.getMetadata (cycleTxidsKey cycle)).bind
    env.decodeTxids).getD [])).trans (.delete _ txids)).trans
    (.foldl (fun s key listed => .delete s (keys key listed)) _)
  unfold pruneCycle
  dsimp only
  split
  next => exact history
  next => exact history.trans (.delete _ (underTag_append (by decide) _))

theorem prunedTo_pruneOnce (keepCycles batchCycles : UInt64) :
    PrunedTo store (pruneOnce env store keepCycles batchCycles) := by
  unfold pruneOnce
  dsimp only
  split
  next => exact .refl store
  next =>
    exact (PrunedTo.foldl (fun s cycle _ => prunedTo_pruneCycle env s cycle) store).trans
      (.bookkeep _ (by decide) _)

theorem prunedTo_maybePruneHistory : PrunedTo store (maybePruneHistory env store) := by
  unfold maybePruneHistory
  dsimp only
  split
  next => exact .refl store
  next =>
    split
    next => exact .refl store
    next =>
      exact (PrunedTo.bookkeep store (by decide) _).trans (prunedTo_pruneOnce env _ _ _)

theorem prunedTo_housekeeping (cycle : UInt64) (stateRoot lsuHash : Hash) :
    PrunedTo store
      { store with metadata := env.applying.housekeeping store cycle stateRoot lsuHash } := by
  have pruned := (prunedTo_prunePersistedMempool env store).trans
    (prunedTo_maybePruneHistory env (prunePersistedMempool env store))
  exact ⟨rfl, rfl, pruned.records⟩

end Pruning

end CatalystNode
