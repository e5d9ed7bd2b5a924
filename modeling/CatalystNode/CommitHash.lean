import CatalystNode.StorageTransactions

namespace CatalystNode

open ByteVector HexCodec

/-- The bytes of an operation in the hash of its transaction: no lengths, no column family. -/
def BatchOperation.transcript : BatchOperation → Bytes
  | .putAccount address account => accountKey address ++ account.encoding
  | .deleteAccount address => accountKey address ++ utf8 "DELETE"
  | .putTransaction hash data => transactionKey hash ++ data
  | .deleteTransaction hash => transactionKey hash ++ utf8 "DELETE"
  | .putMetadata key value => metadataKey key ++ value
  | .deleteMetadata key => metadataKey key ++ utf8 "DELETE"
  | .putConsensus key value => key ++ value
  | .deleteConsensus key => key ++ utf8 "DELETE"
  | .putContract address code storage =>
    (contractEntries address code storage).flatMap (fun entry => entry.1 ++ entry.2)
  | .deleteContract address => codeKey address ++ utf8 "DELETE"
  | .putDfsRef hash reference => transactionKey hash ++ reference
  | .deleteDfsRef hash => transactionKey hash ++ utf8 "DELETE"

def BatchOperation.Storable : BatchOperation → Prop
  | .putAccount _ account => ∃ value, account.serialize = .ok value
  | _ => True

/-- The last word of a list of operations on a key of a column family. -/
def lastMeaning (cf : String) (key : Bytes) (ops : List BatchOperation) : Option (Option Bytes) :=
  ops.foldl (fun said op => (op.means cf key).or said) none

/-- Two lists that can be committed and have the same bytes have the same last word on every key. -/
def TellApart (first second : List BatchOperation) : Prop :=
  first ≠ [] → second ≠ [] → (∀ op ∈ first ++ second, op.Storable) →
    first.flatMap BatchOperation.transcript = second.flatMap BatchOperation.transcript →
    ∀ cf key, lastMeaning cf key first = lastMeaning cf key second

def transactionFamilies : List String :=
  ["accounts", "transactions", "metadata", "consensus", "contracts", "dfs_refs"]

section Preparing

variable {engine : RocksEngine}

theorem transcript_of_prepare {op : BatchOperation} {part : Prepared}
    (done : prepare engine op = .ok part) : part.hashed = op.transcript ∧ op.Storable := by
  cases op with
  | putAccount address account =>
    rw [prepare] at done
    cases serialized : account.serialize with
    | error e =>
      rw [serialized] at done
      cases done
    | ok value =>
      rw [serialized] at done
      rw [prepare_of_cfHandle done, BatchOperation.transcript, ← encoding_of_serialize serialized]
      exact ⟨rfl, value, serialized⟩
  | putContract address code storage => exact ⟨by rw [prepare_of_cfHandle done]; rfl, trivial⟩
  | putTransaction | putMetadata | putConsensus | putDfsRef | deleteAccount | deleteTransaction
  | deleteMetadata | deleteConsensus | deleteContract | deleteDfsRef =>
    exact ⟨by rw [prepare_of_cfHandle done]; rfl, trivial⟩

theorem exists_prepare (full : ∀ cf ∈ transactionFamilies, cf ∈ engine.families) {op : BatchOperation}
    (storable : op.Storable) : ∃ part, prepare engine op = .ok part := by
  have handle : ∀ cf ∈ transactionFamilies, engine.cfHandle cf = .ok () :=
    fun cf listed => if_pos (full cf listed)
  have put : ∀ cf ∈ transactionFamilies, ∀ key value, ∃ part, preparePut engine cf key value = .ok part :=
    fun cf listed key value => ⟨_, by rw [preparePut, handle cf listed]; rfl⟩
  have delete : ∀ cf ∈ transactionFamilies, ∀ key, ∃ part, prepareDelete engine cf key = .ok part :=
    fun cf listed key => ⟨_, by rw [prepareDelete, handle cf listed]; rfl⟩
  cases op with
  | putAccount address account =>
    obtain ⟨value, serialized⟩ := storable
    rw [prepare, serialized]
    exact put "accounts" (by decide) _ _
  | putContract address code storage =>
    exact ⟨_, by rw [prepare, handle "contracts" (by decide)]; rfl⟩
  | putTransaction | putMetadata | putConsensus | putDfsRef =>
    exact put _ (by simp [transactionFamilies]) _ _
  | deleteAccount | deleteTransaction | deleteMetadata | deleteConsensus | deleteContract | deleteDfsRef =>
    exact delete _ (by simp [transactionFamilies]) _

theorem transcript_of_mapM {ops : List BatchOperation} {parts : List Prepared}
    (done : ops.mapM (prepare engine) = .ok parts) :
    parts.flatMap Prepared.hashed = ops.flatMap BatchOperation.transcript ∧
      ∀ op ∈ ops, op.Storable := by
  induction ops generalizing parts with
  | nil =>
    cases done
    exact ⟨rfl, fun op listed => by cases listed⟩
  | cons op ops ih =>
    obtain ⟨part, later, first, rest, rfl⟩ := mapM_prepare_cons done
    obtain ⟨same, storable⟩ := ih rest
    obtain ⟨here, put⟩ := transcript_of_prepare first
    exact ⟨by rw [List.flatMap_cons, List.flatMap_cons, here, same],
      List.forall_mem_cons.mpr ⟨put, storable⟩⟩

theorem exists_mapM (full : ∀ cf ∈ transactionFamilies, cf ∈ engine.families)
    {ops : List BatchOperation} (storable : ∀ op ∈ ops, op.Storable) :
    ∃ parts, ops.mapM (prepare engine) = .ok parts := by
  induction ops with
  | nil => exact ⟨[], rfl⟩
  | cons op ops ih =>
    obtain ⟨put, later⟩ := List.forall_mem_cons.mp storable
    obtain ⟨part, first⟩ := exists_prepare full put
    obtain ⟨parts, rest⟩ := ih later
    exact ⟨part :: parts, by rw [List.mapM_cons, first, rest]; rfl⟩

end Preparing

section Committing

variable {sha256 : Bytes → Hash} {t t' : TransactionBatch}

theorem hash_of_commit {write : BatchWrite} {hash : Hash}
    (done : TransactionBatch.commit sha256 write t = .ok hash t') :
    t.operations ≠ [] ∧ (∀ op ∈ t.operations, op.Storable) ∧
      hash = sha256 (utf8 t.id ++ t.operations.flatMap BatchOperation.transcript) := by
  obtain ⟨parts, queued, prepared, -, hashed⟩ := commit_eq_ok done
  obtain ⟨same, storable⟩ := transcript_of_mapM prepared
  exact ⟨queued, storable, by rw [hashed, same]⟩

theorem exists_commit (sha256 : Bytes → Hash)
    (full : ∀ cf ∈ transactionFamilies, cf ∈ t.engine.families) (fresh : t.committed = false)
    (queued : t.operations ≠ []) (storable : ∀ op ∈ t.operations, op.Storable) :
    ∃ t', TransactionBatch.commit sha256 .written t =
      .ok (sha256 (utf8 t.id ++ t.operations.flatMap BatchOperation.transcript)) t' := by
  obtain ⟨parts, prepared⟩ := exists_mapM full storable
  have ready : TransactionBatch.prepareAll t = .ok parts t := by
    simp only [TransactionBatch.prepareAll, TransactionBatch.checkNotCommitted, bind, EStateM.bind, get,
      getThe, MonadStateOf.get, EStateM.get, fresh, Bool.false_eq_true, if_false, pure, EStateM.pure,
      List.isEmpty_eq_false_iff.mpr queued, prepared]
    rfl
  rw [← (transcript_of_mapM prepared).1]
  refine ⟨{ t.withEngine (t.engine.writeBatch (parts.flatMap Prepared.batch)) with committed := true }, ?_⟩
  change EStateM.bind TransactionBatch.prepareAll _ t = _
  rw [EStateM.bind, ready]
  rfl

/-- The last word on a key is what it holds after the operations, whatever it held before. -/
theorem foldl_appliedTo_eq (cf : String) (key : Bytes) (table : Table) (ops : List BatchOperation) :
    ops.foldl (BatchOperation.appliedTo cf) table key = (lastMeaning cf key ops).getD (table key) := by
  suffices general : ∀ (said : Option (Option Bytes)) (before : Table),
      before key = said.getD (table key) → ops.foldl (BatchOperation.appliedTo cf) before key =
        (ops.foldl (fun said op => (op.means cf key).or said) said).getD (table key) from
    general none table rfl
  induction ops with
  | nil => exact fun said before held => held
  | cons op ops ih =>
    intro said before held
    refine ih ((op.means cf key).or said) _ ?_
    rw [BatchOperation.appliedTo, held, Option.getD_or]

theorem table_injective : Function.Injective Family.table :=
  fun _ _ same => Std.ExtTreeMap.ext_getElem? (fun {key} => congrFun same key)

theorem families_eq_of_commit {u u' : TransactionBatch} {write write' : BatchWrite} {hash hash' : Hash}
    (done : TransactionBatch.commit sha256 write t = .ok hash t')
    (done' : TransactionBatch.commit sha256 write' u = .ok hash' u') (same : u.engine = t.engine)
    {cf : String}
    (agree : ∀ key, lastMeaning cf key t.operations = lastMeaning cf key u.operations) :
    t'.engine.families[cf]? = u'.engine.families[cf]? := by
  refine Option.map_injective table_injective ?_
  rw [table_of_commit done, table_of_commit done', same]
  congr 1
  funext family key
  rw [foldl_appliedTo_eq, foldl_appliedTo_eq, agree]

end Committing

section Telling

def engineHolding (entries : Family) : RocksEngine where
  families := transactionFamilies.foldl (fun families cf => families.insert cf entries)
    ((∅ : Std.ExtTreeMap String Family).insert "default" ∅)
  hasDefault := by simp [transactionFamilies]

theorem getElem?_foldl_insert_same (entries : Family) (names : List String)
    (families : Std.ExtTreeMap String Family) (cf : String) :
    (names.foldl (fun families cf => families.insert cf entries) families)[cf]? =
      if cf ∈ names then some entries else families[cf]? := by
  induction names generalizing families with
  | nil => simp
  | cons name names ih =>
    rw [List.foldl_cons, ih, Std.ExtTreeMap.getElem?_insert]
    by_cases later : cf ∈ names
    · simp [later]
    · simp only [later, if_false, List.mem_cons, or_false, Std.LawfulEqCmp.compare_eq_iff_eq,
        eq_comm (a := name)]

theorem families_engineHolding (entries : Family) {cf : String} (listed : cf ∈ transactionFamilies) :
    (engineHolding entries).families[cf]? = some entries :=
  (getElem?_foldl_insert_same entries transactionFamilies _ cf).trans (if_pos listed)

theorem means_of_foreign {cf : String} (foreign : cf ∉ transactionFamilies) (key : Bytes)
    (op : BatchOperation) : op.means cf key = none := by
  simp only [transactionFamilies, List.mem_cons, List.not_mem_nil, or_false, not_or] at foreign
  cases op <;> simp [BatchOperation.means, sayAt, foreign, Ne.symm, eq_comm]

theorem lastMeaning_of_foreign {cf : String} (foreign : cf ∉ transactionFamilies) (key : Bytes)
    (ops : List BatchOperation) : lastMeaning cf key ops = none := by
  unfold lastMeaning
  induction ops with
  | nil => rfl
  | cons op ops ih => rwa [List.foldl_cons, means_of_foreign foreign]

theorem exists_getD_ne {said said' : Option (Option Bytes)} (apart : said ≠ said') :
    ∃ held : Option Bytes, said.getD held ≠ said'.getD held := by
  rcases said with _ | word <;> rcases said' with _ | word'
  · exact absurd rfl apart
  · cases word' with
    | none => exact ⟨some [], by simp⟩
    | some value => exact ⟨none, by simp⟩
  · cases word with
    | none => exact ⟨some [], by simp⟩
    | some value => exact ⟨none, by simp⟩
  · exact ⟨none, fun same => apart (congrArg some same)⟩

theorem exists_engine_of_ne {first second : List BatchOperation} {cf : String} {key : Bytes}
    (apart : lastMeaning cf key first ≠ lastMeaning cf key second) :
    ∃ entries : Family, cf ∈ transactionFamilies ∧
      first.foldl (BatchOperation.appliedTo cf) entries.table ≠
        second.foldl (BatchOperation.appliedTo cf) entries.table := by
  have listed : cf ∈ transactionFamilies := by
    by_contra foreign
    rw [lastMeaning_of_foreign foreign, lastMeaning_of_foreign foreign] at apart
    exact apart rfl
  obtain ⟨held, differ⟩ := exists_getD_ne apart
  have before : ∃ entries : Family, entries.table key = held := by
    cases held with
    | none => exact ⟨∅, by simp [Family.table]⟩
    | some value => exact ⟨(∅ : Family).insert key value, by simp [Family.table]⟩
  obtain ⟨entries, rfl⟩ := before
  refine ⟨entries, listed, fun same => differ ?_⟩
  rw [← foldl_appliedTo_eq, ← foldl_appliedTo_eq, same]

def queuedOn (id : String) (engine : RocksEngine) (ops : List BatchOperation) : TransactionBatch :=
  ⟨id, engine, ops, ⟨0, ops.length, (ops.map estimateOperationSize).sum, []⟩, false, rfl, rfl⟩

/-- Two lists queued under one id leave the same database whenever their hashes are the same exactly if
their bytes tell them apart. -/
theorem commit_binds_iff (sha256 : Bytes → Hash) (id : String) (first second : List BatchOperation)
    (free : Set.InjOn sha256 {utf8 id ++ first.flatMap BatchOperation.transcript,
      utf8 id ++ second.flatMap BatchOperation.transcript}) :
    (∀ (t u t' u' : TransactionBatch) (write write' : BatchWrite) (hash : Hash),
      t.id = id → u.id = id → t.operations = first → u.operations = second → u.engine = t.engine →
      TransactionBatch.commit sha256 write t = .ok hash t' →
      TransactionBatch.commit sha256 write' u = .ok hash u' →
      ∀ cf : String, t'.engine.families[cf]? = u'.engine.families[cf]?) ↔ TellApart first second := by
  constructor
  · intro binds nonempty nonempty' storable same cf key
    by_contra apart
    obtain ⟨entries, listed, differ⟩ := exists_engine_of_ne apart
    have full : ∀ cf ∈ transactionFamilies, cf ∈ (engineHolding entries).families := by
      intro cf listed
      rw [Std.ExtTreeMap.mem_iff_isSome_getElem?, families_engineHolding entries listed]
      rfl
    obtain ⟨t', done⟩ := @exists_commit (queuedOn id (engineHolding entries) first) sha256 full rfl
      nonempty (fun op listed => storable op (List.mem_append_left _ listed))
    obtain ⟨u', done'⟩ := @exists_commit (queuedOn id (engineHolding entries) second) sha256 full rfl
      nonempty' (fun op listed => storable op (List.mem_append_right _ listed))
    have agree := binds (queuedOn id (engineHolding entries) first)
      (queuedOn id (engineHolding entries) second) t' u' .written .written _ rfl rfl rfl rfl rfl done
      (by rw [done']; simp only [queuedOn, same]) cf
    have tables := congrArg (Option.map Family.table) agree
    rw [table_of_commit done, table_of_commit done'] at tables
    simp only [queuedOn, families_engineHolding entries listed, Option.map_some] at tables
    exact differ (Option.some.inj tables)
  · rintro tell t u t' u' write write' hash rfl named rfl rfl same done done' cf
    obtain ⟨nonempty, storable, hashed⟩ := hash_of_commit done
    obtain ⟨nonempty', storable', hashed'⟩ := hash_of_commit done'
    rw [named] at hashed'
    have bytes := free (.inl rfl) (.inr rfl) (hashed.symm.trans hashed')
    refine families_eq_of_commit done done' same (fun key => tell nonempty nonempty' ?_
      (List.append_cancel_left bytes) cf key)
    intro op listed
    exact (List.mem_append.mp listed).elim (storable op) (storable' op)

theorem commit_binds_iff_different :
    TellApart [.putConsensus [1] [2]] [.putConsensus [1] [3]] ∧
    ∀ (t u t' u' : TransactionBatch) (write write' : BatchWrite) (hash : Hash),
      t.id = "t" → u.id = "t" → t.operations = [.putConsensus [1] [2]] →
      u.operations = [.putConsensus [1] [3]] → u.engine = t.engine →
      TransactionBatch.commit (padTo 32) write t = .ok hash t' →
      TransactionBatch.commit (padTo 32) write' u = .ok hash u' →
      ∀ cf : String, t'.engine.families[cf]? = u'.engine.families[cf]? := by
  have tell : TellApart [.putConsensus [1] [2]] [.putConsensus [1] [3]] :=
    fun _ _ _ same => absurd same (by decide)
  refine ⟨tell, (commit_binds_iff (padTo 32) "t" _ _ ?_).mpr tell⟩
  rintro _ (rfl | rfl) _ (rfl | rfl) same
  · rfl
  · exact absurd same (by decide)
  · exact absurd same (by decide)
  · rfl

/-- A transaction and a reference to the distributed file system under one hash: the commits return the
same hash, and write to different column families. -/
theorem commit_binds_neither :
    ∃ hash t' u',
      TransactionBatch.commit (padTo 32) .written
        (queuedOn "t" (engineHolding ∅) [.putTransaction (zeros 32) [1]]) = .ok hash t' ∧
      TransactionBatch.commit (padTo 32) .written
        (queuedOn "t" (engineHolding ∅) [.putDfsRef (zeros 32) [1]]) = .ok hash u' ∧
      t'.engine.families["transactions"]? ≠ u'.engine.families["transactions"]? := by
  refine ⟨_, _, _, rfl, rfl, ?_⟩
  decide +kernel

end Telling

end CatalystNode
