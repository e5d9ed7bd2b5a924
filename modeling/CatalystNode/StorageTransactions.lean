import CatalystNode.RocksEngine
import CatalystNode.ConsensusTypes
import CatalystNode.Overlay

namespace CatalystNode

open ByteVector HexCodec Overlay

inductive TransactionError where
  | columnFamilyNotFound (name : String)
  | serialization (message : String)
  | transaction (message : String)
  deriving DecidableEq, Repr

abbrev AccountAddress := ByteVec 21

inductive AccountType where
  | nonConfidential
  | confidential
  | contract
  deriving DecidableEq, Repr

def AccountType.tag : AccountType → UInt8
  | .nonConfidential => 0
  | .confidential => 1
  | .contract => 2

structure AccountState where
  address : AccountAddress
  accountType : AccountType
  balance : Bytes
  data : Option Bytes
  nonce : UInt64
  deriving DecidableEq

/-- A length of four bytes and what it is the length of. -/
def lengthPrefixed (bytes : Bytes) : Bytes := leBytes 4 bytes.length ++ bytes

def AccountState.encoding (account : AccountState) : Bytes :=
  account.address.toList ++ [account.accountType.tag] ++ lengthPrefixed account.balance ++
    account.data.elim [0] (fun data => 1 :: lengthPrefixed data) ++ leBytes 8 account.nonce.toNat

def checkedLength (tooLarge : String) (bytes : Bytes) : Except TransactionError Bytes :=
  if bytes.length < 2 ^ 32 then .ok (lengthPrefixed bytes)
  else .error (.serialization s!"Serialization error: {tooLarge}")

def AccountState.serialize (account : AccountState) : Except TransactionError Bytes := do
  let balance ← checkedLength "Balance too large" account.balance
  let data ← match account.data with
    | some data => (1 :: ·) <$> checkedLength "Account data too large" data
    | none => .ok [0]
  return account.address.toList ++ [account.accountType.tag] ++ balance ++ data ++
    leBytes 8 account.nonce.toNat

/-- Slots of a contract in the order a hash map yields them. -/
structure ContractStorage where
  slots : List (Bytes × Bytes)
  distinct : (slots.map Prod.fst).Nodup

inductive BatchOperation where
  | putAccount (address : AccountAddress) (account : AccountState)
  | deleteAccount (address : AccountAddress)
  | putTransaction (hash : Hash) (data : Bytes)
  | deleteTransaction (hash : Hash)
  | putMetadata (key : String) (value : Bytes)
  | deleteMetadata (key : String)
  | putConsensus (key value : Bytes)
  | deleteConsensus (key : Bytes)
  | putContract (address : AccountAddress) (code : Bytes) (storage : ContractStorage)
  | deleteContract (address : AccountAddress)
  | putDfsRef (hash : Hash) (reference : Bytes)
  | deleteDfsRef (hash : Hash)

section Keys

def accountKey (address : AccountAddress) : Bytes := utf8 "acc:" ++ address.toList

def transactionKey (hash : Hash) : Bytes := utf8 "tx:" ++ hash.toList

def metadataKey (name : String) : Bytes := utf8 "meta:" ++ utf8 name

def codeKey (address : AccountAddress) : Bytes := utf8 "code:" ++ address.toList

def storageKey (address : AccountAddress) (slot : Bytes) : Bytes :=
  utf8 "storage:" ++ address.toList ++ utf8 ":" ++ slot

theorem storageKey_injective (address : AccountAddress) : Function.Injective (storageKey address) :=
  fun _ _ same => List.append_cancel_left same

theorem codeKey_ne_storageKey (address other : AccountAddress) (slot : Bytes) :
    codeKey address ≠ storageKey other slot := by
  intro same
  have first := congrArg (List.take 1) same
  rw [codeKey, storageKey, List.append_assoc, List.append_assoc,
    List.take_append_of_le_length (by decide), List.take_append_of_le_length (by decide)] at first
  exact absurd first (by decide)

end Keys

structure TransactionMetadata where
  createdAt : UInt64
  operationCount : Nat
  estimatedSize : Nat
  checkpoints : List String

def estimateOperationSize : BatchOperation → Nat
  | .putAccount _ account => 21 + 1 + 8 + account.balance.length + (account.data.map List.length).getD 0
  | .deleteAccount _ => 21
  | .putTransaction _ data => 32 + data.length
  | .deleteTransaction _ => 32
  | .putMetadata key value => (utf8 key).length + value.length
  | .deleteMetadata key => (utf8 key).length
  | .putConsensus key value => key.length + value.length
  | .deleteConsensus key => key.length
  | .putContract _ code storage =>
    21 + code.length + (storage.slots.map (fun slot => slot.1.length + slot.2.length)).sum
  | .deleteContract _ => 21
  | .putDfsRef _ reference => 32 + reference.length
  | .deleteDfsRef _ => 32

/-- A transaction on a database; its metadata count what is queued. -/
structure TransactionBatch where
  id : String
  engine : RocksEngine
  operations : List BatchOperation
  metadata : TransactionMetadata
  committed : Bool
  counted : metadata.operationCount = operations.length
  sized : metadata.estimatedSize = (operations.map estimateOperationSize).sum

abbrev TransactionM := EStateM TransactionError TransactionBatch

structure Prepared where
  batch : List EngineOp
  hashed : Bytes

namespace RocksEngine

def cfHandle (engine : RocksEngine) (name : String) : Except TransactionError Unit :=
  if name ∈ engine.families then .ok () else .error (.columnFamilyNotFound name)

def writeBatch (engine : RocksEngine) (batch : List EngineOp) : RocksEngine :=
  batch.foldl EngineOp.apply engine

end RocksEngine

section Preparing

variable (engine : RocksEngine)

def preparePut (cf : String) (key value : Bytes) : Except TransactionError Prepared := do
  engine.cfHandle cf
  return ⟨[.put cf key value], key ++ value⟩

def prepareDelete (cf : String) (key : Bytes) : Except TransactionError Prepared := do
  engine.cfHandle cf
  return ⟨[.delete cf key], key ++ utf8 "DELETE"⟩

def contractEntries (address : AccountAddress) (code : Bytes) (storage : ContractStorage) :
    List (Bytes × Bytes) :=
  (codeKey address, code) :: storage.slots.map (fun slot => (storageKey address slot.1, slot.2))

/-- Deleting a contract leaves its slots behind. -/
def prepare : BatchOperation → Except TransactionError Prepared
  | .putAccount address account => do
    let value ← account.serialize
    preparePut engine "accounts" (accountKey address) value
  | .deleteAccount address => prepareDelete engine "accounts" (accountKey address)
  | .putTransaction hash data => preparePut engine "transactions" (transactionKey hash) data
  | .deleteTransaction hash => prepareDelete engine "transactions" (transactionKey hash)
  | .putMetadata key value => preparePut engine "metadata" (metadataKey key) value
  | .deleteMetadata key => prepareDelete engine "metadata" (metadataKey key)
  | .putConsensus key value => preparePut engine "consensus" key value
  | .deleteConsensus key => prepareDelete engine "consensus" key
  | .putContract address code storage => do
    engine.cfHandle "contracts"
    let entries := contractEntries address code storage
    return ⟨entries.map (fun entry => .put "contracts" entry.1 entry.2),
      entries.flatMap (fun entry => entry.1 ++ entry.2)⟩
  | .deleteContract address => prepareDelete engine "contracts" (codeKey address)
  | .putDfsRef hash reference => preparePut engine "dfs_refs" (transactionKey hash) reference
  | .deleteDfsRef hash => prepareDelete engine "dfs_refs" (transactionKey hash)

end Preparing

/-- What the database makes of a batch; one it fails on may leave it in any state. -/
inductive BatchWrite where
  | written
  | failed (reason : String) (left : RocksEngine)

namespace TransactionBatch

def new (id : String) (engine : RocksEngine) (now : UInt64) : TransactionBatch where
  id
  engine
  operations := []
  metadata := ⟨now, 0, 0, []⟩
  committed := false
  counted := rfl
  sized := rfl

def checkNotCommitted : TransactionM Unit := do
  let t ← get
  if t.committed then throw (.transaction s!"Transaction {t.id} has already been committed")

def pushed (t : TransactionBatch) (op : BatchOperation) : TransactionBatch where
  id := t.id
  engine := t.engine
  operations := t.operations ++ [op]
  metadata := { t.metadata with
    operationCount := t.metadata.operationCount + 1
    estimatedSize := t.metadata.estimatedSize + estimateOperationSize op }
  committed := t.committed
  counted := by simp [t.counted]
  sized := by simp [t.sized]

def addOperation (op : BatchOperation) : TransactionM Unit := modify (·.pushed op)

/-- The setters and deleters of the source, each with its own operation. -/
def enqueue (op : BatchOperation) : TransactionM Unit := do
  checkNotCommitted
  addOperation op

def withEngine (t : TransactionBatch) (engine : RocksEngine) : TransactionBatch :=
  { t with engine }

def writeBatchWithOptions (write : BatchWrite) (batch : List EngineOp) : TransactionM Unit :=
  match write with
  | .written => modify (fun t => t.withEngine (t.engine.writeBatch batch))
  | .failed reason left => do
    modify (·.withEngine left)
    throw (.transaction s!"Failed to write batch: {reason}")

def prepareAll : TransactionM (List Prepared) := do
  checkNotCommitted
  let t ← get
  if t.operations.isEmpty then throw (.transaction "Cannot commit empty transaction")
  ofExcept (t.operations.mapM (prepare t.engine))

def commit (sha256 : Bytes → Hash) (write : BatchWrite) : TransactionM Hash := do
  let parts ← prepareAll
  writeBatchWithOptions write (parts.flatMap Prepared.batch)
  modify (fun t => { t with committed := true })
  return sha256 (utf8 (← get).id ++ parts.flatMap Prepared.hashed)

end TransactionBatch

section Meaning

abbrev Table := Bytes → Option Bytes

def Family.table (family : Family) : Table := fun key => family[key]?

def sayAt (place : String × Bytes) (value : Option Bytes) (cf : String) (key : Bytes) :
    Option (Option Bytes) :=
  if place = (cf, key) then some value else none

/-- What an operation means for a key of a column family: nothing, that it is gone, or its value. -/
def BatchOperation.means : BatchOperation → String → Bytes → Option (Option Bytes)
  | .putAccount address account => sayAt ("accounts", accountKey address) (some account.encoding)
  | .deleteAccount address => sayAt ("accounts", accountKey address) none
  | .putTransaction hash data => sayAt ("transactions", transactionKey hash) (some data)
  | .deleteTransaction hash => sayAt ("transactions", transactionKey hash) none
  | .putMetadata key value => sayAt ("metadata", metadataKey key) (some value)
  | .deleteMetadata key => sayAt ("metadata", metadataKey key) none
  | .putConsensus key value => sayAt ("consensus", key) (some value)
  | .deleteConsensus key => sayAt ("consensus", key) none
  | .putContract address code storage => fun cf key =>
    if cf = "contracts" then
      if key = codeKey address then some (some code)
      else (storage.slots.find? (fun slot => storageKey address slot.1 = key)).map (fun slot => some slot.2)
    else none
  | .deleteContract address => sayAt ("contracts", codeKey address) none
  | .putDfsRef hash reference => sayAt ("dfs_refs", transactionKey hash) (some reference)
  | .deleteDfsRef hash => sayAt ("dfs_refs", transactionKey hash) none

def BatchOperation.appliedTo (cf : String) (table : Table) (op : BatchOperation) : Table :=
  fun key => (op.means cf key).getD (table key)

end Meaning

section Writing

def EngineOp.records (cf : String) : EngineOp → List (Bytes × Option Bytes)
  | .put name key value => if name = cf then [(key, some value)] else []
  | .delete name key => if name = cf then [(key, none)] else []

theorem families_apply_of_run {op : EngineOp} {name : String} {change : Family → Family}
    (run : op.run = RocksEngine.write name change) (engine : RocksEngine) (cf : String) :
    (op.apply engine).families[cf]? =
      engine.families[cf]?.map (fun family => if name = cf then change family else family) := by
  rw [EngineOp.apply, run]
  cases held : engine.families[name]? with
  | none =>
    rw [RocksEngine.write, held]
    by_cases same : name = cf
    · rw [← same, held]
      rfl
    · simp only [same, if_false, Option.map_id']
  | some family =>
    obtain ⟨engine', done, after⟩ := actsOn_write name change engine family held
    rw [done, after]
    by_cases same : cf = name
    · rw [if_pos same, same, held, Option.map_some, if_pos rfl]
    · simp only [same, Ne.symm same, if_false, Option.map_id']

theorem families_apply (engine : RocksEngine) (op : EngineOp) (cf : String) :
    (op.apply engine).families[cf]? =
      engine.families[cf]?.map (fun family => revise family (op.records cf)) := by
  cases op with
  | put name key value =>
    rw [families_apply_of_run rfl]
    congr 1
    funext family
    rw [EngineOp.records]
    split <;> rfl
  | delete name key =>
    rw [families_apply_of_run rfl]
    congr 1
    funext family
    rw [EngineOp.records]
    split <;> rfl

theorem families_writeBatch (engine : RocksEngine) (batch : List EngineOp) (cf : String) :
    (engine.writeBatch batch).families[cf]? =
      engine.families[cf]?.map (fun family => revise family (batch.flatMap (EngineOp.records cf))) := by
  induction batch generalizing engine with
  | nil => simp [RocksEngine.writeBatch, revise]
  | cons op batch ih =>
    rw [RocksEngine.writeBatch, List.foldl_cons, ← RocksEngine.writeBatch, ih, families_apply,
      Option.map_map]
    congr 1
    funext family
    rw [Function.comp_apply, List.flatMap_cons, revise, revise, revise, List.foldl_append]

end Writing

section Committing

variable {engine : RocksEngine}

theorem prepare_of_cfHandle {cf : String} {part prepared : Prepared}
    (done : (do engine.cfHandle cf; return part) = Except.ok prepared) : prepared = part := by
  rw [RocksEngine.cfHandle] at done
  split at done
  · exact (Except.ok.inj done).symm
  · cases done

theorem eq_of_checkedLength {tooLarge : String} {bytes prefixed : Bytes}
    (done : checkedLength tooLarge bytes = .ok prefixed) : prefixed = lengthPrefixed bytes := by
  rw [checkedLength] at done
  split at done
  · exact (Except.ok.inj done).symm
  · cases done

theorem encoding_of_serialize {account : AccountState} {value : Bytes}
    (done : account.serialize = .ok value) : value = account.encoding := by
  rw [AccountState.serialize] at done
  cases balance : checkedLength "Balance too large" account.balance with
  | error e =>
    rw [balance] at done
    cases done
  | ok bytes =>
    rw [balance] at done
    rw [AccountState.encoding, ← eq_of_checkedLength balance]
    cases held : account.data with
    | none =>
      rw [held] at done
      exact (Except.ok.inj done).symm
    | some data =>
      rw [held] at done
      cases prefixed : checkedLength "Account data too large" data with
      | error e =>
        simp only [prefixed] at done
        cases done
      | ok rest =>
        simp only [prefixed] at done
        rw [Option.elim_some, ← eq_of_checkedLength prefixed]
        exact (Except.ok.inj done).symm

theorem lastOf_preparePut {name : String} {k value : Bytes} {part : Prepared}
    (done : preparePut engine name k value = .ok part) (cf : String) (key : Bytes) :
    lastOf (part.batch.flatMap (EngineOp.records cf)) key = sayAt (name, k) (some value) cf key := by
  rw [prepare_of_cfHandle done, List.flatMap_singleton, EngineOp.records, sayAt]
  by_cases same : name = cf <;> simp [same, lastOf]

theorem lastOf_prepareDelete {name : String} {k : Bytes} {part : Prepared}
    (done : prepareDelete engine name k = .ok part) (cf : String) (key : Bytes) :
    lastOf (part.batch.flatMap (EngineOp.records cf)) key = sayAt (name, k) none cf key := by
  rw [prepare_of_cfHandle done, List.flatMap_singleton, EngineOp.records, sayAt]
  by_cases same : name = cf <;> simp [same, lastOf]

/-- Whatever the order of its slots, each key of a contract holds what the contract has there. -/
theorem lastOf_contractEntries (address : AccountAddress) (code : Bytes) (storage : ContractStorage)
    (key : Bytes) : lastOf (contractEntries address code storage) key =
      if key = codeKey address then some code
      else (storage.slots.find? (fun slot => storageKey address slot.1 = key)).map Prod.snd := by
  rw [contractEntries, lastOf]
  by_cases isCode : key = codeKey address
  · have none : lastOf (storage.slots.map (fun slot => (storageKey address slot.1, slot.2))) key = none := by
      refine lastOf_eq_none (fun r listed => ?_)
      obtain ⟨slot, -, rfl⟩ := List.mem_map.mp listed
      rw [isCode]
      exact (codeKey_ne_storageKey address address slot.1).symm
    rw [none, if_pos isCode, if_pos isCode.symm]
    rfl
  · rw [if_neg isCode, if_neg (Ne.symm isCode), Option.or_none]
    cases found : storage.slots.find? (fun slot => storageKey address slot.1 = key) with
    | none =>
      refine lastOf_eq_none (fun r listed => ?_)
      obtain ⟨slot, held, rfl⟩ := List.mem_map.mp listed
      simpa using List.find?_eq_none.mp found slot held
    | some slot =>
      have here : storageKey address slot.1 = key := by simpa using List.find?_some found
      have distinct : ((storage.slots.map (fun slot => (storageKey address slot.1, slot.2))).map
          Prod.fst).Nodup := by
        have keys := storage.distinct.map (storageKey_injective address)
        rwa [List.map_map] at keys ⊢
      refine lastOf_of_mem distinct (List.mem_map.mpr ⟨slot, List.mem_of_find?_eq_some found, ?_⟩)
      rw [here]

/-- The entries of an operation leave at each key what the operation means for it. -/
theorem lastOf_prepare {op : BatchOperation} {part : Prepared} (done : prepare engine op = .ok part)
    (cf : String) (key : Bytes) :
    lastOf (part.batch.flatMap (EngineOp.records cf)) key = op.means cf key := by
  cases op with
  | putAccount address account =>
    rw [prepare] at done
    cases serialized : account.serialize with
    | error e =>
      rw [serialized] at done
      cases done
    | ok value =>
      rw [serialized] at done
      rw [BatchOperation.means, ← encoding_of_serialize serialized]
      exact lastOf_preparePut done cf key
  | putContract address code storage =>
    rw [prepare_of_cfHandle done, BatchOperation.means, List.flatMap_map]
    by_cases here : "contracts" = cf
    · simp only [EngineOp.records, here, if_true]
      rw [← List.map_eq_flatMap]
      refine (lastOf_map Function.injective_id some (contractEntries address code storage) key).trans ?_
      rw [lastOf_contractEntries]
      split
      · rfl
      · rw [Option.map_map]
        rfl
    · simp only [EngineOp.records, here, Ne.symm here, if_false]
      exact lastOf_flatMap_eq_none (fun _ _ => rfl)
  | putTransaction | putMetadata | putConsensus | putDfsRef => exact lastOf_preparePut done cf key
  | deleteAccount | deleteTransaction | deleteMetadata | deleteConsensus | deleteContract | deleteDfsRef =>
    exact lastOf_prepareDelete done cf key

theorem mapM_prepare_cons {op : BatchOperation} {ops : List BatchOperation} {parts : List Prepared}
    (done : (op :: ops).mapM (prepare engine) = .ok parts) :
    ∃ part later, prepare engine op = .ok part ∧ ops.mapM (prepare engine) = .ok later ∧
      part :: later = parts := by
  rw [List.mapM_cons] at done
  cases first : prepare engine op <;> cases rest : ops.mapM (prepare engine) <;>
    rw [first] at done <;> simp_all [bind, Except.bind, pure, Except.pure]

theorem foldl_appliedTo {ops : List BatchOperation} {parts : List Prepared}
    (done : ops.mapM (prepare engine) = .ok parts) (cf : String) (table : Table) (key : Bytes) :
    ops.foldl (BatchOperation.appliedTo cf) table key =
      (lastOf ((parts.flatMap Prepared.batch).flatMap (EngineOp.records cf)) key).getD (table key) := by
  induction ops generalizing parts table with
  | nil =>
    rw [List.mapM_nil] at done
    cases done
    rfl
  | cons op ops ih =>
    obtain ⟨part, later, first, rest, rfl⟩ := mapM_prepare_cons done
    rw [List.foldl_cons, ih rest, List.flatMap_cons, List.flatMap_append, lastOf_append, Option.getD_or,
      lastOf_prepare first, BatchOperation.appliedTo]

theorem foldl_appliedTo_of_silent {ops : List BatchOperation} {cf : String} {key : Bytes}
    (silent : ∀ op ∈ ops, op.means cf key = none) (table : Table) :
    ops.foldl (BatchOperation.appliedTo cf) table key = table key := by
  induction ops generalizing table with
  | nil => rfl
  | cons op ops ih =>
    rw [List.foldl_cons, ih (fun later listed => silent later (List.mem_cons_of_mem op listed)),
      BatchOperation.appliedTo, silent op List.mem_cons_self, Option.getD_none]

theorem prepareAll_cases (t : TransactionBatch) :
    (∃ error, TransactionBatch.prepareAll t = .error error t) ∨
      ∃ parts, t.operations ≠ [] ∧ t.operations.mapM (prepare t.engine) = .ok parts ∧
        TransactionBatch.prepareAll t = .ok parts t := by
  simp only [TransactionBatch.prepareAll, TransactionBatch.checkNotCommitted, bind, EStateM.bind, get,
    getThe, MonadStateOf.get, EStateM.get]
  cases again : t.committed with
  | true => exact .inl ⟨_, rfl⟩
  | false =>
    simp only [Bool.false_eq_true, if_false, pure, EStateM.pure]
    cases empty : t.operations.isEmpty with
    | true => exact .inl ⟨_, rfl⟩
    | false =>
      simp only [Bool.false_eq_true, if_false]
      cases prepared : t.operations.mapM (prepare t.engine) with
      | error e => exact .inl ⟨e, rfl⟩
      | ok parts => exact .inr ⟨parts, by simpa using empty, rfl, rfl⟩

variable {sha256 : Bytes → Hash} {t t' : TransactionBatch}

theorem commit_eq_ok {write : BatchWrite} {hash : Hash}
    (done : TransactionBatch.commit sha256 write t = .ok hash t') :
    ∃ parts, t.operations ≠ [] ∧ t.operations.mapM (prepare t.engine) = .ok parts ∧
      t'.engine = t.engine.writeBatch (parts.flatMap Prepared.batch) ∧
      hash = sha256 (utf8 t.id ++ parts.flatMap Prepared.hashed) := by
  change EStateM.bind TransactionBatch.prepareAll _ t = _ at done
  rcases prepareAll_cases t with ⟨error, stopped⟩ | ⟨parts, queued, prepared, ready⟩
  · rw [EStateM.bind, stopped] at done
    cases done
  · rw [EStateM.bind, ready] at done
    cases write with
    | written =>
      cases done
      exact ⟨parts, queued, prepared, rfl, rfl⟩
    | failed reason left => cases done

theorem table_of_commit {write : BatchWrite} {hash : Hash}
    (done : TransactionBatch.commit sha256 write t = .ok hash t') (cf : String) :
    t'.engine.families[cf]?.map Family.table = t.engine.families[cf]?.map
      (fun family => t.operations.foldl (BatchOperation.appliedTo cf) family.table) := by
  obtain ⟨parts, -, prepared, written, -⟩ := commit_eq_ok done
  rw [written, families_writeBatch, Option.map_map]
  congr 1
  funext family key
  rw [foldl_appliedTo prepared, Function.comp_apply, Family.table, getElem?_revise]
  rfl

theorem commit_eq_error {error : TransactionError}
    (failed : TransactionBatch.commit sha256 .written t = .error error t') (write : BatchWrite) :
    TransactionBatch.commit sha256 write t = .error error t := by
  change EStateM.bind TransactionBatch.prepareAll _ t = _ at failed ⊢
  rcases prepareAll_cases t with ⟨error, stopped⟩ | ⟨parts, -, -, ready⟩
  · rw [EStateM.bind, stopped] at failed ⊢
    cases failed
    rfl
  · rw [EStateM.bind, ready] at failed
    cases failed

end Committing

/-- Operations queued on an open transaction stand in the order they were queued in. -/
theorem forM_enqueue {t : TransactionBatch} (fresh : t.committed = false) (ops : List BatchOperation) :
    ops.forM TransactionBatch.enqueue t = .ok () (ops.foldl TransactionBatch.pushed t) ∧
      (ops.foldl TransactionBatch.pushed t).operations = t.operations ++ ops ∧
      (ops.foldl TransactionBatch.pushed t).engine = t.engine := by
  induction ops generalizing t with
  | nil => exact ⟨rfl, (List.append_nil _).symm, rfl⟩
  | cons op ops ih =>
    obtain ⟨queued, listed, same⟩ := @ih (t.pushed op) fresh
    refine ⟨?_, ?_, same⟩
    · change EStateM.bind (TransactionBatch.enqueue op) _ t = _
      have first : TransactionBatch.enqueue op t = .ok () (t.pushed op) := by
        simp only [TransactionBatch.enqueue, TransactionBatch.checkNotCommitted, bind, EStateM.bind, get,
          getThe, MonadStateOf.get, EStateM.get, fresh, Bool.false_eq_true, if_false]
        rfl
      rw [EStateM.bind, first]
      exact queued
    · rw [List.foldl_cons, listed, TransactionBatch.pushed, List.append_assoc, List.singleton_append]

/-- A commit that succeeds leaves every column family as its operations applied one by one in the order
of the queue, so that the last one that means something for a key decides. One that would fail even if
the database wrote everything fails before the write, and changes nothing. -/
theorem commit_in_order (sha256 : Bytes → Hash) (t : TransactionBatch) :
    (∀ write hash t', TransactionBatch.commit sha256 write t = .ok hash t' → ∀ cf,
      t'.engine.families[cf]?.map Family.table = t.engine.families[cf]?.map
        (fun family => t.operations.foldl (BatchOperation.appliedTo cf) family.table) ∧
      ∀ earlier op later key value family, t.operations = earlier ++ op :: later →
        op.means cf key = some value → (∀ next ∈ later, next.means cf key = none) →
        t'.engine.families[cf]? = some family → family[key]? = value) ∧
    ∀ error t', TransactionBatch.commit sha256 .written t = .error error t' →
      ∀ write, TransactionBatch.commit sha256 write t = .error error t := by
  refine ⟨fun write hash t' done cf => ?_, fun error t' failed => commit_eq_error failed⟩
  have table := table_of_commit done cf
  refine ⟨table, fun earlier op later key value family queued meant silent held => ?_⟩
  rw [held] at table
  obtain ⟨before, -, same⟩ := Option.map_eq_some_iff.mp table.symm
  calc family[key]?
      = t.operations.foldl (BatchOperation.appliedTo cf) before.table key := congrFun same.symm key
    _ = value := by
        rw [queued, List.foldl_append, List.foldl_cons, foldl_appliedTo_of_silent silent,
          BatchOperation.appliedTo, meant, Option.getD_some]

def consensusEngine : RocksEngine where
  families := (∅ : Std.ExtTreeMap String Family).insert "default" ∅ |>.insert "consensus" ∅
  hasDefault := by simp

def rewriting : TransactionBatch :=
  [.putConsensus [7] [1], .deleteConsensus [7], .putConsensus [7] [2]].foldl TransactionBatch.pushed
    (.new "t" consensusEngine 0)

theorem commit_in_order_rewriting :
    ∃ hash t', TransactionBatch.commit (fun _ => zeros 32) .written rewriting = .ok hash t' ∧
      ∀ family, t'.engine.families["consensus"]? = some family → family[[(7 : UInt8)]]? = some [2] := by
  refine ⟨_, _, rfl, fun family held => ?_⟩
  exact ((commit_in_order (fun _ => zeros 32) rewriting).1 .written _ _ rfl "consensus").2
    [.putConsensus [7] [1], .deleteConsensus [7]] (.putConsensus [7] [2]) [] [7] (some [2]) family rfl
    (by decide) (fun next listed => by cases listed) held

end CatalystNode
