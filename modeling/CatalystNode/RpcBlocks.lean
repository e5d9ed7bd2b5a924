import CatalystNode.HistoryCoherence
import CatalystNode.PruningWindow

namespace CatalystNode

open ByteVector HexCodec MachineInt Store Effects FoldTrace

inductive RpcServerError where
  | invalidParams (message : String)
  | blockNotFound (message : String)
  | server (message : String)
  deriving DecidableEq, Repr

/-- Hexadecimal digits, with or without their mark. -/
def parseHexBytes (s : String) : Except RpcServerError Bytes :=
  let digits := if (utf8 "0x").isPrefixOf (utf8 s) then (utf8 s).drop 2 else utf8 s
  match decode digits with
  | none => .error (.invalidParams (decodeError digits))
  | some bytes => .ok bytes

def parseHex32Bytes (s : String) : Except RpcServerError Hash := do
  let b ← parseHexBytes s
  match toArray? 32 b with
  | none => .error (.invalidParams "expected 32-byte hex")
  | some out => .ok out

def hexText (bytes : Bytes) : String := "0x" ++ encodeString bytes

structure RpcTransactionSummary where
  hash : String
  sender : String
  recipient : Option String
  value : String

structure RpcTransaction where
  hash : String
  blockHash : Option String
  blockNumber : Option UInt64
  sender : String
  recipient : Option String
  value : String
  data : String
  gasLimit : UInt64
  gasPrice : String
  gasUsed : Option UInt64
  status : Option String

structure RpcBlock where
  hash : String
  number : UInt64
  parentHash : String
  timestamp : UInt64
  transactions : List RpcTransactionSummary
  transactionsFull : Option (List RpcTransaction)
  transactionCount : Nat
  size : Nat

/-- The last account other than the sender that a transfer credits, and all it credits to others. -/
def transferTarget (tx : Transaction) : Option PublicKey × UInt64 :=
  match tx.core.txType with
  | .nonConfidentialTransfer =>
    let found := tx.core.entries.foldl (fun (found : Option PublicKey × Int64) e =>
      match e.amount with
      | .nonConfidential v =>
        if 0 < v ∧ txSenderPubkey tx ≠ some e.publicKey then
          (some e.publicKey, saturatingAddI64 found.2 v)
        else found
      | .confidential _ _ => found) (none, 0)
    (found.1, (max found.2 0).toUInt64)
  | _ => (none, 0)

def txStatusString : TxStatus → String
  | .pending => "pending"
  | .selected => "selected"
  | .applied => "applied"
  | .dropped => "dropped"

section Blocks

variable (env : ApplyEnv)

def senderText (tx : Transaction) : String :=
  ((txSenderPubkey tx).map (fun pk => hexText pk.toList)).getD "0x0"

def loadTxSummary (store : Store) (txid : Hash) : RpcTransactionSummary :=
  match (store.getMetadata (txRawKey txid)).bind env.decodeTx with
  | none => ⟨hexText txid.toList, "0x0", none, "0"⟩
  | some tx => ⟨hexText txid.toList, senderText tx, (transferTarget tx).1.map (fun pk => hexText pk.toList),
      toString (transferTarget tx).2⟩

def loadTxFull (store : Store) (txid : Hash) (blockNumber : Option UInt64) (blockHash : Option Hash) :
    Option RpcTransaction := do
  let bytes ← store.getMetadata (txRawKey txid)
  let tx ← env.decodeTx bytes
  let txMeta := (store.getMetadata (txMetaKey txid)).bind env.decodeTxMeta
  some {
    hash := hexText txid.toList
    blockHash := blockHash.map (fun h => hexText h.toList)
    blockNumber
    sender := senderText tx
    recipient := (transferTarget tx).1.map (fun pk => hexText pk.toList)
    value := toString (transferTarget tx).2
    data := hexText tx.core.data
    gasLimit := 0
    gasPrice := "0"
    gasUsed := none
    status := some ((txMeta.map (fun m => txStatusString m.status)).getD "unknown") }

def buildBlock (store : Store) (cycle : UInt64) (fullTransactions : Bool) (cycleDurationMs : UInt64) :
    Except RpcServerError RpcBlock :=
  match store.getMetadata (lsuKey cycle) with
  | none => .error (.blockNotFound s!"cycle={cycle}")
  | some lsuBytes => match (deserialize lsuBytes : Option LedgerStateUpdate) with
    | none => .error (.server "deserialize")
    | some lsu =>
      let lsuHash := ((store.getMetadata (lsuHashKey cycle)).bind (toArray? 32)).getD (hashData env.tx.blake2b512 lsu)
      let parentHash := if 0 < cycle then
        ((store.getMetadata (lsuHashKey (saturatingSubU64 cycle 1))).bind (toArray? 32)).getD (zeros 32) else zeros 32
      let txids := loadCycleTxids env store cycle
      .ok {
        hash := hexText lsuHash.toList
        number := cycle
        parentHash := hexText parentHash.toList
        timestamp := saturatingMulU64 cycle cycleDurationMs / 1000
        transactions := txids.map (loadTxSummary env store)
        transactionsFull := if fullTransactions then
          some (txids.filterMap (fun txid => loadTxFull env store txid (some cycle) (some lsuHash)))
          else none
        transactionCount := txids.length
        size := lsuBytes.length }

/-- A block that cannot be built is answered as missing. -/
def getBlockByNumber (store : Store) (number : UInt64) (fullTransactions : Bool) (cycleDurationMs : UInt64) :
    Except RpcServerError (Option RpcBlock) :=
  match buildBlock env store number fullTransactions cycleDurationMs with
  | .error _ => .ok none
  | .ok block => .ok (some block)

def getBlockByHash (store : Store) (hash : String) (fullTransactions : Bool) (cycleDurationMs : UInt64) :
    Except RpcServerError (Option RpcBlock) := do
  let h ← parseHex32Bytes hash
  match (store.getMetadata (cycleByLsuHashKey h)).bind decodeU64 with
  | none => .ok none
  | some cycle => getBlockByNumber env store cycle fullTransactions cycleDurationMs

def FoundByHash (store : Store) : Prop :=
  ∀ hash h fullTransactions cycleDurationMs block, parseHex32Bytes hash = .ok h →
    getBlockByHash env store hash fullTransactions cycleDurationMs = .ok (some block) →
      block.hash = hexText h.toList

end Blocks

section Index

theorem utf8_hexText (bytes : Bytes) : utf8 (hexText bytes) = utf8 "0x" ++ encode bytes := by
  rw [← utf8_encodeString]
  simp [hexText, utf8, String.toByteArray_append]

theorem hexText_inj {bytes bytes' : Bytes} (same : hexText bytes = hexText bytes') : bytes = bytes' := by
  have digits := congrArg utf8 same
  rw [utf8_hexText, utf8_hexText] at digits
  exact Option.some.inj ((decode_encode bytes).symm.trans
    ((congrArg decode (List.append_cancel_left digits)).trans (decode_encode bytes')))

theorem parseHexBytes_hexText (bytes : Bytes) : parseHexBytes (hexText bytes) = .ok bytes := by
  have marked : (utf8 "0x").isPrefixOf (utf8 (hexText bytes)) = true := by
    rw [utf8_hexText, List.isPrefixOf_iff_prefix]
    exact List.prefix_append _ _
  have digits : (utf8 (hexText bytes)).drop 2 = encode bytes := by
    rw [utf8_hexText]
    exact List.drop_left' (by decide)
  simp only [parseHexBytes, if_pos marked, digits, decode_encode]

theorem parseHex32Bytes_hexText (h : Hash) : parseHex32Bytes (hexText h.toList) = .ok h := by
  rw [parseHex32Bytes, parseHexBytes_hexText]
  simp only [bind, Except.bind, toArray?_toList]

def indexedCycle (store : Store) (h : Hash) : Option UInt64 :=
  (store.getMetadata (cycleByLsuHashKey h)).bind decodeU64

def blockHash (blake2b512 : Bytes → ByteVec 64) (store : Store) (cycle : UInt64) : Option Hash := do
  let bytes ← store.history cycle .lsu
  let lsu ← (deserialize bytes : Option LedgerStateUpdate)
  some (((store.history cycle .hash).bind (toArray? 32)).getD (hashData blake2b512 lsu))

def IndexSound (blake2b512 : Bytes → ByteVec 64) (store : Store) : Prop :=
  ∀ h cycle other, indexedCycle store h = some cycle → blockHash blake2b512 store cycle = some other →
    other = h

variable {env : ApplyEnv} {store : Store}

theorem buildBlock_hash {cycle cycleDurationMs : UInt64} {fullTransactions : Bool} :
    (buildBlock env store cycle fullTransactions cycleDurationMs).toOption.map RpcBlock.hash =
      (blockHash env.tx.blake2b512 store cycle).map (fun h => hexText h.toList) := by
  unfold buildBlock blockHash
  simp only [Store.history, HistoryField.key]
  cases store.getMetadata (lsuKey cycle) with
  | none => rfl
  | some bytes =>
    dsimp only [Option.bind_eq_bind, Option.bind_some]
    cases (deserialize bytes : Option LedgerStateUpdate) with
    | none => rfl
    | some lsu => rfl

theorem getBlockByHash_eq {hash : String} {h : Hash} (parsed : parseHex32Bytes hash = .ok h)
    (fullTransactions : Bool) (cycleDurationMs : UInt64) :
    getBlockByHash env store hash fullTransactions cycleDurationMs =
      .ok ((indexedCycle store h).bind (fun cycle =>
        (buildBlock env store cycle fullTransactions cycleDurationMs).toOption)) := by
  unfold getBlockByHash
  rw [parsed]
  simp only [bind, Except.bind, indexedCycle]
  cases (store.getMetadata (cycleByLsuHashKey h)).bind decodeU64 with
  | none => rfl
  | some cycle =>
    dsimp only [Option.bind_some, getBlockByNumber]
    cases buildBlock env store cycle fullTransactions cycleDurationMs <;> rfl

theorem foundByHash_iff : FoundByHash env store ↔ IndexSound env.tx.blake2b512 store := by
  constructor
  · intro found h cycle other indexed shown
    have built := @buildBlock_hash env store cycle 0 false
    rw [shown, Option.map_some] at built
    obtain ⟨block, built, text⟩ := Option.map_eq_some_iff.mp built
    have answered := @getBlockByHash_eq env store _ h (parseHex32Bytes_hexText h) false 0
    rw [indexed, Option.bind_some, built] at answered
    have own := found _ h false 0 block (parseHex32Bytes_hexText h) answered
    exact Subtype.ext (hexText_inj (text.symm.trans own))
  · intro sound hash h fullTransactions cycleDurationMs block parsed answered
    rw [getBlockByHash_eq parsed] at answered
    obtain ⟨cycle, indexed, built⟩ := Option.bind_eq_some_iff.mp (Except.ok.inj answered)
    have text := @buildBlock_hash env store cycle cycleDurationMs fullTransactions
    rw [built, Option.map_some] at text
    obtain ⟨other, shown, same⟩ := Option.map_eq_some_iff.mp text.symm
    rw [← same, sound h cycle other indexed shown]

end Index

inductive BlockStep where
  | persist (call : PersistCall)
  | apply (nowMs : UInt64) (lsu : LedgerStateUpdate)

def BlockStep.toHistory : BlockStep → HistoryStep
  | .persist call => .persist call
  | .apply nowMs lsu => .apply nowMs lsu

section Steps

variable {F G : Type} [Field F] [AddCommGroup G] [Module F G] [DecidableEq G] (env : ReconcileEnv F G)

def BlockStep.run (db : Database) (step : BlockStep) : Database := step.toHistory.run env db

def OnlyHash (store : Store) (cycle : UInt64) (h : Hash) : Prop :=
  ∀ other, indexedCycle store other = some cycle → other = h

/-- A call meets no dispute over its cycle: an update that takes the slot is the only one the index has for
it, and one that does not take it is the one whose block is shown. -/
def BlockStep.Undisputed (db : Database) : BlockStep → Prop
  | .persist call =>
    let h := hashData env.node.blake2b512 call.lsu
    let loses := losesCanonicalSlot env.node call.dfs call.certifiedOnly call.cycle db.toStore
      call.lsuBytes h call.finalityCidHint
    (loses = true → ∀ other, blockHash env.node.blake2b512 db.toStore call.cycle = some other → other = h) ∧
    (loses = false → (deserialize call.lsuBytes : Option LedgerStateUpdate).isSome = true →
      OnlyHash db.toStore call.cycle h)
  | .apply _ lsu => lastAppliedCycle db.toStore < lsu.cycleNumber →
      OnlyHash db.toStore lsu.cycleNumber (hashData env.node.blake2b512 lsu)

end Steps

section Runs

variable {F G : Type} [Field F] [AddCommGroup G] [Module F G] [DecidableEq G] {env : ReconcileEnv F G}
  {db : Database} {s t : Store}

theorem cycleByLsuHashKey_inj {h other : Hash} (same : cycleByLsuHashKey h = cycleByLsuHashKey other) :
    h = other := by
  have keys : "consensus:cycle_by_lsu_hash:" ++ encodeString h.toList =
      "consensus:cycle_by_lsu_hash:" ++ encodeString other.toList := same
  have digits := congrArg String.toList keys
  rw [String.toList_append, String.toList_append] at digits
  exact encodeString_inj (String.toList_inj.mp (List.append_cancel_left digits))

theorem cycleByLsuHashKey_ne_history (h : Hash) (field : HistoryField) (cycle : UInt64) :
    field.key cycle ≠ cycleByLsuHashKey h :=
  (ne_historyKey (HistoryField.tags_apart (by decide)) _ field).symm

theorem indexedCycle_persist (call : PersistCall) (h : Hash) :
    indexedCycle ((BlockStep.persist call).run env db).toStore h =
      if hashData env.node.blake2b512 call.lsu = h then some call.cycle
      else indexedCycle db.toStore h := by
  split
  next same =>
    have written : ((BlockStep.persist call).run env db).toStore.getMetadata (cycleByLsuHashKey h) =
        some (encodeU64 call.cycle) := by
      rw [← same]
      exact getMetadata_setMetadata_self _ _ _
    rw [indexedCycle, written, Option.bind_some, decodeU64_encodeU64]
  next other =>
    have kept : ((BlockStep.persist call).run env db).toStore.getMetadata (cycleByLsuHashKey h) =
        db.toStore.getMetadata (cycleByLsuHashKey h) :=
      getMetadata_persistLsuHistory (cycleByLsuHashKey_ne_history h .lsu call.cycle)
        (cycleByLsuHashKey_ne_history h .hash call.cycle) (cycleByLsuHashKey_ne_history h .cid call.cycle)
        (cycleByLsuHashKey_ne_history h .stateRoot call.cycle) (fun same => other (cycleByLsuHashKey_inj same))
    rw [indexedCycle, kept, indexedCycle]

theorem blockHash_congr {blake2b512 : Bytes → ByteVec 64} {cycle : UInt64}
    (same : t.history cycle = s.history cycle) : blockHash blake2b512 t cycle = blockHash blake2b512 s cycle := by
  unfold blockHash
  rw [same]

theorem blockHash_of_written {blake2b512 : Bytes → ByteVec 64} {cycle : UInt64} {bytes : Bytes} {h : Hash}
    (lsu : t.history cycle .lsu = some bytes) (hash : t.history cycle .hash = some h.toList) :
    blockHash blake2b512 t cycle = (deserialize bytes : Option LedgerStateUpdate).map (fun _ => h) := by
  unfold blockHash
  rw [lsu, hash, Option.bind_some, toArray?_toList, Option.bind_eq_bind, Option.bind_some]
  cases (deserialize bytes : Option LedgerStateUpdate) <;> rfl

section Indexed

variable {blake2b512 : Bytes → ByteVec 64} {h : Hash} {cycle : UInt64}
  (before : IndexSound blake2b512 s)
  (index : ∀ other, indexedCycle t other = if h = other then some cycle else indexedCycle s other)

include before index

theorem indexSound_of_kept_iff (kept : ∀ c, blockHash blake2b512 t c = blockHash blake2b512 s c) :
    IndexSound blake2b512 t ↔ ∀ other, blockHash blake2b512 s cycle = some other → other = h := by
  constructor
  · intro sound other shown
    exact sound h cycle other (by rw [index, if_pos rfl]) ((kept _).trans shown)
  · intro undisputed h' c other indexed shown
    rw [kept] at shown
    rw [index] at indexed
    split at indexed
    next here =>
      cases Option.some.inj indexed
      rw [undisputed other shown, here]
    next => exact before h' c other indexed shown

theorem indexSound_of_replaced_iff {α : Type} {found : Option α}
    (here : blockHash blake2b512 t cycle = found.map (fun _ => h))
    (kept : ∀ c, cycle ≠ c → blockHash blake2b512 t c = blockHash blake2b512 s c) :
    IndexSound blake2b512 t ↔ (found.isSome = true → OnlyHash s cycle h) := by
  constructor
  · intro sound decodes other indexed
    obtain ⟨lsu, rfl⟩ := Option.isSome_iff_exists.mp decodes
    by_cases same : h = other
    · exact same.symm
    · exact (sound other cycle h (by rw [index, if_neg same]; exact indexed) here).symm
  · intro undisputed h' c other indexed shown
    rw [index] at indexed
    by_cases elsewhere : cycle = c
    · subst elsewhere
      rw [here] at shown
      obtain ⟨lsu, rfl, rfl⟩ := Option.map_eq_some_iff.mp shown
      split at indexed
      next same => exact same
      next => exact (undisputed rfl h' indexed).symm
    · rw [kept c elsewhere] at shown
      split at indexed
      next => exact absurd (Option.some.inj indexed) elsewhere
      next => exact before h' c other indexed shown

end Indexed

theorem indexSound_persist_iff (call : PersistCall) (before : IndexSound env.node.blake2b512 db.toStore) :
    IndexSound env.node.blake2b512 ((BlockStep.persist call).run env db).toStore ↔
      (BlockStep.persist call).Undisputed env db := by
  have index := @indexedCycle_persist F G _ _ _ _ env db call
  have history := @history_persistLsuHistory F G _ _ _ _ env.node call.dfs call.certifiedOnly call.cycle
    db.toStore call.lsuBytes (hashData env.node.blake2b512 call.lsu) call.cid call.stateRoot
    call.finalityCidHint
  change ∀ cycle, ((BlockStep.persist call).run env db).toStore.history cycle = _ at history
  generalize ((BlockStep.persist call).run env db).toStore = after at index history
  unfold BlockStep.Undisputed
  dsimp only
  generalize hashData env.node.blake2b512 call.lsu = h at index history ⊢
  cases loses : losesCanonicalSlot env.node call.dfs call.certifiedOnly call.cycle db.toStore
      call.lsuBytes h call.finalityCidHint with
  | true =>
    simp only [forall_true_left, Bool.true_eq_false, false_implies, and_true]
    exact indexSound_of_kept_iff before index
      (fun cycle => blockHash_congr (by rw [history, if_pos (.inr loses)]))
  | false =>
    simp only [forall_true_left, Bool.false_eq_true, false_implies, true_and]
    have taken : after.history call.cycle = _ :=
      (history call.cycle).trans (if_neg (not_or.mpr ⟨not_not.mpr rfl, ne_true_of_eq_false loses⟩))
    refine indexSound_of_replaced_iff before index
      (blockHash_of_written (by rw [taken]) (by rw [taken])) ?_
    exact fun cycle elsewhere => blockHash_congr (by rw [history, if_pos (.inl elsewhere)])

theorem indexedCycle_apply (keeps : KeepsMetadata env.database.runtime) {nowMs : UInt64}
    {lsu : LedgerStateUpdate} {h : Hash} {cycle : UInt64}
    (above : lastAppliedCycle db.toStore < lsu.cycleNumber)
    (indexed : indexedCycle ((BlockStep.apply nowMs lsu).run env db).toStore h = some cycle) :
    indexedCycle db.toStore h = some cycle := by
  obtain ⟨root, after, run, applied⟩ := @applyLsuToDatabase_apply (env.database.atTime nowMs) lsu db above
  have reached : (BlockStep.apply nowMs lsu).run env db = after := by
    change endState (applyLsuToDatabase (env.database.atTime nowMs) lsu db) = after
    rw [run, endState]
  have ledger : (applyLedger (env.database.atTime nowMs).toApplyEnv db.toStore lsu).1.metadata =
      db.metadata := metadata_applyLedger keeps
  have kept := applied.records (cycleByLsuHashKey h) (not_underTag_append (by decide) _)
    (cycleByLsuHashKey_ne_history h .lsu lsu.cycleNumber).symm
    (cycleByLsuHashKey_ne_history h .hash lsu.cycleNumber).symm
  rw [reached, indexedCycle] at indexed
  rw [indexedCycle]
  rcases kept with same | ⟨-, gone⟩
  · have unchanged : after.toStore.getMetadata (cycleByLsuHashKey h) =
        db.toStore.getMetadata (cycleByLsuHashKey h) := by
      rw [Store.getMetadata, Store.getMetadata, ← ledger]
      exact same
    rw [← unchanged]
    exact indexed
  · have none : after.toStore.getMetadata (cycleByLsuHashKey h) = none := gone
    rw [none] at indexed
    cases indexed

theorem indexSound_apply (keeps : KeepsMetadata env.database.runtime) {nowMs : UInt64}
    {lsu : LedgerStateUpdate} (before : IndexSound env.node.blake2b512 db.toStore)
    (undisputed : (BlockStep.apply nowMs lsu).Undisputed env db) :
    IndexSound env.node.blake2b512 ((BlockStep.apply nowMs lsu).run env db).toStore := by
  by_cases above : lastAppliedCycle db.toStore < lsu.cycleNumber
  · intro h cycle other indexed shown
    have indexed := indexedCycle_apply keeps above indexed
    have applied := @appliedHistory_applyLsuToDatabase (env.database.atTime nowMs) lsu keeps db above
    have hash : hashData (env.database.atTime nowMs).tx.blake2b512 lsu = hashData env.node.blake2b512 lsu := by
      rw [env.sameHash]
      rfl
    rw [hash] at applied
    change AppliedHistory lsu _ db.toStore ((BlockStep.apply nowMs lsu).run env db).toStore at applied
    generalize ((BlockStep.apply nowMs lsu).run env db).toStore = after at applied shown
    by_cases here : lsu.cycleNumber = cycle
    · subst here
      have bytes : after.history lsu.cycleNumber .lsu = some (serialize lsu) := by
        rw [applied.own, historyWith_self]
      have recorded : after.history lsu.cycleNumber .hash = some (hashData env.node.blake2b512 lsu).toList := by
        rw [applied.own, historyWith_self]
      rw [blockHash_of_written bytes recorded] at shown
      obtain ⟨_, -, rfl⟩ := Option.map_eq_some_iff.mp shown
      exact (undisputed above h indexed).symm
    · rcases applied cycle with kept | ⟨-, gone⟩
      · rw [historyWith_of_ne here] at kept
        exact before h cycle other indexed ((blockHash_congr kept).symm.trans shown)
      · unfold blockHash at shown
        rw [gone] at shown
        cases shown
  · have skipped : (BlockStep.apply nowMs lsu).run env db = db := by
      change endState (applyLsuToDatabase (env.database.atTime nowMs) lsu db) = db
      rw [applyLsuToDatabase_skip (UInt64.not_lt.mp above), endState]
    rw [skipped]
    exact before

/-- In a run of calls of which none meets a dispute over its cycle, every block that is found by a hash has
that hash, in every state reached. -/
theorem foundByHash_of_undisputed (keeps : KeepsMetadata env.database.runtime) (db : Database)
    (start : FoundByHash env.database.toApplyEnv db.toStore) (steps : List BlockStep)
    (undisputed : ∀ s ∈ foldSteps (BlockStep.run env) db steps, s.2.Undisputed env s.1) :
    FoundByHash env.database.toApplyEnv (steps.foldl (BlockStep.run env) db).toStore := by
  rw [foundByHash_iff, ← env.sameHash] at start ⊢
  refine foldl_invariant (P := fun db : Database => IndexSound env.node.blake2b512 db.toStore) start ?_
  intro db step listed sound
  cases step with
  | persist call => exact (indexSound_persist_iff call sound).mpr (undisputed _ listed)
  | apply nowMs lsu => exact indexSound_apply keeps sound (undisputed _ listed)

end Runs

section Samples

def persistOfFive (timestamp : UInt64) : PersistCall :=
  ⟨none, false, 5, sampleVoted 5 timestamp, serialize (sampleVoted 5 timestamp), "cid", padTo 32 [1], ""⟩

variable {F G : Type} [Field F] [AddCommGroup G] [Module F G] [DecidableEq G] {env : ReconcileEnv F G}

theorem indexedCycle_fresh (h : Hash) : indexedCycle Database.fresh.toStore h = none := by
  rw [indexedCycle, Database.fresh, Store.getMetadata, Store.empty, Std.ExtTreeMap.getElem?_empty]
  rfl

theorem blockHash_fresh (blake2b512 : Bytes → ByteVec 64) (cycle : UInt64) :
    blockHash blake2b512 Database.fresh.toStore cycle = none := by
  rw [blockHash, Store.history, Database.fresh, Store.getMetadata, Store.empty,
    Std.ExtTreeMap.getElem?_empty]
  rfl

theorem indexSound_fresh (blake2b512 : Bytes → ByteVec 64) : IndexSound blake2b512 Database.fresh.toStore := by
  intro h cycle other indexed
  rw [indexedCycle_fresh] at indexed
  cases indexed

theorem undisputed_fresh (call : PersistCall) : (BlockStep.persist call).Undisputed env .fresh := by
  constructor
  · intro _ other shown
    rw [blockHash_fresh] at shown
    cases shown
  · intro _ _ other indexed
    rw [indexedCycle_fresh] at indexed
    cases indexed

end Samples

/-- An update that is persisted and then applied is undisputed. -/
theorem foundByHash_of_undisputed_applied :
    FoundByHash sampleReconcileEnv.database.toApplyEnv
      ([.persist (persistOfFive 1), .apply 7 (sampleVoted 5 1)].foldl (BlockStep.run sampleReconcileEnv)
        .fresh).toStore := by
  refine foundByHash_of_undisputed (fun _ _ _ _ _ => rfl) .fresh
    (foundByHash_iff.mpr (indexSound_fresh _)) _ ?_
  intro s inside
  rw [foldSteps, foldSteps, foldSteps, List.mem_cons, List.mem_singleton] at inside
  rcases inside with rfl | rfl
  · exact @undisputed_fresh _ _ _ _ _ _ sampleReconcileEnv (persistOfFive 1)
  · intro _ other indexed
    rw [indexedCycle_persist, indexedCycle_fresh] at indexed
    split at indexed
    next same => exact same.symm
    next => cases indexed

/-- Of two updates of one cycle both are indexed, and the block that is found by either hash is that of the
update in the slot. -/
theorem foundByHash_rival :
    FoundByHash sampleReconcileEnv.database.toApplyEnv Database.fresh.toStore ∧
    ¬FoundByHash sampleReconcileEnv.database.toApplyEnv
      ([.persist (persistOfFive 1), .persist (persistOfFive 2)].foldl (BlockStep.run sampleReconcileEnv)
        .fresh).toStore := by
  refine ⟨foundByHash_iff.mpr (indexSound_fresh _), fun found => ?_⟩
  have evaluated : let first := hashData checksum (sampleVoted 5 1)
      first ≠ hashData checksum (sampleVoted 5 2) ∧
        (deserialize (serialize (sampleVoted 5 2)) : Option LedgerStateUpdate).isSome = true ∧
        blockHash checksum ((BlockStep.persist (persistOfFive 1)).run sampleReconcileEnv .fresh).toStore 5 =
          some first := by
    decide +kernel
  obtain ⟨apart, decodes, shown⟩ := evaluated
  have first := (@indexSound_persist_iff _ _ _ _ _ _ sampleReconcileEnv .fresh (persistOfFive 1)
    (indexSound_fresh _)).mpr (undisputed_fresh (persistOfFive 1))
  rw [foundByHash_iff, ← sampleReconcileEnv.sameHash, List.foldl_cons, List.foldl_cons, List.foldl_nil] at found
  have second := (indexSound_persist_iff (persistOfFive 2) first).mp found
  cases loses : losesCanonicalSlot sampleReconcileEnv.node none false 5
      ((BlockStep.persist (persistOfFive 1)).run sampleReconcileEnv .fresh).toStore (serialize (sampleVoted 5 2))
      (hashData checksum (sampleVoted 5 2)) "" with
  | true => exact apart (second.1 loses _ shown)
  | false =>
    refine apart (second.2 loses decodes _ ?_)
    rw [indexedCycle_persist]
    exact if_pos rfl

end CatalystNode
