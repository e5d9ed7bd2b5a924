import CatalystNode.Eviction
import CatalystNode.WireTransactions
import CatalystNode.SelectionValue

namespace CatalystNode

open ByteVector HexCodec FoldTrace Eviction

structure TxGossip where
  txId : Hash
  entries : List TransactionEntry
  createdAtMs : UInt64
  deriving DecidableEq

/-- A received message may name any id. -/
structure ProtocolTxGossip where
  txId : Hash
  tx : Transaction
  receivedAtMs : UInt64
  deriving DecidableEq

def ProtocolTxGossip.validateBasic (g : ProtocolTxGossip) (nowSecs : UInt64) :
    Except String Unit :=
  match g.tx.validateBasic with
  | .error e => .error e
  | .ok () =>
    if g.tx.core.nonce = 0 then .error "Transaction nonce must be > 0"
    else if g.tx.core.fees < minFee g.tx then
      .error s!"Transaction fee too low: fees={g.tx.core.fees} min_required={minFee g.tx}"
    else if nowSecs < g.tx.core.lockTime.toUInt64 then
      .error s!"Transaction not yet unlocked: lock_time={g.tx.core.lockTime} now={nowSecs}"
    else .ok ()

structure MempoolItem where
  entries : List TransactionEntry
  senderPubkey : Option PublicKey
  nonce : Option UInt64
  protocolTx : Option Transaction
  insertedAt : Nat

/-- Times are readings of a monotonic clock. -/
structure Mempool where
  byId : Std.ExtTreeMap Hash MempoolItem
  ttl : Nat
  maxTxs : Nat
  maxPerSender : Nat
  dropsFull : UInt64
  dropsPerSender : UInt64

namespace Mempool

def new (ttl maxTxs : Nat) (maxPerSender : Option Nat) : Mempool where
  byId := ∅
  ttl
  maxTxs := max maxTxs 1
  maxPerSender := max (maxPerSender.getD 64) 1
  dropsFull := 0
  dropsPerSender := 0

def evictExpired (pool : Mempool) (now : Nat) : Mempool :=
  { pool with byId := pool.byId.filter (fun _ item => now - item.insertedAt ≤ pool.ttl) }

def insert (pool : Mempool) (tx : TxGossip) (now : Nat) : Mempool × Bool :=
  let pool := pool.evictExpired now
  if pool.maxTxs ≤ pool.byId.size then (pool, false)
  else if tx.txId ∈ pool.byId then (pool, false)
  else ({ pool with byId := pool.byId.insert tx.txId ⟨tx.entries, none, none, none, now⟩ }, true)

def countOf (pool : Mempool) (sender : PublicKey) : Nat :=
  pool.byId.toList.countP (fun item => item.2.senderPubkey = some sender)

def insertProtocol (env : TxEnv) (pool : Mempool) (g : ProtocolTxGossip) (nowSecs : UInt64)
    (now : Nat) : Mempool × Bool :=
  if g.validateBasic nowSecs ≠ .ok () then (pool, false)
  else
    let pool := pool.evictExpired now
    if pool.maxTxs ≤ pool.byId.size then
      ({ pool with dropsFull := MachineInt.saturatingAddU64 pool.dropsFull 1 }, false)
    else if g.txId ∈ pool.byId then (pool, false)
    else if (txSenderPubkey g.tx).any (fun sender => pool.maxPerSender ≤ pool.countOf sender) then
      ({ pool with dropsPerSender := MachineInt.saturatingAddU64 pool.dropsPerSender 1 }, false)
    else
      ({ pool with byId := pool.byId.insert g.txId ⟨txToConsensusEntries env g.tx,
          txSenderPubkey g.tx, some g.tx.core.nonce, some g.tx, now⟩ }, true)

/-- Empties the pool; the items are listed in the order the hash map happens to have. -/
def freezeAndDrainEntries (pool : Mempool) (maxEntries : Nat) (rank : Hash → Nat) (now : Nat) :
    Mempool × List TransactionEntry :=
  let pool := pool.evictExpired now
  ({ pool with byId := ∅ },
    ((listing rank pool.byId).flatMap (fun item => item.2.entries)).take maxEntries)

def snapshotStep (maxTxs : Nat) (out : List Transaction) (item : Hash × MempoolItem) :
    List Transaction :=
  if maxTxs ≤ out.length then out
  else match item.2.protocolTx with
    | none => out
    | some tx => out ++ [tx]

def snapshotProtocolTxs (pool : Mempool) (maxTxs now : Nat) : Mempool × List Transaction :=
  let pool := pool.evictExpired now
  (pool, pool.byId.toList.foldl (snapshotStep maxTxs) [])

end Mempool

inductive MempoolOp where
  | insert (tx : TxGossip)
  | insertProtocol (g : ProtocolTxGossip) (nowSecs : UInt64)
  | evictExpired
  | freezeAndDrainEntries (maxEntries : Nat) (rank : Hash → Nat)
  | snapshotProtocolTxs (maxTxs : Nat)

structure MempoolCall where
  op : MempoolOp
  now : Nat

def Mempool.step (env : TxEnv) (pool : Mempool) (call : MempoolCall) : Mempool :=
  match call.op with
  | .insert tx => (pool.insert tx call.now).1
  | .insertProtocol g nowSecs => (pool.insertProtocol env g nowSecs call.now).1
  | .evictExpired => pool.evictExpired call.now
  | .freezeAndDrainEntries maxEntries rank => (pool.freezeAndDrainEntries maxEntries rank call.now).1
  | .snapshotProtocolTxs maxTxs => (pool.snapshotProtocolTxs maxTxs call.now).1

/-- Whether a message will be taken in: it is valid, there is room, its id is free and its sender is
below the limit. -/
def Mempool.admits (pool : Mempool) (g : ProtocolTxGossip) (nowSecs : UInt64) (now : Nat) : Bool :=
  let evicted := pool.evictExpired now
  g.validateBasic nowSecs = .ok () ∧ evicted.byId.size < evicted.maxTxs ∧ g.txId ∉ evicted.byId ∧
    (txSenderPubkey g.tx).all (fun sender => evicted.countOf sender < evicted.maxPerSender)

section Items

variable {κ α : Type} [LinearOrder κ] [Std.LawfulEqOrd κ]

theorem nodup_toList (m : Std.ExtTreeMap κ α) : m.toList.Nodup :=
  m.distinct_keys_toList.imp (fun apart same => apart (by rw [same]; exact Std.ReflOrd.compare_self))

theorem toList_insert_perm {m : Std.ExtTreeMap κ α} {k : κ} (fresh : k ∉ m) (v : α) :
    (m.insert k v).toList.Perm ((k, v) :: m.toList) := by
  have unlisted : (k, v) ∉ m.toList := by
    intro listed
    have present := Std.ExtTreeMap.mem_toList_iff_getElem?_eq_some.mp listed
    exact fresh (Std.ExtTreeMap.mem_iff_isSome_getElem?.mpr (by rw [present]; rfl))
  refine (List.perm_ext_iff_of_nodup (nodup_toList _)
    (List.nodup_cons.mpr ⟨unlisted, nodup_toList m⟩)).mpr ?_
  rintro ⟨k', v'⟩
  rw [Std.ExtTreeMap.mem_toList_iff_getElem?_eq_some, List.mem_cons,
    Std.ExtTreeMap.mem_toList_iff_getElem?_eq_some, Std.ExtTreeMap.getElem?_insert]
  by_cases same : k = k'
  · subst same
    have absent : m[k]? = none := Std.ExtTreeMap.getElem?_eq_none fresh
    simp [absent, eq_comm]
  · simp [same, Ne.symm same]

end Items

namespace Mempool

variable {env : TxEnv} {pool : Mempool}

def protocolCount (pool : Mempool) (sender : PublicKey) : Nat :=
  pool.byId.toList.countP (fun item => item.2.protocolTx.bind txSenderPubkey = some sender)

/-- The limits, with the items' own record of their senders, on which the limits rest. -/
structure Bounded (pool : Mempool) : Prop where
  size : pool.byId.size ≤ pool.maxTxs
  perSender : ∀ sender, pool.countOf sender ≤ pool.maxPerSender
  attributed : ∀ item ∈ pool.byId.toList, item.2.protocolTx.bind txSenderPubkey =
    item.2.senderPubkey

theorem Bounded.protocolCount_le (bounded : pool.Bounded) (sender : PublicKey) :
    pool.protocolCount sender ≤ pool.maxPerSender := by
  refine le_trans (le_of_eq ?_) (bounded.perSender sender)
  refine List.countP_congr (fun item listed => ?_)
  rw [bounded.attributed item listed]

theorem Bounded.of_empty (empty : pool.byId = ∅) : pool.Bounded := by
  have none : (∅ : Std.ExtTreeMap Hash MempoolItem).toList = [] := rfl
  refine ⟨?_, ?_, ?_⟩
  · simp [empty]
  · intro sender
    rw [countOf, empty, none]
    exact Nat.zero_le _
  · simp [empty]

theorem Bounded.evictExpired (bounded : pool.Bounded) (now : Nat) :
    (pool.evictExpired now).Bounded := by
  have kept : (pool.evictExpired now).byId.toList.Sublist pool.byId.toList := by
    rw [Mempool.evictExpired, Std.ExtTreeMap.toList_filter]
    exact List.filter_sublist
  refine ⟨?_, ?_, ?_⟩
  · exact Std.ExtTreeMap.size_filter_le_size.trans bounded.size
  · exact fun sender => kept.countP_le.trans (bounded.perSender sender)
  · exact fun item listed => bounded.attributed item (kept.subset listed)

theorem Bounded.insert_item (bounded : pool.Bounded) {t : Hash} {item : MempoolItem}
    (room : pool.byId.size < pool.maxTxs) (fresh : t ∉ pool.byId)
    (below : ∀ sender, item.senderPubkey = some sender → pool.countOf sender < pool.maxPerSender)
    (attributed : item.protocolTx.bind txSenderPubkey = item.senderPubkey) :
    ({ pool with byId := pool.byId.insert t item } : Mempool).Bounded := by
  have order := toList_insert_perm fresh item
  refine ⟨?_, ?_, ?_⟩
  · change (pool.byId.insert t item).size ≤ pool.maxTxs
    rw [Std.ExtTreeMap.size_insert, if_neg (by simpa using fresh)]
    exact room
  · intro sender
    change (pool.byId.insert t item).toList.countP _ ≤ pool.maxPerSender
    rw [order.countP_eq, List.countP_cons]
    split
    next own => exact below sender (of_decide_eq_true own)
    next => exact bounded.perSender sender
  · intro other listed
    rcases List.mem_cons.mp (order.mem_iff.mp listed) with rfl | before
    · exact attributed
    · exact bounded.attributed other before

theorem Bounded.insert (bounded : pool.Bounded) (tx : TxGossip) (now : Nat) :
    (pool.insert tx now).1.Bounded := by
  have evicted := bounded.evictExpired now
  unfold Mempool.insert
  dsimp only
  split
  next => exact evicted
  next room =>
    split
    next => exact evicted
    next fresh => exact evicted.insert_item (not_le.mp room) fresh (by simp) rfl

theorem admits_iff {g : ProtocolTxGossip} {nowSecs : UInt64} {now : Nat} :
    pool.admits g nowSecs now = true ↔
      g.validateBasic nowSecs = .ok () ∧
        (pool.evictExpired now).byId.size < (pool.evictExpired now).maxTxs ∧
        g.txId ∉ (pool.evictExpired now).byId ∧
        ∀ sender, txSenderPubkey g.tx = some sender →
          (pool.evictExpired now).countOf sender < (pool.evictExpired now).maxPerSender := by
  rw [admits, decide_eq_true_eq]
  simp [Option.all_eq_true]

/-- What a protocol message does to the pool: nothing but evictions unless it is admitted. -/
theorem insertProtocol_cases (env : TxEnv) (pool : Mempool) (g : ProtocolTxGossip)
    (nowSecs : UInt64) (now : Nat) :
    (pool.admits g nowSecs now = true ∧
      (pool.insertProtocol env g nowSecs now).1 =
        { pool.evictExpired now with
          byId := (pool.evictExpired now).byId.insert g.txId ⟨txToConsensusEntries env g.tx,
            txSenderPubkey g.tx, some g.tx.core.nonce, some g.tx, now⟩ }) ∨
    (pool.admits g nowSecs now ≠ true ∧
      ((pool.insertProtocol env g nowSecs now).1 = pool ∨
        ∃ full perSender, (pool.insertProtocol env g nowSecs now).1 =
          { pool.evictExpired now with dropsFull := full, dropsPerSender := perSender })) := by
  rw [Ne, admits_iff]
  unfold insertProtocol
  dsimp only
  split
  next invalid => exact Or.inr ⟨fun admitted => invalid admitted.1, Or.inl rfl⟩
  next valid =>
    split
    next full => exact Or.inr ⟨fun admitted => absurd admitted.2.1 (not_lt.mpr full),
      Or.inr ⟨_, _, rfl⟩⟩
    next room =>
      split
      next taken => exact Or.inr ⟨fun admitted => admitted.2.2.1 taken, Or.inr ⟨_, _, rfl⟩⟩
      next fresh =>
        split
        next crowded =>
          obtain ⟨sender, known, many⟩ := (Option.any_eq_true ..).mp crowded
          exact Or.inr ⟨fun admitted => absurd (admitted.2.2.2 sender known)
            (not_lt.mpr (of_decide_eq_true many)), Or.inr ⟨_, _, rfl⟩⟩
        next below =>
          refine Or.inl ⟨⟨not_not.mp valid, not_le.mp room, fresh, ?_⟩, rfl⟩
          intro sender known
          by_contra many
          exact below ((Option.any_eq_true ..).mpr
            ⟨sender, known, decide_eq_true (not_lt.mp many)⟩)

theorem Bounded.insertProtocol (bounded : pool.Bounded) (g : ProtocolTxGossip) (nowSecs : UInt64)
    (now : Nat) : (pool.insertProtocol env g nowSecs now).1.Bounded := by
  have evicted := bounded.evictExpired now
  rcases insertProtocol_cases env pool g nowSecs now with
    ⟨admitted, after⟩ | ⟨-, after | ⟨full, perSender, after⟩⟩
  · obtain ⟨-, room, fresh, below⟩ := admits_iff.mp admitted
    rw [after]
    exact evicted.insert_item room fresh below rfl
  · rw [after]
    exact bounded
  · rw [after]
    exact ⟨evicted.size, evicted.perSender, evicted.attributed⟩

theorem Bounded.step (bounded : pool.Bounded) (call : MempoolCall) :
    (pool.step env call).Bounded := by
  unfold Mempool.step
  cases call.op with
  | insert tx => exact bounded.insert tx call.now
  | insertProtocol g nowSecs => exact bounded.insertProtocol g nowSecs call.now
  | evictExpired => exact bounded.evictExpired call.now
  | freezeAndDrainEntries maxEntries rank => exact .of_empty rfl
  | snapshotProtocolTxs maxTxs => exact bounded.evictExpired call.now

theorem bounded_run (env : TxEnv) (ttl maxTxs : Nat) (maxPerSender : Option Nat)
    (calls : List MempoolCall) :
    (calls.foldl (Mempool.step env) (Mempool.new ttl maxTxs maxPerSender)).Bounded :=
  foldl_invariant (P := Bounded) (.of_empty rfl)
    (fun _ call _ bounded => bounded.step call)

def Honest (env : TxEnv) (pool : Mempool) : Prop :=
  ∀ (t : Hash) item tx, pool.byId[t]? = some item → item.protocolTx = some tx →
    t = txIdV2 env.blake2b512 tx

theorem getElem?_evictExpired {t : Hash} {item : MempoolItem} {now : Nat}
    (held : (pool.evictExpired now).byId[t]? = some item) : pool.byId[t]? = some item := by
  rw [Mempool.evictExpired, Std.ExtTreeMap.getElem?_filter'] at held
  exact (Option.filter_eq_some_iff.mp held).1

theorem Honest.evictExpired (honest : pool.Honest env) (now : Nat) :
    (pool.evictExpired now).Honest env :=
  fun t item tx held => honest t item tx (getElem?_evictExpired held)

/-- The condition on one operation: a message that is admitted names its transaction's own id. -/
def HonestAdmission (env : TxEnv) (pool : Mempool) (call : MempoolCall) : Prop :=
  match call.op with
  | .insertProtocol g nowSecs =>
    pool.admits g nowSecs call.now = true → g.txId = txIdV2 env.blake2b512 g.tx
  | _ => True

theorem honest_insertProtocol_iff (honest : pool.Honest env) (g : ProtocolTxGossip)
    (nowSecs : UInt64) (now : Nat) :
    (pool.insertProtocol env g nowSecs now).1.Honest env ↔
      (pool.admits g nowSecs now = true → g.txId = txIdV2 env.blake2b512 g.tx) := by
  have evicted := honest.evictExpired now
  rcases insertProtocol_cases env pool g nowSecs now with
    ⟨admitted, after⟩ | ⟨refused, after | ⟨full, perSender, after⟩⟩
  · rw [after]
    constructor
    · exact fun promised _ => promised g.txId _ g.tx (Std.ExtTreeMap.getElem?_insert_self) rfl
    · intro own t item tx held protocol
      replace held : ((pool.evictExpired now).byId.insert g.txId _)[t]? = some item := held
      rw [Std.ExtTreeMap.getElem?_insert] at held
      split at held
      next same =>
        cases Option.some.inj held
        rw [← Option.some.inj protocol, ← compare_eq_iff_eq.mp same]
        exact own admitted
      next => exact evicted t item tx held protocol
  · rw [after]
    exact ⟨fun _ admitted => absurd admitted refused, fun _ => honest⟩
  · rw [after]
    exact ⟨fun _ admitted => absurd admitted refused, fun _ => evicted⟩

theorem Honest.insert (honest : pool.Honest env) (tx : TxGossip) (now : Nat) :
    (pool.insert tx now).1.Honest env := by
  have evicted := honest.evictExpired now
  unfold Mempool.insert
  dsimp only
  split
  next => exact evicted
  next =>
    split
    next => exact evicted
    next =>
      intro t item tx' held protocol
      replace held : ((pool.evictExpired now).byId.insert tx.txId _)[t]? = some item := held
      rw [Std.ExtTreeMap.getElem?_insert] at held
      split at held
      next =>
        cases Option.some.inj held
        simp at protocol
      next => exact evicted t item tx' held protocol

theorem honest_step_iff (honest : pool.Honest env) (call : MempoolCall) :
    (pool.step env call).Honest env ↔ HonestAdmission env pool call := by
  unfold Mempool.step HonestAdmission
  cases call.op with
  | insert tx => exact iff_of_true (honest.insert tx call.now) trivial
  | insertProtocol g nowSecs => exact honest_insertProtocol_iff honest g nowSecs call.now
  | evictExpired => exact iff_of_true (honest.evictExpired call.now) trivial
  | freezeAndDrainEntries maxEntries rank =>
    refine iff_of_true (fun t item tx held _ => ?_) trivial
    simp [freezeAndDrainEntries] at held
  | snapshotProtocolTxs maxTxs => exact iff_of_true (honest.evictExpired call.now) trivial

/-- A snapshot is the front of the protocol transactions in the order of ids. -/
theorem foldl_snapshotStep (maxTxs : Nat) (items : List (Hash × MempoolItem)) :
    items.foldl (snapshotStep maxTxs) [] =
      (items.filterMap (fun item => item.2.protocolTx)).take maxTxs := by
  induction items using List.reverseRecOn with
  | nil => simp
  | append_singleton items item ih =>
    rw [List.foldl_append, List.foldl_cons, List.foldl_nil, ih, List.filterMap_append,
      snapshotStep]
    generalize items.filterMap (fun item => item.2.protocolTx) = taken
    by_cases full : maxTxs ≤ taken.length
    · rw [if_pos (by rw [List.length_take]; omega), List.take_append_of_le_length full]
    · rw [if_neg (by rw [List.length_take]; omega), List.take_of_length_le (by omega)]
      cases protocol : item.2.protocolTx with
      | none => simp [protocol, List.take_of_length_le (not_le.mp full).le]
      | some tx =>
        have fits : (taken ++ [tx]).length ≤ maxTxs := by
          rw [List.length_append, List.length_singleton]
          omega
        simp [protocol, List.take_of_length_le fits]

def SnapshotsInOrder (pool : Mempool) : Prop :=
  ∀ maxTxs now, (pool.snapshotProtocolTxs maxTxs now).2.length ≤ maxTxs ∧
    ∃ held : List (Hash × Transaction), (pool.snapshotProtocolTxs maxTxs now).2 =
        held.map Prod.snd ∧ held.Pairwise (fun a b => a.1 < b.1) ∧
      ∀ h ∈ held, ∃ item, pool.byId[h.1]? = some item ∧ item.protocolTx = some h.2

theorem snapshotsInOrder (pool : Mempool) : pool.SnapshotsInOrder := by
  intro maxTxs now
  rw [snapshotProtocolTxs, foldl_snapshotStep]
  refine ⟨List.length_take_le _ _, ((pool.evictExpired now).byId.toList.filterMap
    (fun item => item.2.protocolTx.map (fun tx => (item.1, tx)))).take maxTxs, ?_, ?_, ?_⟩
  · rw [List.map_take, List.map_filterMap]
    simp
  · refine List.Pairwise.sublist (List.take_sublist _ _) ?_
    refine (Std.ExtTreeMap.ordered_keys_toList).filterMap _ ?_
    rintro a b order _ ha _ hb
    obtain ⟨_, -, rfl⟩ := Option.map_eq_some_iff.mp ha
    obtain ⟨_, -, rfl⟩ := Option.map_eq_some_iff.mp hb
    exact compare_lt_iff_lt.mp order
  · intro h taken
    obtain ⟨item, listed, named⟩ := List.mem_filterMap.mp (List.mem_of_mem_take taken)
    obtain ⟨tx, protocol, rfl⟩ := Option.map_eq_some_iff.mp named
    exact ⟨item.2, getElem?_evictExpired
      (Std.ExtTreeMap.mem_toList_iff_getElem?_eq_some.mp listed), protocol⟩

structure KeepsPromises (env : TxEnv) (pool : Mempool) : Prop where
  size : pool.byId.size ≤ pool.maxTxs
  perSender : ∀ sender, pool.protocolCount sender ≤ pool.maxPerSender
  honest : pool.Honest env
  snapshots : pool.SnapshotsInOrder

end Mempool

/-- A pool keeps its promises in every state it reaches exactly if every protocol message that is
admitted on the way names the id of its own transaction. Only the promise about ids is at stake. -/
theorem mempool_keepsPromises_iff (env : TxEnv) (ttl maxTxs : Nat) (maxPerSender : Option Nat)
    (calls : List MempoolCall) :
    (∀ before after, calls = before ++ after →
      (before.foldl (Mempool.step env) (Mempool.new ttl maxTxs maxPerSender)).KeepsPromises env) ↔
    ∀ s ∈ foldSteps (Mempool.step env) (Mempool.new ttl maxTxs maxPerSender) calls,
      Mempool.HonestAdmission env s.1 s.2 := by
  have start : (Mempool.new ttl maxTxs maxPerSender).Honest env := by
    intro t item tx held
    simp [Mempool.new] at held
  have honest := forall_reached_iff start
    (fun (s : Mempool × MempoolCall) (_ : s ∈ foldSteps (Mempool.step env) _ calls) reached =>
      Mempool.honest_step_iff reached s.2)
  refine Iff.trans ⟨?_, ?_⟩ honest
  · exact fun kept before after split => (kept before after split).honest
  · intro ids before after split
    have bounded := Mempool.bounded_run env ttl maxTxs maxPerSender before
    exact ⟨bounded.size, bounded.protocolCount_le, ids before after split,
      Mempool.snapshotsInOrder _⟩

/-- A valid transfer sent under the zero id is pooled under it. -/
theorem mempool_foreignId :
    (((Mempool.new 60 10 none).step sampleTxEnv ⟨.insertProtocol ⟨zeros 32, sampleWireTx, 0⟩ 100, 0⟩
        ).byId[zeros 32]?).bind MempoolItem.protocolTx = some sampleWireTx ∧
      zeros 32 ≠ txIdV2 sampleTxEnv.blake2b512 sampleWireTx := by
  decide +kernel

end CatalystNode
