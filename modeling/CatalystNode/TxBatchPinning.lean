import CatalystNode.TxBatchIngress
import CatalystNode.Reselection

namespace CatalystNode

open ByteVector HexCodec MachineInt FoldTrace

def FixedByCommit (env : TxBatchEnv) (cycle : UInt64) (commit : Hash × UInt32)
    (entries : List TransactionEntry) : Prop :=
  ∃ txs : List Transaction, txs.length = commit.2.toNat ∧
    (ProtocolTxBatch.new env cycle txs).map ProtocolTxBatch.batchHash = some commit.1 ∧
    entries = txs.flatMap (txToConsensusEntries env.tx)

def AcceptsCommit (env : TxBatchEnv) (cycle : UInt64) (commit : Hash × UInt32) (call : IngressCall) :
    Prop :=
  call.envelope.messageType = .transactionRequest ∧
    env.decodeTxBatchControl call.envelope.payload = some (.commit cycle commit.1 commit.2) ∧
    call.admits env cycle = true

def AcceptsTxBatch (env : TxBatchEnv) (cycle : UInt64) (call : IngressCall) : Prop :=
  call.envelope.messageType = .transactionBatch ∧
    env.decodeProtocolTxBatch call.envelope.payload = none ∧
    ∃ batch : TxBatch, deserialize call.envelope.payload = some batch ∧ batch.cycle = cycle ∧
      call.admits env cycle = true ∧ hashData env.tx.blake2b512 batch.entries = batch.batchHash

/-- What keeps a pinned batch in place: the cycle's commit is not replaced, no legacy batch arrives for
it, and a batch that agrees with the commit is selected again as a whole. -/
structure KeepsToCommit (env : TxBatchEnv) (cycle : UInt64) (commit : Hash × UInt32)
    (call : IngressCall) : Prop where
  sameCommit : ∀ other, AcceptsCommit env cycle other call → other = commit
  noTxBatch : ¬AcceptsTxBatch env cycle call
  reselected : ∀ batch store, env.decodeProtocolTxBatch call.envelope.payload = some batch →
    batch.cycle = cycle → protocolTxBatchDisagreesWithCommit batch commit = false →
    call.storage = some store →
    batch.txs.length < 2 ^ 32 ∧ revalidate env call store batch = batch.txs

structure PinnedTo (env : TxBatchEnv) (cycle : UInt64) (commit : Hash × UInt32)
    (state : TxBatchP2pState) : Prop where
  pinned : state.commitRam[cycle]? = some commit
  held : ∀ entries, state.txBatches[cycle]? = some entries → FixedByCommit env cycle commit entries

section Steps

variable {env : TxBatchEnv} {cycle : UInt64} {commit : Hash × UInt32} {state : TxBatchP2pState}
  {call : IngressCall}

theorem PinnedTo.insert_txBatches (before : PinnedTo env cycle commit state) {slot : UInt64}
    {entries : List TransactionEntry} (fixed : slot = cycle → FixedByCommit env cycle commit entries) :
    PinnedTo env cycle commit { state with txBatches := state.txBatches.insert slot entries } := by
  refine ⟨before.pinned, ?_⟩
  intro entries' held
  dsimp only at held
  rw [Std.ExtTreeMap.getElem?_insert] at held
  split at held
  next same =>
    cases held
    exact fixed (Std.LawfulEqCmp.compare_eq_iff_eq.mp same)
  next => exact before.held entries' held

theorem pinnedTo_ingestCommit (before : PinnedTo env cycle commit state) {slot : UInt64}
    {other : Hash × UInt32}
    (same : slot = cycle → call.admits env cycle = true → other = commit) :
    PinnedTo env cycle commit (ingestCommit env state call slot other).state := by
  unfold ingestCommit
  split
  next admitted =>
    refine ⟨?_, before.held⟩
    dsimp only
    rw [Std.ExtTreeMap.getElem?_insert]
    split
    next own =>
      cases Std.LawfulEqCmp.compare_eq_iff_eq.mp own
      rw [same rfl admitted]
    next => exact before.pinned
  next => exact before

/-- An accepted batch that agrees with the commit and survives the selection is what the commit
describes. -/
theorem fixedByCommit_of_verified {batch : ProtocolTxBatch} (own : batch.cycle = cycle)
    (verified : (batch.verifyHash env).getD false = true)
    (agrees : protocolTxBatchDisagreesWithCommit batch commit = false)
    (fits : batch.txs.length < 2 ^ 32) :
    FixedByCommit env cycle commit (batch.txs.flatMap (txToConsensusEntries env.tx)) := by
  subst own
  have same : batch.batchHash = commit.1 ∧ UInt32.ofNat batch.txs.length = commit.2 := by
    simpa [protocolTxBatchDisagreesWithCommit] using agrees
  refine ⟨batch.txs, ?_, ?_, rfl⟩
  · rw [← same.2, UInt32.toNat_ofNat', Nat.mod_eq_of_lt fits]
  · unfold ProtocolTxBatch.verifyHash at verified
    cases built : ProtocolTxBatch.new env batch.cycle batch.txs with
    | none => simp [built] at verified
    | some other =>
      have hash : other.batchHash = batch.batchHash := by simpa [built] using verified
      rw [Option.map_some, hash, same.1]

theorem pinnedTo_ingestProtocolBatch (before : PinnedTo env cycle commit state)
    {batch : ProtocolTxBatch}
    (reselected : ∀ store, batch.cycle = cycle →
      protocolTxBatchDisagreesWithCommit batch commit = false → call.storage = some store →
      batch.txs.length < 2 ^ 32 ∧ revalidate env call store batch = batch.txs) :
    PinnedTo env cycle commit (ingestProtocolBatch env state call batch).state := by
  unfold ingestProtocolBatch
  dsimp only
  split
  next => exact before
  next =>
    split
    next => exact before
    next verified =>
      rw [not_not] at verified
      split
      next => exact before
      next agrees =>
        cases stored : call.storage with
        | none => exact before
        | some store =>
          dsimp only
          split
          next => exact before
          next =>
            refine before.insert_txBatches ?_
            intro own
            have agrees' : protocolTxBatchDisagreesWithCommit batch commit = false := by
              rw [own, pinnedCommit, before.pinned] at agrees
              simpa using agrees
            obtain ⟨fits, whole⟩ := reselected store own agrees' stored
            rw [whole]
            exact fixedByCommit_of_verified own verified agrees' fits

/-- A batch is held for another cycle, or the call is one that accepts a legacy batch for this one. -/
theorem pinnedTo_ingestTxBatch (before : PinnedTo env cycle commit state) {batch : TxBatch}
    (refused : ¬(batch.cycle = cycle ∧ call.admits env cycle = true ∧
      hashData env.tx.blake2b512 batch.entries = batch.batchHash)) :
    PinnedTo env cycle commit (ingestTxBatch env state call batch).state := by
  unfold ingestTxBatch
  split
  next => exact before
  next admitted =>
    rw [not_not] at admitted
    split
    next hash =>
      refine before.insert_txBatches ?_
      intro own
      exact absurd ⟨own, own ▸ admitted, hash⟩ refused
    next => exact before

theorem pinnedTo_ingest (before : PinnedTo env cycle commit state)
    (keeps : KeepsToCommit env cycle commit call) :
    PinnedTo env cycle commit (ingestP2pTxBatchEnvelope env state call).state := by
  unfold ingestP2pTxBatchEnvelope
  cases kind : call.envelope.messageType with
  | transactionRequest =>
    cases control : env.decodeTxBatchControl call.envelope.payload with
    | none => exact before
    | some message =>
      cases message with
      | commit slot hash count =>
        refine pinnedTo_ingestCommit before ?_
        rintro rfl admitted
        exact keeps.sameCommit (hash, count) ⟨kind, control, admitted⟩
      | resyncRequest => exact before
  | transactionBatch =>
    cases protocol : env.decodeProtocolTxBatch call.envelope.payload with
    | some batch =>
      exact pinnedTo_ingestProtocolBatch before
        (fun store own agrees stored => keeps.reselected batch store protocol own agrees stored)
    | none =>
      cases legacy : (deserialize call.envelope.payload : Option TxBatch) with
      | none => simpa [legacy] using before
      | some batch =>
        refine pinnedTo_ingestTxBatch before ?_
        rintro ⟨own, admitted, hash⟩
        exact keeps.noTxBatch ⟨kind, protocol, batch, legacy, own, admitted, hash⟩
  | other => exact before

theorem pinnedTo_of_acceptsCommit (accepts : AcceptsCommit env cycle commit call)
    (held : ∀ entries, state.txBatches[cycle]? = some entries →
      FixedByCommit env cycle commit entries) :
    PinnedTo env cycle commit (ingestP2pTxBatchEnvelope env state call).state := by
  obtain ⟨kind, control, admitted⟩ := accepts
  unfold ingestP2pTxBatchEnvelope
  rw [kind, control]
  dsimp only [ingestCommit]
  rw [if_pos admitted]
  exact ⟨Std.ExtTreeMap.getElem?_insert_self, held⟩

end Steps

/-- After a commit has been accepted, every sequence of calls that keeps to it holds for the cycle only
entries of a list the commit describes. -/
theorem ingestAll_fixedByCommit (env : TxBatchEnv) (cycle : UInt64) (commit : Hash × UInt32)
    (state : TxBatchP2pState) (first : IngressCall) (accepts : AcceptsCommit env cycle commit first)
    (held : ∀ entries, state.txBatches[cycle]? = some entries →
      FixedByCommit env cycle commit entries)
    (calls : List IngressCall) (keeps : ∀ call ∈ calls, KeepsToCommit env cycle commit call) :
    ∀ done, done <+: calls → ∀ entries,
      (ingestAll env (ingestP2pTxBatchEnvelope env state first).state done).txBatches[cycle]? =
        some entries → FixedByCommit env cycle commit entries := by
  intro done hdone
  have start := pinnedTo_of_acceptsCommit accepts held
  have run : PinnedTo env cycle commit
      (ingestAll env (ingestP2pTxBatchEnvelope env state first).state done) := by
    refine foldl_invariant start ?_
    intro state' call hstep before
    exact pinnedTo_ingest before (keeps call (hdone.subset (mem_of_mem_foldSteps hstep)))
  exact run.held

/-- Stand-ins for the encodings: control messages as bincode lays them out, transactions in their wire
form. -/
def sampleBatchEnv : TxBatchEnv where
  tx := sampleTxEnv
  bincodeTxs txs := some (encodeU64 (UInt64.ofNat txs.length) ++ txs.flatMap serialize)
  decodeTxBatchControl payload := do
    let (tag, data) ← (deserializeFrom payload : Option (UInt32 × Bytes))
    let (cycle, data) ← deserializeFrom data
    let (batchHash, data) ← deserializeFrom data
    let (txCount, _) ← deserializeFrom data
    if tag = 0 then some (.commit cycle batchHash txCount) else none
  decodeProtocolTxBatch payload := do
    let (cycle, data) ← deserializeFrom payload
    let (batchHash, data) ← deserializeFrom data
    let (count, data) ← (deserializeFrom data : Option (UInt64 × Bytes))
    let (txs, _) ← readItems count.toNat data
    return ⟨cycle, batchHash, txs⟩
  encodeTxids txids := some (txids.flatMap (fun txid => txid.toList))
  decodeTxMeta _ := none
  encodeTxMeta txMeta := some txMeta.txId.toList
  maxCycleSlack := 3

def sampleCall (messageType : BatchMessageType) (payload : Bytes) : IngressCall where
  envelope := ⟨messageType, payload⟩
  nowMs := 7000
  gossipCycleMs := 1000
  storage := some sampleFunds
  maxEntries := 100
  timestampMs := 7000

def batchDigest (txs : List Transaction) : Hash :=
  ((sampleBatchEnv.bincodeTxs txs).map (blake2b512Trunc32 checksum)).getD (zeros 32)

def commitCall (txs : List Transaction) : IngressCall :=
  sampleCall .transactionRequest (serialize (0 : UInt32) ++ serialize (7 : UInt64) ++
    serialize (batchDigest txs) ++ serialize (UInt32.ofNat txs.length))

def protocolBatchCall (txs : List Transaction) : IngressCall :=
  sampleCall .transactionBatch (serialize (7 : UInt64) ++ serialize (batchDigest txs) ++
    encodeU64 (UInt64.ofNat txs.length) ++ txs.flatMap serialize)

def legacyBatchCall (entries : List TransactionEntry) : IngressCall :=
  sampleCall .transactionBatch (serialize (⟨7, hashData checksum entries, entries⟩ : TxBatch))

/-- The commit says that the cycle has no transactions; a legacy batch then puts an entry in it. -/
theorem ingestAll_legacy_batch :
    AcceptsCommit sampleBatchEnv 7 (batchDigest [], 0) (commitCall []) ∧
    (ingestAll sampleBatchEnv (ingestP2pTxBatchEnvelope sampleBatchEnv .new (commitCall [])).state
      [legacyBatchCall [⟨sampleAccount 1, 5, [9]⟩]]).txBatches[(7 : UInt64)]? =
        some [⟨sampleAccount 1, 5, [9]⟩] ∧
    ¬FixedByCommit sampleBatchEnv 7 (batchDigest [], 0) [⟨sampleAccount 1, 5, [9]⟩] := by
  refine ⟨⟨rfl, by decide +kernel, by decide⟩, by decide +kernel, ?_⟩
  rintro ⟨txs, count, -, entries⟩
  cases List.length_eq_zero_iff.mp count
  simp at entries

theorem ingestAll_fixedByCommit_transfer :
    (ingestAll sampleBatchEnv (ingestP2pTxBatchEnvelope sampleBatchEnv .new
      (commitCall [sampleTransfer 1 3 [(1, -1), (2, 1)]])).state
      [protocolBatchCall [sampleTransfer 1 3 [(1, -1), (2, 1)]]]).txBatches[(7 : UInt64)]? =
        some [⟨sampleAccount 1, -1, [9]⟩, ⟨sampleAccount 2, 1, [9]⟩, ⟨sampleAccount 1, -3, [9]⟩] ∧
    FixedByCommit sampleBatchEnv 7 (batchDigest [sampleTransfer 1 3 [(1, -1), (2, 1)]], 1)
      [⟨sampleAccount 1, -1, [9]⟩, ⟨sampleAccount 2, 1, [9]⟩, ⟨sampleAccount 1, -3, [9]⟩] := by
  refine (and_iff_left_of_imp fun held => ?_).mpr (by decide +kernel)
  refine ingestAll_fixedByCommit sampleBatchEnv 7 _ .new _ ⟨rfl, by decide +kernel, by decide⟩ ?_ _ ?_
    _ (List.prefix_refl _) _ held
  · intro entries empty
    simp [TxBatchP2pState.new] at empty
  · intro call hcall
    cases List.mem_singleton.mp hcall
    have decoded : sampleBatchEnv.decodeProtocolTxBatch
        (protocolBatchCall [sampleTransfer 1 3 [(1, -1), (2, 1)]]).envelope.payload =
        some ⟨7, batchDigest [sampleTransfer 1 3 [(1, -1), (2, 1)]],
          [sampleTransfer 1 3 [(1, -1), (2, 1)]]⟩ := by
      decide +kernel
    refine ⟨?_, ?_, ?_⟩
    · rintro other ⟨kind, -⟩
      cases kind
    · rintro ⟨-, legacy, -⟩
      rw [decoded] at legacy
      cases legacy
    · intro batch store found own agrees stored
      rw [decoded] at found
      cases found
      cases stored
      exact ⟨by decide, by decide +kernel⟩

end CatalystNode
