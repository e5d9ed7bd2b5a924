import CatalystNode.CycleHistory
import CatalystNode.ReconcileExactness

namespace CatalystNode

open ByteVector HexCodec MachineInt Store Effects FoldTrace

def prunedCycles (store : Store) (keepCycles batchCycles : UInt64) : List UInt64 :=
  let pruneUpTo := saturatingSubU64 (saturatingSubU64 (lastAppliedCycle store) keepCycles) 1
  let start := ((prunedUpToCycle store).map (saturatingAddU64 · 1)).getD 0
  if keepCycles = 0 ∨ pruneUpTo = 0 ∨ pruneUpTo < start then []
  else cyclesThrough start (min pruneUpTo (saturatingAddU64 start (saturatingSubU64 batchCycles 1)))

section Receipts

variable {env : DatabaseEnv} {store : Store}

theorem encodeString_inj {a b : Hash} (same : encodeString a.toList = encodeString b.toList) : a = b := by
  have bytes := congrArg utf8 same
  rw [utf8_encodeString, utf8_encodeString] at bytes
  have decoded := congrArg decode bytes
  rw [decode_encode, decode_encode, Option.some.injEq] at decoded
  exact List.Vector.toList_injective decoded

def cycleRecordTags : List String :=
  ["consensus:lsu:", "consensus:lsu_hash:", "consensus:lsu_cid:", "consensus:lsu_state_root:",
    "consensus:tx_batch_commit:"]

theorem tagged_mem_deletedKeys {tag rest : String} {cycle : UInt64} (listed : tag ∈ prunedTags) :
    tag ++ rest ∈ deletedKeys env store cycle ↔
      (∃ txid ∈ loadCycleTxids env.toApplyEnv store cycle,
        (tag = "tx:raw:" ∨ tag = "tx:meta:") ∧ rest = encodeString txid.toList) ∨
      (tag = "tx:cycle:" ∧ rest = toString cycle ++ ":txids") ∨
      (tag ∈ cycleRecordTags ∧ rest = toString cycle) ∨
      ∃ h, (store.getMetadata (lsuHashKey cycle)).bind (toArray? 32) = some h ∧
        tag = "consensus:cycle_by_lsu_hash:" ∧ rest = encodeString h.toList := by
  have tagged : ∀ {tag' rest' : String}, tag' ∈ prunedTags →
      (tag ++ rest = tag' ++ rest' ↔ tag = tag' ∧ rest = rest') := by
    intro tag' rest' listed'
    constructor
    · exact tagged_inj (by decide) listed listed'
    · rintro ⟨rfl, rfl⟩
      rfl
  have keys : tag ++ rest ∈ prunedKeys cycle ↔ tag ∈ cycleRecordTags ∧ rest = toString cycle := by
    have shape : prunedKeys cycle = cycleRecordTags.map (· ++ toString cycle) := rfl
    rw [shape, List.mem_map]
    constructor
    · rintro ⟨tag', own, same⟩
      have inside : tag' ∈ prunedTags := (by decide : cycleRecordTags ⊆ prunedTags) own
      obtain ⟨rfl, digits⟩ := (tagged inside).mp same.symm
      exact ⟨own, digits⟩
    · rintro ⟨own, rfl⟩
      exact ⟨tag, own, rfl⟩
  have raw : ∀ txid, tag ++ rest = txRawKey txid ↔ tag = "tx:raw:" ∧ rest = encodeString txid.toList :=
    fun txid => tagged (by decide)
  have receipt : ∀ txid, tag ++ rest = txMetaKey txid ↔
      tag = "tx:meta:" ∧ rest = encodeString txid.toList := fun txid => tagged (by decide)
  have index : ∀ h, cycleByLsuHashKey h = tag ++ rest ↔
      tag = "consensus:cycle_by_lsu_hash:" ∧ rest = encodeString h.toList := fun h =>
    eq_comm.trans (tagged (by decide))
  rw [mem_deletedKeys, keys, cycleTxidsKey_eq, tagged (by decide)]
  simp only [raw, receipt, index, or_and_right]

theorem receipt_mem_deletedKeys {tag : String} {cycle : UInt64} {txid : Hash}
    (receipt : tag = "tx:raw:" ∨ tag = "tx:meta:") :
    tag ++ encodeString txid.toList ∈ deletedKeys env store cycle ↔
      txid ∈ loadCycleTxids env.toApplyEnv store cycle := by
  have listed : tag ∈ prunedTags := by
    rcases receipt with rfl | rfl <;> decide
  have other : tag ≠ "tx:cycle:" ∧ tag ∉ cycleRecordTags ∧ tag ≠ "consensus:cycle_by_lsu_hash:" := by
    rcases receipt with rfl | rfl <;> decide
  rw [tagged_mem_deletedKeys listed]
  simp only [other, receipt, false_and, and_false, exists_false, or_false, true_and]
  constructor
  · rintro ⟨listed, inside, same⟩
    exact encodeString_inj same ▸ inside
  · intro inside
    exact ⟨txid, inside, rfl⟩

theorem loadCycleTxids_pruneCycle (env : DatabaseEnv) (store : Store) (pruned cycle : UInt64) :
    loadCycleTxids env.toApplyEnv (pruneCycle env store pruned) cycle =
      if cycle = pruned then [] else loadCycleTxids env.toApplyEnv store cycle := by
  have listed : cycleTxidsKey cycle ∈ deletedKeys env store pruned ↔ cycle = pruned := by
    rw [cycleTxidsKey_eq, tagged_mem_deletedKeys (by decide)]
    constructor
    · rintro (⟨-, -, raw | receipt, -⟩ | ⟨-, same⟩ | ⟨own, -⟩ | ⟨-, -, index, -⟩)
      · exact absurd raw (by decide)
      · exact absurd receipt (by decide)
      · have digits := (String.append_left_inj ":txids").mp same
        exact UInt64.toNat_inj.mp (Nat.repr_inj.mp digits)
      · exact absurd own (by decide)
      · exact absurd index (by decide)
    · rintro rfl
      exact .inr (.inl ⟨rfl, rfl⟩)
  unfold loadCycleTxids
  rw [getMetadata_pruneCycle, if_congr listed rfl rfl]
  split <;> rfl

theorem getMetadata_receipt_foldl {tag : String} (receipt : tag = "tx:raw:" ∨ tag = "tx:meta:")
    (cycles : List UInt64) (store : Store) (txid : Hash) :
    (cycles.foldl (pruneCycle env) store).getMetadata (tag ++ encodeString txid.toList) =
      if ∃ cycle ∈ cycles, txid ∈ loadCycleTxids env.toApplyEnv store cycle then none
      else store.getMetadata (tag ++ encodeString txid.toList) := by
  induction cycles generalizing store with
  | nil => simp
  | cons pruned cycles ih =>
    rw [List.foldl_cons, ih, getMetadata_pruneCycle]
    simp only [receipt_mem_deletedKeys receipt, loadCycleTxids_pruneCycle, List.exists_mem_cons_iff]
    by_cases here : txid ∈ loadCycleTxids env.toApplyEnv store pruned
    · simp [here]
    · have later : ∀ cycle ∈ cycles, (txid ∈ if cycle = pruned then [] else
          loadCycleTxids env.toApplyEnv store cycle) ↔
            txid ∈ loadCycleTxids env.toApplyEnv store cycle := by
        intro cycle _
        split
        next same => simp [same, here]
        next => rfl
      rw [if_neg here]
      refine if_congr ?_ rfl rfl
      rw [or_iff_right here]
      exact exists_congr (fun cycle => and_congr_right (later cycle))

theorem getMetadata_pruneOnce (env : DatabaseEnv) (store : Store) (keepCycles batchCycles : UInt64)
    {name : String} (other : name ≠ "storage:history_pruned_up_to_cycle") :
    (pruneOnce env store keepCycles batchCycles).getMetadata name =
      ((prunedCycles store keepCycles batchCycles).foldl (pruneCycle env) store).getMetadata name := by
  unfold pruneOnce prunedCycles
  dsimp only
  split
  next => rfl
  next => exact getMetadata_setMetadata_of_ne _ _ (Ne.symm other)

theorem getMetadata_receipt_pruneOnce (env : DatabaseEnv) (store : Store)
    (keepCycles batchCycles : UInt64) {tag : String} (receipt : tag = "tx:raw:" ∨ tag = "tx:meta:")
    (txid : Hash) :
    (pruneOnce env store keepCycles batchCycles).getMetadata (tag ++ encodeString txid.toList) =
      if ∃ cycle ∈ prunedCycles store keepCycles batchCycles,
        txid ∈ loadCycleTxids env.toApplyEnv store cycle then none
      else store.getMetadata (tag ++ encodeString txid.toList) := by
  have other : tag ++ encodeString txid.toList ≠ "storage:history_pruned_up_to_cycle" := by
    intro same
    have under : UnderTag ["tx:"] (tag ++ encodeString txid.toList) := by
      rcases receipt with rfl | rfl
      all_goals exact ⟨"tx:", by decide, by
        rw [String.toList_append]
        exact List.IsPrefix.trans (by decide) (List.prefix_append _ _)⟩
    rw [same] at under
    exact absurd under (by decide)
  rw [getMetadata_pruneOnce env store _ _ other, getMetadata_receipt_foldl receipt]

end Receipts

/-- A pruning call leaves the records of the transactions of a kept cycle alone, exactly if those that
a pruned cycle lists as well have none. -/
theorem pruneOnce_keeps_receipts_iff (env : DatabaseEnv) (store : Store)
    (keepCycles batchCycles : UInt64) :
    (∀ kept, kept ∉ prunedCycles store keepCycles batchCycles →
      ∀ txid ∈ loadCycleTxids env.toApplyEnv store kept,
        (pruneOnce env store keepCycles batchCycles).getMetadata (txRawKey txid) =
            store.getMetadata (txRawKey txid) ∧
          (pruneOnce env store keepCycles batchCycles).getMetadata (txMetaKey txid) =
            store.getMetadata (txMetaKey txid)) ↔
      ∀ kept, kept ∉ prunedCycles store keepCycles batchCycles →
        ∀ txid ∈ loadCycleTxids env.toApplyEnv store kept,
          (∃ pruned ∈ prunedCycles store keepCycles batchCycles,
            txid ∈ loadCycleTxids env.toApplyEnv store pruned) →
          store.getMetadata (txRawKey txid) = none ∧ store.getMetadata (txMetaKey txid) = none := by
  have raw := fun txid : Hash =>
    getMetadata_receipt_pruneOnce env store keepCycles batchCycles (.inl rfl) txid
  have receipt := fun txid : Hash =>
    getMetadata_receipt_pruneOnce env store keepCycles batchCycles (.inr rfl) txid
  refine forall_congr' (fun kept => forall_congr' (fun _ => forall_congr' (fun txid =>
    forall_congr' (fun _ => ?_))))
  rw [txRawKey, txMetaKey, raw, receipt]
  by_cases twice : ∃ pruned ∈ prunedCycles store keepCycles batchCycles,
      txid ∈ loadCycleTxids env.toApplyEnv store pruned
  · rw [if_pos twice, if_pos twice]
    simp only [twice, true_implies, @eq_comm _ none]
  · simp only [twice, if_false, and_self, false_implies]

def sampleListed : Store :=
  (((Store.empty.setMetadata "consensus:last_applied_cycle" (encodeU64 10)).setMetadata
    (cycleTxidsKey 3) [1]).setMetadata (cycleTxidsKey 10) [1]).setMetadata (txRawKey (zeros 32)) [7]

def sampleListingEnv : DatabaseEnv :=
  { sampleDatabaseEnv with decodeTxids := fun _ => some [zeros 32] }

/-- Pruning cycle 3 deletes the transaction that cycle 10 lists too. -/
theorem pruneOnce_receipt_lost :
    10 ∉ prunedCycles sampleListed 1 100 ∧
    zeros 32 ∈ loadCycleTxids sampleListingEnv.toApplyEnv sampleListed 10 ∧
    sampleListed.getMetadata (txRawKey (zeros 32)) = some [7] ∧
    (pruneOnce sampleListingEnv sampleListed 1 100).getMetadata (txRawKey (zeros 32)) = none := by
  decide +kernel

section Window

variable {env : DatabaseEnv} {store : Store} {keepCycles batchCycles : UInt64}

def nextToPrune (store : Store) : Nat := ((prunedUpToCycle store).map (·.toNat + 1)).getD 0

/-- There is something to prune: a cycle after the first, not pruned before, with more than the kept
number of cycles above it. -/
def LeftToPrune (keepCycles : UInt64) (store : Store) : Prop :=
  ∃ cycle : UInt64, 0 < cycle ∧ nextToPrune store ≤ cycle.toNat ∧
    cycle.toNat + keepCycles.toNat < (lastAppliedCycle store).toNat

/-- A pruning call that has something to prune takes the cycles from the next one on, up to one that
has more than the kept number of cycles above it. -/
theorem pruneOnce_cases (env : DatabaseEnv) (store : Store) (batchCycles : UInt64)
    (keeping : 1 ≤ keepCycles) :
    (¬LeftToPrune keepCycles store ∧ pruneOnce env store keepCycles batchCycles = store) ∨
      LeftToPrune keepCycles store ∧ ∃ first last : UInt64,
        first.toNat = nextToPrune store ∧ first ≤ last ∧
        last.toNat + keepCycles.toNat < (lastAppliedCycle store).toNat ∧
        pruneOnce env store keepCycles batchCycles =
          ((cyclesThrough first last).foldl (pruneCycle env) store).setMetadata
            "storage:history_pruned_up_to_cycle" (encodeU64 last) := by
  let pruneUpTo := saturatingSubU64 (saturatingSubU64 (lastAppliedCycle store) keepCycles) 1
  let start := ((prunedUpToCycle store).map (saturatingAddU64 · 1)).getD 0
  have upTo : pruneUpTo.toNat = (lastAppliedCycle store).toNat - keepCycles.toNat - 1 := by
    rw [toNat_saturatingSubU64, toNat_saturatingSubU64]
    rfl
  have first : start.toNat = min (nextToPrune store) (2 ^ 64 - 1) := by
    unfold start nextToPrune
    cases prunedUpToCycle store with
    | none => rfl
    | some marker =>
      have sum := toNat_saturatingAddU64 marker 1
      have one : (1 : UInt64).toNat = 1 := rfl
      rw [one, Nat.min_comm] at sum
      exact sum
  have bound := (lastAppliedCycle store).toNat_lt
  have some : 1 ≤ keepCycles.toNat := keeping
  have left : LeftToPrune keepCycles store ↔ ¬(keepCycles = 0 ∨ pruneUpTo = 0 ∨ pruneUpTo < start) := by
    have zero : ∀ x : UInt64, x = 0 ↔ x.toNat = 0 := fun x => UInt64.toNat_inj.symm
    rw [zero, zero, UInt64.lt_iff_toNat_lt, first, upTo]
    constructor
    · rintro ⟨cycle, positive, unpruned, old⟩
      rw [UInt64.lt_iff_toNat_lt] at positive
      have none : (0 : UInt64).toNat = 0 := rfl
      omega
    · intro due
      refine ⟨pruneUpTo, UInt64.lt_iff_toNat_lt.mpr ?_, ?_, ?_⟩
      · rw [upTo]
        have none : (0 : UInt64).toNat = 0 := rfl
        omega
      · omega
      · omega
  by_cases due : keepCycles = 0 ∨ pruneUpTo = 0 ∨ pruneUpTo < start
  · exact .inl ⟨fun some => left.mp some due, if_pos due⟩
  · have batch := toNat_saturatingAddU64 start (saturatingSubU64 batchCycles 1)
    have reach : ¬pruneUpTo < start := fun below => due (.inr (.inr below))
    have above : pruneUpTo ≠ 0 := fun none => due (.inr (.inl none))
    have above' : pruneUpTo.toNat ≠ 0 := fun none => above (UInt64.toNat_inj.mp none)
    rw [UInt64.lt_iff_toNat_lt, upTo] at reach
    refine .inr ⟨left.mpr due, start, min pruneUpTo (saturatingAddU64 start
      (saturatingSubU64 batchCycles 1)), ?_, ?_, ?_, if_neg due⟩
    · omega
    · rw [UInt64.le_iff_toNat_le, toNat_min, batch, upTo]
      omega
    · rw [toNat_min, upTo]
      omega

theorem cycleRecord_mem_deletedKeys {tag : String} (record : tag ∈ cycleRecordTags)
    {pruned cycle : UInt64} :
    tag ++ toString cycle ∈ deletedKeys env store pruned ↔ cycle = pruned := by
  have listed : tag ∈ prunedTags := (by decide : cycleRecordTags ⊆ prunedTags) record
  rw [tagged_mem_deletedKeys listed]
  constructor
  · rintro (⟨-, -, rfl | rfl, -⟩ | ⟨rfl, -⟩ | ⟨-, digits⟩ | ⟨-, -, rfl, -⟩)
    · exact absurd record (by decide)
    · exact absurd record (by decide)
    · exact absurd record (by decide)
    · exact UInt64.toNat_inj.mp (Nat.repr_inj.mp digits)
    · exact absurd record (by decide)
  · rintro rfl
    exact .inr (.inr (.inl ⟨record, rfl⟩))

theorem getMetadata_cycleRecord_foldl {tag : String} (record : tag ∈ cycleRecordTags)
    (cycles : List UInt64) (store : Store) (cycle : UInt64) :
    (cycles.foldl (pruneCycle env) store).getMetadata (tag ++ toString cycle) =
      if cycle ∈ cycles then none else store.getMetadata (tag ++ toString cycle) := by
  induction cycles generalizing store with
  | nil => rfl
  | cons pruned cycles ih =>
    rw [List.foldl_cons, ih, getMetadata_pruneCycle]
    simp only [cycleRecord_mem_deletedKeys record, List.mem_cons]
    by_cases here : cycle = pruned <;> simp [here]

/-- All records that belong to one cycle; the last two are never pruned. -/
def perCycleTags : List String :=
  cycleRecordTags ++ ["consensus:lsu_finality_cid:", "consensus:lsu_state_root_cid:"]

/-- Pruning deletes no record of a cycle that is not among those it takes. -/
theorem getMetadata_perCycle_foldl {tag : String} (record : tag ∈ perCycleTags) {cycles : List UInt64}
    {cycle : UInt64} (kept : cycle ∉ cycles) (store : Store) :
    (cycles.foldl (pruneCycle env) store).getMetadata (tag ++ toString cycle) =
      store.getMetadata (tag ++ toString cycle) := by
  rcases List.mem_append.mp record with pruned | lasting
  · rw [getMetadata_cycleRecord_foldl pruned, if_neg kept]
  · have apart : NamesApart [tag] bookkeepingTags ∧ NamesApart [tag] prunedTags := by
      revert tag
      decide
    have records := (PrunedTo.foldl (fun s cycle (_ : cycle ∈ cycles) => prunedTo_pruneCycle env s cycle)
      store).records (tag ++ toString cycle) (not_underTag_append apart.1 _)
    exact KeptOrPruned.eq records (not_underTag_append apart.2 _)

theorem lastAppliedCycle_pruneOnce (env : DatabaseEnv) (store : Store)
    (keepCycles batchCycles : UInt64) :
    lastAppliedCycle (pruneOnce env store keepCycles batchCycles) = lastAppliedCycle store := by
  have records := (prunedTo_pruneOnce env store keepCycles batchCycles).records
    "consensus:last_applied_cycle" (by decide)
  rw [lastAppliedCycle, KeptOrPruned.eq records (by decide)]
  rfl

/-- The head goes up, and what is written belongs to cycles above the old one. -/
structure AdvancesHead (s t : Store) : Prop where
  above : lastAppliedCycle s < lastAppliedCycle t
  marker : prunedUpToCycle t = prunedUpToCycle s
  records : ∀ tag ∈ perCycleTags, ∀ cycle ≤ lastAppliedCycle s,
    t.getMetadata (tag ++ toString cycle) = s.getMetadata (tag ++ toString cycle)

inductive PruneRun (env : DatabaseEnv) (keepCycles : UInt64) (s : Store) : Store → Prop
  | refl : PruneRun env keepCycles s s
  | advance {t u : Store} : PruneRun env keepCycles s t → AdvancesHead t u →
      PruneRun env keepCycles s u
  | prune {t : Store} (batchCycles : UInt64) : PruneRun env keepCycles s t →
      PruneRun env keepCycles s (pruneOnce env t keepCycles batchCycles)

structure Windowed (keepCycles : UInt64) (s t : Store) : Prop where
  head : lastAppliedCycle s ≤ lastAppliedCycle t
  marker : nextToPrune s ≤ nextToPrune t
  kept : ∀ tag ∈ perCycleTags, ∀ cycle ≤ lastAppliedCycle s,
    (lastAppliedCycle t).toNat < cycle.toNat + keepCycles.toNat →
    t.getMetadata (tag ++ toString cycle) = s.getMetadata (tag ++ toString cycle)
  pruned : ∀ cycle : UInt64, nextToPrune s ≤ cycle.toNat → cycle.toNat < nextToPrune t →
    cycle < lastAppliedCycle t ∧ t.getMetadata (lsuKey cycle) = none

namespace Windowed

variable {s t u : Store}

theorem refl (keepCycles : UInt64) (s : Store) : Windowed keepCycles s s :=
  ⟨UInt64.le_refl _, Nat.le_refl _, fun _ _ _ _ _ => rfl, fun _ from' below => by omega⟩

theorem advance (window : Windowed keepCycles s t) (step : AdvancesHead t u) :
    Windowed keepCycles s u := by
  have next : nextToPrune u = nextToPrune t := by
    rw [nextToPrune, step.marker]
    rfl
  have above := UInt64.lt_iff_toNat_lt.mp step.above
  refine ⟨UInt64.le_trans window.head (UInt64.le_of_lt step.above), next ▸ window.marker, ?_, ?_⟩
  · intro tag record cycle old inside
    rw [step.records tag record cycle (UInt64.le_trans old window.head)]
    exact window.kept tag record cycle old (by omega)
  · intro cycle start below
    rw [next] at below
    obtain ⟨under, gone⟩ := window.pruned cycle start below
    refine ⟨UInt64.lt_trans under step.above, ?_⟩
    have same := step.records "consensus:lsu:" (by decide) cycle (UInt64.le_of_lt under)
    exact same.trans gone

theorem prune (window : Windowed keepCycles s t) (keeping : 1 ≤ keepCycles) (batchCycles : UInt64) :
    Windowed keepCycles s (pruneOnce env t keepCycles batchCycles) := by
  rcases pruneOnce_cases env t batchCycles keeping with ⟨-, idle⟩ | ⟨-, first, last, next, upward, old, run⟩
  · rw [idle]
    exact window
  · have head := lastAppliedCycle_pruneOnce env t keepCycles batchCycles
    have marker : nextToPrune (pruneOnce env t keepCycles batchCycles) = last.toNat + 1 := by
      rw [nextToPrune, prunedUpToCycle, run, getMetadata_setMetadata_self, Option.bind_some,
        decodeU64_encodeU64]
      rfl
    have records : ∀ {tag rest : String}, tag ∈ perCycleTags →
        (pruneOnce env t keepCycles batchCycles).getMetadata (tag ++ rest) =
          ((cyclesThrough first last).foldl (pruneCycle env) t).getMetadata (tag ++ rest) := by
      intro tag rest record
      have apart : NamesApart [tag] ["storage:"] := by
        revert tag
        decide
      rw [run, getMetadata_setMetadata_of_ne]
      intro same
      exact not_underTag_append apart rest (same ▸ (by decide))
    rw [UInt64.le_iff_toNat_le] at upward
    refine ⟨head ▸ window.head, by rw [marker]; exact Nat.le_trans window.marker (by omega), ?_, ?_⟩
    · intro tag record cycle below inside
      rw [head] at inside
      have outside : cycle ∉ cyclesThrough first last := by
        intro taken
        have reached := UInt64.le_iff_toNat_le.mp (mem_cyclesThrough.mp taken).2
        omega
      rw [records record, getMetadata_perCycle_foldl record outside]
      exact window.kept tag record cycle below inside
    · intro cycle start below
      rw [marker] at below
      refine ⟨?_, ?_⟩
      · rw [head, UInt64.lt_iff_toNat_lt]
        omega
      · have lookup : (pruneOnce env t keepCycles batchCycles).getMetadata (lsuKey cycle) =
            if cycle ∈ cyclesThrough first last then none else t.getMetadata (lsuKey cycle) :=
          (@records "consensus:lsu:" (toString cycle) (by decide)).trans
            (getMetadata_cycleRecord_foldl (by decide) _ t cycle)
        rw [lookup]
        split
        next => rfl
        next untaken =>
          rw [mem_cyclesThrough, UInt64.le_iff_toNat_le, UInt64.le_iff_toNat_le] at untaken
          exact (window.pruned cycle start (by omega)).2

end Windowed

theorem PruneRun.windowed {s t : Store} (keeping : 1 ≤ keepCycles) (run : PruneRun env keepCycles s t) :
    Windowed keepCycles s t := by
  induction run with
  | refl => exact .refl keepCycles s
  | advance _ step ih => exact ih.advance step
  | prune batchCycles _ ih => exact ih.prune keeping batchCycles

theorem nextToPrune_of_some {store : Store} {marker : UInt64} (pruned : prunedUpToCycle store = some marker) :
    nextToPrune store = marker.toNat + 1 := by
  rw [nextToPrune, pruned]
  rfl

theorem marker_advances_iff (env : DatabaseEnv) (store : Store) (batchCycles : UInt64)
    (keeping : 1 ≤ keepCycles) :
    (∃ after, prunedUpToCycle (pruneOnce env store keepCycles batchCycles) = some after ∧
      ∀ before, prunedUpToCycle store = some before → before < after) ↔
      LeftToPrune keepCycles store := by
  rcases pruneOnce_cases env store batchCycles keeping with
    ⟨nothing, idle⟩ | ⟨some, first, last, next, upward, -, run⟩
  · rw [idle]
    refine iff_of_false ?_ nothing
    rintro ⟨after, pruned, later⟩
    exact UInt64.lt_irrefl _ (later after pruned)
  · refine iff_of_true ⟨last, ?_, fun before pruned => ?_⟩ some
    · rw [run, prunedUpToCycle, getMetadata_setMetadata_self, Option.bind_some, decodeU64_encodeU64]
    · have start := nextToPrune_of_some pruned
      rw [UInt64.le_iff_toNat_le] at upward
      rw [UInt64.lt_iff_toNat_lt]
      omega

def appliedBeforePruning (env : DatabaseEnv) (lsu : LedgerStateUpdate) (root : Hash) (store : Store) :
    Store :=
  prunePersistedMempool env (recordedBeforePruning env lsu root
    (applyLedger env.toApplyEnv store lsu).2
    { (applyLedger env.toApplyEnv store lsu).1 with currentStateRoot := some root })

variable {lsu : LedgerStateUpdate} {root : Hash}

theorem applyLsuToStorageLocked_eq_prune (above : lastAppliedCycle store < lsu.cycleNumber)
    (built : computeRootFromIter env.sha256
      (applyLedger env.toApplyEnv store lsu).1.accounts.toList = .ok root) :
    (applyLsuToStorageLocked env.applying store lsu).1 =
      maybePruneHistory env (appliedBeforePruning env lsu root store) := by
  let recorded := recordedBeforePruning env lsu root (applyLedger env.toApplyEnv store lsu).2
    { (applyLedger env.toApplyEnv store lsu).1 with currentStateRoot := some root }
  have run : applyLsuToStorageLocked env.applying store lsu = _ :=
    applyLsuToStorageLocked_eq above built
  have pruned := (prunedTo_prunePersistedMempool env recorded).trans
    (prunedTo_maybePruneHistory env (appliedBeforePruning env lsu root store))
  rw [run]
  change (⟨recorded.accounts, (maybePruneHistory env (appliedBeforePruning env lsu root store)).metadata,
    recorded.currentStateRoot⟩ : Store) = _
  rw [← pruned.accounts, ← pruned.root]

theorem getMetadata_appliedBeforePruning (keeps : KeepsMetadata env.runtime) {name : String}
    (other : ¬UnderTag ("mempool:tx" :: ["tx:meta:", "consensus:last_applied_"]) name)
    (update : name ≠ lsuKey lsu.cycleNumber) (hash : name ≠ lsuHashKey lsu.cycleNumber) :
    (appliedBeforePruning env lsu root store).getMetadata name = store.getMetadata name := by
  have ledger : (applyLedger env.toApplyEnv store lsu).1.getMetadata name = store.getMetadata name :=
    congrArg (·[name]?) (metadata_applyLedger keeps)
  have written := recordedBeforePruning_records env lsu root (applyLedger env.toApplyEnv store lsu).2
    { (applyLedger env.toApplyEnv store lsu).1 with currentStateRoot := some root }
    (fun under => other (under.mono (by simp))) update hash
  exact (getMetadata_prunePersistedMempool env _ (fun under =>
    other (under.mono (by simp)))).trans (written.trans ledger)

theorem getMetadata_appliedBeforePruning_storage (keeps : KeepsMetadata env.runtime) {name : String}
    (own : UnderTag ["storage:"] name) :
    (appliedBeforePruning env lsu root store).getMetadata name = store.getMetadata name :=
  getMetadata_appliedBeforePruning keeps (own.not_of_apart (by decide))
    (fun same => lsuKey_not_underTag (by decide) _ (same ▸ own))
    (fun same => lsuHashKey_not_underTag (by decide) _ (same ▸ own))

/-- An apply above the head advances it, and then prunes. -/
theorem advancesHead_apply (keeps : KeepsMetadata env.runtime)
    (above : lastAppliedCycle store < lsu.cycleNumber) :
    AdvancesHead store (appliedBeforePruning env lsu root store) := by
  have written := (recordedBeforePruning_head env lsu root (applyLedger env.toApplyEnv store lsu).2
    { (applyLedger env.toApplyEnv store lsu).1 with currentStateRoot := some root }).cycle
  have head : lastAppliedCycle (appliedBeforePruning env lsu root store) = lsu.cycleNumber := by
    rw [lastAppliedCycle, appliedBeforePruning, getMetadata_prunePersistedMempool env _ (by decide),
      written, Option.bind_some, decodeU64_encodeU64, Option.getD_some]
  refine ⟨head ▸ above, ?_, ?_⟩
  · rw [prunedUpToCycle, getMetadata_appliedBeforePruning_storage keeps (by decide)]
    rfl
  · intro tag record cycle old
    have other : cycle ≠ lsu.cycleNumber := UInt64.ne_of_lt (UInt64.lt_of_le_of_lt old above)
    have own : ∀ key ∈ perCycleTags, tag ++ toString cycle ≠ key ++ toString lsu.cycleNumber := by
      intro key listed same
      obtain ⟨rfl, -⟩ := tagged_inj (by decide : ∀ a ∈ perCycleTags, ∀ b ∈ perCycleTags,
        a = b ∨ NamesApart [a] [b]) record listed same
      exact other (taggedCycle_inj same)
    have apart : NamesApart perCycleTags ("mempool:tx" :: ["tx:meta:", "consensus:last_applied_"]) := by
      decide
    exact getMetadata_appliedBeforePruning keeps ((underTag_append record _).not_of_apart apart)
      (own _ (by decide)) (own _ (by decide))

end Window

/-- Over any sequence of head advances and pruning calls with a fixed number of kept cycles: no record
of a cycle within the window is deleted, the marker never goes down, no update is left between the
first pruned cycle and the marker, and a call moves the marker exactly if there is something to
prune. -/
theorem pruning_respects_window (env : DatabaseEnv) {keepCycles : UInt64} (keeping : 1 ≤ keepCycles)
    {s t : Store} (run : PruneRun env keepCycles s t) :
    (∀ tag ∈ perCycleTags, ∀ cycle ≤ lastAppliedCycle s,
      (lastAppliedCycle t).toNat < cycle.toNat + keepCycles.toNat →
      t.getMetadata (tag ++ toString cycle) = s.getMetadata (tag ++ toString cycle)) ∧
    (∀ before, prunedUpToCycle s = some before →
      ∃ after, prunedUpToCycle t = some after ∧ before ≤ after) ∧
    (∀ marker, prunedUpToCycle t = some marker → ∀ cycle ≤ marker, nextToPrune s ≤ cycle.toNat →
      t.getMetadata (lsuKey cycle) = none) ∧
    ∀ batchCycles, (∃ after, prunedUpToCycle (pruneOnce env t keepCycles batchCycles) = some after ∧
      ∀ before, prunedUpToCycle t = some before → before < after) ↔ LeftToPrune keepCycles t := by
  have window := run.windowed keeping
  refine ⟨window.kept, fun before pruned => ?_, fun marker pruned cycle reached start => ?_,
    fun batchCycles => marker_advances_iff env t batchCycles keeping⟩
  · have up := window.marker
    rw [nextToPrune_of_some pruned] at up
    cases now : prunedUpToCycle t with
    | none =>
      rw [nextToPrune, now] at up
      exact absurd up (by simp)
    | some after =>
      rw [nextToPrune_of_some now] at up
      exact ⟨after, rfl, UInt64.le_iff_toNat_le.mpr (by omega)⟩
  · have below := nextToPrune_of_some pruned
    rw [UInt64.le_iff_toNat_le] at reached
    exact (window.pruned cycle start (by omega)).2

/-- With the head at 10 a first call of three cycles leaves no update up to cycle 2. -/
theorem pruning_respects_window_batch :
    PruneRun sampleListingEnv 1 sampleListed (pruneOnce sampleListingEnv sampleListed 1 3) ∧
    prunedUpToCycle (pruneOnce sampleListingEnv sampleListed 1 3) = some 2 ∧
    ∀ cycle ≤ 2, (pruneOnce sampleListingEnv sampleListed 1 3).getMetadata (lsuKey cycle) = none := by
  have run : PruneRun sampleListingEnv 1 sampleListed (pruneOnce sampleListingEnv sampleListed 1 3) :=
    .prune 3 .refl
  have marker : prunedUpToCycle (pruneOnce sampleListingEnv sampleListed 1 3) = some 2 := by
    decide +kernel
  have first : nextToPrune sampleListed = 0 := by decide +kernel
  obtain ⟨-, -, gone, -⟩ := pruning_respects_window sampleListingEnv (by decide) run
  exact ⟨run, marker, fun cycle reached => gone 2 marker cycle reached (by omega)⟩

end CatalystNode
