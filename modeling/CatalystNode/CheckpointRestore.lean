import CatalystNode.AttestationBuckets
import CatalystNode.RejectedApply
import CatalystNode.WireRoundTrip

namespace CatalystNode

open ByteVector HexCodec MachineInt Store Effects FoldTrace

section SavedHistory

variable {store source : Store} {cycle : UInt64}

def SavedCycleMeta.value (saved : SavedCycleMeta) : HistoryField → Option Bytes
  | .lsu => saved.lsuBytes
  | .hash => saved.lsuHash
  | .cid => saved.lsuCid
  | .stateRoot => saved.lsuStateRoot

def SavesCycle (source : Store) (cycle : UInt64) : Prop :=
  (source.history cycle .lsu).isSome = true ∨ (source.history cycle .stateRoot).isSome = true

instance (source : Store) (cycle : UInt64) : Decidable (SavesCycle source cycle) :=
  inferInstanceAs (Decidable (_ ∨ _))

theorem saveCycleMeta_eq (source : Store) (cycle : UInt64) :
    (SavesCycle source cycle ∧ ∃ saved, saveCycleMeta source cycle = some saved ∧
      saved.cycle = cycle ∧ saved.value = source.history cycle) ∨
      ¬SavesCycle source cycle ∧ saveCycleMeta source cycle = none := by
  unfold saveCycleMeta
  dsimp only
  split
  next saves =>
    refine .inl ⟨saves, _, rfl, rfl, ?_⟩
    funext field
    cases field <;> rfl
  next idle => exact .inr ⟨idle, rfl⟩

theorem getMetadata_writeBack (key : String) (value : Option Bytes) (store : Store) (name : String) :
    (writeBack key value store).getMetadata name =
      if key = name then value.or (store.getMetadata name) else store.getMetadata name := by
  cases value with
  | none =>
    rw [Option.none_or, ite_self]
    rfl
  | some bytes =>
    change (store.setMetadata key bytes).getMetadata name = _
    split
    next same => rw [← same, getMetadata_setMetadata_self, Option.some_or]
    next other => exact getMetadata_setMetadata_of_ne _ _ other

theorem history_writeBack (field read : HistoryField) (value : Option Bytes) (store : Store)
    (a cycle : UInt64) :
    (writeBack (field.key a) value store).history cycle read =
      if field = read ∧ a = cycle then value.or (store.history cycle read)
      else store.history cycle read := by
  have same : field.key a = read.key cycle ↔ field = read ∧ a = cycle := by
    constructor
    · exact HistoryField.key_inj
    · rintro ⟨rfl, rfl⟩
      rfl
  rw [Store.history, getMetadata_writeBack, if_congr same rfl rfl]
  rfl

theorem history_restoreSaved (saved : SavedCycleMeta) (store : Store) (cycle : UInt64)
    (field : HistoryField) :
    (saved.restore store).history cycle field =
      if saved.cycle = cycle then (saved.value field).or (store.history cycle field)
      else store.history cycle field := by
  have written : saved.restore store = writeBack (HistoryField.cid.key saved.cycle) saved.lsuCid
    (writeBack (HistoryField.stateRoot.key saved.cycle) saved.lsuStateRoot
      (writeBack (HistoryField.hash.key saved.cycle) saved.lsuHash
        (writeBack (HistoryField.lsu.key saved.cycle) saved.lsuBytes store))) := rfl
  rw [written]
  simp only [history_writeBack]
  cases field <;> simp [SavedCycleMeta.value]

theorem getMetadata_restoreSaved (saved : SavedCycleMeta) (store : Store) {name : String}
    (other : ¬UnderTag HistoryField.tags name) :
    (saved.restore store).getMetadata name = store.getMetadata name := by
  have apart : ∀ field : HistoryField, field.key saved.cycle ≠ name := by
    rintro field rfl
    exact other (field.key_underTag saved.cycle)
  have back : ∀ (field : HistoryField) value (s : Store),
      (writeBack (field.key saved.cycle) value s).getMetadata name = s.getMetadata name := by
    intro field value s
    rw [getMetadata_writeBack, if_neg (apart field)]
  exact (back .cid _ _).trans ((back .stateRoot _ _).trans ((back .hash _ _).trans (back .lsu _ _)))

theorem history_foldl_restore (source : Store) (cycles : List UInt64) (store : Store)
    (cycle : UInt64) (field : HistoryField) :
    ((cycles.filterMap (saveCycleMeta source)).foldl SavedCycleMeta.restore store).history cycle field =
      if cycle ∈ cycles ∧ SavesCycle source cycle then
        (source.history cycle field).or (store.history cycle field)
      else store.history cycle field := by
  induction cycles generalizing store with
  | nil => simp
  | cons a cycles ih =>
    rcases saveCycleMeta_eq source a with ⟨saves, saved, found, numbered, values⟩ | ⟨idle, missing⟩
    · rw [List.filterMap_cons_some found, List.foldl_cons, ih, history_restoreSaved, numbered, values]
      by_cases here : a = cycle
      · subst here
        by_cases later : a ∈ cycles <;> simp [saves, later, ← Option.or_assoc, Option.or_self]
      · simp [here, Ne.symm here]
    · rw [List.filterMap_cons_none missing, ih]
      by_cases here : a = cycle
      · subst here
        simp [idle]
      · simp [Ne.symm here]

end SavedHistory

theorem padTo_toList {n : Nat} (v : ByteVec n) : padTo n v.toList = v := by
  apply List.Vector.toList_injective
  change (v.toList ++ List.replicate n 0).take n = v.toList
  rw [List.take_append_of_le_length (by simp), List.take_of_length_le (by simp)]

theorem decodeCheckpointBlob_encodeCheckpointBlob {record : CheckpointRecord}
    (named : record.snapshotName ≠ "") :
    decodeCheckpointBlob (encodeCheckpointBlob record) = some record := by
  let number := encodeU64 record.cycle
  let root := record.stateRoot.toList
  let hash := record.lsuHash.toList
  let name := utf8 record.snapshotName
  have eight : number.length = 8 := length_leBytes 8 _
  have forty : (number ++ root).length = 40 := by
    rw [List.length_append, eight, List.Vector.toList_length]
  have all : (number ++ root ++ hash).length = 72 := by
    rw [List.length_append, forty, List.Vector.toList_length]
  have blob : encodeCheckpointBlob record = number ++ root ++ hash ++ name := rfl
  have word : UInt64.ofNat (ofLeBytes number) = record.cycle := by
    have fits : record.cycle.toNat < 256 ^ 8 := by simpa using record.cycle.toNat_lt
    rw [show number = leBytes 8 record.cycle.toNat from rfl, ofLeBytes_leBytes fits,
      UInt64.ofNat_toNat]
  have first : (encodeCheckpointBlob record).take 8 = number := by
    rw [blob, List.append_assoc, List.append_assoc, List.take_left' eight]
  have second : ((encodeCheckpointBlob record).drop 8).take 32 = root := by
    rw [blob, List.append_assoc, List.append_assoc, List.drop_left' eight,
      List.take_left' (List.Vector.toList_length _)]
  have third : ((encodeCheckpointBlob record).drop 40).take 32 = hash := by
    rw [blob, List.append_assoc, List.drop_left' forty, List.take_left' (List.Vector.toList_length _)]
  have last : (encodeCheckpointBlob record).drop 72 = name := by
    rw [blob, List.drop_left' all]
  have long : ¬(encodeCheckpointBlob record).length < 72 := by
    rw [blob, List.length_append, all]
    omega
  unfold decodeCheckpointBlob
  rw [if_neg long]
  dsimp only
  rw [first, second, third, last, fromUTF8?_utf8, word, padTo_toList, padTo_toList]
  exact if_neg named

section Restore

variable {db restored : Database} {columns : Columns} {record : CheckpointRecord} {head : UInt64}

def Columns.store (columns : Columns) : Store := ⟨columns.accounts, columns.metadata, none⟩

/-- What a restore has to find for the history after a checkpoint to stay and the checkpoint itself to
be found again: every record is in the snapshot too, or is saved and written back; finality content
ids, which are not saved, are in the snapshot; and so is the record of the checkpoint. -/
structure RestoreSafe (db : Database) (columns : Columns) (record : CheckpointRecord) (head : UInt64) :
    Prop where
  history : ∀ cycle, record.cycle < cycle → cycle ≤ head → ∀ field : HistoryField,
    columns.store.history cycle field = db.toStore.history cycle field ∨
      (db.toStore.history cycle field).isSome = true ∧ SavesCycle db.toStore cycle ∧
        cycle.toNat + 1 < 2 ^ 64
  finality : ∀ cycle, record.cycle < cycle → cycle ≤ head →
    columns.store.getMetadata (lsuFinalityCidKey cycle) = db.getMetadata (lsuFinalityCidKey cycle)
  anchor : loadCheckpointAtCycle columns.store record.cycle = some record

/-- The cycles a restore saves are those after the checkpoint up to the head; of the largest number it
stops one short. -/
theorem mem_savedCycles {cycle : UInt64} (above : record.cycle < cycle) (below : cycle ≤ head) :
    cycle ∈ cyclesBetween (saturatingAddU64 record.cycle 1) (saturatingAddU64 head 1) ↔
      cycle.toNat + 1 < 2 ^ 64 := by
  have first := toNat_saturatingAddU64 record.cycle 1
  have last := toNat_saturatingAddU64 head 1
  have one : (1 : UInt64).toNat = 1 := rfl
  have bound := head.toNat_lt
  rw [one] at first last
  rw [UInt64.lt_iff_toNat_lt] at above
  rw [UInt64.le_iff_toNat_le] at below
  rw [mem_cyclesBetween, UInt64.le_iff_toNat_le, UInt64.lt_iff_toNat_lt, first, last]
  omega

theorem getMetadata_setHead (record : CheckpointRecord) (store : Store) {name : String}
    (other : ¬UnderTag ["consensus:last_applied_"] name) :
    (record.setHead store).getMetadata name = store.getMetadata name := by
  have apart : ∀ key, UnderTag ["consensus:last_applied_"] key → key ≠ name := by
    rintro key under rfl
    exact other under
  unfold CheckpointRecord.setHead
  rw [getMetadata_setMetadata_of_ne _ _ (apart _ (by decide)),
    getMetadata_setMetadata_of_ne _ _ (apart _ (by decide)),
    getMetadata_setMetadata_of_ne _ _ (apart _ (by decide))]
  rfl

theorem getMetadata_broughtBack {name : String} (other : ¬UnderTag HistoryField.tags name)
    (head' : ¬UnderTag ["consensus:last_applied_"] name) :
    (broughtBack db columns record head).getMetadata name = columns.store.getMetadata name := by
  have written := foldl_invariant (P := fun s : Store =>
      s.getMetadata name = (record.setHead (db.withColumns columns).toStore).getMetadata name)
    (l := (cyclesBetween (saturatingAddU64 record.cycle 1) (saturatingAddU64 head 1)).filterMap
      (saveCycleMeta db.toStore)) (f := SavedCycleMeta.restore) rfl
    (fun s saved _ same => (getMetadata_restoreSaved saved s other).trans same)
  exact written.trans (getMetadata_setHead record _ head')

/-- After a checkpoint a record is the one from before if it was saved, and the one of the snapshot
otherwise. -/
theorem history_broughtBack {cycle : UInt64} (above : record.cycle < cycle) (below : cycle ≤ head)
    (field : HistoryField) :
    (broughtBack db columns record head).toStore.history cycle field =
      if cycle.toNat + 1 < 2 ^ 64 ∧ SavesCycle db.toStore cycle then
        (db.toStore.history cycle field).or (columns.store.history cycle field)
      else columns.store.history cycle field := by
  have start : (record.setHead (db.withColumns columns).toStore).history cycle field =
      columns.store.history cycle field :=
    getMetadata_setHead record _ ((field.key_underTag cycle).not_of_apart (by decide))
  have written := history_foldl_restore db.toStore (cyclesBetween (saturatingAddU64 record.cycle 1)
    (saturatingAddU64 head 1)) (record.setHead (db.withColumns columns).toStore) cycle field
  rw [start, if_congr (and_congr_left' (mem_savedCycles above below)) rfl rfl] at written
  exact written

theorem accounts_broughtBack : (broughtBack db columns record head).accounts = columns.accounts := by
  have back : ∀ key value (s : Store), (writeBack key value s).accounts = s.accounts := by
    intro key value s
    cases value <;> rfl
  refine foldl_invariant (P := fun s : Store => s.accounts = columns.accounts) rfl ?_
  intro s saved _ same
  rw [SavedCycleMeta.restore, back, back, back, back, same]

theorem headAt_broughtBack :
    HeadAt record.cycle record.lsuHash record.stateRoot
      (broughtBack db columns record head).toStore := by
  refine (headAt_setHead record (db.withColumns columns).toStore).congr (fun name under => ?_)
  exact foldl_invariant (P := fun s : Store =>
      s.getMetadata name = (record.setHead (db.withColumns columns).toStore).getMetadata name)
    rfl (fun s saved _ same => (getMetadata_restoreSaved saved s
      (under.not_of_apart (by decide))).trans same)

end Restore

/-- A restore brings back the accounts of the checkpoint and makes it the head. It keeps the history
after it and finds the checkpoint again exactly if the snapshot makes up for what is not saved. -/
theorem restoreFromCheckpoint_iff {db : Database} {columns : Columns} (record : CheckpointRecord)
    (head : UInt64) (held : db.snapshots[record.snapshotName]? = some columns) :
    ∃ restored, restoreReconcileFromCheckpoint record head db = .ok () restored ∧
      restored.accounts = columns.accounts ∧
      HeadAt record.cycle record.lsuHash record.stateRoot restored.toStore ∧
      (((∀ cycle, record.cycle < cycle → cycle ≤ head →
          (∀ field : HistoryField, restored.toStore.history cycle field =
            db.toStore.history cycle field) ∧
          restored.getMetadata (lsuFinalityCidKey cycle) = db.getMetadata (lsuFinalityCidKey cycle)) ∧
        loadCheckpointAtCycle restored.toStore record.cycle = some record) ↔
        RestoreSafe db columns record head) := by
  refine ⟨broughtBack db columns record head,
    restoreReconcileFromCheckpoint_eq_ok.mpr ⟨columns, held, rfl⟩, accounts_broughtBack,
    headAt_broughtBack, ?_⟩
  have finality : ∀ cycle, (broughtBack db columns record head).getMetadata (lsuFinalityCidKey cycle) =
      columns.store.getMetadata (lsuFinalityCidKey cycle) := fun cycle =>
    getMetadata_broughtBack (not_underTag_append (by decide +kernel) (toString cycle))
      (not_underTag_append (by decide +kernel) (toString cycle))
  have anchor : loadCheckpointAtCycle (broughtBack db columns record head).toStore record.cycle =
      loadCheckpointAtCycle columns.store record.cycle :=
    congrArg (·.bind decodeCheckpointBlob)
      (getMetadata_broughtBack (not_underTag_append (by decide +kernel) (toString record.cycle))
        (not_underTag_append (by decide +kernel) (toString record.cycle)))
  have history : ∀ cycle, record.cycle < cycle → cycle ≤ head → ∀ field : HistoryField,
      ((broughtBack db columns record head).toStore.history cycle field =
          db.toStore.history cycle field ↔
        columns.store.history cycle field = db.toStore.history cycle field ∨
          (db.toStore.history cycle field).isSome = true ∧ SavesCycle db.toStore cycle ∧
            cycle.toNat + 1 < 2 ^ 64) := by
    intro cycle above below field
    rw [history_broughtBack above below]
    split
    next saved =>
      cases db.toStore.history cycle field with
      | none => simp
      | some bytes => exact iff_of_true Option.some_or (.inr ⟨rfl, saved.2, saved.1⟩)
    next unsaved =>
      constructor
      · exact .inl
      · rintro (same | ⟨-, saves, small⟩)
        · exact same
        · exact absurd ⟨small, saves⟩ unsaved
  rw [anchor]
  constructor
  · rintro ⟨kept, found⟩
    refine ⟨fun cycle above below field => ?_, fun cycle above below => ?_, found⟩
    · exact (history cycle above below field).mp ((kept cycle above below).1 field)
    · exact (finality cycle).symm.trans (kept cycle above below).2
  · intro safe
    refine ⟨fun cycle above below => ⟨fun field => ?_, ?_⟩, safe.anchor⟩
    · exact (history cycle above below field).mpr (safe.history cycle above below field)
    · exact (finality cycle).trans (safe.finality cycle above below)

def sampleCheckpointed : Database :=
  endState (writeCheckpoint 1 (zeros 32) (zeros 32) (sampleHeadedBy (sampleVoted 1 1)))

def sampleCheckpoint : CheckpointRecord := ⟨1, zeros 32, zeros 32, snapshotNameForCycle 1⟩

/-- A later finality content id is lost in a restore, and so is the record of the checkpoint. -/
theorem restoreFromCheckpoint_lossy :
    let db := sampleCheckpointed.onStore (fun store =>
      (store.setMetadata "consensus:last_applied_cycle" (encodeU64 2)).setMetadata
        (lsuFinalityCidKey 2) [7])
    let restored := endState (restoreReconcileFromCheckpoint sampleCheckpoint 2 db)
    (loadCheckpointAtCycle db.toStore 1).map CheckpointRecord.snapshotName =
      some sampleCheckpoint.snapshotName ∧ lastAppliedCycle db.toStore = 2 ∧
    lastAppliedCycle restored.toStore = 1 ∧
    (loadCheckpointAtCycle restored.toStore 1).isNone = true ∧
    db.getMetadata (lsuFinalityCidKey 2) = some [7] ∧
    restored.getMetadata (lsuFinalityCidKey 2) = none := by
  decide +kernel

def sampleAnchored : Database :=
  let anchored := (sampleHeadedBy (sampleVoted 1 1)).onStore sampleCheckpoint.recordIn
  (anchored.withSnapshot sampleCheckpoint.snapshotName).onStore
    (·.setMetadata (lsuKey 2) (serialize (sampleVoted 2 1)))

/-- The update is kept and the checkpoint is found again. -/
theorem restoreFromCheckpoint_iff_anchored :
    ∃ restored, restoreReconcileFromCheckpoint sampleCheckpoint 2 sampleAnchored = .ok () restored ∧
      restored.getMetadata (lsuKey 2) = sampleAnchored.getMetadata (lsuKey 2) ∧
      loadCheckpointAtCycle restored.toStore 1 = some sampleCheckpoint := by
  let columns := ((sampleHeadedBy (sampleVoted 1 1)).onStore sampleCheckpoint.recordIn).columns
  obtain ⟨restored, run, -, -, same⟩ := @restoreFromCheckpoint_iff sampleAnchored columns
    sampleCheckpoint 2 snapshots_withSnapshot_self
  have only : ∀ cycle : UInt64, sampleCheckpoint.cycle < cycle → cycle ≤ 2 → cycle = 2 := by
    intro cycle above below
    rw [UInt64.lt_iff_toNat_lt] at above
    rw [UInt64.le_iff_toNat_le] at below
    have one : sampleCheckpoint.cycle.toNat = 1 := rfl
    have two : (2 : UInt64).toNat = 2 := rfl
    exact UInt64.toNat_inj.mp (by omega)
  have safe : RestoreSafe sampleAnchored columns sampleCheckpoint 2 := by
    refine ⟨fun cycle above below field => ?_, fun cycle above below => ?_, ?_⟩
    · rw [only cycle above below]
      cases field
      · exact .inr (by decide +kernel)
      all_goals exact .inl (by decide +kernel)
    · rw [only cycle above below]
      decide +kernel
    · have stored : columns.store.getMetadata (checkpointMetaKey 1) =
          some (encodeCheckpointBlob sampleCheckpoint) := by
        have found := getMetadata_recordIn sampleCheckpoint (sampleHeadedBy (sampleVoted 1 1)).toStore
          (checkpointMetaKey 1)
        rw [if_neg (checkpointMetaKey_ne_latest 1)] at found
        exact found
      have named : sampleCheckpoint.snapshotName ≠ "" := by decide +kernel
      exact (congrArg (·.bind decodeCheckpointBlob) stored).trans
        (decodeCheckpointBlob_encodeCheckpointBlob named)
  obtain ⟨kept, found⟩ := same.mpr safe
  exact ⟨restored, run, (kept 2 (by decide) (by decide)).1 .lsu, found⟩

end CatalystNode
