import CatalystNode.CheckpointRestore
import CatalystNode.CertifiedRuns
import CatalystNode.AppliedHead

namespace CatalystNode

open ByteVector HexCodec MachineInt Store Effects FoldTrace

def Retains (db db' : Database) : Prop :=
  ∀ name columns, IsCheckpointName name → db.snapshots[name]? = some columns →
    db'.snapshots[name]? = some columns

theorem Retains.refl (db : Database) : Retains db db := fun _ _ _ held => held

theorem retains_of_snapshots {db db' : Database} (same : db'.snapshots = db.snapshots) : Retains db db' :=
  fun name _ _ held => (congrArg (·[name]?) same).trans held

/-- Head and checkpoint records are as before, and no snapshot of a checkpoint is lost. -/
structure Aside (db db' : Database) : Prop where
  records : ∀ name, UnderTag ["consensus:last_applied_", "consensus:checkpoint:"] name →
    db'.getMetadata name = db.getMetadata name
  retains : Retains db db'

theorem aside_of_columns {db db' : Database} (same : db'.columns = db.columns)
    (retains : Retains db db') : Aside db db' :=
  ⟨fun _ _ => getMetadata_of_columns same, retains⟩

theorem loadCheckpointAtCycle_congr {s t : Store} {cycle : UInt64}
    (same : ∀ name, UnderTag ["consensus:checkpoint:"] name → t.getMetadata name = s.getMetadata name) :
    loadCheckpointAtCycle t cycle = loadCheckpointAtCycle s cycle := by
  have own : UnderTag ["consensus:checkpoint:"] (checkpointMetaKey cycle) :=
    underTag_append (List.mem_singleton.mpr rfl) (toString cycle)
  rw [loadCheckpointAtCycle, loadCheckpointAtCycle, same _ own]

theorem snapshotNameForCycle_ne_empty (cycle : UInt64) : snapshotNameForCycle cycle ≠ "" := by
  intro empty
  have named := snapshotNameForCycle_isCheckpointName cycle
  rw [empty] at named
  exact absurd (List.prefix_nil.mp named) (by decide)

theorem loadCheckpointAtCycle_recordIn {record : CheckpointRecord} {store : Store} {cycle : UInt64}
    (named : record.snapshotName ≠ "") :
    loadCheckpointAtCycle (record.recordIn store) cycle =
      if cycle = record.cycle then some record else loadCheckpointAtCycle store cycle := by
  rw [loadCheckpointAtCycle, getMetadata_recordIn, if_neg (checkpointMetaKey_ne_latest cycle)]
  by_cases same : cycle = record.cycle
  · rw [same, if_pos rfl, if_pos rfl, Option.bind_some,
      decodeCheckpointBlob_encodeCheckpointBlob named]
  · have apart : checkpointMetaKey cycle ≠ checkpointMetaKey record.cycle :=
      fun keys => same (taggedCycle_inj keys)
    rw [if_neg apart, if_neg same]
    rfl

theorem preserved_of_tag {tag : String} (listed : tag ∈ preservedTags) (rest : String) :
    metadataLogicalNameIsPreserved (tag ++ rest) = true := by
  rw [metadataLogicalNameIsPreserved, decide_eq_true_eq]
  exact .inl (underTag_append listed rest)

theorem loadCheckpointAtCycle_purge (db : Database) (c : UInt64) :
    loadCheckpointAtCycle (purgeMutableChainStatePreservingLsuHistory db).toStore c =
      loadCheckpointAtCycle db.toStore c := by
  have preserved : metadataLogicalNameIsPreserved (checkpointMetaKey c) = true :=
    @preserved_of_tag "consensus:checkpoint:" (by decide) (toString c)
  rw [loadCheckpointAtCycle, getMetadata_purge, if_pos preserved, loadCheckpointAtCycle]

section Runs

variable {F G : Type} [Field F] [AddCommGroup G] [Module F G] [DecidableEq G]

variable {env : ReconcileEnv F G} {db : Database}

theorem aside_gate (call : GateCall) : Aside db { db with toStore := (call.decide env db).2 } := by
  rcases @forkChoiceApplyGate_store _ _ _ _ _ _ env.node db.toStore call.dfs call.lsu call.cycle
    call.lsuHash call.finalityCidHint true with same | ⟨-, written⟩
  · rw [GateCall.decide, same]
    exact aside_of_columns rfl (.refl db)
  · rw [GateCall.decide, written]
    refine ⟨fun name under => ?_, retains_of_snapshots rfl⟩
    have apart : certifiedHashMetadataKey call.cycle ≠ name := by
      rintro rfl
      exact (certifiedHashMetadataKey_lasting call.cycle).applies (under.mono (by decide))
    exact getMetadata_setMetadata_of_ne _ _ apart

end Runs

end CatalystNode
