import CatalystNode.LastingRecords
import CatalystNode.ReconcileExactness

namespace CatalystNode

open ByteVector HexCodec MachineInt Store Effects FoldTrace

section Gate

variable {F G : Type} [Field F] [AddCommGroup G] [Module F G] [DecidableEq G] {env : NodeEnv F G}
  {store : Store} {dfs : Option ContentStore} {lsu : LedgerStateUpdate} {cycle : UInt64}
  {lsuHash : Hash} {finalityCidHint : String}

theorem certifiedHashMetadataKey_inj {a b : UInt64}
    (same : certifiedHashMetadataKey a = certifiedHashMetadataKey b) : a = b :=
  taggedCycle_inj same

theorem certifiedHashMetadataKey_lasting (cycle : UInt64) :
    LastingName (certifiedHashMetadataKey cycle) :=
  .of_tag (by decide) (by decide) _

theorem forkChoiceApplyGate_store (certifiedOnly : Bool) :
    (forkChoiceApplyGate env store dfs lsu cycle lsuHash finalityCidHint certifiedOnly).2 = store ∨
      loadStoredCertifiedHashAtCycle store cycle = none ∧
      (forkChoiceApplyGate env store dfs lsu cycle lsuHash finalityCidHint certifiedOnly).2 =
        store.setMetadata (certifiedHashMetadataKey cycle) lsuHash.toList := by
  unfold forkChoiceApplyGate
  dsimp only
  split
  next => exact .inl rfl
  next =>
    split
    next =>
      split
      next =>
        dsimp only
        split
        next none => exact .inr ⟨Option.isNone_iff_eq_none.mp none, rfl⟩
        next => exact .inl rfl
      next => split <;> exact .inl rfl
    next => exact .inl rfl

theorem forkChoiceApplyGate_keeps (certifiedOnly : Bool) {c : UInt64} {h : Hash}
    (recorded : loadStoredCertifiedHashAtCycle store c = some h) :
    loadStoredCertifiedHashAtCycle
      (forkChoiceApplyGate env store dfs lsu cycle lsuHash finalityCidHint certifiedOnly).2 c =
        some h := by
  rcases @forkChoiceApplyGate_store _ _ _ _ _ _ env store dfs lsu cycle lsuHash finalityCidHint
    certifiedOnly with same | ⟨none, written⟩
  · rw [same, recorded]
  · have other : certifiedHashMetadataKey cycle ≠ certifiedHashMetadataKey c := by
      intro same
      rw [certifiedHashMetadataKey_inj same, recorded] at none
      simp at none
    rw [written, loadStoredCertifiedHashAtCycle, getMetadata_setMetadata_of_ne _ _ other]
    exact recorded

/-- Under the production policy the gate lets nothing through that it cannot register. -/
theorem forkChoiceApplyGate_registers (noOverride : env.allowCertEquivocationTiebreak = false)
    (allow : (forkChoiceApplyGate env store dfs lsu cycle lsuHash finalityCidHint true).1 = .allow) :
    registerCertifiedHash (loadStoredCertifiedHashAtCycle store cycle) lsuHash = .ok ∧
      (forkChoiceApplyGate env store dfs lsu cycle lsuHash finalityCidHint true).2 =
        if (loadStoredCertifiedHashAtCycle store cycle).isNone then
          store.setMetadata (certifiedHashMetadataKey cycle) lsuHash.toList
        else store := by
  have certified : dfs.elim false (fun dfs =>
      lsuHasVerifiedFinalityCert env store dfs lsu cycle finalityCidHint) = true := by
    obtain ⟨content, cert, rfl, loaded, verified⟩ := forkChoiceApplyGate_certified allow
    exact lsuHasVerifiedFinalityCert_iff.mpr ⟨cert, loaded, verified⟩
  unfold forkChoiceApplyGate at allow ⊢
  simp only [certified, if_true] at allow ⊢
  split at allow
  next => simp at allow
  next tier =>
    rw [if_neg tier]
    split at allow
    next registered =>
      rw [registered]
      exact ⟨rfl, rfl⟩
    next =>
      rw [show certifiedEquivocationPolicy env true = .stallAndAlert by
        simp [certifiedEquivocationPolicy, noOverride]] at allow
      simp at allow

theorem forkChoiceApplyGate_records (noOverride : env.allowCertEquivocationTiebreak = false)
    (allow : (forkChoiceApplyGate env store dfs lsu cycle lsuHash finalityCidHint true).1 = .allow) :
    loadStoredCertifiedHashAtCycle
      (forkChoiceApplyGate env store dfs lsu cycle lsuHash finalityCidHint true).2 cycle =
        some lsuHash := by
  obtain ⟨registered, written⟩ := forkChoiceApplyGate_registers noOverride allow
  rw [written]
  cases stored : loadStoredCertifiedHashAtCycle store cycle with
  | none =>
    rw [Option.isNone_none, if_pos rfl, loadStoredCertifiedHashAtCycle, getMetadata_setMetadata_self,
      Option.bind_some, toArray?_toList]
  | some existing =>
    rw [stored, registerCertifiedHash] at registered
    split at registered
    next same => rw [Option.isNone_some, if_neg (by simp), stored, same]
    next => simp at registered

/-- Next to a recorded certified hash no other one passes. -/
theorem forkChoiceApplyGate_refuses (noOverride : env.allowCertEquivocationTiebreak = false)
    {h : Hash} (recorded : loadStoredCertifiedHashAtCycle store cycle = some h)
    (other : h ≠ lsuHash) :
    (forkChoiceApplyGate env store dfs lsu cycle lsuHash finalityCidHint true).1 ≠ .allow := by
  intro allow
  obtain ⟨registered, -⟩ := forkChoiceApplyGate_registers noOverride allow
  rw [recorded, registerCertifiedHash, if_neg other] at registered
  simp at registered

end Gate

structure GateCall where
  dfs : Option ContentStore
  lsu : LedgerStateUpdate
  cycle : UInt64
  lsuHash : Hash
  finalityCidHint : String

/-- What a node does to its database: gate calls, applies of the three kinds, checkpoint writes and
reconciles, each at its own time. -/
inductive NodeStep where
  | gate (call : GateCall)
  | apply (nowMs : UInt64) (lsu : LedgerStateUpdate)
  | rootCheckedApply (nowMs : UInt64) (lsu : LedgerStateUpdate) (expected : Hash)
  | trustedApply (nowMs : UInt64) (lsu : LedgerStateUpdate) (expectedPrev newRoot : Hash)
  | checkpoint (cycle : UInt64) (stateRoot lsuHash : Hash)
  | reconcile (nowMs : UInt64) (target : ReconcileTarget)

def ReconcileEnv.atTime {F G : Type} (env : ReconcileEnv F G) (nowMs : UInt64) :
    ReconcileEnv F G :=
  { env with database := env.database.atTime nowMs }

section Runs

variable {F G : Type} [Field F] [AddCommGroup G] [Module F G] [DecidableEq G]

def GateCall.decide (env : ReconcileEnv F G) (call : GateCall) (db : Database) :
    ForkChoiceApplyGate × Store :=
  forkChoiceApplyGate env.node db.toStore call.dfs call.lsu call.cycle call.lsuHash
    call.finalityCidHint true

def NodeStep.run (env : ReconcileEnv F G) (db : Database) : NodeStep → Database
  | .gate call => { db with toStore := (call.decide env db).2 }
  | .apply nowMs lsu => endState (applyLsuToDatabase (env.database.atTime nowMs) lsu db)
  | .rootCheckedApply nowMs lsu expected =>
    endState (applyLsuWithRootCheckLocked (env.database.atTime nowMs) lsu expected db)
  | .trustedApply nowMs lsu expectedPrev newRoot =>
    { db with toStore := (applyLsuToStorageWithoutRootCheck
      ((env.database.atTime nowMs).trusting db lsu.cycleNumber) db.toStore lsu expectedPrev newRoot).1 }
  | .checkpoint cycle stateRoot lsuHash => endState (writeCheckpoint cycle stateRoot lsuHash db)
  | .reconcile nowMs target => endState (tryReconcileForkFromQuorumLsu (env.atTime nowMs) target db)

def runSteps (env : ReconcileEnv F G) (db : Database) (steps : List NodeStep) : Database :=
  steps.foldl (NodeStep.run env) db

/-- A reconcile that succeeds in replacing what was applied at or below the head. -/
def NodeStep.ReplacesApplied (env : ReconcileEnv F G) (db : Database) : NodeStep → Prop
  | .reconcile nowMs target => target.cycle ≤ lastAppliedCycle db.toStore ∧
    alreadyApplied target db.toStore = false ∧
    ∃ db', tryReconcileForkFromQuorumLsu (env.atTime nowMs) target db = .ok true db'
  | _ => False

def OnlyForward (env : ReconcileEnv F G) (db : Database) (steps : List NodeStep) : Prop :=
  ∀ s ∈ foldSteps (NodeStep.run env) db steps, ¬s.2.ReplacesApplied env s.1

variable {env : ReconcileEnv F G} {db : Database} {name : String}

/-- Unless it replaces what was applied, a reconcile keeps what applies on top of the head and
replays forward from it keep. -/
theorem tryReconcile_forward {P : Database → Prop} {target : ReconcileTarget}
    (congr : ∀ db db', db'.columns = db.columns → P db → P db')
    (onto : Keeps P (applyOntoHead env.database target))
    (inner : ∀ plan, plan.localCycle < target.cycle →
      Keeps P (reconcileInner env.database target plan))
    (forward : target.cycle ≤ lastAppliedCycle db.toStore →
      alreadyApplied target db.toStore = false →
      ∀ db', tryReconcileForkFromQuorumLsu env target db ≠ .ok true db')
    (before : P db) : P (endState (tryReconcileForkFromQuorumLsu env target db)) := by
  by_cases succeeds : ∃ db', tryReconcileForkFromQuorumLsu env target db = .ok true db'
  · obtain ⟨db', run⟩ := succeeds
    have outcome := reconciled env target db
    rw [run] at outcome forward ⊢
    generalize ended : EStateM.Result.ok true db' = result at outcome
    cases outcome with
    | refused => simp at ended
    | already =>
      cases ended
      exact congr db _ rfl before
    | onto _ _ run =>
      cases ended
      have kept := onto { db with base := none } (congr db _ rfl before)
      rwa [run] at kept
    | unplanned => simp at ended
    | @planned db₁ plan _ fresh run planned =>
      have here := columns_applyOntoHead run
      have outcome := committed env target plan db₁
      rw [← ended] at outcome
      cases outcome with
      | @kept replayed _ _ replay _ columns =>
        have ahead : lastAppliedCycle db.toStore < target.cycle := by
          by_contra notAhead
          exact forward (UInt64.not_lt.mp notAhead) fresh db' rfl
        have head : plan.localCycle = lastAppliedCycle db.toStore := by
          rw [(planReplay_eq_some.mp planned).2.2.2.1]
          exact lastAppliedCycle_of_columns here
        have kept := inner plan (head ▸ ahead)
          (db₁.withSnapshot (reconcileSnapshotName target.cycle env.database.nowMs))
          (congr db _ here before)
        rw [replay] at kept
        rw [← ended]
        exact congr replayed _ columns kept
  · exact congr db _ (columns_of_unsuccessful (not_exists.mp succeeds)) before

theorem getMetadata_tryReconcile {target : ReconcileTarget}
    (keeps : KeepsMetadata env.database.runtime) (lasting : LastingName name)
    (forward : target.cycle ≤ lastAppliedCycle db.toStore →
      alreadyApplied target db.toStore = false →
      ∀ db', tryReconcileForkFromQuorumLsu env target db ≠ .ok true db') :
    (endState (tryReconcileForkFromQuorumLsu env target db)).getMetadata name =
      db.getMetadata name :=
  @tryReconcile_forward _ _ _ _ _ _ env db (fun after => after.getMetadata name = db.getMetadata name)
    target (fun _ _ same kept => (getMetadata_of_columns same).trans kept)
    (keeps_lasting_applyOntoHead keeps lasting target)
    (fun _ behind => keeps_lasting_reconcileInner keeps lasting behind) forward rfl

theorem getMetadata_run (keeps : KeepsMetadata env.database.runtime) (lasting : LastingName name)
    {step : NodeStep} (forward : ¬step.ReplacesApplied env db)
    (notGate : ∀ call, step ≠ .gate call) :
    (step.run env db).getMetadata name = db.getMetadata name := by
  cases step with
  | gate call => exact absurd rfl (notGate call)
  | apply nowMs lsu =>
    exact @keeps_lasting_applyLsuToDatabase (env.database.atTime nowMs) name _ keeps lasting lsu db
      rfl
  | rootCheckedApply nowMs lsu expected =>
    exact @keeps_lasting_applyLsuWithRootCheckLocked (env.database.atTime nowMs) name _ keeps lasting
      lsu expected db rfl
  | trustedApply nowMs lsu expectedPrev newRoot =>
    exact @getMetadata_trustedApply (env.database.atTime nowMs) lsu db name keeps lasting.records
      lasting.prunes expectedPrev newRoot
  | checkpoint cycle stateRoot lsuHash =>
    exact (checkpointed_writeCheckpoint cycle stateRoot lsuHash db).records name
      (fun checkpoint => lasting.applies (checkpoint.mono (by simp [applyTags])))
  | reconcile nowMs target =>
    exact @getMetadata_tryReconcile F G _ _ _ _ (env.atTime nowMs) db name target keeps lasting
      (fun below fresh db' run => forward ⟨below, fresh, db', run⟩)

theorem certifiedHash_run (keeps : KeepsMetadata env.database.runtime) {step : NodeStep}
    (forward : ¬step.ReplacesApplied env db) {c : UInt64} {h : Hash}
    (recorded : loadStoredCertifiedHashAtCycle db.toStore c = some h) :
    loadStoredCertifiedHashAtCycle (step.run env db).toStore c = some h := by
  by_cases gate : ∃ call, step = .gate call
  · obtain ⟨call, rfl⟩ := gate
    exact forkChoiceApplyGate_keeps true recorded
  · have kept := getMetadata_run keeps (certifiedHashMetadataKey_lasting c) forward
      (not_exists.mp gate)
    rw [loadStoredCertifiedHashAtCycle, kept]
    exact recorded

theorem certifiedHash_runSteps (keeps : KeepsMetadata env.database.runtime) {c : UInt64} {h : Hash}
    (steps : List NodeStep) (forward : OnlyForward env db steps)
    (recorded : loadStoredCertifiedHashAtCycle db.toStore c = some h) :
    loadStoredCertifiedHashAtCycle (runSteps env db steps).toStore c = some h := by
  induction steps generalizing db with
  | nil => exact recorded
  | cons step steps ih =>
    have here := forward (db, step) List.mem_cons_self
    exact ih (fun s later => forward s (List.mem_cons_of_mem _ later))
      (certifiedHash_run keeps here recorded)

/-- Certified equivocation stalls along a run: once a certified hash has passed the gate at a cycle,
no other one passes there. -/
def EquivocationStalls (env : ReconcileEnv F G) (db : Database) (steps : List NodeStep) : Prop :=
  ∀ (before : List NodeStep) call (between : List NodeStep) call' (after : List NodeStep),
    steps = before ++ .gate call :: (between ++ .gate call' :: after) →
    (call.decide env (runSteps env db before)).1 = .allow →
    call'.cycle = call.cycle → call'.lsuHash ≠ call.lsuHash →
    (call'.decide env (runSteps env db (before ++ .gate call :: between))).1 ≠ .allow

/-- Certified equivocation stalls along every run that replaces nothing applied. -/
theorem equivocationStalls_of_onlyForward (keeps : KeepsMetadata env.database.runtime)
    (noOverride : env.node.allowCertEquivocationTiebreak = false) (steps : List NodeStep)
    (forward : OnlyForward env db steps) : EquivocationStalls env db steps := by
  rintro before call between call' after rfl allowed sameCycle other
  have recorded := forkChoiceApplyGate_records noOverride allowed
  have rest : OnlyForward env (NodeStep.run env (runSteps env db before) (.gate call)) between := by
    intro s inside
    refine forward s ?_
    rw [foldSteps_append, foldSteps, foldSteps_append]
    exact List.mem_append_right _ (List.mem_cons_of_mem _ (List.mem_append_left _ inside))
  have kept := certifiedHash_runSteps keeps between rest recorded
  rw [← sameCycle] at kept
  have reached : runSteps env db (before ++ .gate call :: between) =
      runSteps env (NodeStep.run env (runSteps env db before) (.gate call)) between :=
    List.foldl_append
  rw [reached]
  exact forkChoiceApplyGate_refuses noOverride kept other.symm

end Runs

section Samples

def sampleCertifiedEnv : ReconcileEnv (ZMod 13) (ZMod 13) :=
  { sampleReconcileEnv with
    node := { sampleEnv outsiderCertificate with
      fromUtf8Lossy := fun bytes => String.ofList (bytes.map (fun b => Char.ofNat b.toNat))
      decodeFinalityCert := fun bytes => bytes.head?.map (fun timestamp =>
        sampleCertificate (sampleVoted 1 timestamp.toUInt64) [(sampleId "0c", ((12 : Nat) : ZMod 13))]) } }

def sampleCertificates : ContentStore := fun cid =>
  if cid = "first" then some [3] else if cid = "second" then some [2] else none

def sampleGateCall (timestamp : UInt64) (hint : String) : GateCall where
  dfs := some sampleCertificates
  lsu := sampleVoted 1 timestamp
  cycle := 1
  lsuHash := hashData checksum (sampleVoted 1 timestamp)
  finalityCidHint := hint

def sampleReorg (timestamp : UInt64) (hint : String) : NodeStep :=
  .reconcile 7 { sampleTarget (sampleVoted 1 timestamp) with
    dfs := some sampleCertificates
    finalityCidHint := hint
    certifiedOnly := true }

def samplePointed : Database :=
  { Database.fresh with
    toStore := Store.empty.setMetadata "consensus:lsu_finality_cid:1" (utf8 "first") }

end Samples

theorem sampleGateCall_allowed :
    ((sampleGateCall 3 "first").decide sampleCertifiedEnv
      (runSteps sampleCertifiedEnv samplePointed [.apply 7 (sampleVoted 1 1)])).1 = .allow := by
  decide +kernel

/-- A reorg onto the first certified update forgets that it was certified, and a second one of the
same cycle passes. -/
theorem equivocationStalls_forgotten :
    sampleCertifiedEnv.node.allowCertEquivocationTiebreak = false ∧
    ¬EquivocationStalls sampleCertifiedEnv samplePointed
      [.apply 7 (sampleVoted 1 1), .gate (sampleGateCall 3 "first"), sampleReorg 3 "first",
        .gate (sampleGateCall 2 "second")] := by
  refine ⟨rfl, fun stalls => ?_⟩
  exact stalls [.apply 7 (sampleVoted 1 1)] (sampleGateCall 3 "first") [sampleReorg 3 "first"]
    (sampleGateCall 2 "second") [] rfl sampleGateCall_allowed rfl (by decide +kernel)
    (by decide +kernel)

/-- With nothing but forward steps in between it stalls. -/
theorem equivocationStalls_of_onlyForward_applied :
    ((sampleGateCall 3 "first").decide sampleCertifiedEnv
      (runSteps sampleCertifiedEnv samplePointed [.apply 7 (sampleVoted 1 1)])).1 = .allow ∧
    EquivocationStalls sampleCertifiedEnv samplePointed
      [.apply 7 (sampleVoted 1 1), .gate (sampleGateCall 3 "first"), .apply 8 (sampleVoted 2 1),
        .checkpoint 2 (zeros 32) (zeros 32), .gate (sampleGateCall 2 "second")] := by
  refine ⟨sampleGateCall_allowed, equivocationStalls_of_onlyForward (fun _ _ _ _ _ => rfl) rfl _ ?_⟩
  intro s inside
  simp only [foldSteps, List.mem_cons, List.not_mem_nil, or_false] at inside
  rcases inside with rfl | rfl | rfl | rfl | rfl <;> exact not_false

end CatalystNode
