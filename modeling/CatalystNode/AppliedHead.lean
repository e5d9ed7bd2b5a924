import CatalystNode.DatabaseApply

namespace CatalystNode

open ByteVector HexCodec MachineInt Store Effects FoldTrace SparseTree

section Sequences

variable (env : DatabaseEnv)

def applyStep (db : Database) (step : UInt64 × LedgerStateUpdate) : Database :=
  endState (applyLsuToDatabase (env.atTime step.1) step.2 db)

def applySteps (db : Database) (steps : List (UInt64 × LedgerStateUpdate)) : Database :=
  steps.foldl (applyStep env) db

def strictRecords : UInt64 → List (UInt64 × LedgerStateUpdate) → List (UInt64 × LedgerStateUpdate)
  | _, [] => []
  | head, step :: steps =>
    if step.2.cycleNumber ≤ head then strictRecords head steps
    else step :: strictRecords step.2.cycleNumber steps

variable {env} {db : Database} {step : UInt64 × LedgerStateUpdate}

theorem applyStep_skip (below : step.2.cycleNumber ≤ lastAppliedCycle db.toStore) :
    applyStep env db step = db := by
  rw [applyStep, applyLsuToDatabase_skip below, endState]

theorem lastAppliedCycle_applyStep_of_above (above : lastAppliedCycle db.toStore < step.2.cycleNumber) :
    lastAppliedCycle (applyStep env db step).toStore = step.2.cycleNumber := by
  rw [applyStep, lastAppliedCycle_applyLsuToDatabase, if_neg (UInt64.not_le.mpr above)]

theorem le_lastAppliedCycle_applyStep (env : DatabaseEnv) (db : Database)
    (step : UInt64 × LedgerStateUpdate) :
    lastAppliedCycle db.toStore ≤ lastAppliedCycle (applyStep env db step).toStore := by
  by_cases below : step.2.cycleNumber ≤ lastAppliedCycle db.toStore
  · rw [applyStep_skip below]
    exact UInt64.le_refl _
  · have above := UInt64.not_le.mp below
    rw [lastAppliedCycle_applyStep_of_above above]
    exact UInt64.le_of_lt above

theorem le_lastAppliedCycle_applySteps {cycle : UInt64}
    (reached : cycle ≤ lastAppliedCycle db.toStore) (steps : List (UInt64 × LedgerStateUpdate)) :
    cycle ≤ lastAppliedCycle (applySteps env db steps).toStore := by
  refine foldl_invariant (P := fun after : Database => cycle ≤ lastAppliedCycle after.toStore)
    reached ?_
  intro after step _ reached
  exact UInt64.le_trans reached (le_lastAppliedCycle_applyStep env after step)

theorem headAt_applyStep (above : lastAppliedCycle db.toStore < step.2.cycleNumber) :
    HeadAt step.2.cycleNumber (hashData env.tx.blake2b512 step.2)
      (subtreeRoot (hNode env.sha256) (leafAt env.sha256 (leafMapFromIter env.sha256
        (applyStep env db step).accounts.toList)) treeDepth 0) (applyStep env db step).toStore := by
  obtain ⟨root, db', run, applied⟩ := @applyLsuToDatabase_apply (env.atTime step.1) step.2 db above
  obtain ⟨-, -, -, root', isRoot, built, -⟩ := computeRoots_spec env.sha256
    (applyLedger (env.atTime step.1).toApplyEnv db.toStore step.2).1.accounts.toList
  have stored : applyLsuToStorageLocked (env.atTime step.1).applying db.toStore step.2 =
      (_, .ok root') := applyLsuToStorageLocked_eq above built
  have same : root = root' := by
    simp only [applyLsuToDatabase, stored, if_neg (UInt64.not_le.mpr above)] at run
    cases run
    rfl
  have reached : applyStep env db step = db' := by rw [applyStep, run, endState]
  rw [reached, applied.accounts, ← isRoot, ← same]
  exact applied.head

theorem strictRecords_sublist (head : UInt64) (steps : List (UInt64 × LedgerStateUpdate)) :
    (strictRecords head steps).Sublist steps := by
  induction steps generalizing head with
  | nil => exact List.Sublist.refl _
  | cons step steps ih =>
    rw [strictRecords]
    split
    next => exact (ih head).cons step
    next => exact (ih step.2.cycleNumber).cons_cons step

theorem strictRecords_ascending (head : UInt64) (steps : List (UInt64 × LedgerStateUpdate)) :
    (head :: (strictRecords head steps).map (fun step => step.2.cycleNumber)).Pairwise (· < ·) := by
  induction steps generalizing head with
  | nil => exact List.pairwise_singleton _ _
  | cons step steps ih =>
    rw [strictRecords]
    split
    next => exact ih head
    next notBelow =>
      have above := UInt64.not_le.mp notBelow
      have rest := ih step.2.cycleNumber
      rw [List.map_cons, List.pairwise_cons]
      refine ⟨?_, rest⟩
      intro cycle listed
      rcases List.mem_cons.mp listed with rfl | later
      · exact above
      · exact UInt64.lt_trans above ((List.pairwise_cons.mp rest).1 cycle later)

theorem applySteps_strictRecords (env : DatabaseEnv) (db : Database)
    (steps : List (UInt64 × LedgerStateUpdate)) :
    applySteps env db (strictRecords (lastAppliedCycle db.toStore) steps) =
      applySteps env db steps := by
  induction steps generalizing db with
  | nil => rfl
  | cons step steps ih =>
    rw [strictRecords]
    split
    next below =>
      rw [ih db, applySteps, applySteps, List.foldl_cons, applyStep_skip below]
    next notBelow =>
      have head := @lastAppliedCycle_applyStep_of_above env db step (UInt64.not_le.mp notBelow)
      have rest := ih (applyStep env db step)
      rw [head] at rest
      exact rest

end Sequences

/-- Along every sequence of applies the recorded head never goes back, an update at or below it changes
nothing, an update above it leaves its own cycle, its hash and the root of the accounts as the head,
and the whole sequence does what its strict records do. -/
theorem appliedHead_monotone (env : DatabaseEnv) (db : Database)
    (steps : List (UInt64 × LedgerStateUpdate)) :
    (∀ done later, steps = done ++ later → lastAppliedCycle (applySteps env db done).toStore ≤
      lastAppliedCycle (applySteps env db steps).toStore) ∧
    (∀ here ∈ foldSteps (applyStep env) db steps,
      (here.2.2.cycleNumber ≤ lastAppliedCycle here.1.toStore → applyStep env here.1 here.2 = here.1) ∧
      (lastAppliedCycle here.1.toStore < here.2.2.cycleNumber →
        HeadAt here.2.2.cycleNumber (hashData env.tx.blake2b512 here.2.2)
          (subtreeRoot (hNode env.sha256) (leafAt env.sha256 (leafMapFromIter env.sha256
            (applyStep env here.1 here.2).accounts.toList)) treeDepth 0)
          (applyStep env here.1 here.2).toStore)) ∧
    (strictRecords (lastAppliedCycle db.toStore) steps).Sublist steps ∧
    (lastAppliedCycle db.toStore :: (strictRecords (lastAppliedCycle db.toStore) steps).map
      (fun step => step.2.cycleNumber)).Pairwise (· < ·) ∧
    applySteps env db steps =
      applySteps env db (strictRecords (lastAppliedCycle db.toStore) steps) := by
  refine ⟨?_, fun step _ => ⟨applyStep_skip, headAt_applyStep⟩, strictRecords_sublist _ _,
    strictRecords_ascending _ _, (applySteps_strictRecords env db steps).symm⟩
  rintro done later rfl
  rw [applySteps, applySteps, List.foldl_append]
  exact le_lastAppliedCycle_applySteps (UInt64.le_refl _) later

end CatalystNode
