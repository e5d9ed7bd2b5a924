import CatalystNode.InboundSync
import CatalystNode.CanonicalSlot
import CatalystNode.WireCaps
import CatalystNode.RejectedApply

namespace CatalystNode

open ByteVector HexCodec MachineInt Store Effects FoldTrace

section Gate

variable {F G : Type} [Field F] [AddCommGroup G] [Module F G] [DecidableEq G] {env : NodeEnv F G}
  {dfs : Option ContentStore} {certifiedOnly : Bool} {cycle : UInt64} {store : Store}
  {lsu : LedgerStateUpdate} {lsuBytes : Bytes} {lsuHash : Hash} {cid : String} {stateRoot : Hash}
  {finalityCidHint : String}

theorem getMetadata_forkChoiceApplyGate {name : String}
    (other : certifiedHashMetadataKey cycle ≠ name) :
    (forkChoiceApplyGate env store dfs lsu cycle lsuHash finalityCidHint certifiedOnly).2.getMetadata
      name = store.getMetadata name := by
  rcases @forkChoiceApplyGate_store _ _ _ _ _ _ env store dfs lsu cycle lsuHash finalityCidHint
    certifiedOnly with same | ⟨-, written⟩
  · rw [same]
  · rw [written, getMetadata_setMetadata_of_ne _ _ other]

theorem history_forkChoiceApplyGate (read : UInt64) :
    (forkChoiceApplyGate env store dfs lsu cycle lsuHash finalityCidHint certifiedOnly).2.history
      read = store.history read := by
  refine history_congr (fun field => getMetadata_forkChoiceApplyGate ?_)
  have apart : certifiedHashMetadataKey cycle ≠ field.key read :=
    ne_historyKey (by decide) _ field
  exact apart

end Gate

def meta32 (store : Store) (key : String) : Option Hash := (store.getMetadata key).bind (toArray? 32)

section Model

variable {F G : Type} [Field F] [AddCommGroup G] [Module F G] [DecidableEq G]
  (env : ReconcileEnv F G) (dfs : Option ContentStore) (requireLsuFinality : Bool)

/-- Whether the applied root is the one recorded for the cycle before. Without such a record only a
state that was never applied to will do. -/
def prevRootMatches (store : Store) (cycle : UInt64) : Bool :=
  let expected := if cycle = 0 then some (zeros 32)
    else meta32 store (lsuStateRootKey (saturatingSubU64 cycle 1))
  localAppliedStateRoot store = expected.getD (zeros 32)

def tryApplyStoredLsuAtCycle (cycle : UInt64) (db : Database) : Database × Bool :=
  let head := lastAppliedCycle db.toStore
  if cycle ≠ saturatingAddU64 head 1 ∨ reconcileCircuitIsBroken db.failures head then (db, false)
  else match storedLsu env.database db.toStore cycle with
    | .error _ => (db, false)
    | .ok lsu =>
      let finalityCid := (metaString env.node db.toStore (lsuFinalityCidKey cycle)).getD ""
      let gate := forkChoiceApplyGate env.node db.toStore dfs lsu cycle
        (hashData env.database.tx.blake2b512 lsu) finalityCid requireLsuFinality
      let db := { db with toStore := gate.2 }
      if gate.1 ≠ .allow ∨ ¬prevRootMatches db.toStore cycle then (db, false)
      else if requireLsuFinality ∧ ¬dfs.elim false (fun dfs =>
          lsuHasVerifiedFinalityCert env.node db.toStore dfs lsu cycle finalityCid) then (db, false)
      else match meta32 db.toStore (lsuStateRootKey cycle) with
        | none => (db, false)
        | some expectedPost =>
          match applyLsuWithRootCheckLocked env.database lsu expectedPost db with
          | .ok applied db => (db, applied)
          | .error _ db => (db, false)

/-- Applies recorded updates one after another, up to a number of steps; every step has a time of its
own. Returns how many were applied. -/
def tryAdvanceAppliedHeadFromStorage (clock : Nat → UInt64) : Nat → Database → Database × Nat
  | 0, db => (db, 0)
  | maxSteps + 1, db =>
    let next := saturatingAddU64 (lastAppliedCycle db.toStore) 1
    let step := tryApplyStoredLsuAtCycle (env.atTime (clock maxSteps)) dfs requireLsuFinality next db
    if step.2 then
      let rest := tryAdvanceAppliedHeadFromStorage clock maxSteps step.1
      (rest.1, rest.2 + 1)
    else (step.1, 0)

end Model

section Records

variable {env : DatabaseEnv} {lsu : LedgerStateUpdate} {root : Hash}

structure RecordedUpdate (store : Store) (cycle : UInt64) (lsu : LedgerStateUpdate) (root : Hash) :
    Prop where
  update : ∃ bytes, store.getMetadata (lsuKey cycle) = some bytes ∧ deserialize bytes = some lsu
  stateRoot : meta32 store (lsuStateRootKey cycle) = some root

theorem RecordedUpdate.congr {s t : Store} {cycle : UInt64} (recorded : RecordedUpdate s cycle lsu root)
    (same : t.history cycle = s.history cycle) : RecordedUpdate t cycle lsu root := by
  obtain ⟨⟨bytes, stored, decoded⟩, rooted⟩ := recorded
  refine ⟨⟨bytes, (congrFun same .lsu).trans stored, decoded⟩, ?_⟩
  have kept : t.getMetadata (lsuStateRootKey cycle) = s.getMetadata (lsuStateRootKey cycle) :=
    congrFun same .stateRoot
  rw [meta32, kept]
  exact rooted

structure AppliedNext (env : DatabaseEnv) (lsu : LedgerStateUpdate) (root : Hash) (db db' : Database) :
    Prop where
  applied : ∃ nowMs, ∃ gated : Database, gated.accounts = db.accounts ∧
    Applied (env.atTime nowMs) lsu root gated db'
  computed : computeRootFromIter env.sha256 db'.accounts.toList = .ok root

theorem history_above_of_applied {lsuHash : Hash} {s t : Store} {cycle : UInt64}
    (applied : AppliedHistory lsu lsuHash s t) (above : lsu.cycleNumber < cycle) :
    t.history cycle = s.history cycle := by
  have bound : pruningBound s lsu.cycleNumber ≤ lsu.cycleNumber := by
    unfold pruningBound
    split
    next => exact UInt64.le_refl _
    next => exact UInt64.le_iff_toNat_le.mpr (Nat.zero_le _)
  rcases applied cycle with same | ⟨below, -⟩
  · rw [same, historyWith_of_ne (UInt64.ne_of_lt above)]
  · exact absurd (UInt64.lt_of_lt_of_le below bound) (UInt64.not_lt.mpr (UInt64.le_of_lt above))

theorem rootCheckedApply_next (keeps : KeepsMetadata env.runtime) {gated : Database}
    (above : lastAppliedCycle gated.toStore < lsu.cycleNumber) {applied : Bool} {db' : Database}
    (run : applyLsuWithRootCheckLocked env lsu root gated = .ok applied db') :
    (applied = false ∧ db'.accounts = gated.accounts ∧
      lastAppliedCycle db'.toStore = lastAppliedCycle gated.toStore) ∨
    (applied = true ∧ Applied env lsu root gated db' ∧
      ∀ later, lsu.cycleNumber < later → db'.toStore.history later = gated.toStore.history later) := by
  have ending := rootChecked env lsu root gated
  have history := @history_rootCheckedApply env lsu keeps root gated
  rw [run] at ending history
  cases ending with
  | skipped _ below => exact absurd below (UInt64.not_le.mpr above)
  | skippedOther below => exact absurd below (UInt64.not_le.mpr above)
  | applied _ applied =>
    refine .inr ⟨rfl, applied, fun later after => ?_⟩
    rcases history with same | ⟨-, recorded⟩
    · exact history_congr (fun field => congrArg (·[field.key later]?) same)
    · exact history_above_of_applied recorded after
  | reverted _ reverted =>
    exact .inl ⟨rfl, congrArg Columns.accounts reverted.columns,
      lastAppliedCycle_of_columns reverted.columns⟩

end Records

section Step

variable {F G : Type} [Field F] [AddCommGroup G] [Module F G] [DecidableEq G]
  {env : ReconcileEnv F G} {dfs : Option ContentStore} {requireLsuFinality : Bool} {db : Database}
  {lsu : LedgerStateUpdate} {root : Hash}

theorem forkChoiceApplyGate_frame {cycle : UInt64} {lsuHash : Hash} {finalityCidHint : String} :
    (forkChoiceApplyGate env.node db.toStore dfs lsu cycle lsuHash finalityCidHint
        requireLsuFinality).2.accounts = db.accounts ∧
      lastAppliedCycle (forkChoiceApplyGate env.node db.toStore dfs lsu cycle lsuHash finalityCidHint
        requireLsuFinality).2 = lastAppliedCycle db.toStore := by
  constructor
  · rcases @forkChoiceApplyGate_store F G _ _ _ _ env.node db.toStore dfs lsu cycle lsuHash
      finalityCidHint requireLsuFinality with same | ⟨-, written⟩
    · rw [same]
    · rw [written]
      rfl
  · have other : certifiedHashMetadataKey cycle ≠ "consensus:last_applied_cycle" := by
      intro same
      have under : UnderTag ["consensus:last_applied_"] (certifiedHashMetadataKey cycle) :=
        same ▸ (by decide)
      exact not_underTag_append (by decide) _ under
    rw [lastAppliedCycle, getMetadata_forkChoiceApplyGate other]
    rfl

/-- A step of the catch-up changes neither accounts nor head, or applies the recorded update of its
cycle with the recorded root and leaves the records of later cycles. -/
theorem tryApplyStoredLsuAtCycle_cases (keeps : KeepsMetadata env.database.runtime) {cycle : UInt64}
    (next : cycle.toNat = (lastAppliedCycle db.toStore).toNat + 1) {db' : Database} {applied : Bool}
    (step : tryApplyStoredLsuAtCycle env dfs requireLsuFinality cycle db = (db', applied)) :
    (applied = false ∧ db'.accounts = db.accounts ∧
      lastAppliedCycle db'.toStore = lastAppliedCycle db.toStore) ∨
    (applied = true ∧ ∃ lsu root, lsu.cycleNumber = cycle ∧ RecordedUpdate db.toStore cycle lsu root ∧
      AppliedNext env.database lsu root db db' ∧
      ∀ later, cycle < later → db'.toStore.history later = db.toStore.history later) := by
  unfold tryApplyStoredLsuAtCycle at step
  dsimp only at step
  split at step
  next =>
    cases step
    exact .inl ⟨rfl, rfl, rfl⟩
  next =>
    split at step
    next =>
      cases step
      exact .inl ⟨rfl, rfl, rfl⟩
    next lsu stored =>
      let gate := forkChoiceApplyGate env.node db.toStore dfs lsu cycle
        (hashData env.database.tx.blake2b512 lsu)
        ((metaString env.node db.toStore (lsuFinalityCidKey cycle)).getD "") requireLsuFinality
      have frame : gate.2.accounts = db.accounts ∧ lastAppliedCycle gate.2 = lastAppliedCycle db.toStore :=
        forkChoiceApplyGate_frame
      have history : ∀ cycle, gate.2.history cycle = db.toStore.history cycle :=
        fun cycle => history_forkChoiceApplyGate cycle
      split at step
      next =>
        cases step
        exact .inl ⟨rfl, frame⟩
      next =>
        split at step
        next =>
          cases step
          exact .inl ⟨rfl, frame⟩
        next =>
          split at step
          next =>
            cases step
            exact .inl ⟨rfl, frame⟩
          next expected recorded =>
            obtain ⟨update, numbered, -⟩ := storedLsu_eq_ok.mp stored
            have rooted : RecordedUpdate db.toStore cycle lsu expected :=
              ⟨update, (congrArg (·.bind (toArray? 32)) (congrFun (history cycle) .stateRoot)).symm.trans
                recorded⟩
            have above : lastAppliedCycle gate.2 < lsu.cycleNumber := by
              rw [frame.2, numbered, UInt64.lt_iff_toNat_lt]
              omega
            split at step
            next done after run =>
              cases step
              rcases @rootCheckedApply_next env.database lsu expected keeps { db with toStore := gate.2 }
                above applied db' run with ⟨failed, accounts, head⟩ | ⟨rfl, applied, later⟩
              · exact .inl ⟨failed, accounts.trans frame.1, head.trans frame.2⟩
              · have computed := @computeRoot_of_verified env.database lsu expected
                  { db with toStore := gate.2 } db' above run
                refine .inr ⟨rfl, lsu, expected, numbered, rooted, ⟨⟨env.database.nowMs,
                  { db with toStore := gate.2 }, frame.1, applied⟩, computed⟩, fun cycle' after => ?_⟩
                exact (later cycle' (numbered ▸ after)).trans (history cycle')
            next stopped after run =>
              cases step
              have ending := rootChecked env.database lsu expected { db with toStore := gate.2 }
              rw [run] at ending
              cases ending
              exact .inl ⟨rfl, frame⟩

inductive CaughtUp (env : DatabaseEnv) : Database → List (LedgerStateUpdate × Hash) → Database → Prop
  | stop {db db' : Database} : db'.accounts = db.accounts → CaughtUp env db [] db'
  | apply {db db₁ db' : Database} {lsu : LedgerStateUpdate} {root : Hash}
      {rest : List (LedgerStateUpdate × Hash)} : AppliedNext env lsu root db db₁ →
      CaughtUp env db₁ rest db' → CaughtUp env db ((lsu, root) :: rest) db'

/-- A catch-up applies the updates recorded for the cycles after the head, with the roots recorded for
them. -/
theorem tryAdvance_spec (keeps : KeepsMetadata env.database.runtime) (clock : Nat → UInt64)
    (maxSteps : Nat) (db : Database)
    (room : (lastAppliedCycle db.toStore).toNat + maxSteps < 2 ^ 64) :
    ∃ (updates : List (LedgerStateUpdate × Hash)) (db' : Database),
      tryAdvanceAppliedHeadFromStorage env dfs requireLsuFinality clock maxSteps db =
        (db', updates.length) ∧
      updates.length ≤ maxSteps ∧
      (lastAppliedCycle db'.toStore).toNat = (lastAppliedCycle db.toStore).toNat + updates.length ∧
      updates.map (·.1.cycleNumber.toNat) =
        List.range' ((lastAppliedCycle db.toStore).toNat + 1) updates.length ∧
      (∀ p ∈ updates, RecordedUpdate db.toStore p.1.cycleNumber p.1 p.2) ∧
      CaughtUp env.database db updates db' := by
  induction maxSteps generalizing db with
  | zero => exact ⟨[], db, rfl, Nat.le_refl 0, rfl, rfl, by simp, .stop rfl⟩
  | succ maxSteps ih =>
    let next := saturatingAddU64 (lastAppliedCycle db.toStore) 1
    have number : next.toNat = (lastAppliedCycle db.toStore).toNat + 1 := by
      have sum := toNat_saturatingAddU64 (lastAppliedCycle db.toStore) 1
      have one : (1 : UInt64).toNat = 1 := rfl
      rw [one] at sum
      exact sum.trans (by omega)
    unfold tryAdvanceAppliedHeadFromStorage
    dsimp only
    rcases step : tryApplyStoredLsuAtCycle (env.atTime (clock maxSteps)) dfs requireLsuFinality next db
      with ⟨db₁, applied⟩
    have outcome := @tryApplyStoredLsuAtCycle_cases F G _ _ _ _ (env.atTime (clock maxSteps)) dfs
      requireLsuFinality db keeps next number db₁ applied step
    rcases outcome with ⟨rfl, accounts, head⟩ | ⟨rfl, lsu, root, numbered, recorded, applied, later⟩
    · refine ⟨[], db₁, rfl, Nat.zero_le _, by rw [head]; rfl, rfl, by simp, .stop accounts⟩
    · -- the head is at the applied update now, and the records after it are those from before
      obtain ⟨⟨nowMs, gated, same, apply⟩, computed⟩ := applied
      have head : lastAppliedCycle db₁.toStore = next :=
        apply.head.lastAppliedCycle_eq.trans numbered
      obtain ⟨updates, db', run, short, reached, cycles, records, caught⟩ := ih db₁ (by
        rw [head, number]
        omega)
      refine ⟨(lsu, root) :: updates, db', ?_, ?_, ?_, ?_, ?_, ?_⟩
      · rw [if_pos rfl, run]
        rfl
      · rw [List.length_cons]
        omega
      · rw [reached, head, number, List.length_cons]
        omega
      · rw [List.map_cons, List.length_cons, List.range'_succ, cycles, head, number, numbered, number]
      · intro p listed
        rcases List.mem_cons.mp listed with rfl | listed
        · exact numbered ▸ recorded
        · have reachedLater : next < p.1.cycleNumber := by
            have inside := List.mem_map_of_mem (f := fun p : LedgerStateUpdate × Hash =>
              p.1.cycleNumber.toNat) listed
            rw [cycles, List.mem_range'_1, head] at inside
            rw [UInt64.lt_iff_toNat_lt]
            omega
          exact (records p listed).congr (later _ reachedLater).symm
      · exact .apply ⟨⟨nowMs, gated, same, apply⟩, computed⟩ caught

end Step

/-- A catch-up of at most the given number of steps takes the head as many cycles further as it
reports, by the updates recorded for these cycles and with the roots recorded for them; if there are
none, the accounts are as before. -/
theorem catchUp_exact {F G : Type} [Field F] [AddCommGroup G] [Module F G] [DecidableEq G]
    (env : ReconcileEnv F G) (keeps : KeepsMetadata env.database.runtime) (dfs : Option ContentStore)
    (requireLsuFinality : Bool) (clock : Nat → UInt64) (maxSteps : UInt32) (db : Database)
    (room : (lastAppliedCycle db.toStore).toNat + maxSteps.toNat < 2 ^ 64) :
    ∃ (k : Nat) (updates : List (LedgerStateUpdate × Hash)) (db' : Database),
      tryAdvanceAppliedHeadFromStorage env dfs requireLsuFinality clock maxSteps.toNat db = (db', k) ∧
      k ≤ maxSteps.toNat ∧
      (lastAppliedCycle db'.toStore).toNat = (lastAppliedCycle db.toStore).toNat + k ∧
      updates.map (·.1.cycleNumber.toNat) =
        List.range' ((lastAppliedCycle db.toStore).toNat + 1) k ∧
      (∀ p ∈ updates, RecordedUpdate db.toStore p.1.cycleNumber p.1 p.2) ∧
      CaughtUp env.database db updates db' ∧ (k = 0 → db'.accounts = db.accounts) := by
  obtain ⟨updates, db', run, short, reached, cycles, records, caught⟩ :=
    @tryAdvance_spec F G _ _ _ _ env dfs requireLsuFinality keeps clock maxSteps.toNat db room
  refine ⟨updates.length, updates, db', run, short, reached, cycles, records, caught, fun none => ?_⟩
  cases caught with
  | stop accounts => exact accounts
  | apply => simp at none

def sampleReceived : Database :=
  Database.fresh.onStore (fun store => (store.setMetadata (lsuKey 1)
    (serialize (sampleVoted 1 1))).setMetadata (lsuStateRootKey 1) (zeros 32).toList)

/-- Of three steps the first applies the update of cycle 1, and there is no second. -/
theorem catchUp_exact_received :
    (tryAdvanceAppliedHeadFromStorage sampleReconcileEnv none false (fun _ => 1000) 3
      sampleReceived).2 = 1 ∧
    ∃ updates db',
      tryAdvanceAppliedHeadFromStorage sampleReconcileEnv none false (fun _ => 1000) 3 sampleReceived =
        (db', 1) ∧
      (lastAppliedCycle db'.toStore).toNat = 1 ∧
      (∀ p ∈ updates, RecordedUpdate sampleReceived.toStore p.1.cycleNumber p.1 p.2) ∧
      CaughtUp sampleDatabaseEnv sampleReceived updates db' := by
  have one : (tryAdvanceAppliedHeadFromStorage sampleReconcileEnv none false (fun _ => 1000) 3
    sampleReceived).2 = 1 := by decide +kernel
  have start : lastAppliedCycle sampleReceived.toStore = 0 := by decide +kernel
  obtain ⟨k, updates, db', run, -, reached, -, records, caught, -⟩ := catchUp_exact sampleReconcileEnv
    (fun _ _ _ _ _ => rfl) none false (fun _ => 1000) 3 sampleReceived (by rw [start]; decide)
  have steps : k = 1 := by
    rw [← one]
    exact (congrArg Prod.snd run).symm
  subst steps
  refine ⟨one, updates, db', run, ?_, records, caught⟩
  rw [reached, start]
  rfl

end CatalystNode
