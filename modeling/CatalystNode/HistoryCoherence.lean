import CatalystNode.CertifiedRuns
import CatalystNode.CycleHistory

namespace CatalystNode

open ByteVector HexCodec MachineInt Store Effects FoldTrace

/-- Bytes that stand for an update: its encoding, or any that decode to it. -/
def IsBytesOf (lsu : LedgerStateUpdate) (bytes : Bytes) : Prop :=
  bytes = serialize lsu ∨ deserialize bytes = some lsu

structure Belonging where
  cid : LedgerStateUpdate → String → Prop
  stateRoot : LedgerStateUpdate → Hash → Prop

structure PersistCall where
  dfs : Option ContentStore
  certifiedOnly : Bool
  cycle : UInt64
  lsu : LedgerStateUpdate
  lsuBytes : Bytes
  cid : String
  stateRoot : Hash
  finalityCidHint : String

inductive HistoryStep where
  | persist (call : PersistCall)
  | apply (nowMs : UInt64) (lsu : LedgerStateUpdate)
  | trustedApply (nowMs : UInt64) (lsu : LedgerStateUpdate) (expectedPrev newRoot : Hash)

section Model

variable {F G : Type} [Field F] [AddCommGroup G] [Module F G] [DecidableEq G]
  (env : ReconcileEnv F G) (belonging : Belonging) (known : Set LedgerStateUpdate)

def trustedOutcome (nowMs : UInt64) (lsu : LedgerStateUpdate) (expectedPrev newRoot : Hash)
    (db : Database) : Store × Except String Bool :=
  applyLsuToStorageWithoutRootCheck ((env.database.atTime nowMs).trusting db lsu.cycleNumber)
    db.toStore lsu expectedPrev newRoot

def HistoryStep.run (db : Database) : HistoryStep → Database
  | .persist call => db.onStore (fun store => persistLsuHistory env.node call.dfs call.certifiedOnly
      call.cycle store call.lsuBytes (hashData env.node.blake2b512 call.lsu) call.cid call.stateRoot
      call.finalityCidHint)
  | .apply nowMs lsu => endState (applyLsuToDatabase (env.database.atTime nowMs) lsu db)
  | .trustedApply nowMs lsu expectedPrev newRoot =>
    { db with toStore := (trustedOutcome env nowMs lsu expectedPrev newRoot db).1 }

/-- A call is for a known update and carries what belongs to it. -/
def HistoryStep.Truthful : HistoryStep → Prop
  | .persist call => call.lsu ∈ known ∧ IsBytesOf call.lsu call.lsuBytes ∧ call.cid ≠ "" ∧
      belonging.cid call.lsu call.cid ∧ belonging.stateRoot call.lsu call.stateRoot
  | .apply _ lsu | .trustedApply _ lsu _ _ => lsu ∈ known

structure DescribesOne (history : HistoryField → Option Bytes) (lsu : LedgerStateUpdate) : Prop where
  known : lsu ∈ known
  bytes : ∃ bytes, history .lsu = some bytes ∧ IsBytesOf lsu bytes
  hash : history .hash = some (hashData env.node.blake2b512 lsu).toList
  cid : ∃ cid, history .cid = some (utf8 cid) ∧ belonging.cid lsu cid
  stateRoot : ∃ root : Hash, history .stateRoot = some root.toList ∧ belonging.stateRoot lsu root

def Coherent (store : Store) : Prop :=
  ∀ cycle, (store.history cycle .hash).isSome →
    (store.history cycle .stateRoot).isSome ∨ (store.history cycle .cid).isSome →
    ∃ lsu, DescribesOne env belonging known (store.history cycle) lsu

def UnclaimedOrOf (history : HistoryField → Option Bytes) (lsu : LedgerStateUpdate) : Prop :=
  history .cid = none ∧ history .stateRoot = none ∨
    (∃ cid, history .cid = some (utf8 cid) ∧ belonging.cid lsu cid) ∧
      ∃ root : Hash, history .stateRoot = some root.toList ∧ belonging.stateRoot lsu root

/-- An apply that takes effect finds no root and no content id of another update. -/
def HistoryStep.FindsOwn (db : Database) : HistoryStep → Prop
  | .persist _ => True
  | .apply _ lsu => lastAppliedCycle db.toStore < lsu.cycleNumber →
      UnclaimedOrOf belonging (db.history lsu.cycleNumber) lsu
  | .trustedApply nowMs lsu expectedPrev newRoot =>
      (trustedOutcome env nowMs lsu expectedPrev newRoot db).2 = .ok true →
      UnclaimedOrOf belonging (db.history lsu.cycleNumber) lsu

end Model

section Applied

variable {F G : Type} {env : ReconcileEnv F G} {belonging : Belonging}
  {known : Set LedgerStateUpdate} {lsu : LedgerStateUpdate} {s t : Store}

theorem coherent_congr (same : t.metadata = s.metadata) :
    Coherent env belonging known t ↔ Coherent env belonging known s := by
  have history : t.history = s.history :=
    funext fun cycle => history_congr (fun field => congrArg (·[field.key cycle]?) same)
  unfold Coherent
  rw [history]

/-- Known updates are told apart by the hash that is recorded. -/
theorem DescribesOne.eq (distinct : Set.InjOn (hashData env.node.blake2b512) known)
    (listed : lsu ∈ known) {history : HistoryField → Option Bytes} {lsu' : LedgerStateUpdate}
    (describes : DescribesOne env belonging known history lsu')
    (hash : history .hash = some (hashData env.node.blake2b512 lsu).toList) : lsu' = lsu := by
  have same := describes.hash.symm.trans hash
  exact distinct describes.known listed (Subtype.ext (Option.some.inj same))

theorem AppliedHistory.own {lsuHash : Hash} (applied : AppliedHistory lsu lsuHash s t) :
    t.history lsu.cycleNumber = historyWith lsu lsuHash s lsu.cycleNumber := by
  rcases applied lsu.cycleNumber with written | ⟨below, -⟩
  · exact written
  · unfold pruningBound at below
    split at below
    next => exact absurd below (UInt64.lt_irrefl _)
    next => exact absurd below UInt64.not_lt_zero

/-- An apply that is recorded keeps the records coherent exactly if it finds its own. -/
theorem coherent_applied_iff (distinct : Set.InjOn (hashData env.node.blake2b512) known)
    (listed : lsu ∈ known) (before : Coherent env belonging known s)
    (applied : AppliedHistory lsu (hashData env.node.blake2b512 lsu) s t) :
    Coherent env belonging known t ↔ UnclaimedOrOf belonging (s.history lsu.cycleNumber) lsu := by
  have own := applied.own
  have hash : t.history lsu.cycleNumber .hash = some (hashData env.node.blake2b512 lsu).toList := by
    rw [own, historyWith_self]
  have bytes : t.history lsu.cycleNumber .lsu = some (serialize lsu) := by
    rw [own, historyWith_self]
  have cid : t.history lsu.cycleNumber .cid = s.history lsu.cycleNumber .cid := by
    rw [own, historyWith_self]
    rfl
  have root : t.history lsu.cycleNumber .stateRoot = s.history lsu.cycleNumber .stateRoot := by
    rw [own, historyWith_self]
    rfl
  constructor
  · intro after
    by_cases claimed : (s.history lsu.cycleNumber .stateRoot).isSome ∨
        (s.history lsu.cycleNumber .cid).isSome
    · rw [← root, ← cid] at claimed
      obtain ⟨lsu', describes⟩ := after lsu.cycleNumber (by rw [hash]; rfl) claimed
      have same := describes.eq distinct listed hash
      subst same
      exact .inr ⟨cid ▸ describes.cid, root ▸ describes.stateRoot⟩
    · rw [not_or, Option.not_isSome_iff_eq_none, Option.not_isSome_iff_eq_none] at claimed
      exact .inl ⟨claimed.2, claimed.1⟩
  · intro finds cycle hashed claimed
    by_cases here : lsu.cycleNumber = cycle
    · subst here
      rw [root, cid] at claimed
      rcases finds with ⟨noCid, noRoot⟩ | ⟨ownCid, ownRoot⟩
      · rw [noCid, noRoot] at claimed
        rcases claimed with none | none <;> cases none
      · exact ⟨lsu, listed, ⟨_, bytes, .inl rfl⟩, hash, cid ▸ ownCid, root ▸ ownRoot⟩
    · rcases applied cycle with kept | ⟨-, gone⟩
      · rw [historyWith_of_ne here] at kept
        rw [kept] at hashed claimed ⊢
        exact before cycle hashed claimed
      · rw [gone] at hashed
        cases hashed

end Applied

section Steps

variable {F G : Type} [Field F] [AddCommGroup G] [Module F G] [DecidableEq G]
  {env : ReconcileEnv F G} {belonging : Belonging} {known : Set LedgerStateUpdate} {db : Database}

theorem coherent_persist (distinct : Set.InjOn (hashData env.node.blake2b512) known)
    {call : PersistCall} (truthful : (HistoryStep.persist call).Truthful belonging known)
    (before : Coherent env belonging known db.toStore) :
    Coherent env belonging known ((HistoryStep.persist call).run env db).toStore := by
  obtain ⟨listed, bytes, cidPresent, ownCid, ownRoot⟩ := truthful
  intro cycle
  have history := @history_persistLsuHistory F G _ _ _ _ env.node call.dfs call.certifiedOnly
    call.cycle db.toStore call.lsuBytes (hashData env.node.blake2b512 call.lsu) call.cid
    call.stateRoot call.finalityCidHint cycle
  change (((HistoryStep.persist call).run env db).toStore).history cycle = _ at history
  rw [history]
  split
  next => exact before cycle
  next takes =>
    rw [not_or, not_not] at takes
    obtain ⟨rfl, -⟩ := takes
    intro _ _
    by_cases settled : RecipeSettled db.toStore call.cycle (hashData env.node.blake2b512 call.lsu)
    · -- what is settled already describes an update with this hash
      obtain ⟨lsu', describes⟩ := before call.cycle (Option.isSome_iff_exists.mpr ⟨_, settled.1⟩)
        (.inl settled.2)
      have same := describes.eq distinct listed settled.1
      subst same
      refine ⟨call.lsu, listed, ⟨_, rfl, bytes⟩, rfl, ?_, ?_⟩
      · simp only [settled, true_or, if_true]
        exact describes.cid
      · simp only [settled, if_true]
        exact describes.stateRoot
    · refine ⟨call.lsu, listed, ⟨_, rfl, bytes⟩, rfl, ⟨call.cid, ?_, ownCid⟩,
        ⟨call.stateRoot, ?_, ownRoot⟩⟩
      · simp only [settled, cidPresent, or_self, if_false]
      · simp only [settled, if_false]

/-- One call keeps the records coherent exactly if it finds its own. -/
theorem coherent_run_iff (keeps : KeepsMetadata env.database.runtime)
    (distinct : Set.InjOn (hashData env.node.blake2b512) known) {step : HistoryStep}
    (truthful : step.Truthful belonging known)
    (before : Coherent env belonging known db.toStore) :
    Coherent env belonging known (step.run env db).toStore ↔ step.FindsOwn env belonging db := by
  have hash : ∀ nowMs (lsu : LedgerStateUpdate),
      hashData (env.database.atTime nowMs).tx.blake2b512 lsu = hashData env.node.blake2b512 lsu := by
    intro nowMs lsu
    rw [env.sameHash]
    rfl
  cases step with
  | persist call => exact iff_of_true (coherent_persist distinct truthful before) trivial
  | apply nowMs lsu =>
    by_cases above : lastAppliedCycle db.toStore < lsu.cycleNumber
    · have applied := @appliedHistory_applyLsuToDatabase (env.database.atTime nowMs) lsu keeps db above
      rw [hash] at applied
      exact (coherent_applied_iff distinct truthful before applied).trans
        ⟨fun finds _ => finds, fun finds => finds above⟩
    · have skipped : (HistoryStep.apply nowMs lsu).run env db = db := by
        rw [HistoryStep.run, applyLsuToDatabase_skip (UInt64.not_lt.mp above), endState]
      rw [skipped]
      exact iff_of_true before (fun takes => absurd takes above)
  | trustedApply nowMs lsu expectedPrev newRoot =>
    rcases @history_trustedApply (env.database.atTime nowMs) lsu keeps db expectedPrev newRoot with
      ⟨failed, same⟩ | ⟨passed, -, applied⟩
    · exact iff_of_true ((coherent_congr same).mpr before) (fun passed => absurd passed failed)
    · rw [hash] at applied
      exact (coherent_applied_iff distinct truthful before applied).trans
        ⟨fun finds _ => finds, fun finds => finds passed⟩

/-- In every run of calls that carry what belongs to their updates, the records of every cycle describe
one update in every state reached exactly if every apply that takes effect finds no root and no
content id of another update. -/
theorem cycleRecords_coherent_iff (keeps : KeepsMetadata env.database.runtime)
    (distinct : Set.InjOn (hashData env.node.blake2b512) known) (db : Database)
    (start : Coherent env belonging known db.toStore) (steps : List HistoryStep)
    (truthful : ∀ step ∈ steps, step.Truthful belonging known) :
    (∀ before after, steps = before ++ after →
        Coherent env belonging known (before.foldl (HistoryStep.run env) db).toStore) ↔
      ∀ s ∈ foldSteps (HistoryStep.run env) db steps, s.2.FindsOwn env belonging s.1 :=
  forall_reached_iff (P := fun db : Database => Coherent env belonging known db.toStore) start
    (fun s listed here => coherent_run_iff keeps distinct
      (truthful s.2 (mem_of_mem_foldSteps listed)) here)

end Steps

section Samples

def sampleBelonging : Belonging where
  cid lsu cid := cid = if lsu.partialUpdate.timestamp = 1 then "first" else "second"
  stateRoot lsu root := root = padTo 32 [lsu.partialUpdate.timestamp.toUInt8]

def twoUpdates : Set LedgerStateUpdate := {sampleVoted 5 1, sampleVoted 5 2}

def persistFirst : HistoryStep :=
  .persist ⟨none, false, 5, sampleVoted 5 1, serialize (sampleVoted 5 1), "first", padTo 32 [1], ""⟩

theorem persistFirst_truthful : persistFirst.Truthful sampleBelonging twoUpdates :=
  ⟨.inl rfl, .inl rfl, by decide, rfl, rfl⟩

theorem distinct_twoUpdates : Set.InjOn (hashData checksum) twoUpdates := by
  have apart : hashData checksum (sampleVoted 5 1) ≠ hashData checksum (sampleVoted 5 2) := by
    decide +kernel
  rintro a (rfl | rfl) b (rfl | rfl) same
  · rfl
  · exact absurd same apart
  · exact absurd same.symm apart
  · rfl

theorem coherent_fresh :
    Coherent sampleReconcileEnv sampleBelonging twoUpdates Database.fresh.toStore := by
  intro cycle hashed
  rw [Store.history, Database.fresh, Store.getMetadata, Store.empty,
    Std.ExtTreeMap.getElem?_empty] at hashed
  cases hashed

end Samples

/-- One update is persisted and another one of its cycle is applied: the content id and the root of the
first stay next to the hash of the second. -/
theorem cycleRecords_mixed :
    Coherent sampleReconcileEnv sampleBelonging twoUpdates Database.fresh.toStore ∧
    (∀ step ∈ [persistFirst, .apply 7 (sampleVoted 5 2)], step.Truthful sampleBelonging twoUpdates) ∧
    ¬Coherent sampleReconcileEnv sampleBelonging twoUpdates
      ([persistFirst, .apply 7 (sampleVoted 5 2)].foldl (HistoryStep.run sampleReconcileEnv)
        .fresh).toStore := by
  refine ⟨coherent_fresh, ?_, fun coherent => ?_⟩
  · intro step listed
    simp only [List.mem_cons, List.not_mem_nil, or_false] at listed
    rcases listed with rfl | rfl
    · exact persistFirst_truthful
    · exact .inr rfl
  · have records : let after := ([persistFirst, .apply 7 (sampleVoted 5 2)].foldl
        (HistoryStep.run sampleReconcileEnv) .fresh).toStore
      after.history 5 .hash = some (hashData checksum (sampleVoted 5 2)).toList ∧
        after.history 5 .cid = some (utf8 "first") := by
      decide +kernel
    obtain ⟨lsu, describes⟩ := coherent 5 (by rw [records.1]; rfl) (.inr (by rw [records.2]; rfl))
    have second : lsu = sampleVoted 5 2 := describes.eq distinct_twoUpdates (.inr rfl) records.1
    obtain ⟨cid, recorded, own⟩ := describes.cid
    rw [records.2, own, second] at recorded
    exact absurd recorded (by decide +kernel)

/-- Applied first and persisted afterwards, the same update has all records of its cycle. -/
theorem cycleRecords_coherent_iff_applied :
    Coherent sampleReconcileEnv sampleBelonging twoUpdates
      ([.apply 7 (sampleVoted 5 1), persistFirst].foldl (HistoryStep.run sampleReconcileEnv)
        .fresh).toStore ∧
    ([.apply 7 (sampleVoted 5 1), persistFirst].foldl (HistoryStep.run sampleReconcileEnv)
      .fresh).toStore.history 5 .cid = some (utf8 "first") := by
  refine ⟨?_, by decide +kernel⟩
  have reached := (@cycleRecords_coherent_iff _ _ _ _ _ _ sampleReconcileEnv sampleBelonging
    twoUpdates (fun _ _ _ _ _ => rfl) distinct_twoUpdates .fresh coherent_fresh
    [.apply 7 (sampleVoted 5 1), persistFirst] ?_).mpr ?_
  · exact reached _ [] (List.append_nil _).symm
  · intro step listed
    simp only [List.mem_cons, List.not_mem_nil, or_false] at listed
    rcases listed with rfl | rfl
    · exact .inl rfl
    · exact persistFirst_truthful
  · intro s inside
    simp only [foldSteps, List.mem_cons, List.not_mem_nil, or_false] at inside
    rcases inside with rfl | rfl
    · exact fun _ => .inl (by decide +kernel)
    · exact trivial

end CatalystNode
