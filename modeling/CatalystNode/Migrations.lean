import CatalystNode.FoldTrace

namespace CatalystNode

open FoldTrace

structure Migration where
  version : Nat
  name : String
  description : String

/-- The migrations in the order of their versions, which are positive and distinct. -/
structure MigrationManager where
  migrations : List Migration
  sorted : migrations.Pairwise (fun m n => m.version < n.version)
  positive : ∀ m ∈ migrations, 0 < m.version

structure MigrationRecord where
  version : Nat
  name : String
  description : String
  appliedAt : Nat
  checksum : String

inductive MigrationError where
  | migration (message : String)
  | failed (reason : String)
  deriving DecidableEq, Repr

/-- The recorded version and history, and the versions whose `up` was executed and not undone. -/
structure MigrationState where
  version : Nat
  history : List MigrationRecord
  inEffect : List Nat

abbrev MigrationM := EStateM MigrationError MigrationState

/-- What the migrations do when they are called; a failing one has no effect. -/
structure MigrationCode where
  canApply : Migration → Except String Bool
  up : Migration → Except String Unit
  down : Migration → Except String Unit
  checksum : Migration → String
  now : Nat

namespace MigrationManager

def applyMigration (code : MigrationCode) (migration : Migration) : MigrationM Unit := do
  match code.canApply migration with
  | .error reason => throw (.failed reason)
  | .ok false =>
    throw (.migration s!"Migration '{migration.name}' cannot be safely applied")
  | .ok true => match code.up migration with
    | .error reason => throw (.failed reason)
    | .ok () =>
      modify (fun s => { s with inEffect := s.inEffect ++ [migration.version] })
      modify (fun s => { s with version := migration.version })
      modify (fun s => { s with
        history := s.history ++ [⟨migration.version, migration.name, migration.description, code.now,
          code.checksum migration⟩] })

def pending (manager : MigrationManager) (current : Nat) : List Migration :=
  manager.migrations.filter (fun m => current < m.version)

def runMigrations (manager : MigrationManager) (code : MigrationCode) : MigrationM Unit := do
  let current := (← get).version
  (manager.pending current).forM (applyMigration code)

def undo (code : MigrationCode) (migration : Migration) : MigrationM Unit :=
  match code.down migration with
  | .error reason => throw (.failed reason)
  | .ok () => modify (fun s => { s with inEffect := s.inEffect.filter (· ≠ migration.version) })

def rollbackMigrations (manager : MigrationManager) (target current : Nat) : List Migration :=
  (manager.migrations.filter (fun m => target < m.version ∧ m.version ≤ current)).reverse

def rollbackToVersion (manager : MigrationManager) (code : MigrationCode) (target : Nat) :
    MigrationM Unit := do
  let current := (← get).version
  if current ≤ target then
    throw (.migration s!"Target version {target} is not lower than current version {current}")
  else
    (manager.rollbackMigrations target current).forM (undo code)
    modify (fun s => { s with version := target })

end MigrationManager

inductive MigrationCall where
  | run (code : MigrationCode)
  | rollback (code : MigrationCode) (target : Nat)

namespace MigrationManager

def finalState : EStateM.Result MigrationError MigrationState Unit → MigrationState
  | .ok _ s => s
  | .error _ s => s

def call (manager : MigrationManager) (s : MigrationState) : MigrationCall → MigrationState
  | .run code => finalState (manager.runMigrations code s)
  | .rollback code target => finalState (manager.rollbackToVersion code target s)

def Matches (manager : MigrationManager) (s : MigrationState) : Prop :=
  ∀ v, v ∈ s.inEffect ↔ v ≤ s.version ∧ ∃ m ∈ manager.migrations, m.version = v

/-- A rollback is not stopped halfway: once the first `down` has succeeded, all others do. -/
def GoesThrough (manager : MigrationManager) (s : MigrationState) : MigrationCall → Prop
  | .run _ => True
  | .rollback code target => ∀ first rest, manager.rollbackMigrations target s.version = first :: rest →
      (code.down first).isOk → ∀ m ∈ rest, (code.down m).isOk

section Steps

variable {manager : MigrationManager} {s : MigrationState} {code : MigrationCode}

theorem pending_cons {current : Nat} {first : Migration} {rest : List Migration}
    (waiting : manager.pending current = first :: rest) : manager.pending first.version = rest := by
  have above : current < first.version := by
    have listed : first ∈ manager.pending current := waiting ▸ List.mem_cons_self
    simpa using (List.mem_filter.mp listed).2
  have sorted := manager.sorted.filter (fun m => decide (current < m.version))
  have twice : manager.pending first.version =
      (manager.pending current).filter (fun m => decide (first.version < m.version)) := by
    rw [pending, pending, List.filter_filter]
    refine List.filter_congr (fun m _ => ?_)
    by_cases later : first.version < m.version
    · simp [later, above.trans later]
    · simp [later]
  rw [← pending, waiting] at sorted
  rw [twice, waiting, List.filter_cons_of_neg (by simp), List.filter_eq_self]
  exact fun m listed => decide_eq_true ((List.pairwise_cons.mp sorted).1 m listed)

theorem applyMigration_cases (code : MigrationCode) (m : Migration) (s : MigrationState) :
    (∃ e, applyMigration code m s = .error e s) ∨
      ∃ history, applyMigration code m s = .ok () ⟨m.version, history, s.inEffect ++ [m.version]⟩ := by
  unfold applyMigration
  cases code.canApply m with
  | error reason => exact .inl ⟨_, rfl⟩
  | ok can =>
    cases can with
    | false => exact .inl ⟨_, rfl⟩
    | true =>
      cases code.up m with
      | error reason => exact .inl ⟨_, rfl⟩
      | ok _ => exact .inr ⟨_, rfl⟩

theorem Matches.up (matched : manager.Matches s) {m : Migration} {rest : List Migration}
    (waiting : manager.pending s.version = m :: rest) (history : List MigrationRecord) :
    manager.Matches ⟨m.version, history, s.inEffect ++ [m.version]⟩ := by
  have listed : m ∈ manager.pending s.version := waiting ▸ List.mem_cons_self
  obtain ⟨known, above⟩ := List.mem_filter.mp listed
  have above : s.version < m.version := by simpa using above
  intro v
  rw [List.mem_append, List.mem_singleton, matched v]
  constructor
  · rintro (⟨low, there⟩ | rfl)
    · exact ⟨low.trans above.le, there⟩
    · exact ⟨le_refl _, m, known, rfl⟩
  · rintro ⟨high, n, there, rfl⟩
    by_cases low : n.version ≤ s.version
    · exact .inl ⟨low, n, there, rfl⟩
    · have next : n ∈ m :: rest := by
        rw [← waiting]
        exact List.mem_filter.mpr ⟨there, by simpa using low⟩
      rcases List.mem_cons.mp next with rfl | later
      · exact .inr rfl
      · rw [← pending_cons waiting] at later
        have beyond : m.version < n.version := by simpa using (List.mem_filter.mp later).2
        exact absurd high (not_le.mpr beyond)

theorem Matches.forM_apply (matched : manager.Matches s) {list : List Migration}
    (waiting : manager.pending s.version = list) :
    manager.Matches (finalState (list.forM (applyMigration code) s)) := by
  induction list generalizing s with
  | nil => exact matched
  | cons m rest ih =>
    change manager.Matches (finalState (EStateM.bind (applyMigration code m) _ s))
    rw [EStateM.bind]
    rcases applyMigration_cases code m s with ⟨e, stops⟩ | ⟨history, goesOn⟩
    · rw [stops]
      exact matched
    · rw [goesOn]
      exact ih (matched.up waiting history) (pending_cons waiting)

def without (s : MigrationState) (undone : List Migration) : MigrationState :=
  { s with inEffect := s.inEffect.filter (fun v => v ∉ undone.map Migration.version) }

def undone (code : MigrationCode) (list : List Migration) : List Migration :=
  list.takeWhile (fun m => (code.down m).isOk)

theorem forM_undo (code : MigrationCode) (list : List Migration) (s : MigrationState) :
    undone code list = list ∧ list.forM (undo code) s = .ok () (without s list) ∨
      undone code list ≠ list ∧
        ∃ e, list.forM (undo code) s = .error e (without s (undone code list)) := by
  have empty : ∀ s : MigrationState, without s [] = s := fun s => by simp [without]
  induction list generalizing s with
  | nil => exact .inl ⟨rfl, by rw [empty]; rfl⟩
  | cons m rest ih =>
    have next : (m :: rest).forM (undo code) s = EStateM.bind (undo code m)
      (fun _ => rest.forM (undo code)) s := rfl
    rw [next, EStateM.bind, undo, undone, List.takeWhile_cons]
    cases down : code.down m with
    | error reason =>
      refine .inr ⟨by simp [Except.isOk, Except.toBool], .failed reason, ?_⟩
      simp only [Except.isOk, Except.toBool, Bool.false_eq_true, if_false, empty]
      rfl
    | ok _ =>
      have both : ∀ list, without { s with inEffect := s.inEffect.filter (· ≠ m.version) } list =
          without s (m :: list) := by
        intro list
        simp only [without, List.filter_filter, List.map_cons, List.mem_cons, not_or, Bool.decide_and,
          Bool.and_comm]
      rcases ih { s with inEffect := s.inEffect.filter (· ≠ m.version) } with ⟨all, done⟩ | ⟨some, e, stops⟩
      · refine .inl ⟨congrArg (m :: ·) all, ?_⟩
        rw [← both]
        exact done
      · refine .inr ⟨fun same => some (List.cons.inj same).2, e, ?_⟩
        rw [both] at stops
        exact stops

theorem goesThrough_iff (list : List Migration) :
    (∀ first rest, list = first :: rest → (code.down first).isOk → ∀ m ∈ rest, (code.down m).isOk) ↔
      undone code list = list ∨ undone code list = [] := by
  cases list with
  | nil => simp [undone]
  | cons first rest =>
    rw [undone, List.takeWhile_cons]
    cases ok : (code.down first).isOk with
    | false => simp [ok]
    | true => simp [ok, List.takeWhile_eq_self_iff]

theorem mem_rollbackMigrations {target current : Nat} {m : Migration} :
    m ∈ manager.rollbackMigrations target current ↔
      m ∈ manager.migrations ∧ target < m.version ∧ m.version ≤ current := by
  simp [rollbackMigrations]

theorem Matches.down (matched : manager.Matches s) {target : Nat} (lower : target < s.version) :
    manager.Matches
      { without s (manager.rollbackMigrations target s.version) with version := target } := by
  intro v
  simp only [without, List.mem_filter, decide_eq_true_eq, matched v, List.mem_map,
    mem_rollbackMigrations]
  constructor
  · rintro ⟨⟨low, m, there, rfl⟩, kept⟩
    refine ⟨?_, m, there, rfl⟩
    by_contra high
    exact kept ⟨m, ⟨there, not_le.mp high, low⟩, rfl⟩
  · rintro ⟨low, m, there, rfl⟩
    refine ⟨⟨low.trans lower.le, m, there, rfl⟩, ?_⟩
    rintro ⟨n, ⟨-, high, -⟩, same⟩
    exact absurd low (not_le.mpr (same ▸ high))

/-- After a rollback that was stopped the versions still match only if nothing was undone. -/
theorem Matches.stopped_iff (matched : manager.Matches s) {target : Nat} {list : List Migration}
    (from_list : list ⊆ manager.rollbackMigrations target s.version) :
    manager.Matches (without s list) ↔ list = [] := by
  constructor
  · intro still
    cases list with
    | nil => rfl
    | cons m rest =>
      obtain ⟨there, -, low⟩ := mem_rollbackMigrations.mp (from_list List.mem_cons_self)
      have held := (still m.version).mpr ⟨low, m, there, rfl⟩
      simp [without] at held
  · rintro rfl
    simpa [without] using matched

theorem matches_rollback_iff (matched : manager.Matches s) (target : Nat) :
    manager.Matches (manager.call s (.rollback code target)) ↔
      manager.GoesThrough s (.rollback code target) := by
  rw [GoesThrough, goesThrough_iff, call]
  simp only [rollbackToVersion, bind, EStateM.bind, get, getThe, MonadStateOf.get, EStateM.get]
  by_cases refused : s.version ≤ target
  · have nothing : manager.rollbackMigrations target s.version = [] := by
      rw [List.eq_nil_iff_forall_not_mem]
      intro m listed
      obtain ⟨-, high, low⟩ := mem_rollbackMigrations.mp listed
      omega
    rw [if_pos refused, nothing]
    exact iff_of_true matched (.inl rfl)
  · rw [if_neg refused]
    rcases forM_undo code (manager.rollbackMigrations target s.version) s with
      ⟨all, done⟩ | ⟨some, e, stops⟩
    · rw [EStateM.bind, done]
      exact iff_of_true (matched.down (not_le.mp refused)) (.inl all)
    · rw [EStateM.bind, stops, or_iff_right some]
      exact matched.stopped_iff (List.takeWhile_sublist _).subset

theorem matches_call_iff (matched : manager.Matches s) (c : MigrationCall) :
    manager.Matches (manager.call s c) ↔ manager.GoesThrough s c := by
  cases c with
  | run code => exact iff_of_true (matched.forM_apply rfl) trivial
  | rollback code target => exact matches_rollback_iff matched target

/-- The recorded version matches the schema throughout a run exactly if no rollback of the run is
stopped halfway. -/
theorem version_matches_iff (manager : MigrationManager) (history : List MigrationRecord)
    (calls : List MigrationCall) :
    (∀ before after, calls = before ++ after →
      manager.Matches (before.foldl manager.call ⟨0, history, []⟩)) ↔
    ∀ p ∈ foldSteps manager.call ⟨0, history, []⟩ calls, manager.GoesThrough p.1 p.2 := by
  refine forall_reached_iff (fun v => ?_) (fun p _ matched => matches_call_iff matched p.2)
  refine iff_of_false (List.not_mem_nil) ?_
  rintro ⟨low, m, there, rfl⟩
  exact absurd (manager.positive m there) (not_lt.mpr low)

def twoMigrations : MigrationManager where
  migrations := [⟨1, "one", ""⟩, ⟨2, "two", ""⟩]
  sorted := by decide
  positive := by decide

def stuckCode : MigrationCode where
  canApply _ := .ok true
  up _ := .ok ()
  down m := if m.version = 1 then .error "cannot be undone" else .ok ()
  checksum _ := ""
  now := 0

/-- The rollback fails at the first migration, has undone the second one, and the version stays 2. -/
theorem version_mismatch :
    let s := [MigrationCall.run stuckCode, .rollback stuckCode 0].foldl twoMigrations.call ⟨0, [], []⟩
    s.version = 2 ∧ s.inEffect = [1] ∧ ¬twoMigrations.Matches s := by
  intro s
  have version : s.version = 2 := rfl
  have inEffect : s.inEffect = [1] := rfl
  refine ⟨version, inEffect, fun matched => ?_⟩
  have held := (matched 2).mpr ⟨version.ge, ⟨2, "two", ""⟩, by simp [twoMigrations], rfl⟩
  rw [inEffect] at held
  exact absurd held (by decide)

end Steps

end MigrationManager

end CatalystNode
