import CatalystNode.StorageTransactions
import CatalystNode.WireRoundTrip
import CatalystNode.FoldTrace

namespace CatalystNode

open ByteVector HexCodec FoldTrace

structure StateEngine where
  engine : RocksEngine
  hasAccounts : "accounts" ∈ engine.families
  hasMetadata : "metadata" ∈ engine.families

namespace StateEngine

def family (e : StateEngine) (cf : String) : Family := e.engine.families[cf]?.getD ∅

def get (e : StateEngine) (cf : String) (key : Bytes) : Option Bytes := (e.family cf)[key]?

def apply (e : StateEngine) (op : EngineOp) : StateEngine where
  engine := op.apply e.engine
  hasAccounts := (mem_families_apply e.engine op _).mpr e.hasAccounts
  hasMetadata := (mem_families_apply e.engine op _).mpr e.hasMetadata

def calculateStateRoot (sha256 : Bytes → Hash) (e : StateEngine) : Hash :=
  sha256 (e.engine.cfNames.flatMap (fun cf =>
    utf8 cf ++ (e.family cf).toList.flatMap (fun r => r.1 ++ r.2)))

end StateEngine

inductive StateError where
  | storage (message : String)
  deriving DecidableEq, Repr

structure StateStore where
  engine : StateEngine
  snapshots : Std.ExtTreeMap String StateEngine

def mappingKey (id : Hash) : Bytes := utf8 "snap:" ++ id.toList

def autoName (timestamp : Nat) : String := "auto_" ++ toString timestamp

namespace StateStore

def setState (s : StateStore) (key value : Bytes) : StateStore :=
  { s with engine := s.engine.apply (.put "accounts" key value) }

def deleteState (s : StateStore) (key : Bytes) : Bool × StateStore :=
  if (s.engine.get "accounts" key).isSome then
    (true, { s with engine := s.engine.apply (.delete "accounts" key) })
  else (false, s)

def createSnapshot (sha256 : Bytes → Hash) (s : StateStore) (timestamp : Nat) :
    Except StateError (Hash × StateStore) :=
  let name := autoName timestamp
  if name ∈ s.snapshots then .error (.storage s!"Snapshot error: Snapshot '{name}' already exists")
  else
    let root := s.engine.calculateStateRoot sha256
    .ok (root, ⟨s.engine.apply (.put "metadata" (mappingKey root) (utf8 name)),
      s.snapshots.insert name s.engine⟩)

def restoreSnapshot (s : StateStore) (snapshotId : Hash) : Except StateError StateStore :=
  match s.engine.get "metadata" (mappingKey snapshotId) with
  | none => .error (.storage "Snapshot id not found")
  | some bytes => match String.fromUTF8? ⟨bytes.toArray⟩ with
    | none => .error (.storage "Invalid snapshot name bytes")
    | some name => match s.snapshots[name]? with
      | none => .error (.storage s!"Snapshot error: Snapshot '{name}' not found")
      | some saved => .ok { s with engine := saved }

end StateStore

inductive StateCall where
  | setState (key value : Bytes)
  | deleteState (key : Bytes)
  | createSnapshot (timestamp : Nat)
  | restoreSnapshot (snapshotId : Hash)

structure IssuedIds where
  store : StateStore
  issued : List (Hash × Family)

def IssuedIds.call (sha256 : Bytes → Hash) (s : IssuedIds) : StateCall → IssuedIds
  | .setState key value => { s with store := s.store.setState key value }
  | .deleteState key => { s with store := (s.store.deleteState key).2 }
  | .createSnapshot timestamp => match s.store.createSnapshot sha256 timestamp with
    | .error _ => s
    | .ok (root, store) => ⟨store, s.issued ++ [(root, s.store.engine.family "accounts")]⟩
  | .restoreSnapshot snapshotId => match s.store.restoreSnapshot snapshotId with
    | .error _ => s
    | .ok store => { s with store }

def IssuedIds.Valid (s : IssuedIds) : Prop :=
  ∀ e ∈ s.issued, ∃ store, s.store.restoreSnapshot e.1 = .ok store ∧
    store.engine.family "accounts" = e.2

def StateStore.named (s : StateStore) (engine : StateEngine) (id : Hash) : Option StateEngine :=
  (engine.get "metadata" (mappingKey id)).bind (fun bytes =>
    (String.fromUTF8? ⟨bytes.toArray⟩).bind (fun name => s.snapshots[name]?))

/-- A new snapshot takes no id that stands for other accounts, and a restored one knows all ids. -/
def IssuedIds.Spares (sha256 : Bytes → Hash) (s : IssuedIds) : StateCall → Prop
  | .createSnapshot _ => ∀ e ∈ s.issued, e.1 = s.store.engine.calculateStateRoot sha256 →
      s.store.engine.family "accounts" = e.2
  | .restoreSnapshot snapshotId => ∀ saved, s.store.named s.store.engine snapshotId = some saved →
      ∀ e ∈ s.issued, (s.store.named saved e.1).map (·.family "accounts") = some e.2
  | _ => True

section Steps

variable {sha256 : Bytes → Hash} {s : IssuedIds}

theorem autoName_inj {a b : Nat} (same : autoName a = autoName b) : a = b :=
  Nat.repr_inj.mp (String.append_right_inj _ |>.mp same)

theorem restoreSnapshot_eq (store : StateStore) (id : Hash) :
    (∃ error, store.named store.engine id = none ∧ store.restoreSnapshot id = .error error) ∨
      ∃ saved, store.named store.engine id = some saved ∧
        store.restoreSnapshot id = .ok { store with engine := saved } := by
  unfold StateStore.named StateStore.restoreSnapshot
  cases store.engine.get "metadata" (mappingKey id) with
  | none => exact .inl ⟨_, rfl, rfl⟩
  | some bytes =>
    simp only [Option.bind_some]
    cases String.fromUTF8? ⟨bytes.toArray⟩ with
    | none => exact .inl ⟨_, rfl, rfl⟩
    | some name =>
      simp only [Option.bind_some]
      cases store.snapshots[name]? with
      | none => exact .inl ⟨_, rfl, rfl⟩
      | some saved => exact .inr ⟨saved, rfl, rfl⟩

theorem valid_iff : s.Valid ↔ ∀ e ∈ s.issued,
    (s.store.named s.store.engine e.1).map (·.family "accounts") = some e.2 := by
  refine forall₂_congr (fun e _ => ?_)
  rcases restoreSnapshot_eq s.store e.1 with ⟨error, unknown, fails⟩ | ⟨saved, known, restores⟩
  · rw [unknown, fails]
    simp
  · rw [known, restores]
    simp

theorem family_apply_of_run {op : EngineOp} {name : String} {change : Family → Family}
    (run : op.run = RocksEngine.write name change) (e : StateEngine) (cf : String)
    (held : name ∈ e.engine.families) :
    (e.apply op).family cf = if name = cf then change (e.family cf) else e.family cf := by
  rw [StateEngine.family, StateEngine.apply, families_apply_of_run run]
  obtain ⟨family, found⟩ := Option.isSome_iff_exists.mp
    (Std.ExtTreeMap.mem_iff_isSome_getElem?.mp held)
  by_cases same : name = cf
  · rw [StateEngine.family, ← same, found]
    simp
  · simp [same, StateEngine.family]

theorem valid_of_metadata {store : StateStore} (valid : s.Valid)
    (same : store.engine.family "metadata" = s.store.engine.family "metadata")
    (kept : store.snapshots = s.store.snapshots) : IssuedIds.Valid { s with store } := by
  rw [valid_iff] at valid ⊢
  intro e listed
  have found := valid e listed
  simp only [StateStore.named, StateEngine.get, same, kept] at found ⊢
  exact found

theorem family_metadata_put (e : StateEngine) (key value : Bytes) :
    (e.apply (.put "accounts" key value)).family "metadata" = e.family "metadata" :=
  (family_apply_of_run rfl e "metadata" e.hasAccounts).trans (if_neg (by decide))

theorem family_metadata_delete (e : StateEngine) (key : Bytes) :
    (e.apply (.delete "accounts" key)).family "metadata" = e.family "metadata" :=
  (family_apply_of_run rfl e "metadata" e.hasAccounts).trans (if_neg (by decide))

theorem mappingKey_inj {a b : Hash} : mappingKey a = mappingKey b ↔ a = b :=
  ⟨fun same => List.Vector.toList_injective (List.append_cancel_left same), congrArg mappingKey⟩

section Creation

variable {store : StateStore} {name : String} (root : Hash)

def created (store : StateStore) (name : String) (root : Hash) : StateStore :=
  ⟨store.engine.apply (.put "metadata" (mappingKey root) (utf8 name)),
    store.snapshots.insert name store.engine⟩

theorem get_created (id : Hash) :
    (created store name root).engine.get "metadata" (mappingKey id) =
      if id = root then some (utf8 name) else store.engine.get "metadata" (mappingKey id) := by
  rw [StateEngine.get, created, family_apply_of_run rfl store.engine "metadata" store.engine.hasMetadata,
    if_pos rfl, Std.ExtTreeMap.getElem?_insert]
  simp only [Std.LawfulEqCmp.compare_eq_iff_eq, mappingKey_inj, eq_comm (a := root)]
  rfl

theorem named_created_self :
    (created store name root).named (created store name root).engine root = some store.engine := by
  rw [StateStore.named, get_created, if_pos rfl, Option.bind_some, fromUTF8?_utf8, Option.bind_some]
  exact Std.ExtTreeMap.getElem?_insert_self

theorem named_created_of_ne (fresh : name ∉ store.snapshots) {id : Hash} (other : id ≠ root)
    {saved : StateEngine} (known : store.named store.engine id = some saved) :
    (created store name root).named (created store name root).engine id = some saved := by
  rw [StateStore.named, get_created, if_neg other]
  obtain ⟨bytes, mapped, known⟩ := Option.bind_eq_some_iff.mp known
  obtain ⟨old, text, held⟩ := Option.bind_eq_some_iff.mp known
  rw [mapped, Option.bind_some, text, Option.bind_some, created, Std.ExtTreeMap.getElem?_insert,
    if_neg, held]
  rw [Std.LawfulEqCmp.compare_eq_iff_eq]
  rintro rfl
  exact fresh (Std.ExtTreeMap.mem_iff_isSome_getElem?.mpr (Option.isSome_of_eq_some held))

end Creation

/-- A snapshot under a new name keeps all ids exactly if no other accounts have its id. -/
theorem valid_created_iff {name : String} (fresh : name ∉ s.store.snapshots) (valid : s.Valid)
    (root : Hash) :
    IssuedIds.Valid ⟨created s.store name root,
      s.issued ++ [(root, s.store.engine.family "accounts")]⟩ ↔
      ∀ e ∈ s.issued, e.1 = root → s.store.engine.family "accounts" = e.2 := by
  rw [valid_iff] at valid ⊢
  simp only [List.mem_append, List.mem_singleton]
  constructor
  · rintro still ⟨id, accounts⟩ listed rfl
    have found := still (id, accounts) (.inl listed)
    rw [named_created_self] at found
    exact Option.some.inj found
  · rintro agree e (old | rfl)
    · by_cases same : e.1 = root
      · rw [same, named_created_self, Option.map_some, agree e old same]
      · obtain ⟨saved, known, accounts⟩ := Option.map_eq_some_iff.mp (valid e old)
        rw [named_created_of_ne root fresh same known, Option.map_some, accounts]
    · rw [named_created_self, Option.map_some]

/-- One call keeps the ids valid exactly if it spares them. -/
theorem valid_call_iff {call : StateCall} (valid : s.Valid)
    (fresh : ∀ timestamp, call = .createSnapshot timestamp → autoName timestamp ∉ s.store.snapshots) :
    (s.call sha256 call).Valid ↔ s.Spares sha256 call := by
  cases call with
  | setState key value =>
    exact iff_of_true (valid_of_metadata valid (family_metadata_put _ _ _) rfl) trivial
  | deleteState key =>
    refine iff_of_true ?_ trivial
    rw [IssuedIds.call, StateStore.deleteState]
    split
    · exact valid_of_metadata valid (family_metadata_delete _ _) rfl
    · exact valid
  | createSnapshot timestamp =>
    rw [IssuedIds.call, StateStore.createSnapshot, if_neg (fresh timestamp rfl)]
    exact valid_created_iff (fresh timestamp rfl) valid _
  | restoreSnapshot snapshotId =>
    rw [IssuedIds.call, IssuedIds.Spares]
    rcases restoreSnapshot_eq s.store snapshotId with ⟨error, unknown, fails⟩ | ⟨saved, known, restores⟩
    · rw [fails, unknown]
      exact iff_of_true valid (by simp)
    · simp only [restores, known, valid_iff, Option.some.injEq, forall_eq']
      rfl

end Steps

section Runs

variable {sha256 : Bytes → Hash}

def StateCall.creationTime : StateCall → Option Nat
  | .createSnapshot timestamp => some timestamp
  | _ => none

theorem mem_snapshots_run {engine : StateEngine} {calls : List StateCall} {name : String}
    (held : name ∈ (calls.foldl (IssuedIds.call sha256) ⟨⟨engine, ∅⟩, []⟩).store.snapshots) :
    ∃ timestamp ∈ calls.filterMap StateCall.creationTime, name = autoName timestamp := by
  induction calls using List.reverseRecOn with
  | nil => simp at held
  | append_singleton calls call ih =>
    rw [List.foldl_concat] at held
    rw [List.filterMap_append]
    generalize calls.foldl (IssuedIds.call sha256) ⟨⟨engine, ∅⟩, []⟩ = s at held ih
    have earlier : name ∈ s.store.snapshots → ∃ timestamp ∈ calls.filterMap StateCall.creationTime ++
        [call].filterMap StateCall.creationTime, name = autoName timestamp := fun old =>
      (ih old).imp (fun _ => And.imp_left (List.mem_append_left _))
    cases call with
    | setState key value => exact earlier held
    | deleteState key =>
      refine earlier ?_
      rw [IssuedIds.call, StateStore.deleteState] at held
      split at held <;> exact held
    | createSnapshot timestamp =>
      rw [IssuedIds.call, StateStore.createSnapshot] at held
      split_ifs at held with taken
      · exact earlier held
      · rcases Std.ExtTreeMap.mem_insert.mp held with same | old
        · exact ⟨timestamp, by simp [StateCall.creationTime], (Std.LawfulEqCmp.compare_eq_iff_eq.mp same).symm⟩
        · exact earlier old
    | restoreSnapshot snapshotId =>
      refine earlier ?_
      rw [IssuedIds.call] at held
      rcases restoreSnapshot_eq s.store snapshotId with ⟨error, -, fails⟩ | ⟨saved, -, restores⟩
      · rwa [fails] at held
      · rwa [restores] at held

/-- Ids stay valid throughout a run exactly if each of its calls spares them. -/
theorem snapshotIds_valid_iff (sha256 : Bytes → Hash) (engine : StateEngine) (calls : List StateCall)
    (distinct : (calls.filterMap StateCall.creationTime).Nodup) :
    (∀ before after, calls = before ++ after →
      (before.foldl (IssuedIds.call sha256) ⟨⟨engine, ∅⟩, []⟩).Valid) ↔
    ∀ p ∈ foldSteps (IssuedIds.call sha256) ⟨⟨engine, ∅⟩, []⟩ calls, p.1.Spares sha256 p.2 := by
  refine forall_reached_iff (fun e listed => by cases listed) (fun p listed valid => ?_)
  refine valid_call_iff valid (fun timestamp creates held => ?_)
  obtain ⟨before, after, rfl, reached⟩ := exists_of_mem_foldSteps listed
  rw [reached] at held
  obtain ⟨timestamp', earlier, same⟩ := mem_snapshots_run held
  rw [creates, List.filterMap_append] at distinct
  have apart := (List.nodup_append.mp distinct).2.2 timestamp' earlier timestamp List.mem_cons_self
  exact apart (autoName_inj same).symm

def newStateEngine : StateEngine where
  engine := ⟨((∅ : Std.ExtTreeMap String Family).insert "default" ∅).insert "accounts" ∅ |>.insert
    "metadata" ∅, by simp, fun _ => 0⟩
  hasAccounts := by simp
  hasMetadata := by simp

theorem snapshotIds_valid_iff_written :
    let calls : List StateCall := [.setState [1] [2], .createSnapshot 5, .setState [1] [3]]
    ∀ before after, calls = before ++ after → (before.foldl
      (IssuedIds.call (blake2b512Trunc32 checksum)) ⟨⟨newStateEngine, ∅⟩, []⟩).Valid := by
  refine (snapshotIds_valid_iff _ newStateEngine _ (by decide)).mpr (fun p listed => ?_)
  simp only [foldSteps, List.mem_cons, List.not_mem_nil, or_false] at listed
  rcases listed with rfl | rfl | rfl
  · trivial
  · intro e issued
    cases issued
  · trivial

/-- A restored snapshot does not know its own id, since the id is noted after the copy is made. -/
theorem snapshotIds_lost :
    ∃ id store restored,
      StateStore.createSnapshot (blake2b512Trunc32 checksum) ⟨newStateEngine, ∅⟩ 5 = .ok (id, store) ∧
      store.restoreSnapshot id = .ok restored ∧
      restored.restoreSnapshot id = .error (.storage "Snapshot id not found") := by
  refine ⟨_, _, _, rfl, rfl, rfl⟩

end Runs

end CatalystNode
