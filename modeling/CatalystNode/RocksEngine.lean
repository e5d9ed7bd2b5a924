import CatalystNode.ByteVector
import CatalystNode.Eviction

namespace CatalystNode

open ByteVector Eviction

abbrev Family := Std.ExtTreeMap Bytes Bytes

/-- The column families of a database; the default one is never dropped. The set of their names lists
them in the order of `rank`. -/
structure RocksEngine where
  families : Std.ExtTreeMap String Family
  hasDefault : "default" ∈ families
  rank : String → Nat := fun _ => 0

inductive SnapshotError where
  | columnFamilyNotFound (name : String)
  | snapshot (message : String)
  deriving DecidableEq, Repr

abbrev EngineM := EStateM SnapshotError RocksEngine

namespace RocksEngine

def cfNames (engine : RocksEngine) : List String := sortByKey engine.rank engine.families.keys

def iterator (cf : String) : EngineM (List (Bytes × Bytes)) := fun engine =>
  match engine.families[cf]? with
  | none => .error (.columnFamilyNotFound cf) engine
  | some family => .ok family.toList engine

def write (cf : String) (change : Family → Family) : EngineM Unit := fun engine =>
  match engine.families[cf]? with
  | none => .error (.columnFamilyNotFound cf) engine
  | some family => .ok () { engine with
      families := engine.families.insert cf (change family)
      hasDefault := by simp [engine.hasDefault] }

def put (cf : String) (key value : Bytes) : EngineM Unit := write cf (·.insert key value)

def delete (cf : String) (key : Bytes) : EngineM Unit := write cf (·.erase key)

end RocksEngine

inductive EngineOp where
  | put (cf : String) (key value : Bytes)
  | delete (cf : String) (key : Bytes)

def EngineOp.run : EngineOp → EngineM Unit
  | .put cf key value => RocksEngine.put cf key value
  | .delete cf key => RocksEngine.delete cf key

def EngineOp.apply (engine : RocksEngine) (op : EngineOp) : RocksEngine :=
  match op.run engine with
  | .ok _ engine => engine
  | .error _ engine => engine

/-- An operation that succeeds on every database with the column family, changes that one as given
and leaves all others alone. -/
def ActsOn (cf : String) (change : Family → Family) (step : EngineM Unit) : Prop :=
  ∀ engine family, engine.families[cf]? = some family → ∃ engine', step engine = .ok () engine' ∧
    ∀ name, engine'.families[name]? = if name = cf then some (change family)
      else engine.families[name]?

theorem actsOn_write (cf : String) (change : Family → Family) :
    ActsOn cf change (RocksEngine.write cf change) := by
  intro engine family present
  refine ⟨{ engine with
    families := engine.families.insert cf (change family)
    hasDefault := by simp [engine.hasDefault] }, ?_, ?_⟩
  · rw [RocksEngine.write, present]
  · intro name
    rw [Std.ExtTreeMap.getElem?_insert]
    simp only [Std.LawfulEqCmp.compare_eq_iff_eq, @eq_comm _ cf name]

namespace ActsOn

variable {cf : String} {change change' : Family → Family} {step step' : EngineM Unit}

theorem congr (acts : ActsOn cf change step) (same : ∀ family, change family = change' family) :
    ActsOn cf change' step := by
  rwa [funext same] at acts

theorem skip : ActsOn cf id (pure ()) := by
  intro engine family present
  refine ⟨engine, rfl, fun name => ?_⟩
  split
  next same => rw [same, present, id]
  next => rfl

theorem andThen (acts : ActsOn cf change step) (acts' : ActsOn cf change' step') :
    ActsOn cf (fun family => change' (change family)) (step >>= fun _ => step') := by
  intro engine family present
  obtain ⟨engine₁, done₁, after₁⟩ := acts engine family present
  obtain ⟨engine₂, done₂, after₂⟩ := acts' engine₁ (change family) (by rw [after₁, if_pos rfl])
  refine ⟨engine₂, ?_, fun name => ?_⟩
  · change EStateM.bind step _ engine = _
    rw [EStateM.bind, done₁]
    exact done₂
  · rw [after₂, after₁]
    split <;> rfl

theorem forM {α : Type} {steps : α → EngineM Unit} {changes : α → Family → Family}
    (acts : ∀ a, ActsOn cf (changes a) (steps a)) (l : List α) :
    ActsOn cf (fun family => l.foldl (fun family a => changes a family) family) (l.forM steps) := by
  induction l with
  | nil => exact skip
  | cons a l ih => exact (acts a).andThen ih

theorem iterate {next : List (Bytes × Bytes) → EngineM Unit} {changes : Family → Family → Family}
    (acts : ∀ family, ActsOn cf (changes family) (next family.toList)) :
    ActsOn cf (fun family => changes family family) (RocksEngine.iterator cf >>= next) := by
  intro engine family present
  have read : (RocksEngine.iterator cf >>= next) engine = next family.toList engine := by
    change EStateM.bind (RocksEngine.iterator cf) next engine = _
    rw [EStateM.bind, RocksEngine.iterator, present]
  rw [read]
  exact acts family engine family present

end ActsOn

theorem forM_actsOn {steps : String → EngineM Unit} {changes : String → Family → Family}
    {names : List String} (distinct : names.Nodup)
    (acts : ∀ cf ∈ names, ActsOn cf (changes cf) (steps cf)) {engine : RocksEngine}
    (present : ∀ cf ∈ names, cf ∈ engine.families) :
    ∃ engine', names.forM steps engine = .ok () engine' ∧ ∀ name, engine'.families[name]? =
      if name ∈ names then engine.families[name]?.map (changes name) else engine.families[name]? := by
  induction names generalizing engine with
  | nil => exact ⟨engine, rfl, fun name => by simp⟩
  | cons cf names ih =>
    obtain ⟨fresh, distinct⟩ := List.nodup_cons.mp distinct
    obtain ⟨family, held⟩ := Option.isSome_iff_exists.mp
      (Std.ExtTreeMap.mem_iff_isSome_getElem?.mp (present cf List.mem_cons_self))
    obtain ⟨engine₁, done₁, after₁⟩ := acts cf List.mem_cons_self engine family held
    have still : ∀ name ∈ names, name ∈ engine₁.families := by
      intro name hname
      have other : name ≠ cf := fun same => fresh (same ▸ hname)
      rw [Std.ExtTreeMap.mem_iff_isSome_getElem?, after₁, if_neg other]
      exact Std.ExtTreeMap.mem_iff_isSome_getElem?.mp (present name (List.mem_cons_of_mem cf hname))
    obtain ⟨engine₂, done₂, after₂⟩ := ih distinct (fun name hname =>
      acts name (List.mem_cons_of_mem cf hname)) still
    refine ⟨engine₂, ?_, fun name => ?_⟩
    · change EStateM.bind (steps cf) _ engine = _
      rw [EStateM.bind, done₁]
      exact done₂
    · rw [after₂, after₁]
      by_cases same : name = cf
      · subst same
        rw [if_neg fresh, if_pos rfl, if_pos List.mem_cons_self, held, Option.map_some]
      · simp only [same, if_false, List.mem_cons, false_or]

theorem mem_families_apply (engine : RocksEngine) (op : EngineOp) (name : String) :
    name ∈ (op.apply engine).families ↔ name ∈ engine.families := by
  have write : ∀ cf change, name ∈ (match RocksEngine.write cf change engine with
      | .ok _ engine => engine
      | .error _ engine => engine).families ↔ name ∈ engine.families := by
    intro cf change
    unfold RocksEngine.write
    cases held : engine.families[cf]? with
    | none => rfl
    | some family =>
      have present : cf ∈ engine.families := by
        rw [Std.ExtTreeMap.mem_iff_isSome_getElem?, held]
        rfl
      simp only [Std.ExtTreeMap.mem_insert, Std.LawfulEqCmp.compare_eq_iff_eq]
      exact or_iff_right_of_imp (fun same => same ▸ present)
  cases op with
  | put cf key value => exact write cf _
  | delete cf key => exact write cf _

end CatalystNode
