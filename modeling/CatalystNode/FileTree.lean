import Mathlib

namespace FileTree

variable {ν δ : Type}

abbrev Location (ν : Type) := List ν

inductive Node (δ : Type) where
  | file (data : δ)
  | dir
  deriving DecidableEq

/-- Everything that exists lies in a directory, up to the root. -/
structure Tree (ν δ : Type) where
  entries : Location ν → Option (Node δ)
  root : entries [] = some .dir
  parents : ∀ name place, (entries (name :: place)).isSome → entries place = some .dir

inductive Step (ν : Type) where
  | stay
  | up
  | down (name : ν)
  deriving DecidableEq

namespace Tree

def Extends (tree grown : Tree ν δ) : Prop :=
  ∀ place node, tree.entries place = some node → grown.entries place = some node

section Walk

variable [DecidableEq δ]

def follow (tree : Tree ν δ) (place : Location ν) : Step ν → Option (Location ν)
  | .stay => if tree.entries place = some .dir then some place else none
  | .up => if tree.entries place = some .dir then some place.tail else none
  | .down name => if tree.entries place = some .dir then some (name :: place) else none

def walk (tree : Tree ν δ) : Location ν → List (Step ν) → Option (Location ν)
  | place, [] => some place
  | place, step :: steps => (tree.follow place step).bind (fun place => tree.walk place steps)

def node (tree : Tree ν δ) (place : Location ν) (steps : List (Step ν)) : Option (Node δ) :=
  (tree.walk place steps).bind tree.entries

def read (tree : Tree ν δ) (place : Location ν) (steps : List (Step ν)) : Option δ :=
  match tree.node place steps with
  | some (.file data) => some data
  | _ => none

theorem walk_append (tree : Tree ν δ) (place : Location ν) (steps steps' : List (Step ν)) :
    tree.walk place (steps ++ steps') =
      (tree.walk place steps).bind (fun place => tree.walk place steps') := by
  induction steps generalizing place with
  | nil => rfl
  | cons step steps ih =>
    rw [List.cons_append, walk, walk]
    cases tree.follow place step with
    | none => rfl
    | some next => exact ih next

theorem follow_dir {tree : Tree ν δ} {place next : Location ν} {step : Step ν}
    (h : tree.follow place step = some next) : tree.entries place = some .dir := by
  by_contra other
  cases step <;> simp [follow, other] at h

theorem read_eq_some_iff {tree : Tree ν δ} {place : Location ν} {steps : List (Step ν)} {data : δ} :
    tree.read place steps = some data ↔ tree.node place steps = some (.file data) := by
  unfold read
  cases tree.node place steps with
  | none => simp
  | some node => cases node <;> simp

theorem Extends.walk {tree grown : Tree ν δ} {place target : Location ν} {steps : List (Step ν)}
    (extends_ : tree.Extends grown)
    (walked : tree.walk place steps = some target) : grown.walk place steps = some target := by
  induction steps generalizing place with
  | nil => exact walked
  | cons step steps ih =>
    rw [Tree.walk] at walked ⊢
    obtain ⟨next, followed, walked⟩ := Option.bind_eq_some_iff.mp walked
    have dir := follow_dir followed
    have followed' : grown.follow place step = some next := by
      rw [← followed]
      cases step <;> simp [follow, dir, extends_ place .dir dir]
    rw [followed', Option.bind_some]
    exact ih walked

end Walk

section Grow

variable [DecidableEq ν] [DecidableEq δ]

def add (tree : Tree ν δ) (place : Location ν) (name : ν) (node : Node δ) : Option (Tree ν δ) :=
  if h : tree.entries place = some .dir ∧ tree.entries (name :: place) = none then
    some {
      entries := Function.update tree.entries (name :: place) (some node)
      root := by rw [Function.update_of_ne (by simp)]; exact tree.root
      parents := by
        intro inner above exists_
        have apart : place ≠ name :: place := fun same => by simpa using congrArg List.length same
        by_cases same : inner :: above = name :: place
        · obtain ⟨rfl, rfl⟩ := List.cons.inj same
          rw [Function.update_of_ne apart]
          exact h.1
        · rw [Function.update_of_ne same] at exists_
          have dir := tree.parents inner above exists_
          rwa [Function.update_of_ne]
          rintro rfl
          rw [h.2] at dir
          simp at dir }
  else none

/-- Creates the directories of a path that are missing, as far as it gets; the flag tells whether
they are all there in the end. -/
def createDirAll (tree : Tree ν δ) : Location ν → List (Step ν) → Tree ν δ × Bool
  | place, [] => (tree, tree.entries place = some .dir)
  | place, step :: steps =>
    match tree.follow place step with
    | none => (tree, false)
    | some next =>
      match tree.entries next, step with
      | some .dir, _ => tree.createDirAll next steps
      | none, .down name => match tree.add place name .dir with
        | none => (tree, false)
        | some tree => tree.createDirAll next steps
      | _, _ => (tree, false)

variable {tree grown : Tree ν δ} {place target : Location ν} {name : ν} {node : Node δ}
  {steps rest : List (Step ν)}

theorem add_eq_some (h : tree.add place name node = some grown) :
    tree.entries (name :: place) = none ∧
      grown.entries = Function.update tree.entries (name :: place) (some node) := by
  unfold add at h
  split at h
  next fresh =>
    cases Option.some.inj h
    exact ⟨fresh.2, rfl⟩
  next => simp at h

theorem extends_add (h : tree.add place name node = some grown) : tree.Extends grown := by
  obtain ⟨fresh, entries⟩ := add_eq_some h
  intro other held found
  rw [entries, Function.update_of_ne]
  · exact found
  · rintro rfl
    rw [fresh] at found
    simp at found

theorem createDirAll_append (walked : tree.walk place steps = some target)
    (dir : tree.entries target = some .dir) :
    tree.createDirAll place (steps ++ rest) = tree.createDirAll target rest := by
  induction steps generalizing place with
  | nil =>
    cases Option.some.inj walked
    rfl
  | cons step steps ih =>
    rw [walk] at walked
    obtain ⟨next, followed, walked⟩ := Option.bind_eq_some_iff.mp walked
    have nextDir : tree.entries next = some .dir := by
      cases steps with
      | nil =>
        cases Option.some.inj walked
        exact dir
      | cons step' steps =>
        rw [walk] at walked
        obtain ⟨_, followed', _⟩ := Option.bind_eq_some_iff.mp walked
        exact follow_dir followed'
    rw [List.cons_append, createDirAll, followed]
    simp only [nextDir]
    exact ih walked

theorem createDirAll_down (tree : Tree ν δ) (place : Location ν) (name : ν) :
    (tree.createDirAll place [.down name]).1 = tree ∨
      tree.add place name .dir = some (tree.createDirAll place [.down name]).1 := by
  rw [createDirAll]
  cases followed : tree.follow place (.down name) with
  | none => exact .inl rfl
  | some next =>
    have dir := follow_dir followed
    cases (show some (name :: place) = some next by simpa [follow, dir] using followed)
    cases held : tree.entries (name :: place) with
    | some node =>
      left
      cases node <;> simp only [held, createDirAll]
    | none =>
      cases added : tree.add place name .dir with
      | none =>
        left
        simp only [held, added]
      | some grown =>
        right
        simp only [held, added, createDirAll]

end Grow

end Tree

end FileTree
