import CatalystNode.LocalContentStore

namespace CatalystNode

open ByteVector HexCodec FileTree PathBuf

/-- An identifier that names one place inside the content directory. -/
def Contained (cid : String) : Prop := separator ∉ utf8 cid ∧ ¬utf8 ".." <+: utf8 cid

instance instDecidableContained (cid : String) : Decidable (Contained cid) :=
  inferInstanceAs (Decidable (separator ∉ utf8 cid ∧ ¬utf8 ".." <+: utf8 cid))

/-- Identifiers print as two or more letters and digits. -/
def PlainIds (contentId : Bytes → String) : Prop :=
  ∀ bytes, 2 ≤ (utf8 (contentId bytes)).length ∧ ∀ b ∈ utf8 (contentId bytes),
    (48 ≤ b ∧ b ≤ 57) ∨ (65 ≤ b ∧ b ≤ 90) ∨ (97 ≤ b ∧ b ≤ 122)

def EmptyContent (store : LocalContentStore) (fs : FileSystem) : Prop :=
  ∃ place, fs.tree.walk (fs.start store.contentDir) store.contentDir.steps = some place ∧
    fs.tree.entries place = some .dir ∧ ∀ name, fs.tree.entries (name :: place) = none

theorem ofBytes_of_plain {bytes : Bytes} (plain : separator ∉ bytes) :
    PathBuf.ofBytes bytes = ⟨false, [bytes]⟩ := by
  have whole : bytes.splitOn separator = [bytes] :=
    List.splitOnP_eq_singleton (fun b hb => by
      rw [beq_eq_false_iff_ne]
      rintro rfl
      exact plain hb)
  cases bytes with
  | nil => rfl
  | cons b rest =>
    have first : b ≠ separator := by
      rintro rfl
      exact plain List.mem_cons_self
    rw [PathBuf.ofBytes, if_neg first, whole]

theorem join_of_plain (path : PathBuf) {bytes : Bytes} (plain : separator ∉ bytes) :
    path.join bytes = ⟨path.absolute, path.parts ++ [bytes]⟩ := by
  rw [join, ofBytes_of_plain plain]
  rfl

theorem Contained.of_plainIds {contentId : Bytes → String} (ids : PlainIds contentId)
    (bytes : Bytes) : Contained (contentId bytes) := by
  obtain ⟨-, chars⟩ := ids bytes
  constructor
  · intro mem
    exact absurd (chars _ mem) (by decide)
  · intro dots
    have mem : (46 : UInt8) ∈ utf8 (contentId bytes) := dots.subset (by decide)
    exact absurd (chars _ mem) (by decide)

theorem contentPathFor_of_contained {store : LocalContentStore} {cid : String} {path : PathBuf}
    (contained : Contained cid) (named : store.contentPathFor cid = some path) :
    path = ⟨store.contentDir.absolute,
      store.contentDir.parts ++ [cidPrefix cid, utf8 cid]⟩ := by
  unfold LocalContentStore.contentPathFor at named
  split at named
  next =>
    cases Option.some.inj named
    have cut : separator ∉ cidPrefix cid :=
      fun mem => contained.1 (List.mem_of_mem_take mem)
    rw [join_of_plain _ cut, join_of_plain _ contained.1, List.append_assoc]
    rfl
  next => simp at named

/-- The two parts stay in the content directory, or go down twice. -/
theorem stepOf_of_contained {cid : String} (contained : Contained cid) :
    (stepOf (cidPrefix cid) = .stay ∧ stepOf (utf8 cid) = .stay) ∨
      (stepOf (cidPrefix cid) = .down (cidPrefix cid) ∧ stepOf (utf8 cid) = .down (utf8 cid)) := by
  obtain ⟨-, noDots⟩ := contained
  have dot : utf8 "." = [46] := by decide
  have dots : utf8 ".." = [46, 46] := by decide
  rw [dots] at noDots
  simp only [stepOf, dot, dots, cidPrefix]
  cases hb : utf8 cid with
  | nil => exact .inl ⟨rfl, rfl⟩
  | cons b tail =>
    cases tail with
    | nil =>
      by_cases same : b = 46
      · subst same
        exact .inl ⟨rfl, rfl⟩
      · right
        simp [same]
    | cons c rest =>
      rw [hb] at noDots
      have apart : ¬(b = 46 ∧ c = 46) := fun same => noDots ⟨rest, by simp [same]⟩
      have longer : ¬(b = 46 ∧ c = 46 ∧ rest = []) := fun same => apart ⟨same.1, same.2.1⟩
      right
      simp [apart, longer]

theorem stepOf_of_plainIds {contentId : Bytes → String} (ids : PlainIds contentId) (bytes : Bytes) :
    stepOf (cidPrefix (contentId bytes)) = .down (cidPrefix (contentId bytes)) ∧
      stepOf (utf8 (contentId bytes)) = .down (utf8 (contentId bytes)) := by
  have dot : (utf8 ".").length = 1 := by decide
  rcases stepOf_of_contained (Contained.of_plainIds ids bytes) with ⟨-, stays⟩ | down
  · have long := (ids bytes).1
    unfold stepOf at stays
    split at stays
    next short =>
      rcases short with short | short <;> simp [short, dot] at long
    next => split at stays <;> simp at stays
  · exact down

section Puts

variable {store : LocalContentStore} {fs : FileSystem} {place : Location Bytes} {puts : List Bytes}

structure OnlyPuts (store : LocalContentStore) (place : Location Bytes) (fs : FileSystem)
    (puts : List Bytes) : Prop where
  here : fs.tree.walk (fs.start store.contentDir) store.contentDir.steps = some place
  dir : fs.tree.entries place = some .dir
  files : ∀ name inner bytes, fs.tree.entries (name :: inner :: place) = some (.file bytes) →
    bytes ∈ puts ∧ utf8 (store.contentId bytes) = name

/-- Growing the tree keeps the invariant, if the files it adds below are accounted for. -/
theorem OnlyPuts.grow {tree : Tree Bytes Bytes} {more : List Bytes}
    (only : OnlyPuts store place fs puts) (grown : fs.tree.Extends tree) (later : puts ⊆ more)
    (added : ∀ name inner bytes, tree.entries (name :: inner :: place) = some (.file bytes) →
      fs.tree.entries (name :: inner :: place) = some (.file bytes) ∨
        (bytes ∈ more ∧ utf8 (store.contentId bytes) = name)) :
    OnlyPuts store place { fs with tree } more where
  here := grown.walk only.here
  dir := grown place .dir only.dir
  files name inner bytes found := by
    rcases added name inner bytes found with old | new
    · obtain ⟨mem, named⟩ := only.files name inner bytes old
      exact ⟨later mem, named⟩
    · exact new

theorem OnlyPuts.addDir {tree : Tree Bytes Bytes} {name : Bytes} {more : List Bytes}
    (only : OnlyPuts store place fs puts) (later : puts ⊆ more)
    (added : fs.tree.add place name .dir = some tree) :
    OnlyPuts store place { fs with tree } more := by
  refine only.grow (Tree.extends_add added) later ?_
  intro name' inner bytes found
  rw [(Tree.add_eq_some added).2, Function.update_of_ne] at found
  · exact .inl found
  · intro same
    simpa using congrArg List.length same

theorem OnlyPuts.addFile {tree : Tree Bytes Bytes} {inner bytes : Bytes} {more : List Bytes}
    (only : OnlyPuts store place fs puts) (later : puts ⊆ more) (mem : bytes ∈ more)
    (added : fs.tree.add (inner :: place) (utf8 (store.contentId bytes)) (.file bytes) = some tree) :
    OnlyPuts store place { fs with tree } more := by
  refine only.grow (Tree.extends_add added) later ?_
  intro name' inner' bytes' found
  rw [(Tree.add_eq_some added).2] at found
  by_cases same : name' :: inner' :: place = utf8 (store.contentId bytes) :: inner :: place
  · rw [same, Function.update_self] at found
    cases found
    exact .inr ⟨mem, (List.head_eq_of_cons_eq same).symm⟩
  · rw [Function.update_of_ne same] at found
    exact .inl found

theorem OnlyPuts.mono {more : List Bytes} (only : OnlyPuts store place fs puts)
    (later : puts ⊆ more) : OnlyPuts store place fs more :=
  ⟨only.here, only.dir, fun name inner bytes found =>
    (only.files name inner bytes found).imp_left (fun mem => later mem)⟩

theorem OnlyPuts.walk_down (only : OnlyPuts store place fs puts) {path : PathBuf}
    {inner name : Bytes} {target : Location Bytes}
    (absolute : path.absolute = store.contentDir.absolute)
    (steps : path.steps = store.contentDir.steps ++ [.down inner, .down name])
    (walked : fs.tree.walk (fs.start path) path.steps = some target) :
    target = name :: inner :: place := by
  have start : fs.start path = fs.start store.contentDir := by
    rw [FileSystem.start, FileSystem.start, absolute]
  have down : ∀ {here below : Location Bytes} {name}, fs.tree.follow here (.down name) = some below →
      name :: here = below := fun followed => by
    simpa [Tree.follow, Tree.follow_dir followed] using followed
  rw [start, steps, Tree.walk_append, only.here, Option.bind_some, Tree.walk] at walked
  obtain ⟨below, followed, walked⟩ := Option.bind_eq_some_iff.mp walked
  cases down followed
  rw [Tree.walk] at walked
  obtain ⟨below, followed, walked⟩ := Option.bind_eq_some_iff.mp walked
  cases down followed
  exact (Option.some.inj walked).symm

theorem OnlyPuts.writeNew (only : OnlyPuts store place fs puts) {path : PathBuf}
    {inner bytes : Bytes} {written : FileSystem}
    (absolute : path.absolute = store.contentDir.absolute)
    (steps : path.steps = store.contentDir.steps ++
      [.down inner, .down (utf8 (store.contentId bytes))])
    (mem : bytes ∈ puts) (done : fs.writeNew path bytes = some written) :
    OnlyPuts store place written puts := by
  unfold FileSystem.writeNew at done
  split at done
  next name above walked =>
    obtain ⟨rfl, rfl⟩ := List.cons.inj (only.walk_down absolute steps walked)
    obtain ⟨tree, added, rfl⟩ := Option.map_eq_some_iff.mp done
    exact only.addFile (List.Subset.refl puts) mem added
  next => simp at done

theorem OnlyPuts.put (ids : PlainIds store.contentId) (only : OnlyPuts store place fs puts)
    (bytes : Bytes) : OnlyPuts store place (store.put fs bytes).1 (puts ++ [bytes]) := by
  have later : puts ⊆ puts ++ [bytes] := List.subset_append_left _ _
  unfold LocalContentStore.put
  dsimp only
  cases named : store.contentPathFor (store.contentId bytes) with
  | none => exact only.mono later
  | some path =>
    have contained := Contained.of_plainIds ids bytes
    obtain ⟨downPrefix, downCid⟩ := stepOf_of_plainIds ids bytes
    have shape := contentPathFor_of_contained contained named
    have steps : path.steps = store.contentDir.steps ++
        [.down (cidPrefix (store.contentId bytes)), .down (utf8 (store.contentId bytes))] := by
      rw [shape, PathBuf.steps, List.map_append, ← downPrefix, ← downCid]
      rfl
    have parent : path.parent = some ⟨store.contentDir.absolute,
        store.contentDir.parts ++ [cidPrefix (store.contentId bytes)]⟩ := by
      simp [shape, PathBuf.parent, downCid]
    -- only the directory below the content directory can be missing
    have made : (path.parent.elim (fs, true) fs.createDirAll).1 = { fs with
        tree := (fs.tree.createDirAll place [.down (cidPrefix (store.contentId bytes))]).1 } := by
      rw [parent, Option.elim_some, FileSystem.createDirAll, PathBuf.steps, List.map_append,
        List.map_singleton, downPrefix]
      exact congrArg (fun made => { fs with tree := made.1 })
        (Tree.createDirAll_append only.here only.dir)
    have afterDir : OnlyPuts store place (path.parent.elim (fs, true) fs.createDirAll).1
        (puts ++ [bytes]) := by
      rw [made]
      rcases Tree.createDirAll_down fs.tree place (cidPrefix (store.contentId bytes)) with
        same | added
      · rw [same]
        exact only.mono later
      · exact only.addDir later added
    dsimp only
    split
    next => exact afterDir
    next =>
      split
      next => exact afterDir
      next =>
        split
        next => exact afterDir
        next written done =>
          exact afterDir.writeNew (by rw [shape]) steps (by simp) done

theorem OnlyPuts.putAll (ids : PlainIds store.contentId) (only : OnlyPuts store place fs puts)
    (more : List Bytes) : OnlyPuts store place (store.putAll fs more) (puts ++ more) := by
  induction more generalizing fs puts with
  | nil =>
    rw [List.append_nil]
    exact only
  | cons bytes more ih =>
    have next := ih (only.put ids bytes)
    rw [List.append_assoc] at next
    exact next

theorem onlyPuts_start (empty : EmptyContent store fs) : ∃ place, OnlyPuts store place fs [] := by
  obtain ⟨place, here, dir, bare⟩ := empty
  refine ⟨place, here, dir, ?_⟩
  intro name inner bytes found
  have parent := fs.tree.parents name (inner :: place) (by rw [found]; rfl)
  rw [bare inner] at parent
  cases parent

/-- A contained identifier is answered with nothing but what was put under it. -/
theorem OnlyPuts.get_of_contained (only : OnlyPuts store place fs puts) {cid : String}
    (contained : Contained cid) {bytes : Bytes} (got : store.get fs cid = some bytes) :
    bytes ∈ puts ∧ store.contentId bytes = cid := by
  obtain ⟨path, named, read⟩ := Option.bind_eq_some_iff.mp got
  have shape := contentPathFor_of_contained contained named
  obtain ⟨target, walked, found⟩ := Option.bind_eq_some_iff.mp (Tree.read_eq_some_iff.mp read)
  have absolute : path.absolute = store.contentDir.absolute := by rw [shape]
  have parts : path.steps =
      store.contentDir.steps ++ [stepOf (cidPrefix cid), stepOf (utf8 cid)] := by
    rw [shape, PathBuf.steps, List.map_append]
    rfl
  rcases stepOf_of_contained contained with ⟨first, second⟩ | ⟨first, second⟩
  · -- the content directory itself is no file
    have start : fs.start path = fs.start store.contentDir := by
      rw [FileSystem.start, FileSystem.start, absolute]
    rw [start, parts, first, second, Tree.walk_append, only.here] at walked
    simp only [Option.bind_some, Tree.walk, Tree.follow, only.dir, if_true, Option.some.injEq]
      at walked
    rw [← walked, only.dir] at found
    cases found
  · have below := only.walk_down absolute (by rw [parts, first, second]) walked
    rw [below] at found
    obtain ⟨mem, same⟩ := only.files _ _ _ found
    exact ⟨mem, utf8_inj same⟩

/-- After any puts into an empty content directory, an identifier is answered with nothing but what
was put under it, exactly if it is contained or its path leads to no file. The answers to peers are
just as good. -/
theorem get_serves_puts_iff (ids : PlainIds store.contentId) (empty : EmptyContent store fs)
    (puts : List Bytes) (cid : String) :
    ((∀ bytes, store.get (store.putAll fs puts) cid = some bytes →
        bytes ∈ puts ∧ store.contentId bytes = cid) ∧
      ∀ requester response, store.answerFileRequest (store.putAll fs puts) ⟨requester, cid⟩ =
        some response → response.bytes ∈ puts ∧ store.contentId response.bytes = cid) ↔
    Contained cid ∨ ∀ path, store.contentPathFor cid = some path →
      ∀ bytes, (store.putAll fs puts).metadata path ≠ some (.file bytes) := by
  obtain ⟨place, start⟩ := onlyPuts_start empty
  have only : OnlyPuts store place (store.putAll fs puts) puts := start.putAll ids puts
  constructor
  · rintro ⟨serves, -⟩
    by_contra fails
    push Not at fails
    obtain ⟨escapes, path, named, bytes, found⟩ := fails
    have got : store.get (store.putAll fs puts) cid = some bytes := by
      rw [LocalContentStore.get, named, Option.bind_some]
      exact Tree.read_eq_some_iff.mpr found
    obtain ⟨-, same⟩ := serves bytes got
    exact escapes (same ▸ Contained.of_plainIds ids bytes)
  · intro condition
    have serves : ∀ bytes, store.get (store.putAll fs puts) cid = some bytes →
        bytes ∈ puts ∧ store.contentId bytes = cid := by
      intro bytes got
      rcases condition with contained | nothing
      · exact only.get_of_contained contained got
      · obtain ⟨path, named, read⟩ := Option.bind_eq_some_iff.mp got
        exact absurd (Tree.read_eq_some_iff.mp read) (nothing path named bytes)
    refine ⟨serves, ?_⟩
    intro requester response answered
    obtain ⟨bytes, got, rfl⟩ := Option.map_eq_some_iff.mp answered
    exact serves bytes got

end Puts

def sampleEntries : Location Bytes → Option (Node Bytes)
  | [] => some .dir
  | [name] =>
    if name = utf8 "data" then some .dir
    else if name = utf8 "secret" then some (.file [42])
    else none
  | [name, above] => if name = utf8 "content" ∧ above = utf8 "data" then some .dir else none
  | _ => none

def sampleMachine : FileSystem where
  tree := {
    entries := sampleEntries
    root := rfl
    parents := by
      intro name place held
      cases place with
      | nil => rfl
      | cons above place =>
        cases place with
        | nil =>
          simp only [sampleEntries] at held
          split at held
          next names => simp [sampleEntries, names.2]
          next => simp at held
        | cons _ _ => simp [sampleEntries] at held }
  cwd := []

def sampleContentStore : LocalContentStore where
  root := ⟨true, [utf8 "data"]⟩
  contentId bytes := if bytes = [1] then "bafkone" else "bafkother"

theorem emptyContent_sample : EmptyContent sampleContentStore sampleMachine :=
  ⟨[utf8 "content", utf8 "data"], by decide, by decide, fun _ => rfl⟩

/-- A file outside the content directory is served under its absolute path and under a path that
leads out of the directory. -/
theorem get_serves_other_file :
    EmptyContent sampleContentStore sampleMachine ∧
    sampleContentStore.get (sampleContentStore.putAll sampleMachine []) "/secret" = some [42] ∧
    sampleContentStore.get (sampleContentStore.putAll sampleMachine []) "../../secret" =
      some [42] :=
  ⟨emptyContent_sample, by decide +kernel, by decide +kernel⟩

theorem get_serves_puts_iff_one :
    sampleContentStore.get (sampleContentStore.putAll sampleMachine [[1]]) "bafkone" = some [1] ∧
      ∀ bytes, sampleContentStore.get (sampleContentStore.putAll sampleMachine [[1]]) "bafkone" =
        some bytes → bytes ∈ [[1]] ∧ sampleContentStore.contentId bytes = "bafkone" := by
  have ids : PlainIds sampleContentStore.contentId := by
    intro bytes
    by_cases one : bytes = [1]
    · simp only [sampleContentStore, one, if_true]
      decide +kernel
    · simp only [sampleContentStore, one, if_false]
      decide +kernel
  exact ⟨by decide +kernel, ((get_serves_puts_iff ids emptyContent_sample [[1]] "bafkone").mpr
    (.inl (by decide +kernel))).1⟩

end CatalystNode
