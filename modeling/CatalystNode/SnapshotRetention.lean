import CatalystNode.SnapshotRestore
import CatalystNode.Eviction

namespace CatalystNode

open ByteVector HexCodec Eviction

def protectedName (name : String) : Bool :=
  (utf8 SnapshotManager.protectedSnapshotPrefix).isPrefixOf (utf8 name)

namespace SnapshotManager

def unprotected (manager : SnapshotManager) (rank : String → Nat) : List Snapshot :=
  ((listing rank manager.snapshots).map Prod.snd).filter (fun s => ¬protectedName s.name)

def oldSnapshots (manager : SnapshotManager) (rank : String → Nat) : List Snapshot :=
  (sortByKey (fun s => s.createdAt.toNat) (manager.unprotected rank)).take
    ((manager.unprotected rank).length - manager.config.maxSnapshots)

/-- A deletion whose failure is only logged. -/
def discard (manager : SnapshotManager) (s : Snapshot) : SnapshotManager :=
  match manager.deleteSnapshot s.name with
  | .ok manager => manager
  | .error _ => manager

theorem cleanupOldSnapshots_eq (manager : SnapshotManager) (rank : String → Nat) :
    manager.cleanupOldSnapshots rank = (manager.oldSnapshots rank).foldl discard manager := by
  change (if (manager.unprotected rank).length ≤ manager.config.maxSnapshots then manager
    else (manager.oldSnapshots rank).foldl discard manager) = _
  split
  next few => rw [oldSnapshots, Nat.sub_eq_zero_of_le few, List.take_zero, List.foldl_nil]
  next => rfl

theorem snapshots_discard (manager : SnapshotManager) (s : Snapshot) :
    (manager.discard s).snapshots = manager.snapshots.erase s.name := by
  unfold discard deleteSnapshot
  by_cases registered : s.name ∈ manager.snapshots
  · rw [if_pos registered]
  · rw [if_neg registered]
    refine Std.ExtTreeMap.ext_getElem? (fun {k} => ?_)
    rw [Std.ExtTreeMap.getElem?_erase]
    by_cases same : s.name = k
    · simp [← same, Std.ExtTreeMap.getElem?_eq_none registered]
    · simp [same]

theorem snapshots_foldl_discard (manager : SnapshotManager) (old : List Snapshot) (name : String) :
    (old.foldl discard manager).snapshots[name]? =
      if name ∈ old.map Snapshot.name then none else manager.snapshots[name]? := by
  induction old generalizing manager with
  | nil => simp
  | cons s old ih =>
    rw [List.foldl_cons, ih, snapshots_discard, Std.ExtTreeMap.getElem?_erase]
    by_cases later : name ∈ old.map Snapshot.name
    · simp [later]
    · by_cases here : s.name = name
      · simp [here]
      · simp [later, here, Ne.symm here]

end SnapshotManager

/-- The snapshots that the retention keeps: recent ones, oldest first, and checkpoints. -/
structure Retained where
  recent : List Snapshot
  checkpoints : List Snapshot

inductive SnapshotCall where
  | create (name : String) (nowMs : UInt64) (rank : String → Nat) (engine : RocksEngine)
  | delete (name : String)

namespace Retained

def all (r : Retained) : List Snapshot := r.recent ++ r.checkpoints

def newest (m : Nat) (l : List Snapshot) : List Snapshot := l.drop (l.length - m)

/-- A new checkpoint is kept until it is deleted. Any other new snapshot joins the recent ones, of which
only the newest `m` are kept. -/
def call (m : Nat) (r : Retained) : SnapshotCall → Retained
  | .create name nowMs _ engine =>
    if name ∈ r.all.map Snapshot.name then r
    else if protectedName name then
      { r with checkpoints := r.checkpoints ++ [⟨name, nowMs, engine.cfNames⟩] }
    else { r with recent := newest m (r.recent ++ [⟨name, nowMs, engine.cfNames⟩]) }
  | .delete name => ⟨r.recent.filter (·.name ≠ name), r.checkpoints.filter (·.name ≠ name)⟩

end Retained

def SnapshotManager.call (manager : SnapshotManager) : SnapshotCall → SnapshotManager
  | .create name nowMs rank engine => match manager.createSnapshot name nowMs rank engine with
    | .ok (manager, _) _ => manager
    | .error _ _ => manager
  | .delete name => match manager.deleteSnapshot name with
    | .ok manager => manager
    | .error _ => manager

def SnapshotCall.time? : SnapshotCall → Option UInt64
  | .create _ nowMs _ _ => some nowMs
  | .delete _ => none

/-- The registry holds the retained snapshots; the recent ones stand in the order of their times. -/
structure Retained.Of (manager : SnapshotManager) (r : Retained) : Prop where
  registered : ∀ name s, manager.snapshots[name]? = some s ↔ s ∈ r.all ∧ s.name = name
  distinct : (r.all.map Snapshot.name).Nodup
  recent : ∀ s ∈ r.recent, protectedName s.name = false
  checkpoints : ∀ s ∈ r.checkpoints, protectedName s.name = true
  ordered : r.recent.Pairwise (fun s t => s.createdAt < t.createdAt)

section Cleanup

variable {manager : SnapshotManager} {r : Retained} {rank : String → Nat}

namespace Retained.Of

theorem mem_listing (of : r.Of manager) (s : Snapshot) :
    s ∈ (listing rank manager.snapshots).map Prod.snd ↔ s ∈ r.all := by
  rw [((perm_listing rank manager.snapshots).map _).mem_iff, List.mem_map]
  constructor
  · rintro ⟨⟨name, s⟩, held, rfl⟩
    exact ((of.registered name s).mp (Std.ExtTreeMap.mem_toList_iff_getElem?_eq_some.mp held)).1
  · exact fun mem => ⟨(s.name, s), Std.ExtTreeMap.mem_toList_iff_getElem?_eq_some.mpr
      ((of.registered s.name s).mpr ⟨mem, rfl⟩), rfl⟩

theorem nodup_listing (of : r.Of manager) :
    ((listing rank manager.snapshots).map Prod.snd).Nodup := by
  rw [((perm_listing rank manager.snapshots).map _).nodup_iff]
  have keys : (manager.snapshots.toList.map Prod.snd).map Snapshot.name =
      manager.snapshots.toList.map Prod.fst := by
    rw [List.map_map]
    refine List.map_congr_left (fun entry held => ?_)
    exact ((of.registered entry.1 entry.2).mp
      (Std.ExtTreeMap.mem_toList_iff_getElem?_eq_some.mp held)).2
  exact List.Nodup.of_map _ (keys ▸ nodup_keys_toList manager.snapshots)

theorem unprotected_perm (of : r.Of manager) : (manager.unprotected rank).Perm r.recent := by
  have recents : r.recent.Nodup := (List.Nodup.of_map _ of.distinct).sublist (List.sublist_append_left _ _)
  refine (List.perm_ext_iff_of_nodup (of.nodup_listing.filter _) recents).mpr (fun s => ?_)
  rw [List.mem_filter, of.mem_listing, Retained.all, List.mem_append]
  constructor
  · rintro ⟨recent | checkpoint, free⟩
    · exact recent
    · simp [of.checkpoints s checkpoint] at free
  · exact fun recent => ⟨.inl recent, by simp [of.recent s recent]⟩

theorem oldSnapshots_eq (of : r.Of manager) :
    manager.oldSnapshots rank = r.recent.take (r.recent.length - manager.config.maxSnapshots) := by
  have times : (r.recent.map Snapshot.createdAt).Nodup :=
    List.pairwise_map.mpr (of.ordered.imp (fun less => UInt64.ne_of_lt less))
  have sorted : sortByKey (fun s => s.createdAt.toNat) (manager.unprotected rank) = r.recent := by
    have same := (perm_sortByKey (f := fun s => s.createdAt.toNat) _).trans
      (@unprotected_perm _ _ rank of)
    refine List.Perm.eq_of_pairwise (fun s t old new up down => ?_) (sorted_sortByKey _)
      (of.ordered.imp (fun less => Nat.le_of_lt less)) same
    exact List.inj_on_of_nodup_map times (same.subset old) new
      (UInt64.toNat_inj.mp (Nat.le_antisymm up down))
  rw [SnapshotManager.oldSnapshots, sorted, of.unprotected_perm.length_eq]

theorem cleanup (of : r.Of manager) :
    Of (manager.cleanupOldSnapshots rank) { r with recent := newest manager.config.maxSnapshots r.recent } := by
  have whole : r.all = r.recent.take (r.recent.length - manager.config.maxSnapshots) ++
      (newest manager.config.maxSnapshots r.recent ++ r.checkpoints) := by
    rw [newest, ← List.append_assoc, List.take_append_drop, Retained.all]
  have distinct := of.distinct
  rw [whole, List.map_append] at distinct
  obtain ⟨-, kept, apart⟩ := List.nodup_append.mp distinct
  have sub : (newest manager.config.maxSnapshots r.recent).Sublist r.recent := List.drop_sublist _ _
  refine ⟨fun name s => ?_, kept, fun s mem => of.recent s (sub.subset mem), of.checkpoints,
    of.ordered.sublist sub⟩
  rw [SnapshotManager.cleanupOldSnapshots_eq, of.oldSnapshots_eq,
    SnapshotManager.snapshots_foldl_discard]
  split
  next old =>
    refine iff_of_false (by simp) ?_
    rintro ⟨mem, rfl⟩
    exact apart _ old _ (List.mem_map_of_mem mem) rfl
  next young =>
    rw [of.registered]
    refine and_congr_left (fun here => ?_)
    have first : s ∉ r.recent.take (r.recent.length - manager.config.maxSnapshots) :=
      fun mem => young (here ▸ List.mem_map_of_mem mem)
    rw [whole, List.mem_append, or_iff_right first, Retained.all]

theorem insert (of : r.Of manager) {r' : Retained} {s : Snapshot} {dataDirs}
    (fresh : s.name ∉ r.all.map Snapshot.name) (joined : r'.all.Perm (s :: r.all))
    (recent : ∀ t ∈ r'.recent, protectedName t.name = false)
    (checkpoints : ∀ t ∈ r'.checkpoints, protectedName t.name = true)
    (ordered : r'.recent.Pairwise (fun s t => s.createdAt < t.createdAt)) :
    r'.Of { manager with snapshots := manager.snapshots.insert s.name s, dataDirs } := by
  refine ⟨fun name t => ?_, ?_, recent, checkpoints, ordered⟩
  · rw [Std.ExtTreeMap.getElem?_insert, joined.mem_iff, List.mem_cons]
    by_cases same : s.name = name
    · have unlisted : ¬(t ∈ r.all ∧ t.name = name) :=
        fun old => fresh (same ▸ old.2 ▸ List.mem_map_of_mem old.1)
      simp only [same, Std.ReflCmp.compare_self, if_true, Option.some.injEq]
      constructor
      · rintro rfl
        exact ⟨.inl rfl, same⟩
      · rintro ⟨rfl | old, here⟩
        · rfl
        · exact absurd ⟨old, here⟩ unlisted
    · simp only [Std.LawfulEqCmp.compare_eq_iff_eq, same, if_false, of.registered]
      refine and_congr_left (fun here => (or_iff_right ?_).symm)
      rintro rfl
      exact same here
  · rw [(joined.map Snapshot.name).nodup_iff]
    exact List.nodup_cons.mpr ⟨fresh, of.distinct⟩

theorem delete (of : r.Of manager) (m : Nat) (name : String) :
    Of (manager.call (.delete name)) (r.call m (.delete name)) := by
  have all : (r.call m (.delete name)).all = r.all.filter (·.name ≠ name) :=
    (List.filter_append ..).symm
  have held : ∀ k, (manager.call (.delete name)).snapshots[k]? =
      if name = k then none else manager.snapshots[k]? := by
    intro k
    refine (congrArg (·[k]?) (manager.snapshots_discard ⟨name, 0, []⟩)).trans ?_
    rw [Std.ExtTreeMap.getElem?_erase]
    simp only [Std.LawfulEqCmp.compare_eq_iff_eq]
  refine ⟨fun k s => ?_, ?_, fun s mem => of.recent s (List.mem_of_mem_filter mem),
    fun s mem => of.checkpoints s (List.mem_of_mem_filter mem), of.ordered.filter _⟩
  · rw [held, all, List.mem_filter, decide_eq_true_eq]
    split
    next same => exact iff_of_false (by simp) (fun both => both.1.2 (both.2.trans same.symm))
    next other =>
      rw [of.registered, and_assoc]
      exact and_congr_right (fun _ => ⟨fun here => ⟨here ▸ Ne.symm other, here⟩, And.right⟩)
  · rw [all]
    exact of.distinct.sublist (List.filter_sublist.map _)

end Retained.Of

end Cleanup

section Runs

variable {m : Nat} {manager : SnapshotManager} {r : Retained}

/-- What holds before and after each call: the times are those of earlier calls. -/
structure Retained.Tracks (m : Nat) (times : List UInt64) (manager : SnapshotManager) (r : Retained) :
    Prop where
  of : r.Of manager
  bound : manager.config.maxSnapshots = m
  short : r.recent.length ≤ m
  past : ∀ s ∈ r.recent, s.createdAt ∈ times

theorem config_foldl_discard (old : List Snapshot) (manager : SnapshotManager) :
    (old.foldl SnapshotManager.discard manager).config = manager.config := by
  induction old generalizing manager with
  | nil => rfl
  | cons s old ih =>
    rw [List.foldl_cons, ih, SnapshotManager.discard, SnapshotManager.deleteSnapshot]
    split_ifs <;> rfl

theorem Retained.Of.mem_snapshots (of : r.Of manager) (name : String) :
    name ∈ manager.snapshots ↔ name ∈ r.all.map Snapshot.name := by
  rw [Std.ExtTreeMap.mem_iff_isSome_getElem?, Option.isSome_iff_exists, List.mem_map]
  exact exists_congr (of.registered name)

theorem newest_of_short {l : List Snapshot} (short : l.length ≤ m) : Retained.newest m l = l := by
  rw [Retained.newest, Nat.sub_eq_zero_of_le short, List.drop_zero]

/-- A snapshot under a new name, then the cleanup. -/
theorem Retained.Tracks.join {times : List UInt64} (tracks : r.Tracks m times manager) {r' : Retained}
    (rank : String → Nat) (s : Snapshot) (dataDirs) (fresh : s.name ∉ r.all.map Snapshot.name)
    (later : ∀ t ∈ times, t < s.createdAt)
    (joins : r' = ⟨r.recent ++ [s], r.checkpoints⟩ ∧ protectedName s.name = false ∨
      r' = ⟨r.recent, r.checkpoints ++ [s]⟩ ∧ protectedName s.name = true) :
    Tracks m (times ++ [s.createdAt]) (SnapshotManager.cleanupOldSnapshots
      { manager with snapshots := manager.snapshots.insert s.name s, dataDirs } rank)
      { r' with recent := newest m r'.recent } := by
  have of := tracks.of
  have joined : r'.all.Perm (s :: r.all) := by
    rcases joins with ⟨rfl, -⟩ | ⟨rfl, -⟩ <;> simp only [Retained.all]
    · exact (List.append_assoc .. ▸ List.perm_middle)
    · exact (List.append_assoc .. ▸ List.perm_append_singleton s _)
  have inserted : r'.Of { manager with snapshots := manager.snapshots.insert s.name s, dataDirs } := by
    rcases joins with ⟨rfl, free⟩ | ⟨rfl, kept⟩
    · refine of.insert fresh joined ?_ of.checkpoints ?_
      · exact List.forall_mem_append.mpr ⟨of.recent, by simpa using free⟩
      · refine List.pairwise_append.mpr ⟨of.ordered, List.pairwise_singleton _ _, fun t old t' new => ?_⟩
        rw [List.mem_singleton.mp new]
        exact later _ (tracks.past t old)
    · exact of.insert fresh joined of.recent
        (List.forall_mem_append.mpr ⟨of.checkpoints, by simpa using kept⟩) of.ordered
  have cleaned := @Of.cleanup _ _ rank inserted
  simp only [tracks.bound] at cleaned
  refine ⟨cleaned, ?_, ?_, fun t mem => ?_⟩
  · rw [SnapshotManager.cleanupOldSnapshots_eq, config_foldl_discard]
    exact tracks.bound
  · rw [newest, List.length_drop]
    omega
  · rcases joins with ⟨rfl, -⟩ | ⟨rfl, -⟩
    · rcases List.mem_append.mp (List.mem_of_mem_drop mem) with old | new
      · exact List.mem_append_left _ (tracks.past t old)
      · rw [List.mem_singleton.mp new]
        exact List.mem_append_right _ List.mem_cons_self
    · exact List.mem_append_left _ (tracks.past t (List.mem_of_mem_drop mem))

theorem Retained.Tracks.create {times : List UInt64} (tracks : r.Tracks m times manager) (name : String)
    {nowMs : UInt64} (later : ∀ t ∈ times, t < nowMs) (rank : String → Nat) (engine : RocksEngine) :
    Tracks m (times ++ [nowMs]) (manager.call (.create name nowMs rank engine))
      (r.call m (.create name nowMs rank engine)) := by
  rw [SnapshotManager.call, Retained.call]
  by_cases taken : name ∈ r.all.map Snapshot.name
  · rw [if_pos taken, SnapshotManager.createSnapshot, if_pos ((tracks.of.mem_snapshots name).mpr taken)]
    exact ⟨tracks.of, tracks.bound, tracks.short,
      fun s mem => List.mem_append_left _ (tracks.past s mem)⟩
  · obtain ⟨dir, done, -⟩ := @createSnapshot_eq manager engine rank name
      (mt (tracks.of.mem_snapshots name).mp taken) nowMs
    rw [if_neg taken, done]
    by_cases kept : protectedName name = true
    · have still := tracks.join rank ⟨name, nowMs, engine.cfNames⟩ (manager.dataDirs.insert name dir) taken
        later (.inr ⟨rfl, kept⟩)
      rw [if_pos kept]
      rwa [newest_of_short tracks.short] at still
    · rw [if_neg kept]
      exact tracks.join rank ⟨name, nowMs, engine.cfNames⟩ _ taken later (.inl ⟨rfl, by simpa using kept⟩)

theorem Retained.Tracks.delete {times : List UInt64} (tracks : r.Tracks m times manager)
    (name : String) :
    Tracks m times (manager.call (.delete name)) (r.call m (.delete name)) := by
  refine ⟨tracks.of.delete m name, ?_, (List.length_filter_le _ _).trans tracks.short,
    fun s mem => tracks.past s (List.mem_of_mem_filter mem)⟩
  exact (congrArg SnapshotConfig.maxSnapshots (config_foldl_discard [⟨name, 0, []⟩] manager)).trans
    tracks.bound

def emptyManager (config : SnapshotConfig) : SnapshotManager := ⟨config, ∅, ∅⟩

theorem tracks_run (config : SnapshotConfig) {calls : List SnapshotCall}
    (clock : (calls.filterMap SnapshotCall.time?).Pairwise (· < ·)) :
    Retained.Tracks config.maxSnapshots (calls.filterMap SnapshotCall.time?)
      (calls.foldl SnapshotManager.call (emptyManager config))
      (calls.foldl (Retained.call config.maxSnapshots) ⟨[], []⟩) := by
  induction calls using List.reverseRecOn with
  | nil =>
    refine ⟨⟨fun name s => ?_, List.nodup_nil, ?_, ?_, .nil⟩, rfl, Nat.zero_le _, ?_⟩ <;>
      simp [Retained.all, emptyManager]
  | append_singleton calls call ih =>
    rw [List.filterMap_append] at clock ⊢
    obtain ⟨earlier, -, across⟩ := List.pairwise_append.mp clock
    rw [List.foldl_concat, List.foldl_concat]
    cases call with
    | create name nowMs rank engine =>
      exact (ih earlier).create name (fun t mem => across t mem nowMs List.mem_cons_self) rank engine
    | delete name =>
      have none : [SnapshotCall.delete name].filterMap SnapshotCall.time? = [] := rfl
      rw [none, List.append_nil]
      exact (ih earlier).delete name

/-- After each call the registry holds exactly the checkpoints that were created and not deleted and,
of the other snapshots that were neither deleted nor evicted before, the at most `m` newest. -/
theorem retention_exact (config : SnapshotConfig) (calls : List SnapshotCall)
    (clock : (calls.filterMap SnapshotCall.time?).Pairwise (· < ·)) :
    ∀ before after, calls = before ++ after →
      let manager := before.foldl SnapshotManager.call (emptyManager config)
      let r := before.foldl (Retained.call config.maxSnapshots) ⟨[], []⟩
      (∀ name s, protectedName name = false →
        (manager.snapshots[name]? = some s ↔ s ∈ r.recent ∧ s.name = name)) ∧
      (∀ name s, protectedName name = true →
        (manager.snapshots[name]? = some s ↔ s ∈ r.checkpoints ∧ s.name = name)) ∧
      r.recent.length ≤ config.maxSnapshots ∧
      r.recent.Pairwise (fun s t => s.createdAt < t.createdAt) := by
  rintro before after rfl manager r
  rw [List.filterMap_append] at clock
  have tracks := tracks_run config (List.pairwise_append.mp clock).1
  refine ⟨fun name s free => ?_, fun name s kept => ?_, tracks.short, tracks.of.ordered⟩
  · rw [tracks.of.registered, Retained.all, List.mem_append]
    refine and_congr_left (fun here => or_iff_left (fun checkpoint => ?_))
    have := tracks.of.checkpoints s checkpoint
    simp [here, free] at this
  · rw [tracks.of.registered, Retained.all, List.mem_append]
    refine and_congr_left (fun here => or_iff_right (fun recent => ?_))
    have := tracks.of.recent s recent
    simp [here, kept] at this

theorem retention_exact_evicts :
    let calls : List SnapshotCall := [.create "a" 1 (fun _ => 0) sampleEngine,
      .create "consensus_checkpoint_1" 2 (fun _ => 0) sampleEngine, .create "b" 3 (fun _ => 0) sampleEngine]
    let manager := calls.foldl SnapshotManager.call (emptyManager ⟨1, false⟩)
    (∀ s, manager.snapshots["a"]? ≠ some s) ∧
      manager.snapshots["b"]? = some ⟨"b", 3, sampleEngine.cfNames⟩ ∧
      manager.snapshots["consensus_checkpoint_1"]? =
        some ⟨"consensus_checkpoint_1", 2, sampleEngine.cfNames⟩ := by
  intro calls manager
  obtain ⟨recent, checkpoints, -⟩ := retention_exact ⟨1, false⟩ calls (by decide) calls [] rfl
  have kept : calls.foldl (Retained.call 1) ⟨[], []⟩ =
      ⟨[⟨"b", 3, sampleEngine.cfNames⟩], [⟨"consensus_checkpoint_1", 2, sampleEngine.cfNames⟩]⟩ := rfl
  simp only [kept, List.mem_singleton] at recent checkpoints
  refine ⟨fun s held => ?_, (recent "b" _ (by decide)).mpr ⟨rfl, rfl⟩,
    (checkpoints "consensus_checkpoint_1" _ (by decide)).mpr ⟨rfl, rfl⟩⟩
  obtain ⟨rfl, named⟩ := (recent "a" s (by decide)).mp held
  exact absurd named (by decide)

end Runs

end CatalystNode
