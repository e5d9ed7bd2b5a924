import CatalystNode.PathIndex
import CatalystNode.SparseTree

namespace CatalystNode

open ByteVector

abbrev PathMap := Std.ExtTreeMap (ByteVec 32) Hash

def treeDepth : Nat := 256

section Hashing

variable (sha256 : Bytes → Hash)

def hNode (left right : Hash) : Hash := sha256 (1 :: left.toList ++ right.toList)

def hEmptyLeaf : Hash := sha256 [2]

def hLeaf (key value : Bytes) : Hash :=
  sha256 (0 :: leBytes 8 key.length ++ key ++ leBytes 8 value.length ++ value)

def leafHashForKv (key value : Bytes) : Hash := hLeaf sha256 key value

def keyPath (key : Bytes) : ByteVec 32 := sha256 key

def emptyHashes : Nat → Hash
  | 0 => hEmptyLeaf sha256
  | h + 1 => hNode sha256 (emptyHashes h) (emptyHashes h)

structure Sweep where
  next : PathMap
  processed : Std.ExtTreeSet (ByteVec 32)

def parentCollision : StorageError :=
  .internal "Sparse merkle: parent hash collision (non-deterministic leaf set?)"

def sweepEntry (blank : Hash) (cur : PathMap) (sweep : Sweep) (entry : ByteVec 32 × Hash) :
    Except StorageError Sweep :=
  let (idx, hcur) := entry
  if sweep.processed.contains idx then .ok sweep
  else
    let sib := idxXor1 idx
    let hsib := cur.getD sib blank
    let (left, right) := if idxLsb idx = 0 then (hcur, hsib) else (hsib, hcur)
    let parentIdx := idxShr1 idx
    let ph := hNode sha256 left right
    let processed := (sweep.processed.insert idx).insert sib
    match sweep.next[parentIdx]? with
    | some existing =>
      if existing ≠ ph then .error parentCollision
      else .ok { sweep with processed }
    | none => .ok { next := sweep.next.insert parentIdx ph, processed }

def sweepLevel (blank : Hash) (cur : PathMap) : Except StorageError PathMap := do
  let sweep ← cur.toList.foldlM (sweepEntry sha256 blank cur) ⟨∅, ∅⟩
  return sweep.next

def depthsAbove : Nat → PathMap → Except StorageError (List PathMap)
  | 0, cur => .ok [cur]
  | d + 1, cur => do
    let next ← sweepLevel sha256 (emptyHashes sha256 (treeDepth - (d + 1))) cur
    let above ← depthsAbove d next
    return above ++ [cur]

def buildDepthMaps (leafMap : PathMap) : Except StorageError (Hash × List PathMap) := do
  let depths ← depthsAbove sha256 treeDepth leafMap
  let root := (depths.headD ∅).getD (zeros 32) (emptyHashes sha256 treeDepth)
  return (root, depths)

def leafMapFromIter (items : List (Bytes × Bytes)) : PathMap :=
  items.foldl (fun leafMap item =>
    leafMap.insert (keyPath sha256 item.1) (leafHashForKv sha256 item.1 item.2)) ∅

def computeRootFromIter (items : List (Bytes × Bytes)) : Except StorageError Hash := do
  let (root, _) ← buildDepthMaps sha256 (leafMapFromIter sha256 items)
  return root

theorem emptyHashes_eq_emptyRoot (h : Nat) :
    emptyHashes sha256 h = SparseTree.emptyRoot (hNode sha256) (hEmptyLeaf sha256) h := by
  induction h with
  | zero => rfl
  | succ h ih => simp only [emptyHashes, SparseTree.emptyRoot, ih]

variable {sha256}

def pairHash (sha256 : Bytes → Hash) (blank : Hash) (cur : PathMap) (idx : ByteVec 32) : Hash :=
  if idxLsb idx = 0 then hNode sha256 (cur.getD idx blank) (cur.getD (idxXor1 idx) blank)
  else hNode sha256 (cur.getD (idxXor1 idx) blank) (cur.getD idx blank)

theorem pairHash_idxXor1 (blank : Hash) (cur : PathMap) (idx : ByteVec 32) :
    pairHash sha256 blank cur (idxXor1 idx) = pairHash sha256 blank cur idx := by
  have flip := idxLsb_idxXor1_eq_zero_iff idx
  unfold pairHash
  rw [idxXor1_idxXor1]
  split <;> split <;> first | rfl | simp_all

structure SweepInv (sha256 : Bytes → Hash) (blank : Hash) (cur : PathMap)
    (handled : List (ByteVec 32)) (sweep : Sweep) : Prop where
  processed : ∀ p, p ∈ sweep.processed ↔ p ∈ handled ∨ idxXor1 p ∈ handled
  next : ∀ q v, sweep.next[q]? = some v ↔
    ∃ p ∈ handled, idxShr1 p = q ∧ pairHash sha256 blank cur p = v

theorem SweepInv.skip {blank : Hash} {cur : PathMap} {handled : List (ByteVec 32)} {sweep : Sweep}
    (inv : SweepInv sha256 blank cur handled sweep) {idx : ByteVec 32}
    (seen : idx ∈ sweep.processed) :
    SweepInv sha256 blank cur (handled ++ [idx]) sweep := by
  have twin := (inv.processed idx).mp seen
  refine ⟨fun p => ?_, fun q v => ?_⟩
  · rw [inv.processed]
    constructor
    · rintro (h | h)
      · exact Or.inl (List.mem_append_left _ h)
      · exact Or.inr (List.mem_append_left _ h)
    · simp only [List.mem_append, List.mem_singleton]
      rintro ((h | rfl) | (h | h))
      · exact Or.inl h
      · exact twin
      · exact Or.inr h
      · subst h
        rw [idxXor1_idxXor1] at twin
        exact twin.symm
  · rw [inv.next]
    constructor
    · rintro ⟨p, hp, rest⟩
      exact ⟨p, List.mem_append_left _ hp, rest⟩
    · rintro ⟨p, hp, rfl, rfl⟩
      rcases List.mem_append.mp hp with hp | hp
      · exact ⟨p, hp, rfl, rfl⟩
      · cases List.mem_singleton.mp hp
        rcases twin with h | h
        · exact ⟨idx, h, rfl, rfl⟩
        · exact ⟨idxXor1 idx, h, idxShr1_idxXor1 idx, pairHash_idxXor1 blank cur idx⟩

theorem SweepInv.fresh {blank : Hash} {cur : PathMap} {handled : List (ByteVec 32)} {sweep : Sweep}
    (inv : SweepInv sha256 blank cur handled sweep) {idx : ByteVec 32}
    (unseen : idx ∉ sweep.processed) : sweep.next[idxShr1 idx]? = none := by
  rw [inv.processed] at unseen
  cases stored : sweep.next[idxShr1 idx]? with
  | none => rfl
  | some v =>
    obtain ⟨p, hp, same, -⟩ := (inv.next _ _).mp stored
    rcases eq_or_eq_idxXor1_of_idxShr1_eq same with rfl | rfl
    · exact absurd (Or.inl hp) unseen
    · exact absurd (Or.inr hp) unseen

theorem SweepInv.store {blank : Hash} {cur : PathMap} {handled : List (ByteVec 32)} {sweep : Sweep}
    (inv : SweepInv sha256 blank cur handled sweep) {idx : ByteVec 32}
    (unseen : idx ∉ sweep.processed) :
    SweepInv sha256 blank cur (handled ++ [idx])
      ⟨sweep.next.insert (idxShr1 idx) (pairHash sha256 blank cur idx),
        (sweep.processed.insert idx).insert (idxXor1 idx)⟩ := by
  have flip : ∀ p, idxXor1 p = idx ↔ idxXor1 idx = p := fun p =>
    ⟨fun h => h ▸ idxXor1_idxXor1 p, fun h => h ▸ idxXor1_idxXor1 idx⟩
  refine ⟨fun p => ?_, fun q v => ?_⟩
  · simp only [Std.ExtTreeSet.mem_insert, compare_eq_iff_eq, inv.processed, List.mem_append,
      List.mem_singleton, flip]
    tauto
  · rw [Std.ExtTreeMap.getElem?_insert]
    split
    next same =>
      rw [compare_eq_iff_eq] at same
      subst same
      constructor
      · intro h
        exact ⟨idx, by simp, rfl, Option.some.inj h⟩
      · rintro ⟨p, hp, same, rfl⟩
        rcases eq_or_eq_idxXor1_of_idxShr1_eq same with rfl | rfl
        · rfl
        · rw [pairHash_idxXor1]
    next other =>
      rw [compare_eq_iff_eq] at other
      rw [inv.next]
      constructor
      · rintro ⟨p, hp, rest⟩
        exact ⟨p, List.mem_append_left _ hp, rest⟩
      · rintro ⟨p, hp, same, value⟩
        rcases List.mem_append.mp hp with hp | hp
        · exact ⟨p, hp, same, value⟩
        · cases List.mem_singleton.mp hp
          exact absurd same other

theorem sweepEntry_ok {blank : Hash} {cur : PathMap} {handled : List (ByteVec 32)} {sweep : Sweep}
    (inv : SweepInv sha256 blank cur handled sweep) {idx : ByteVec 32} {hcur : Hash}
    (stored : cur[idx]? = some hcur) :
    ∃ sweep', sweepEntry sha256 blank cur sweep (idx, hcur) = .ok sweep' ∧
      SweepInv sha256 blank cur (handled ++ [idx]) sweep' := by
  by_cases seen : idx ∈ sweep.processed
  · exact ⟨sweep, by simp [sweepEntry, seen], inv.skip seen⟩
  · refine ⟨_, ?_, inv.store seen⟩
    have here : cur.getD idx blank = hcur := by
      simp [Std.ExtTreeMap.getD_eq_getD_getElem?, stored]
    simp only [sweepEntry, Std.ExtTreeSet.contains_iff_mem, seen, if_false, inv.fresh seen,
      pairHash, here]
    split <;> rfl

theorem foldlM_sweepEntry_ok {blank : Hash} {cur : PathMap} {entries : List (ByteVec 32 × Hash)}
    (stored : ∀ e ∈ entries, cur[e.1]? = some e.2) {handled : List (ByteVec 32)} {sweep : Sweep}
    (inv : SweepInv sha256 blank cur handled sweep) :
    ∃ sweep', entries.foldlM (sweepEntry sha256 blank cur) sweep = .ok sweep' ∧
      SweepInv sha256 blank cur (handled ++ entries.map Prod.fst) sweep' := by
  induction entries generalizing handled sweep with
  | nil => exact ⟨sweep, rfl, by simpa using inv⟩
  | cons e entries ih =>
    obtain ⟨mid, step, invMid⟩ := sweepEntry_ok inv (stored e (by simp))
    obtain ⟨last, run, invLast⟩ := ih (fun e' he' => stored e' (by simp [he'])) invMid
    refine ⟨last, ?_, by simpa using invLast⟩
    rw [List.foldlM_cons, step]
    exact run

theorem sweepLevel_ok (blank : Hash) (cur : PathMap) :
    ∃ next, sweepLevel sha256 blank cur = .ok next ∧
      ∀ q v, next[q]? = some v ↔
        ∃ p ∈ cur, idxShr1 p = q ∧ pairHash sha256 blank cur p = v := by
  have start : SweepInv sha256 blank cur [] ⟨∅, ∅⟩ := ⟨by simp, by simp⟩
  obtain ⟨sweep, run, inv⟩ := foldlM_sweepEntry_ok
    (fun e (he : e ∈ cur.toList) => Std.ExtTreeMap.mem_toList_iff_getElem?_eq_some.mp he) start
  refine ⟨sweep.next, by rw [sweepLevel, run]; rfl, fun q v => ?_⟩
  rw [inv.next]
  simp only [List.nil_append, Std.ExtTreeMap.map_fst_toList_eq_keys, Std.ExtTreeMap.mem_keys]

def entryAt (m : PathMap) (i : Nat) : Option Hash := m[beBytes 32 i]?

theorem pairHash_beBytes_double (blank : Hash) (cur : PathMap) {i : Nat} (hi : i < 2 ^ 255) :
    pairHash sha256 blank cur (beBytes 32 (2 * i)) =
      hNode sha256 ((entryAt cur (2 * i)).getD blank) ((entryAt cur (2 * i + 1)).getD blank) := by
  rw [pairHash, if_pos (idxLsb_beBytes_double hi), idxXor1_beBytes_double hi]
  simp only [entryAt, Std.ExtTreeMap.getD_eq_getD_getElem?]

theorem entryAt_isNone_iff (m : PathMap) (i : Nat) :
    (entryAt m i).isNone ↔ beBytes 32 i ∉ m := by
  rw [entryAt, Std.ExtTreeMap.mem_iff_isSome_getElem?, Option.isNone_iff_eq_none]
  simp

theorem entryAt_sweep {blank : Hash} {cur next : PathMap}
    (stored : ∀ q v, next[q]? = some v ↔
      ∃ p ∈ cur, idxShr1 p = q ∧ pairHash sha256 blank cur p = v) {i : Nat} (hi : i < 2 ^ 255) :
    entryAt next i = SparseTree.parentEntry (hNode sha256) blank (entryAt cur) i := by
  have children := idxShr1_eq_beBytes_iff hi
  unfold SparseTree.parentEntry
  rw [← pairHash_beBytes_double blank cur hi]
  split
  next none =>
    rw [entryAt_isNone_iff, entryAt_isNone_iff] at none
    rw [entryAt, Option.eq_none_iff_forall_ne_some]
    intro v hv
    obtain ⟨p, hp, same, -⟩ := (stored _ _).mp hv
    rcases (children p).mp same with rfl | rfl
    · exact none.1 hp
    · exact none.2 hp
  next one =>
    rw [entryAt_isNone_iff, entryAt_isNone_iff, Classical.not_and_iff_not_or_not, not_not,
      not_not] at one
    rw [entryAt, stored]
    rcases one with left | right
    · exact ⟨_, left, (children _).mpr (Or.inl rfl), rfl⟩
    · refine ⟨_, right, (children _).mpr (Or.inr rfl), ?_⟩
      rw [← idxXor1_beBytes_double hi, pairHash_idxXor1]

def leafAt (sha256 : Bytes → Hash) (leafMap : PathMap) (i : Nat) : Hash :=
  (entryAt leafMap i).getD (hEmptyLeaf sha256)

def DepthMap (sha256 : Bytes → Hash) (leafMap : PathMap) (d : Nat) (m : PathMap) : Prop :=
  SparseTree.Level (hNode sha256) (hEmptyLeaf sha256) (leafAt sha256 leafMap) (treeDepth - d) (2 ^ d)
    (entryAt m)

theorem sweepLevel_depthMap {leafMap cur : PathMap} {d : Nat} (hd : d < treeDepth)
    (level : DepthMap sha256 leafMap (d + 1) cur) :
    ∃ next, sweepLevel sha256 (emptyHashes sha256 (treeDepth - (d + 1))) cur = .ok next ∧
      DepthMap sha256 leafMap d next := by
  obtain ⟨next, run, stored⟩ :=
    @sweepLevel_ok sha256 (emptyHashes sha256 (treeDepth - (d + 1))) cur
  refine ⟨next, run, ?_⟩
  unfold DepthMap at level ⊢
  rw [Nat.pow_succ, Nat.mul_comm] at level
  rw [show treeDepth - d = treeDepth - (d + 1) + 1 by omega]
  refine level.parent (fun i hi => ?_)
  rw [← emptyHashes_eq_emptyRoot]
  have wide : 2 ^ d ≤ 2 ^ 255 := Nat.pow_le_pow_right (by decide) (by unfold treeDepth at hd; omega)
  exact entryAt_sweep stored (by omega)

theorem depthsAbove_ok {leafMap cur : PathMap} {d : Nat} (hd : d ≤ treeDepth)
    (level : DepthMap sha256 leafMap d cur) :
    ∃ depths, depthsAbove sha256 d cur = .ok depths ∧ depths.length = d + 1 ∧
      ∀ k m, depths[k]? = some m → DepthMap sha256 leafMap k m := by
  induction d generalizing cur with
  | zero =>
    refine ⟨[cur], rfl, rfl, fun k m hm => ?_⟩
    obtain ⟨hk, rfl⟩ := List.getElem?_eq_some_iff.mp hm
    simp only [List.length_singleton, Nat.lt_one_iff] at hk
    subst hk
    exact level
  | succ d ih =>
    obtain ⟨next, run, up⟩ := sweepLevel_depthMap (by omega) level
    obtain ⟨above, rest, length, maps⟩ := ih (by omega) up
    refine ⟨above ++ [cur], by rw [depthsAbove, run]; simp [rest, bind, Except.bind, pure, Except.pure],
      by simp [length], fun k m hm => ?_⟩
    by_cases hk : k < above.length
    · rw [List.getElem?_append_left hk] at hm
      exact maps k m hm
    · obtain ⟨bound, -⟩ := List.getElem?_eq_some_iff.mp hm
      simp only [List.length_append, List.length_singleton] at bound
      obtain rfl : k = above.length := by omega
      rw [List.getElem?_concat_length] at hm
      cases Option.some.inj hm
      rwa [length]

theorem buildDepthMaps_ok (leafMap : PathMap) :
    ∃ depths, buildDepthMaps sha256 leafMap =
        .ok (SparseTree.subtreeRoot (hNode sha256) (leafAt sha256 leafMap) treeDepth 0, depths) ∧
      depths.length = treeDepth + 1 ∧ ∀ k m, depths[k]? = some m → DepthMap sha256 leafMap k m := by
  have leaves : DepthMap sha256 leafMap treeDepth leafMap := by
    unfold DepthMap
    rw [Nat.sub_self]
    exact SparseTree.Level.leaves (entryAt leafMap)
  obtain ⟨depths, run, length, maps⟩ := depthsAbove_ok (le_refl treeDepth) leaves
  refine ⟨depths, ?_, length, maps⟩
  cases depths with
  | nil => simp at length
  | cons top rest =>
    have root := (maps 0 top rfl).value 0 (by norm_num)
    rw [← emptyHashes_eq_emptyRoot, entryAt, ← Std.ExtTreeMap.getD_eq_getD_getElem?] at root
    rw [buildDepthMaps, run]
    simp only [bind, Except.bind, pure, Except.pure, List.headD_cons]
    exact congrArg (fun root => Except.ok (root, top :: rest)) root

theorem getElem?_leafMapFromIter {items : List (Bytes × Bytes)}
    (paths : (items.map (fun item => keyPath sha256 item.1)).Nodup) (q : ByteVec 32) (v : Hash) :
    (leafMapFromIter sha256 items)[q]? = some v ↔
      ∃ item ∈ items, keyPath sha256 item.1 = q ∧ leafHashForKv sha256 item.1 item.2 = v := by
  induction items using List.reverseRecOn with
  | nil => simp [leafMapFromIter]
  | append_singleton items item ih =>
    rw [List.map_append, List.nodup_append] at paths
    obtain ⟨init, -, apart⟩ := paths
    rw [leafMapFromIter, List.foldl_concat, Std.ExtTreeMap.getElem?_insert]
    change (if _ then _ else (leafMapFromIter sha256 items)[q]?) = _ ↔ _
    split
    next same =>
      rw [compare_eq_iff_eq] at same
      subst same
      constructor
      · intro h
        exact ⟨item, by simp, rfl, Option.some.inj h⟩
      · rintro ⟨other, hmem, same, rfl⟩
        rcases List.mem_append.mp hmem with hmem | hmem
        · exact absurd same (apart _ (List.mem_map_of_mem hmem) _ (by simp))
        · cases List.mem_singleton.mp hmem
          rfl
    next other =>
      rw [compare_eq_iff_eq] at other
      rw [ih init]
      constructor
      · rintro ⟨e, he, rest⟩
        exact ⟨e, List.mem_append_left _ he, rest⟩
      · rintro ⟨e, he, same, value⟩
        rcases List.mem_append.mp he with he | he
        · exact ⟨e, he, same, value⟩
        · cases List.mem_singleton.mp he
          exact absurd same other

theorem leafMapFromIter_perm {items items' : List (Bytes × Bytes)} (perm : items.Perm items')
    (paths : (items.map (fun item => keyPath sha256 item.1)).Nodup) :
    leafMapFromIter sha256 items = leafMapFromIter sha256 items' := by
  apply Std.ExtTreeMap.ext_getElem?
  intro q
  apply Option.ext
  intro v
  rw [getElem?_leafMapFromIter paths, getElem?_leafMapFromIter ((perm.map _).nodup_iff.mp paths)]
  simp only [perm.mem_iff]

end Hashing

/-- The sweep never reports a collision and returns the root of the full tree of depth 256, so the
root of a set of pairs does not depend on the order in which they are enumerated. -/
theorem buildDepthMaps_root (sha256 : Bytes → Hash) :
    (∀ leafMap, ∃ depths, buildDepthMaps sha256 leafMap =
      .ok (SparseTree.subtreeRoot (hNode sha256) (leafAt sha256 leafMap) treeDepth 0, depths)) ∧
    ∀ items items' : List (Bytes × Bytes), items.Perm items' →
      (items.map (fun item => keyPath sha256 item.1)).Nodup →
      ∃ root, computeRootFromIter sha256 items = .ok root ∧
        computeRootFromIter sha256 items' = .ok root := by
  have total : ∀ leafMap, ∃ depths, buildDepthMaps sha256 leafMap = .ok
      (SparseTree.subtreeRoot (hNode sha256) (leafAt sha256 leafMap) treeDepth 0, depths) := by
    intro leafMap
    obtain ⟨depths, run, -⟩ := @buildDepthMaps_ok sha256 leafMap
    exact ⟨depths, run⟩
  refine ⟨total, fun items items' perm paths => ?_⟩
  obtain ⟨depths, run⟩ := total (leafMapFromIter sha256 items)
  unfold computeRootFromIter
  rw [← leafMapFromIter_perm perm paths, run]
  exact ⟨_, rfl, rfl⟩

theorem buildDepthMaps_root_two_items :
    ∃ root, computeRootFromIter (padTo 32) [([1], [7]), ([2], [8])] = .ok root ∧
      computeRootFromIter (padTo 32) [([2], [8]), ([1], [7])] = .ok root :=
  (buildDepthMaps_root (padTo 32)).2 _ _ (List.Perm.swap _ _ _) (by decide)

end CatalystNode
