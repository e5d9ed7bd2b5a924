import CatalystNode.ConsensusTypes
import CatalystNode.CanonicalList
import CatalystNode.DenseTree

namespace CatalystNode

open ByteVector HexCodec CanonicalList

variable (blake2b512 : Bytes → ByteVec 64)

def hashPair (left right : Hash) : Hash :=
  blake2b512Trunc32 blake2b512 (left.toList ++ right.toList)

/-- One pass of the pairing loop; a last unpaired hash is paired with itself. -/
def merkleLevel : List Hash → List Hash
  | [] => []
  | [last] => [hashPair blake2b512 last last]
  | left :: right :: rest => hashPair blake2b512 left right :: merkleLevel rest

def merkleLoop : Nat → List Hash → List Hash
  | 0, level => level
  | fuel + 1, level =>
    if 1 < level.length then merkleLoop fuel (merkleLevel blake2b512 level) else level

/-- The loop halves the level on every pass, so the number of leaves bounds its passes. -/
def computeMerkleRoot (leaves : List Hash) : Hash :=
  (merkleLoop blake2b512 leaves.length leaves).headD (zeros 32)

def producerLeafHash (producerId : ProducerId) : Hash :=
  blake2b512Trunc32 blake2b512 (utf8 producerId)

def hashProducerListMerkle (producerList : List ProducerId) : Hash :=
  computeMerkleRoot blake2b512 ((sortDedup producerList).map (producerLeafHash blake2b512))

theorem merkleLevel_eq (level : List Hash) :
    merkleLevel blake2b512 level = DenseTree.pairUp (hashPair blake2b512) level := by
  induction level using merkleLevel.induct with
  | case1 => rfl
  | case2 last => rfl
  | case3 left right rest ih => rw [merkleLevel, DenseTree.pairUp, ih]

theorem hashProducerListMerkle_congr {ids ids' : List ProducerId} (h : ∀ id, id ∈ ids ↔ id ∈ ids') :
    hashProducerListMerkle blake2b512 ids = hashProducerListMerkle blake2b512 ids' := by
  unfold hashProducerListMerkle
  rw [sortDedup_congr h]

theorem computeMerkleRoot_eq (leaves : List Hash) : computeMerkleRoot blake2b512 leaves =
    (DenseTree.collapse (hashPair blake2b512) leaves.length leaves).headD (zeros 32) := by
  have loop : ∀ fuel level, merkleLoop blake2b512 fuel level =
      DenseTree.collapse (hashPair blake2b512) fuel level := by
    intro fuel
    induction fuel with
    | zero => exact fun level => rfl
    | succ fuel ih =>
      intro level
      rw [merkleLoop, DenseTree.collapse, merkleLevel_eq, ih]
  rw [computeMerkleRoot, loop]

def witnessPairs (ids : List ProducerId) : Set (Hash × Hash) :=
  {p | DenseTree.Combined (hashPair blake2b512) ((sortDedup ids).map (producerLeafHash blake2b512)) p}

/-- What is hashed for the witness of a list: its ids, and the pairs of hashes that are combined. -/
def witnessInputs (ids : List ProducerId) : Set Bytes :=
  {bytes | (∃ id ∈ ids, utf8 id = bytes) ∨
    ∃ p ∈ witnessPairs blake2b512 ids, p.1.toList ++ p.2.toList = bytes}

section Witness

variable {blake2b512} {ids ids' : List ProducerId}

theorem nodup_producerLeafHash (free : Set.InjOn (blake2b512Trunc32 blake2b512) (witnessInputs blake2b512 ids)) :
    ((sortDedup ids).map (producerLeafHash blake2b512)).Nodup := by
  refine (nodup_sortDedup ids).map_on (fun id hid id' hid' same => ?_)
  exact utf8_inj (free (.inl ⟨id, mem_sortDedup.mp hid, rfl⟩) (.inl ⟨id', mem_sortDedup.mp hid', rfl⟩) same)

theorem hashProducerListMerkle_eq_zeros (nonzero : ∀ bytes ∈ witnessInputs blake2b512 ids,
    blake2b512Trunc32 blake2b512 bytes ≠ zeros 32) :
    hashProducerListMerkle blake2b512 ids = zeros 32 ↔ ids = [] := by
  constructor
  · intro zero
    by_contra filled
    have leaves : (sortDedup ids).map (producerLeafHash blake2b512) ≠ [] :=
      fun empty => filled (sortDedup_eq_nil.mp (List.map_eq_nil_iff.mp empty))
    obtain ⟨root, made, way⟩ := @DenseTree.reaches_collapse _ (hashPair blake2b512) _ _ leaves (Nat.le_succ _)
    rw [hashProducerListMerkle, computeMerkleRoot_eq, made, List.headD_cons] at zero
    rcases DenseTree.eq_or_node_of_reaches way with same | nodes
    · have listed : root ∈ (sortDedup ids).map (producerLeafHash blake2b512) := same ▸ List.mem_cons_self
      obtain ⟨id, listed, leaf⟩ := List.mem_map.mp listed
      exact nonzero _ (.inl ⟨id, mem_sortDedup.mp listed, rfl⟩) (leaf.trans zero)
    · obtain ⟨p, combined, value⟩ := nodes root List.mem_cons_self
      exact nonzero _ (.inr ⟨p, combined, rfl⟩) (value.trans zero)
  · rintro rfl
    rfl

/-- Without collisions, the zero hash and ids that are two hashes which are combined, witnesses of
committees are equal exactly if the committees are. -/
theorem committeeWitness_eq_iff
    (free : Set.InjOn (blake2b512Trunc32 blake2b512)
      (witnessInputs blake2b512 ids ∪ witnessInputs blake2b512 ids'))
    (nonzero : ∀ bytes ∈ witnessInputs blake2b512 ids ∪ witnessInputs blake2b512 ids',
      blake2b512Trunc32 blake2b512 bytes ≠ zeros 32)
    (plain : ∀ id, id ∈ ids ∨ id ∈ ids' → ∀ p ∈ witnessPairs blake2b512 ids ∪ witnessPairs blake2b512 ids',
      utf8 id ≠ p.1.toList ++ p.2.toList) :
    hashProducerListMerkle blake2b512 ids = hashProducerListMerkle blake2b512 ids' ↔
      ∀ id, id ∈ ids ↔ id ∈ ids' := by
  refine ⟨fun same => ?_, hashProducerListMerkle_congr blake2b512⟩
  have zero := @hashProducerListMerkle_eq_zeros _ ids (fun bytes hashed => nonzero bytes (.inl hashed))
  have zero' := @hashProducerListMerkle_eq_zeros _ ids' (fun bytes hashed => nonzero bytes (.inr hashed))
  by_cases filled : ids = []
  · rw [filled, zero'.mp (same.symm.trans (zero.mpr filled))]
    exact fun id => Iff.rfl
  have filled' : ids' ≠ [] := fun empty => filled (zero.mp (same.trans (zero'.mpr empty)))
  have leavesNe : ∀ l : List ProducerId, l ≠ [] → (sortDedup l).map (producerLeafHash blake2b512) ≠ [] :=
    fun l h empty => h (sortDedup_eq_nil.mp (List.map_eq_nil_iff.mp empty))
  have hashed : ∀ p ∈ witnessPairs blake2b512 ids ∪ witnessPairs blake2b512 ids',
      p.1.toList ++ p.2.toList ∈ witnessInputs blake2b512 ids ∪ witnessInputs blake2b512 ids' :=
    fun p combined => combined.imp (fun h => .inr ⟨p, h, rfl⟩) (fun h => .inr ⟨p, h, rfl⟩)
  have nodes : Set.InjOn (fun p : Hash × Hash => hashPair blake2b512 p.1 p.2)
      (witnessPairs blake2b512 ids ∪ witnessPairs blake2b512 ids') := by
    intro p hp q hq made
    obtain ⟨left, right⟩ := toList_append_inj.mp (free (hashed p hp) (hashed q hq) made)
    exact Prod.ext left (Subtype.ext right)
  have input : ∀ id, id ∈ ids ∨ id ∈ ids' →
      utf8 id ∈ witnessInputs blake2b512 ids ∪ witnessInputs blake2b512 ids' := fun id listed =>
    listed.imp (fun h => .inl ⟨id, h, rfl⟩) (fun h => .inl ⟨id, h, rfl⟩)
  have member : ∀ l, (∀ b ∈ l, b ∈ ids ∨ b ∈ ids') → ∀ a, a ∈ ids ∨ a ∈ ids' →
      (a ∈ l ↔ producerLeafHash blake2b512 a ∈ (sortDedup l).map (producerLeafHash blake2b512)) := by
    intro l known a listed
    refine ⟨fun h => List.mem_map_of_mem (mem_sortDedup.mpr h), fun h => ?_⟩
    obtain ⟨b, held, leaf⟩ := List.mem_map.mp h
    have held := mem_sortDedup.mp held
    exact utf8_inj (free (input b (known b held)) (input a listed) leaf) ▸ held
  have leaves : (sortDedup ids).map (producerLeafHash blake2b512) =
      (sortDedup ids').map (producerLeafHash blake2b512) := by
    refine DenseTree.eq_of_collapse_eq nodes (leavesNe ids filled) (leavesNe ids' filled')
      (nodup_producerLeafHash (free.mono Set.subset_union_left))
      (nodup_producerLeafHash (free.mono Set.subset_union_right))
      (fun p combined => .inl combined) (fun p combined => .inr combined) ?_ ?_
    · intro p hp a listed made
      have named : ∃ id, (id ∈ ids ∨ id ∈ ids') ∧ producerLeafHash blake2b512 id = a := by
        rcases listed with listed | listed
        · obtain ⟨id, held, leaf⟩ := List.mem_map.mp listed
          exact ⟨id, .inl (mem_sortDedup.mp held), leaf⟩
        · obtain ⟨id, held, leaf⟩ := List.mem_map.mp listed
          exact ⟨id, .inr (mem_sortDedup.mp held), leaf⟩
      obtain ⟨id, held, leaf⟩ := named
      exact plain id held p hp (free (input id held) (hashed p hp) (leaf.trans made.symm))
    · obtain ⟨root, made, -⟩ := @DenseTree.reaches_collapse _ (hashPair blake2b512) _ _ (leavesNe ids filled)
        (Nat.le_succ _)
      obtain ⟨root', made', -⟩ := @DenseTree.reaches_collapse _ (hashPair blake2b512) _ _
        (leavesNe ids' filled') (Nat.le_succ _)
      rw [hashProducerListMerkle, hashProducerListMerkle, computeMerkleRoot_eq, computeMerkleRoot_eq, made,
        made'] at same
      rw [made, made', show root = root' from same]
  intro id
  by_cases listed : id ∈ ids ∨ id ∈ ids'
  · rw [member ids (fun _ => .inl) id listed, member ids' (fun _ => .inr) id listed, leaves]
  · exact iff_of_false (fun h => listed (.inl h)) (fun h => listed (.inr h))

def sampleId (digits : String) : ProducerId :=
  digits ++ "00000000000000000000000000000000000000000000000000000000000000"

def sampleHash512 (bytes : Bytes) : ByteVec 64 := padTo 64 (bytes.take 2 ++ (bytes.drop 32).take 30)

theorem committeeWitness_eq_iff_workers :
    hashProducerListMerkle sampleHash512 [sampleId "0a", sampleId "0b"] ≠
      hashProducerListMerkle sampleHash512 [sampleId "0a", sampleId "0c"] := by
  let leaf := fun digits => producerLeafHash sampleHash512 (sampleId digits)
  let ids : List Bytes := [utf8 (sampleId "0a"), utf8 (sampleId "0b"), utf8 (sampleId "0c")]
  let nodes : List Bytes :=
    [(leaf "0a").toList ++ (leaf "0b").toList, (leaf "0a").toList ++ (leaf "0c").toList]
  have pairs : ∀ digits ∈ ["0b", "0c"],
      witnessPairs sampleHash512 [sampleId "0a", sampleId digits] = {(leaf "0a", leaf digits)} := by
    intro digits listed
    have sorted : sortDedup [sampleId "0a", sampleId digits] = [sampleId "0a", sampleId digits] := by
      revert digits
      decide +kernel
    ext p
    rw [witnessPairs, sorted]
    exact DenseTree.combined_pair_iff
  have combined : ∀ digits ∈ ["0b", "0c"],
      ∀ p ∈ witnessPairs sampleHash512 [sampleId "0a", sampleId digits],
      p.1.toList ++ p.2.toList ∈ nodes := by
    intro digits listed p found
    rw [pairs digits listed] at found
    subst found
    revert digits
    decide +kernel
  have hashed : ∀ digits ∈ ["0b", "0c"],
      ∀ bytes ∈ witnessInputs sampleHash512 [sampleId "0a", sampleId digits], bytes ∈ ids ++ nodes := by
    rintro digits listed bytes (⟨id, held, rfl⟩ | ⟨p, found, rfl⟩)
    · revert digits
      simp only [List.mem_cons, List.not_mem_nil, or_false]
      rintro _ (rfl | rfl) (rfl | rfl) <;> decide +kernel
    · exact List.mem_append_right ids (combined digits listed p found)
  have both : ∀ bytes ∈ witnessInputs sampleHash512 [sampleId "0a", sampleId "0b"] ∪
      witnessInputs sampleHash512 [sampleId "0a", sampleId "0c"], bytes ∈ ids ++ nodes := fun bytes found =>
    found.elim (hashed "0b" (by decide) bytes) (hashed "0c" (by decide) bytes)
  have distinct : ∀ x ∈ ids ++ nodes, ∀ y ∈ ids ++ nodes, blake2b512Trunc32 sampleHash512 x =
      blake2b512Trunc32 sampleHash512 y → x = y := by
    decide +kernel
  have nonzero : ∀ x ∈ ids ++ nodes, blake2b512Trunc32 sampleHash512 x ≠ zeros 32 := by
    decide +kernel
  have plain : ∀ id ∈ [sampleId "0a", sampleId "0b", sampleId "0c"], utf8 id ∉ nodes := by
    decide +kernel
  rw [Ne, committeeWitness_eq_iff (fun x hx y hy => distinct x (both x hx) y (both y hy))
    (fun x hx => nonzero x (both x hx)) (fun id listed p found same => ?_)]
  · intro same
    exact absurd ((same (sampleId "0b")).mp (by decide)) (by decide +kernel)
  · refine plain id (by simp at listed ⊢; tauto) (same ▸ ?_)
    exact found.elim (combined "0b" (by decide) p) (combined "0c" (by decide) p)

end Witness

end CatalystNode
