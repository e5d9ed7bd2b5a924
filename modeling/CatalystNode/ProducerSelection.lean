import CatalystNode.ConsensusTypes
import CatalystNode.CanonicalList

namespace CatalystNode

open ByteVector HexCodec CanonicalList

def xor32 (a b : Hash) : Hash := List.Vector.map₂ (· ^^^ ·) a b

theorem xor32_injective (r : Hash) : Function.Injective (fun id => xor32 id r) := by
  intro a b same
  refine List.Vector.ext (fun i => ?_)
  have bytes := congrArg (fun v => List.Vector.get v i) same
  simp only [xor32, List.Vector.get_map₂] at bytes
  simpa using bytes

section Selection

variable (sha256 : Bytes → Hash)

def prng32 (seed : Hash) : Hash := sha256 (seed.toList ++ utf8 "catalyst-prng-32")

/-- The workers closest to the drawn value, closest first. -/
def selectProducersForNextCycle (workerPool : List Hash) (prevCycleMerkleRoot : Hash)
    (producerCount : Nat) : List Hash :=
  let r := prng32 sha256 prevCycleMerkleRoot
  let scored := workerPool.map (fun id => (xor32 id r, id))
  ((sortBy Prod.fst scored).take (min producerCount workerPool.length)).map Prod.snd

variable {sha256}

theorem selectProducersForNextCycle_eq (pool : List Hash) (seed : Hash) (count : Nat) :
    selectProducersForNextCycle sha256 pool seed count =
      (sortBy (fun id => xor32 id (prng32 sha256 seed)) pool).take (min count pool.length) := by
  have scored := List.map_insertionSort (fun a b => xor32 a (prng32 sha256 seed) ≤
    xor32 b (prng32 sha256 seed)) (fun a b : Hash × Hash => a.1 ≤ b.1)
    (fun id => (xor32 id (prng32 sha256 seed), id)) pool (fun _ _ _ _ => Iff.rfl)
  rw [selectProducersForNextCycle, sortBy, ← scored, ← List.map_take, List.map_map]
  exact List.map_id _

/-- The draw picks as many members of the pool as asked for or as there are, each once and each
closer to the drawn value than every one left out, whatever the order of the pool. -/
theorem selectProducersForNextCycle_closest (pool : List Hash) (seed : Hash) (count : Nat)
    (distinct : pool.Nodup) :
    (selectProducersForNextCycle sha256 pool seed count).length = min count pool.length ∧
    (selectProducersForNextCycle sha256 pool seed count).Nodup ∧
    (∀ id ∈ selectProducersForNextCycle sha256 pool seed count, id ∈ pool) ∧
    (∀ id ∈ selectProducersForNextCycle sha256 pool seed count, ∀ other ∈ pool,
      other ∉ selectProducersForNextCycle sha256 pool seed count →
      xor32 id (prng32 sha256 seed) < xor32 other (prng32 sha256 seed)) ∧
    ∀ pool', pool.Perm pool' → selectProducersForNextCycle sha256 pool' seed count =
      selectProducersForNextCycle sha256 pool seed count := by
  have apart := xor32_injective (prng32 sha256 seed)
  simp only [selectProducersForNextCycle_eq]
  generalize hsorted : sortBy (fun id => xor32 id (prng32 sha256 seed)) pool = sorted
  have members : sorted.Perm pool := hsorted ▸ sortBy_perm _ pool
  have ordered : sorted.Pairwise (fun a b => xor32 a (prng32 sha256 seed) ≤
      xor32 b (prng32 sha256 seed)) := hsorted ▸ pairwise_sortBy _ pool
  refine ⟨?_, ?_, ?_, ?_, ?_⟩
  · rw [List.length_take, members.length_eq]
    omega
  · exact (members.nodup_iff.mpr distinct).sublist (List.take_sublist _ _)
  · exact fun id taken => members.mem_iff.mp (List.mem_of_mem_take taken)
  · intro id taken other inPool left
    have dropped : other ∈ sorted.drop (min count pool.length) := by
      have listed := members.mem_iff.mpr inPool
      rw [← List.take_append_drop (min count pool.length) sorted] at listed
      exact (List.mem_append.mp listed).resolve_left left
    rw [← List.take_append_drop (min count pool.length) sorted] at ordered
    have closer := (List.pairwise_append.mp ordered).2.2 id taken other dropped
    refine lt_of_le_of_ne closer (fun same => left ?_)
    rw [← apart same]
    exact taken
  · intro pool' order
    rw [← hsorted, ← order.length_eq, sortBy_congr _ order apart.injOn]

def samplePool : List Hash := [padTo 32 [1], padTo 32 [2]]

theorem selectProducersForNextCycle_closest_one :
    (selectProducersForNextCycle (fun _ => padTo 32 [3]) samplePool (zeros 32) 1).length = 1 ∧
      selectProducersForNextCycle (fun _ => padTo 32 [3]) samplePool (zeros 32) 1 =
        [padTo 32 [2]] :=
  ⟨(selectProducersForNextCycle_closest samplePool (zeros 32) 1 (by decide)).1, by decide +kernel⟩

end Selection

def rotatingBatchLeader (selected : List ProducerId) (cycle : UInt64) : Option ProducerId :=
  if selected = [] then none else selected[(cycle % UInt64.ofNat selected.length).toNat]?

section Rotation

variable {selected : List ProducerId} {id : ProducerId}

/-- A producer's turns are the cycles with its own remainder. -/
theorem exists_turn (distinct : selected.Nodup) (few : selected.length < 2 ^ 64)
    (listed : id ∈ selected) :
    ∃ i, ∀ cycle, rotatingBatchLeader selected cycle = some id ↔
      cycle.toNat ≡ i [MOD selected.length] := by
  obtain ⟨i, short, rfl⟩ := List.mem_iff_getElem.mp listed
  refine ⟨i, fun cycle => ?_⟩
  have inside : cycle.toNat % selected.length < selected.length :=
    Nat.mod_lt _ (Nat.zero_lt_of_lt short)
  rw [rotatingBatchLeader, if_neg (List.ne_nil_of_mem listed), UInt64.toNat_mod,
    UInt64.toNat_ofNat_of_lt' few, ← List.getElem?_eq_getElem short,
    List.getElem?_inj inside distinct, Nat.ModEq, Nat.mod_eq_of_lt short]

theorem count_add_modEq {n : Nat} (positive : 0 < n) (i start : Nat) :
    Nat.count (fun k => start + k ≡ i [MOD n]) n = 1 := by
  -- counting from the start only shifts the remainder
  have shifted : ∀ k, start + k ≡ i [MOD n] ↔ k ≡ i + (n - 1) * start [MOD n] := by
    intro k
    have product : start + (i + (n - 1) * start) = n * start + i := by
      obtain ⟨p, rfl⟩ := Nat.exists_eq_add_of_lt positive
      simp only [zero_add, Nat.add_sub_cancel]
      ring
    have whole : start + (i + (n - 1) * start) ≡ i [MOD n] := product ▸ Nat.ModEq.modulus_mul_add
    exact ⟨fun same => Nat.ModEq.add_left_cancel' start (same.trans whole.symm),
      fun same => (Nat.ModEq.add_left start same).trans whole⟩
  simp only [shifted, Nat.count_modEq_card n positive, Nat.div_self positive, Nat.mod_self,
    Nat.not_lt_zero, if_false]

end Rotation

/-- However the producers of a cycle are listed, in as many cycles in a row as there are producers each
of them leads once. -/
theorem rotatingBatchLeader_once (selected : List ProducerId) (id : ProducerId) (start : UInt64)
    (listed : id ∈ selected) (fits : start.toNat + (sortDedup selected).length ≤ 2 ^ 64)
    (few : (sortDedup selected).length < 2 ^ 64) :
    Nat.count (fun k => rotatingBatchLeader (sortDedup selected) (start + UInt64.ofNat k) = some id)
      (sortDedup selected).length = 1 := by
  have member := mem_sortDedup.mpr listed
  obtain ⟨i, turn⟩ := exists_turn (nodup_sortDedup selected) few member
  rw [← count_add_modEq (List.length_pos_of_mem member) i start.toNat,
    Nat.count_eq_card_filter_range, Nat.count_eq_card_filter_range]
  refine congrArg Finset.card (Finset.filter_congr (fun k inside => ?_))
  have short := Finset.mem_range.mp inside
  rw [turn, UInt64.toNat_add, UInt64.toNat_ofNat_of_lt' (show k < 2 ^ 64 by omega),
    Nat.mod_eq_of_lt (by omega)]

theorem rotatingBatchLeader_once_three :
    Nat.count (fun k => rotatingBatchLeader (sortDedup ["c", "b", "c", "a"]) (5 + UInt64.ofNat k) =
      some "b") (sortDedup ["c", "b", "c", "a"]).length = 1 :=
  rotatingBatchLeader_once ["c", "b", "c", "a"] "b" 5 (by decide) (by decide) (by decide)

end CatalystNode
