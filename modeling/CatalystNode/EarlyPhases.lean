import CatalystNode.FourPhaseAgreement

namespace CatalystNode

open ByteVector HexCodec CanonicalList Plurality

section Construction

variable {blake2b512 : Bytes → ByteVec 64}

/-- The sort key tells entries apart whose signatures the leaf hash tells apart. -/
theorem entrySortKey_injOn {transactions : List TransactionEntry}
    (collisionFree : Set.InjOn (signatureLeafHash blake2b512)
      {s | ∃ e ∈ transactions, e.signature = s}) :
    Set.InjOn (entrySortKey blake2b512) {e | e ∈ transactions} := by
  intro a ha b hb same
  have hashes := congrArg (fun k => (ofLex k).1) same
  have keys := congrArg (fun k => (ofLex (ofLex k).2).1) same
  have amounts := congrArg (fun k => (ofLex (ofLex (ofLex k).2).2).1) same
  have signatures := collisionFree ⟨a, ha, rfl⟩ ⟨b, hb, rfl⟩ hashes
  cases a
  cases b
  simp only [TransactionEntry.mk.injEq]
  exact ⟨keys, Int64.toInt_inj.mp amounts, signatures⟩

/-- The batch a node stores depends on the cycle and the entries, not on the order in which the node
got the entries, nor on the node. -/
theorem buildPartialUpdate_perm (p p' : Producer) (transactions transactions' : List TransactionEntry)
    (nowMs nowMs' : UInt64) (cycle : p.cycleNumber = p'.cycleNumber)
    (order : transactions.Perm transactions')
    (collisionFree : Set.InjOn (signatureLeafHash blake2b512)
      {s | ∃ e ∈ transactions, e.signature = s}) :
    (buildPartialUpdate blake2b512 p transactions nowMs).1.partialUpdate =
        (buildPartialUpdate blake2b512 p' transactions' nowMs').1.partialUpdate ∧
      (buildPartialUpdate blake2b512 p transactions nowMs).1.firstHash =
        (buildPartialUpdate blake2b512 p' transactions' nowMs').1.firstHash ∧
      (buildPartialUpdate blake2b512 p transactions nowMs).2.firstHash =
        (buildPartialUpdate blake2b512 p' transactions' nowMs').2.firstHash := by
  have sorted : transactions.insertionSort (fun a b =>
        entrySortKey blake2b512 a ≤ entrySortKey blake2b512 b) =
      transactions'.insertionSort (fun a b =>
        entrySortKey blake2b512 a ≤ entrySortKey blake2b512 b) :=
    sortBy_congr (entrySortKey blake2b512) order (entrySortKey_injOn collisionFree)
  unfold buildPartialUpdate
  dsimp only
  rw [sorted, cycle]
  exact ⟨rfl, rfl, rfl⟩

theorem buildPartialUpdate_perm_two :
    (buildPartialUpdate checksum (Producer.new "a" (zeros 32) 7)
        [⟨zeros 32, -3, [9]⟩, ⟨zeros 32, 1, [4]⟩] 1).1.partialUpdate =
      (buildPartialUpdate checksum (Producer.new "b" (zeros 32) 7)
        [⟨zeros 32, 1, [4]⟩, ⟨zeros 32, -3, [9]⟩] 2).1.partialUpdate := by
  have apart : signatureLeafHash checksum [9] ≠ signatureLeafHash checksum [4] := by decide +kernel
  refine (buildPartialUpdate_perm _ _ _ _ 1 2 rfl (List.Perm.swap _ _ []) ?_).1
  rintro _ ⟨a, ha, rfl⟩ _ ⟨b, hb, rfl⟩ same
  simp only [List.mem_cons, List.not_mem_nil, or_false] at ha hb
  rcases ha with rfl | rfl <;> rcases hb with rfl | rfl
  · rfl
  · exact absurd same apart
  · exact absurd same.symm apart
  · rfl

end Construction

section Campaigning

variable {blake2b512 : Bytes → ByteVec 64}

theorem getElem?_collectById_iff {α : Type} {producerId : α → ProducerId} {messages : List α}
    (once : (messages.map producerId).Nodup) {id : ProducerId} {a : α} :
    (collectById producerId messages)[id]? = some a ↔ a ∈ messages ∧ producerId a = id := by
  refine ⟨getElem?_collectById, ?_⟩
  rintro ⟨listed, rfl⟩
  rw [collectById]
  induction messages using List.reverseRecOn with
  | nil => simp at listed
  | append_singleton messages b ih =>
    rw [List.map_append, List.nodup_append] at once
    rw [List.foldl_append, List.foldl_cons, List.foldl_nil, Std.ExtTreeMap.getElem?_insert]
    rcases List.mem_append.mp listed with before | last
    · have other : producerId b ≠ producerId a := fun same =>
        once.2.2 _ (List.mem_map_of_mem before) _ (by simp) same.symm
      rw [if_neg (by simpa using other)]
      exact ih once.1 before
    · obtain rfl := List.mem_singleton.mp last
      simp

theorem size_collectById {α : Type} {producerId : α → ProducerId} {messages : List α}
    (once : (messages.map producerId).Nodup) :
    (collectById producerId messages).size = messages.length := by
  induction messages using List.reverseRecOn with
  | nil => rfl
  | append_singleton messages b ih =>
    rw [List.map_append, List.nodup_append] at once
    have fresh : producerId b ∉ collectById producerId messages := by
      intro present
      obtain ⟨listed, same⟩ :=
        getElem?_collectById (Std.ExtTreeMap.getElem?_eq_some_getElem present)
      exact once.2.2 _ (List.mem_map_of_mem listed) _ (by simp) same
    have inserted : collectById producerId (messages ++ [b]) =
        (collectById producerId messages).insert (producerId b) b := by
      simp [collectById]
    rw [inserted, Std.ExtTreeMap.size_insert, if_neg (by simpa using fresh), ih once.1]
    simp

def quantitySupporters (quantities : List ProducerQuantity) (hash : Hash) : Finset ProducerId :=
  ((quantities.filter (fun q => q.firstHash = hash)).map ProducerQuantity.producerId).toFinset

theorem mem_quantitySupporters {quantities : List ProducerQuantity} {hash : Hash}
    {id : ProducerId} :
    id ∈ quantitySupporters quantities hash ↔
      ∃ q ∈ quantities, q.firstHash = hash ∧ q.producerId = id := by
  simp [quantitySupporters, and_assoc]

def quantityBallots (quantities : Std.ExtTreeMap ProducerId ProducerQuantity) :
    List (ProducerId × Hash) :=
  quantities.toList.map (fun q => (q.1, q.2.firstHash))

theorem supporters_quantityBallots {quantities : List ProducerQuantity}
    (once : (quantities.map ProducerQuantity.producerId).Nodup) (hash : Hash) :
    supporters (quantityBallots (collectById ProducerQuantity.producerId quantities)) hash =
      quantitySupporters quantities hash := by
  ext id
  rw [mem_supporters, mem_quantitySupporters, quantityBallots, List.mem_map]
  constructor
  · rintro ⟨⟨voter, q⟩, listed, ballot⟩
    obtain ⟨rfl, rfl⟩ := Prod.mk.inj ballot
    obtain ⟨came, rfl⟩ :=
      getElem?_collectById (Std.ExtTreeMap.mem_toList_iff_getElem?_eq_some.mp listed)
    exact ⟨q, came, rfl, rfl⟩
  · rintro ⟨q, came, rfl, rfl⟩
    exact ⟨(q.producerId, q), Std.ExtTreeMap.mem_toList_iff_getElem?_eq_some.mpr
      ((getElem?_collectById_iff once).mpr ⟨came, rfl⟩), rfl⟩

theorem card_quantitySupporters_le (quantities : List ProducerQuantity) (hash : Hash) :
    (quantitySupporters quantities hash).card ≤ quantities.length := by
  refine (List.toFinset_card_le _).trans ?_
  rw [List.length_map]
  exact List.length_filter_le _ _

theorem findMajorityCandidate_eq_ok {p q : Producer}
    {quantities : Std.ExtTreeMap ProducerId ProducerQuantity} {requiredMajority : Nat}
    {nowMs : UInt64} {candidate : ProducerCandidate} :
    findMajorityCandidate blake2b512 p quantities requiredMajority nowMs = .ok (q, candidate) ↔
      ∃ hash ids, requiredMajority ≤ quantities.size ∧
        plurality (quantityBallots quantities) = (some hash, ids) ∧
        requiredMajority ≤ ids.length ∧
        q = { p with producerList := some (sortDedup (includeSelf p hash ids)) } ∧
        candidate = ⟨hash, hashProducerListMerkle blake2b512 (sortDedup (includeSelf p hash ids)),
          p.cycleNumber, p.id, nowMs⟩ := by
  have counted : quantities.toList.map (fun q => (q.1, q.2.firstHash)) =
      quantityBallots quantities := rfl
  unfold findMajorityCandidate
  by_cases few : quantities.size < requiredMajority
  · rw [if_pos few]
    simp [few]
  · rw [if_neg few]
    dsimp only
    rw [counted]
    rcases best : plurality (quantityBallots quantities) with ⟨choice, ids⟩
    cases choice with
    | none => simp
    | some hash =>
      dsimp only
      by_cases short : ids.length < requiredMajority
      · rw [if_pos short]
        constructor
        · simp
        · rintro ⟨_, _, _, same, enough, _⟩
          cases same
          omega
      · rw [if_neg short]
        constructor
        · intro found
          cases found
          exact ⟨hash, ids, not_lt.mp few, rfl, not_lt.mp short, rfl, rfl⟩
        · rintro ⟨_, _, _, same, _, rfl, rfl⟩
          cases same
          rfl

theorem mem_includeSelf {p : Producer} {hash : Hash} {ids : List ProducerId} {id : ProducerId} :
    id ∈ includeSelf p hash ids ↔ id ∈ ids ∨ id = p.id ∧ p.firstHash = some hash := by
  unfold includeSelf
  split
  next joins =>
    rw [List.mem_append, List.mem_singleton]
    simp [joins.1]
  next stays =>
    refine ⟨Or.inl, ?_⟩
    rintro (listed | ⟨rfl, own⟩)
    · exact listed
    · by_contra missing
      exact stays ⟨own, missing⟩

theorem collectById_perm {α : Type} {producerId : α → ProducerId} {messages messages' : List α}
    (once : (messages.map producerId).Nodup) (order : messages.Perm messages') :
    collectById producerId messages = collectById producerId messages' := by
  refine Std.ExtTreeMap.ext_getElem? (fun id => Option.ext (fun a => ?_))
  rw [getElem?_collectById_iff once,
    getElem?_collectById_iff ((order.map producerId).nodup_iff.mp once), order.mem_iff]

/-- Campaigning succeeds exactly if some hash has enough supporters. It then names the hash with the
most supporters, the smallest among equals, and stores its supporters in order, with the node itself
if its own hash is that one. The order in which the quantities came does not matter. -/
theorem findMajorityCandidate_plurality (p : Producer) (quantities : List ProducerQuantity)
    (requiredMajority : Nat) (nowMs : UInt64)
    (once : (quantities.map ProducerQuantity.producerId).Nodup) (positive : 1 ≤ requiredMajority) :
    ((∃ q candidate, findMajorityCandidate blake2b512 p
        (collectById ProducerQuantity.producerId quantities) requiredMajority nowMs =
          .ok (q, candidate)) ↔
      ∃ hash, requiredMajority ≤ (quantitySupporters quantities hash).card) ∧
    (∀ q candidate, findMajorityCandidate blake2b512 p
        (collectById ProducerQuantity.producerId quantities) requiredMajority nowMs =
          .ok (q, candidate) →
      (∀ other, other ≠ candidate.majorityHash →
        (quantitySupporters quantities other).card <
            (quantitySupporters quantities candidate.majorityHash).card ∨
          (quantitySupporters quantities other).card =
            (quantitySupporters quantities candidate.majorityHash).card ∧
          candidate.majorityHash < other) ∧
      ∃ list, q.producerList = some list ∧ list.Pairwise (· < ·) ∧
        ∀ id, id ∈ list ↔ id ∈ quantitySupporters quantities candidate.majorityHash ∨
          id = p.id ∧ p.firstHash = some candidate.majorityHash) ∧
    ∀ quantities', quantities.Perm quantities' →
      findMajorityCandidate blake2b512 p (collectById ProducerQuantity.producerId quantities')
          requiredMajority nowMs =
        findMajorityCandidate blake2b512 p (collectById ProducerQuantity.producerId quantities)
          requiredMajority nowMs := by
  have count := supporters_quantityBallots once
  refine ⟨⟨?_, ?_⟩, ?_, ?_⟩
  · rintro ⟨q, candidate, found⟩
    obtain ⟨hash, ids, -, best, enough, -⟩ := findMajorityCandidate_eq_ok.mp found
    obtain ⟨distinct, cast⟩ := plurality_eq_some best
    rw [length_eq_card_supporters distinct cast, count] at enough
    exact ⟨hash, enough⟩
  · rintro ⟨hash, enough⟩
    have size : requiredMajority ≤
        (collectById ProducerQuantity.producerId quantities).size := by
      rw [size_collectById once]
      exact enough.trans (card_quantitySupporters_le quantities hash)
    rcases best : plurality (quantityBallots
      (collectById ProducerQuantity.producerId quantities)) with ⟨choice, ids⟩
    cases choice with
    | none =>
      have empty := count hash
      have unheard : quantityBallots (collectById ProducerQuantity.producerId quantities) = [] :=
        plurality_eq_none (by rw [best])
      rw [unheard] at empty
      have nobody : (quantitySupporters quantities hash).card = 0 := by
        rw [← empty]
        rfl
      omega
    | some winner =>
      obtain ⟨distinct, cast⟩ := plurality_eq_some best
      refine ⟨_, _, findMajorityCandidate_eq_ok.mpr ⟨winner, ids, size, best, ?_, rfl, rfl⟩⟩
      rw [length_eq_card_supporters distinct cast, count]
      by_cases same : hash = winner
      · rw [← same]
        exact enough
      · have standing := plurality_best best same
        rw [count, count] at standing
        omega
  · intro q candidate found
    obtain ⟨hash, ids, -, best, -, rfl, rfl⟩ := findMajorityCandidate_eq_ok.mp found
    refine ⟨?_, _, rfl, pairwise_sortDedup _, ?_⟩
    · intro other apart
      have standing := plurality_best best apart
      rw [count, count] at standing
      exact standing
    · intro id
      rw [mem_sortDedup, mem_includeSelf, (plurality_eq_some best).2, ← mem_supporters, count]
  · intro quantities' order
    rw [collectById_perm once order]

def sampleQuantity (first : UInt8) (id : ProducerId) : ProducerQuantity :=
  ⟨padTo 32 [first], 7, id, 1⟩

theorem findMajorityCandidate_plurality_three :
    ∃ q candidate, findMajorityCandidate checksum (Producer.new "c" (zeros 32) 7)
      (collectById ProducerQuantity.producerId
        [sampleQuantity 1 "b", sampleQuantity 2 "c", sampleQuantity 1 "a"]) 2 1 =
      .ok (q, candidate) := by
  refine (findMajorityCandidate_plurality _ _ 2 1 (by decide) (by decide)).1.mpr
    ⟨padTo 32 [1], ?_⟩
  decide

end Campaigning

end CatalystNode
