import CatalystNode.ConsensusPhases

namespace CatalystNode

open ByteVector HexCodec MachineInt CanonicalList Plurality

section Voting

variable {blake2b512 : Bytes → ByteVec 64}

def committeeUpdate (cycle : UInt64) (partialUpdate : PartialLedgerStateUpdate)
    (committee : List ProducerId) (rewardConfig : RewardConfig) : LedgerStateUpdate :=
  let pool := producerRewardPool partialUpdate.totalFees rewardConfig
  let count := UInt64.ofNat committee.length
  ⟨partialUpdate, (splitReward (pool / count) (pool % count)
    (committee.insertionSort (· ≤ ·))).insertionSort (fun a b => a.producerId ≤ b.producerId),
    cycle, committee, committee⟩

theorem createCompensationEntries_eq {p : Producer} {partialUpdate : PartialLedgerStateUpdate}
    (update : p.partialUpdate = some partialUpdate) {committee : List ProducerId}
    (nonempty : committee ≠ []) (rewardConfig : RewardConfig) :
    createCompensationEntries p committee rewardConfig =
      (committeeUpdate p.cycleNumber partialUpdate committee rewardConfig).compensationEntries := by
  rw [createCompensationEntries, if_neg nonempty, update]
  rfl

/-- The vote of a node, and the producer state it leaves, in terms of the committee it settled on. -/
theorem createFinalLedgerUpdate_spec {p q : Producer}
    {candidates : Std.ExtTreeMap ProducerId ProducerCandidate} {requiredMajority : Nat}
    {rewardConfig : RewardConfig} {nowMs : UInt64} {vote : ProducerVote}
    (h : createFinalLedgerUpdate blake2b512 p candidates requiredMajority rewardConfig nowMs =
      .ok (q, vote)) :
    ∃ partialUpdate committee, p.partialUpdate = some partialUpdate ∧
      (p.selectedProducers ≠ [] → committee = sortDedup p.selectedProducers) ∧
      ∃ lsu : LedgerStateUpdate, lsu = ⟨partialUpdate,
          createCompensationEntries p committee rewardConfig, p.cycleNumber, committee, committee⟩ ∧
        q = { p with ledgerUpdate := some lsu, voteList := some committee } ∧
        vote = ⟨hashData blake2b512 lsu, hashProducerListMerkle blake2b512 committee, p.cycleNumber,
          p.id, nowMs⟩ := by
  unfold createFinalLedgerUpdate at h
  dsimp only at h
  split at h
  next => simp at h
  next =>
    split at h
    next => simp at h
    next =>
      split at h
      next => simp at h
      next =>
        split at h
        next => simp at h
        next =>
          split at h
          next => simp at h
          next =>
            split at h
            next => simp at h
            next partialUpdate update =>
              cases h
              refine ⟨partialUpdate, _, update, ?_, _, rfl, rfl, rfl⟩
              intro nonempty
              rw [committeeOr, if_neg (mt sortDedup_eq_nil.mp nonempty)]

theorem createFinalLedgerUpdate_ok {p q : Producer}
    {candidates : Std.ExtTreeMap ProducerId ProducerCandidate} {requiredMajority : Nat}
    {rewardConfig : RewardConfig} {nowMs : UInt64} {vote : ProducerVote}
    (nonempty : p.selectedProducers ≠ [])
    (h : createFinalLedgerUpdate blake2b512 p candidates requiredMajority rewardConfig nowMs =
      .ok (q, vote)) :
    ∃ partialUpdate, p.partialUpdate = some partialUpdate ∧
      q.ledgerUpdate = some (committeeUpdate p.cycleNumber partialUpdate
        (sortDedup p.selectedProducers) rewardConfig) ∧
      vote.ledgerStateHash = hashData blake2b512 (committeeUpdate p.cycleNumber partialUpdate
        (sortDedup p.selectedProducers) rewardConfig) ∧
      vote.voteListHash = hashProducerListMerkle blake2b512 (sortDedup p.selectedProducers) := by
  obtain ⟨partialUpdate, committee, update, canonical, lsu, content, stored, cast⟩ :=
    createFinalLedgerUpdate_spec h
  have selected := canonical nonempty
  have members : committee ≠ [] := by
    rw [selected]
    exact mt sortDedup_eq_nil.mp nonempty
  have same : lsu = committeeUpdate p.cycleNumber partialUpdate (sortDedup p.selectedProducers)
      rewardConfig := by
    rw [content, createCompensationEntries_eq update members rewardConfig, selected]
    rfl
  refine ⟨partialUpdate, update, ?_, ?_, ?_⟩
  · rw [stored, same]
  · rw [cast, same]
  · rw [cast, selected]

/-- Two nodes with the same batch and committee that both get to vote store the same update and vote
for the same hashes, whatever candidates each of them collected. -/
theorem createFinalLedgerUpdate_deterministic {p p' q q' : Producer}
    {candidates candidates' : Std.ExtTreeMap ProducerId ProducerCandidate}
    {requiredMajority requiredMajority' : Nat} {rewardConfig : RewardConfig} {nowMs nowMs' : UInt64}
    {vote vote' : ProducerVote} (cycle : p.cycleNumber = p'.cycleNumber)
    (update : p.partialUpdate = p'.partialUpdate)
    (committee : p.selectedProducers.Perm p'.selectedProducers)
    (nonempty : p.selectedProducers ≠ [])
    (h : createFinalLedgerUpdate blake2b512 p candidates requiredMajority rewardConfig nowMs =
      .ok (q, vote))
    (h' : createFinalLedgerUpdate blake2b512 p' candidates' requiredMajority' rewardConfig nowMs' =
      .ok (q', vote')) :
    (∃ lsu, q.ledgerUpdate = some lsu ∧ q'.ledgerUpdate = some lsu) ∧
      vote.ledgerStateHash = vote'.ledgerStateHash ∧ vote.voteListHash = vote'.voteListHash := by
  have nonempty' : p'.selectedProducers ≠ [] := by
    intro empty
    rw [empty] at committee
    exact nonempty committee.eq_nil
  have same : sortDedup p.selectedProducers = sortDedup p'.selectedProducers :=
    sortDedup_congr (fun _ => committee.mem_iff)
  obtain ⟨u, hu, stored, hash, list⟩ := createFinalLedgerUpdate_ok nonempty h
  obtain ⟨u', hu', stored', hash', list'⟩ := createFinalLedgerUpdate_ok nonempty' h'
  have sameUpdate : u = u' := by
    rw [hu, hu'] at update
    exact Option.some.inj update
  subst sameUpdate
  rw [cycle, same] at stored hash
  rw [same] at list
  exact ⟨⟨_, stored, stored'⟩, hash.trans hash'.symm, list.trans list'.symm⟩

end Voting

theorem exists_of_isOk {ε α : Type} {x : Except ε α} (h : x.isOk = true) : ∃ a, x = .ok a := by
  cases x with
  | error e => simp [Except.isOk, Except.toBool] at h
  | ok a => exact ⟨a, rfl⟩

def sampleMember (id : ProducerId) (committee : List ProducerId) : Producer :=
  (buildPartialUpdate checksum
    { Producer.new id (zeros 32) 7 with selectedProducers := committee } [] 1).1

def sampleCandidates (ids : List ProducerId) : Std.ExtTreeMap ProducerId ProducerCandidate :=
  collectById ProducerCandidate.producerId (ids.map (fun id =>
    ⟨((sampleMember id []).firstHash).getD (zeros 32), zeros 32, 7, id, 1⟩))

theorem createFinalLedgerUpdate_deterministic_three :
    ∃ q vote q' vote',
      createFinalLedgerUpdate checksum (sampleMember "a" ["a", "b", "c"]) (sampleCandidates ["a", "b"])
        2 .default 1 = .ok (q, vote) ∧
      createFinalLedgerUpdate checksum (sampleMember "b" ["c", "a", "b"]) (sampleCandidates ["b", "c"])
        2 .default 2 = .ok (q', vote') ∧
      (∃ lsu, q.ledgerUpdate = some lsu ∧ q'.ledgerUpdate = some lsu) ∧
      vote.ledgerStateHash = vote'.ledgerStateHash ∧ vote.voteListHash = vote'.voteListHash := by
  obtain ⟨⟨q, vote⟩, h⟩ := exists_of_isOk (x := createFinalLedgerUpdate checksum
    (sampleMember "a" ["a", "b", "c"]) (sampleCandidates ["a", "b"]) 2 .default 1)
    (by decide +kernel)
  obtain ⟨⟨q', vote'⟩, h'⟩ := exists_of_isOk (x := createFinalLedgerUpdate checksum
    (sampleMember "b" ["c", "a", "b"]) (sampleCandidates ["b", "c"]) 2 .default 2)
    (by decide +kernel)
  refine ⟨q, vote, q', vote', h, h', ?_⟩
  exact createFinalLedgerUpdate_deterministic (by decide +kernel) (by decide +kernel)
    (by decide +kernel) (by decide +kernel) h h'

end CatalystNode
