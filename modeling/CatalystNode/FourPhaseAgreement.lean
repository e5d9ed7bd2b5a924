import CatalystNode.FourPhase
import CatalystNode.VotingDeterminism
import CatalystNode.Quorum

namespace CatalystNode

open ByteVector HexCodec CanonicalList Plurality FoldTrace Quorum

theorem ok_of_bind {ε α β : Type} {x : Except ε α} {f : α → Except ε β} {b : β}
    (h : (x >>= f) = .ok b) : ∃ a, x = .ok a ∧ f a = .ok b := by
  cases x with
  | error e => cases h
  | ok a => exact ⟨a, rfl, h⟩

theorem runPhase_ok {α : Type} {net : NodeCycle} {phase : Phase} {result : Except ConsensusError α}
    {a : α} (h : net.runPhase phase result = .ok a) : result = .ok a := by
  unfold NodeCycle.runPhase at h
  split at h
  next => simp at h
  next =>
    split at h
    next => simp at h
    next =>
      split at h
      next => simp at h
      next => exact h

theorem getElem?_collectById {α : Type} {producerId : α → ProducerId} {messages : List α}
    {id : ProducerId} {a : α} (h : (collectById producerId messages)[id]? = some a) :
    a ∈ messages ∧ producerId a = id := by
  have listed : ∀ (id : ProducerId) a, (messages.foldl (fun m a => m.insert (producerId a) a)
      (∅ : Std.ExtTreeMap ProducerId α))[id]? = some a → a ∈ messages ∧ producerId a = id := by
    refine foldl_invariant (P := fun m : Std.ExtTreeMap ProducerId α =>
      ∀ (id : ProducerId) a, m[id]? = some a → a ∈ messages ∧ producerId a = id) ?_ ?_
    · intro id a ha
      simp at ha
    · intro m b hstep before id a ha
      have member := mem_of_mem_foldSteps hstep
      rw [Std.ExtTreeMap.getElem?_insert] at ha
      split at ha
      next same =>
        cases Option.some.inj ha
        exact ⟨member, compare_eq_iff_eq.mp same⟩
      next => exact before id a ha
  exact listed id a h

theorem mem_dedupByProducerId {α : Type} [CatalystDeserialize α] {body : PhaseBody α}
    {messages : List α} {a : α} (h : a ∈ dedupByProducerId body messages) : a ∈ messages := by
  obtain ⟨⟨id, b⟩, hb, rfl⟩ := List.mem_map.mp h
  exact (getElem?_collectById (Std.ExtTreeMap.mem_toList_iff_getElem?_eq_some.mp hb)).1

section Collect

variable {α : Type} [CatalystDeserialize α] {body : PhaseBody α} {currentCycle : UInt64}

def Carries (body : PhaseBody α) (currentCycle : UInt64) (env : MessageEnvelope) (a : α) : Prop :=
  env.messageType = body.messageType ∧ readMessage body currentCycle env = some a

theorem getElem?_acceptMessage {out : Std.ExtTreeMap ProducerId α} {env : MessageEnvelope}
    {id : ProducerId} {a : α} (h : (acceptMessage body currentCycle out env)[id]? = some a) :
    out[id]? = some a ∨ readMessage body currentCycle env = some a := by
  unfold acceptMessage at h
  split at h
  next => exact Or.inl h
  next b read =>
    rw [Std.ExtTreeMap.getElem?_insert] at h
    split at h
    next =>
      cases Option.some.inj h
      exact Or.inr read
    next => exact Or.inl h

theorem mem_pushPendingBounded {pending : List MessageEnvelope} {env e : MessageEnvelope}
    (h : e ∈ pushPendingBounded pending env) : e ∈ pending ∨ e = env := by
  unfold pushPendingBounded at h
  rcases List.mem_append.mp h with old | new
  · split at old
    next => exact Or.inl (List.mem_of_mem_drop old)
    next => exact Or.inl old
  · exact Or.inr (List.mem_singleton.mp new)

def Gathered (body : PhaseBody α) (currentCycle : UInt64) (envs : List MessageEnvelope)
    (s : Std.ExtTreeMap ProducerId α × List MessageEnvelope) : Prop :=
  (∀ (id : ProducerId) a, s.1[id]? = some a → ∃ env ∈ envs, Carries body currentCycle env a) ∧
    ∀ env ∈ s.2, env ∈ envs

theorem Gathered.accept {envs : List MessageEnvelope}
    {s : Std.ExtTreeMap ProducerId α × List MessageEnvelope} {env : MessageEnvelope}
    (gathered : Gathered body currentCycle envs s) (member : env ∈ envs)
    (type : env.messageType = body.messageType) :
    Gathered body currentCycle envs (acceptMessage body currentCycle s.1 env, s.2) := by
  refine ⟨?_, gathered.2⟩
  intro id a ha
  rcases getElem?_acceptMessage ha with old | new
  · exact gathered.1 id a old
  · exact ⟨env, member, type, new⟩

theorem Gathered.receive {envs : List MessageEnvelope}
    {s : Std.ExtTreeMap ProducerId α × List MessageEnvelope} {env : MessageEnvelope}
    (gathered : Gathered body currentCycle envs s) (member : env ∈ envs) :
    Gathered body currentCycle envs (receiveMessage body currentCycle s env) := by
  unfold receiveMessage
  split
  next type => exact gathered.accept member type
  next =>
    refine ⟨gathered.1, ?_⟩
    intro e he
    rcases mem_pushPendingBounded he with old | rfl
    · exact gathered.2 e old
    · exact member

/-- Collecting invents nothing: each message comes from an envelope that was buffered or received,
and so does every envelope left in the buffer. -/
theorem collectMessages_sound (networkReceiver : Bool) (pending window : List MessageEnvelope) :
    (∀ a ∈ (collectMessages body currentCycle networkReceiver pending window).1,
      ∃ env ∈ pending ++ window, Carries body currentCycle env a) ∧
    ∀ env ∈ (collectMessages body currentCycle networkReceiver pending window).2,
      env ∈ pending ++ window := by
  unfold collectMessages
  split
  next =>
    dsimp only
    have drained : ∀ env ∈ (drainPendingByType body.messageType pending).1,
        env ∈ pending ∧ env.messageType = body.messageType := by
      intro env henv
      simpa [drainPendingByType] using henv
    have kept : ∀ env ∈ (drainPendingByType body.messageType pending).2, env ∈ pending := by
      intro env henv
      have filtered : env ∈ pending ∧ ¬env.messageType = body.messageType := by
        simpa [drainPendingByType] using henv
      exact filtered.1
    have buffered : Gathered body currentCycle (pending ++ window)
        ((drainPendingByType body.messageType pending).1.foldl (acceptMessage body currentCycle) ∅,
          (drainPendingByType body.messageType pending).2) := by
      refine foldl_invariant (P := fun out : Std.ExtTreeMap ProducerId α =>
        Gathered body currentCycle (pending ++ window)
          (out, (drainPendingByType body.messageType pending).2)) ?_ ?_
      · refine ⟨?_, fun env henv => List.mem_append_left _ (kept env henv)⟩
        intro id a ha
        simp at ha
      · intro out env hstep before
        obtain ⟨member, type⟩ := drained env (mem_of_mem_foldSteps hstep)
        exact before.accept (List.mem_append_left _ member) type
    have received := foldl_invariant (P := Gathered body currentCycle (pending ++ window)) buffered
      (fun s env hstep before =>
        Gathered.receive before (List.mem_append_right _ (mem_of_mem_foldSteps hstep)))
    refine ⟨?_, received.2⟩
    intro a ha
    obtain ⟨⟨id, b⟩, hb, rfl⟩ := List.mem_map.mp ha
    exact received.1 id b (Std.ExtTreeMap.mem_toList_iff_getElem?_eq_some.mp hb)
  next => exact ⟨by simp, fun env henv => List.mem_append_left _ henv⟩

end Collect

section Run

variable {blake2b512 : Bytes → ByteVec 64} {currentCycle : UInt64} {net : NodeCycle}

theorem findMajorityCandidate_frame {p q : Producer}
    {quantities : Std.ExtTreeMap ProducerId ProducerQuantity} {requiredMajority : Nat}
    {nowMs : UInt64} {candidate : ProducerCandidate}
    (h : findMajorityCandidate blake2b512 p quantities requiredMajority nowMs = .ok (q, candidate)) :
    q.expectedProducers = p.expectedProducers := by
  unfold findMajorityCandidate at h
  dsimp only at h
  split at h
  next => simp at h
  next =>
    split at h
    next => simp at h
    next =>
      split at h
      next => simp at h
      next =>
        cases h
        rfl

theorem createFinalLedgerUpdate_frame {p q : Producer}
    {candidates : Std.ExtTreeMap ProducerId ProducerCandidate} {requiredMajority : Nat}
    {rewardConfig : RewardConfig} {nowMs : UInt64} {vote : ProducerVote}
    (h : createFinalLedgerUpdate blake2b512 p candidates requiredMajority rewardConfig nowMs =
      .ok (q, vote)) :
    q.expectedProducers = p.expectedProducers := by
  obtain ⟨_, _, _, _, _, _, stored, _⟩ := createFinalLedgerUpdate_spec h
  rw [stored]

theorem finalizeLedgerUpdate_ok {p : Producer} {votes : Std.ExtTreeMap ProducerId ProducerVote}
    {requiredMajority : Nat} {nowMs : UInt64} {output : ProducerOutput}
    (h : finalizeLedgerUpdate blake2b512 p votes requiredMajority nowMs = .ok output) :
    ∃ lsu, ∃ ids : List ProducerId, p.ledgerUpdate = some lsu ∧ ids.Nodup ∧
      requiredMajority ≤ ids.length ∧ ∀ id ∈ ids, ∃ v : ProducerVote, votes[id]? = some v ∧
        v.ledgerStateHash = hashData blake2b512 lsu := by
  unfold finalizeLedgerUpdate at h
  dsimp only at h
  split at h
  next => simp at h
  next =>
    split at h
    next => simp at h
    next finalHash best =>
      split at h
      next => simp at h
      next enough =>
        cases update : p.ledgerUpdate with
        | none => simp [update] at h
        | some lsu =>
          rw [update] at h
          dsimp only at h
          split at h
          next => simp at h
          next same =>
            rw [not_not] at same
            obtain ⟨nodup, ballots⟩ := plurality_eq_some (Prod.ext best rfl)
            refine ⟨lsu, _, rfl, nodup, not_lt.mp enough, ?_⟩
            intro id hid
            obtain ⟨⟨voter, v⟩, hv, ballot⟩ := List.mem_map.mp ((ballots id).mp hid)
            obtain ⟨rfl, hash⟩ := Prod.mk.inj ballot
            exact ⟨v, Std.ExtTreeMap.mem_toList_iff_getElem?_eq_some.mp hv, hash.trans same.symm⟩

def NodeCycle.envelopes (net : NodeCycle) : List MessageEnvelope :=
  net.pendingEnvelopes ++ net.quantityWindow ++ net.candidateWindow ++ net.voteWindow

def readVote (currentCycle : UInt64) (env : MessageEnvelope) : Option ProducerVote :=
  if env.messageType = .producerVote then readMessage voteBody currentCycle env else none

def heardVotes (blake2b512 : Bytes → ByteVec 64) (currentCycle : UInt64) (net : NodeCycle)
    (p : Producer) (transactions : List TransactionEntry) : List ProducerVote :=
  net.envelopes.filterMap (readVote currentCycle) ++
    match runToVote blake2b512 currentCycle net p transactions with
    | .ok voted => [voted.1.2]
    | .error _ => []

theorem runToVote_ok {p q : Producer} {transactions : List TransactionEntry} {vote : ProducerVote}
    {pending : List MessageEnvelope}
    (h : runToVote blake2b512 currentCycle net p transactions = .ok ((q, vote), pending)) :
    q.expectedProducers = p.expectedProducers ∧ ∀ env ∈ pending,
      env ∈ net.pendingEnvelopes ++ net.quantityWindow ++ net.candidateWindow := by
  unfold runToVote at h
  obtain ⟨built, hbuilt, h⟩ := ok_of_bind h
  cases runPhase_ok hbuilt
  obtain ⟨⟨campaigner, candidate⟩, hcampaign, h⟩ := ok_of_bind h
  obtain ⟨⟨voter, cast⟩, hvote, h⟩ := ok_of_bind h
  cases h
  have campaigned := findMajorityCandidate_frame (runPhase_ok hcampaign)
  have voted := createFinalLedgerUpdate_frame (runPhase_ok hvote)
  refine ⟨voted.trans campaigned, ?_⟩
  intro env henv
  have buffered := (collectMessages_sound _ _ _).2 env henv
  rcases List.mem_append.mp buffered with earlier | received
  · exact List.mem_append_left _ ((collectMessages_sound _ _ _).2 env earlier)
  · exact List.mem_append_right _ received

/-- An update is returned only with a majority of heard votes for its hash, counted by the ids the
votes name. -/
theorem runFourPhaseConsensus_ok {p : Producer} {transactions : List TransactionEntry}
    {lsu : LedgerStateUpdate}
    (h : runFourPhaseConsensus blake2b512 currentCycle net p transactions = .ok (some lsu)) :
    ∃ ids : List ProducerId, ids.Nodup ∧ p.requiredMajority ≤ ids.length ∧ ∀ id ∈ ids,
      ∃ v ∈ heardVotes blake2b512 currentCycle net p transactions, v.producerId = id ∧
        v.ledgerStateHash = hashData blake2b512 lsu := by
  unfold runFourPhaseConsensus at h
  obtain ⟨⟨⟨q, own⟩, pending⟩, hvoted, h⟩ := ok_of_bind h
  obtain ⟨output, hsync, h⟩ := ok_of_bind h
  obtain ⟨expected, buffer⟩ := runToVote_ok hvoted
  obtain ⟨final, ids, update, nodup, enough, votes⟩ := finalizeLedgerUpdate_ok (runPhase_ok hsync)
  dsimp only at update h
  have returned : final = lsu := by
    rw [update] at h
    split at h
    next => simp at h
    next => exact Option.some.inj (Except.ok.inj h)
  subst returned
  have required : p.requiredMajority ≤ ids.length := by
    rw [Producer.requiredMajority, ← expected]
    exact enough
  refine ⟨ids, nodup, required, ?_⟩
  intro id hid
  obtain ⟨v, hv, hash⟩ := votes id hid
  obtain ⟨collected, named⟩ := getElem?_collectById hv
  refine ⟨v, ?_, named, hash⟩
  rcases List.mem_append.mp (mem_dedupByProducerId collected) with heard | self
  · obtain ⟨env, henv, type, read⟩ := (collectMessages_sound _ _ _).1 v heard
    refine List.mem_append_left _ (List.mem_filterMap.mpr ⟨env, ?_, ?_⟩)
    · rcases List.mem_append.mp henv with earlier | received
      · exact List.mem_append_left _ (buffer env earlier)
      · exact List.mem_append_right _ received
    · have isVote : env.messageType = .producerVote := type
      rw [readVote, if_pos isVote]
      exact read
  · refine List.mem_append_right _ ?_
    rw [hvoted]
    exact self

end Run

def outsiders (committee : List ProducerId) (votes : List ProducerVote) : Finset ProducerId :=
  (votes.map ProducerVote.producerId).toFinset \ committee.toFinset

/-- Two committee members that each return an update return updates with the same hash, provided no
committee member votes twice and the votes of outsiders that reach the two stay below what the two
majorities have to spare. With no outsiders this always holds. -/
theorem runFourPhaseConsensus_agreement (blake2b512 : Bytes → ByteVec 64) (cycle : UInt64)
    {committee : List ProducerId} (distinct : committee.Nodup) {a b : Producer}
    (memberA : a.id ∈ committee) {netA netB : NodeCycle} {txsA txsB : List TransactionEntry}
    {lsuA lsuB : LedgerStateUpdate}
    (runA : runFourPhaseConsensus blake2b512 cycle netA (a.resetForCycle cycle committee) txsA =
      .ok (some lsuA))
    (runB : runFourPhaseConsensus blake2b512 cycle netB (b.resetForCycle cycle committee) txsB =
      .ok (some lsuB))
    (single : ∀ v ∈ heardVotes blake2b512 cycle netA (a.resetForCycle cycle committee) txsA,
      ∀ w ∈ heardVotes blake2b512 cycle netB (b.resetForCycle cycle committee) txsB,
        v.producerId ∈ committee → v.producerId = w.producerId → v = w)
    (few : committee.length + (outsiders committee (heardVotes blake2b512 cycle netA
        (a.resetForCycle cycle committee) txsA)).card +
      (outsiders committee (heardVotes blake2b512 cycle netB
        (b.resetForCycle cycle committee) txsB)).card < 2 * (committee.length / 2 + 1)) :
    hashData blake2b512 lsuA = hashData blake2b512 lsuB := by
  have size := length_sortDedup_of_nodup distinct
  have nonempty : 0 < committee.length := List.length_pos_of_mem memberA
  have required : ∀ p : Producer, (p.resetForCycle cycle committee).requiredMajority =
      committee.length / 2 + 1 := by
    intro p
    simp only [Producer.requiredMajority, Producer.resetForCycle, size]
    omega
  obtain ⟨idsA, nodupA, enoughA, votesA⟩ := runFourPhaseConsensus_ok runA
  obtain ⟨idsB, nodupB, enoughB, votesB⟩ := runFourPhaseConsensus_ok runB
  rw [required] at enoughA enoughB
  -- a voter is a committee member or one of the outsiders that were heard
  have known : ∀ {ids : List ProducerId} {heard : List ProducerVote},
      (∀ id ∈ ids, ∃ v ∈ heard, v.producerId = id) →
      ids.toFinset ⊆ committee.toFinset ∪ outsiders committee heard := by
    intro ids heard voters id hid
    obtain ⟨v, hv, rfl⟩ := voters id (List.mem_toFinset.mp hid)
    rw [outsiders, Finset.union_sdiff_self_eq_union]
    exact Finset.mem_union_right _ (List.mem_toFinset.mpr (List.mem_map_of_mem hv))
  obtain ⟨id, member, inA, inB⟩ := exists_common_member
    (known (fun id hid => (votesA id hid).imp fun v hv => ⟨hv.1, hv.2.1⟩))
    (known (fun id hid => (votesB id hid).imp fun v hv => ⟨hv.1, hv.2.1⟩)) (by
      rw [List.toFinset_card_of_nodup distinct, List.toFinset_card_of_nodup nodupA,
        List.toFinset_card_of_nodup nodupB]
      omega)
  obtain ⟨v, hv, voterA, hashA⟩ := votesA id (List.mem_toFinset.mp inA)
  obtain ⟨w, hw, voterB, hashB⟩ := votesB id (List.mem_toFinset.mp inB)
  have once : v = w :=
    single v hv w hw (voterA ▸ List.mem_toFinset.mp member) (voterA.trans voterB.symm)
  rw [← hashA, ← hashB, once]

def sampleNode (id : ProducerId) (committee : List ProducerId) : Producer :=
  (Producer.new id (zeros 32) 7).resetForCycle 7 committee

def sampleCommitteeUpdate (committee : List ProducerId) (txs : List TransactionEntry) :
    LedgerStateUpdate :=
  committeeUpdate 7 ((buildPartialUpdate checksum (sampleNode "" committee) txs 1).1.partialUpdate.getD
    ⟨[], zeros 32, 0, 0⟩) committee .default

def sampleSupport (id : ProducerId) (committee : List ProducerId) (txs : List TransactionEntry) :
    List MessageEnvelope :=
  let quantity := (buildPartialUpdate checksum (sampleNode id committee) txs 1).2
  let candidate : ProducerCandidate := ⟨quantity.firstHash, zeros 32, 7, id, 1⟩
  let vote : ProducerVote := ⟨hashData checksum (sampleCommitteeUpdate committee txs),
    hashProducerListMerkle checksum committee, 7, id, 1⟩
  [⟨.producerQuantity, serialize quantity⟩, ⟨.producerCandidate, serialize candidate⟩,
    ⟨.producerVote, serialize vote⟩]

def sampleCycle (received : List MessageEnvelope) : NodeCycle where
  config := ⟨4000, 4000, 4000, 4000⟩
  rewardConfig := .default
  networkReceiver := true
  pendingEnvelopes := []
  quantityWindow := received
  candidateWindow := []
  voteWindow := []
  nowMs _ := 1
  timedOut _ := false
  sendError _ := none
  lsuSendError := none

def sampleEntry : TransactionEntry := ⟨zeros 32, -3, [9]⟩

/-- Two members that hear nothing from each other, each supported by an outsider, return different
updates. -/
theorem runFourPhaseConsensus_outsider :
    runFourPhaseConsensus checksum 7 (sampleCycle (sampleSupport "x" ["a", "b"] []))
        (sampleNode "a" ["a", "b"]) [] = .ok (some (sampleCommitteeUpdate ["a", "b"] [])) ∧
      runFourPhaseConsensus checksum 7 (sampleCycle (sampleSupport "x" ["a", "b"] [sampleEntry]))
        (sampleNode "b" ["a", "b"]) [sampleEntry] =
          .ok (some (sampleCommitteeUpdate ["a", "b"] [sampleEntry])) ∧
      (∀ v ∈ heardVotes checksum 7 (sampleCycle (sampleSupport "x" ["a", "b"] []))
          (sampleNode "a" ["a", "b"]) [],
        ∀ w ∈ heardVotes checksum 7 (sampleCycle (sampleSupport "x" ["a", "b"] [sampleEntry]))
          (sampleNode "b" ["a", "b"]) [sampleEntry],
          v.producerId ∈ ["a", "b"] → v.producerId = w.producerId → v = w) ∧
      hashData checksum (sampleCommitteeUpdate ["a", "b"] []) ≠
        hashData checksum (sampleCommitteeUpdate ["a", "b"] [sampleEntry]) := by
  refine ⟨?_, ?_, ?_, ?_⟩
  · decide +kernel
  · decide +kernel
  · decide +kernel
  · decide +kernel

theorem runFourPhaseConsensus_agreement_two :
    ∃ lsuA lsuB,
      runFourPhaseConsensus checksum 7 (sampleCycle (sampleSupport "b" ["a", "b"] [sampleEntry]))
        (sampleNode "a" ["a", "b"]) [sampleEntry] = .ok (some lsuA) ∧
      runFourPhaseConsensus checksum 7 (sampleCycle (sampleSupport "a" ["a", "b"] [sampleEntry]))
        (sampleNode "b" ["a", "b"]) [sampleEntry] = .ok (some lsuB) ∧
      hashData checksum lsuA = hashData checksum lsuB := by
  have runA : runFourPhaseConsensus checksum 7
      (sampleCycle (sampleSupport "b" ["a", "b"] [sampleEntry])) (sampleNode "a" ["a", "b"])
      [sampleEntry] = .ok (some (sampleCommitteeUpdate ["a", "b"] [sampleEntry])) := by
    decide +kernel
  have runB : runFourPhaseConsensus checksum 7
      (sampleCycle (sampleSupport "a" ["a", "b"] [sampleEntry])) (sampleNode "b" ["a", "b"])
      [sampleEntry] = .ok (some (sampleCommitteeUpdate ["a", "b"] [sampleEntry])) := by
    decide +kernel
  refine ⟨_, _, runA, runB, ?_⟩
  exact runFourPhaseConsensus_agreement checksum 7 (by decide) (by decide) runA runB
    (by decide +kernel) (by decide +kernel)

end CatalystNode
