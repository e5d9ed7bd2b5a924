import CatalystNode.AttestationBuckets
import CatalystNode.SigningRoundTrip

namespace CatalystNode

open ByteVector HexCodec PinnedBucket

section Entries

theorem nodup_producerId_entries {votes : Std.ExtTreeMap String Bytes} (pick : String × Bytes → Bool) :
    (((votes.toList.filter pick).map (fun vote => (⟨vote.1, vote.2⟩ : SignedStatement))).map
      SignedStatement.producerId).Nodup := by
  have keys : (votes.toList.map Prod.fst).Nodup := by
    rw [Std.ExtTreeMap.map_fst_toList_eq_keys]
    exact Std.ExtTreeMap.nodup_keys
  rw [List.map_map]
  exact keys.sublist (List.filter_sublist.map Prod.fst)

theorem mem_voteEntries {lsu : LedgerStateUpdate} {votes : Std.ExtTreeMap String Bytes}
    {v : ProducerFinalityVote} :
    v ∈ voteEntries lsu votes ↔ votes[v.producerId]? = some v.signature ∧
      v.signature.length = 64 ∧ v.producerId ∈ lsu.voteList ∧ v.producerId ∈ lsu.producerList := by
  simp only [voteEntries, List.mem_map, List.mem_filter, decide_eq_true_eq, Prod.exists,
    Std.ExtTreeMap.mem_toList_iff_getElem?_eq_some]
  constructor
  · rintro ⟨pid, sig, ⟨held, picked⟩, rfl⟩
    exact ⟨held, picked⟩
  · rintro ⟨held, picked⟩
    exact ⟨v.producerId, v.signature, ⟨held, picked⟩, rfl⟩

end Entries

/-- The counting loop reaches what is needed exactly if the statements are of different producers,
pass their checks and are enough. -/
theorem counted_iff {ε : Type} {duplicate : ε} {check : SignedStatement → Except ε Unit}
    {need : Nat} {statements : List SignedStatement} :
    (∃ valid, countStatements duplicate check [] 0 statements = .ok valid ∧ need ≤ valid) ↔
      (statements.map SignedStatement.producerId).Nodup ∧ (∀ v ∈ statements, check v = .ok ()) ∧
        need ≤ statements.length := by
  constructor
  · rintro ⟨valid, counted, enough⟩
    obtain ⟨count, distinct, checks⟩ := countStatements_ok counted
    exact ⟨distinct, fun v hv => (checks v hv).2, by omega⟩
  · rintro ⟨distinct, checks, enough⟩
    exact ⟨_, countStatements_of_checks distinct (fun v hv => ⟨List.not_mem_nil, checks v hv⟩),
      by omega⟩

section Assembly

variable {F G : Type} [Field F] [AddCommGroup G] [Module F G] [DecidableEq G]
  {ops : RistrettoOps F G} {blake2b512 : Bytes → ByteVec 64} {lsu : LedgerStateUpdate}
  {chainId : UInt64} {genesisHash : Hash} {votes : List ProducerFinalityVote}
  {cert : LsuFinalityCertificateV1}

/-- When a certificate built for an update is accepted: everything but its votes fits by
construction. -/
theorem verify_fromLsuAndVotes_iff (built : LsuFinalityCertificateV1.fromLsuAndVotes blake2b512 lsu
      chainId genesisHash (hashData blake2b512 lsu) votes = .ok cert) :
    verifyLsuFinalityCertificate ops blake2b512 cert lsu = .ok () ↔
      votes.length ≤ maxFinalityVotes ∧ (votes.map SignedStatement.producerId).Nodup ∧
      (∀ v ∈ votes, checkVote ops blake2b512 (cert.digest blake2b512) lsu v = .ok ()) ∧
      bftVoteThreshold lsu.producerList.length ≤ votes.length := by
  unfold LsuFinalityCertificateV1.fromLsuAndVotes at built
  cases committee : committeeHashOrderedProducerList blake2b512 lsu.producerList with
  | none => simp [committee] at built
  | some committeeHash =>
    simp only [committee, Except.ok.injEq] at built
    subst built
    simp only [verifyLsuFinalityCertificate, committee, ne_eq, not_true_eq_false, or_self, if_false]
    split
    next many => simp [Nat.not_le.mpr many]
    next few =>
      split
      next fault counted =>
        simp only [reduceCtorEq, false_iff]
        rintro ⟨-, quorum⟩
        obtain ⟨valid, same, -⟩ := counted_iff.mpr quorum
        rw [same] at counted
        cases counted
      next valid counted =>
        split
        next short =>
          simp only [reduceCtorEq, false_iff]
          rintro ⟨-, quorum⟩
          obtain ⟨valid', same, enough⟩ := counted_iff.mpr quorum
          rw [counted] at same
          cases same
          omega
        next enough =>
          simp only [true_iff]
          exact ⟨Nat.not_lt.mp few, counted_iff.mp ⟨valid, counted, Nat.not_lt.mp enough⟩⟩

theorem verify_tooManyVotes (built : LsuFinalityCertificateV1.fromLsuAndVotes blake2b512 lsu chainId
      genesisHash (hashData blake2b512 lsu) votes = .ok cert)
    (many : maxFinalityVotes < votes.length) :
    verifyLsuFinalityCertificate ops blake2b512 cert lsu = .error .tooManyVotes := by
  unfold LsuFinalityCertificateV1.fromLsuAndVotes at built
  split at built
  next => cases built
  next =>
    cases built
    simp [verifyLsuFinalityCertificate, many]

theorem length_of_checkProducerSignature {digest : Hash} {producerId : ProducerId}
    {signature : Bytes}
    (checked : checkProducerSignature ops blake2b512 digest producerId signature = .ok ()) :
    signature.length = 64 := by
  obtain ⟨key, -, signed⟩ := checkProducerSignature_ok checked
  unfold signerKey at signed
  obtain ⟨pkBytes, -, signed⟩ := Option.bind_eq_some_iff.mp signed
  obtain ⟨pk, -, signed⟩ := Option.bind_eq_some_iff.mp signed
  obtain ⟨sb, array, -⟩ := Option.bind_eq_some_iff.mp signed
  rw [← toArray?_eq_some array, List.Vector.toList_length]

theorem isSome_committeeHash {producerList : List ProducerId} (nonempty : producerList ≠ [])
    (keys : ∀ id ∈ producerList, (parseProducerHex32 id).isSome) :
    (committeeHashOrderedProducerList blake2b512 producerList).isSome := by
  have parsed : (producerList.mapM parseProducerHex32).isSome := by
    clear nonempty
    induction producerList with
    | nil => rfl
    | cons id ids ih =>
      obtain ⟨key, here⟩ := Option.isSome_iff_exists.mp (keys id List.mem_cons_self)
      obtain ⟨rest, there⟩ := Option.isSome_iff_exists.mp
        (ih (fun id listed => keys id (List.mem_cons_of_mem _ listed)))
      simp [List.mapM_cons, here, there]
  obtain ⟨raw, listed⟩ := Option.isSome_iff_exists.mp parsed
  rw [committeeHashOrderedProducerList, if_neg (by simpa using nonempty), listed]
  rfl

/-- A bucket whose votes are all by voting members goes into the certificate as a whole. -/
theorem length_voteEntries {votes : Std.ExtTreeMap String Bytes}
    (picked : ∀ pid (sig : Bytes), votes[pid]? = some sig →
      sig.length = 64 ∧ pid ∈ lsu.voteList ∧ pid ∈ lsu.producerList) :
    (voteEntries lsu votes).length = votes.size := by
  have all : ∀ vote ∈ votes.toList, decide (vote.2.length = 64 ∧ vote.1 ∈ lsu.voteList ∧
      vote.1 ∈ lsu.producerList) = true := by
    intro vote listed
    exact decide_eq_true
      (picked vote.1 vote.2 (Std.ExtTreeMap.mem_toList_iff_getElem?_eq_some.mp listed))
  rw [voteEntries, List.filter_eq_self.mpr all, List.length_map, Std.ExtTreeMap.length_toList]

end Assembly

/-- A bucket of correctly signed votes that reach the quorum makes an accepted certificate exactly if
the committee is not empty and the votes are at most the 256 the verifier takes. -/
theorem assembled_accepted_iff {F G : Type} [Field F] [AddCommGroup G] [Module F G] [DecidableEq G]
    (ops : RistrettoOps F G) (blake2b512 : Bytes → ByteVec 64) (lsu : LedgerStateUpdate)
    (bucket : FinalityAttestationBucket) (chainId : UInt64) (genesisHash : Hash)
    (keys : ∀ id ∈ lsu.producerList, (parseProducerHex32 id).isSome)
    (voters : lsu.voteList = lsu.producerList)
    (signed : ∀ pid sig, bucket.values[pid]? = some sig → pid ∈ lsu.producerList ∧
      ∃ digest, certifiedDigest blake2b512 chainId genesisHash lsu = some digest ∧
        checkProducerSignature ops blake2b512 digest pid sig = .ok ())
    (quorum : (2 * lsu.producerList.length) ⌈/⌉ 3 ≤ bucket.values.size) :
    (∃ cert, LsuFinalityCertificateV1.fromLsuAndVotes blake2b512 lsu chainId genesisHash
        (hashData blake2b512 lsu) (voteEntries lsu bucket.values) = .ok cert ∧
      verifyLsuFinalityCertificate ops blake2b512 cert lsu = .ok ()) ↔
    lsu.producerList ≠ [] ∧ bucket.values.size ≤ 256 := by
  have length : (voteEntries lsu bucket.values).length = bucket.values.size := by
    apply length_voteEntries
    intro pid sig held
    obtain ⟨member, digest, -, checked⟩ := signed pid sig held
    exact ⟨length_of_checkProducerSignature checked, voters ▸ member, member⟩
  constructor
  · rintro ⟨cert, built, accepted⟩
    have few := ((verify_fromLsuAndVotes_iff built).mp accepted).1
    refine ⟨fun empty => ?_, length ▸ few⟩
    simp [LsuFinalityCertificateV1.fromLsuAndVotes, committeeHashOrderedProducerList, empty] at built
  · rintro ⟨nonempty, few⟩
    obtain ⟨committeeHash, committee⟩ := Option.isSome_iff_exists.mp
      (@isSome_committeeHash blake2b512 lsu.producerList nonempty keys)
    obtain ⟨cert, built⟩ : ∃ cert, LsuFinalityCertificateV1.fromLsuAndVotes blake2b512 lsu chainId
        genesisHash (hashData blake2b512 lsu) (voteEntries lsu bucket.values) = .ok cert := by
      simp [LsuFinalityCertificateV1.fromLsuAndVotes, committee]
    have digest : certifiedDigest blake2b512 chainId genesisHash lsu =
        some (cert.digest blake2b512) := by
      simp only [LsuFinalityCertificateV1.fromLsuAndVotes, committee, Except.ok.injEq] at built
      rw [certifiedDigest, committee, ← built]
      rfl
    refine ⟨cert, built, (verify_fromLsuAndVotes_iff built).mpr
      ⟨length ▸ few, nodup_producerId_entries _, ?_, ?_⟩⟩
    · intro v listed
      obtain ⟨held, -, voter, member⟩ := mem_voteEntries.mp listed
      obtain ⟨-, digest', same, checked⟩ := signed v.producerId v.signature held
      rw [digest] at same
      cases Option.some.inj same
      rw [checkVote, if_neg (not_not_intro member), if_neg (not_not_intro voter), checked]
      rfl
    · rw [bftVoteThreshold_eq (fun none => nonempty (List.length_eq_zero_iff.mp none)), length]
      exact quorum

section Samples

def crowdMember (i : Nat) : ZMod 521 := (i + 1 : Nat)

def crowdIds (n : Nat) : List ProducerId := (List.range n).map (fun i => wideId (crowdMember i))

def crowdUpdate (n : Nat) : LedgerStateUpdate := sampleUpdate (crowdIds n) 1

def crowdDigest (n : Nat) : Hash :=
  (certifiedDigest checksum 7 (zeros 32) (crowdUpdate n)).getD (zeros 32)

def crowdVotes (n : Nat) : List (ProducerId × Bytes) :=
  (List.range n).map (fun i => (wideId (crowdMember i), wideSignature (crowdMember i) (crowdDigest n)))

def crowdBucket (n : Nat) : FinalityAttestationBucket where
  pinned := some ⟨7, zeros 32,
    (committeeHashOrderedProducerList checksum (crowdIds n)).getD (zeros 32),
    hashProducerListMerkle checksum (crowdIds n)⟩
  values := Std.ExtTreeMap.ofList (crowdVotes n) compare

theorem crowdMember_inj {i j : Nat} (hi : i < 520) (hj : j < 520)
    (same : crowdMember i = crowdMember j) : i = j := by
  have values := congrArg ZMod.val same
  rw [crowdMember, crowdMember, ZMod.val_natCast_of_lt (by omega),
    ZMod.val_natCast_of_lt (by omega)] at values
  omega

theorem crowdIds_spec {n : Nat} (fits : n ≤ 520) : (crowdIds n).Nodup ∧
    ∀ id ∈ crowdIds n, LowerCase (utf8 id) ∧ (parseProducerHex32 id).isSome := by
  constructor
  · refine List.Nodup.map_on ?_ List.nodup_range
    intro i hi j hj same
    rw [List.mem_range] at hi hj
    exact crowdMember_inj (by omega) (by omega) (wideId_injective same)
  · intro id listed
    obtain ⟨i, -, rfl⟩ := List.mem_map.mp listed
    exact ⟨lowerCase_encodeString _, by rw [wideId, parseProducerHex32_encodeString]; rfl⟩

theorem crowdVotes_distinct {n : Nat} (fits : n ≤ 520) :
    (crowdVotes n).Pairwise (fun a b => ¬compare a.1 b.1 = .eq) := by
  have ids := (crowdIds_spec fits).1
  have names : (crowdVotes n).map Prod.fst = crowdIds n := by
    rw [crowdVotes, crowdIds, List.map_map]
    rfl
  rw [← names, List.Nodup, List.pairwise_map] at ids
  refine ids.imp fun apart same => apart ?_
  exact Std.LawfulEqCmp.compare_eq_iff_eq.mp same

theorem size_crowdBucket {n : Nat} (fits : n ≤ 520) : (crowdBucket n).values.size = n := by
  rw [crowdBucket, Std.ExtTreeMap.size_ofList (crowdVotes_distinct fits), crowdVotes,
    List.length_map, List.length_range]

theorem crowdBucket_signed {n : Nat} (fits : n ≤ 520) (pid : ProducerId) (sig : Bytes)
    (held : (crowdBucket n).values[pid]? = some sig) : pid ∈ (crowdUpdate n).producerList ∧
      ∃ digest, certifiedDigest checksum 7 (zeros 32) (crowdUpdate n) = some digest ∧
        checkProducerSignature wideGroup checksum digest pid sig = .ok () := by
  have listed : (pid, sig) ∈ crowdVotes n := by
    have here : pid ∈ (crowdBucket n).values := by
      rw [Std.ExtTreeMap.mem_iff_isSome_getElem?, held]
      rfl
    rw [crowdBucket, Std.ExtTreeMap.mem_ofList, List.contains_iff_mem] at here
    obtain ⟨⟨pid', sig'⟩, listed, rfl⟩ := List.mem_map.mp here
    have read := Std.ExtTreeMap.getElem?_ofList_of_mem (Std.ReflCmp.compare_self)
      (crowdVotes_distinct fits) listed
    cases Option.some.inj (held.symm.trans read)
    exact listed
  obtain ⟨i, below, same⟩ := List.mem_map.mp listed
  cases same
  have member : wideId (crowdMember i) ∈ crowdIds n := List.mem_map.mpr ⟨i, below, rfl⟩
  have nonempty : crowdIds n ≠ [] := fun empty => by simp [empty] at member
  obtain ⟨committeeHash, committee⟩ := Option.isSome_iff_exists.mp (@isSome_committeeHash checksum
    (crowdUpdate n).producerList nonempty (fun id listed => ((crowdIds_spec fits).2 id listed).2))
  have digest : certifiedDigest checksum 7 (zeros 32) (crowdUpdate n) = some (crowdDigest n) := by
    rw [crowdDigest, certifiedDigest, committee]
    rfl
  exact ⟨member, crowdDigest n, digest, checkProducerSignature_wide _ _⟩

theorem length_crowdVoteEntries {n : Nat} (fits : n ≤ 520) :
    (voteEntries (crowdUpdate n) (crowdBucket n).values).length = n := by
  rw [length_voteEntries, size_crowdBucket fits]
  intro pid sig held
  obtain ⟨member, digest, -, checked⟩ := crowdBucket_signed fits pid sig held
  exact ⟨length_of_checkProducerSignature checked, member, member⟩

/-- A committee of more producers than a certificate may have votes has its full vote refused. -/
theorem crowd_tooManyVotes {n : Nat} (fits : n ≤ 520) (crowded : maxFinalityVotes < n) :
    (crowdUpdate n).producerList.Nodup ∧
    (∀ id ∈ (crowdUpdate n).producerList, LowerCase (utf8 id) ∧ (parseProducerHex32 id).isSome) ∧
    (crowdUpdate n).voteList = (crowdUpdate n).producerList ∧
    (∀ pid sig, (crowdBucket n).values[pid]? = some sig → pid ∈ (crowdUpdate n).producerList ∧
      ∃ digest, certifiedDigest checksum 7 (zeros 32) (crowdUpdate n) = some digest ∧
        checkProducerSignature wideGroup checksum digest pid sig = .ok ()) ∧
    (2 * (crowdUpdate n).producerList.length) ⌈/⌉ 3 ≤ (crowdBucket n).values.size ∧
    ∃ cert, LsuFinalityCertificateV1.fromLsuAndVotes checksum (crowdUpdate n) 7 (zeros 32)
        (hashData checksum (crowdUpdate n))
        (voteEntries (crowdUpdate n) (crowdBucket n).values) = .ok cert ∧
      verifyLsuFinalityCertificate wideGroup checksum cert (crowdUpdate n) =
        .error .tooManyVotes := by
  obtain ⟨distinct, keys⟩ := crowdIds_spec fits
  have members : (crowdUpdate n).producerList.length = n := by
    rw [crowdUpdate, sampleUpdate, crowdIds, List.length_map, List.length_range]
  have nonempty : (crowdUpdate n).producerList ≠ [] := by
    intro empty
    rw [empty, List.length_nil] at members
    exact absurd crowded (members ▸ Nat.not_lt_zero _)
  obtain ⟨committeeHash, committee⟩ := Option.isSome_iff_exists.mp (@isSome_committeeHash checksum
    (crowdUpdate n).producerList nonempty (fun id listed => (keys id listed).2))
  obtain ⟨cert, built⟩ : ∃ cert, LsuFinalityCertificateV1.fromLsuAndVotes checksum (crowdUpdate n) 7
      (zeros 32) (hashData checksum (crowdUpdate n))
      (voteEntries (crowdUpdate n) (crowdBucket n).values) = .ok cert := by
    simp [LsuFinalityCertificateV1.fromLsuAndVotes, committee]
  have many : maxFinalityVotes < (voteEntries (crowdUpdate n) (crowdBucket n).values).length := by
    rw [length_crowdVoteEntries fits]
    exact crowded
  refine ⟨distinct, keys, rfl, crowdBucket_signed fits, ?_, cert, built,
    verify_tooManyVotes built many⟩
  rw [members, size_crowdBucket fits, ceilDiv_le_iff_le_mul (by decide)]
  omega

/-- A committee of 257 that votes in full has its certificate refused for having too many votes. -/
theorem assembled_tooManyVotes :
    (crowdUpdate 257).producerList.Nodup ∧
    (∀ id ∈ (crowdUpdate 257).producerList, LowerCase (utf8 id) ∧ (parseProducerHex32 id).isSome) ∧
    (crowdUpdate 257).voteList = (crowdUpdate 257).producerList ∧
    (∀ pid sig, (crowdBucket 257).values[pid]? = some sig → pid ∈ (crowdUpdate 257).producerList ∧
      ∃ digest, certifiedDigest checksum 7 (zeros 32) (crowdUpdate 257) = some digest ∧
        checkProducerSignature wideGroup checksum digest pid sig = .ok ()) ∧
    (2 * (crowdUpdate 257).producerList.length) ⌈/⌉ 3 ≤ (crowdBucket 257).values.size ∧
    ∃ cert, LsuFinalityCertificateV1.fromLsuAndVotes checksum (crowdUpdate 257) 7 (zeros 32)
        (hashData checksum (crowdUpdate 257))
        (voteEntries (crowdUpdate 257) (crowdBucket 257).values) = .ok cert ∧
      verifyLsuFinalityCertificate wideGroup checksum cert (crowdUpdate 257) =
        .error .tooManyVotes :=
  crowd_tooManyVotes (by decide) (by decide)

theorem assembled_accepted_iff_three :
    ∃ cert, LsuFinalityCertificateV1.fromLsuAndVotes checksum (crowdUpdate 3) 7 (zeros 32)
        (hashData checksum (crowdUpdate 3))
        (voteEntries (crowdUpdate 3) (crowdBucket 3).values) = .ok cert ∧
      verifyLsuFinalityCertificate wideGroup checksum cert (crowdUpdate 3) = .ok () := by
  have fits : 3 ≤ 520 := by omega
  have size := size_crowdBucket fits
  have quorum : (2 * (crowdUpdate 3).producerList.length) ⌈/⌉ 3 ≤ (crowdBucket 3).values.size := by
    rw [size, crowdUpdate, sampleUpdate, crowdIds, List.length_map, List.length_range]
    decide
  have keys := fun id listed => ((crowdIds_spec fits).2 id listed).2
  refine (assembled_accepted_iff wideGroup checksum (crowdUpdate 3) (crowdBucket 3) 7 (zeros 32) keys
    rfl (crowdBucket_signed fits) quorum).mpr ⟨fun empty => ?_, by omega⟩
  simp [crowdUpdate, sampleUpdate, crowdIds] at empty

end Samples

end CatalystNode
