import CatalystNode.LsuHistory

namespace CatalystNode

open ByteVector HexCodec SlotContest

section Run

variable {F G : Type} [Field F] [AddCommGroup G] [Module F G] [DecidableEq G] (env : NodeEnv F G)
  (dfs : Option ContentStore) (certifiedOnly : Bool) {cycle : UInt64}

/-- How an arriving update is ranked: with the certificate its own hint leads to. -/
def LsuArrival.incomingRank (store : Store) (a : LsuArrival env.blake2b512 cycle) :
    ForkChoiceCandidate :=
  forkChoiceCandidateForLsu env store dfs a.lsu cycle a.lsuHash a.finalityCidHint certifiedOnly

/-- How the recorded update is ranked when the next one arrives: its hint is not recorded. -/
def LsuArrival.storedRank (store : Store) (a : LsuArrival env.blake2b512 cycle) :
    ForkChoiceCandidate :=
  forkChoiceCandidateForLsu env store dfs a.lsu cycle a.lsuHash "" certifiedOnly

def arrivesWeaker (store : Store) (a holder : LsuArrival env.blake2b512 cycle) : Bool :=
  incomingWeakerThanStored (a.incomingRank env dfs certifiedOnly store)
    (holder.storedRank env dfs certifiedOnly store)

def persistArrival (store : Store) (a : LsuArrival env.blake2b512 cycle) : Store :=
  persistLsuHistory env dfs certifiedOnly cycle store a.lsuBytes a.lsuHash a.cid a.stateRoot
    a.finalityCidHint

structure NoCertificateCids (cycle : UInt64) (store : Store) : Prop where
  finality : metaString env store s!"consensus:lsu_finality_cid:{cycle}" = none
  stateRoot : metaString env store s!"consensus:lsu_state_root_cid:{cycle}" = none

structure SlotHolds (store : Store) (slot : Option (LsuArrival env.blake2b512 cycle)) : Prop where
  hash : store.getMetadata (lsuHashKey cycle) = slot.map (fun a => a.lsuHash.toList)
  bytes : ∀ a, slot = some a → store.getMetadata (lsuKey cycle) = some a.lsuBytes
  cids : NoCertificateCids env cycle store

variable {env dfs certifiedOnly}

theorem NoCertificateCids.rank_eq {store store' : Store} (none : NoCertificateCids env cycle store)
    (none' : NoCertificateCids env cycle store') (lsu : LedgerStateUpdate) (lsuHash : Hash)
    (hint : String) :
    forkChoiceCandidateForLsu env store dfs lsu cycle lsuHash hint certifiedOnly =
      forkChoiceCandidateForLsu env store' dfs lsu cycle lsuHash hint certifiedOnly := by
  unfold forkChoiceCandidateForLsu lsuHasVerifiedFinalityCert lsuHasVerifiedStateRootCert
    loadedFinalityCert
  rw [none.finality, none'.finality, none.stateRoot, none'.stateRoot]

theorem NoCertificateCids.persistArrival {store : Store} (none : NoCertificateCids env cycle store)
    (a : LsuArrival env.blake2b512 cycle) :
    NoCertificateCids env cycle (persistArrival env dfs certifiedOnly store a) := by
  have kept : ∀ key, lsuKey cycle ≠ key → lsuHashKey cycle ≠ key → lsuCidKey cycle ≠ key →
      lsuStateRootKey cycle ≠ key → cycleByLsuHashKey a.lsuHash ≠ key →
      metaString env (CatalystNode.persistArrival env dfs certifiedOnly store a) key =
        metaString env store key := by
    intro key lsu hash cid root index
    rw [metaString, CatalystNode.persistArrival,
      getMetadata_persistLsuHistory lsu hash cid root index, metaString]
  constructor
  · rw [kept _ (keyTag_ne 14 (by decide) (by decide) (by decide))
      (keyTag_ne 15 (by decide) (by decide) (by decide))
      (keyTag_ne 15 (by decide) (by decide) (by decide))
      (keyTag_ne 15 (by decide) (by decide) (by decide))
      (keyTag_ne 11 (by decide) (by decide) (by decide)), none.finality]
  · rw [kept _ (keyTag_ne 14 (by decide) (by decide) (by decide))
      (keyTag_ne 15 (by decide) (by decide) (by decide))
      (keyTag_ne 15 (by decide) (by decide) (by decide))
      (keyTag_ne 25 (by decide) (by decide) (by decide))
      (keyTag_ne 11 (by decide) (by decide) (by decide)), none.stateRoot]

/-- A newcomer loses the slot exactly to a holder of another hash that it is ranked below. -/
theorem SlotHolds.loses {store : Store} {slot : Option (LsuArrival env.blake2b512 cycle)}
    (holds : SlotHolds env store slot) (a : LsuArrival env.blake2b512 cycle) :
    losesCanonicalSlot env dfs certifiedOnly cycle store a.lsuBytes a.lsuHash a.finalityCidHint =
      slot.elim false (fun holder => if holder.lsuHash = a.lsuHash then false
        else arrivesWeaker env dfs certifiedOnly store a holder) := by
  have hash := holds.hash
  rw [losesCanonicalSlot, a.decodes]
  change forkChoiceRejectWeakerIncoming env store dfs
    (a.incomingRank env dfs certifiedOnly store) certifiedOnly = _
  unfold forkChoiceRejectWeakerIncoming
  have cycles : (a.incomingRank env dfs certifiedOnly store).cycle = cycle := rfl
  have hashes : (a.incomingRank env dfs certifiedOnly store).lsuHash = a.lsuHash := rfl
  rw [cycles, hashes]
  cases slot with
  | none =>
    have absent : store.getMetadata s!"consensus:lsu_hash:{cycle}" = none := hash
    simp [loadForkChoiceCandidateAtCycle, absent]
  | some holder =>
    have present : store.getMetadata s!"consensus:lsu_hash:{cycle}" =
        some holder.lsuHash.toList := hash
    have bytes : store.getMetadata s!"consensus:lsu:{cycle}" = some holder.lsuBytes :=
      holds.bytes holder rfl
    have loaded : loadForkChoiceCandidateAtCycle env store dfs cycle certifiedOnly =
        some (holder.storedRank env dfs certifiedOnly store) := by
      simp [loadForkChoiceCandidateAtCycle, present, bytes, toArray?_toList, holder.decodes,
        holder.ofCycle, LsuArrival.storedRank]
    rw [loaded]
    rfl

theorem SlotHolds.persist {store₀ store : Store} {slot : Option (LsuArrival env.blake2b512 cycle)}
    (start : NoCertificateCids env cycle store₀) (holds : SlotHolds env store slot)
    (a : LsuArrival env.blake2b512 cycle) :
    SlotHolds env (persistArrival env dfs certifiedOnly store a)
      (SlotContest.challenge LsuArrival.lsuHash (arrivesWeaker env dfs certifiedOnly store₀)
        slot a) := by
  have ranks : arrivesWeaker env dfs certifiedOnly store =
      @arrivesWeaker F G _ _ _ _ env dfs certifiedOnly cycle store₀ := by
    funext i j
    unfold arrivesWeaker LsuArrival.incomingRank LsuArrival.storedRank
    rw [holds.cids.rank_eq start, holds.cids.rank_eq start]
  obtain ⟨hash, bytes⟩ := @slot_persistLsuHistory F G _ _ _ _ env dfs certifiedOnly cycle store
    a.lsuBytes a.lsuHash a.cid a.stateRoot a.finalityCidHint
  have loses := @SlotHolds.loses F G _ _ _ _ env dfs certifiedOnly cycle store slot holds a
  rw [loses] at hash bytes
  have taken : ∀ after, after = persistArrival env dfs certifiedOnly store a →
      after.getMetadata (lsuHashKey cycle) = some a.lsuHash.toList →
      after.getMetadata (lsuKey cycle) = some a.lsuBytes → SlotHolds env after (some a) :=
    fun after made hash bytes => ⟨hash, fun b hb => Option.some.inj hb ▸ bytes,
      made ▸ holds.cids.persistArrival a⟩
  cases slot with
  | none => exact taken _ rfl hash bytes
  | some holder =>
    simp only [Option.elim_some, ranks] at hash bytes
    rw [SlotContest.challenge]
    split
    next same =>
      rw [if_pos same] at hash bytes
      exact taken _ rfl hash bytes
    next other =>
      rw [if_neg other] at hash bytes
      split
      next weak =>
        rw [if_pos weak] at hash bytes
        refine ⟨hash.trans holds.hash, fun b hb => ?_, holds.cids.persistArrival a⟩
        exact bytes.trans (holds.bytes b hb)
      next strong =>
        rw [if_neg strong] at hash bytes
        exact taken _ rfl hash bytes

theorem SlotHolds.run {store₀ store : Store} {slot : Option (LsuArrival env.blake2b512 cycle)}
    (start : NoCertificateCids env cycle store₀) (holds : SlotHolds env store slot)
    (l : List (LsuArrival env.blake2b512 cycle)) :
    SlotHolds env (l.foldl (persistArrival env dfs certifiedOnly) store)
      (l.foldl (SlotContest.challenge LsuArrival.lsuHash
        (arrivesWeaker env dfs certifiedOnly store₀)) slot) := by
  induction l generalizing store slot with
  | nil => exact holds
  | cons a l ih => exact ih (holds.persist start a)

/-- A candidate does not become stronger by losing its certificate. -/
theorem forkChoicePrefer_right_mono {a b weakened : ForkChoiceCandidate}
    (hash : weakened.lsuHash = b.lsuHash)
    (root : weakened.stateRootCertified = b.stateRootCertified)
    (tier : weakened.tier.rank ≤ b.tier.rank) (h : forkChoicePrefer a weakened = .right) :
    forkChoicePrefer a b = .right := by
  unfold forkChoicePrefer at h ⊢
  rw [hash, root] at h
  split at h
  next => simp at h
  next apart =>
    rw [if_neg apart]
    split at h
    next => simp at h
    next notAbove =>
      by_cases below : a.tier.rank < b.tier.rank
      · rw [if_neg (by omega), if_pos below]
      · rw [if_neg (by omega), if_neg below]
        rw [if_neg (by omega)] at h
        exact h

theorem ForkChoiceTier.rank_le_certified (tier : ForkChoiceTier) :
    tier.rank ≤ ForkChoiceTier.certified.rank := by
  cases tier <;> decide

theorem rank_effectiveForkChoiceTier_le (lsu : LedgerStateUpdate) (certified certifiedOnly : Bool) :
    (effectiveForkChoiceTier lsu false certifiedOnly).rank ≤
      (effectiveForkChoiceTier lsu certified certifiedOnly).rank := by
  cases certified with
  | false => exact le_rfl
  | true => exact ForkChoiceTier.rank_le_certified _

theorem NoCertificateCids.storedRank_tier_le {store : Store}
    (none : NoCertificateCids env cycle store) (a : LsuArrival env.blake2b512 cycle) :
    (a.storedRank env dfs certifiedOnly store).tier.rank ≤
      (a.incomingRank env dfs certifiedOnly store).tier.rank := by
  have unhinted : dfs.elim false (fun content =>
      lsuHasVerifiedFinalityCert env store content a.lsu cycle "") = false := by
    cases dfs with
    | none => rfl
    | some content => simp [lsuHasVerifiedFinalityCert, loadedFinalityCert, none.finality]
  unfold LsuArrival.storedRank LsuArrival.incomingRank forkChoiceCandidateForLsu
  dsimp only [ForkChoiceCandidate.new]
  rw [unhinted]
  exact rank_effectiveForkChoiceTier_le _ _ _

/-- An update that no other one beats on arrival is turned away by none of them. -/
theorem NoCertificateCids.arrivesWeaker_eq_false {store : Store}
    (none : NoCertificateCids env cycle store) {m a : LsuArrival env.blake2b512 cycle}
    (unbeaten : forkChoicePrefer (m.incomingRank env dfs certifiedOnly store)
      (a.incomingRank env dfs certifiedOnly store) ≠ .right) :
    arrivesWeaker env dfs certifiedOnly store m a = false := by
  have step := @forkChoicePrefer_right_mono (m.incomingRank env dfs certifiedOnly store)
    (a.incomingRank env dfs certifiedOnly store) (a.storedRank env dfs certifiedOnly store) rfl rfl
    (none.storedRank_tier_le a)
  unfold arrivesWeaker incomingWeakerThanStored
  exact decide_eq_false (fun right => unbeaten (step right))

end Run

theorem forkChoicePrefer_eq_tie {a b : ForkChoiceCandidate} :
    forkChoicePrefer a b = .tie ↔ a.lsuHash = b.lsuHash := by
  unfold forkChoicePrefer
  split
  next same => simp [same]
  next apart =>
    refine ⟨fun tie => ?_, fun same => absurd same apart⟩
    repeat' split at tie
    all_goals simp at tie

theorem forkChoicePrefer_swap {a b : ForkChoiceCandidate} :
    forkChoicePrefer a b = .left ↔ forkChoicePrefer b a = .right := by
  by_cases same : a.lsuHash = b.lsuHash
  · rw [forkChoicePrefer_eq_tie.mpr same, forkChoicePrefer_eq_tie.mpr same.symm]
    simp
  · have hashes : (if a.lsuHash < b.lsuHash then ForkChoicePrefer.left else .right) = .left ↔
        (if b.lsuHash < a.lsuHash then ForkChoicePrefer.left else .right) = .right := by
      rcases lt_or_gt_of_ne same with below | above
      · simp [below, below.le]
      · simp [above, above.le]
    rw [forkChoicePrefer, forkChoicePrefer, if_neg same, if_neg (Ne.symm same)]
    rcases lt_trichotomy a.tier.rank b.tier.rank with below | tied | above
    · simp [below, below.le]
    · have level := tied.le.not_gt
      have level' := tied.ge.not_gt
      rw [if_neg level, if_neg level', if_neg level', if_neg level]
      cases a.stateRootCertified <;> cases b.stateRootCertified
      all_goals first | exact hashes | simp
    · simp [above, above.le]

/-- The order of fork choice: tier, state-root certificate, smaller hash. -/
def ForkChoiceCandidate.strength (c : ForkChoiceCandidate) : ℕ ×ₗ Bool ×ₗ Hashᵒᵈ :=
  toLex (c.tier.rank, toLex (c.stateRootCertified, OrderDual.toDual c.lsuHash))

theorem strength_lt_of_forkChoicePrefer_right {a b : ForkChoiceCandidate}
    (h : forkChoicePrefer a b = .right) : a.strength < b.strength := by
  unfold forkChoicePrefer at h
  split at h
  next => simp at h
  next apart =>
    split at h
    next => simp at h
    next notAbove =>
      split at h
      next below => exact Prod.Lex.toLex_lt_toLex.mpr (Or.inl below)
      next notBelow =>
        have tier : a.tier.rank = b.tier.rank := by omega
        have hashes : (if a.lsuHash < b.lsuHash then ForkChoicePrefer.left else .right) = .right →
            OrderDual.toDual a.lsuHash < OrderDual.toDual b.lsuHash := by
          intro tie
          split at tie
          next => simp at tie
          next larger =>
            exact OrderDual.toDual_lt_toDual.mpr (lt_of_le_of_ne (not_lt.mp larger) (Ne.symm apart))
        refine Prod.Lex.toLex_lt_toLex.mpr (Or.inr ⟨tier, Prod.Lex.toLex_lt_toLex.mpr ?_⟩)
        cases rootA : a.stateRootCertified with
        | false =>
          cases rootB : b.stateRootCertified with
          | false => exact Or.inr ⟨rfl, hashes (by simpa [rootA, rootB] using h)⟩
          | true => exact Or.inl Bool.false_lt_true
        | true =>
          cases rootB : b.stateRootCertified with
          | false => simp [rootA, rootB] at h
          | true => exact Or.inr ⟨rfl, hashes (by simpa [rootA, rootB] using h)⟩

theorem exists_unbeaten {α : Type} (rank : α → ForkChoiceCandidate) {items : List α}
    (some : items ≠ []) :
    ∃ m ∈ items, ∀ a ∈ items, forkChoicePrefer (rank m) (rank a) ≠ .right := by
  obtain ⟨m, hm⟩ := Option.ne_none_iff_exists'.mp
    (mt (List.argmax_eq_none (f := fun a => (rank a).strength)).mp some)
  refine ⟨m, List.argmax_mem hm, fun a ha right => ?_⟩
  exact absurd (strength_lt_of_forkChoicePrefer_right right)
    (not_lt.mpr (List.le_of_mem_argmax (f := fun a => (rank a).strength) ha hm))

def IsForkChoiceMaximum {F G : Type} [Field F] [AddCommGroup G] [Module F G] [DecidableEq G]
    (env : NodeEnv F G) (dfs : Option ContentStore) (certifiedOnly : Bool) {cycle : UInt64}
    (store : Store) (items : List (LsuArrival env.blake2b512 cycle))
    (m : LsuArrival env.blake2b512 cycle) : Prop :=
  m ∈ items ∧ ∀ a ∈ items, forkChoicePrefer (m.incomingRank env dfs certifiedOnly store)
    (a.incomingRank env dfs certifiedOnly store) ≠ .right

/-- There is a fork-choice maximum, and in every order of arrival the slot ends with its hash exactly
if the recorded maximum, ranked without its hint, still beats every update of another hash ranked
with its own. -/
theorem persistLsuHistory_canonical_iff {F G : Type} [Field F] [AddCommGroup G] [Module F G]
    [DecidableEq G] (env : NodeEnv F G) (dfs : Option ContentStore) (certifiedOnly : Bool)
    (cycle : UInt64) (store : Store) (items : List (LsuArrival env.blake2b512 cycle))
    (some : items ≠ []) (empty : store.getMetadata (lsuHashKey cycle) = none)
    (cids : NoCertificateCids env cycle store) :
    (∃ m, IsForkChoiceMaximum env dfs certifiedOnly store items m) ∧
    ∀ m, IsForkChoiceMaximum env dfs certifiedOnly store items m →
      ((∀ l : List (LsuArrival env.blake2b512 cycle), l.Perm items →
        (l.foldl (persistArrival env dfs certifiedOnly) store).getMetadata (lsuHashKey cycle) =
          Option.some m.lsuHash.toList) ↔
      ∀ i ∈ items, ∀ j ∈ items, j.lsuHash = m.lsuHash → i.lsuHash ≠ m.lsuHash →
        incomingWeakerThanStored (i.incomingRank env dfs certifiedOnly store)
          (j.storedRank env dfs certifiedOnly store) = true) := by
  have start : SlotHolds env store (none : Option (LsuArrival env.blake2b512 cycle)) :=
    ⟨empty, fun _ h => by simp at h, cids⟩
  refine ⟨exists_unbeaten _ some, fun m ⟨hm, maximum⟩ => ?_⟩
  have slots : ∀ l : List (LsuArrival env.blake2b512 cycle),
      (l.foldl (persistArrival env dfs certifiedOnly) store).getMetadata (lsuHashKey cycle) =
        Option.some m.lsuHash.toList ↔
      (l.foldl (SlotContest.challenge LsuArrival.lsuHash
        (arrivesWeaker env dfs certifiedOnly store)) none).map LsuArrival.lsuHash =
        Option.some m.lsuHash := by
    intro l
    rw [(start.run cids l).hash]
    simp only [Option.map_eq_some_iff]
    constructor
    · rintro ⟨a, held, same⟩
      exact ⟨a, held, Subtype.ext same⟩
    · rintro ⟨a, held, same⟩
      exact ⟨a, held, congrArg List.Vector.toList same⟩
  simp only [slots]
  exact foldl_challenge_eq_iff hm (fun a ha _ => cids.arrivesWeaker_eq_false (maximum a ha))

section Samples

def lateUpdate : LedgerStateUpdate := sampleUpdate [sampleId "0c"] 2

def lateCertificate : LsuFinalityCertificateV1 :=
  sampleCertificate lateUpdate [(sampleId "0c", ((12 : Nat) : ZMod 13))]

def sampleArrival (lsu : LedgerStateUpdate) (hint : String)
    (decodes : deserialize (serialize lsu) = some lsu) (ofCycle : lsu.cycleNumber = 5) :
    LsuArrival checksum 5 :=
  ⟨lsu, serialize lsu, hashData checksum lsu, "", zeros 32, hint, decodes, ofCycle, rfl⟩

def certifiedArrival : LsuArrival checksum 5 :=
  sampleArrival lateUpdate "certificate" (by decide +kernel) rfl

def plainArrival : LsuArrival checksum 5 :=
  sampleArrival outsiderUpdate "" (by decide +kernel) rfl

def uncertifiedArrival : LsuArrival checksum 5 :=
  sampleArrival lateUpdate "" (by decide +kernel) rfl

end Samples

/-- The certified update wins if it comes last, and loses the slot to an uncertified one that comes
after it. -/
theorem persistLsuHistory_order_dependent :
    Store.empty.getMetadata (lsuHashKey 5) = none ∧
    NoCertificateCids (sampleEnv lateCertificate) 5 .empty ∧
    IsForkChoiceMaximum (sampleEnv lateCertificate) (some sampleContent) true .empty
      [certifiedArrival, plainArrival] certifiedArrival ∧
    ([plainArrival, certifiedArrival].foldl (persistArrival (sampleEnv lateCertificate)
      (some sampleContent) true) .empty).getMetadata (lsuHashKey 5) =
        some certifiedArrival.lsuHash.toList ∧
    ([certifiedArrival, plainArrival].foldl (persistArrival (sampleEnv lateCertificate)
      (some sampleContent) true) .empty).getMetadata (lsuHashKey 5) =
        some plainArrival.lsuHash.toList ∧
    certifiedArrival.lsuHash ≠ plainArrival.lsuHash := by
  exact ⟨by decide +kernel, ⟨by decide +kernel, by decide +kernel⟩,
    ⟨List.mem_cons_self, by decide +kernel⟩, by decide +kernel, by decide +kernel, by decide +kernel⟩

/-- Without certificates the smaller hash ends in the slot in both orders. -/
theorem persistLsuHistory_canonical_iff_plain :
    ([plainArrival, uncertifiedArrival].foldl (persistArrival (sampleEnv lateCertificate)
      (some sampleContent) true) .empty).getMetadata (lsuHashKey 5) =
        some plainArrival.lsuHash.toList ∧
    ([uncertifiedArrival, plainArrival].foldl (persistArrival (sampleEnv lateCertificate)
      (some sampleContent) true) .empty).getMetadata (lsuHashKey 5) =
        some plainArrival.lsuHash.toList := by
  have always := (persistLsuHistory_canonical_iff (sampleEnv lateCertificate) (some sampleContent)
    true 5 .empty [plainArrival, uncertifiedArrival] (List.cons_ne_nil _ _) (by decide +kernel)
    ⟨by decide +kernel, by decide +kernel⟩).2 plainArrival
    ⟨List.mem_cons_self, by decide +kernel⟩ |>.mpr (by decide +kernel)
  exact ⟨always _ (List.Perm.refl _), always _ (List.Perm.swap _ _ _)⟩

end CatalystNode
