import CatalystNode.CreditCaps

namespace CatalystNode

open ByteVector HexCodec MachineInt FoldTrace Store

def registrants (lsu : LedgerStateUpdate) : List PublicKey :=
  (lsu.partialUpdate.transactionEntries.filter (fun e => isWorkerRegMarker e.signature)).map
    TransactionEntry.publicKey

def appliedSteps (env : ApplyEnv) (initial : Store) (updates : List LedgerStateUpdate) :
    List (Store × LedgerStateUpdate) :=
  (foldSteps (applyNext env) initial updates).filter (fun step =>
    lastAppliedCycle step.1 < step.2.cycleNumber)

def RegisteredIn (steps : List (Store × LedgerStateUpdate)) (pk : PublicKey) (cycle : UInt64) : Prop :=
  ∃ step ∈ steps, pk ∈ registrants step.2 ∧ step.2.cycleNumber = cycle

section Markers

variable {store : Store} {pk other : PublicKey} {cycle : UInt64}

theorem getWorkerFirstSeenCycle_registerWorker :
    getWorkerFirstSeenCycle (registerWorker store pk cycle) other =
      if pk = other ∧ (store.getState (feeCreditFirstSeenCycleKeyForPubkey pk)).isNone then some cycle
      else getWorkerFirstSeenCycle store other := by
  have marked : ∀ k, (store.setState (workerKeyForPubkey pk) [1]).getState
      (feeCreditFirstSeenCycleKeyForPubkey k) =
        store.getState (feeCreditFirstSeenCycleKeyForPubkey k) := by
    intro k
    refine Store.getState_setState_of_ne _ _ (TagsApart.append_ne ?_ _ _)
    decide
  have dated : ∀ s : Store, getWorkerFirstSeenCycle (setWorkerLastRegistrationCycle s pk cycle) other =
      getWorkerFirstSeenCycle s other := by
    intro s
    have kept : (setWorkerLastRegistrationCycle s pk cycle).getState
        (feeCreditFirstSeenCycleKeyForPubkey other) =
          s.getState (feeCreditFirstSeenCycleKeyForPubkey other) :=
      Store.getState_setState_of_ne _ _ (TagsApart.append_ne (by decide) _ _)
    rw [getWorkerFirstSeenCycle, kept, getWorkerFirstSeenCycle]
  rw [registerWorker, dated, ensureWorkerFirstSeenCycle, marked]
  by_cases unseen : (store.getState (feeCreditFirstSeenCycleKeyForPubkey pk)).isNone
  · rw [if_pos unseen]
    by_cases own : pk = other
    · subst own
      rw [if_pos ⟨rfl, unseen⟩, getWorkerFirstSeenCycle, Store.getState_setState_self,
        Option.bind_some, decodeU64_encodeU64]
    · have apart : feeCreditFirstSeenCycleKeyForPubkey pk ≠ feeCreditFirstSeenCycleKeyForPubkey other :=
        fun same => own (Subtype.ext (List.append_cancel_left same))
      rw [if_neg (fun both => own both.1), getWorkerFirstSeenCycle,
        Store.getState_setState_of_ne _ _ apart, marked, getWorkerFirstSeenCycle]
  · rw [if_neg unseen, if_neg (fun both => unseen both.2), getWorkerFirstSeenCycle, marked,
      getWorkerFirstSeenCycle]

theorem getWorkerLastRegistrationCycle_registerWorker :
    getWorkerLastRegistrationCycle (registerWorker store pk cycle) other =
      if pk = other then some cycle else getWorkerLastRegistrationCycle store other := by
  have seen : ∀ k, (ensureWorkerFirstSeenCycle (store.setState (workerKeyForPubkey pk) [1]) pk
      cycle).getState (workerLastRegistrationCycleKeyForPubkey k) =
        store.getState (workerLastRegistrationCycleKeyForPubkey k) := by
    intro k
    have marked : (store.setState (workerKeyForPubkey pk) [1]).getState
        (workerLastRegistrationCycleKeyForPubkey k) =
          store.getState (workerLastRegistrationCycleKeyForPubkey k) :=
      Store.getState_setState_of_ne _ _ (TagsApart.append_ne (by decide) _ _)
    rw [← marked]
    exact (writesWithin_ensureWorkerFirstSeenCycle _ pk cycle).getState_append (by decide) k.toList
  rw [getWorkerLastRegistrationCycle, registerWorker, setWorkerLastRegistrationCycle]
  by_cases own : pk = other
  · subst own
    rw [if_pos rfl, Store.getState_setState_self, Option.bind_some, decodeU64_encodeU64]
  · have apart : workerLastRegistrationCycleKeyForPubkey pk ≠
        workerLastRegistrationCycleKeyForPubkey other :=
      fun same => own (Subtype.ext (List.append_cancel_left same))
    rw [if_neg own, Store.getState_setState_of_ne _ _ apart, seen, getWorkerLastRegistrationCycle]

/-- What the markers of a store tell about registrations: a first cycle was one of the account's, and
no registration came after the last cycle. -/
structure MarkersTell (store : Store) (registered : PublicKey → UInt64 → Prop) : Prop where
  firstSeen : ∀ pk f, getWorkerFirstSeenCycle store pk = some f → registered pk f
  last : ∀ pk f, registered pk f → ∃ l, getWorkerLastRegistrationCycle store pk = some l ∧ f ≤ l

variable {registered : PublicKey → UInt64 → Prop}

theorem MarkersTell.registerWorker (tell : MarkersTell store registered)
    (latest : ∀ pk f, registered pk f → f ≤ cycle) (pk : PublicKey) :
    MarkersTell (registerWorker store pk cycle)
      (fun k f => registered k f ∨ k = pk ∧ f = cycle) := by
  constructor
  · intro k f found
    rw [getWorkerFirstSeenCycle_registerWorker] at found
    split at found
    next own =>
      cases found
      exact .inr ⟨own.1.symm, rfl⟩
    next => exact .inl (tell.firstSeen k f found)
  · intro k f either
    rw [getWorkerLastRegistrationCycle_registerWorker]
    split
    next own =>
      refine ⟨cycle, rfl, ?_⟩
      rcases either with before | ⟨-, now⟩
      · exact latest k f before
      · exact now ▸ UInt64.le_refl f
    next other =>
      rcases either with before | ⟨own, -⟩
      · exact tell.last k f before
      · exact absurd own.symm other

theorem MarkersTell.congr (tell : MarkersTell store registered) {registered' : PublicKey → UInt64 → Prop}
    (same : ∀ pk f, registered pk f ↔ registered' pk f) : MarkersTell store registered' := by
  have equal : registered = registered' := funext₂ (fun pk f => propext (same pk f))
  exact equal ▸ tell

/-- So they do after the registrations of an update. -/
theorem MarkersTell.registeredStore (tell : MarkersTell store registered) (lsu : LedgerStateUpdate)
    (latest : ∀ pk f, registered pk f → f ≤ lsu.cycleNumber) :
    MarkersTell (registeredStore store lsu)
      (fun k f => registered k f ∨ k ∈ registrants lsu ∧ f = lsu.cycleNumber) := by
  unfold CatalystNode.registeredStore registrants
  generalize lsu.partialUpdate.transactionEntries.filter (fun e => isWorkerRegMarker e.signature) =
    entries
  induction entries generalizing store registered with
  | nil => exact tell.congr (fun k f => by simp)
  | cons e entries ih =>
    have here := tell.registerWorker latest e.publicKey
    have rest := ih here (fun k f either => either.elim (latest k f) (fun own => own.2 ▸ UInt64.le_refl _))
    refine rest.congr (fun k f => ?_)
    rw [List.map_cons, List.mem_cons, or_and_right, or_assoc]

theorem MarkersTell.of_alike {t : Store} (tell : MarkersTell store registered)
    (alike : RegisteredAlike t store) : MarkersTell t registered := by
  have seen : ∀ pk, getWorkerFirstSeenCycle t pk = getWorkerFirstSeenCycle store pk := by
    intro pk
    rw [getWorkerFirstSeenCycle, feeCreditFirstSeenCycleKeyForPubkey,
      alike (utf8 "wfs:") (by simp [registrationTags]), getWorkerFirstSeenCycle,
      feeCreditFirstSeenCycleKeyForPubkey]
  have last : ∀ pk, getWorkerLastRegistrationCycle t pk = getWorkerLastRegistrationCycle store pk := by
    intro pk
    rw [getWorkerLastRegistrationCycle, workerLastRegistrationCycleKeyForPubkey,
      alike (utf8 "wlr:") (by simp [registrationTags]), getWorkerLastRegistrationCycle,
      workerLastRegistrationCycleKeyForPubkey]
  exact ⟨fun pk f found => tell.firstSeen pk f (seen pk ▸ found),
    fun pk f before => last pk ▸ tell.last pk f before⟩

/-- An account that is eligible has been registered for the warm-up time, and not in the time of the
churn penalty. Only in the largest cycle may the additions saturate. -/
theorem MarkersTell.of_eligible (tell : MarkersTell store registered)
    (countable : cycle.toNat < 2 ^ 64 - 1) (eligible : waitingWorkerIsEligible store pk cycle = true) :
    (∃ f, registered pk f ∧ f.toNat + 60480 ≤ cycle.toNat) ∧
      ∀ r, registered pk r → r.toNat + 12960 ≤ cycle.toNat := by
  have warmup : saturatingMulU64 tokenomicsFeeCreditsWarmupDays cyclesPerDay = 60480 := by decide
  have churn : saturatingMulU64 tokenomicsWaitingEligibilityChurnPenaltyDays cyclesPerDay = 12960 := by
    decide
  have exact_of_le : ∀ a b : UInt64, ¬cycle < saturatingAddU64 a b → a.toNat + b.toNat ≤ cycle.toNat := by
    intro a b reached
    rw [UInt64.lt_iff_toNat_lt, toNat_saturatingAddU64] at reached
    omega
  unfold waitingWorkerIsEligible at eligible
  split at eligible
  next => cases eligible
  next firstSeen found =>
    rw [warmup, churn] at eligible
    by_cases young : cycle < saturatingAddU64 firstSeen 60480
    · rw [if_pos young] at eligible
      exact absurd eligible Bool.false_ne_true
    · rw [if_neg young] at eligible
      refine ⟨⟨firstSeen, tell.firstSeen pk firstSeen found, exact_of_le firstSeen 60480 young⟩,
        fun r before => ?_⟩
      obtain ⟨l, dated, le⟩ := tell.last pk r before
      rw [dated] at eligible
      have settled := exact_of_le l 12960 (of_decide_eq_true eligible)
      have bound := UInt64.le_iff_toNat_le.mp le
      have penalty : (12960 : UInt64).toNat = 12960 := rfl
      omega

end Markers

section Runs

variable {env : ApplyEnv} {initial store : Store} {updates : List LedgerStateUpdate}
  {lsu : LedgerStateUpdate}

/-- An update that is applied leaves the records of registrations as its own registrations make them. -/
theorem registeredAlike_applyNext
    (contained : ContractsContained env.runtime lsu.partialUpdate.transactionEntries)
    (above : lastAppliedCycle store < lsu.cycleNumber) :
    RegisteredAlike (applyNext env store lsu) (registeredStore store lsu) := by
  have entries : RegisteredAlike (applyEntries env.runtime store lsu).store
      (registeredStore store lsu) :=
    registeredAlike_foldl_applyEntry env.runtime _ _ contained ⟨store, ∅, []⟩ store
      (fun _ _ _ => rfl)
  have later := RegisteredAlike.of_writesWithin (writesWithin_afterNonces env store lsu) (by decide)
  have settled := RegisteredAlike.of_writesWithin
    (writesWithin_settleFeeCreditSpendForAppliedCycle (afterNonces env store lsu) lsu) (by decide)
  have paid := RegisteredAlike.of_writesWithin
    (writesWithin_distributeWaitingPoolRewardsAndFeeCredits (afterSettlement env store lsu) lsu)
    (by decide)
  have counted := RegisteredAlike.of_writesWithin (writesWithin_writeRootCycleCounter
    (distributeWaitingPoolRewardsAndFeeCredits (afterSettlement env store lsu) lsu) lsu.cycleNumber)
    (by decide)
  have closed : RegisteredAlike (applyNext env store lsu) (writeRootCycleCounter
      (distributeWaitingPoolRewardsAndFeeCredits (afterSettlement env store lsu) lsu)
      lsu.cycleNumber) := by
    intro tag _ rest
    have accounts : (applyNext env store lsu).accounts = _ := applyLsuToStorage_accounts above
    rw [Store.getState, accounts]
    rfl
  exact (closed.trans (counted.trans paid)).trans ((settled.trans later).trans entries)

theorem registeredStore_of_nobody (nobody : registrants lsu = []) (store : Store) :
    registeredStore store lsu = store := by
  rw [registeredStore, List.map_eq_nil_iff.mp nobody, List.foldl_nil]

/-- Updates that register nobody find the workers of the first store. -/
theorem registeredAlike_foldSteps (contained : ∀ entries, ContractsContained env.runtime entries)
    (nobody : ∀ lsu ∈ updates, registrants lsu = []) {step : Store × LedgerStateUpdate}
    (listed : step ∈ foldSteps (applyNext env) initial updates) : RegisteredAlike step.1 initial := by
  induction updates generalizing initial with
  | nil => cases listed
  | cons lsu updates ih =>
    rcases List.mem_cons.mp listed with rfl | later
    · exact fun _ _ _ => rfl
    · refine (ih (fun next known => nobody next (List.mem_cons_of_mem _ known)) later).trans ?_
      by_cases above : lastAppliedCycle initial < lsu.cycleNumber
      · have alike := registeredAlike_applyNext (contained _) above
        rwa [registeredStore_of_nobody (nobody lsu List.mem_cons_self)] at alike
      · rw [applyNext_of_le (UInt64.not_lt.mp above)]
        exact fun _ _ _ => rfl

theorem appliedSteps_append (env : ApplyEnv) (initial : Store) (before after : List LedgerStateUpdate) :
    appliedSteps env initial (before ++ after) = appliedSteps env initial before ++
      appliedSteps env (before.foldl (applyNext env) initial) after := by
  rw [appliedSteps, foldSteps_append, List.filter_append, appliedSteps, appliedSteps]

theorem appliedSteps_of_increasing (lawful : LawfulApplyEnv env)
    (increasing : updates.Pairwise (fun a b => a.cycleNumber < b.cycleNumber))
    (above : ∀ lsu ∈ updates, lastAppliedCycle initial < lsu.cycleNumber) :
    appliedSteps env initial updates = foldSteps (applyNext env) initial updates := by
  induction updates generalizing initial with
  | nil => rfl
  | cons lsu updates ih =>
    obtain ⟨below, rest⟩ := List.pairwise_cons.mp increasing
    have first := above lsu List.mem_cons_self
    have head : lastAppliedCycle (applyNext env initial lsu) = lsu.cycleNumber :=
      lastAppliedCycle_applyLsuToStorage lawful first
    have later := ih rest (fun next listed => head ▸ below next listed)
    rw [appliedSteps] at later
    rw [appliedSteps, foldSteps, List.filter_cons, if_pos (decide_eq_true first), later]

theorem mem_of_mem_appliedSteps {step : Store × LedgerStateUpdate}
    (listed : step ∈ appliedSteps env initial updates) : step.2 ∈ updates :=
  mem_of_mem_foldSteps (List.mem_of_mem_filter listed)

theorem RegisteredIn.append {steps steps' : List (Store × LedgerStateUpdate)} {pk : PublicKey}
    {f : UInt64} : RegisteredIn (steps ++ steps') pk f ↔
      RegisteredIn steps pk f ∨ RegisteredIn steps' pk f := by
  simp only [RegisteredIn, List.mem_append, or_and_right, exists_or]

/-- In a run from a store without workers the markers tell about the updates applied so far. -/
theorem markersTell_run (contained : ∀ entries, ContractsContained env.runtime entries)
    (fresh : ∀ tag ∈ registrationTags, ∀ rest, initial.getState (tag ++ rest) = none)
    (increasing : updates.Pairwise (fun a b => a.cycleNumber < b.cycleNumber)) :
    MarkersTell (updates.foldl (applyNext env) initial)
      (RegisteredIn (appliedSteps env initial updates)) := by
  induction updates using List.reverseRecOn with
  | nil =>
    constructor
    · intro pk f found
      rw [List.foldl_nil, getWorkerFirstSeenCycle, feeCreditFirstSeenCycleKeyForPubkey,
        fresh (utf8 "wfs:") (by simp [registrationTags])] at found
      cases found
    · rintro pk f ⟨step, listed, -⟩
      cases listed
  | append_singleton updates last ih =>
    obtain ⟨earlier, -, apart⟩ := List.pairwise_append.mp increasing
    have before := ih earlier
    rw [List.foldl_append, List.foldl_cons, List.foldl_nil, appliedSteps_append]
    generalize updates.foldl (applyNext env) initial = store at before
    by_cases above : lastAppliedCycle store < last.cycleNumber
    · have here : appliedSteps env store [last] = [(store, last)] := List.filter_eq_self.mpr (by
        rintro step listed
        rw [List.mem_singleton.mp listed]
        exact decide_eq_true above)
      have latest : ∀ pk f, RegisteredIn (appliedSteps env initial updates) pk f →
          f ≤ last.cycleNumber := by
        rintro pk f ⟨step, listed, -, rfl⟩
        exact UInt64.le_of_lt (apart step.2 (mem_of_mem_appliedSteps listed) last
          (List.mem_singleton.mpr rfl))
      refine ((before.registeredStore last latest).of_alike
        (registeredAlike_applyNext (contained _) above)).congr (fun pk f => ?_)
      rw [RegisteredIn.append, here]
      simp only [RegisteredIn, List.mem_singleton, exists_eq_left, eq_comm]
    · have none : appliedSteps env store [last] = [] := List.filter_eq_nil_iff.mpr (by
        rintro step listed
        rw [List.mem_singleton.mp listed]
        simpa using UInt64.not_lt.mp above)
      rw [applyNext_of_le (UInt64.not_lt.mp above), none, List.append_nil]
      exact before

end Runs

/-- In a run from a store without workers, none of whose updates has the largest cycle number, an update
pays waiting rewards and fee credits only to accounts that are not among its producers, that have been
registered for the warm-up time, and that have not registered again in the time of the penalty. -/
theorem waitingRewards_aged (env : ApplyEnv)
    (contained : ∀ entries, ContractsContained env.runtime entries) (initial : Store)
    (fresh : ∀ tag ∈ registrationTags, ∀ rest, initial.getState (tag ++ rest) = none)
    (updates : List LedgerStateUpdate)
    (increasing : updates.Pairwise (fun a b => a.cycleNumber < b.cycleNumber))
    (countable : ∀ lsu ∈ updates, lsu.cycleNumber.toNat < 2 ^ 64 - 1)
    (step : Store × LedgerStateUpdate) (applied : step ∈ appliedSteps env initial updates)
    (pk : PublicKey) (rewarded : pk ∈ rewardedWorkers env step.1 step.2) :
    pk ∉ step.2.producerList.filterMap parseProducerIdPubkey ∧
    (∃ f, RegisteredIn (appliedSteps env initial updates) pk f ∧
      f.toNat + 60480 ≤ step.2.cycleNumber.toNat) ∧
    ∀ r, RegisteredIn (appliedSteps env initial updates) pk r →
      ¬(step.2.cycleNumber.toNat < r.toNat + 12960 ∧ r ≤ step.2.cycleNumber) := by
  obtain ⟨store, lsu⟩ := step
  dsimp only at rewarded ⊢
  obtain ⟨reached, positive⟩ := List.mem_filter.mp applied
  have above : lastAppliedCycle store < lsu.cycleNumber := of_decide_eq_true positive
  obtain ⟨before, after, rfl, rfl⟩ := exists_of_mem_foldSteps reached
  obtain ⟨earlier, rest, apart⟩ := List.pairwise_append.mp increasing
  have tell := markersTell_run contained fresh earlier
  have latest : ∀ pk f, RegisteredIn (appliedSteps env initial before) pk f → f ≤ lsu.cycleNumber := by
    rintro pk f ⟨step, listed, -, rfl⟩
    exact UInt64.le_of_lt (apart step.2 (mem_of_mem_appliedSteps listed) lsu List.mem_cons_self)
  rw [rewardedWorkers_eq (contained _), waitingWorkers, List.mem_filter] at rewarded
  obtain ⟨-, both⟩ := rewarded
  obtain ⟨outside, eligible⟩ := of_decide_eq_true both
  obtain ⟨aged, settled⟩ := (tell.registeredStore lsu latest).of_eligible
    (countable lsu (by simp)) eligible
  have here : appliedSteps env (before.foldl (applyNext env) initial) (lsu :: after) =
      (before.foldl (applyNext env) initial, lsu) ::
        appliedSteps env ((before ++ [lsu]).foldl (applyNext env) initial) after := by
    rw [appliedSteps, foldSteps, List.filter_cons, if_pos (decide_eq_true above), List.foldl_append]
    rfl
  have split : ∀ f, RegisteredIn (appliedSteps env initial (before ++ lsu :: after)) pk f ↔
      (RegisteredIn (appliedSteps env initial before) pk f ∨
        pk ∈ registrants lsu ∧ f = lsu.cycleNumber) ∨ RegisteredIn (appliedSteps env
          ((before ++ [lsu]).foldl (applyNext env) initial) after) pk f := by
    intro f
    rw [appliedSteps_append, here, ← List.singleton_append, RegisteredIn.append, RegisteredIn.append,
      or_assoc]
    simp only [RegisteredIn, List.mem_singleton, exists_eq_left, eq_comm]
  refine ⟨outside, ?_, fun r found late => ?_⟩
  · obtain ⟨f, found, enough⟩ := aged
    exact ⟨f, (split f).mpr (.inl found), enough⟩
  · rcases (split r).mp found with now | ⟨step, listed, -, rfl⟩
    · have enough := settled r now
      omega
    · have below := (List.pairwise_cons.mp rest).1 step.2 (mem_of_mem_appliedSteps listed)
      exact UInt64.not_le.mpr below late.2

section Samples

def sampleTenure (first later : UInt64) : List LedgerStateUpdate :=
  [sampleSpending first sampleRegistration,
    sampleSpending later (sampleTransfer 1 3 [(1, -1), (2, 1)])]

def sampleEnrolled (first : UInt64) : Store :=
  applyNext sampleCycleEnv .empty (sampleSpending first sampleRegistration)

theorem appliedSteps_sampleTenure {first later : UInt64} (positive : 0 < first) (rising : first < later) :
    appliedSteps sampleCycleEnv .empty (sampleTenure first later) =
      [(.empty, sampleSpending first sampleRegistration),
        (sampleEnrolled first, sampleSpending later (sampleTransfer 1 3 [(1, -1), (2, 1)]))] := by
  apply appliedSteps_of_increasing sampleCycleEnv_lawful
  · exact List.pairwise_pair.mpr rising
  · intro lsu listed
    rcases List.mem_cons.mp listed with rfl | last
    · exact positive
    · rw [List.mem_singleton.mp last]
      exact UInt64.lt_trans positive rising

theorem registeredIn_sampleTenure {first later : UInt64} (positive : 0 < first)
    (rising : first < later) (f : UInt64) :
    RegisteredIn (appliedSteps sampleCycleEnv .empty (sampleTenure first later)) (sampleAccount 1) f ↔
      f = first := by
  have one : sampleAccount 1 ∈ registrants (sampleLedgerUpdate sampleRegistration) := by decide
  have none : sampleAccount 1 ∉ registrants (sampleLedgerUpdate (sampleTransfer 1 3 [(1, -1), (2, 1)])) := by
    decide
  rw [appliedSteps_sampleTenure positive rising]
  constructor
  · rintro ⟨step, listed, registered, rfl⟩
    rcases List.mem_cons.mp listed with rfl | last
    · rfl
    · rw [List.mem_singleton.mp last] at registered
      exact absurd registered none
  · rintro rfl
    exact ⟨_, List.mem_cons_self, one, rfl⟩

theorem rewardedWorkers_sampleTenure {first later : UInt64} (positive : 0 < first) :
    rewardedWorkers sampleCycleEnv (sampleEnrolled first)
        (sampleSpending later (sampleTransfer 1 3 [(1, -1), (2, 1)])) =
      waitingWorkers (registeredStore .empty (sampleSpending first sampleRegistration))
        (sampleSpending later (sampleTransfer 1 3 [(1, -1), (2, 1)])) := by
  rw [rewardedWorkers_eq (sampleCycleEnv_lawful.contracts _)]
  have transfer : ∀ store, registeredStore store
      (sampleSpending later (sampleTransfer 1 3 [(1, -1), (2, 1)])) = store := fun _ => rfl
  rw [transfer]
  refine waitingWorkers_congr (registeredAlike_applyNext (sampleCycleEnv_lawful.contracts _) ?_) _
  exact positive

/-- Where the warm-up of a worker would end after the largest cycle number, it ends there. -/
theorem waitingRewards_saturated :
    ∃ step ∈ appliedSteps sampleCycleEnv .empty (sampleTenure 18446744073709551614 18446744073709551615),
      sampleAccount 1 ∈ rewardedWorkers sampleCycleEnv step.1 step.2 ∧
      ∀ f, RegisteredIn (appliedSteps sampleCycleEnv .empty
        (sampleTenure 18446744073709551614 18446744073709551615)) (sampleAccount 1) f →
          ¬f.toNat + 60480 ≤ step.2.cycleNumber.toNat := by
  refine ⟨(sampleEnrolled 18446744073709551614, sampleSpending 18446744073709551615
    (sampleTransfer 1 3 [(1, -1), (2, 1)])), ?_, ?_, fun f registered => ?_⟩
  · rw [appliedSteps_sampleTenure (by decide) (by decide)]
    exact List.mem_cons_of_mem _ List.mem_cons_self
  · rw [rewardedWorkers_sampleTenure (by decide)]
    decide +kernel
  · rw [(registeredIn_sampleTenure (by decide) (by decide) f).mp registered]
    decide

/-- A worker of the first cycle is rewarded once it has waited for two weeks. -/
theorem waitingRewards_aged_worker :
    sampleAccount 1 ∈ rewardedWorkers sampleCycleEnv (sampleEnrolled 1)
      (sampleSpending 60481 (sampleTransfer 1 3 [(1, -1), (2, 1)])) ∧
    ∃ f, RegisteredIn (appliedSteps sampleCycleEnv .empty (sampleTenure 1 60481)) (sampleAccount 1) f ∧
      f.toNat + 60480 ≤ (60481 : UInt64).toNat := by
  have rewarded : sampleAccount 1 ∈ rewardedWorkers sampleCycleEnv (sampleEnrolled 1)
      (sampleSpending 60481 (sampleTransfer 1 3 [(1, -1), (2, 1)])) := by
    rw [rewardedWorkers_sampleTenure (by decide)]
    decide +kernel
  have applied : (sampleEnrolled 1, sampleSpending 60481 (sampleTransfer 1 3 [(1, -1), (2, 1)])) ∈
      appliedSteps sampleCycleEnv .empty (sampleTenure 1 60481) := by
    rw [appliedSteps_sampleTenure (by decide) (by decide)]
    exact List.mem_cons_of_mem _ List.mem_cons_self
  have small : ∀ lsu ∈ sampleTenure 1 60481, lsu.cycleNumber.toNat < 2 ^ 64 - 1 := by
    simp [sampleTenure, sampleSpending]
  have aged := waitingRewards_aged sampleCycleEnv sampleCycleEnv_lawful.contracts .empty
    (fun _ _ _ => rfl) (sampleTenure 1 60481) (by decide) small _ applied (sampleAccount 1)
  dsimp only at aged
  exact ⟨rewarded, (aged rewarded).2.1⟩

end Samples

end CatalystNode
