import CatalystNode.RejectedApply

namespace CatalystNode

open ByteVector HexCodec MachineInt Store Effects

/-- The storage operations of an apply: those of one entry, compensation, transaction or waiting
worker are numbered by its place in its list. -/
inductive LedgerOp where
  | worker (i : Nat)
  | firstSeen (i : Nat)
  | lastRegistration (i : Nat)
  | contract (i : Nat)
  | balance (i : Nat)
  | compensation (i : Nat)
  | nonce (i : Nat)
  | credit (i : Nat)
  | dailySpend (i : Nat)
  | refund (i : Nat)
  | share (i : Nat)
  | accrual (i : Nat)
  | cycleCounter
  | commit
  deriving DecidableEq

/-- The operations whose error ends the apply; the others are made with `let _ =`. -/
def LedgerOp.passedOn : LedgerOp → Bool
  | .balance _ | .cycleCounter | .commit => true
  | _ => false

/-- An apply on storage that can fail. A contract call is given its place among the entries and may do
any part of its work there. What is recorded after the commit may be incomplete as well, and of the
snapshots it writes checkpoints only. -/
structure FaultyEnv extends DatabaseEnv where
  ioError : StorageError
  executeAt : Nat → Store → PublicKey → UInt64 → EvmTxPayload → UInt64 →
    Store × Except String EvmExecution
  finish : LedgerStateUpdate → Hash → Std.ExtTreeMap Bytes ApplyOutcome → Database → Database
  keepsSnapshots : ∀ lsu root outcomes db name, ¬IsCheckpointName name →
    (finish lsu root outcomes db).snapshots[name]? = db.snapshots[name]?

/-- An error comes with the store in which the apply stopped. -/
abbrev StorageM := Except (StorageError × Store)

namespace Faulty

section Model

variable (env : FaultyEnv) (fails : LedgerOp → Bool)

def setState (op : LedgerOp) (store : Store) (key value : Bytes) : Store :=
  if fails op then store else store.setState key value

def trySetState (op : LedgerOp) (store : Store) (key value : Bytes) : StorageM Store :=
  if fails op then .error (env.ioError, store) else .ok (store.setState key value)

def ensureWorkerFirstSeenCycle (i : Nat) (store : Store) (pubkey : PublicKey) (cycle : UInt64) :
    Store :=
  let key := feeCreditFirstSeenCycleKeyForPubkey pubkey
  if (store.getState key).isNone then setState fails (.firstSeen i) store key (encodeU64 cycle)
  else store

def registerWorker (i : Nat) (store : Store) (pubkey : PublicKey) (cycle : UInt64) : Store :=
  let store := setState fails (.worker i) store (workerKeyForPubkey pubkey) [1]
  let store := ensureWorkerFirstSeenCycle fails i store pubkey cycle
  setState fails (.lastRegistration i) store (workerLastRegistrationCycleKeyForPubkey pubkey)
    (encodeU64 cycle)

def addToBalance (op : LedgerOp) (store : Store) (pubkey : PublicKey) (delta : Int64) : Store :=
  setState fails op store (balanceKeyForPubkey pubkey)
    (encodeI64 (saturatingAddI64 (getBalanceI64 store pubkey) delta))

def applyEvmEntry (chainId : UInt64) (pass : EntryPass) (e : TransactionEntry) (i : Nat) : EntryPass :=
  if e.signature ∈ pass.executedSigs then pass
  else
    let executed := e.signature :: pass.executedSigs
    match decodeEvmMarker env.runtime e.signature with
    | none => { pass with executedSigs := executed }
    | some payload =>
      let run := env.executeAt i pass.store e.publicKey chainId payload.1 (max defaultEvmGasLimit 21000)
      ⟨if fails (.contract i) then pass.store else run.1,
        pass.outcomeBySig.insert e.signature (.ofExecution run.2), executed⟩

def applyEntry (chainId cycle : UInt64) (pass : EntryPass) : TransactionEntry × Nat → StorageM EntryPass
  | (e, i) =>
    if isWorkerRegMarker e.signature then
      .ok { pass with
        store := registerWorker fails i pass.store e.publicKey cycle
        outcomeBySig := pass.outcomeBySig.insertIfNew e.signature .succeeded }
    else if isEvmMarker e.signature then .ok (applyEvmEntry env fails chainId pass e i)
    else do
      let store ← trySetState env fails (.balance i) pass.store (balanceKeyForPubkey e.publicKey)
        (encodeI64 (saturatingAddI64 (getBalanceI64 pass.store e.publicKey) e.amount))
      return { pass with
        store := store
        outcomeBySig := pass.outcomeBySig.insertIfNew e.signature .succeeded }

def applyCompensation (store : Store) : CompensationEntry × Nat → Store
  | (c, i) =>
    if c.amount = 0 then store
    else addToBalance fails (.compensation i) store c.publicKey c.amount.toInt64

def bumpNonce (store : Store) : List TransactionEntry × Nat → Store
  | (entries, i) =>
    match groupSender entries with
    | none => store
    | some pk => setState fails (.nonce i) store (nonceKeyForPubkey pk)
      (encodeU64 (saturatingAddU64 (getNonceU64 store pk) 1))

def applyFeeCreditSpendForCycle (i : Nat) (store : Store) (pubkey : PublicKey)
    (spendAtoms cycle : UInt64) : Store × UInt64 :=
  if spendAtoms = 0 then (store, 0)
  else
    let allowed := feeCreditSpendableForCycle store pubkey spendAtoms cycle
    if allowed = 0 then (store, 0)
    else
      let bal := getFeeCreditBalanceU64 store pubkey
      let store := setState fails (.credit i) store (feeCreditBalanceKeyForPubkey pubkey)
        (encodeU64 (saturatingSubU64 bal allowed))
      let day := feeCreditDayBucket cycle
      let spent := spentInBucket (getFeeCreditDailySpend store pubkey) day
      (setState fails (.dailySpend i) store (feeCreditDailySpendKeyForPubkey pubkey)
        (encodeDailySpend ⟨day, saturatingAddU64 spent allowed⟩), allowed)

def settleStep (cycle : UInt64) (store : Store) : List TransactionEntry × Nat → Store
  | (entries, i) =>
    let net := groupNet entries
    if 0 ≤ net then store
    else
      let fee := UInt64.ofNat (min (-net).toNat (2 ^ 64 - 1))
      if fee = 0 then store
      else match groupSender entries with
        | none => store
        | some sender =>
          let spent := applyFeeCreditSpendForCycle fails i store sender fee cycle
          if 0 < spent.2 then addToBalance fails (.refund i) spent.1 sender spent.2.toInt64 else spent.1

def settleFeeCreditSpendForAppliedCycle (store : Store) (lsu : LedgerStateUpdate) : Store :=
  if ¬tokenomicsFeeCreditsEnabled then store
  else (groupBySig lsu.partialUpdate.transactionEntries).zipIdx.foldl
    (settleStep fails lsu.cycleNumber) store

def accrueFeeCredits (i : Nat) (store : Store) (pk : PublicKey) : Store :=
  if tokenomicsFeeCreditsEnabled then
    setState fails (.accrual i) store (feeCreditBalanceKeyForPubkey pk) (encodeU64 (min
      (saturatingAddU64 (getFeeCreditBalanceU64 store pk) tokenomicsFeeCreditsAccrualAtomsPerDay)
      tokenomicsFeeCreditsMaxBalanceAtoms))
  else store

def payWaiting (per : UInt64) (s : Store × UInt64) : PublicKey × Nat → Store × UInt64
  | (pk, i) =>
    let paid :=
      if 0 < per ∨ 0 < s.2 then
        addToBalance fails (.share i) s.1 pk (shareWithRemainder per s.2).toInt64
      else s.1
    (accrueFeeCredits fails i paid pk, remainderLeft s.2)

def distributeWaitingPoolRewardsAndFeeCredits (store : Store) (lsu : LedgerStateUpdate) : Store :=
  let pool := waitingPool lsu
  if pool = 0 ∧ ¬tokenomicsFeeCreditsEnabled then store
  else
    let waiting := waitingWorkers store lsu
    if waiting = [] then store
    else
      let n := UInt64.ofNat waiting.length
      (waiting.zipIdx.foldl (payWaiting fails (pool / n)) (store, pool % n)).1

def closingPasses (lsu : LedgerStateUpdate) (store : Store) : Store :=
  let store := lsu.compensationEntries.zipIdx.foldl (applyCompensation fails) store
  let store := (groupBySig lsu.partialUpdate.transactionEntries).zipIdx.foldl (bumpNonce fails) store
  let store := settleFeeCreditSpendForAppliedCycle fails store lsu
  distributeWaitingPoolRewardsAndFeeCredits fails store lsu

def applyLedger (store : Store) (lsu : LedgerStateUpdate) :
    StorageM (Store × Std.ExtTreeMap Bytes ApplyOutcome) := do
  let pass ← lsu.partialUpdate.transactionEntries.zipIdx.foldlM
    (applyEntry env fails (loadChainIdU64 store) lsu.cycleNumber) ⟨store, ∅, []⟩
  let store ← trySetState env fails .cycleCounter (closingPasses fails lsu pass.store)
    rootCycleCounterKey (encodeU64 lsu.cycleNumber)
  return (store, pass.outcomeBySig)

def commit (store : Store) : StorageM (Store × Hash) :=
  match computeRootFromIter env.sha256 store.accounts.toList with
  | .error e => .error (e, store)
  | .ok root =>
    if fails .commit then .error (env.ioError, store)
    else .ok ({ store with currentStateRoot := some root }, root)

def applyLsuToDatabase (lsu : LedgerStateUpdate) : DatabaseM Hash := fun db =>
  if lsu.cycleNumber ≤ lastAppliedCycle db.toStore then
    .ok (db.currentStateRoot.getD (zeros 32)) db
  else
    let applied := do
      let ledger ← applyLedger env fails db.toStore lsu
      let committed ← commit env fails ledger.1
      return (committed, ledger.2)
    match applied with
    | .error (e, store) => .error (.storage e) { db with toStore := store }
    | .ok ((store, root), outcomes) => .ok root (env.finish lsu root outcomes { db with toStore := store })

def applyLsuWithRootCheckLocked (lsu : LedgerStateUpdate) (expectedStateRoot : Hash) :
    DatabaseM Bool := do
  let snap := verifySnapshotName lsu.cycleNumber env.nowMs
  createSnapshot snap
  let got ← applyLsuToDatabase env fails lsu
  if got = expectedStateRoot then
    modify (Database.deleteSnapshot snap)
    return true
  else
    loadSnapshot snap
    modify (fun db => endState (refreshCachedStateRoot env.sha256 db))
    modify (Database.deleteSnapshot snap)
    return false

end Model

section Faultless

variable (env : DatabaseEnv) (ioError : StorageError)

def faultless : FaultyEnv :=
  { env with
    ioError := ioError
    executeAt := fun _ => env.runtime.executeAndPersist
    finish := fun lsu root outcomes db => checkpointAfterApply env lsu root
      (db.onStore (recordApplied env.applying lsu root outcomes))
    keepsSnapshots := fun _ _ _ _ => checkpointed_checkpointAfterApply.snapshots }

variable {env} {ioError} {lsu : LedgerStateUpdate} {store : Store}

theorem foldl_zipIdx {α σ : Type} {f : σ → α × Nat → σ} {g : σ → α → σ}
    (same : ∀ s a i, f s (a, i) = g s a) (l : List α) (s : σ) : l.zipIdx.foldl f s = l.foldl g s := by
  have step : f = fun s p => g s p.1 := funext fun s => funext fun p => same s p.1 p.2
  rw [step, ← List.foldl_map, List.zipIdx_map_fst]

theorem applyEntry_faultless (chainId cycle : UInt64) (pass : EntryPass) (e : TransactionEntry × Nat) :
    applyEntry (faultless env ioError) (fun _ => false) chainId cycle pass e =
      .ok (CatalystNode.applyEntry env.runtime chainId cycle pass e.1) := by
  obtain ⟨e, i⟩ := e
  unfold applyEntry CatalystNode.applyEntry
  dsimp only
  split
  next => rfl
  next =>
    split
    next => rfl
    next => rfl

theorem settleStep_faultless (cycle : UInt64) (store : Store) (entries : List TransactionEntry)
    (i : Nat) : settleStep (fun _ => false) cycle store (entries, i) =
      CatalystNode.settleStep cycle store entries := by
  unfold settleStep CatalystNode.settleStep settleGroup
  dsimp only
  split
  next => rfl
  next =>
    split
    next => rfl
    next =>
      cases groupSender entries with
      | none => rfl
      | some sender =>
        dsimp only
        rw [apply_ite Prod.fst]
        rfl

theorem closingPasses_faultless (store : Store) :
    closingPasses (fun _ => false) lsu store =
      CatalystNode.distributeWaitingPoolRewardsAndFeeCredits
        (CatalystNode.settleFeeCreditSpendForAppliedCycle
          ((groupBySig lsu.partialUpdate.transactionEntries).foldl CatalystNode.bumpNonce
            (lsu.compensationEntries.foldl CatalystNode.applyCompensation store)) lsu) lsu := by
  unfold closingPasses settleFeeCreditSpendForAppliedCycle distributeWaitingPoolRewardsAndFeeCredits
  have paid := fun per => foldl_zipIdx (f := payWaiting (fun _ => false) per)
    (g := CatalystNode.payWaiting per) (fun _ _ _ => rfl)
  dsimp only
  rw [foldl_zipIdx (f := applyCompensation (fun _ => false)) (g := CatalystNode.applyCompensation)
      (fun _ _ _ => rfl),
    foldl_zipIdx (f := bumpNonce (fun _ => false)) (g := CatalystNode.bumpNonce) (fun _ _ _ => rfl),
    foldl_zipIdx (settleStep_faultless lsu.cycleNumber), paid]
  rfl

theorem applyLedger_faultless (store : Store) (lsu : LedgerStateUpdate) :
    applyLedger (faultless env ioError) (fun _ => false) store lsu =
      .ok (CatalystNode.applyLedger env.toApplyEnv store lsu) := by
  have entries : ∀ chainId pass, lsu.partialUpdate.transactionEntries.zipIdx.foldlM
      (applyEntry (faultless env ioError) (fun _ => false) chainId lsu.cycleNumber) pass =
      .ok (lsu.partialUpdate.transactionEntries.foldl
        (CatalystNode.applyEntry env.runtime chainId lsu.cycleNumber) pass) := by
    intro chainId pass
    rw [funext₂ (applyEntry_faultless chainId lsu.cycleNumber),
      ← foldl_zipIdx (f := fun pass e => CatalystNode.applyEntry env.runtime chainId lsu.cycleNumber
        pass e.1) (fun _ _ _ => rfl)]
    exact List.foldlM_pure
  unfold applyLedger
  rw [entries]
  dsimp only [bind, Except.bind]
  rw [closingPasses_faultless]
  rfl

/-- Where nothing fails, this is the apply of the other results. -/
theorem applyLsuToDatabase_faultless (lsu : LedgerStateUpdate) :
    applyLsuToDatabase (faultless env ioError) (fun _ => false) lsu =
      CatalystNode.applyLsuToDatabase env lsu := by
  funext db
  by_cases below : lsu.cycleNumber ≤ lastAppliedCycle db.toStore
  · rw [applyLsuToDatabase_skip below]
    exact if_pos below
  · have above := UInt64.not_le.mp below
    obtain ⟨-, -, -, root, -, built, -⟩ :=
      computeRoots_spec env.sha256 (CatalystNode.applyLedger env.toApplyEnv db.toStore lsu).1.accounts.toList
    have stored : applyLsuToStorageLocked env.applying db.toStore lsu = _ :=
      applyLsuToStorageLocked_eq above built
    have committed : commit (faultless env ioError) (fun _ => false)
        (CatalystNode.applyLedger env.toApplyEnv db.toStore lsu).1 = .ok
        ({ (CatalystNode.applyLedger env.toApplyEnv db.toStore lsu).1 with
          currentStateRoot := some root }, root) := by
      have same : (faultless env ioError).sha256 = env.sha256 := rfl
      rw [commit, same, built]
      rfl
    rw [@applyLsuToDatabase_of_ok env lsu root db above (congrArg Prod.snd stored), stored,
      applyLsuToDatabase, if_neg below, applyLedger_faultless]
    dsimp only [bind, Except.bind]
    rw [committed]
    rfl

theorem applyLsuWithRootCheckLocked_faultless (lsu : LedgerStateUpdate) (expected : Hash) :
    applyLsuWithRootCheckLocked (faultless env ioError) (fun _ => false) lsu expected =
      CatalystNode.applyLsuWithRootCheckLocked env lsu expected := by
  unfold applyLsuWithRootCheckLocked
  rw [applyLsuToDatabase_faultless]
  rfl

end Faultless

section Plan

variable (env : FaultyEnv) (store : Store)

def entryPlan : TransactionEntry × Nat → List LedgerOp
  | (e, i) =>
    if isWorkerRegMarker e.signature then
      if (store.getState (feeCreditFirstSeenCycleKeyForPubkey e.publicKey)).isNone then
        [.worker i, .firstSeen i, .lastRegistration i]
      else [.worker i, .lastRegistration i]
    else if isEvmMarker e.signature then
      if (decodeEvmMarker env.runtime e.signature).isSome then [.contract i] else []
    else [.balance i]

def compensationPlan : CompensationEntry × Nat → List LedgerOp
  | (c, i) => if c.amount = 0 then [] else [.compensation i]

def noncePlan : List TransactionEntry × Nat → List LedgerOp
  | (entries, i) => if groupSender entries = none then [] else [.nonce i]

def creditPlan (cycle : UInt64) : List TransactionEntry × Nat → List LedgerOp
  | (entries, i) =>
    let fee := UInt64.ofNat (min (-groupNet entries).toNat (2 ^ 64 - 1))
    match groupSender entries with
    | none => []
    | some sender =>
      if 0 ≤ groupNet entries ∨ fee = 0 ∨ feeCreditSpendableForCycle store sender fee cycle = 0 then []
      else [.credit i, .dailySpend i, .refund i]

def sharePlan (per rem : UInt64) : PublicKey × Nat → List LedgerOp
  | (_, i) => if 0 < per ∨ 0 < remainderLeft^[i] rem then [.share i, .accrual i] else [.accrual i]

/-- The operations an apply makes for the entries as long as none of them has written anything. -/
def entriesPlan (lsu : LedgerStateUpdate) : List LedgerOp :=
  lsu.partialUpdate.transactionEntries.zipIdx.flatMap (entryPlan env store)

def closingPlan (lsu : LedgerStateUpdate) : List LedgerOp :=
  let groups := (groupBySig lsu.partialUpdate.transactionEntries).zipIdx
  let waiting := waitingWorkers store lsu
  let n := UInt64.ofNat waiting.length
  lsu.compensationEntries.zipIdx.flatMap compensationPlan ++ groups.flatMap noncePlan ++
    groups.flatMap (creditPlan store lsu.cycleNumber) ++
    waiting.zipIdx.flatMap (sharePlan (waitingPool lsu / n) (waitingPool lsu % n))

end Plan

section Idle

variable {env : FaultyEnv} {fails : LedgerOp → Bool} {store : Store} {lsu : LedgerStateUpdate}

theorem foldl_idle {α : Type} {f : Store → α → Store} {plan : α → List LedgerOp}
    (step : ∀ a, (∀ op ∈ plan a, fails op) → f store a = store) {l : List α}
    (all : ∀ op ∈ l.flatMap plan, fails op) : l.foldl f store = store := by
  induction l with
  | nil => rfl
  | cons a l ih =>
    rw [List.flatMap_cons, List.forall_mem_append] at all
    rw [List.foldl_cons, step a all.1, ih all.2]

theorem registerWorker_idle {e : TransactionEntry} {i : Nat}
    (all : ∀ op ∈ entryPlan env store (e, i), fails op) (marker : isWorkerRegMarker e.signature)
    (cycle : UInt64) : registerWorker fails i store e.publicKey cycle = store := by
  rw [entryPlan, if_pos marker] at all
  unfold registerWorker ensureWorkerFirstSeenCycle setState
  split at all
  next new => simp_all
  next known => simp_all

theorem applyCompensation_idle (c : CompensationEntry × Nat)
    (all : ∀ op ∈ compensationPlan c, fails op) : applyCompensation fails store c = store := by
  unfold applyCompensation addToBalance setState
  unfold compensationPlan at all
  split at all
  simp_all

theorem bumpNonce_idle (group : List TransactionEntry × Nat)
    (all : ∀ op ∈ noncePlan group, fails op) : bumpNonce fails store group = store := by
  unfold bumpNonce setState
  unfold noncePlan at all
  cases sender : groupSender group.1 <;> simp_all

theorem settleStep_idle {cycle : UInt64} (group : List TransactionEntry × Nat)
    (all : ∀ op ∈ creditPlan store cycle group, fails op) :
    settleStep fails cycle store group = store := by
  obtain ⟨entries, i⟩ := group
  unfold settleStep
  unfold creditPlan at all
  dsimp only at all ⊢
  cases found : groupSender entries with
  | none => simp
  | some sender =>
    rw [found] at all
    dsimp only at all ⊢
    split
    next => rfl
    next owes =>
      split
      next => rfl
      next due =>
        unfold applyFeeCreditSpendForCycle
        rw [if_neg due]
        dsimp only
        split
        next => rfl
        next spendable =>
          rw [if_neg (not_or.mpr ⟨owes, not_or.mpr ⟨due, spendable⟩⟩)] at all
          simp_all [setState, addToBalance]

theorem payWaiting_idle {per rem : UInt64} {waiting : List PublicKey} {k : Nat}
    (all : ∀ op ∈ (waiting.zipIdx k).flatMap (sharePlan per rem), fails op) :
    ((waiting.zipIdx k).foldl (payWaiting fails per) (store, remainderLeft^[k] rem)).1 = store := by
  induction waiting generalizing k with
  | nil => rfl
  | cons pk waiting ih =>
    rw [List.zipIdx_cons, List.flatMap_cons, List.forall_mem_append] at all
    have paid : payWaiting fails per (store, remainderLeft^[k] rem) (pk, k) =
        (store, remainderLeft^[k + 1] rem) := by
      have first := all.1
      unfold sharePlan at first
      unfold payWaiting accrueFeeCredits addToBalance setState
      rw [Function.iterate_succ_apply']
      dsimp only at first ⊢
      split at first
      next shared =>
        rw [if_pos shared, first (.share k) (by simp), first (.accrual k) (by simp)]
        simp
      next none =>
        rw [if_neg none, first (.accrual k) (by simp)]
        simp
    rw [List.zipIdx_cons, List.foldl_cons, paid, ih all.2]

theorem closingPasses_idle (all : ∀ op ∈ closingPlan store lsu, fails op) :
    closingPasses fails lsu store = store := by
  simp only [closingPlan, List.forall_mem_append] at all
  obtain ⟨⟨⟨compensations, nonces⟩, credits⟩, shares⟩ := all
  have settled : settleFeeCreditSpendForAppliedCycle fails store lsu = store :=
    foldl_idle settleStep_idle credits
  unfold closingPasses
  dsimp only
  rw [foldl_idle applyCompensation_idle compensations, foldl_idle bumpNonce_idle nonces, settled]
  unfold distributeWaitingPoolRewardsAndFeeCredits
  dsimp only
  split
  next => rfl
  next =>
    split
    next => rfl
    next => exact payWaiting_idle (k := 0) shares

/-- If all operations of an entry fail, it either ends the apply or leaves the store alone. -/
theorem applyEntry_idle {chainId cycle : UInt64} {pass : EntryPass} {e : TransactionEntry × Nat}
    (same : pass.store = store) (all : ∀ op ∈ entryPlan env store e, fails op) :
    applyEntry env fails chainId cycle pass e = .error (env.ioError, store) ∨
      (∀ op ∈ entryPlan env store e, op.passedOn = false) ∧
      ∃ pass', applyEntry env fails chainId cycle pass e = .ok pass' ∧ pass'.store = store := by
  obtain ⟨e, i⟩ := e
  subst same
  unfold applyEntry
  dsimp only
  split
  next marker =>
    refine .inr ⟨?_, _, rfl, registerWorker_idle all marker cycle⟩
    rw [entryPlan, if_pos marker]
    split <;> simp [LedgerOp.passedOn]
  next plain =>
    rw [entryPlan, if_neg plain] at all ⊢
    split
    next marker =>
      rw [if_pos marker] at all
      unfold applyEvmEntry
      refine .inr ⟨?_, _, rfl, ?_⟩
      · split <;> simp [LedgerOp.passedOn]
      · split
        next => rfl
        next => cases found : decodeEvmMarker env.runtime e.signature <;> simp_all
    next plain =>
      rw [if_neg plain] at all
      have failed : fails (.balance i) := all _ (List.mem_singleton.mpr rfl)
      refine .inl ?_
      rw [trySetState, if_pos failed]
      rfl

theorem applyEntry_ok {chainId cycle : UInt64} (pass : EntryPass) {e : TransactionEntry × Nat}
    (none : ∀ op ∈ entryPlan env store e, op.passedOn → fails op = false) :
    ∃ pass', applyEntry env fails chainId cycle pass e = .ok pass' := by
  obtain ⟨e, i⟩ := e
  unfold applyEntry
  dsimp only
  split
  next => exact ⟨_, rfl⟩
  next plain =>
    split
    next => exact ⟨_, rfl⟩
    next plain' =>
      rw [entryPlan, if_neg plain, if_neg plain'] at none
      rw [trySetState, none _ (List.mem_singleton.mpr rfl) rfl]
      exact ⟨_, rfl⟩

end Idle

section Failure

variable {env : FaultyEnv} {fails : LedgerOp → Bool} {lsu : LedgerStateUpdate} {store : Store}
  {expected : Hash} {db : Database}

/-- The first error that is passed on comes before the apply has written anything but the cycle
counter. -/
def FailsUnwritten (env : FaultyEnv) (fails : LedgerOp → Bool) (lsu : LedgerStateUpdate)
    (store : Store) : Prop :=
  (∃ op ∈ (entriesPlan env store lsu).takeWhile fails, op.passedOn) ∨
    (∀ op ∈ entriesPlan env store lsu ++ closingPlan store lsu, fails op) ∧
    (fails .cycleCounter ∨ fails .commit)

def ledgerKeys (pubkey : PublicKey) : List Bytes :=
  [balanceKeyForPubkey pubkey, nonceKeyForPubkey pubkey, workerKeyForPubkey pubkey,
    feeCreditFirstSeenCycleKeyForPubkey pubkey, workerLastRegistrationCycleKeyForPubkey pubkey,
    feeCreditBalanceKeyForPubkey pubkey, feeCreditDailySpendKeyForPubkey pubkey]

def SameLedgerKeys (before after : Store) : Prop :=
  ∀ pubkey, ∀ key ∈ ledgerKeys pubkey, after.getState key = before.getState key

theorem mem_takeWhile_append {α : Type} {p : α → Bool} {a : α} {l l' : List α}
    (found : a ∈ (l ++ l').takeWhile p) :
    a ∈ l.takeWhile p ∨ (∀ b ∈ l, p b) ∧ a ∈ l'.takeWhile p := by
  rw [List.takeWhile_append] at found
  split at found
  next whole =>
    have same := (List.takeWhile_sublist p).eq_of_length whole
    rcases List.mem_append.mp found with early | late
    · exact .inl (same.symm ▸ early)
    · exact .inr ⟨fun b listed => List.mem_takeWhile_imp (same.symm ▸ listed), late⟩
  next => exact .inl found

/-- An operation whose error is passed on is the only one of its entry. -/
theorem entryPlan_of_passedOn {e : TransactionEntry × Nat} {op : LedgerOp}
    (mem : op ∈ entryPlan env store e) (ends : op.passedOn) : entryPlan env store e = [op] := by
  obtain ⟨e, i⟩ := e
  unfold entryPlan at mem ⊢
  dsimp only at mem ⊢
  have not : ∀ l : List LedgerOp, (∀ op ∈ l, op.passedOn = false) → op ∉ l :=
    fun l quiet mem => Bool.false_ne_true ((quiet op mem).symm.trans ends)
  split at mem
  next =>
    refine absurd mem (not _ ?_)
    split <;> simp [LedgerOp.passedOn]
  next plain =>
    split at mem
    next =>
      refine absurd mem (not _ ?_)
      split <;> simp [LedgerOp.passedOn]
    next plain' => rw [if_neg plain, if_neg plain', List.mem_singleton.mp mem]

theorem entries_fail {chainId cycle : UInt64} {l : List (TransactionEntry × Nat)} {pass : EntryPass}
    {op : LedgerOp} (same : pass.store = store)
    (found : op ∈ (l.flatMap (entryPlan env store)).takeWhile fails) (ends : op.passedOn) :
    l.foldlM (applyEntry env fails chainId cycle) pass = .error (env.ioError, store) := by
  induction l generalizing pass with
  | nil => nomatch found
  | cons e l ih =>
    rw [List.flatMap_cons] at found
    rw [List.foldlM_cons]
    have all : ∀ op ∈ entryPlan env store e, fails op := by
      rcases mem_takeWhile_append found with here | ⟨all, -⟩
      · rw [entryPlan_of_passedOn (List.takeWhile_subset _ here) ends]
        exact List.forall_mem_singleton.mpr (List.mem_takeWhile_imp here)
      · exact all
    rcases @applyEntry_idle env fails store chainId cycle pass e same all with
      failed | ⟨quiet, pass', done, same'⟩
    · rw [failed]
      rfl
    · rw [done]
      rcases mem_takeWhile_append found with here | ⟨-, later⟩
      · have := quiet op (List.takeWhile_subset _ here)
        simp [this] at ends
      · exact ih same' later

theorem entries_idle {chainId cycle : UInt64} {l : List (TransactionEntry × Nat)} {pass : EntryPass}
    (same : pass.store = store) (all : ∀ op ∈ l.flatMap (entryPlan env store), fails op) :
    l.foldlM (applyEntry env fails chainId cycle) pass = .error (env.ioError, store) ∨
      ∃ pass', l.foldlM (applyEntry env fails chainId cycle) pass = .ok pass' ∧
        pass'.store = store := by
  induction l generalizing pass with
  | nil => exact .inr ⟨pass, rfl, same⟩
  | cons e l ih =>
    rw [List.flatMap_cons, List.forall_mem_append] at all
    rw [List.foldlM_cons]
    rcases @applyEntry_idle env fails store chainId cycle pass e same all.1 with
      failed | ⟨-, pass', done, same'⟩
    · rw [failed]
      exact .inl rfl
    · rw [done]
      exact ih same' all.2

theorem entries_ok {chainId cycle : UInt64} {l : List (TransactionEntry × Nat)} (pass : EntryPass)
    (none : ∀ op ∈ l.flatMap (entryPlan env store), op.passedOn → fails op = false) :
    ∃ pass', l.foldlM (applyEntry env fails chainId cycle) pass = .ok pass' := by
  induction l generalizing pass with
  | nil => exact ⟨pass, rfl⟩
  | cons e l ih =>
    rw [List.flatMap_cons, List.forall_mem_append] at none
    obtain ⟨pass', done⟩ := @applyEntry_ok env fails store chainId cycle pass e none.1
    rw [List.foldlM_cons, done]
    exact ih pass' none.2

theorem sameLedgerKeys_setCounter (value : Bytes) :
    SameLedgerKeys store (store.setState rootCycleCounterKey value) := by
  intro pubkey key mem
  have written : WritesWithin [rootCycleCounterKey] store (store.setState rootCycleCounterKey value) :=
    .setState store List.prefix_rfl (List.mem_singleton.mpr rfl)
  simp only [ledgerKeys, List.mem_cons, List.not_mem_nil, or_false] at mem
  rcases mem with rfl | rfl | rfl | rfl | rfl | rfl | rfl <;>
    exact written.getState_append (by decide) _

theorem commit_eq (store : Store) : ∃ root, commit env fails store =
    if fails .commit then .error (env.ioError, store)
    else .ok ({ store with currentStateRoot := some root }, root) := by
  obtain ⟨-, -, -, root, -, built, -⟩ := computeRoots_spec env.sha256 store.accounts.toList
  exact ⟨root, by rw [commit, built]⟩

theorem applyLsuToDatabase_unwritten {e : ReconcileError} {db' : Database}
    (unwritten : FailsUnwritten env fails lsu db.toStore)
    (failed : applyLsuToDatabase env fails lsu db = .error e db') :
    SameLedgerKeys db.toStore db'.toStore := by
  unfold applyLsuToDatabase applyLedger at failed
  split at failed
  next => nomatch failed
  next =>
    have start : (⟨db.toStore, ∅, []⟩ : EntryPass).store = db.toStore := rfl
    rcases unwritten with ⟨op, found, ends⟩ | ⟨all, closes⟩
    · rw [entries_fail start found ends] at failed
      cases failed
      exact fun _ _ _ => rfl
    · rw [List.forall_mem_append] at all
      rcases entries_idle start all.1 with stopped | ⟨pass, done, same⟩
      · rw [stopped] at failed
        cases failed
        exact fun _ _ _ => rfl
      · rw [done] at failed
        dsimp only [bind, Except.bind] at failed
        rw [same, closingPasses_idle all.2, trySetState] at failed
        by_cases counter : fails .cycleCounter
        · rw [if_pos counter] at failed
          cases failed
          exact fun _ _ _ => rfl
        · rw [if_neg counter] at failed
          dsimp only [pure, Except.pure] at failed
          obtain ⟨root, committed⟩ := @commit_eq env fails
            (db.toStore.setState rootCycleCounterKey (encodeU64 lsu.cycleNumber))
          rw [committed, if_pos (closes.resolve_left counter)] at failed
          cases failed
          exact sameLedgerKeys_setCounter _

theorem applyLsuToDatabase_ok
    (none : ∀ op ∈ entriesPlan env db.toStore lsu ++ [.cycleCounter, .commit],
      op.passedOn → fails op = false) :
    ∃ root after, applyLsuToDatabase env fails lsu db = .ok root after := by
  have counter : fails .cycleCounter = false := none _ (by simp) rfl
  have commits : fails .commit = false := none _ (by simp) rfl
  rw [List.forall_mem_append] at none
  unfold applyLsuToDatabase applyLedger trySetState
  split
  next => exact ⟨_, _, rfl⟩
  next =>
    obtain ⟨pass, done⟩ := entries_ok ⟨db.toStore, ∅, []⟩ none.1
    rw [done, counter]
    dsimp only [bind, Except.bind, pure, Except.pure]
    rw [if_neg Bool.false_ne_true]
    obtain ⟨root, committed⟩ := @commit_eq env fails ((closingPasses fails lsu pass.store).setState
      rootCycleCounterKey (encodeU64 lsu.cycleNumber))
    dsimp only
    rw [committed, commits]
    exact ⟨_, _, rfl⟩

theorem snapshots_of_applied {root : Hash} {after : Database}
    (applied : applyLsuToDatabase env fails lsu db = .ok root after) {name : String}
    (other : ¬IsCheckpointName name) : after.snapshots[name]? = db.snapshots[name]? := by
  unfold applyLsuToDatabase at applied
  split at applied
  next => cases applied; rfl
  next =>
    dsimp only at applied
    split at applied
    next => nomatch applied
    next => cases applied; exact env.keepsSnapshots _ _ _ _ name other

/-- Once its snapshot is taken, a checked apply fails only where the apply itself does. -/
theorem applyLsuToDatabase_of_error {e : ReconcileError} {db' : Database}
    (free : verifySnapshotName lsu.cycleNumber env.nowMs ∉ db.snapshots)
    (failed : applyLsuWithRootCheckLocked env fails lsu expected db = .error e db') :
    applyLsuToDatabase env fails lsu
      (db.withSnapshot (verifySnapshotName lsu.cycleNumber env.nowMs)) = .error e db' := by
  unfold applyLsuWithRootCheckLocked at failed
  rw [bind_of_ok (createSnapshot_of_not_mem free)] at failed
  cases applied : applyLsuToDatabase env fails lsu
      (db.withSnapshot (verifySnapshotName lsu.cycleNumber env.nowMs)) with
  | error e₁ db₁ =>
    rw [bind_of_error applied] at failed
    cases failed
    rfl
  | ok root after =>
    have kept := (snapshots_of_applied applied
      (verifySnapshotName_not_checkpoint lsu.cycleNumber env.nowMs)).trans snapshots_withSnapshot_self
    rw [bind_of_ok applied] at failed
    split at failed
    next => nomatch failed
    next =>
      rw [bind_of_ok (loadSnapshot_eq kept)] at failed
      nomatch failed

end Failure

end Faulty

open Faulty in
/-- A failed apply leaves every account, nonce, registration and fee credit as it was if no operation
fails whose error is passed on, or if the first one that does comes before anything is written. -/
theorem failedApply_keeps (env : FaultyEnv) (fails : LedgerOp → Bool) (lsu : LedgerStateUpdate)
    (expected : Hash) (db : Database)
    (met : verifySnapshotName lsu.cycleNumber env.nowMs ∈ db.snapshots ∨
      lsu.cycleNumber ≤ lastAppliedCycle db.toStore ∨
      (∀ op ∈ entriesPlan env db.toStore lsu ++ [.cycleCounter, .commit],
        op.passedOn → fails op = false) ∨
      FailsUnwritten env fails lsu db.toStore) (e : ReconcileError) (db' : Database)
    (failed : Faulty.applyLsuWithRootCheckLocked env fails lsu expected db = .error e db') :
    SameLedgerKeys db.toStore db'.toStore := by
  by_cases taken : verifySnapshotName lsu.cycleNumber env.nowMs ∈ db.snapshots
  · obtain ⟨e', refused⟩ := createSnapshot_of_mem taken
    unfold Faulty.applyLsuWithRootCheckLocked at failed
    rw [bind_of_error refused] at failed
    cases failed
    exact fun _ _ _ => rfl
  · have inner := applyLsuToDatabase_of_error taken failed
    rcases met.resolve_left taken with below | none | unwritten
    · rw [Faulty.applyLsuToDatabase, if_pos (show lsu.cycleNumber ≤ lastAppliedCycle
        (db.withSnapshot (verifySnapshotName lsu.cycleNumber env.nowMs)).toStore from below)] at inner
      nomatch inner
    · obtain ⟨root, after, applied⟩ := @applyLsuToDatabase_ok env fails lsu
        (db.withSnapshot (verifySnapshotName lsu.cycleNumber env.nowMs)) none
      rw [applied] at inner
      nomatch inner
    · exact @applyLsuToDatabase_unwritten env fails lsu
        (db.withSnapshot (verifySnapshotName lsu.cycleNumber env.nowMs)) e db' unwritten inner

def samplePaid : LedgerStateUpdate :=
  let paid : List TransactionEntry := [⟨padTo 32 [1], -5, [7]⟩, ⟨padTo 32 [2], 5, [7]⟩]
  { sampleVoted 1 1 with partialUpdate := ⟨paid, zeros 32, 0, 1⟩ }

/-- The transfer whose given operation fails. -/
def samplePayment (op : LedgerOp) : EStateM.Result ReconcileError Database Bool :=
  Faulty.applyLsuWithRootCheckLocked
    (Faulty.faultless sampleDatabaseEnv (.internal "write failed")) (· = op) samplePaid (zeros 32)
    Database.fresh

def failedBalance (account : PublicKey) : EStateM.Result ReconcileError Database Bool → Option Bytes
  | .ok _ _ => none
  | .error _ db => db.getState (balanceKeyForPubkey account)

/-- The first write of the transfer fails. -/
theorem failedApply_keeps_unpaid :
    ∃ e db', samplePayment (.balance 0) = .error e db' ∧
      Faulty.SameLedgerKeys Database.fresh.toStore db'.toStore := by
  have unwritten : Faulty.FailsUnwritten
      (Faulty.faultless sampleDatabaseEnv (.internal "write failed")) (· = .balance 0) samplePaid
      Database.fresh.toStore := .inl ⟨.balance 0, by decide +kernel, rfl⟩
  have run : samplePayment (.balance 0) = .error (.storage (.internal "write failed"))
      (Database.fresh.withSnapshot (verifySnapshotName 1 sampleDatabaseEnv.nowMs)) := rfl
  exact ⟨_, _, run, failedApply_keeps _ _ _ _ _ (.inr (.inr (.inr unwritten))) _ _ run⟩

/-- The second write of the transfer fails: the first account has paid, the second has nothing. -/
theorem failedApply_halfPaid :
    failedBalance (padTo 32 [1]) (samplePayment (.balance 1)) = some (encodeI64 (-5)) ∧
    failedBalance (padTo 32 [2]) (samplePayment (.balance 1)) = none ∧
    Database.fresh.getState (balanceKeyForPubkey (padTo 32 [1])) = none := by
  decide +kernel

end CatalystNode
