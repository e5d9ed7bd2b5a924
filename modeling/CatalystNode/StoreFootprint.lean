import CatalystNode.ApplyLsu

namespace CatalystNode

open ByteVector HexCodec MachineInt

/-- Every account record that differs between two stores lies under one of the tags. -/
def Store.WritesWithin (tags : List Bytes) (s t : Store) : Prop :=
  ∀ key, (∀ tag ∈ tags, ¬tag <+: key) → t.getState key = s.getState key

def TagsApart (a b : Bytes) : Prop := ¬a <+: b ∧ ¬b <+: a

instance instDecidableTagsApart (a b : Bytes) : Decidable (TagsApart a b) :=
  inferInstanceAs (Decidable (_ ∧ _))

theorem TagsApart.append_ne {a b : Bytes} (apart : TagsApart a b) (x y : Bytes) :
    a ++ x ≠ b ++ y := by
  intro same
  rcases List.prefix_or_prefix_of_prefix (List.prefix_append a x) (same ▸ List.prefix_append b y)
    with short | long
  · exact apart.1 short
  · exact apart.2 long

namespace Store.WritesWithin

variable {tags tags' : List Bytes} {s t u : Store}

theorem refl (tags : List Bytes) (s : Store) : WritesWithin tags s s := fun _ _ => rfl

theorem trans (first : WritesWithin tags s t) (second : WritesWithin tags t u) :
    WritesWithin tags s u := fun key outside => by rw [second key outside, first key outside]

theorem mono (sub : tags ⊆ tags') (h : WritesWithin tags s t) : WritesWithin tags' s t :=
  fun key outside => h key (fun tag ht => outside tag (sub ht))

theorem setState {tag : Bytes} (s : Store) {key value : Bytes} (under : tag <+: key)
    (ht : tag ∈ tags) : WritesWithin tags s (s.setState key value) := by
  intro other outside
  apply Store.getState_setState_of_ne
  rintro rfl
  exact outside tag ht under

theorem foldl {α : Type} {f : Store → α → Store} (step : ∀ s a, WritesWithin tags s (f s a))
    (s : Store) (l : List α) : WritesWithin tags s (l.foldl f s) := by
  induction l generalizing s with
  | nil => exact refl tags s
  | cons a l ih => exact (step s a).trans (ih (f s a))

theorem getState_append (h : WritesWithin tags s t) {tag : Bytes}
    (apart : ∀ other ∈ tags, TagsApart other tag) (rest : Bytes) :
    t.getState (tag ++ rest) = s.getState (tag ++ rest) := by
  apply h
  intro other ho under
  rcases List.prefix_or_prefix_of_prefix under (List.prefix_append tag rest) with short | long
  · exact (apart other ho).1 short
  · exact (apart other ho).2 long

end Store.WritesWithin

open Store

theorem writesWithin_addToBalance (store : Store) (pk : PublicKey) (delta : Int64) :
    WritesWithin [utf8 "bal:"] store (addToBalance store pk delta) :=
  .setState store (List.prefix_append _ _) (List.mem_singleton.mpr rfl)

theorem writesWithin_applyCompensation (store : Store) (c : CompensationEntry) :
    WritesWithin [utf8 "bal:"] store (applyCompensation store c) := by
  unfold applyCompensation
  split
  next => exact .refl _ store
  next => exact writesWithin_addToBalance store _ _

theorem writesWithin_ensureWorkerFirstSeenCycle (store : Store) (pk : PublicKey) (cycle : UInt64) :
    WritesWithin [utf8 "wfs:"] store (ensureWorkerFirstSeenCycle store pk cycle) := by
  unfold ensureWorkerFirstSeenCycle
  dsimp only
  split
  next => exact .setState store (List.prefix_append _ _) (List.mem_singleton.mpr rfl)
  next => exact .refl _ store

def registrationTags : List Bytes := [utf8 "workers:", utf8 "wfs:", utf8 "wlr:"]

theorem writesWithin_registerWorker (store : Store) (pk : PublicKey) (cycle : UInt64) :
    WritesWithin registrationTags store (registerWorker store pk cycle) := by
  have first : WritesWithin registrationTags store (store.setState (workerKeyForPubkey pk) [1]) :=
    .setState store (List.prefix_append _ _) (by simp [registrationTags])
  have seen : WritesWithin registrationTags (store.setState (workerKeyForPubkey pk) [1])
      (ensureWorkerFirstSeenCycle (store.setState (workerKeyForPubkey pk) [1]) pk cycle) :=
    (writesWithin_ensureWorkerFirstSeenCycle _ pk cycle).mono (by simp [registrationTags])
  exact (first.trans seen).trans
    (.setState _ (List.prefix_append (utf8 "wlr:") pk.toList) (by simp [registrationTags]))

theorem writesWithin_applyFeeCreditSpendForCycle (store : Store) (pk : PublicKey)
    (fee cycle : UInt64) :
    WritesWithin [utf8 "feecred:bal:", utf8 "fcd:"] store
      (applyFeeCreditSpendForCycle store pk fee cycle).1 := by
  unfold applyFeeCreditSpendForCycle
  dsimp only
  split
  next => exact .refl _ store
  next =>
    split
    next => exact .refl _ store
    next =>
      exact (WritesWithin.setState store (List.prefix_append (utf8 "feecred:bal:") _) (by simp)).trans
        (.setState _ (List.prefix_append (utf8 "fcd:") _) (by simp))

def settlementTags : List Bytes := [utf8 "bal:", utf8 "feecred:bal:", utf8 "fcd:"]

theorem writesWithin_settleStep (cycle : UInt64) (store : Store) (entries : List TransactionEntry) :
    WritesWithin settlementTags store (settleStep cycle store entries) := by
  have spend := fun sender fee =>
    (writesWithin_applyFeeCreditSpendForCycle store sender fee cycle).mono
      (List.subset_cons_self (utf8 "bal:") _)
  unfold settleStep settleGroup
  dsimp only
  split
  next => exact .refl _ store
  next =>
    split
    next => exact .refl _ store
    next =>
      split
      next => exact .refl _ store
      next sender _ =>
        split
        next =>
          exact (spend sender _).trans
            ((writesWithin_addToBalance _ sender _).mono (by simp))
        next => exact spend sender _

theorem writesWithin_settleFeeCreditSpendForAppliedCycle (store : Store) (lsu : LedgerStateUpdate) :
    WritesWithin settlementTags store (settleFeeCreditSpendForAppliedCycle store lsu) := by
  unfold settleFeeCreditSpendForAppliedCycle
  split
  next => exact .refl _ store
  next => exact .foldl (writesWithin_settleStep lsu.cycleNumber) store _

def rewardTags : List Bytes := [utf8 "bal:", utf8 "feecred:bal:"]

theorem writesWithin_accrueFeeCredits (store : Store) (pk : PublicKey) :
    WritesWithin rewardTags store (accrueFeeCredits store pk) := by
  unfold accrueFeeCredits
  split
  next => exact .setState store (List.prefix_append (utf8 "feecred:bal:") _) (by simp [rewardTags])
  next => exact .refl _ store

theorem writesWithin_payWaiting (per : UInt64) (s : Store × UInt64) (pk : PublicKey) :
    WritesWithin rewardTags s.1 (payWaiting per s pk).1 := by
  have paid : WritesWithin rewardTags s.1 (if 0 < per ∨ 0 < s.2 then
      addToBalance s.1 pk (shareWithRemainder per s.2).toInt64 else s.1) := by
    split
    next => exact (writesWithin_addToBalance s.1 pk _).mono (by simp [rewardTags])
    next => exact .refl _ s.1
  exact paid.trans (writesWithin_accrueFeeCredits _ pk)

theorem writesWithin_foldl_payWaiting (per : UInt64) (waiting : List PublicKey)
    (s : Store × UInt64) : WritesWithin rewardTags s.1 (waiting.foldl (payWaiting per) s).1 := by
  induction waiting generalizing s with
  | nil => exact .refl _ s.1
  | cons pk waiting ih => exact (writesWithin_payWaiting per s pk).trans (ih (payWaiting per s pk))

theorem writesWithin_distributeWaitingPoolRewardsAndFeeCredits (store : Store)
    (lsu : LedgerStateUpdate) :
    WritesWithin rewardTags store (distributeWaitingPoolRewardsAndFeeCredits store lsu) := by
  unfold distributeWaitingPoolRewardsAndFeeCredits
  dsimp only
  split
  next => exact .refl _ store
  next =>
    split
    next => exact .refl _ store
    next => exact writesWithin_foldl_payWaiting _ _ (store, _)

theorem writesWithin_writeRootCycleCounter (store : Store) (cycle : UInt64) :
    WritesWithin [rootCycleCounterKey] store (writeRootCycleCounter store cycle) :=
  .setState store List.prefix_rfl (List.mem_singleton.mpr rfl)

/-- The passes after the one over the nonces write balances, fee credits and the cycle counter. -/
def closingTags : List Bytes := rootCycleCounterKey :: settlementTags

def closeLedger (store : Store) (lsu : LedgerStateUpdate) : Store :=
  writeRootCycleCounter (distributeWaitingPoolRewardsAndFeeCredits
    (settleFeeCreditSpendForAppliedCycle store lsu) lsu) lsu.cycleNumber

theorem writesWithin_closeLedger (store : Store) (lsu : LedgerStateUpdate) :
    WritesWithin closingTags store (closeLedger store lsu) := by
  have settled : WritesWithin closingTags store (settleFeeCreditSpendForAppliedCycle store lsu) :=
    (writesWithin_settleFeeCreditSpendForAppliedCycle store lsu).mono (List.subset_cons_self _ _)
  have rewarded : WritesWithin closingTags (settleFeeCreditSpendForAppliedCycle store lsu)
      (distributeWaitingPoolRewardsAndFeeCredits (settleFeeCreditSpendForAppliedCycle store lsu)
        lsu) :=
    (writesWithin_distributeWaitingPoolRewardsAndFeeCredits _ lsu).mono
      (by simp [closingTags, settlementTags, rewardTags])
  exact (settled.trans rewarded).trans
    ((writesWithin_writeRootCycleCounter _ lsu.cycleNumber).mono (by simp [closingTags]))

end CatalystNode
