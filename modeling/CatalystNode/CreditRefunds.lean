import CatalystNode.LedgerReplay

namespace CatalystNode

open ByteVector HexCodec MachineInt Store

def balanceOf (stored : Option Bytes) : Int64 := (stored.bind decodeI64).getD 0

def pay (balance : Int64) (payments : List Int64) : Int64 :=
  payments.foldl saturatingAddI64 balance

/-- The record after some payments; without one it is not rewritten. -/
def balanceRecord (stored : Option Bytes) (payments : List Int64) : Option Bytes :=
  if payments = [] then stored else some (encodeI64 (pay (balanceOf stored) payments))

theorem getState_addToBalance (store : Store) (other pk : PublicKey) (delta : Int64) :
    (addToBalance store other delta).getState (balanceKeyForPubkey pk) =
      balanceRecord (store.getState (balanceKeyForPubkey pk)) (if other = pk then [delta] else []) := by
  rw [addToBalance, setBalanceI64, Store.getState_setState]
  by_cases same : other = pk
  · subst same
    rw [if_pos rfl, if_pos rfl]
    rfl
  · rw [if_neg (mt balanceKeyForPubkey_inj same), if_neg same]
    rfl

structure Credits where
  balance : UInt64
  spentToday : UInt64

def creditsOf (store : Store) (cycle : UInt64) (pk : PublicKey) : Credits :=
  ⟨getFeeCreditBalanceU64 store pk,
    spentInBucket (getFeeCreditDailySpend store pk) (feeCreditDayBucket cycle)⟩

def Credits.spendable (credits : Credits) (fee : UInt64) : UInt64 :=
  if fee = 0 ∨ credits.balance = 0 then 0
  else min (min fee credits.balance)
    (saturatingSubU64 tokenomicsFeeCreditsDailySpendCapAtoms credits.spentToday)

def Credits.spend (credits : Credits) (amount : UInt64) : Credits :=
  ⟨saturatingSubU64 credits.balance amount, saturatingAddU64 credits.spentToday amount⟩

def Credits.refund (credits : Credits) (fee : UInt64) : List Int64 :=
  if credits.spendable fee = 0 then [] else [(credits.spendable fee).toInt64]

def groupFee (entries : List TransactionEntry) : UInt64 :=
  if 0 ≤ groupNet entries then 0 else UInt64.ofNat (min (-groupNet entries).toNat (2 ^ 64 - 1))

theorem Credits.spend_zero (credits : Credits) : credits.spend 0 = credits := by
  have balance : saturatingSubU64 credits.balance 0 = credits.balance :=
    UInt64.toNat_inj.mp (by rw [toNat_saturatingSubU64]; rfl)
  have spent : saturatingAddU64 credits.spentToday 0 = credits.spentToday := by
    have bound := credits.spentToday.toNat_lt
    exact UInt64.toNat_inj.mp (by
      rw [toNat_saturatingAddU64]
      have zero : (0 : UInt64).toNat = 0 := rfl
      omega)
  rw [Credits.spend, balance, spent]

theorem creditsOf_congr {s t : Store} {pk : PublicKey}
    (balance : t.getState (feeCreditBalanceKeyForPubkey pk) =
      s.getState (feeCreditBalanceKeyForPubkey pk))
    (daily : t.getState (feeCreditDailySpendKeyForPubkey pk) =
      s.getState (feeCreditDailySpendKeyForPubkey pk)) (cycle : UInt64) :
    creditsOf t cycle pk = creditsOf s cycle pk := by
  rw [creditsOf, getFeeCreditBalanceU64, getFeeCreditDailySpend, balance, daily]
  rfl

theorem Store.WritesWithin.creditsOf {tags : List Bytes} {s t : Store} (h : WritesWithin tags s t)
    (credits : ∀ tag ∈ tags, TagsApart tag (utf8 "feecred:bal:"))
    (daily : ∀ tag ∈ tags, TagsApart tag (utf8 "fcd:")) (cycle : UInt64) (pk : PublicKey) :
    CatalystNode.creditsOf t cycle pk = CatalystNode.creditsOf s cycle pk :=
  creditsOf_congr (h.getState_append credits pk.toList) (h.getState_append daily pk.toList) cycle

theorem decodeDailySpend_encodeDailySpend (daily : FeeCreditDailySpend) :
    decodeDailySpend (encodeDailySpend daily) = some daily := by
  have length : ∀ x : UInt64, (encodeU64 x).length = 8 := fun x => length_leBytes 8 x.toNat
  have word : ∀ x : UInt64, UInt64.ofNat (ofLeBytes (encodeU64 x)) = x := by
    intro x
    rw [encodeU64, ofLeBytes_leBytes (by simpa using x.toNat_lt)]
    simp
  rw [decodeDailySpend, encodeDailySpend, if_neg (by simp [length]),
    List.take_left' (length _), List.drop_left' (length _),
    List.take_of_length_le (length _).le, word, word]

def spendCredits (cycle : UInt64) (store : Store) (sender : PublicKey) (amount : UInt64) : Store :=
  setFeeCreditDailySpend (setFeeCreditBalanceU64 store sender
    (saturatingSubU64 (creditsOf store cycle sender).balance amount)) sender
    ⟨feeCreditDayBucket cycle, saturatingAddU64 (creditsOf store cycle sender).spentToday amount⟩

theorem balanceCredit_ne_dailySpend (a b : PublicKey) :
    feeCreditBalanceKeyForPubkey a ≠ feeCreditDailySpendKeyForPubkey b :=
  TagsApart.append_ne (by decide) _ _

theorem creditsOf_spendCredits (cycle : UInt64) (store : Store) (sender pk : PublicKey)
    (amount : UInt64) :
    creditsOf (spendCredits cycle store sender amount) cycle pk =
      if sender = pk then (creditsOf store cycle pk).spend amount else creditsOf store cycle pk := by
  have apart := (balanceCredit_ne_dailySpend pk sender).symm
  have apart' := balanceCredit_ne_dailySpend sender pk
  split
  next same =>
    subst same
    simp only [creditsOf, getFeeCreditBalanceU64, getFeeCreditDailySpend, spendCredits,
      setFeeCreditDailySpend, setFeeCreditBalanceU64, Store.getState_setState_of_ne _ _ apart,
      Store.getState_setState_self, Option.bind_some, decodeU64_encodeU64,
      decodeDailySpend_encodeDailySpend, Option.getD_some]
    simp [Credits.spend, spentInBucket]
  next different =>
    have balanceKey : feeCreditBalanceKeyForPubkey sender ≠ feeCreditBalanceKeyForPubkey pk :=
      fun same => different (Subtype.ext (List.append_cancel_left same))
    have dailyKey : feeCreditDailySpendKeyForPubkey sender ≠ feeCreditDailySpendKeyForPubkey pk :=
      fun same => different (Subtype.ext (List.append_cancel_left same))
    apply creditsOf_congr
    · rw [spendCredits, setFeeCreditDailySpend, Store.getState_setState_of_ne _ _ apart,
        setFeeCreditBalanceU64, Store.getState_setState_of_ne _ _ balanceKey]
    · rw [spendCredits, setFeeCreditDailySpend, Store.getState_setState_of_ne _ _ dailyKey,
        setFeeCreditBalanceU64, Store.getState_setState_of_ne _ _ apart']

theorem applyFeeCreditSpendForCycle_eq (store : Store) (sender : PublicKey) (fee cycle : UInt64) :
    applyFeeCreditSpendForCycle store sender fee cycle =
      if (creditsOf store cycle sender).spendable fee = 0 then (store, 0)
      else (spendCredits cycle store sender ((creditsOf store cycle sender).spendable fee),
        (creditsOf store cycle sender).spendable fee) := by
  have spendable : fee ≠ 0 → feeCreditSpendableForCycle store sender fee cycle =
      (creditsOf store cycle sender).spendable fee := by
    intro due
    simp only [feeCreditSpendableForCycle, Credits.spendable, tokenomicsFeeCreditsEnabled, due,
      not_true_eq_false, false_or, if_false]
    rfl
  have daily : ∀ v, getFeeCreditDailySpend (setFeeCreditBalanceU64 store sender v) sender =
      getFeeCreditDailySpend store sender := by
    intro v
    rw [getFeeCreditDailySpend, setFeeCreditBalanceU64,
      Store.getState_setState_of_ne _ _ (balanceCredit_ne_dailySpend sender sender),
      getFeeCreditDailySpend]
  unfold applyFeeCreditSpendForCycle
  split
  next free => simp [Credits.spendable, free]
  next due =>
    dsimp only
    rw [spendable due, daily]
    rfl

def refundSender (cycle : UInt64) (store : Store) (fee : UInt64) (sender : PublicKey) : Store :=
  let amount := (creditsOf store cycle sender).spendable fee
  if amount = 0 then store
  else addToBalance (spendCredits cycle store sender amount) sender amount.toInt64

theorem settleStep_eq (cycle : UInt64) (store : Store) (entries : List TransactionEntry) :
    settleStep cycle store entries =
      (groupSender entries).elim store (refundSender cycle store (groupFee entries)) := by
  have free : groupFee entries = 0 →
      (groupSender entries).elim store (refundSender cycle store (groupFee entries)) = store := by
    intro none
    cases groupSender entries with
    | none => rfl
    | some sender => simp [refundSender, none, Credits.spendable]
  by_cases gain : 0 ≤ groupNet entries
  · rw [free (by rw [groupFee, if_pos gain]), settleStep, settleGroup, if_pos gain]
  · have fee : groupFee entries = UInt64.ofNat (min (-groupNet entries).toNat (2 ^ 64 - 1)) := by
      rw [groupFee, if_neg gain]
    by_cases none : groupFee entries = 0
    · rw [free none, settleStep, settleGroup, if_neg gain, ← fee, if_pos none]
    · rw [settleStep, settleGroup, if_neg gain, ← fee, if_neg none]
      cases groupSender entries with
      | none => rfl
      | some sender =>
        dsimp only [Option.elim, refundSender]
        rw [applyFeeCreditSpendForCycle_eq]
        split
        next => rfl
        next spent => rw [if_pos (UInt64.pos_iff_ne_zero.mpr spent)]

/-- Refunding one sender pays only that sender and spends only that sender's credits. -/
theorem refundSender_effect (cycle : UInt64) (store : Store) (fee : UInt64) (sender pk : PublicKey) :
    (refundSender cycle store fee sender).getState (balanceKeyForPubkey pk) =
        balanceRecord (store.getState (balanceKeyForPubkey pk))
          (if sender = pk then (creditsOf store cycle pk).refund fee else []) ∧
      creditsOf (refundSender cycle store fee sender) cycle pk =
        if sender = pk then
          (creditsOf store cycle pk).spend ((creditsOf store cycle pk).spendable fee)
        else creditsOf store cycle pk := by
  have spent : ∀ amount, (spendCredits cycle store sender amount).getState (balanceKeyForPubkey pk) =
      store.getState (balanceKeyForPubkey pk) := by
    intro amount
    have within : WritesWithin [utf8 "feecred:bal:", utf8 "fcd:"] store
        (spendCredits cycle store sender amount) :=
      (WritesWithin.setState store (List.prefix_append (utf8 "feecred:bal:") _) (by simp)).trans
        (.setState _ (List.prefix_append (utf8 "fcd:") _) (by simp))
    exact within.getState_append (by decide) pk.toList
  have paid : ∀ s delta, creditsOf (addToBalance s sender delta) cycle pk = creditsOf s cycle pk :=
    fun s delta => (writesWithin_addToBalance s sender delta).creditsOf (by decide)
      (by decide) cycle pk
  unfold refundSender
  dsimp only
  -- a refund of nothing writes nothing, and spending nothing leaves the credits as they are
  by_cases own : sender = pk
  · subst own
    rw [if_pos rfl, if_pos rfl, Credits.refund]
    split
    next none =>
      rw [none, Credits.spend_zero]
      exact ⟨rfl, rfl⟩
    next =>
      rw [getState_addToBalance, spent, if_pos rfl, paid, creditsOf_spendCredits, if_pos rfl]
      exact ⟨rfl, rfl⟩
  · rw [if_neg own, if_neg own]
    split
    next => exact ⟨rfl, rfl⟩
    next =>
      rw [getState_addToBalance, spent, if_neg own, paid, creditsOf_spendCredits, if_neg own]
      exact ⟨rfl, rfl⟩

/-- Settling one group pays its sender and spends its sender's credits, and nobody else's. -/
theorem settleStep_effect (cycle : UInt64) (store : Store) (entries : List TransactionEntry)
    (pk : PublicKey) :
    (settleStep cycle store entries).getState (balanceKeyForPubkey pk) =
        balanceRecord (store.getState (balanceKeyForPubkey pk))
          (if groupSender entries = some pk then
            (creditsOf store cycle pk).refund (groupFee entries) else []) ∧
      creditsOf (settleStep cycle store entries) cycle pk =
        if groupSender entries = some pk then (creditsOf store cycle pk).spend
          ((creditsOf store cycle pk).spendable (groupFee entries))
        else creditsOf store cycle pk := by
  rw [settleStep_eq]
  cases groupSender entries with
  | none => exact ⟨rfl, rfl⟩
  | some sender =>
    simp only [Option.elim_some, Option.some.injEq]
    exact refundSender_effect cycle store (groupFee entries) sender pk

end CatalystNode
