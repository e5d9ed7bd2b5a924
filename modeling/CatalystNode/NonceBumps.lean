import CatalystNode.StoreFootprint

namespace CatalystNode

open ByteVector HexCodec MachineInt Store

/-- The account whose nonce a group of entries uses up on the paths that come with proofs: the first
one debited, even if another one is debited after it. -/
def firstDebitSender (entries : List TransactionEntry) : Option PublicKey :=
  ((entries.find? (fun e => e.amount < 0)).map TransactionEntry.publicKey).or
    (((entries.find? (fun e => isWorkerRegMarker e.signature)).map TransactionEntry.publicKey).or
      ((entries.find? (fun e => isEvmMarker e.signature)).map TransactionEntry.publicKey))

def bumpSender (store : Store) : Option PublicKey → Store
  | none => store
  | some pk => setNonceU64 store pk (saturatingAddU64 (getNonceU64 store pk) 1)

def nonceOf (stored : Option Bytes) : UInt64 := (stored.bind decodeU64).getD 0

def nonceRecord (stored : Option Bytes) (uses : Nat) : Option Bytes :=
  if uses = 0 then stored
  else some (encodeU64 (UInt64.ofNat (min (2 ^ 64 - 1) ((nonceOf stored).toNat + uses))))

theorem foldl_bumpNonce (groups : List (List TransactionEntry)) (store : Store) :
    groups.foldl bumpNonce store = (groups.map groupSender).foldl bumpSender store := by
  rw [List.foldl_map]
  rfl

theorem encodeU64_of_decodeU64 {bytes : Bytes} {x : UInt64} (h : decodeU64 bytes = some x) :
    encodeU64 x = bytes := by
  unfold decodeU64 at h
  split at h
  next => simp at h
  next length =>
    rw [not_not] at length
    have bound := ofLeBytes_lt bytes
    rw [length] at bound
    cases Option.some.inj h
    rw [encodeU64, UInt64.toNat_ofNat', Nat.mod_eq_of_lt (lt_of_lt_of_eq bound (by norm_num)),
      ← length, leBytes_ofLeBytes]

theorem nonceKeyForPubkey_inj {a b : PublicKey} (h : nonceKeyForPubkey a = nonceKeyForPubkey b) :
    a = b :=
  Subtype.ext (List.append_cancel_left h)

theorem toNat_ofNat_min (n : Nat) :
    (UInt64.ofNat (min (2 ^ 64 - 1) n)).toNat = min (2 ^ 64 - 1) n := by
  rw [UInt64.toNat_ofNat']
  exact Nat.mod_eq_of_lt (by omega)

theorem nonceOf_some_encodeU64 (x : UInt64) : nonceOf (some (encodeU64 x)) = x := by
  simp [nonceOf, decodeU64_encodeU64]

theorem eq_encodeU64_of_nonceOf_ne_zero {stored : Option Bytes} (h : nonceOf stored ≠ 0) :
    stored = some (encodeU64 (nonceOf stored)) := by
  cases stored with
  | none => exact absurd rfl h
  | some bytes =>
    cases decoded : decodeU64 bytes with
    | none => simp [nonceOf, decoded] at h
    | some x =>
      have value : nonceOf (some bytes) = x := by simp [nonceOf, decoded]
      rw [value, encodeU64_of_decodeU64 decoded]

theorem toNat_nonceOf_nonceRecord (stored : Option Bytes) (uses : Nat) :
    (nonceOf (nonceRecord stored uses)).toNat =
      min (2 ^ 64 - 1) ((nonceOf stored).toNat + uses) := by
  have bound := (nonceOf stored).toNat_lt
  unfold nonceRecord
  split
  next zero => omega
  next => rw [nonceOf_some_encodeU64, toNat_ofNat_min]

theorem nonceRecord_succ (stored : Option Bytes) (uses : Nat) :
    nonceRecord (nonceRecord stored 1) uses = nonceRecord stored (uses + 1) := by
  have first := toNat_nonceOf_nonceRecord stored 1
  cases uses with
  | zero => rfl
  | succ n =>
    rw [nonceRecord, if_neg (by omega), first, nonceRecord, if_neg (by omega),
      show min (2 ^ 64 - 1) (min (2 ^ 64 - 1) ((nonceOf stored).toNat + 1) + (n + 1)) =
        min (2 ^ 64 - 1) ((nonceOf stored).toNat + (n + 1 + 1)) by omega]

/-- Two numbers of uses leave the same record exactly if they agree or both end at the largest
nonce. -/
theorem nonceRecord_eq_iff (stored : Option Bytes) (a b : Nat) :
    nonceRecord stored a = nonceRecord stored b ↔
      a = b ∨ 2 ^ 64 - 1 ≤ (nonceOf stored).toNat + min a b := by
  have bound := (nonceOf stored).toNat_lt
  constructor
  · intro same
    have values := congrArg (fun record => (nonceOf record).toNat) same
    rw [toNat_nonceOf_nonceRecord, toNat_nonceOf_nonceRecord] at values
    omega
  · rintro (rfl | full)
    · rfl
    · have saturated : ∀ uses, min a b ≤ uses →
          nonceRecord stored uses = some (encodeU64 (UInt64.ofNat (2 ^ 64 - 1))) := by
        intro uses above
        unfold nonceRecord
        split
        next zero =>
          have top : nonceOf stored = UInt64.ofNat (2 ^ 64 - 1) := by
            apply UInt64.toNat_inj.mp
            rw [UInt64.toNat_ofNat']
            omega
          rw [← top]
          exact eq_encodeU64_of_nonceOf_ne_zero (by rw [top]; decide)
        next => rw [show min (2 ^ 64 - 1) ((nonceOf stored).toNat + uses) = 2 ^ 64 - 1 by omega]
      rw [saturated a (by omega), saturated b (by omega)]

theorem getState_bumpSender (store : Store) (sender : Option PublicKey) (pk : PublicKey) :
    (bumpSender store sender).getState (nonceKeyForPubkey pk) =
      nonceRecord (store.getState (nonceKeyForPubkey pk)) (if sender = some pk then 1 else 0) := by
  cases sender with
  | none => simp [bumpSender, nonceRecord]
  | some other =>
    simp only [bumpSender, setNonceU64, Option.some.injEq]
    split
    next same =>
      subst same
      rw [Store.getState_setState_self, nonceRecord, if_neg (by decide)]
      rfl
    next different =>
      rw [Store.getState_setState_of_ne _ _ (mt nonceKeyForPubkey_inj different)]
      rfl

theorem getState_bumpSender_of_ne (store : Store) (sender : Option PublicKey) {key : Bytes}
    (other : ∀ pk, key ≠ nonceKeyForPubkey pk) :
    (bumpSender store sender).getState key = store.getState key := by
  cases sender with
  | none => rfl
  | some pk => exact Store.getState_setState_of_ne store _ (other pk).symm

theorem bumpSender_metadata (store : Store) (sender : Option PublicKey) :
    (bumpSender store sender).metadata = store.metadata ∧
      (bumpSender store sender).currentStateRoot = store.currentStateRoot := by
  cases sender with
  | none => exact ⟨rfl, rfl⟩
  | some pk => exact ⟨rfl, rfl⟩

theorem getState_foldl_bumpSender (senders : List (Option PublicKey)) (store : Store)
    (pk : PublicKey) :
    (senders.foldl bumpSender store).getState (nonceKeyForPubkey pk) =
      nonceRecord (store.getState (nonceKeyForPubkey pk)) (senders.count (some pk)) := by
  induction senders generalizing store with
  | nil => rfl
  | cons sender senders ih =>
    rw [List.foldl_cons, ih, getState_bumpSender, List.count_cons]
    split
    next same => rw [nonceRecord_succ, if_pos (by simpa using same)]
    next different =>
      rw [if_neg (by simpa using different)]
      rfl

theorem writesWithin_bumpSender (store : Store) (sender : Option PublicKey) :
    WritesWithin [utf8 "nonce:"] store (bumpSender store sender) := by
  cases sender with
  | none => exact .refl _ store
  | some pk => exact .setState store (List.prefix_append _ _) (List.mem_singleton.mpr rfl)

theorem writesWithin_foldl_bumpSender (store : Store) (senders : List (Option PublicKey)) :
    WritesWithin [utf8 "nonce:"] store (senders.foldl bumpSender store) :=
  .foldl writesWithin_bumpSender store senders

theorem foldl_bumpSender_other (senders : List (Option PublicKey)) (store : Store) :
    (∀ key, (∀ pk, key ≠ nonceKeyForPubkey pk) →
      (senders.foldl bumpSender store).getState key = store.getState key) ∧
    (senders.foldl bumpSender store).metadata = store.metadata ∧
    (senders.foldl bumpSender store).currentStateRoot = store.currentStateRoot := by
  induction senders generalizing store with
  | nil => exact ⟨fun _ _ => rfl, rfl, rfl⟩
  | cons sender senders ih =>
    obtain ⟨records, texts, root⟩ := ih (bumpSender store sender)
    obtain ⟨texts', root'⟩ := bumpSender_metadata store sender
    refine ⟨fun key other => ?_, texts.trans texts', root.trans root'⟩
    rw [List.foldl_cons, records key other, getState_bumpSender_of_ne store sender other]

theorem Store.ext_getState {s t : Store} (records : ∀ key, s.getState key = t.getState key)
    (texts : s.metadata = t.metadata) (root : s.currentStateRoot = t.currentStateRoot) : s = t := by
  have accounts : s.accounts = t.accounts := Std.ExtTreeMap.ext_getElem? (fun key => records key)
  cases s
  cases t
  cases accounts
  cases texts
  cases root
  rfl

/-- Two ways of naming senders leave the same store exactly if they use up the nonces of every
account alike. -/
theorem foldl_bumpSender_eq_iff (senders senders' : List (Option PublicKey)) (store : Store) :
    senders.foldl bumpSender store = senders'.foldl bumpSender store ↔
      ∀ pk, senders.count (some pk) = senders'.count (some pk) ∨
        2 ^ 64 - 1 ≤ (getNonceU64 store pk).toNat +
          min (senders.count (some pk)) (senders'.count (some pk)) := by
  obtain ⟨records, texts, root⟩ := foldl_bumpSender_other senders store
  obtain ⟨records', texts', root'⟩ := foldl_bumpSender_other senders' store
  constructor
  · intro same pk
    apply (nonceRecord_eq_iff (store.getState (nonceKeyForPubkey pk)) _ _).mp
    rw [← getState_foldl_bumpSender, ← getState_foldl_bumpSender, same]
  · intro alike
    refine Store.ext_getState (fun key => ?_) (texts.trans texts'.symm) (root.trans root'.symm)
    by_cases nonce : ∃ pk, key = nonceKeyForPubkey pk
    · obtain ⟨pk, rfl⟩ := nonce
      rw [getState_foldl_bumpSender, getState_foldl_bumpSender]
      exact (nonceRecord_eq_iff _ _ _).mpr (alike pk)
    · rw [not_exists] at nonce
      rw [records key nonce, records' key nonce]

end CatalystNode
