import CatalystNode.ProtocolTransaction
import CatalystNode.FeeCredits

namespace CatalystNode

open ByteVector HexCodec MachineInt

structure SelectedTx where
  tx : Transaction
  creditSpend : UInt64
  deriving DecidableEq

structure Selection where
  balances : Std.ExtTreeMap PublicKey Int64
  nonces : Std.ExtTreeMap PublicKey UInt64
  feeCreditBalances : Std.ExtTreeMap PublicKey UInt64
  feeCreditSpentToday : Std.ExtTreeMap PublicKey UInt64
  out : List SelectedTx
  usedEntries : Nat

def Selection.start : Selection := ⟨∅, ∅, ∅, ∅, [], 0⟩

structure Choice where
  sender : PublicKey
  deltas : List (PublicKey × Int64)
  feeDue : UInt64
  entryCount : Nat

def Selection.loadNonce (store : Store) (sender : PublicKey) (s : Selection) : Selection :=
  { s with nonces := s.nonces.insertIfNew sender (getNonceU64 store sender) }

/-- Accounts of the transaction are added with balance zero, and then every account whose cached
balance is zero is read from the store, including accounts cached earlier. -/
def preloadBalances (store : Store) (entries : List ProtocolEntry)
    (balances : Std.ExtTreeMap PublicKey Int64) : Std.ExtTreeMap PublicKey Int64 :=
  (entries.foldl (fun m e => m.insertIfNew e.publicKey 0) balances).map (fun pk b =>
    if b = 0 then getBalanceI64 store pk else b)

def entryDeltas : List ProtocolEntry → Option (List (PublicKey × Int64))
  | [] => some []
  | e :: entries =>
    match e.amount with
    | .nonConfidential v => (entryDeltas entries).map ((e.publicKey, v) :: ·)
    | .confidential _ _ => none

/-- The part of a fee left to pay in tokens, after the credits the sender may spend today. -/
def Selection.feeDueTokens (store : Store) (cycle : UInt64) (sender : PublicKey) (fees : UInt64)
    (s : Selection) : Selection × UInt64 :=
  if tokenomicsFeeCreditsEnabled ∧ 0 < fees then
    let bal := s.feeCreditBalances.getD sender (getFeeCreditBalanceU64 store sender)
    let spent := s.feeCreditSpentToday.getD sender
      (spentInBucket (getFeeCreditDailySpend store sender) (feeCreditDayBucket cycle))
    let remaining := saturatingSubU64 tokenomicsFeeCreditsDailySpendCapAtoms spent
    let creditSpend := min (min fees bal) remaining
    ({ s with
        feeCreditBalances := s.feeCreditBalances.insert sender bal
        feeCreditSpentToday := s.feeCreditSpentToday.insert sender spent },
      saturatingSubU64 fees creditSpend)
  else (s, fees)

def feeDelta (sender : PublicKey) (fee : Int64) : List (PublicKey × Int64) :=
  if 0 < fee then [(sender, -fee)] else []

/-- Every delta is compared with the balance before the transaction, not with what earlier deltas of
the same transaction leave. -/
def deltasCovered (balances : Std.ExtTreeMap PublicKey Int64) (deltas : List (PublicKey × Int64)) :
    Bool :=
  deltas.all (fun delta => 0 ≤ saturatingAddI64 (balances.getD delta.1 0) delta.2)

def applyDeltas (balances : Std.ExtTreeMap PublicKey Int64) (deltas : List (PublicKey × Int64)) :
    Std.ExtTreeMap PublicKey Int64 :=
  deltas.foldl (fun m delta => m.insert delta.1 (saturatingAddI64 (m.getD delta.1 0) delta.2))
    balances

def Selection.commit (tx : Transaction) (choice : Choice) (s : Selection) : Selection :=
  let creditSpend := saturatingSubU64 tx.core.fees choice.feeDue
  let charged := tokenomicsFeeCreditsEnabled ∧ choice.feeDue < tx.core.fees
  { balances := applyDeltas s.balances choice.deltas
    nonces := s.nonces.insert choice.sender tx.core.nonce
    feeCreditBalances := if charged then s.feeCreditBalances.insert choice.sender
        (saturatingSubU64 (s.feeCreditBalances.getD choice.sender 0) creditSpend)
      else s.feeCreditBalances
    feeCreditSpentToday := if charged then s.feeCreditSpentToday.insert choice.sender
        (saturatingAddU64 (s.feeCreditSpentToday.getD choice.sender 0) creditSpend)
      else s.feeCreditSpentToday
    out := s.out ++ [⟨tx, creditSpend⟩]
    usedEntries := s.usedEntries + choice.entryCount }

section Loop

variable (env : TxEnv) (store : Store) (cycle nowMs : UInt64) (maxEntries : Nat)

def verifyProtocolTxSignatureWithDomain (tx : Transaction) : Bool :=
  env.verifyTxSignatureWithDomain tx (loadChainIdU64 store) (loadGenesisHash32 store)

def passesFormationChecks (tx : Transaction) : Bool :=
  tx.validateBasic = .ok () ∧ minFee tx ≤ tx.core.fees ∧
    tx.core.lockTime.toUInt64 ≤ nowMs / 1000 ∧
    verifyProtocolTxSignatureWithDomain env store tx

def considerFunds (s : Selection) (tx : Transaction) (sender : PublicKey)
    (entries : List (PublicKey × Int64)) : Selection × Option Choice :=
  let due := s.feeDueTokens store cycle sender tx.core.fees
  match tryI64 due.2 with
  | none => (due.1, none)
  | some fee =>
    let deltas := entries ++ feeDelta sender fee
    let entryCount := (txToConsensusEntries env tx).length
    if ¬deltasCovered due.1.balances deltas then (due.1, none)
    else if maxEntries < due.1.usedEntries + entryCount then (due.1, none)
    else (due.1, some ⟨sender, deltas, due.2, entryCount⟩)

def consider (s : Selection) (tx : Transaction) : Selection × Option Choice :=
  if ¬passesFormationChecks env store nowMs tx then (s, none)
  else match txSenderPubkey tx with
    | none => (s, none)
    | some sender =>
      let s := s.loadNonce store sender
      if tx.core.nonce ≠ saturatingAddU64 (s.nonces.getD sender 0) 1 then (s, none)
      else
        let s := { s with balances := preloadBalances store tx.core.entries s.balances }
        match entryDeltas tx.core.entries with
        | none => (s, none)
        | some entries => considerFunds env store cycle maxEntries s tx sender entries

def selectStep (s : Selection) (tx : Transaction) : Selection :=
  match consider env store cycle nowMs maxEntries s tx with
  | (s, none) => s
  | (s, some choice) => s.commit tx choice

def txSortKey (tx : Transaction) : Hash :=
  ((env.bincodeTx tx).map (hashData env.blake2b512)).getD (zeros 32)

def formationOrder (txs : List Transaction) : List Transaction :=
  txs.insertionSort (fun a b => txSortKey env a ≤ txSortKey env b)

def selectionRun (txs : List Transaction) : Selection :=
  (formationOrder env txs).foldl (selectStep env store cycle nowMs maxEntries) .start

def validateAndSelectProtocolTxsForConstruction (txs : List Transaction) : List Transaction :=
  (selectionRun env store cycle nowMs maxEntries txs).out.map SelectedTx.tx

end Loop

end CatalystNode
