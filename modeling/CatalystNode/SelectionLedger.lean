import CatalystNode.Reselection

namespace CatalystNode

open ByteVector HexCodec MachineInt FoldTrace

/-!
# Selected transactions and the ledger

The loop compares every delta of a transaction with the balance before the transaction, and it reads a
cached zero from the store again. The careful selection below has neither fault: it adds the deltas one
after the other and reads each stored balance once. It overdraws nobody, and the loop selects the same
batch unless the careful selection meets a transaction that only the two faults let through.
-/

/-- What a selected transaction does to an account: its entries, and for the sender the fee less the
credits the selection charged. -/
def ledgerDelta (sel : SelectedTx) (pk : PublicKey) : Int :=
  (sel.tx.core.entries.map (fun e =>
      if e.publicKey = pk then nonConfidentialAmount e.amount else 0)).sum -
    if txSenderPubkey sel.tx = some pk then (sel.tx.core.fees.toNat - sel.creditSpend.toNat : Int)
    else 0

def ledgerAfter (store : Store) (done : List SelectedTx) (pk : PublicKey) : Int :=
  (getBalanceI64 store pk).toInt + (done.map (fun sel => ledgerDelta sel pk)).sum

/-- No account is negative after any number of the selected transactions. -/
def NeverOverdrawn (store : Store) (out : List SelectedTx) : Prop :=
  ∀ done, done <+: out → ∀ pk, 0 ≤ ledgerAfter store done pk

theorem ledgerAfter_concat (store : Store) (done : List SelectedTx) (sel : SelectedTx)
    (pk : PublicKey) :
    ledgerAfter store (done ++ [sel]) pk = ledgerAfter store done pk + ledgerDelta sel pk := by
  simp only [ledgerAfter, List.map_append, List.sum_append, List.map_cons, List.map_nil,
    List.sum_cons, List.sum_nil]
  omega

theorem neverOverdrawn_concat {store : Store} {out : List SelectedTx} {sel : SelectedTx}
    (before : NeverOverdrawn store out) (last : ∀ pk, 0 ≤ ledgerAfter store (out ++ [sel]) pk) :
    NeverOverdrawn store (out ++ [sel]) := by
  intro done hdone pk
  rcases List.prefix_concat_iff.mp hdone with rfl | hdone
  · exact last pk
  · exact before done hdone pk

def netDelta (deltas : List (PublicKey × Int64)) (pk : PublicKey) : Int :=
  (deltas.map (fun d => if d.1 = pk then d.2.toInt else 0)).sum

theorem netDelta_cons (d : PublicKey × Int64) (deltas : List (PublicKey × Int64)) (pk : PublicKey) :
    netDelta (d :: deltas) pk = (if d.1 = pk then d.2.toInt else 0) + netDelta deltas pk := rfl

theorem netDelta_entryDeltas {entries : List ProtocolEntry} {deltas : List (PublicKey × Int64)}
    (h : entryDeltas entries = some deltas) (pk : PublicKey) :
    netDelta deltas pk = (entries.map (fun e =>
      if e.publicKey = pk then nonConfidentialAmount e.amount else 0)).sum := by
  induction entries generalizing deltas with
  | nil =>
    cases Option.some.inj h
    rfl
  | cons e entries ih =>
    rcases e with ⟨account, v | ⟨commitment, proof⟩⟩
    · obtain ⟨rest, hrest, rfl⟩ := Option.map_eq_some_iff.mp h
      rw [netDelta_cons, ih hrest, List.map_cons, List.sum_cons]
      rfl
    · simp [entryDeltas] at h

theorem netDelta_append (deltas more : List (PublicKey × Int64)) (pk : PublicKey) :
    netDelta (deltas ++ more) pk = netDelta deltas pk + netDelta more pk := by
  simp [netDelta]

theorem netDelta_feeDelta {sender : PublicKey} {due : UInt64} {fee : Int64}
    (h : tryI64 due = some fee) (pk : PublicKey) :
    netDelta (feeDelta sender fee) pk = if sender = pk then -(due.toNat : Int) else 0 := by
  obtain ⟨-, value⟩ := tryI64_eq_some h
  have zero : (0 : Int64).toInt = 0 := rfl
  unfold feeDelta
  split
  next =>
    rw [netDelta_cons, toInt_neg_of_nonneg (by omega), value]
    simp [netDelta]
  next free =>
    rw [Int64.not_lt, Int64.le_iff_toInt_le] at free
    have none : due.toNat = 0 := by omega
    simp [netDelta, none]

/-- The deltas the loop simulates add up to what the transaction does to the ledger. -/
theorem Chosen.ledgerDelta_eq {env : TxEnv} {store : Store} {cycle nowMs : UInt64}
    {s s' : Selection} {tx : Transaction} {choice : Choice}
    (facts : Chosen env store cycle nowMs s tx s' choice) (pk : PublicKey) :
    ledgerDelta ⟨tx, saturatingSubU64 tx.core.fees choice.feeDue⟩ pk =
      netDelta choice.deltas pk := by
  obtain ⟨entries, fee, hentries, hfee, hdeltas⟩ := facts.deltas
  have due := (Selection.feeDueTokens_frame facts.due).2.2
  rw [hdeltas, netDelta_append, netDelta_entryDeltas hentries, netDelta_feeDelta hfee, ledgerDelta,
    facts.sender, toNat_saturatingSubU64]
  simp only [Option.some.injEq]
  split <;> omega

section Deltas

variable {f g : PublicKey → Int64} {deltas : List (PublicKey × Int64)}

/-- Applied one after the other, no delta leaves its account negative. -/
def coversInOrder : (PublicKey → Int64) → List (PublicKey × Int64) → Bool
  | _, [] => true
  | f, d :: deltas => 0 ≤ saturatingAddI64 (f d.1) d.2 && coversInOrder (addDelta f d) deltas

theorem toInt_addDelta (f : PublicKey → Int64) (d : PublicKey × Int64) (pk : PublicKey) :
    (addDelta f d pk).toInt = if d.1 = pk then (saturatingAddI64 (f pk) d.2).toInt
      else (f pk).toInt := by
  unfold addDelta
  by_cases own : d.1 = pk
  · rw [if_pos own, ← own, Function.update_self]
  · rw [if_neg own, Function.update_of_ne (Ne.symm own)]

theorem nonneg_addDelta {d : PublicKey × Int64} (funded : ∀ pk, 0 ≤ (f pk).toInt)
    (covered : 0 ≤ saturatingAddI64 (f d.1) d.2) (pk : PublicKey) : 0 ≤ (addDelta f d pk).toInt := by
  rw [toInt_addDelta]
  split
  next own => exact own ▸ Int64.le_iff_toInt_le.mp covered
  next => exact funded pk

theorem nonneg_addDeltas (funded : ∀ pk, 0 ≤ (f pk).toInt) (covered : coversInOrder f deltas)
    (pk : PublicKey) : 0 ≤ (deltas.foldl addDelta f pk).toInt := by
  induction deltas generalizing f with
  | nil => exact funded pk
  | cons d deltas ih =>
    obtain ⟨first, rest⟩ := Bool.and_eq_true_iff.mp covered
    exact ih (nonneg_addDelta funded (of_decide_eq_true first)) rest

/-- Two accounts of the same deltas stay as far apart as they were: where the lower one stays
nonnegative, only the upper end of the range can clamp. -/
theorem addDeltas_between {gap : PublicKey → Int} (funded : ∀ pk, 0 ≤ (f pk).toInt)
    (covered : coversInOrder f deltas)
    (between : ∀ pk, (f pk).toInt ≤ (g pk).toInt ∧ (g pk).toInt ≤ (f pk).toInt + gap pk)
    (pk : PublicKey) :
    (deltas.foldl addDelta f pk).toInt ≤ (deltas.foldl addDelta g pk).toInt ∧
      (deltas.foldl addDelta g pk).toInt ≤ (deltas.foldl addDelta f pk).toInt + gap pk := by
  induction deltas generalizing f g with
  | nil => exact between pk
  | cons d deltas ih =>
    obtain ⟨first, rest⟩ := Bool.and_eq_true_iff.mp covered
    have stays := nonneg_addDelta funded (of_decide_eq_true first)
    refine ih stays rest ?_
    intro k
    have near := between k
    have kept := stays k
    rw [toInt_addDelta] at kept ⊢
    rw [toInt_addDelta]
    split
    next own =>
      rw [if_pos own, toInt_saturatingAddI64] at kept
      rw [toInt_saturatingAddI64, toInt_saturatingAddI64]
      omega
    next => exact near

theorem addDeltas_le (funded : ∀ pk, 0 ≤ (f pk).toInt) (covered : coversInOrder f deltas)
    (pk : PublicKey) : (deltas.foldl addDelta f pk).toInt ≤ (f pk).toInt + netDelta deltas pk := by
  induction deltas generalizing f with
  | nil => simp [netDelta]
  | cons d deltas ih =>
    obtain ⟨first, rest⟩ := Bool.and_eq_true_iff.mp covered
    have stays := nonneg_addDelta funded (of_decide_eq_true first)
    have later := ih stays rest
    have kept := stays pk
    rw [List.foldl_cons, netDelta_cons]
    rw [toInt_addDelta] at later kept
    split at later
    next own =>
      rw [if_pos own, toInt_saturatingAddI64] at kept
      rw [toInt_saturatingAddI64] at later
      rw [if_pos own]
      omega
    next other =>
      rw [if_neg other]
      omega

end Deltas

/-- What the careful selection knows: its balances are the stored ones less what was selected, and it
marks the accounts that a selected transaction left at zero although the store has something. -/
structure CarefulView where
  view : SelectionView
  emptied : PublicKey → Bool

namespace CarefulView

section Machine

variable (env : TxEnv) (store : Store) (nowMs : UInt64) (maxEntries : Nat)

def start (cycle : UInt64) : CarefulView where
  view := {
    balance := getBalanceI64 store
    nonce := getNonceU64 store
    credit := getFeeCreditBalanceU64 store
    spent := fun pk => spentInBucket (getFeeCreditDailySpend store pk) (feeCreditDayBucket cycle)
    usedEntries := 0 }
  emptied := fun _ => false

def choose (c : CarefulView) (tx : Transaction) : Option Choice :=
  (c.view.choose env store nowMs maxEntries tx).filter (fun choice =>
    coversInOrder c.view.balance choice.deltas)

def settle (c : CarefulView) (tx : Transaction) (choice : Choice) : CarefulView :=
  let balance := choice.deltas.foldl addDelta c.view.balance
  { view := { c.view.commit store tx choice with balance }
    emptied := fun pk => c.emptied pk || (balance pk = 0 && getBalanceI64 store pk ≠ 0) }

def step (c : CarefulView) (tx : Transaction) : CarefulView :=
  match c.choose env store nowMs maxEntries tx with
  | none => c
  | some choice => c.settle store tx choice

def lent (c : CarefulView) (pk : PublicKey) : Int64 :=
  if c.emptied pk then getBalanceI64 store pk else 0

/-- The balances of accounts that were emptied, with what the store has for them added once more. -/
def reread (c : CarefulView) : SelectionView :=
  { c.view with balance := fun pk => saturatingAddI64 (c.view.balance pk) (c.lent store pk) }

/-- A transaction that each delta alone would let through, counting what is read again, passes with its
deltas in order and without. -/
def Meets (c : CarefulView) (tx : Transaction) : Prop :=
  ((c.reread store).choose env store nowMs maxEntries tx).isSome →
    (c.choose env store nowMs maxEntries tx).isSome

end Machine

end CarefulView
section Run

variable {env : TxEnv} {store : Store} {cycle nowMs : UInt64} {maxEntries : Nat}
  {s s' : Selection} {c : CarefulView} {tx : Transaction} {choice : Choice}

/-- Balances decide about a transaction only through the check of its deltas. -/
theorem SelectionView.choose_of_covers {v w : SelectionView} (same : v = { w with balance := v.balance })
    (chosen : w.choose env store nowMs maxEntries tx = some choice)
    (covered : v.covers choice.deltas) : v.choose env store nowMs maxEntries tx = some choice := by
  obtain ⟨checked, sent, next, due, count, read, -, room⟩ := choose_eq_some_iff.mp chosen
  rw [same]
  exact choose_eq_some_iff.mpr ⟨checked, sent, next, due, count, read, same ▸ covered, room⟩

theorem SelectionView.choose_mono {v w : SelectionView} (same : w = { v with balance := w.balance })
    (le : ∀ pk, (v.balance pk).toInt ≤ (w.balance pk).toInt)
    (chosen : v.choose env store nowMs maxEntries tx = some choice) :
    w.choose env store nowMs maxEntries tx = some choice := by
  refine choose_of_covers same chosen ?_
  obtain ⟨-, -, -, -, -, -, covered, -⟩ := choose_eq_some_iff.mp chosen
  simp only [covers, List.all_eq_true, decide_eq_true_eq, Int64.le_iff_toInt_le,
    toInt_saturatingAddI64] at covered ⊢
  intro d hd
  have before := covered d hd
  have more := le d.1
  have zero : (0 : Int64).toInt = 0 := rfl
  omega

/-- The loop follows the careful selection: it knows the same, except that it may take the balance of an
emptied account for up to the stored one more. -/
structure Follows (store : Store) (cycle : UInt64) (s : Selection) (c : CarefulView) : Prop where
  same : s.view store cycle = { c.view with balance := (s.view store cycle).balance }
  funded : ∀ pk, 0 ≤ (c.view.balance pk).toInt
  between : ∀ pk, (c.view.balance pk).toInt ≤ ((s.view store cycle).balance pk).toInt ∧
    ((s.view store cycle).balance pk).toInt ≤ (c.view.balance pk).toInt + (c.lent store pk).toInt
  ledger : ∀ pk, (c.view.balance pk).toInt ≤ ledgerAfter store s.out pk
  safe : NeverOverdrawn store s.out

theorem follows_start (funded : ∀ pk, 0 ≤ (getBalanceI64 store pk).toInt) :
    Follows store cycle .start (.start store cycle) := by
  have view : Selection.start.view store cycle = (CarefulView.start store cycle).view := by
    ext pk <;> simp [Selection.view, Selection.start, Selection.cachedNonce, CarefulView.start, refresh]
  refine ⟨view.trans (by rw [view]), funded, ?_, ?_, ?_⟩
  · intro pk
    rw [view]
    exact ⟨le_refl _, (Int.add_zero _).ge⟩
  · intro pk
    simp [ledgerAfter, Selection.start, CarefulView.start]
  · intro done hdone pk
    rw [List.prefix_nil.mp hdone]
    simpa [ledgerAfter] using funded pk

/-- Both selections decide alike about a transaction that meets the condition. -/
theorem Follows.choose_eq (h : Follows store cycle s c)
    (meets : c.Meets env store nowMs maxEntries tx) :
    (s.view store cycle).choose env store nowMs maxEntries tx =
      c.choose env store nowMs maxEntries tx := by
  have careful : ∀ choice, c.choose env store nowMs maxEntries tx = some choice →
      (s.view store cycle).choose env store nowMs maxEntries tx = some choice := by
    intro choice chosen
    exact SelectionView.choose_mono h.same (fun pk => (h.between pk).1)
      (Option.filter_eq_some_iff.mp chosen).1
  cases chosen : (s.view store cycle).choose env store nowMs maxEntries tx with
  | none =>
    cases other : c.choose env store nowMs maxEntries tx with
    | none => rfl
    | some choice => simp [careful choice other] at chosen
  | some choice =>
    have again : (c.reread store).choose env store nowMs maxEntries tx = some choice := by
      refine SelectionView.choose_mono (by rw [h.same]; rfl) ?_ chosen
      intro pk
      have near := (h.between pk).2
      have high := ((s.view store cycle).balance pk).toInt_lt
      have low := ((s.view store cycle).balance pk).le_toInt
      simp only [CarefulView.reread, toInt_saturatingAddI64]
      omega
    obtain ⟨choice', found⟩ := Option.isSome_iff_exists.mp (meets (by rw [again]; rfl))
    rw [found, ← chosen, careful choice' found]

theorem CarefulView.lent_le_settle (funded : ∀ pk, 0 ≤ (getBalanceI64 store pk).toInt)
    (pk : PublicKey) :
    (c.lent store pk).toInt ≤ ((c.settle store tx choice).lent store pk).toInt := by
  unfold lent settle
  cases before : c.emptied pk with
  | true => simp [before]
  | false =>
    rw [if_neg Bool.false_ne_true]
    split
    next => exact funded pk
    next => exact le_refl _

/-- A zero read again is the account's stored balance, which the account is then marked for. -/
theorem CarefulView.refresh_le_settle {pk : PublicKey} (left : (c.settle store tx choice).view.balance pk = 0) :
    (getBalanceI64 store pk).toInt ≤ ((c.settle store tx choice).lent store pk).toInt := by
  have zero : (choice.deltas.foldl addDelta c.view.balance) pk = 0 := left
  unfold lent settle
  by_cases none : getBalanceI64 store pk = 0
  · simp [none]
  · simp [zero, none]

theorem Follows.commit (funded : ∀ pk, 0 ≤ (getBalanceI64 store pk).toInt)
    (h : Follows store cycle s c)
    (selected : consider env store cycle nowMs maxEntries s tx = (s', some choice))
    (careful : c.choose env store nowMs maxEntries tx = some choice) :
    Follows store cycle (s'.commit tx choice) (c.settle store tx choice) := by
  have facts := consider_some selected
  have view := view_commit selected
  have covered : coversInOrder c.view.balance choice.deltas :=
    (Option.filter_eq_some_iff.mp careful).2
  have kept := nonneg_addDeltas h.funded covered
  have out := out_commit selected
  have bound : ∀ pk, ((c.settle store tx choice).view.balance pk).toInt ≤
      ledgerAfter store (s'.commit tx choice).out pk := by
    intro pk
    have before := h.ledger pk
    have added := addDeltas_le h.funded covered pk
    rw [out, ledgerAfter_concat, facts.ledgerDelta_eq]
    exact added.trans (by omega)
  refine ⟨?_, kept, ?_, bound, ?_⟩
  · rw [view, h.same]
    rfl
  · intro pk
    obtain ⟨low, high⟩ := addDeltas_between h.funded covered h.between pk
    have more := @CarefulView.lent_le_settle store c tx choice funded pk
    have seen : ((s'.commit tx choice).view store cycle).balance pk = refresh store pk
        (choice.deltas.foldl addDelta (s.view store cycle).balance pk) := by
      rw [view]
      rfl
    rw [seen, refresh]
    split
    next zero =>
      rw [zero] at low
      have left : (c.settle store tx choice).view.balance pk = 0 :=
        Int64.toInt_inj.mp (le_antisymm low (kept pk))
      rw [left]
      have stored := funded pk
      have again := CarefulView.refresh_le_settle left
      exact ⟨stored, (Int.zero_add _).symm ▸ again⟩
    next => exact ⟨low, high.trans (Int.add_le_add_left more _)⟩
  · rw [out] at bound ⊢
    exact neverOverdrawn_concat h.safe (fun pk => (kept pk).trans (bound pk))

theorem Follows.step (funded : ∀ pk, 0 ≤ (getBalanceI64 store pk).toInt)
    (h : Follows store cycle s c) (meets : c.Meets env store nowMs maxEntries tx) :
    Follows store cycle (selectStep env store cycle nowMs maxEntries s tx)
      (c.step env store nowMs maxEntries tx) := by
  have decided := (consider_snd s tx).trans (h.choose_eq meets)
  have unmoved := @view_consider env store cycle nowMs maxEntries s tx
  unfold selectStep CarefulView.step
  rcases considered : consider env store cycle nowMs maxEntries s tx with ⟨s', _ | choice⟩
  · rw [considered] at decided unmoved
    rw [← decided]
    dsimp only at unmoved ⊢
    have out := consider_out considered
    exact ⟨unmoved ▸ h.same, h.funded, unmoved ▸ h.between, out ▸ h.ledger, out ▸ h.safe⟩
  · rw [considered] at decided
    rw [← decided]
    exact h.commit funded considered decided.symm

theorem Follows.run (funded : ∀ pk, 0 ≤ (getBalanceI64 store pk).toInt)
    (h : Follows store cycle s c) {txs : List Transaction}
    (meets : ∀ p ∈ foldSteps (CarefulView.step env store nowMs maxEntries) c txs,
      p.1.Meets env store nowMs maxEntries p.2) :
    Follows store cycle (txs.foldl (selectStep env store cycle nowMs maxEntries) s)
      (txs.foldl (CarefulView.step env store nowMs maxEntries) c) := by
  induction txs generalizing s c with
  | nil => exact h
  | cons tx txs ih =>
    exact ih (h.step funded (meets (c, tx) List.mem_cons_self))
      (fun p listed => meets p (List.mem_cons_of_mem _ listed))

end Run

/-- With stored balances that are not negative, the loop overdraws nobody if the careful selection from
the same transactions meets none that only a delta compared alone or a balance read again would let
through. -/
theorem selectionRun_neverOverdrawn (env : TxEnv) (store : Store) (cycle nowMs : UInt64)
    (maxEntries : Nat) (txs : List Transaction) (funded : ∀ pk, 0 ≤ (getBalanceI64 store pk).toInt)
    (meets : ∀ p ∈ foldSteps (CarefulView.step env store nowMs maxEntries) (.start store cycle)
      (formationOrder env txs), p.1.Meets env store nowMs maxEntries p.2) :
    NeverOverdrawn store (selectionRun env store cycle nowMs maxEntries txs).out :=
  (follows_start funded |>.run funded meets).safe

theorem funded_setBalanceI64 {pk : PublicKey} {b : Int64} (nonneg : 0 ≤ b.toInt) :
    ∀ pk', 0 ≤ (getBalanceI64 (setBalanceI64 .empty pk b) pk').toInt := by
  intro pk'
  by_cases same : pk = pk'
  · rw [← same, getBalanceI64_setBalanceI64_self]
    exact nonneg
  · rw [getBalanceI64_setBalanceI64_of_ne _ _ same]
    exact le_refl 0

/-- Ten tokens and a fee of three are both taken from a balance of ten, since each is compared with
the balance at the start. A balance of thirteen is spent twice, since the first transfer leaves a
cached zero that the second one reads from the store again. -/
theorem selectionRun_overdrawn :
    (∀ pk, 0 ≤ (getBalanceI64 sampleFunds pk).toInt) ∧
    ledgerAfter sampleFunds (selectionRun sampleTxEnv sampleFunds 7 1000 100
      [sampleTransfer 1 3 [(1, -10), (2, 10)]]).out (sampleAccount 1) = -3 ∧
    ledgerAfter (setBalanceI64 .empty (sampleAccount 1) 13)
      (selectionRun sampleTxEnv (setBalanceI64 .empty (sampleAccount 1) 13) 7 1000 100
        [sampleTransfer 1 3 [(1, -10), (2, 10)], sampleTransfer 2 3 [(1, -10), (2, 10)]]).out
      (sampleAccount 1) = -13 := by
  refine ⟨funded_setBalanceI64 (by decide), ?_, ?_⟩
  · decide +kernel
  · decide +kernel

/-- The first transfer empties account 1, whose next one is below the least fee. A transfer of account 2
pays it back, and the zero that is read again on the way does no harm. -/
theorem selectionRun_neverOverdrawn_emptied :
    (selectionRun sampleTxEnv (setBalanceI64 .empty (sampleAccount 1) 13) 7 1000 100
      [sampleTransfer 1 3 [(1, -10), (2, 10)], sampleTransfer 2 1 [(1, -10), (2, 10)],
        sampleTransfer 1 3 [(2, -5), (1, 5)]]).out.length = 2 ∧
    NeverOverdrawn (setBalanceI64 .empty (sampleAccount 1) 13)
      (selectionRun sampleTxEnv (setBalanceI64 .empty (sampleAccount 1) 13) 7 1000 100
        [sampleTransfer 1 3 [(1, -10), (2, 10)], sampleTransfer 2 1 [(1, -10), (2, 10)],
          sampleTransfer 1 3 [(2, -5), (1, 5)]]).out := by
  refine ⟨by decide +kernel, selectionRun_neverOverdrawn _ _ 7 1000 100 _
    (funded_setBalanceI64 (by decide)) ?_⟩
  unfold CarefulView.Meets
  decide +kernel

end CatalystNode
