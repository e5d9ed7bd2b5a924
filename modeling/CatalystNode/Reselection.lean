import CatalystNode.Sift
import CatalystNode.SelectionNonces
import CatalystNode.SelectionValue
import Mathlib.Data.List.Sort

namespace CatalystNode

open ByteVector HexCodec MachineInt Sift

/-!
# Selecting again from what was selected

The caches of the selection loop are also written for transactions that are then rejected. What the
loop decides depends on less: on what each cache stands for once the store is read behind it. That view
of the caches is a small machine of its own, and a rejected transaction does not move it.
-/

/-- What the caches of the loop stand for. -/
@[ext]
structure SelectionView where
  balance : PublicKey → Int64
  nonce : PublicKey → UInt64
  credit : PublicKey → UInt64
  spent : PublicKey → UInt64
  usedEntries : Nat

/-- A cached balance of zero is read again before it is used. -/
def refresh (store : Store) (pk : PublicKey) (b : Int64) : Int64 :=
  if b = 0 then getBalanceI64 store pk else b

theorem refresh_refresh (store : Store) (pk : PublicKey) (b : Int64) :
    refresh store pk (refresh store pk b) = refresh store pk b := by
  unfold refresh
  split
  next => split <;> rfl
  next => rfl

def Selection.view (store : Store) (cycle : UInt64) (s : Selection) : SelectionView where
  balance := fun pk => refresh store pk (s.balances.getD pk 0)
  nonce := s.cachedNonce store
  credit := fun pk => s.feeCreditBalances.getD pk (getFeeCreditBalanceU64 store pk)
  spent := fun pk => s.feeCreditSpentToday.getD pk
    (spentInBucket (getFeeCreditDailySpend store pk) (feeCreditDayBucket cycle))
  usedEntries := s.usedEntries

def addDelta (f : PublicKey → Int64) (d : PublicKey × Int64) : PublicKey → Int64 :=
  Function.update f d.1 (saturatingAddI64 (f d.1) d.2)

namespace SelectionView

def creditSpend (v : SelectionView) (sender : PublicKey) (fees : UInt64) : UInt64 :=
  min (min fees (v.credit sender))
    (saturatingSubU64 tokenomicsFeeCreditsDailySpendCapAtoms (v.spent sender))

def feeDue (v : SelectionView) (sender : PublicKey) (fees : UInt64) : UInt64 :=
  if tokenomicsFeeCreditsEnabled ∧ 0 < fees then saturatingSubU64 fees (v.creditSpend sender fees)
  else fees

def covers (v : SelectionView) (deltas : List (PublicKey × Int64)) : Bool :=
  deltas.all (fun delta => 0 ≤ saturatingAddI64 (v.balance delta.1) delta.2)

section Machine

variable (env : TxEnv) (store : Store) (nowMs : UInt64) (maxEntries : Nat)

def chooseFunds (v : SelectionView) (tx : Transaction) (sender : PublicKey)
    (entries : List (PublicKey × Int64)) : Option Choice :=
  let due := v.feeDue sender tx.core.fees
  match tryI64 due with
  | none => none
  | some fee =>
    let deltas := entries ++ feeDelta sender fee
    let entryCount := (txToConsensusEntries env tx).length
    if ¬v.covers deltas then none
    else if maxEntries < v.usedEntries + entryCount then none
    else some ⟨sender, deltas, due, entryCount⟩

def choose (v : SelectionView) (tx : Transaction) : Option Choice :=
  if ¬passesFormationChecks env store nowMs tx then none
  else match txSenderPubkey tx with
    | none => none
    | some sender =>
      if tx.core.nonce ≠ saturatingAddU64 (v.nonce sender) 1 then none
      else match entryDeltas tx.core.entries with
        | none => none
        | some entries => chooseFunds env maxEntries v tx sender entries

def commit (v : SelectionView) (tx : Transaction) (choice : Choice) : SelectionView :=
  let spend := saturatingSubU64 tx.core.fees choice.feeDue
  let charged := tokenomicsFeeCreditsEnabled ∧ choice.feeDue < tx.core.fees
  { balance := fun pk => refresh store pk (choice.deltas.foldl addDelta v.balance pk)
    nonce := Function.update v.nonce choice.sender tx.core.nonce
    credit := if charged then Function.update v.credit choice.sender
      (saturatingSubU64 (v.credit choice.sender) spend) else v.credit
    spent := if charged then Function.update v.spent choice.sender
      (saturatingAddU64 (v.spent choice.sender) spend) else v.spent
    usedEntries := v.usedEntries + choice.entryCount }

def step (v : SelectionView) (tx : Transaction) : SelectionView × Bool :=
  match v.choose env store nowMs maxEntries tx with
  | none => (v, false)
  | some choice => (v.commit store tx choice, true)

end Machine

end SelectionView

section Refinement

variable {env : TxEnv} {store : Store} {cycle nowMs : UInt64} {maxEntries : Nat}
  {s s' : Selection} {tx : Transaction} {choice : Choice}

theorem getD_preloadBalances {entries : List ProtocolEntry} {balances : BalanceMap}
    {e : ProtocolEntry} (he : e ∈ entries) :
    (preloadBalances store entries balances).getD e.publicKey 0 =
      refresh store e.publicKey (balances.getD e.publicKey 0) := by
  rw [Std.ExtTreeMap.getD_eq_getD_getElem?, Std.ExtTreeMap.getD_eq_getD_getElem?, preloadBalances,
    Std.ExtTreeMap.getElem?_map, getElem?_seeded]
  by_cases cached : e.publicKey ∈ balances
  · simp [cached, refresh]
  · have absent : balances[e.publicKey]? = none := Std.ExtTreeMap.getElem?_eq_none cached
    rw [if_pos ⟨cached, e, he, rfl⟩, absent]
    rfl

/-- Reading zero balances from the store again changes nothing that will be read later. -/
theorem refresh_preloadBalances (entries : List ProtocolEntry) (balances : BalanceMap)
    (pk : PublicKey) :
    refresh store pk ((preloadBalances store entries balances).getD pk 0) =
      refresh store pk (balances.getD pk 0) := by
  by_cases listed : ∃ e ∈ entries, e.publicKey = pk
  · obtain ⟨e, he, rfl⟩ := listed
    rw [getD_preloadBalances he, refresh_refresh]
  · rw [Std.ExtTreeMap.getD_eq_getD_getElem?, Std.ExtTreeMap.getD_eq_getD_getElem?, preloadBalances,
      Std.ExtTreeMap.getElem?_map, getElem?_seeded, if_neg (fun h => listed h.2)]
    cases balances[pk]? with
    | none => rfl
    | some b => exact refresh_refresh store pk b

theorem view_loadNonce (sender : PublicKey) (s : Selection) :
    (s.loadNonce store sender).view store cycle = s.view store cycle := by
  ext pk
  · rfl
  · exact congrArg _ (cachedNonce_loadNonce store sender pk s)
  · rfl
  · rfl
  · rfl

theorem view_preload (entries : List ProtocolEntry) (s : Selection) :
    ({ s with balances := preloadBalances store entries s.balances } : Selection).view store cycle =
      s.view store cycle := by
  ext pk
  · exact refresh_preloadBalances entries s.balances pk
  · rfl
  · rfl
  · rfl
  · rfl

theorem getD_insert_getD {V : Type} (m : Std.ExtTreeMap PublicKey V) (pk pk' : PublicKey)
    (fallback : PublicKey → V) :
    (m.insert pk (m.getD pk (fallback pk))).getD pk' (fallback pk') = m.getD pk' (fallback pk') := by
  rw [Std.ExtTreeMap.getD_insert]
  split
  next same =>
    cases Std.LawfulEqCmp.compare_eq_iff_eq.mp same
    rfl
  next => rfl

theorem feeDueTokens_snd (sender : PublicKey) (fees : UInt64) (s : Selection) :
    (s.feeDueTokens store cycle sender fees).2 = (s.view store cycle).feeDue sender fees := by
  unfold Selection.feeDueTokens SelectionView.feeDue
  split <;> rfl

theorem view_feeDueTokens (sender : PublicKey) (fees : UInt64) (s : Selection) :
    (s.feeDueTokens store cycle sender fees).1.view store cycle = s.view store cycle := by
  unfold Selection.feeDueTokens
  split
  next =>
    ext pk
    · rfl
    · rfl
    · exact congrArg _ (getD_insert_getD s.feeCreditBalances sender pk (getFeeCreditBalanceU64 store))
    · exact congrArg _ (getD_insert_getD s.feeCreditSpentToday sender pk (fun pk =>
        spentInBucket (getFeeCreditDailySpend store pk) (feeCreditDayBucket cycle)))
    · rfl
  next => rfl

theorem view_considerFunds (sender : PublicKey) (entries : List (PublicKey × Int64)) :
    (considerFunds env store cycle maxEntries s tx sender entries).1.view store cycle =
      s.view store cycle := by
  have due := @view_feeDueTokens store cycle sender tx.core.fees s
  unfold considerFunds
  dsimp only
  split
  next => exact due
  next =>
    split
    next => exact due
    next => split <;> exact due

/-- The checks of a transaction write caches, but nothing that a later decision depends on. -/
theorem view_consider (s : Selection) (tx : Transaction) :
    (consider env store cycle nowMs maxEntries s tx).1.view store cycle = s.view store cycle := by
  unfold consider
  split
  next => rfl
  next =>
    cases txSenderPubkey tx with
    | none => rfl
    | some sender =>
      have loaded := @view_loadNonce store cycle sender s
      dsimp only
      split
      next => exact loaded
      next =>
        have preloaded := @view_preload store cycle tx.core.entries (s.loadNonce store sender)
        rw [loaded] at preloaded
        cases entryDeltas tx.core.entries with
        | none => exact preloaded
        | some entries =>
          dsimp only
          rw [view_considerFunds, preloaded]

def Preloaded (store : Store) (tx : Transaction) (s : Selection) : Prop :=
  ∀ e ∈ tx.core.entries,
    s.balances.getD e.publicKey 0 = refresh store e.publicKey (s.balances.getD e.publicKey 0)

theorem preloaded_preload (s : Selection) (tx : Transaction) :
    Preloaded store tx
      ({ s with balances := preloadBalances store tx.core.entries s.balances } : Selection) := by
  intro e he
  dsimp only
  rw [getD_preloadBalances he, refresh_refresh]

theorem deltas_listed {sender : PublicKey} {entries : List (PublicKey × Int64)} {fee : Int64}
    (hsender : txSenderPubkey tx = some sender)
    (hentries : entryDeltas tx.core.entries = some entries) :
    ∀ d ∈ entries ++ feeDelta sender fee, ∃ e ∈ tx.core.entries, e.publicKey = d.1 := by
  intro d hd
  rcases List.mem_append.mp hd with hd | hd
  · exact mem_entryDeltas hentries hd
  · unfold feeDelta at hd
    split at hd
    next =>
      cases List.mem_singleton.mp hd
      exact txSenderPubkey_mem hsender
    next => simp at hd

theorem deltasCovered_eq_covers {deltas : List (PublicKey × Int64)} (ready : Preloaded store tx s)
    (listed : ∀ d ∈ deltas, ∃ e ∈ tx.core.entries, e.publicKey = d.1) :
    deltasCovered s.balances deltas = (s.view store cycle).covers deltas := by
  unfold deltasCovered SelectionView.covers
  rw [Bool.eq_iff_iff, List.all_eq_true, List.all_eq_true]
  refine forall₂_congr fun d hd => ?_
  obtain ⟨e, he, same⟩ := listed d hd
  have read : s.balances.getD d.1 0 = (s.view store cycle).balance d.1 := same ▸ ready e he
  rw [read]

theorem considerFunds_snd {sender : PublicKey} {entries : List (PublicKey × Int64)}
    (ready : Preloaded store tx s) (hsender : txSenderPubkey tx = some sender)
    (hentries : entryDeltas tx.core.entries = some entries) :
    (considerFunds env store cycle maxEntries s tx sender entries).2 =
      (s.view store cycle).chooseFunds env maxEntries tx sender entries := by
  have view := @view_feeDueTokens store cycle sender tx.core.fees s
  have due := @feeDueTokens_snd store cycle sender tx.core.fees s
  have ready' : Preloaded store tx (s.feeDueTokens store cycle sender tx.core.fees).1 := by
    have frame := Selection.feeDueTokens_frame
      (Prod.mk.eta (p := s.feeDueTokens store cycle sender tx.core.fees)).symm
    unfold Preloaded
    rw [frame.1]
    exact ready
  have used : (s.feeDueTokens store cycle sender tx.core.fees).1.usedEntries =
      (s.view store cycle).usedEntries := congrArg SelectionView.usedEntries view
  unfold considerFunds SelectionView.chooseFunds
  dsimp only
  rw [due]
  cases hfee : tryI64 ((s.view store cycle).feeDue sender tx.core.fees) with
  | none => rfl
  | some fee =>
    dsimp only
    rw [deltasCovered_eq_covers ready' (deltas_listed hsender hentries), view, used]
    split
    next => rfl
    next => split <;> rfl

/-- What the loop decides about a transaction is read off the view. -/
theorem consider_snd (s : Selection) (tx : Transaction) :
    (consider env store cycle nowMs maxEntries s tx).2 =
      (s.view store cycle).choose env store nowMs maxEntries tx := by
  unfold consider SelectionView.choose
  split
  next => rfl
  next =>
    cases hsender : txSenderPubkey tx with
    | none => rfl
    | some sender =>
      have nonce : (s.loadNonce store sender).nonces.getD sender 0 =
          (s.view store cycle).nonce sender := getD_loadNonce store sender s 0
      dsimp only
      rw [nonce]
      split
      next => rfl
      next =>
        cases hentries : entryDeltas tx.core.entries with
        | none => rfl
        | some entries =>
          dsimp only
          rw [considerFunds_snd (preloaded_preload _ tx) hsender hentries, view_preload,
            view_loadNonce]

theorem getD_applyDeltas {deltas : List (PublicKey × Int64)} {balances : BalanceMap}
    {f : PublicKey → Int64} {pk : PublicKey} (same : balances.getD pk 0 = f pk)
    (listed : ∀ d ∈ deltas, balances.getD d.1 0 = f d.1) :
    (applyDeltas balances deltas).getD pk 0 = deltas.foldl addDelta f pk := by
  induction deltas generalizing balances f with
  | nil => exact same
  | cons d deltas ih =>
    have first := listed d List.mem_cons_self
    -- after the first delta the two sides still agree wherever they agreed before
    have next : ∀ k, balances.getD k 0 = f k →
        (balances.insert d.1 (saturatingAddI64 (balances.getD d.1 0) d.2)).getD k 0 =
          addDelta f d k := by
      intro k agree
      rw [Std.ExtTreeMap.getD_insert, addDelta, Function.update_apply, first]
      by_cases own : d.1 = k
      · rw [if_pos (Std.LawfulEqCmp.compare_eq_iff_eq.mpr own), if_pos own.symm]
      · rw [if_neg (fun h => own (Std.LawfulEqCmp.compare_eq_iff_eq.mp h)),
          if_neg (fun h => own h.symm), agree]
    exact ih (next pk same) (fun d' hd' => next d'.1 (listed d' (List.mem_cons_of_mem _ hd')))

theorem foldl_addDelta_of_not_listed {deltas : List (PublicKey × Int64)} {f : PublicKey → Int64}
    {pk : PublicKey} (absent : ∀ d ∈ deltas, d.1 ≠ pk) : deltas.foldl addDelta f pk = f pk := by
  induction deltas generalizing f with
  | nil => rfl
  | cons d deltas ih =>
    rw [List.foldl_cons, ih (fun d' hd' => absent d' (List.mem_cons_of_mem _ hd')), addDelta,
      Function.update_of_ne (absent d List.mem_cons_self).symm]

/-- The fee of a chosen transaction was worked out on caches that show the same view. -/
theorem consider_due (h : consider env store cycle nowMs maxEntries s tx = (s', some choice)) :
    ∃ s₁ : Selection, s₁.view store cycle = s.view store cycle ∧
      s₁.feeDueTokens store cycle choice.sender tx.core.fees = (s', choice.feeDue) :=
  ⟨_, (view_preload tx.core.entries _).trans (view_loadNonce choice.sender s), (consider_some h).due⟩

/-- When credits pay part of a fee, the sender's credit records are in the caches. -/
theorem feeDueTokens_loaded {sender : PublicKey} {fees due : UInt64}
    (h : s.feeDueTokens store cycle sender fees = (s', due)) (charged : due < fees) :
    s'.feeCreditBalances.getD sender 0 = (s.view store cycle).credit sender ∧
      s'.feeCreditSpentToday.getD sender 0 = (s.view store cycle).spent sender := by
  unfold Selection.feeDueTokens at h
  split at h
  next =>
    cases h
    exact ⟨Std.ExtTreeMap.getD_insert_self, Std.ExtTreeMap.getD_insert_self⟩
  next =>
    cases h
    exact absurd charged (UInt64.lt_irrefl _)

theorem getD_charged {m : Std.ExtTreeMap PublicKey UInt64} {fallback f : PublicKey → UInt64}
    {sender : PublicKey} {charged : Prop} [Decidable charged]
    (records : (fun pk => m.getD pk (fallback pk)) = f)
    (loaded : charged → m.getD sender 0 = f sender) (g : UInt64 → UInt64) :
    (fun pk => (if charged then m.insert sender (g (m.getD sender 0)) else m).getD pk
      (fallback pk)) = if charged then Function.update f sender (g (f sender)) else f := by
  split
  next paid =>
    funext pk
    rw [loaded paid, Std.ExtTreeMap.getD_insert, Function.update_apply, ← records]
    simp only [Std.LawfulEqCmp.compare_eq_iff_eq, eq_comm (a := pk)]
  next => exact records

theorem refresh_applyDeltas {v : SelectionView} (view : s.view store cycle = v)
    (ready : Preloaded store tx s) {deltas : List (PublicKey × Int64)}
    (listed : ∀ d ∈ deltas, ∃ e ∈ tx.core.entries, e.publicKey = d.1) (pk : PublicKey) :
    refresh store pk ((applyDeltas s.balances deltas).getD pk 0) =
      refresh store pk (deltas.foldl addDelta v.balance pk) := by
  subst view
  have read : ∀ k, (∃ e ∈ tx.core.entries, e.publicKey = k) →
      s.balances.getD k 0 = (s.view store cycle).balance k := by
    rintro k ⟨e, he, rfl⟩
    exact ready e he
  by_cases own : ∃ e ∈ tx.core.entries, e.publicKey = pk
  · rw [getD_applyDeltas (read pk own) (fun d hd => read d.1 (listed d hd))]
  · have absent : ∀ d ∈ deltas, d.1 ≠ pk := fun d hd same => own (same ▸ listed d hd)
    have kept := @getD_applyDeltas deltas s.balances (fun k => s.balances.getD k 0) pk rfl
      (fun _ _ => rfl)
    rw [kept, foldl_addDelta_of_not_listed absent, foldl_addDelta_of_not_listed absent]
    exact (refresh_refresh store pk _).symm

/-- A selected transaction moves the view as the view itself says. -/
theorem view_commit (h : consider env store cycle nowMs maxEntries s tx = (s', some choice)) :
    (s'.commit tx choice).view store cycle = (s.view store cycle).commit store tx choice := by
  have facts := consider_some h
  have view : s'.view store cycle = s.view store cycle := by
    have unmoved := @view_consider env store cycle nowMs maxEntries s tx
    rwa [h] at unmoved
  have ready : Preloaded store tx s' := by
    unfold Preloaded
    rw [(Selection.feeDueTokens_frame facts.due).1]
    exact preloaded_preload s tx
  have listed : ∀ d ∈ choice.deltas, ∃ e ∈ tx.core.entries, e.publicKey = d.1 := by
    obtain ⟨entries, fee, hentries, -, deltas⟩ := facts.deltas
    rw [deltas]
    exact deltas_listed facts.sender hentries
  have loaded : choice.feeDue < tx.core.fees →
      s'.feeCreditBalances.getD choice.sender 0 = (s.view store cycle).credit choice.sender ∧
        s'.feeCreditSpentToday.getD choice.sender 0 = (s.view store cycle).spent choice.sender := by
    intro charged
    obtain ⟨s₁, same, due⟩ := consider_due h
    rw [← same]
    exact feeDueTokens_loaded due charged
  refine SelectionView.ext ?_ ?_ ?_ ?_ ?_
  · funext pk
    exact refresh_applyDeltas view ready listed pk
  · funext pk
    have cached : s'.cachedNonce store pk = (s.view store cycle).nonce pk :=
      congrFun (congrArg SelectionView.nonce view) pk
    dsimp only [Selection.view, SelectionView.commit]
    rw [cachedNonce_commit, cached, Function.update_apply]
    simp only [eq_comm (a := pk)]
    rfl
  · exact getD_charged (congrArg SelectionView.credit view) (fun charged => (loaded charged.2).1)
      (fun credit => saturatingSubU64 credit (saturatingSubU64 tx.core.fees choice.feeDue))
  · exact getD_charged (congrArg SelectionView.spent view) (fun charged => (loaded charged.2).2)
      (fun spent => saturatingAddU64 spent (saturatingSubU64 tx.core.fees choice.feeDue))
  · exact congrArg (· + choice.entryCount) (congrArg SelectionView.usedEntries view)

/-- The loop refines the machine on views: it selects what the machine selects. -/
theorem selectStep_refines (s : Selection) (tx : Transaction) :
    (selectStep env store cycle nowMs maxEntries s tx).view store cycle =
        ((s.view store cycle).step env store nowMs maxEntries tx).1 ∧
      (selectStep env store cycle nowMs maxEntries s tx).out.map SelectedTx.tx =
        s.out.map SelectedTx.tx ++
          if ((s.view store cycle).step env store nowMs maxEntries tx).2 then [tx] else [] := by
  have decided := @consider_snd env store cycle nowMs maxEntries s tx
  have unmoved := @view_consider env store cycle nowMs maxEntries s tx
  unfold selectStep SelectionView.step
  rcases considered : consider env store cycle nowMs maxEntries s tx with ⟨s', _ | choice⟩
  · rw [considered] at decided unmoved
    rw [← decided]
    refine ⟨unmoved, ?_⟩
    simp [consider_out considered]
  · rw [considered] at decided
    rw [← decided]
    refine ⟨view_commit considered, ?_⟩
    simp [out_commit considered]

theorem foldl_selectStep_out (s : Selection) (txs : List Transaction) :
    (txs.foldl (selectStep env store cycle nowMs maxEntries) s).out.map SelectedTx.tx =
      s.out.map SelectedTx.tx ++
        sift (SelectionView.step env store nowMs maxEntries) (s.view store cycle) txs := by
  induction txs generalizing s with
  | nil => simp [sift]
  | cons tx txs ih =>
    obtain ⟨view, out⟩ := @selectStep_refines env store cycle nowMs maxEntries s tx
    rw [List.foldl_cons, ih, view, out, sift]
    split <;> simp

theorem select_eq_sift (txs : List Transaction) :
    validateAndSelectProtocolTxsForConstruction env store cycle nowMs maxEntries txs =
      sift (SelectionView.step env store nowMs maxEntries) (Selection.start.view store cycle)
        (formationOrder env txs) :=
  foldl_selectStep_out .start (formationOrder env txs)

end Refinement

section Orders

variable {env : TxEnv}

theorem formationOrder_sorted (txs : List Transaction) :
    (formationOrder env txs).Pairwise (fun a b => txSortKey env a ≤ txSortKey env b) := by
  have total : Std.Total (fun a b : Transaction => txSortKey env a ≤ txSortKey env b) :=
    ⟨fun a b => le_total _ _⟩
  have trans : IsTrans Transaction (fun a b => txSortKey env a ≤ txSortKey env b) :=
    ⟨fun _ _ _ => le_trans⟩
  exact List.pairwise_insertionSort _ txs

theorem formationOrder_perm {txs txs' : List Transaction}
    (injective : Set.InjOn (txSortKey env) {tx | tx ∈ txs}) (same : txs'.Perm txs) :
    formationOrder env txs' = formationOrder env txs := by
  have order : (formationOrder env txs').Perm (formationOrder env txs) :=
    ((List.perm_insertionSort _ txs').trans same).trans (List.perm_insertionSort _ txs).symm
  refine order.eq_of_pairwise ?_ (formationOrder_sorted txs') (formationOrder_sorted txs)
  intro a b ha hb le ge
  have listed : ∀ tx ∈ formationOrder env txs, tx ∈ txs := fun tx h => (List.mem_insertionSort _).mp h
  exact injective (listed a (order.mem_iff.mp ha)) (listed b hb) (le_antisymm le ge)

end Orders

theorem SelectionView.choose_eq_some_iff {env : TxEnv} {store : Store} {nowMs : UInt64}
    {maxEntries : Nat} {v : SelectionView} {tx : Transaction} {choice : Choice} :
    v.choose env store nowMs maxEntries tx = some choice ↔
      passesFormationChecks env store nowMs tx = true ∧ txSenderPubkey tx = some choice.sender ∧
        tx.core.nonce = saturatingAddU64 (v.nonce choice.sender) 1 ∧
        choice.feeDue = v.feeDue choice.sender tx.core.fees ∧
        choice.entryCount = (txToConsensusEntries env tx).length ∧
        (∃ entries fee, entryDeltas tx.core.entries = some entries ∧
          tryI64 choice.feeDue = some fee ∧
          choice.deltas = entries ++ feeDelta choice.sender fee) ∧
        v.covers choice.deltas = true ∧ v.usedEntries + choice.entryCount ≤ maxEntries := by
  rcases choice with ⟨sender, deltas, due, count⟩
  unfold choose chooseFunds
  dsimp only
  constructor
  · intro chosen
    split at chosen
    next => simp at chosen
    next checked =>
      split at chosen
      next => simp at chosen
      next sent =>
        split at chosen
        next => simp at chosen
        next next =>
          split at chosen
          next => simp at chosen
          next entries read =>
            split at chosen
            next => simp at chosen
            next fee fits =>
              split at chosen
              next => simp at chosen
              next covered =>
                split at chosen
                next => simp at chosen
                next room =>
                  cases chosen
                  exact ⟨not_not.mp checked, sent, not_not.mp next, rfl, rfl,
                    ⟨entries, fee, read, fits, rfl⟩, not_not.mp covered, Nat.not_lt.mp room⟩
  · rintro ⟨checked, sent, next, rfl, rfl, ⟨entries, fee, read, fits, rfl⟩, covered, room⟩
    simp [checked, sent, next, read, fits, covered, Nat.not_lt.mpr room]

theorem choose_later {env : TxEnv} {store : Store} {nowMs nowMs' : UInt64} {maxEntries : Nat}
    {v : SelectionView} {tx : Transaction} {choice : Choice} (later : nowMs ≤ nowMs')
    (chosen : v.choose env store nowMs maxEntries tx = some choice) :
    v.choose env store nowMs' maxEntries tx = some choice := by
  have unlocked : nowMs / 1000 ≤ nowMs' / 1000 := by
    rw [UInt64.le_iff_toNat_le, UInt64.toNat_div, UInt64.toNat_div]
    exact Nat.div_le_div_right (UInt64.le_iff_toNat_le.mp later)
  obtain ⟨passed, rest⟩ := SelectionView.choose_eq_some_iff.mp chosen
  have passes : passesFormationChecks env store nowMs' tx = true := by
    simp only [passesFormationChecks, decide_eq_true_eq] at passed ⊢
    exact ⟨passed.1, passed.2.1, UInt64.le_trans passed.2.2.1 unlocked, passed.2.2.2⟩
  exact SelectionView.choose_eq_some_iff.mpr ⟨passes, rest⟩

theorem select_select {env : TxEnv} {store : Store} {cycle nowMs nowMs' : UInt64} {maxEntries : Nat}
    (later : nowMs ≤ nowMs') (txs : List Transaction) :
    validateAndSelectProtocolTxsForConstruction env store cycle nowMs' maxEntries
        (validateAndSelectProtocolTxsForConstruction env store cycle nowMs maxEntries txs) =
      validateAndSelectProtocolTxsForConstruction env store cycle nowMs maxEntries txs := by
  have kept := @select_eq_sift env store cycle nowMs maxEntries txs
  have sorted : (validateAndSelectProtocolTxsForConstruction env store cycle nowMs maxEntries
      txs).Pairwise (fun a b => txSortKey env a ≤ txSortKey env b) := by
    rw [kept]
    exact (formationOrder_sorted txs).sublist (sift_sublist _ _ _)
  have order : formationOrder env (validateAndSelectProtocolTxsForConstruction env store cycle nowMs
      maxEntries txs) = validateAndSelectProtocolTxsForConstruction env store cycle nowMs
      maxEntries txs := sorted.insertionSort_eq
  rw [select_eq_sift, order, kept]
  -- the same view on both sides: a dropped transaction leaves it, a kept one moves both alike
  refine sift_sift (R := fun v w => v = w) ?_ ?_ rfl _
  · rintro v w tx rfl dropped
    unfold SelectionView.step at dropped ⊢
    cases chosen : v.choose env store nowMs maxEntries tx with
    | none => rfl
    | some choice => simp [chosen] at dropped
  · rintro v w tx rfl selected
    unfold SelectionView.step at selected ⊢
    cases chosen : v.choose env store nowMs maxEntries tx with
    | none => simp [chosen] at selected
    | some choice =>
      rw [choose_later later chosen]
      exact ⟨rfl, rfl⟩

/-- Selecting from a selected list, at the same time or later, selects all of it in the same order,
and the order in which transactions are offered does not matter. -/
theorem reselect_selected (env : TxEnv) (store : Store) (cycle nowMs nowMs' : UInt64)
    (maxEntries : Nat) (txs : List Transaction)
    (injective : Set.InjOn (txSortKey env) {tx | tx ∈ txs}) (later : nowMs ≤ nowMs') :
    validateAndSelectProtocolTxsForConstruction env store cycle nowMs' maxEntries
        (validateAndSelectProtocolTxsForConstruction env store cycle nowMs maxEntries txs) =
      validateAndSelectProtocolTxsForConstruction env store cycle nowMs maxEntries txs ∧
    ∀ txs', txs'.Perm txs →
      validateAndSelectProtocolTxsForConstruction env store cycle nowMs maxEntries txs' =
        validateAndSelectProtocolTxsForConstruction env store cycle nowMs maxEntries txs := by
  refine ⟨select_select later txs, ?_⟩
  intro txs' same
  rw [select_eq_sift, select_eq_sift, formationOrder_perm injective same]

/-- Of three transfers of account 1 the first two nonces are selected, and selected again later. -/
theorem reselect_selected_transfers :
    (validateAndSelectProtocolTxsForConstruction sampleTxEnv sampleFunds 7 1000 100
      [sampleTransfer 1 3 [(1, -1), (2, 1)], sampleTransfer 5 3 [(1, -1), (2, 1)],
        sampleTransfer 2 3 [(1, -1), (2, 1)]]).length = 2 ∧
    validateAndSelectProtocolTxsForConstruction sampleTxEnv sampleFunds 7 2000 100
        (validateAndSelectProtocolTxsForConstruction sampleTxEnv sampleFunds 7 1000 100
          [sampleTransfer 1 3 [(1, -1), (2, 1)], sampleTransfer 5 3 [(1, -1), (2, 1)],
            sampleTransfer 2 3 [(1, -1), (2, 1)]]) =
      validateAndSelectProtocolTxsForConstruction sampleTxEnv sampleFunds 7 1000 100
        [sampleTransfer 1 3 [(1, -1), (2, 1)], sampleTransfer 5 3 [(1, -1), (2, 1)],
          sampleTransfer 2 3 [(1, -1), (2, 1)]] := by
  refine ⟨by decide +kernel, (reselect_selected sampleTxEnv sampleFunds 7 1000 2000 100 _ ?_
    (by decide)).1⟩
  intro a ha b hb
  exact List.inj_on_of_nodup_map (by decide +kernel) ha hb

/-- What a batch owes to the offer it was selected from: it is part of the offer in the order of the
hashes, its transactions pass the checks, those of an account go on one by one from its stored nonce
(where the largest nonce is followed by itself), and all their entries fit the budget. -/
structure SoundBatch (env : TxEnv) (store : Store) (nowMs : UInt64) (maxEntries : Nat)
    (txs batch : List Transaction) : Prop where
  offered : batch.Subperm txs
  ordered : batch.Pairwise (fun a b => txSortKey env a ≤ txSortKey env b)
  checked : ∀ tx ∈ batch, passesFormationChecks env store nowMs tx
  nonces : ∀ pk, Ladder.Climbs (2 ^ 64 - 1) (getNonceU64 store pk).toNat (noncesOf pk batch)
  budget : (batch.map (fun tx => (txToConsensusEntries env tx).length)).sum ≤ maxEntries

section Batch

variable {env : TxEnv} {store : Store} {nowMs : UInt64} {maxEntries : Nat}

theorem SelectionView.step_cases (v : SelectionView) (tx : Transaction) :
    v.step env store nowMs maxEntries tx = (v, false) ∨
      ∃ choice, v.choose env store nowMs maxEntries tx = some choice ∧
        v.step env store nowMs maxEntries tx = (v.commit store tx choice, true) := by
  unfold step
  split
  next => exact .inl rfl
  next choice chosen => exact .inr ⟨choice, chosen, rfl⟩

theorem soundBatch_selected (env : TxEnv) (store : Store) (cycle nowMs : UInt64) (maxEntries : Nat)
    (txs : List Transaction) : SoundBatch env store nowMs maxEntries txs
      (validateAndSelectProtocolTxsForConstruction env store cycle nowMs maxEntries txs) := by
  have climbs := selected_climbs env store cycle nowMs maxEntries txs
  rw [select_eq_sift] at climbs ⊢
  have part := sift_sublist (SelectionView.step env store nowMs maxEntries)
    (Selection.start.view store cycle) (formationOrder env txs)
  refine ⟨part.subperm.trans (List.perm_insertionSort _ txs).subperm,
    (formationOrder_sorted txs).sublist part, of_mem_sift (fun v tx kept => ?_) _ _, climbs, ?_⟩
  · rcases v.step_cases tx with dropped | ⟨choice, chosen, -⟩
    · rw [dropped] at kept
      cases kept
    · exact (SelectionView.choose_eq_some_iff.mp chosen).1
  · have bound := @weight_sift_le _ _ (SelectionView.step env store nowMs maxEntries)
      SelectionView.usedEntries (fun tx => (txToConsensusEntries env tx).length) maxEntries
      (fun v tx => ?_) (Selection.start.view store cycle) (Nat.zero_le _) (formationOrder env txs)
    · exact (Nat.le_add_left _ _).trans bound
    · refine (v.step_cases tx).imp_right ?_
      rintro ⟨choice, chosen, taken⟩
      obtain ⟨-, -, -, -, count, -, -, within⟩ := SelectionView.choose_eq_some_iff.mp chosen
      rw [taken]
      exact ⟨rfl, congrArg (v.usedEntries + ·) count, within⟩

end Batch

end CatalystNode
