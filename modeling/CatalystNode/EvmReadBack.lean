import CatalystNode.EvmRevm
import CatalystNode.Overlay

namespace CatalystNode

open ByteVector HexCodec Store Overlay

structure EvmPostAccount extends EvmAccount where
  destroyed : Bool
  distinct : (storage.map Prod.fst).Nodup

abbrev EvmPostState := Std.ExtTreeMap EvmAddress EvmPostAccount

/-- Persisting never looks whether an account was destroyed. -/
def persistPostState (store : Store) (state : EvmPostState) : Store :=
  persistState store (state.map (fun _ acc => acc.toEvmAccount))

structure AccountInfo where
  balance : ByteVec 32
  nonce : UInt64
  codeHash : Hash
  code : Bytes

section Model

variable (keccak256 : Bytes → Hash)

/-- An account without anything is absent. -/
def accountInfo (balance : ByteVec 32) (nonce : UInt64) (code : Bytes) : Option AccountInfo :=
  if balance = zeros 32 ∧ nonce = 0 ∧ code = [] then none
  else some ⟨balance, nonce, keccak256 code, code⟩

def evmBalance (store : Store) (addr : EvmAddress) : ByteVec 32 :=
  ((store.getState (keyEvmBalance addr)).bind (toArray? 32)).getD (zeros 32)

def evmCode (store : Store) (addr : EvmAddress) : Bytes := (store.getState (keyEvmCode addr)).getD []

def basicRef (store : Store) (addr : EvmAddress) : Option AccountInfo :=
  accountInfo keccak256 (evmBalance store addr) (evmNonce store addr) (evmCode store addr)

def storageRef (store : Store) (addr : EvmAddress) (slot : ByteVec 32) : ByteVec 32 :=
  ((store.getState (keyEvmStorage addr slot)).bind (toArray? 32)).getD (zeros 32)

/-- The database answers for an address what the state says. Code that the state does not have is that
of the store before. -/
def AnswersFor (before after : Store) (addr : EvmAddress) : Option EvmPostAccount → Prop
  | none => basicRef keccak256 after addr = basicRef keccak256 before addr ∧
      ∀ slot, storageRef after addr slot = storageRef before addr slot
  | some acc =>
    if acc.destroyed then basicRef keccak256 after addr = none ∧ ∀ slot, storageRef after addr slot = zeros 32
    else basicRef keccak256 after addr =
        accountInfo keccak256 acc.balance acc.nonce (acc.code.getD (evmCode before addr)) ∧
      ∀ slot, storageRef after addr slot = (lastOf acc.storage slot).getD (storageRef before addr slot)

end Model

/-- What the store held of an account, and what is written of it, leave nothing that should be gone. -/
def EvmPostAccount.LeavesNothing (store : Store) (addr : EvmAddress) (acc : EvmPostAccount) : Prop :=
  if acc.destroyed then
    acc.balance = zeros 32 ∧ acc.nonce = 0 ∧ acc.code.getD [] = [] ∧ evmCode store addr = [] ∧
      ∀ slot, (lastOf acc.storage slot).getD (storageRef store addr slot) = zeros 32
  else acc.code = some [] → evmCode store addr = []

section Writes

def accountWrites (account : EvmAddress × EvmAccount) : List (Bytes × Bytes) :=
  [(keyEvmBalance account.1, account.2.balance.toList), (keyEvmNonce account.1, encodeU64 account.2.nonce)] ++
    ((account.2.code.filter (fun code => code ≠ [])).toList.map (fun code => (keyEvmCode account.1, code)) ++
      account.2.storage.map (fun slot => (keyEvmStorage account.1 slot.1, slot.2.toList)))

theorem accounts_foldl_setState (store : Store) (records : List (Bytes × Bytes)) :
    (records.foldl (fun store r => store.setState r.1 r.2) store).accounts =
      overlay store.accounts records := by
  induction records generalizing store with
  | nil => rfl
  | cons r records ih => exact ih (store.setState r.1 r.2)

theorem persistAccount_eq (store : Store) (account : EvmAddress × EvmAccount) :
    persistAccount store account =
      (accountWrites account).foldl (fun store r => store.setState r.1 r.2) store := by
  unfold persistAccount accountWrites
  rw [List.foldl_append, List.foldl_append, List.foldl_map]
  cases account.2.code with
  | none => rfl
  | some code => cases code <;> rfl

theorem getState_persistState (store : Store) (state : Std.ExtTreeMap EvmAddress EvmAccount)
    (key : Bytes) :
    (persistState store state).getState key =
      (lastOf (state.toList.flatMap accountWrites) key).or (store.getState key) := by
  have written : persistState store state =
      (state.toList.flatMap accountWrites).foldl (fun store r => store.setState r.1 r.2) store := by
    rw [persistState, List.foldl_flatMap]
    congr 1
    funext store account
    exact persistAccount_eq store account
  rw [Store.getState, written, accounts_foldl_setState, getElem?_overlay]
  rfl

theorem keyEvmBalance_inj : Function.Injective keyEvmBalance :=
  fun _ _ same => Subtype.ext (List.append_cancel_left same)

theorem keyEvmCode_inj : Function.Injective keyEvmCode :=
  fun _ _ same => Subtype.ext (List.append_cancel_left same)

theorem keyEvmStorage_inj {addr other : EvmAddress} {slot slot' : ByteVec 32}
    (same : keyEvmStorage addr slot = keyEvmStorage other slot') : addr = other ∧ slot = slot' :=
  (toList_append_inj.mp (List.append_cancel_left same)).imp_right Subtype.ext

theorem lastOf_accountWrites {account : EvmAddress × EvmAccount} {key : Bytes}
    (balance : keyEvmBalance account.1 ≠ key) (nonce : keyEvmNonce account.1 ≠ key) :
    lastOf (accountWrites account) key =
      (lastOf (account.2.storage.map (fun slot => (keyEvmStorage account.1 slot.1, slot.2.toList))) key).or
        (lastOf ((account.2.code.filter (fun code => code ≠ [])).toList.map
          (fun code => (keyEvmCode account.1, code))) key) := by
  rw [accountWrites, lastOf_append, lastOf_append]
  simp [lastOf, balance, nonce]

theorem lastOf_accountWrites_balance (account : EvmAddress × EvmAccount) (addr : EvmAddress) :
    lastOf (accountWrites account) (keyEvmBalance addr) =
      if account.1 = addr then some account.2.balance.toList else none := by
  have nonce : keyEvmNonce account.1 ≠ keyEvmBalance addr := TagsApart.append_ne (by decide) _ _
  have code : keyEvmCode account.1 ≠ keyEvmBalance addr := TagsApart.append_ne (by decide) _ _
  have slots : ∀ slot, keyEvmStorage account.1 slot ≠ keyEvmBalance addr :=
    fun slot => TagsApart.append_ne (by decide) _ _
  rw [accountWrites, lastOf_append, @lastOf_eq_none _ _ _ (_ ++ _)]
  · simp only [lastOf, nonce, if_false, Option.none_or, keyEvmBalance_inj.eq_iff]
  · intro r listed
    rcases List.mem_append.mp listed with listed | listed
    · obtain ⟨_, -, rfl⟩ := List.mem_map.mp listed
      exact code
    · obtain ⟨slot, -, rfl⟩ := List.mem_map.mp listed
      exact slots slot.1

theorem lastOf_accountWrites_code (account : EvmAddress × EvmAccount) (addr : EvmAddress) :
    lastOf (accountWrites account) (keyEvmCode addr) =
      if account.1 = addr then account.2.code.filter (fun code => code ≠ []) else none := by
  have slots : ∀ slot, keyEvmStorage account.1 slot ≠ keyEvmCode addr :=
    fun slot => TagsApart.append_ne (by decide) _ _
  have balance : keyEvmBalance account.1 ≠ keyEvmCode addr := TagsApart.append_ne (by decide) _ _
  have nonce : keyEvmNonce account.1 ≠ keyEvmCode addr := TagsApart.append_ne (by decide) _ _
  rw [lastOf_accountWrites balance nonce, lastOf_eq_none, Option.none_or]
  · cases account.2.code.filter (fun code => code ≠ []) with
    | none => simp [lastOf]
    | some code => simp [lastOf, keyEvmCode_inj.eq_iff]
  · intro r listed
    obtain ⟨slot, -, rfl⟩ := List.mem_map.mp listed
    exact slots slot.1

theorem lastOf_accountWrites_storage (account : EvmAddress × EvmAccount) (addr : EvmAddress)
    (slot : ByteVec 32) :
    lastOf (accountWrites account) (keyEvmStorage addr slot) =
      if account.1 = addr then (lastOf account.2.storage slot).map (·.toList) else none := by
  have code : keyEvmCode account.1 ≠ keyEvmStorage addr slot := TagsApart.append_ne (by decide) _ _
  have noCode : lastOf ((account.2.code.filter (fun code => code ≠ [])).toList.map
      (fun code => (keyEvmCode account.1, code))) (keyEvmStorage addr slot) = none := by
    refine lastOf_eq_none (fun r listed => ?_)
    obtain ⟨_, -, rfl⟩ := List.mem_map.mp listed
    exact code
  have balance : keyEvmBalance account.1 ≠ keyEvmStorage addr slot := TagsApart.append_ne (by decide) _ _
  have nonce : keyEvmNonce account.1 ≠ keyEvmStorage addr slot := TagsApart.append_ne (by decide) _ _
  rw [lastOf_accountWrites balance nonce, noCode, Option.or_none]
  split
  next same =>
    rw [← same]
    exact lastOf_map (fun _ _ same => (keyEvmStorage_inj same).2) _ _ slot
  next other =>
    refine lastOf_eq_none (fun r listed same => ?_)
    obtain ⟨_, -, rfl⟩ := List.mem_map.mp listed
    exact other (keyEvmStorage_inj same).1

/-- A key that belongs to one address holds what is written of that address, or what it held before. -/
theorem getState_persistPostState {key : Bytes} {addr : EvmAddress}
    (own : ∀ account, account.1 ≠ addr → lastOf (accountWrites account) key = none) (store : Store)
    (state : EvmPostState) :
    (persistPostState store state).getState key =
      (state[addr]?.bind (fun acc => lastOf (accountWrites (addr, acc.toEvmAccount)) key)).or
        (store.getState key) := by
  rw [persistPostState, getState_persistState, lastOf_flatMap_toList own, Std.ExtTreeMap.getElem?_map,
    Option.bind_map]
  rfl

end Writes

section ReadBack

variable {keccak256 : Bytes → Hash} {store : Store} {state : EvmPostState} {addr : EvmAddress}
  {acc : EvmPostAccount}

theorem read_or_written (written held : Option Bytes) (word : Option (ByteVec 32))
    (same : written = word.map (·.toList)) :
    ((written.or held).bind (toArray? 32)).getD (zeros 32) =
      word.getD ((held.bind (toArray? 32)).getD (zeros 32)) := by
  subst same
  cases word with
  | none => rfl
  | some word =>
    rw [Option.map_some, Option.some_or, Option.bind_some, toArray?_toList, Option.getD_some,
      Option.getD_some]

theorem evmBalance_persistPostState (store : Store) (state : EvmPostState) (addr : EvmAddress) :
    evmBalance (persistPostState store state) addr =
      (state[addr]?.map (·.balance)).getD (evmBalance store addr) := by
  have own : ∀ account, account.1 ≠ addr → lastOf (accountWrites account) (keyEvmBalance addr) = none := by
    intro account other
    rw [lastOf_accountWrites_balance, if_neg other]
  rw [evmBalance, getState_persistPostState own]
  refine read_or_written _ _ _ ?_
  simp only [lastOf_accountWrites_balance, if_true]
  cases state[addr]? <;> rfl

theorem evmNonce_persistPostState (store : Store) (state : EvmPostState) (addr : EvmAddress) :
    evmNonce (persistPostState store state) addr =
      (state[addr]?.map (·.nonce)).getD (evmNonce store addr) := by
  rw [persistPostState, evmNonce_persistState, Std.ExtTreeMap.getElem?_map, Option.map_map]
  rfl

theorem evmCode_persistPostState (store : Store) (state : EvmPostState) (addr : EvmAddress) :
    evmCode (persistPostState store state) addr =
      (state[addr]?.bind (fun acc => acc.code.filter (fun code => code ≠ []))).getD
        (evmCode store addr) := by
  have own : ∀ account, account.1 ≠ addr → lastOf (accountWrites account) (keyEvmCode addr) = none := by
    intro account other
    rw [lastOf_accountWrites_code, if_neg other]
  rw [evmCode, getState_persistPostState own]
  simp only [lastOf_accountWrites_code, if_true]
  exact Option.getD_or

theorem storageRef_persistPostState (store : Store) (state : EvmPostState) (addr : EvmAddress)
    (slot : ByteVec 32) :
    storageRef (persistPostState store state) addr slot =
      (state[addr]?.bind (fun acc => lastOf acc.storage slot)).getD (storageRef store addr slot) := by
  have own : ∀ account, account.1 ≠ addr →
      lastOf (accountWrites account) (keyEvmStorage addr slot) = none := by
    intro account other
    rw [lastOf_accountWrites_storage, if_neg other]
  rw [storageRef, getState_persistPostState own]
  refine read_or_written _ _ _ ?_
  simp only [lastOf_accountWrites_storage, if_true]
  cases state[addr]? <;> rfl

theorem accountInfo_eq_none {balance : ByteVec 32} {nonce : UInt64} {code : Bytes} :
    accountInfo keccak256 balance nonce code = none ↔ balance = zeros 32 ∧ nonce = 0 ∧ code = [] := by
  unfold accountInfo
  split
  next empty => exact iff_of_true rfl empty
  next held => exact iff_of_false (Option.some_ne_none _) held

theorem accountInfo_code_inj {balance : ByteVec 32} {nonce : UInt64} {code code' : Bytes}
    (same : accountInfo keccak256 balance nonce code = accountInfo keccak256 balance nonce code') :
    code = code' := by
  unfold accountInfo at same
  split at same
  next empty =>
    split at same
    next empty' => rw [empty.2.2, empty'.2.2]
    next => cases same
  next =>
    split at same
    next => cases same
    next => exact (AccountInfo.mk.inj (Option.some.inj same)).2.2.2

theorem code_eq_nil_iff (code : Option Bytes) (before : Bytes) :
    (code.filter (fun code => code ≠ [])).getD before = [] ↔ code.getD [] = [] ∧ before = [] := by
  cases code with
  | none => simp
  | some code => cases code <;> simp [Option.filter_some]

theorem code_eq_listed_iff (code : Option Bytes) (before : Bytes) :
    (code.filter (fun code => code ≠ [])).getD before = code.getD before ↔ (code = some [] → before = []) := by
  cases code with
  | none => simp
  | some code => cases code <;> simp [Option.filter_some]

/-- What the store then answers for an address is what the state says, if nothing is left over of it. -/
theorem answersFor_iff (store : Store) (state : EvmPostState) (addr : EvmAddress) :
    AnswersFor keccak256 store (persistPostState store state) addr state[addr]? ↔
      ∀ acc, state[addr]? = some acc → acc.LeavesNothing store addr := by
  have balance := evmBalance_persistPostState store state addr
  have nonce := evmNonce_persistPostState store state addr
  have code := evmCode_persistPostState store state addr
  have slots := storageRef_persistPostState store state addr
  cases held : state[addr]? with
  | none =>
    rw [held] at balance nonce code
    simp only [held, Option.bind_none, Option.getD_none] at slots
    have same : basicRef keccak256 (persistPostState store state) addr = basicRef keccak256 store addr := by
      rw [basicRef, balance, nonce, code]
      rfl
    exact iff_of_true ⟨same, slots⟩ (fun acc listed => absurd listed (Option.some_ne_none acc).symm)
  | some acc =>
    simp only [held, Option.map_some, Option.bind_some, Option.getD_some] at balance nonce code slots
    have only : (∀ other, some acc = some other → other.LeavesNothing store addr) ↔
        acc.LeavesNothing store addr :=
      ⟨fun all => all acc rfl, fun one other same => Option.some.inj same ▸ one⟩
    rw [only, AnswersFor, EvmPostAccount.LeavesNothing, basicRef, balance, nonce, code]
    simp only [slots]
    split
    next => rw [accountInfo_eq_none, code_eq_nil_iff, and_assoc, and_assoc, and_assoc]
    next =>
      rw [← code_eq_listed_iff]
      refine ⟨fun answers => accountInfo_code_inj answers.1, fun same => ⟨by rw [same], fun _ => trivial⟩⟩

end ReadBack

/-- After a state is persisted, the database answers with exactly that state if and only if nothing is left
over of a destroyed account, or of code that is now empty. -/
theorem persisted_readsBack_iff (keccak256 : Bytes → Hash) (store : Store) (state : EvmPostState) :
    (∀ addr, AnswersFor keccak256 store (persistPostState store state) addr state[addr]?) ↔
      ∀ addr, ∀ acc : EvmPostAccount, state[addr]? = some acc → acc.LeavesNothing store addr :=
  forall_congr' (fun addr => answersFor_iff store state addr)

section Samples

def sampleContractStore : Store := Store.empty.setState (keyEvmCode (zeros 20)) [0xff]

def sampleDestroyed : EvmPostState :=
  (∅ : EvmPostState).insert (zeros 20) ⟨⟨zeros 32, 1, some [0xff], []⟩, true, List.nodup_nil⟩

end Samples

/-- The code of a destroyed contract is still answered. -/
theorem destroyed_code_remains :
    ¬∀ addr, AnswersFor (fun _ => zeros 32) sampleContractStore
      (persistPostState sampleContractStore sampleDestroyed) addr sampleDestroyed[addr]? := by
  intro answers
  have left := (answersFor_iff sampleContractStore sampleDestroyed (zeros 20)).mp (answers (zeros 20)) _
    Std.ExtTreeMap.getElem?_insert_self
  have gone : evmCode sampleContractStore (zeros 20) = [] := left.2.2.2.1
  rw [evmCode, sampleContractStore, Store.getState_setState_self, Option.getD_some] at gone
  cases gone

end CatalystNode
