import CatalystNode.LedgerReplay

namespace CatalystNode

open ByteVector HexCodec MachineInt Store

abbrev EvmAddress := ByteVec 20

instance : Std.TransOrd EvmAddress := inferInstance

def keyEvmCode (addr : EvmAddress) : Bytes := utf8 "evm:code:" ++ addr.toList

def keyEvmNonce (addr : EvmAddress) : Bytes := utf8 "evm:nonce:" ++ addr.toList

def keyEvmBalance (addr : EvmAddress) : Bytes := utf8 "evm:balance:" ++ addr.toList

def keyEvmStorage (addr : EvmAddress) (slot : ByteVec 32) : Bytes :=
  utf8 "evm:storage:" ++ (addr.toList ++ slot.toList)

def keyEvmLastReturn (addr : EvmAddress) : Bytes := utf8 "evm:last_return:" ++ addr.toList

def keyEvmLastLogs (addr : EvmAddress) : Bytes := utf8 "evm:last_logs:" ++ addr.toList

def evmNonce (store : Store) (addr : EvmAddress) : UInt64 :=
  ((store.getState (keyEvmNonce addr)).bind decodeU64).getD 0

inductive EvmTarget where
  | create
  | call (target : EvmAddress)
  deriving DecidableEq

/-- The transaction environment handed to the virtual machine; the gas price is zero. -/
structure EvmTxEnv where
  caller : EvmAddress
  nonce : UInt64
  gasLimit : UInt64
  kind : EvmTarget
  data : Bytes
  chainId : UInt64
  deriving DecidableEq

/-- An account of the machine's result, with its changed storage slots; words are big-endian. -/
structure EvmAccount where
  balance : ByteVec 32
  nonce : UInt64
  code : Option Bytes
  storage : List (ByteVec 32 × ByteVec 32)
  deriving DecidableEq

structure EvmResult where
  success : Bool
  gasUsed : UInt64
  output : Option Bytes
  createdAddress : Option EvmAddress
  /-- The logs as bincode writes them. -/
  logs : Bytes
  debug : String
  state : Std.ExtTreeMap EvmAddress EvmAccount
  /-- Code that the machine's cache holds for an address. -/
  contracts : EvmAddress → Option Bytes

structure Revm where
  transact : Store → EvmTxEnv → Except String EvmResult
  calculateEthereumCreateAddress : EvmAddress → UInt64 → EvmAddress

def persistAccount (store : Store) (account : EvmAddress × EvmAccount) : Store :=
  let store := store.setState (keyEvmBalance account.1) account.2.balance.toList
  let store := store.setState (keyEvmNonce account.1) (encodeU64 account.2.nonce)
  let store := match account.2.code with
    | none => store
    | some code => if code.isEmpty then store else store.setState (keyEvmCode account.1) code
  account.2.storage.foldl (fun store slot => store.setState (keyEvmStorage account.1 slot.1)
    slot.2.toList) store

def persistState (store : Store) (state : Std.ExtTreeMap EvmAddress EvmAccount) : Store :=
  state.toList.foldl persistAccount store

def EvmResult.execution (out : EvmResult) : EvmExecution where
  success := out.success
  gasUsed := out.gasUsed
  returnData := out.output.getD []
  error := if out.success then none else some out.debug

section Execute

variable (revm : Revm) (store : Store) (sender : EvmAddress) (chainId protocolNonce : UInt64)

/-- The virtual machine counts a sender's transactions from zero, the protocol from one. -/
def transactAt (kind : EvmTarget) (data : Bytes) (gasLimit : UInt64) : Except String EvmResult :=
  if protocolNonce = 0 then .error "invalid input: protocol nonce must be >= 1"
  else match revm.transact store ⟨sender, protocolNonce - 1, gasLimit, kind, data, chainId⟩ with
    | .error e => .error ("revm error: " ++ e)
    | .ok out => .ok out

def executeDeployAndPersist (initCode : Bytes) (gasLimit : UInt64) :
    Store × Except String EvmExecution :=
  match transactAt revm store sender chainId protocolNonce .create initCode gasLimit with
  | .error e => (store, .error e)
  | .ok out =>
    let created := out.createdAddress.getD
      (revm.calculateEthereumCreateAddress sender (protocolNonce - 1))
    let persisted := persistState store out.state
    -- the cache is only asked for an address that the result names
    let code := if created ∈ out.state then out.contracts created else none
    (code.elim persisted (persisted.setState (keyEvmCode created)), .ok out.execution)

def executeCallAndPersist (target : EvmAddress) (input : Bytes) (gasLimit : UInt64) :
    Store × Except String EvmExecution :=
  match transactAt revm store sender chainId protocolNonce (.call target) input gasLimit with
  | .error e => (store, .error e)
  | .ok out =>
    let persisted := persistState store out.state
    ((persisted.setState (keyEvmLastReturn target) (out.output.getD [])).setState
      (keyEvmLastLogs target) out.logs, .ok out.execution)

end Execute

def revmRuntime (revm : Revm) (decodeEvmTxPayload : Bytes → Option EvmTxPayload) : EvmRuntime where
  decodeEvmTxPayload
  executeAndPersist store pk chainId payload gasLimit :=
    match payload.kind with
    | .deploy bytecode =>
      executeDeployAndPersist revm store (pubkeyToEvmAddr20 pk) chainId payload.nonce bytecode gasLimit
    | .call target input =>
      executeCallAndPersist revm store (pubkeyToEvmAddr20 pk) chainId payload.nonce target input gasLimit

section Records

variable {revm : Revm} {store : Store} {sender : EvmAddress} {chainId protocolNonce gasLimit : UInt64}

def evmDataTags : List Bytes :=
  [utf8 "evm:code:", utf8 "evm:balance:", utf8 "evm:storage:", utf8 "evm:last_return:",
    utf8 "evm:last_logs:"]

theorem evmNonce_of_writesWithin {t : Store} (within : WritesWithin evmDataTags store t)
    (addr : EvmAddress) : evmNonce t addr = evmNonce store addr := by
  rw [evmNonce, evmNonce, keyEvmNonce, within.getState_append (by decide)]

theorem keyEvmNonce_inj {a b : EvmAddress} (h : keyEvmNonce a = keyEvmNonce b) : a = b :=
  Subtype.ext (List.append_cancel_left h)

theorem writesWithin_persistCode (addr : EvmAddress) (code : Option Bytes) (store : Store) :
    WritesWithin evmDataTags store (match code with
      | none => store
      | some code => if code.isEmpty then store else store.setState (keyEvmCode addr) code) := by
  cases code with
  | none => exact .refl _ store
  | some code =>
    dsimp only
    split
    next => exact .refl _ store
    next => exact .setState store (List.prefix_append _ _) (by simp [evmDataTags])

theorem writesWithin_persistAccount_rest (store : Store) (account : EvmAddress × EvmAccount) :
    WritesWithin evmDataTags ((store.setState (keyEvmBalance account.1)
      account.2.balance.toList).setState (keyEvmNonce account.1) (encodeU64 account.2.nonce))
      (persistAccount store account) :=
  (writesWithin_persistCode account.1 account.2.code _).trans
    (.foldl (fun s _ => .setState s (List.prefix_append _ _) (by simp [evmDataTags])) _ _)

theorem evmNonce_persistAccount (store : Store) (account : EvmAddress × EvmAccount)
    (addr : EvmAddress) :
    evmNonce (persistAccount store account) addr =
      if account.1 = addr then account.2.nonce else evmNonce store addr := by
  have funded : evmNonce (store.setState (keyEvmBalance account.1) account.2.balance.toList) addr =
      evmNonce store addr :=
    evmNonce_of_writesWithin (.setState store (List.prefix_append _ _) (by simp [evmDataTags])) addr
  rw [evmNonce_of_writesWithin (writesWithin_persistAccount_rest store account), evmNonce,
    Store.getState_setState]
  split
  next same =>
    rw [if_pos (keyEvmNonce_inj same), Option.bind_some, decodeU64_encodeU64, Option.getD_some]
  next different =>
    rw [if_neg (fun same : account.1 = addr => different (congrArg keyEvmNonce same))]
    exact funded

theorem evmNonce_foldl_persistAccount {accounts : List (EvmAddress × EvmAccount)}
    (distinct : accounts.Pairwise (fun a b => a.1 ≠ b.1)) (store : Store) (addr : EvmAddress) :
    (∀ acc, (addr, acc) ∈ accounts →
      evmNonce (accounts.foldl persistAccount store) addr = acc.nonce) ∧
    ((∀ acc, (addr, acc) ∉ accounts) →
      evmNonce (accounts.foldl persistAccount store) addr = evmNonce store addr) := by
  induction accounts generalizing store with
  | nil => simp
  | cons first accounts ih =>
    obtain ⟨others, distinct⟩ := List.pairwise_cons.mp distinct
    obtain ⟨found, missing⟩ := ih distinct (persistAccount store first)
    have step := evmNonce_persistAccount store first addr
    refine ⟨fun acc listed => ?_, fun unlisted => ?_⟩
    · rcases List.mem_cons.mp listed with rfl | later
      · rw [List.foldl_cons, missing (fun acc' again => others _ again rfl), step, if_pos rfl]
      · exact found acc later
    · have other : first.1 ≠ addr := by
        rintro rfl
        exact unlisted first.2 List.mem_cons_self
      rw [List.foldl_cons, missing (fun acc later => unlisted acc (List.mem_cons_of_mem _ later)),
        step, if_neg other]

/-- What the machine's result says about an address is what the store then holds. -/
theorem evmNonce_persistState (store : Store) (state : Std.ExtTreeMap EvmAddress EvmAccount)
    (addr : EvmAddress) :
    evmNonce (persistState store state) addr =
      (state[addr]?.map EvmAccount.nonce).getD (evmNonce store addr) := by
  have distinct : state.toList.Pairwise (fun a b => a.1 ≠ b.1) := by
    refine Std.ExtTreeMap.distinct_keys_toList.imp ?_
    intro a b apart same
    exact apart (Std.LawfulEqCmp.compare_eq_iff_eq.mpr same)
  obtain ⟨found, missing⟩ := evmNonce_foldl_persistAccount distinct store addr
  cases held : state[addr]? with
  | none =>
    refine missing ?_
    intro acc listed
    rw [Std.ExtTreeMap.mem_toList_iff_getElem?_eq_some, held] at listed
    cases listed
  | some acc => exact found acc (Std.ExtTreeMap.mem_toList_iff_getElem?_eq_some.mpr held)

end Records

end CatalystNode
