import CatalystNode.ConsensusTypes
import CatalystNode.CanonicalList

namespace CatalystNode

open ByteVector HexCodec CanonicalList

/-- The accounts and metadata column families, and the cached state root. -/
structure Store where
  accounts : Std.ExtTreeMap Bytes Bytes
  metadata : Std.ExtTreeMap String Bytes
  currentStateRoot : Option Hash

def Store.empty : Store := ⟨∅, ∅, none⟩

def Store.getMetadata (store : Store) (key : String) : Option Bytes := store.metadata[key]?

def Store.setMetadata (store : Store) (key : String) (value : Bytes) : Store :=
  { store with metadata := store.metadata.insert key value }

def Store.getState (store : Store) (key : Bytes) : Option Bytes := store.accounts[key]?

def Store.setState (store : Store) (key value : Bytes) : Store :=
  { store with accounts := store.accounts.insert key value }

def decodeU64 (bytes : Bytes) : Option UInt64 :=
  if bytes.length ≠ 8 then none else some (UInt64.ofNat (ofLeBytes bytes))

def decodeI64 (bytes : Bytes) : Option Int64 :=
  if bytes.length ≠ 8 then none else some (UInt64.ofNat (ofLeBytes bytes)).toInt64

def encodeU64 (x : UInt64) : Bytes := leBytes 8 x.toNat

def encodeI64 (x : Int64) : Bytes := leBytes 8 x.toUInt64.toNat

def balanceKeyForPubkey (pubkey : PublicKey) : Bytes := utf8 "bal:" ++ pubkey.toList

def nonceKeyForPubkey (pubkey : PublicKey) : Bytes := utf8 "nonce:" ++ pubkey.toList

def workerKeyForPubkey (pubkey : PublicKey) : Bytes := utf8 "workers:" ++ pubkey.toList

def getBalanceI64 (store : Store) (pubkey : PublicKey) : Int64 :=
  ((store.getState (balanceKeyForPubkey pubkey)).bind decodeI64).getD 0

def setBalanceI64 (store : Store) (pubkey : PublicKey) (v : Int64) : Store :=
  store.setState (balanceKeyForPubkey pubkey) (encodeI64 v)

def getNonceU64 (store : Store) (pubkey : PublicKey) : UInt64 :=
  ((store.getState (nonceKeyForPubkey pubkey)).bind decodeU64).getD 0

def setNonceU64 (store : Store) (pubkey : PublicKey) (v : UInt64) : Store :=
  store.setState (nonceKeyForPubkey pubkey) (encodeU64 v)

def workerOfEntry (entry : Bytes × Bytes) : Option PublicKey :=
  if (utf8 "workers:").isPrefixOf entry.1 ∧ entry.2 = [1] then
    toArray? 32 (entry.1.drop (utf8 "workers:").length)
  else none

def loadWorkersFromState (store : Store) : List PublicKey :=
  sortDedup (store.accounts.toList.filterMap workerOfEntry)

def loadChainIdU64 (store : Store) : UInt64 :=
  ((store.getMetadata "protocol:chain_id").bind decodeU64).getD 31337

def loadGenesisHash32 (store : Store) : Hash :=
  ((store.getMetadata "protocol:genesis_hash").bind (toArray? 32)).getD (zeros 32)

theorem decodeI64_encodeI64 (x : Int64) : decodeI64 (encodeI64 x) = some x := by
  have word : x.toUInt64.toNat < 256 ^ 8 := by simpa using x.toUInt64.toNat_lt
  rw [decodeI64, encodeI64, if_neg (by simp [length_leBytes]), ofLeBytes_leBytes word]
  simp

theorem decodeU64_encodeU64 (x : UInt64) : decodeU64 (encodeU64 x) = some x := by
  have word : x.toNat < 256 ^ 8 := by simpa using x.toNat_lt
  rw [decodeU64, encodeU64, if_neg (by simp [length_leBytes]), ofLeBytes_leBytes word]
  simp

@[simp] theorem Store.getState_setState_self (store : Store) (key value : Bytes) :
    (store.setState key value).getState key = some value := by
  simp [Store.setState, Store.getState]

theorem Store.getState_setState_of_ne (store : Store) {key key' : Bytes} (value : Bytes)
    (h : key ≠ key') : (store.setState key value).getState key' = store.getState key' := by
  rw [Store.setState, Store.getState, Store.getState, Std.ExtTreeMap.getElem?_insert,
    if_neg (by simpa using h)]

theorem Store.getState_setState (store : Store) (key value other : Bytes) :
    (store.setState key value).getState other =
      if key = other then some value else store.getState other := by
  split
  next same => rw [← same, Store.getState_setState_self]
  next different => exact Store.getState_setState_of_ne store value different

theorem getBalanceI64_setState {key : Bytes} (other : key.take 4 ≠ utf8 "bal:") (store : Store)
    (value : Bytes) (pubkey : PublicKey) :
    getBalanceI64 (store.setState key value) pubkey = getBalanceI64 store pubkey := by
  have ne : key ≠ balanceKeyForPubkey pubkey := by
    intro same
    apply other
    rw [same]
    rfl
  rw [getBalanceI64, Store.getState_setState_of_ne store value ne, getBalanceI64]

theorem balanceKeyForPubkey_inj {a b : PublicKey}
    (h : balanceKeyForPubkey a = balanceKeyForPubkey b) : a = b :=
  Subtype.ext (List.append_cancel_left h)

@[simp] theorem getBalanceI64_setBalanceI64_self (store : Store) (pubkey : PublicKey) (v : Int64) :
    getBalanceI64 (setBalanceI64 store pubkey v) pubkey = v := by
  simp [getBalanceI64, setBalanceI64, decodeI64_encodeI64]

theorem getBalanceI64_setBalanceI64_of_ne (store : Store) {a b : PublicKey} (v : Int64)
    (h : a ≠ b) : getBalanceI64 (setBalanceI64 store a v) b = getBalanceI64 store b := by
  rw [getBalanceI64, setBalanceI64,
    Store.getState_setState_of_ne store _ (mt balanceKeyForPubkey_inj h), getBalanceI64]

@[simp] theorem Store.getMetadata_setMetadata_self (store : Store) (key : String) (value : Bytes) :
    (store.setMetadata key value).getMetadata key = some value := by
  simp [Store.setMetadata, Store.getMetadata]

theorem Store.getMetadata_setMetadata_of_ne (store : Store) {key key' : String} (value : Bytes)
    (h : key ≠ key') : (store.setMetadata key value).getMetadata key' = store.getMetadata key' := by
  rw [Store.setMetadata, Store.getMetadata, Store.getMetadata, Std.ExtTreeMap.getElem?_insert,
    if_neg (by simpa using h)]

theorem keyTag_ne {p q r s : String} (n : Nat) (hp : n ≤ p.toList.length) (hq : n ≤ q.toList.length)
    (apart : p.toList.take n ≠ q.toList.take n) : p ++ r ≠ q ++ s := by
  intro same
  apply apart
  have chars := congrArg (fun t => t.toList.take n) same
  simpa [List.take_append_of_le_length hp, List.take_append_of_le_length hq] using chars

end CatalystNode
