import CatalystNode.RpcBlocks
import CatalystNode.BundleSoundness
import CatalystNode.AccountPayments
import CatalystNode.Decimal

namespace CatalystNode

open ByteVector HexCodec MachineInt Store SparseTree Decimal KeyedUpdates Overlay

theorem getElem?_valuesFromIter_toList (m : StateMap) (k : Bytes) :
    (valuesFromIter m.toList)[k]? = m[k]? := by
  apply Option.ext
  intro v
  rw [getElem?_valuesFromIter (nodup_map_fst_toList m),
    Std.ExtTreeMap.mem_toList_iff_getElem?_eq_some]

def markedSha (data : Bytes) : Hash := padTo 32 (1 :: (checksum data).toList)

structure RpcBalanceProof where
  balance : String
  stateRoot : String
  /-- Each step says on which side its hash stands. -/
  proof : List String
  deriving DecidableEq

def parseI64 (text : String) : Option Int64 :=
  (signed text.toList).bind (fun n => if -2 ^ 63 ≤ n ∧ n < 2 ^ 63 then some (Int64.ofInt n) else none)

def i64Text (n : Int64) : String := n.toInt.repr

section Server

variable (sha256 : Bytes → Hash)

def StorageError.text : StorageError → String
  | .internal message => s!"Internal error: {message}"

def rpcParseHex32 (s : String) : Except RpcServerError PublicKey := do
  let bytes ← parseHexBytes s
  match toArray? 32 bytes with
  | none => .error (.invalidParams "Expected 32-byte hex (public key)")
  | some out => .ok out

/-- Of another length than eight bytes is zero. -/
def rpcDecodeI64 (bytes : Bytes) : Int64 := (decodeI64 bytes).getD 0

def getBalance (store : Store) (address : String) : Except RpcServerError String := do
  let pk ← rpcParseHex32 address
  return i64Text (((store.getState (balanceKeyForPubkey pk)).map rpcDecodeI64).getD 0)

/-- A root that is computed is cached. -/
def getAccountProof (store : Store) (key : Bytes) :
    Store × Except StorageError (Option (Hash × Bytes × MerkleProof)) :=
  match computeRootAndProofFromIter sha256 store.accounts.toList key with
  | .error e => (store, .error e)
  | .ok none => (store, .ok none)
  | .ok (some (root, value, proof)) =>
    ({ store with currentStateRoot := some root }, .ok (some (root, value, proof)))

def stepText (step : MerkleStep) : String :=
  (if step.siblingIsLeft then "L" else "R") ++ ":" ++ hexText step.sibling.toList

def getBalanceProof (store : Store) (address : String) : Store × Except RpcServerError RpcBalanceProof :=
  match rpcParseHex32 address with
  | .error e => (store, .error e)
  | .ok pk =>
    match getAccountProof sha256 store (balanceKeyForPubkey pk) with
    | (store, .error e) => (store, .error (.server e.text))
    | (store, .ok none) => (store, .ok ⟨"0", hexText (zeros 32).toList, []⟩)
    | (store, .ok (some (root, value, proof))) =>
      (store, .ok ⟨i64Text (rpcDecodeI64 value), hexText root.toList, proof.steps.map stepText⟩)

end Server

section Client

variable (sha256 : Bytes → Hash)

def hashLeaf (key value : Bytes) : Hash :=
  sha256 (0 :: leBytes 8 key.length ++ key ++ leBytes 8 value.length ++ value)

def hashNode (left right : Hash) : Hash := sha256 (1 :: left.toList ++ right.toList)

def hexHash (badLength : String) (digits : Bytes) : Except String Hash :=
  match decode digits with
  | none => .error (decodeError digits)
  | some bytes =>
    match toArray? 32 bytes with
    | none => .error badLength
    | some hash => .ok hash

/-- What follows the mark of a text; blanks around a text without one stay. -/
def trimmedDigits (s : String) : Bytes :=
  let trimmed := utf8 (String.ofList (trim s.toList))
  if (utf8 "0x").isPrefixOf trimmed then trimmed.drop 2 else utf8 s

def cliParseHex32 (s : String) : Except String PublicKey := hexHash "expected 32-byte hex" (trimmedDigits s)

def rootBytes (s : String) : Except String Hash := hexHash "bad state_root len" (trimmedDigits s)

def splitOnce (separator : Char) (s : String) : Option (String × String) :=
  match s.toList.dropWhile (· ≠ separator) with
  | [] => none
  | _ :: rest => some (String.ofList (s.toList.takeWhile (· ≠ separator)), String.ofList rest)

def stepOfText (s : String) : Except String (Bool × Hash) :=
  match splitOnce ':' s with
  | none => .error s!"bad proof step (expected L:0x.. or R:0x..): {s}"
  | some (dir, hexh) => do
    let digits := if (utf8 "0x").isPrefixOf (utf8 hexh) then (utf8 hexh).drop 2 else utf8 hexh
    let sib ← hexHash "bad proof hash len" digits
    if dir = "L" then return (true, sib)
    else if dir = "R" then return (false, sib)
    else .error s!"bad proof direction: {dir}"

def verifyMerkleProof (root leaf : Hash) (steps : List String) : Except String Bool := do
  let cur ← steps.foldlM (fun cur s => do
    let (left, sib) ← stepOfText s
    return if left then hashNode sha256 sib cur else hashNode sha256 cur sib) leaf
  return cur = root

/-- The check that the command line makes of an answer; a balance that is no number counts as zero. -/
def balanceProof (address : String) (p : RpcBalanceProof) : Except String Bool := do
  let pk ← cliParseHex32 address
  let key := utf8 "bal:" ++ pk.toList
  let leaf := hashLeaf sha256 key (encodeI64 ((parseI64 p.balance).getD 0))
  let root ← rootBytes p.stateRoot
  verifyMerkleProof sha256 root leaf p.proof

end Client

/-- The answer for an address is about the accounts as they are, and the client's check accepts it. -/
def ServedProofVerifies (sha256 : Bytes → Hash) (store : Store) (address : String) : Prop :=
  ∃ answer root, (getBalanceProof sha256 store address).2 = .ok answer ∧
    computeRootFromIter sha256 store.accounts.toList = .ok root ∧
    answer.stateRoot = hexText root.toList ∧
    getBalance store address = .ok answer.balance ∧
    balanceProof sha256 address answer = .ok true

section Texts

theorem parseI64_i64Text (n : Int64) : parseI64 (i64Text n) = some n := by
  rw [parseI64, i64Text, signed_repr, Option.bind_some, if_pos ⟨n.le_toInt, n.toInt_lt⟩, Int64.ofInt_toInt]

theorem encodeI64_rpcDecodeI64 {bytes : Bytes} (length : bytes.length = 8) :
    encodeI64 (rpcDecodeI64 bytes) = bytes := by
  have small : ofLeBytes bytes < 2 ^ 64 := by
    have bound := ofLeBytes_lt bytes
    rw [length] at bound
    exact lt_of_lt_of_eq bound (by norm_num)
  rw [rpcDecodeI64, decodeI64, if_neg (not_not.mpr length), Option.getD_some, encodeI64]
  rw [UInt64.toUInt64_toInt64, UInt64.toNat_ofNat_of_lt' small, ← length, leBytes_ofLeBytes]

def NoHexByte (b : UInt8) : Prop := digitValue b = none ∧ b ≠ 120

instance instDecidableNoHexByte (b : UInt8) : Decidable (NoHexByte b) :=
  inferInstanceAs (Decidable (digitValue b = none ∧ b ≠ 120))

theorem utf8EncodeChar_isWhitespace {c : Char} (blank : isWhitespace c = true) :
    ∃ b ∈ String.utf8EncodeChar c, NoHexByte b := by
  have low : ∀ n < 14, 9 ≤ n → ∃ b ∈ String.utf8EncodeChar (Char.ofNat n), NoHexByte b := by decide
  have spaces : ∀ k < 11, ∃ b ∈ String.utf8EncodeChar (Char.ofNat (0x2000 + k)), NoHexByte b := by decide
  have others : ∀ n ∈ [0x20, 0x85, 0xa0, 0x1680, 0x2028, 0x2029, 0x202f, 0x205f, 0x3000],
      ∃ b ∈ String.utf8EncodeChar (Char.ofNat n), NoHexByte b := by decide
  rw [← Char.ofNat_toNat c]
  rcases of_decide_eq_true blank with ⟨above, below⟩ | ⟨above, below⟩ | listed
  · exact low _ (Nat.lt_succ_of_le below) above
  · rw [← Nat.add_sub_of_le above]
    exact spaces _ (by omega)
  · exact others _ listed

theorem digitValue_of_decode {bytes value : Bytes} (decoded : decode bytes = some value) :
    ∀ b ∈ bytes, (digitValue b).isSome = true := by
  induction bytes using decode.induct generalizing value with
  | case1 => simp
  | case2 b => simp [decode] at decoded
  | case3 high low rest ih =>
    rw [decode] at decoded
    obtain ⟨dh, hh, decoded⟩ := Option.bind_eq_some_iff.mp decoded
    obtain ⟨dl, hl, decoded⟩ := Option.bind_eq_some_iff.mp decoded
    obtain ⟨bytes, hb, -⟩ := Option.bind_eq_some_iff.mp decoded
    intro b listed
    rcases List.mem_cons.mp listed with rfl | listed
    · rw [hh]
      rfl
    · rcases List.mem_cons.mp listed with rfl | listed
      · rw [hl]
        rfl
      · exact ih hb b listed

theorem bytes_of_parseHexBytes {s : String} {value : Bytes} (parsed : parseHexBytes s = .ok value) :
    ∀ b ∈ utf8 s, (digitValue b).isSome = true ∨ b = 120 := by
  unfold parseHexBytes at parsed
  dsimp only at parsed
  split at parsed
  next => cases parsed
  next bytes decoded =>
    have digits := digitValue_of_decode decoded
    intro b listed
    split at digits
    next marked =>
      obtain ⟨rest, whole⟩ := List.isPrefixOf_iff_prefix.mp marked
      rw [← whole] at listed digits
      rcases List.mem_append.mp listed with mark | inside
      · rw [show utf8 "0x" = [48, 120] by decide] at mark
        rcases List.mem_cons.mp mark with rfl | mark
        · exact .inl (by decide)
        · exact .inr (List.mem_singleton.mp mark)
      · exact .inl (digits b (by rw [List.drop_left' (by decide)]; exact inside))
    next => exact .inl (digits b listed)

theorem trim_of_no_blank {s : List Char} (clean : ∀ c ∈ s, isWhitespace c = false) : trim s = s := by
  have front : s.dropWhile isWhitespace = s := by
    cases s with
    | nil => rfl
    | cons c rest => rw [List.dropWhile_cons_of_neg (by rw [clean c List.mem_cons_self]; decide)]
  rw [trim, front, List.rdropWhile_eq_self_iff]
  intro nonempty
  rw [clean _ (List.getLast_mem nonempty)]
  decide

theorem utf8_eq_flatMap (s : String) : utf8 s = s.toList.flatMap String.utf8EncodeChar := by
  rw [utf8, ← String.utf8Encode_toList, List.utf8Encode]
  simp

/-- What the server reads, the client reads the same way. -/
theorem trimmedDigits_of_parseHexBytes {s : String} {value : Bytes} (parsed : parseHexBytes s = .ok value) :
    decode (trimmedDigits s) = some value := by
  have clean : ∀ c ∈ s.toList, isWhitespace c = false := by
    intro c listed
    by_contra blank
    obtain ⟨b, encoded, none, unmarked⟩ := utf8EncodeChar_isWhitespace (Bool.eq_true_of_not_eq_false blank)
    have inside : b ∈ utf8 s := by
      rw [utf8_eq_flatMap]
      exact List.mem_flatMap.mpr ⟨c, listed, encoded⟩
    rcases bytes_of_parseHexBytes parsed b inside with digit | mark
    · rw [none] at digit
      cases digit
    · exact unmarked mark
  rw [trimmedDigits, trim_of_no_blank clean, String.ofList_toList]
  unfold parseHexBytes at parsed
  dsimp only at parsed ⊢
  split at parsed
  next => cases parsed
  next bytes decoded =>
    cases parsed
    exact decoded

theorem hexHash_of_parseHexBytes {s : String} {hash : Hash} (badLength : String)
    (parsed : parseHexBytes s = .ok hash.toList) : hexHash badLength (trimmedDigits s) = .ok hash := by
  rw [hexHash, trimmedDigits_of_parseHexBytes parsed]
  dsimp only
  rw [toArray?_toList]

theorem splitOnce_append {before : List Char} {separator : Char} (apart : separator ∉ before)
    (rest : String) :
    splitOnce separator (String.ofList before ++ String.singleton separator ++ rest) =
      some (String.ofList before, rest) := by
  have spelled : (String.ofList before ++ String.singleton separator ++ rest).toList =
      before ++ separator :: rest.toList := by
    simp
  have outside : ∀ c ∈ before, decide (c ≠ separator) = true :=
    fun c listed => decide_eq_true (fun same => apart (same ▸ listed))
  rw [splitOnce, spelled, List.dropWhile_append_of_pos outside, List.takeWhile_append_of_pos outside]
  simp

theorem stepOfText_stepText (step : MerkleStep) :
    stepOfText (stepText step) = .ok (step.siblingIsLeft, step.sibling) := by
  obtain ⟨left, sibling⟩ := step
  have marked : (utf8 "0x").isPrefixOf (utf8 (hexText sibling.toList)) = true := by
    rw [utf8_hexText, List.isPrefixOf_iff_prefix]
    exact List.prefix_append _ _
  have digits : (utf8 (hexText sibling.toList)).drop 2 = encode sibling.toList := by
    rw [utf8_hexText]
    exact List.drop_left' (by decide)
  have read : hexHash "bad proof hash len" (encode sibling.toList) = .ok sibling := by
    rw [hexHash, decode_encode]
    dsimp only
    rw [toArray?_toList]
  cases left with
  | true =>
    have split : splitOnce ':' (stepText ⟨true, sibling⟩) = some ("L", hexText sibling.toList) :=
      @splitOnce_append ['L'] ':' (by decide) _
    rw [stepOfText, split]
    simp only [marked, digits, if_true, read]
    rfl
  | false =>
    have split : splitOnce ':' (stepText ⟨false, sibling⟩) = some ("R", hexText sibling.toList) :=
      @splitOnce_append ['R'] ':' (by decide) _
    rw [stepOfText, split]
    simp only [marked, digits, if_true, read]
    rfl

end Texts

section Checks

variable {sha256 : Bytes → Hash}

/-- Reading the steps one by one and combining is reading all of them and ascending. -/
theorem foldlM_stepOfText (node : Hash → Hash → Hash) (cur : Hash) (steps : List String) :
    steps.foldlM (fun cur s => do
      let (left, sib) ← stepOfText s
      return if left then node sib cur else node cur sib) cur = (steps.mapM stepOfText).map (ascend node cur) := by
  induction steps generalizing cur with
  | nil => rfl
  | cons s steps ih =>
    rw [List.foldlM_cons, List.mapM_cons]
    cases stepOfText s with
    | error e => rfl
    | ok step =>
      obtain ⟨left, sibling⟩ := step
      refine (ih _).trans ?_
      cases steps.mapM stepOfText with
      | error e => rfl
      | ok read => cases left <;> rfl

theorem verifyMerkleProof_eq (root leaf : Hash) (steps : List String) :
    verifyMerkleProof sha256 root leaf steps =
      (steps.mapM stepOfText).map (fun read => decide (ascend (hNode sha256) leaf read = root)) := by
  rw [verifyMerkleProof, foldlM_stepOfText]
  cases steps.mapM stepOfText with
  | error e => rfl
  | ok read => rfl

theorem parseHexBytes_of_rpcParseHex32 {s : String} {pk : PublicKey} (parsed : rpcParseHex32 s = .ok pk) :
    parseHexBytes s = .ok pk.toList := by
  rw [rpcParseHex32] at parsed
  cases read : parseHexBytes s with
  | error e =>
    rw [read] at parsed
    cases parsed
  | ok bytes =>
    rw [read] at parsed
    simp only [bind, Except.bind] at parsed
    split at parsed
    next => cases parsed
    next out exact32 =>
      cases parsed
      rw [toArray?_eq_some exact32]

theorem mapM_stepOfText_stepText (steps : List MerkleStep) :
    (steps.map stepText).mapM stepOfText =
      .ok (steps.map (fun step => (step.siblingIsLeft, step.sibling))) := by
  induction steps with
  | nil => rfl
  | cons step steps ih =>
    rw [List.map_cons, List.mapM_cons, stepOfText_stepText, ih]
    rfl

/-- The client reads an address and a root as the server wrote them. -/
theorem balanceProof_eq {address : String} {pk : PublicKey} (parsed : rpcParseHex32 address = .ok pk)
    (balance : String) (root : Hash) (proof : List String) :
    balanceProof sha256 address ⟨balance, hexText root.toList, proof⟩ =
      verifyMerkleProof sha256 root
        (leafHashForKv sha256 (balanceKeyForPubkey pk) (encodeI64 ((parseI64 balance).getD 0))) proof := by
  have key := hexHash_of_parseHexBytes "expected 32-byte hex" (parseHexBytes_of_rpcParseHex32 parsed)
  have rootRead := hexHash_of_parseHexBytes "bad state_root len" (parseHexBytes_hexText root.toList)
  rw [balanceProof, cliParseHex32, rootBytes, key, rootRead]
  rfl

def MerkleProof.read (proof : MerkleProof) : List (Bool × Hash) :=
  proof.steps.map (fun step => (step.siblingIsLeft, step.sibling))

theorem read_proofSteps (depths : List PathMap) (d : Nat) (idx : ByteVec 32) :
    (proofSteps sha256 depths d idx).map (fun step => (step.siblingIsLeft, step.sibling)) =
      directed (pathNumber idx) ((proofSteps sha256 depths d idx).map MerkleStep.sibling) := by
  induction d generalizing idx with
  | zero => rfl
  | succ d ih =>
    rw [proofSteps, List.map_cons, List.map_cons, directed, ih, pathNumber_idxShr1]
    simp only [idxLsb_eq_one_iff]

theorem computeRootAndProof_of_held {store : Store} {key value : Bytes}
    (paths : Set.InjOn (keyPath sha256) {key | (store.getState key).isSome = true})
    (held : store.getState key = some value) :
    let leaves := leafAt sha256 (leafMapFromIter sha256 store.accounts.toList)
    let path := pathNumber (keyPath sha256 key)
    leaves path = leafHashForKv sha256 key value ∧
      ∃ root proof, computeRootFromIter sha256 store.accounts.toList = .ok root ∧
        computeRootAndProofFromIter sha256 store.accounts.toList key = .ok (some (root, value, proof)) ∧
        proof.read = ownSteps (hNode sha256) leaves path treeDepth ∧
        ascend (hNode sha256) (leafHashForKv sha256 key value) proof.read = root := by
  obtain ⟨depths, length, maps, root, isRoot, single, -, one⟩ :=
    computeRoots_spec sha256 store.accounts.toList
  have stored : (valuesFromIter store.accounts.toList)[key]? = some value :=
    (getElem?_valuesFromIter_toList store.accounts key).trans held
  have inside : ∀ k, k ∈ insert key {k | k ∈ store.accounts.toList.map Prod.fst} →
      (store.getState k).isSome = true := by
    rintro k (rfl | listed)
    · rw [held]
      rfl
    · obtain ⟨item, member, rfl⟩ := List.mem_map.mp listed
      rw [Store.getState, Std.ExtTreeMap.mem_toList_iff_getElem?_eq_some.mp member]
      rfl
  have here := leafAt_keyPath (nodup_map_fst_toList store.accounts) (paths.mono inside)
  rw [stored] at here
  dsimp only at here
  have below := pathNumber_lt (keyPath sha256 key)
  have own : (proofForLeaf sha256 depths key (leafHashForKv sha256 key value)).read =
      ownSteps (hNode sha256) (leafAt sha256 (leafMapFromIter sha256 store.accounts.toList))
        (pathNumber (keyPath sha256 key)) treeDepth := by
    rw [MerkleProof.read, proofForLeaf, read_proofSteps, map_sibling_proofSteps length maps le_rfl below,
      Nat.sub_self, ownSteps]
  refine ⟨here, root, _, single, ?_, own, ?_⟩
  · rw [one, stored, Option.map_some]
  · rw [own, ← here, ascend_ownSteps, Nat.div_eq_of_lt below, isRoot]

/-- The root of any accounts is the hash of two nodes. -/
theorem computeRootFromIter_eq_hNode (sha256 : Bytes → Hash) (items : List (Bytes × Bytes)) :
    ∃ left right, computeRootFromIter sha256 items = .ok (hNode sha256 left right) := by
  obtain ⟨-, -, -, root, isRoot, single, -⟩ := computeRoots_spec sha256 items
  exact ⟨_, _, single.trans (congrArg Except.ok (isRoot.trans (subtreeRoot.eq_2 _ _ 0 255)))⟩

theorem computeRootAndProof_of_missing {store : Store} {key : Bytes} (missing : store.getState key = none) :
    computeRootAndProofFromIter sha256 store.accounts.toList key = .ok none := by
  obtain ⟨depths, -, -, root, -, -, -, one⟩ := computeRoots_spec sha256 store.accounts.toList
  have stored : (valuesFromIter store.accounts.toList)[key]? = none :=
    (getElem?_valuesFromIter_toList store.accounts key).trans missing
  rw [one, stored, Option.map_none]

/-- Of an account that does not exist the zero hash is served as the root. -/
theorem not_servedProofVerifies_of_missing {store : Store} {address : String} {pk : PublicKey}
    (parsed : rpcParseHex32 address = .ok pk) (missing : store.getState (balanceKeyForPubkey pk) = none)
    (nonzero : ∀ left right, hNode sha256 left right ≠ zeros 32) :
    ¬ServedProofVerifies sha256 store address := by
  rintro ⟨answer, root, served, built, sameRoot, -⟩
  rw [getBalanceProof, parsed] at served
  simp only [getAccountProof, computeRootAndProof_of_missing missing] at served
  cases served
  obtain ⟨left, right, node⟩ := computeRootFromIter_eq_hNode sha256 store.accounts.toList
  have zero : zeros 32 = root := Subtype.ext (hexText_inj sameRoot)
  exact nonzero left right ((Except.ok.inj (node.symm.trans built)).trans zero.symm)

end Checks

/-- A served proof is one of the balance that is served, against the root of the accounts, and verifies, exactly
for the accounts that exist. -/
theorem servedProofVerifies_iff (sha256 : Bytes → Hash) (store : Store) (address : String) (pk : PublicKey)
    (parsed : rpcParseHex32 address = .ok pk)
    (eight : ∀ pk value, store.getState (balanceKeyForPubkey pk) = some value → value.length = 8)
    (paths : Set.InjOn (keyPath sha256) {key | (store.getState key).isSome = true})
    (nonzero : ∀ left right, hNode sha256 left right ≠ zeros 32) :
    ServedProofVerifies sha256 store address ↔
      (store.getState (balanceKeyForPubkey pk)).isSome = true := by
  cases held : store.getState (balanceKeyForPubkey pk) with
  | none =>
    exact iff_of_false (not_servedProofVerifies_of_missing parsed held nonzero) (by simp)
  | some value =>
    obtain ⟨-, root, proof, built, made, -, leads⟩ := computeRootAndProof_of_held paths held
    refine iff_of_true ⟨⟨i64Text (rpcDecodeI64 value), hexText root.toList, proof.steps.map stepText⟩, root,
      ?_, built, rfl, ?_, ?_⟩ rfl
    · rw [getBalanceProof, parsed]
      simp only [getAccountProof, made]
    · rw [getBalance, parsed]
      simp only [bind, Except.bind, pure, Except.pure, held, Option.map_some, Option.getD_some]
    · rw [balanceProof_eq parsed, parseI64_i64Text, Option.getD_some,
        encodeI64_rpcDecodeI64 (eight pk value held), verifyMerkleProof_eq, mapM_stepOfText_stepText, Except.map,
        ← MerkleProof.read, leads]
      exact congrArg _ (decide_eq_true rfl)

section Samples

theorem hNode_markedSha_ne (left right : Hash) : hNode markedSha left right ≠ zeros 32 := by
  intro same
  have first := congrArg (fun hash : Hash => hash.toList.head?) same
  simp [hNode, markedSha, padTo, zeros] at first

theorem rpcParseHex32_hexText (pk : PublicKey) : rpcParseHex32 (hexText pk.toList) = .ok pk := by
  rw [rpcParseHex32, parseHexBytes_hexText]
  simp only [bind, Except.bind, toArray?_toList]

end Samples

/-- The proof of a balance of five. -/
theorem servedProofVerifies_five :
    ServedProofVerifies markedSha (setBalanceI64 Store.empty (zeros 32) 5) (hexText (zeros 32).toList) := by
  have stored : ∀ key, (setBalanceI64 Store.empty (zeros 32) 5).getState key =
      if balanceKeyForPubkey (zeros 32) = key then some (encodeI64 5) else none := by
    intro key
    rw [setBalanceI64, Store.getState_setState]
    rfl
  refine (servedProofVerifies_iff markedSha _ _ _ (rpcParseHex32_hexText _) ?_ ?_ hNode_markedSha_ne).mpr ?_
  · intro pk value held
    rw [stored] at held
    split at held
    next =>
      cases held
      rfl
    next => cases held
  · intro a ha b hb _
    have only : ∀ key, ((setBalanceI64 Store.empty (zeros 32) 5).getState key).isSome = true →
        balanceKeyForPubkey (zeros 32) = key := by
      intro key held
      rw [stored] at held
      by_contra other
      rw [if_neg other] at held
      cases held
    exact (only a ha).symm.trans (only b hb)
  · rw [stored, if_pos rfl]
    rfl

/-- The answer for an address without an account does not verify. -/
theorem servedProof_unknown_account :
    (∀ pk value, Store.empty.getState (balanceKeyForPubkey pk) = some value → value.length = 8) ∧
    ¬ServedProofVerifies markedSha Store.empty (hexText (zeros 32).toList) := by
  have missing : ∀ key, Store.empty.getState key = none := by
    intro key
    rw [Store.getState, Store.empty, Std.ExtTreeMap.getElem?_empty]
  refine ⟨fun pk value held => ?_,
    not_servedProofVerifies_of_missing (rpcParseHex32_hexText _) (missing _) hNode_markedSha_ne⟩
  rw [missing] at held
  cases held

end CatalystNode
