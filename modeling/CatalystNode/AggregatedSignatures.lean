import CatalystNode.Signatures

namespace CatalystNode

open ByteVector

structure MuSigSignature (F G : Type) where
  aggregatedSignature : Signature F G
  aggregatedPublicKey : G
  participantCount : Nat

inductive CryptoError where
  | aggregationFailed (reason : String)
  deriving DecidableEq, Repr

section Aggregation

variable {F G : Type} [Field F] [AddCommGroup G] [Module F G] [DecidableEq G]
variable (ops : RistrettoOps F G) (blake2b512 : Bytes → ByteVec 64)

def computePublicKeyListHash (publicKeys : List G) : Hash :=
  blake2b512Trunc32 blake2b512
    (publicKeys.foldl (fun concatenated key => concatenated ++ (ops.compress key).toList) [])

def keyCoefficient (l : Hash) (publicKey : G) : F :=
  ops.fromBytesModOrder
    (blake2b512Trunc32 blake2b512 (l.toList ++ (ops.compress publicKey).toList))

def aggregatePublicKeys (publicKeys : List G) : Except CryptoError G :=
  if publicKeys.isEmpty then throw (.aggregationFailed "No public keys provided")
  else
    let l := computePublicKeyListHash ops blake2b512 publicKeys
    return publicKeys.foldl
      (fun aggregated key => aggregated + keyCoefficient ops blake2b512 l key • key) 0

def aggregateSignatures (_message : Bytes) (partialSignatures : List (Signature F G × G)) :
    Except CryptoError (MuSigSignature F G) := do
  if partialSignatures.isEmpty then throw (.aggregationFailed "No signatures provided")
  let publicKeys := partialSignatures.map Prod.snd
  let aggregatedPubkey ← aggregatePublicKeys ops blake2b512 publicKeys
  let l := computePublicKeyListHash ops blake2b512 publicKeys
  let coefficients := publicKeys.map (keyCoefficient ops blake2b512 l)
  let aggregated := (partialSignatures.zip coefficients).foldl
    (fun aggregated entry => ⟨aggregated.r + entry.1.1.r, aggregated.s + entry.2 * entry.1.1.s⟩)
    (⟨0, 0⟩ : Signature F G)
  return ⟨aggregated, aggregatedPubkey, partialSignatures.length⟩

def verifyAggregated (message : Bytes) (musig : MuSigSignature F G) : Bool :=
  let e := challenge ops blake2b512 musig.aggregatedSignature.r musig.aggregatedPublicKey message
  decide (musig.aggregatedSignature.s • ops.basepoint =
    musig.aggregatedSignature.r + e • musig.aggregatedPublicKey)

/-- The nonces of the signatures make up for the two ways in which the sum of the signatures is not a
signature under the sum of the keys: the nonces are added without coefficients, and each signer has
answered a challenge of its own. -/
def NoncesBalance (message : Bytes) (signed : List (Signature F G × G)) : Prop :=
  let coefficient :=
    keyCoefficient ops blake2b512 (computePublicKeyListHash ops blake2b512 (signed.map Prod.snd))
  let common := challenge ops blake2b512 (signed.map (·.1.r)).sum
    (signed.map (fun entry => coefficient entry.2 • entry.2)).sum message
  (signed.map (fun entry => (coefficient entry.2 - 1) • entry.1.r)).sum =
    (signed.map (fun entry => (coefficient entry.2 *
      (common - challenge ops blake2b512 entry.1.r entry.2 message)) • entry.2)).sum

instance instDecidableNoncesBalance (message : Bytes) (signed : List (Signature F G × G)) :
    Decidable (NoncesBalance ops blake2b512 message signed) :=
  inferInstanceAs (Decidable (_ = _))

variable {ops blake2b512}

omit [DecidableEq G] in
theorem sum_map_sub {α : Type} (f g : α → G) (l : List α) :
    (l.map (fun a => f a - g a)).sum = (l.map f).sum - (l.map g).sum := by
  induction l with
  | nil => simp
  | cons a l ih =>
    simp only [List.map_cons, List.sum_cons, ih]
    abel

omit [Module F G] [DecidableEq G] in
theorem foldl_aggregate (coefficient : G → F) (signed : List (Signature F G × G))
    (start : Signature F G) :
    (signed.zip ((signed.map Prod.snd).map coefficient)).foldl (fun aggregated entry =>
        ⟨aggregated.r + entry.1.1.r, aggregated.s + entry.2 * entry.1.1.s⟩) start =
      ⟨start.r + (signed.map (·.1.r)).sum,
        start.s + (signed.map (fun entry => coefficient entry.2 * entry.1.s)).sum⟩ := by
  induction signed generalizing start with
  | nil => simp
  | cons entry signed ih =>
    simp only [List.map_cons, List.zip_cons_cons, List.foldl_cons, List.sum_cons, ih, add_assoc]

omit [DecidableEq G] in
theorem foldl_add_smul (coefficient : G → F) (keys : List G) (start : G) :
    keys.foldl (fun aggregated key => aggregated + coefficient key • key) start =
      start + (keys.map (fun key => coefficient key • key)).sum := by
  induction keys generalizing start with
  | nil => simp
  | cons key keys ih => simp only [List.foldl_cons, List.map_cons, List.sum_cons, ih, add_assoc]

omit [DecidableEq G] in
theorem aggregateSignatures_eq {message : Bytes} {signed : List (Signature F G × G)}
    (nonempty : signed ≠ []) :
    let coefficient :=
      keyCoefficient ops blake2b512 (computePublicKeyListHash ops blake2b512 (signed.map Prod.snd))
    aggregateSignatures ops blake2b512 message signed = .ok
      ⟨⟨(signed.map (·.1.r)).sum, (signed.map (fun entry => coefficient entry.2 * entry.1.s)).sum⟩,
        (signed.map (fun entry => coefficient entry.2 • entry.2)).sum, signed.length⟩ := by
  intro coefficient
  have listed : signed.isEmpty = false := by simpa using nonempty
  have keys : (signed.map Prod.snd).isEmpty = false := by simpa using nonempty
  simp only [aggregateSignatures, aggregatePublicKeys, listed, keys, foldl_aggregate,
    foldl_add_smul, zero_add, Bool.false_eq_true, if_false]
  rw [List.map_map]
  rfl

omit [DecidableEq G] in
theorem sum_smul_basepoint {basepoint : G} {coefficient : G → F} {own : Signature F G × G → F}
    {signed : List (Signature F G × G)}
    (valid : ∀ entry ∈ signed, entry.1.s • basepoint = entry.1.r + own entry • entry.2) :
    (signed.map (fun entry => coefficient entry.2 * entry.1.s)).sum • basepoint =
      (signed.map (fun entry => coefficient entry.2 • entry.1.r)).sum +
        (signed.map (fun entry => (coefficient entry.2 * own entry) • entry.2)).sum := by
  rw [← List.sum_map_add, List.sum_smul, List.map_map]
  refine congrArg List.sum (List.map_congr_left (fun entry listed => ?_))
  rw [Function.comp_apply, mul_smul, valid entry listed, smul_add, mul_smul]

/-- Signatures that are valid one by one are accepted together exactly if their nonces balance. -/
theorem verifyAggregated_iff (message : Bytes) (signed : List (Signature F G × G))
    (nonempty : signed ≠ [])
    (valid : ∀ entry ∈ signed, schnorrVerify ops blake2b512 message entry.1 entry.2 = true) :
    (∃ musig, aggregateSignatures ops blake2b512 message signed = .ok musig ∧
      verifyAggregated ops blake2b512 message musig = true) ↔
    NoncesBalance ops blake2b512 message signed := by
  simp only [aggregateSignatures_eq nonempty, Except.ok.injEq, exists_eq_left', verifyAggregated,
    NoncesBalance, decide_eq_true_eq]
  generalize keyCoefficient ops blake2b512 _ = coefficient
  generalize challenge ops blake2b512 (signed.map (·.1.r)).sum _ message = e
  have alone := fun entry listed => of_decide_eq_true (valid entry listed)
  have nonces : (signed.map (fun entry => (coefficient entry.2 - 1) • entry.1.r)).sum =
      (signed.map (fun entry => coefficient entry.2 • entry.1.r)).sum -
        (signed.map (·.1.r)).sum := by
    simp only [sub_smul, one_smul, sum_map_sub]
  have responses : (signed.map (fun entry => (coefficient entry.2 *
        (e - challenge ops blake2b512 entry.1.r entry.2 message)) • entry.2)).sum =
      e • (signed.map (fun entry => coefficient entry.2 • entry.2)).sum -
        (signed.map (fun entry => (coefficient entry.2 *
          challenge ops blake2b512 entry.1.r entry.2 message) • entry.2)).sum := by
    rw [List.smul_sum, List.map_map, ← sum_map_sub]
    refine congrArg List.sum (List.map_congr_left (fun entry _ => ?_))
    rw [Function.comp_apply, mul_sub, sub_smul, smul_smul, mul_comm e]
  rw [sum_smul_basepoint alone, nonces, responses, sub_eq_sub_iff_add_eq_add,
    add_comm (e • _) (signed.map (·.1.r)).sum]

end Aggregation

def twoSigners (nonce : ZMod 13) : List (Signature (ZMod 13) (ZMod 13) × ZMod 13) :=
  [(schnorrSign smallGroup checksum ((3 : Nat) : ZMod 13) 2 [1], 2),
    (schnorrSign smallGroup checksum nonce 5 [1], 5)]

theorem verifyAggregated_iff_two :
    ∃ musig, aggregateSignatures smallGroup checksum [1] (twoSigners 8) = .ok musig ∧
      verifyAggregated smallGroup checksum [1] musig = true :=
  (verifyAggregated_iff [1] (twoSigners 8) (by decide) (by decide +kernel)).mpr (by decide +kernel)

/-- Each of the two signatures is valid, and the aggregated one is refused. -/
theorem verifyAggregated_refuses_two :
    (∀ entry ∈ twoSigners 4, schnorrVerify smallGroup checksum [1] entry.1 entry.2 = true) ∧
    ∃ musig, aggregateSignatures smallGroup checksum [1] (twoSigners 4) = .ok musig ∧
      verifyAggregated smallGroup checksum [1] musig = false :=
  ⟨by decide +kernel, _, rfl, by decide +kernel⟩

end CatalystNode
