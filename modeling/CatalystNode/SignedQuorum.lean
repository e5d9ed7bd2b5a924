import CatalystNode.Signatures
import CatalystNode.Quorum

namespace CatalystNode

open ByteVector HexCodec

structure SignedStatement where
  producerId : ProducerId
  signature : Bytes
  deriving DecidableEq

def bftVoteThreshold (n : Nat) : Nat :=
  if n = 0 then 2 ^ 64 - 1 else (2 * n + 2) / 3

theorem bftVoteThreshold_eq {n : Nat} (h : n ≠ 0) : bftVoteThreshold n = (2 * n) ⌈/⌉ 3 := by
  rw [bftVoteThreshold, if_neg h, Nat.ceilDiv_eq_add_pred_div]
  rfl

/-- The counting loop of the certificate verifiers: ids seen before are refused, every other
statement must pass its checks, and the number of statements passed is returned. -/
def countStatements {ε : Type} (duplicate : ε) (check : SignedStatement → Except ε Unit) :
    List ProducerId → Nat → List SignedStatement → Except ε Nat
  | _, valid, [] => .ok valid
  | seen, valid, v :: statements =>
    if v.producerId ∈ seen then .error duplicate
    else match check v with
      | .error fault => .error fault
      | .ok () => countStatements duplicate check (v.producerId :: seen) (valid + 1) statements

theorem countStatements_ok {ε : Type} {duplicate : ε} {check : SignedStatement → Except ε Unit}
    {seen : List ProducerId} {valid total : Nat} {statements : List SignedStatement}
    (h : countStatements duplicate check seen valid statements = .ok total) :
    total = valid + statements.length ∧ (statements.map SignedStatement.producerId).Nodup ∧
      ∀ v ∈ statements, v.producerId ∉ seen ∧ check v = .ok () := by
  induction statements generalizing seen valid with
  | nil =>
    cases h
    simp
  | cons v statements ih =>
    rw [countStatements] at h
    split at h
    next => simp at h
    next fresh =>
      split at h
      next => simp at h
      next checked =>
        obtain ⟨count, distinct, rest⟩ := ih h
        refine ⟨by rw [count, List.length_cons]; omega, ?_, ?_⟩
        · rw [List.map_cons, List.nodup_cons]
          refine ⟨fun hmem => ?_, distinct⟩
          obtain ⟨w, hw, same⟩ := List.mem_map.mp hmem
          exact (rest w hw).1 (by simp [same])
        · intro w hw
          rcases List.mem_cons.mp hw with rfl | hw
          · exact ⟨fresh, checked⟩
          · obtain ⟨apart, checks⟩ := rest w hw
            exact ⟨fun hs => apart (List.mem_cons_of_mem _ hs), checks⟩

theorem countStatements_of_checks {ε : Type} {duplicate : ε}
    {check : SignedStatement → Except ε Unit} {seen : List ProducerId} {valid : Nat}
    {statements : List SignedStatement}
    (distinct : (statements.map SignedStatement.producerId).Nodup)
    (checks : ∀ v ∈ statements, v.producerId ∉ seen ∧ check v = .ok ()) :
    countStatements duplicate check seen valid statements = .ok (valid + statements.length) := by
  induction statements generalizing seen valid with
  | nil => rfl
  | cons v statements ih =>
    obtain ⟨fresh, checked⟩ := checks v List.mem_cons_self
    rw [List.map_cons, List.nodup_cons] at distinct
    have rest : ∀ w ∈ statements, w.producerId ∉ v.producerId :: seen ∧ check w = .ok () := by
      intro w hw
      obtain ⟨apart, passed⟩ := checks w (List.mem_cons_of_mem v hw)
      refine ⟨fun listed => ?_, passed⟩
      rcases List.mem_cons.mp listed with same | earlier
      · exact distinct.1 (List.mem_map.mpr ⟨w, hw, same⟩)
      · exact apart earlier
    have total : valid + 1 + statements.length = valid + (statements.length + 1) := by omega
    rw [countStatements, if_neg fresh, checked, List.length_cons, ← total]
    exact ih distinct.2 rest

def respelledKeys (statements : List SignedStatement) : Nat :=
  Quorum.repeats (statements.filterMap (fun v => parseProducerHex32 v.producerId))

def committeeKeys (producerList : List ProducerId) : Finset PublicKey :=
  (producerList.filterMap parseProducerHex32).toFinset

theorem card_committeeKeys_le (producerList : List ProducerId) :
    (committeeKeys producerList).card ≤ producerList.length :=
  (List.toFinset_card_le _).trans (List.length_filterMap_le _ _)

section Keys

variable {F G : Type} [Field F] [AddCommGroup G] [Module F G] [DecidableEq G]
variable (ops : RistrettoOps F G) (blake2b512 : Bytes → ByteVec 64)

def signerKeys (digest : Hash) (statements : List SignedStatement) : Finset PublicKey :=
  (statements.filterMap (fun v =>
    signerKey ops blake2b512 digest v.producerId v.signature)).toFinset

structure StatementQuorum (digest : Hash) (producerList : List ProducerId)
    (statements : List SignedStatement) : Prop where
  distinct : (statements.map SignedStatement.producerId).Nodup
  members : ∀ v ∈ statements, v.producerId ∈ producerList
  signed : ∀ v ∈ statements, ∃ key, parseProducerHex32 v.producerId = some key ∧
    signerKey ops blake2b512 digest v.producerId v.signature = some key
  quorum : (2 * producerList.length) ⌈/⌉ 3 ≤ statements.length

variable {ops blake2b512} {digest : Hash} {producerList : List ProducerId}
  {statements : List SignedStatement}

theorem mem_signerKeys {key : PublicKey} :
    key ∈ signerKeys ops blake2b512 digest statements ↔ ∃ v ∈ statements,
      signerKey ops blake2b512 digest v.producerId v.signature = some key := by
  simp [signerKeys]

theorem StatementQuorum.filterMap_signerKey
    (h : StatementQuorum ops blake2b512 digest producerList statements) :
    statements.filterMap (fun v => signerKey ops blake2b512 digest v.producerId v.signature) =
      statements.filterMap (fun v => parseProducerHex32 v.producerId) := by
  apply List.filterMap_congr
  intro v hv
  obtain ⟨key, parsed, signed⟩ := h.signed v hv
  rw [parsed, signed]

theorem StatementQuorum.card_add_respelled
    (h : StatementQuorum ops blake2b512 digest producerList statements) :
    (signerKeys ops blake2b512 digest statements).card + respelledKeys statements =
      statements.length := by
  rw [signerKeys, h.filterMap_signerKey, respelledKeys, Quorum.card_toFinset_add_repeats,
    List.length_filterMap_eq_countP, List.countP_eq_length]
  intro v hv
  obtain ⟨key, parsed, -⟩ := h.signed v hv
  simp [parsed]

theorem StatementQuorum.signerKeys_subset
    (h : StatementQuorum ops blake2b512 digest producerList statements) :
    signerKeys ops blake2b512 digest statements ⊆ committeeKeys producerList := by
  intro key hkey
  obtain ⟨v, hv, signed⟩ := mem_signerKeys.mp hkey
  rw [committeeKeys, List.mem_toFinset, List.mem_filterMap]
  exact ⟨v.producerId, h.members v hv, parseProducerHex32_of_signerKey signed⟩

/-- With one spelling per key the signers' keys are as distinct as their ids. -/
theorem StatementQuorum.respelledKeys_eq_zero
    (h : StatementQuorum ops blake2b512 digest producerList statements)
    (lower : ∀ id ∈ producerList, LowerCase (utf8 id)) : respelledKeys statements = 0 := by
  have keys : (statements.filterMap (fun v => parseProducerHex32 v.producerId)).Nodup := by
    have same : statements.filterMap (fun v => parseProducerHex32 v.producerId) =
        (statements.map SignedStatement.producerId).filterMap parseProducerHex32 := by
      rw [List.filterMap_map]
      rfl
    rw [same, List.Nodup, List.pairwise_filterMap]
    refine h.distinct.imp_of_mem ?_
    intro id id' hid hid' apart key parsed key' parsed' sameKey
    obtain ⟨v, hv, rfl⟩ := List.mem_map.mp hid
    obtain ⟨v', hv', rfl⟩ := List.mem_map.mp hid'
    subst sameKey
    exact apart (parseProducerHex32_inj_of_lower (lower _ (h.members v hv))
      (lower _ (h.members v' hv')) parsed parsed')
  have count := Quorum.card_toFinset_add_repeats
    (statements.filterMap (fun v => parseProducerHex32 v.producerId))
  rw [List.toFinset_card_of_nodup keys] at count
  rw [respelledKeys]
  omega

theorem StatementQuorum.quorum_le_card
    (h : StatementQuorum ops blake2b512 digest producerList statements)
    (lower : ∀ id ∈ producerList, LowerCase (utf8 id)) :
    (2 * producerList.length) ⌈/⌉ 3 ≤ (signerKeys ops blake2b512 digest statements).card := by
  have total := h.card_add_respelled
  rw [h.respelledKeys_eq_zero lower] at total
  have quorum := h.quorum
  omega

theorem StatementQuorum.overlap {digest' : Hash} {statements' : List SignedStatement}
    (h : StatementQuorum ops blake2b512 digest producerList statements)
    (h' : StatementQuorum ops blake2b512 digest' producerList statements')
    (lower : ∀ id ∈ producerList, LowerCase (utf8 id)) :
    2 * ((2 * producerList.length) ⌈/⌉ 3) ≤ producerList.length +
      (signerKeys ops blake2b512 digest statements ∩
        signerKeys ops blake2b512 digest' statements').card :=
  Quorum.two_mul_le_add_card_inter (card_committeeKeys_le producerList) h.signerKeys_subset
    h'.signerKeys_subset (h.quorum_le_card lower) (h'.quorum_le_card lower)

end Keys

end CatalystNode
