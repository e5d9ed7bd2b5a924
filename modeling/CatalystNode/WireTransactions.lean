import CatalystNode.SignatureBinding
import CatalystNode.TxBatchIngress
import CatalystNode.WireCaps

namespace CatalystNode

open ByteVector HexCodec

def txWireMagicV1 : Bytes := utf8 "CTX1"

def maxTxWireBytes : Nat := 64 * 1024

def Transaction.toV1 (tx : Transaction) : TransactionV1 := ⟨tx.core, tx.signature, tx.timestamp⟩

/-- A transaction of the first wire form: Schnorr signed, its sender key not sent along. -/
def TransactionV1.upgrade (v1 : TransactionV1) : Transaction where
  core := v1.core
  signatureScheme := sigSchemeSchnorrV1
  signature := v1.signature
  senderPubkey := none
  timestamp := v1.timestamp

def encodeWireTxV1 (tx : Transaction) : Bytes := txWireMagicV1 ++ serialize tx.toV1

def encodeWireTxV2 (tx : Transaction) : Bytes := txWireMagicV2 ++ serialize tx

/-- What a reader makes of its bytes; the reader's own reason for a failure is left out. -/
def orDecodeError {α : Type} (context : String) (value : Option α) : Except String α :=
  value.elim (.error context) .ok

section Wire

variable (bincodeTxV1 : Bytes → Option TransactionV1) (blake2b512 : Bytes → ByteVec 64)

/-- Bytes without a known magic are read as bincode. -/
def decodeWireTxAny (bytes : Bytes) : Except String Transaction :=
  if maxTxWireBytes < bytes.length then
    .error s!"tx too large: bytes={bytes.length} max={maxTxWireBytes}"
  else if bytes.take 4 = txWireMagicV2 then orDecodeError "decode v2 tx" (deserialize (bytes.drop 4))
  else if bytes.take 4 = txWireMagicV1 then
    (orDecodeError "decode v1 tx" (deserialize (bytes.drop 4))).map TransactionV1.upgrade
  else (orDecodeError "decode legacy tx" (bincodeTxV1 bytes)).map TransactionV1.upgrade

def txIdV2 (tx : Transaction) : Hash := blake2b512Trunc32 blake2b512 (encodeWireTxV2 tx)

end Wire

theorem serialize_injOn {α : Type} [CatalystSerialize α] [CatalystDeserialize α]
    [SerializedSize α] [Capped α] [LawfulCodec α] :
    Set.InjOn (serialize : α → Bytes) {x | withinCaps x} := by
  intro x hx y hy same
  refine Option.some.inj ?_
  rw [← deserialize_serialize hx, same, deserialize_serialize hy]

theorem encodeWireTxV2_injOn : Set.InjOn encodeWireTxV2 {tx | withinCaps tx} :=
  fun _ hx _ hy same => serialize_injOn hx hy (List.append_cancel_left same)

theorem length_encodeWireTxV1_le (tx : Transaction) :
    (encodeWireTxV1 tx).length ≤ (encodeWireTxV2 tx).length := by
  have v1 : serialize tx.toV1 = serialize tx.core ++ serialize tx.signature ++
      serialize tx.timestamp := rfl
  have v2 : serialize tx = serialize tx.core ++ serialize tx.signatureScheme ++
      serialize tx.signature ++ serialize tx.senderPubkey ++ serialize tx.timestamp := rfl
  have magic : txWireMagicV1.length = txWireMagicV2.length := by decide
  rw [encodeWireTxV1, encodeWireTxV2, v1, v2]
  simp only [List.length_append, magic]
  omega

theorem withinCaps_toV1 {tx : Transaction} (caps : withinCaps tx) : withinCaps tx.toV1 := by
  obtain ⟨core, signature, -⟩ : withinCaps tx.core = true ∧ withinCaps tx.signature = true ∧
      withinCaps tx.senderPubkey = true := by
    simpa only [withinCaps, decide_eq_true_eq] using caps
  exact decide_eq_true ⟨core, signature⟩

/-- A transaction that fits the wire is read back from its second form, and from its first one up to
what that form leaves out; and its id is its own. -/
theorem wireTx_roundTrip (bincodeTxV1 : Bytes → Option TransactionV1)
    (blake2b512 : Bytes → ByteVec 64) (tx : Transaction)
    (small : (encodeWireTxV2 tx).length ≤ maxTxWireBytes) (caps : withinCaps tx) :
    decodeWireTxAny bincodeTxV1 (encodeWireTxV2 tx) = .ok tx ∧
    decodeWireTxAny bincodeTxV1 (encodeWireTxV1 tx) =
      .ok { tx with signatureScheme := sigSchemeSchnorrV1, senderPubkey := none } ∧
    ∀ other : Transaction, withinCaps other →
      Set.InjOn (blake2b512Trunc32 blake2b512) {encodeWireTxV2 tx, encodeWireTxV2 other} →
      tx ≠ other → txIdV2 blake2b512 tx ≠ txIdV2 blake2b512 other := by
  have other : txWireMagicV1 ≠ txWireMagicV2 := by decide
  refine ⟨?_, ?_, ?_⟩
  · have magic : (encodeWireTxV2 tx).take 4 = txWireMagicV2 := List.take_left' rfl
    have body : (encodeWireTxV2 tx).drop 4 = serialize tx := List.drop_left' rfl
    rw [decodeWireTxAny, if_neg (not_lt.mpr small), if_pos magic, body, deserialize_serialize caps]
    rfl
  · have magic : (encodeWireTxV1 tx).take 4 = txWireMagicV1 := List.take_left' rfl
    have body : (encodeWireTxV1 tx).drop 4 = serialize tx.toV1 := List.drop_left' rfl
    have small' := (length_encodeWireTxV1_le tx).trans small
    rw [decodeWireTxAny, if_neg (not_lt.mpr small'), magic, if_neg other, if_pos rfl, body,
      deserialize_serialize (withinCaps_toV1 caps)]
    rfl
  · intro other capsOther collisionFree apart same
    have encodings := collisionFree (Or.inl rfl) (Or.inr rfl) same
    exact apart (encodeWireTxV2_injOn caps capsOther encodings)

def sampleWireTx : Transaction :=
  ⟨⟨.nonConfidentialTransfer, [⟨zeros 32, .nonConfidential (-7)⟩, ⟨padTo 32 [1], .nonConfidential 7⟩],
    1, 0, 3, []⟩, 1, [9, 9], some [1, 2], 11⟩

theorem wireTx_roundTrip_transfer :
    decodeWireTxAny (fun _ => none) (encodeWireTxV2 sampleWireTx) = .ok sampleWireTx ∧
    decodeWireTxAny (fun _ => none) (encodeWireTxV1 sampleWireTx) =
      .ok { sampleWireTx with signatureScheme := sigSchemeSchnorrV1, senderPubkey := none } := by
  have trip := wireTx_roundTrip (fun _ => none) checksum sampleWireTx (by decide +kernel)
    (by decide +kernel)
  exact ⟨trip.1, trip.2.1⟩

end CatalystNode
