import CatalystNode.FourPhaseAgreement
import CatalystNode.WireCodec

namespace CatalystNode

open ByteVector HexCodec CanonicalList Plurality FoldTrace

/-- A full update sent along with a producer's output, for nodes that only observe the cycle. -/
structure LedgerStateUpdateBroadcast where
  lsu : LedgerStateUpdate
  cycleNumber : UInt64
  producerId : ProducerId
  deriving DecidableEq

instance instSerializeLsuBroadcast : CatalystSerialize LedgerStateUpdateBroadcast :=
  ⟨fun b => serialize b.lsu ++ serialize b.cycleNumber ++ serialize b.producerId⟩

instance instDeserializeLsuBroadcast : CatalystDeserialize LedgerStateUpdateBroadcast where
  deserializeFrom data := do
    let (lsu, data) ← deserializeFrom data
    let (cycleNumber, data) ← deserializeFrom data
    let (producerId, data) ← deserializeFrom data
    return (⟨lsu, cycleNumber, producerId⟩, data)

section Observe

variable (blake2b512 : Bytes → ByteVec 64) (currentCycle : UInt64)

end Observe

section Heard

variable {α : Type} [CatalystDeserialize α]

end Heard

end CatalystNode
