import CatalystNode.WireCaps

namespace CatalystNode

open ByteVector HexCodec Framing

class ExactReader (α : Type) [CatalystSerialize α] [CatalystDeserialize α] : Prop where
  consumes : Consumes (fun data : Bytes => (deserializeFrom data : Option (α × Bytes))) serialize

open ExactReader (consumes)
open CappedReader (capped)

section Scalars

theorem append_of_readExact {n : Nat} {data bytes rest : Bytes}
    (read : readExact n data = some (bytes, rest)) : data = bytes ++ rest := by
  unfold readExact at read
  split at read
  next =>
    cases Option.some.inj read
    exact (List.take_append_drop n data).symm
  next => cases read

theorem leBytes_of_readExact {data bytes rest : Bytes}
    (read : readExact 8 data = some (bytes, rest)) :
    leBytes 8 (UInt64.ofNat (ofLeBytes bytes)).toNat = bytes := by
  have length := length_readExact read
  have bound := ofLeBytes_lt bytes
  rw [length] at bound
  rw [UInt64.toNat_ofNat_of_lt' bound]
  have written := leBytes_ofLeBytes bytes
  rwa [length] at written

instance instExactUInt8 : ExactReader UInt8 where
  consumes data x rest read := by
    cases data with
    | nil => cases read
    | cons b data =>
      cases Option.some.inj read
      rfl

instance instExactUInt64 : ExactReader UInt64 where
  consumes data x rest read := by
    obtain ⟨⟨bytes, rest'⟩, word, same⟩ := Option.map_eq_some_iff.mp read
    cases same
    rw [append_of_readExact word]
    exact congrArg (· ++ rest) (leBytes_of_readExact word).symm

instance instExactInt64 : ExactReader Int64 where
  consumes data x rest read := by
    obtain ⟨⟨bytes, rest'⟩, word, same⟩ := Option.map_eq_some_iff.mp read
    cases same
    rw [append_of_readExact word]
    exact congrArg (· ++ rest) (leBytes_of_readExact word).symm

instance instExactByteVec (n : Nat) : ExactReader (ByteVec n) where
  consumes data x rest read := by
    obtain ⟨⟨bytes, rest'⟩, exactly, read⟩ := Option.bind_eq_some_iff.mp read
    obtain ⟨v, array, read⟩ := Option.bind_eq_some_iff.mp read
    cases Option.some.inj read
    rw [append_of_readExact exactly]
    exact congrArg (· ++ rest) (toArray?_eq_some array).symm

instance instCappedReaderUInt64 : CappedReader UInt64 := ⟨fun _ => rfl⟩

instance instCappedReaderByteVec (n : Nat) : CappedReader (ByteVec n) := ⟨fun _ => rfl⟩

end Scalars

section Sequences

variable {α : Type} [CatalystSerialize α] [CatalystDeserialize α] [ExactReader α]

theorem consumes_readItems {n : Nat} {data rest : Bytes} {items : List α}
    (read : readItems n data = some (items, rest)) :
    items.length = n ∧ data = items.flatMap serialize ++ rest := by
  induction n generalizing data items with
  | zero =>
    cases Option.some.inj read
    exact ⟨rfl, rfl⟩
  | succ n ih =>
    obtain ⟨⟨item, rest₁⟩, first, read⟩ := Option.bind_eq_some_iff.mp read
    obtain ⟨⟨items', rest₂⟩, later, read⟩ := Option.bind_eq_some_iff.mp read
    cases Option.some.inj read
    obtain ⟨length, tail⟩ := ih later
    refine ⟨by rw [List.length_cons, length], ?_⟩
    rw [consumes first, tail, List.flatMap_cons, List.append_assoc]

instance instExactList : ExactReader (List α) where
  consumes data items rest read := by
    obtain ⟨⟨bytes, rest₁⟩, count, read⟩ := Option.bind_eq_some_iff.mp read
    change (if 1000000 < ofLeBytes bytes then none else readItems (ofLeBytes bytes) rest₁) = _ at read
    split at read
    next => cases read
    next =>
      obtain ⟨length, tail⟩ := consumes_readItems read
      have written := leBytes_ofLeBytes bytes
      rw [length_readExact count, ← length] at written
      rw [append_of_readExact count, tail, ← List.append_assoc]
      exact congrArg (· ++ items.flatMap serialize ++ rest) written.symm

end Sequences

instance instExactString : ExactReader String where
  consumes data s rest read := by
    obtain ⟨⟨bytes, rest₁⟩, count, read⟩ := Option.bind_eq_some_iff.mp read
    change (if 100000000 < ofLeBytes bytes then none
      else (readExact (ofLeBytes bytes) rest₁).bind (fun p =>
        (String.fromUTF8? ⟨p.1.toArray⟩).bind (fun s => some (s, p.2)))) = _ at read
    split at read
    next => cases read
    next =>
      obtain ⟨⟨text, rest₂⟩, exactly, read⟩ := Option.bind_eq_some_iff.mp read
      obtain ⟨t, valid, read⟩ := Option.bind_eq_some_iff.mp read
      cases Option.some.inj read
      have encoded : utf8 s = text := utf8_of_fromUTF8? valid
      have written := leBytes_ofLeBytes bytes
      rw [length_readExact count, ← length_readExact exactly, ← encoded] at written
      rw [append_of_readExact count, append_of_readExact exactly, ← encoded, ← List.append_assoc,
        ← written]
      change _ = leBytes 4 (utf8 s).length ++ (utf8 s).flatMap serialize ++ rest₂
      rw [flatMap_serialize_bytes]

section Updates

instance instExactTransactionEntry : ExactReader TransactionEntry where
  consumes data e rest read := by
    obtain ⟨_, publicKey, read⟩ := Option.bind_eq_some_iff.mp read
    obtain ⟨_, amount, read⟩ := Option.bind_eq_some_iff.mp read
    obtain ⟨_, signature, read⟩ := Option.bind_eq_some_iff.mp read
    cases Option.some.inj read
    rw [consumes publicKey, consumes amount, consumes signature]
    simp only [← List.append_assoc]
    rfl

instance instExactPartialLedgerStateUpdate : ExactReader PartialLedgerStateUpdate where
  consumes data p rest read := by
    obtain ⟨_, entries, read⟩ := Option.bind_eq_some_iff.mp read
    obtain ⟨_, signaturesHash, read⟩ := Option.bind_eq_some_iff.mp read
    obtain ⟨_, fees, read⟩ := Option.bind_eq_some_iff.mp read
    obtain ⟨_, timestamp, read⟩ := Option.bind_eq_some_iff.mp read
    cases Option.some.inj read
    rw [consumes entries, consumes signaturesHash, consumes fees, consumes timestamp]
    simp only [← List.append_assoc]
    rfl

instance instExactCompensationEntry : ExactReader CompensationEntry where
  consumes data e rest read := by
    obtain ⟨_, producerId, read⟩ := Option.bind_eq_some_iff.mp read
    obtain ⟨_, publicKey, read⟩ := Option.bind_eq_some_iff.mp read
    obtain ⟨_, amount, read⟩ := Option.bind_eq_some_iff.mp read
    cases Option.some.inj read
    rw [consumes producerId, consumes publicKey, consumes amount]
    simp only [← List.append_assoc]
    rfl

instance instExactLedgerStateUpdate : ExactReader LedgerStateUpdate where
  consumes data l rest read := by
    obtain ⟨_, partialUpdate, read⟩ := Option.bind_eq_some_iff.mp read
    obtain ⟨_, compensation, read⟩ := Option.bind_eq_some_iff.mp read
    obtain ⟨_, cycleNumber, read⟩ := Option.bind_eq_some_iff.mp read
    obtain ⟨_, producers, read⟩ := Option.bind_eq_some_iff.mp read
    obtain ⟨_, votes, read⟩ := Option.bind_eq_some_iff.mp read
    cases Option.some.inj read
    rw [consumes partialUpdate, consumes compensation, consumes cycleNumber, consumes producers,
      consumes votes]
    simp only [← List.append_assoc]
    rfl

end Updates

theorem deserialize_isSome_iff {α : Type} [CatalystSerialize α] [CatalystDeserialize α]
    [SerializedSize α] [Capped α] [LawfulCodec α] [CappedReader α] [ExactReader α] {data : Bytes} :
    (deserialize data : Option α).isSome ↔ ∃ x : α, withinCaps x = true ∧ serialize x <+: data := by
  have reads : ∀ x : α, (∃ rest, deserializeFrom data = some (x, rest)) ↔
      withinCaps x = true ∧ serialize x <+: data := fun x =>
    consumes.exists_read_iff (fun _ _ _ read => capped read) LawfulCodec.takes
  rw [deserialize, Option.isSome_map, Option.isSome_iff_exists]
  constructor
  · rintro ⟨⟨x, rest⟩, read⟩
    exact ⟨x, (reads x).mp ⟨rest, read⟩⟩
  · rintro ⟨x, begins⟩
    obtain ⟨rest, read⟩ := (reads x).mpr begins
    exact ⟨(x, rest), read⟩

end CatalystNode
