import CatalystNode.WireRoundTrip

namespace CatalystNode

open ByteVector HexCodec Framing

class CappedReader (α : Type) [CatalystDeserialize α] [Capped α] : Prop where
  capped : ∀ {data rest : Bytes} {x : α}, deserializeFrom data = some (x, rest) → withinCaps x

open CappedReader (capped)

instance instCappedReaderUInt8 : CappedReader UInt8 := ⟨fun _ => rfl⟩

theorem length_readExact {n : Nat} {data bytes rest : Bytes}
    (read : readExact n data = some (bytes, rest)) : bytes.length = n := by
  unfold readExact at read
  split at read
  next enough =>
    cases Option.some.inj read
    rw [List.length_take, Nat.min_eq_left enough]
  next => cases read

section Sequences

variable {α : Type} [CatalystDeserialize α] [Capped α] [CappedReader α]

theorem capped_readItems {n : Nat} {data rest : Bytes} {items : List α}
    (read : readItems n data = some (items, rest)) :
    items.length = n ∧ ∀ x ∈ items, withinCaps x := by
  induction n generalizing data items with
  | zero =>
    cases Option.some.inj read
    exact ⟨rfl, fun x listed => absurd listed List.not_mem_nil⟩
  | succ n ih =>
    obtain ⟨⟨item, rest₁⟩, first, read⟩ := Option.bind_eq_some_iff.mp read
    obtain ⟨⟨items', rest₂⟩, later, read⟩ := Option.bind_eq_some_iff.mp read
    cases Option.some.inj read
    obtain ⟨length, each⟩ := ih later
    refine ⟨by rw [List.length_cons, length], ?_⟩
    intro x listed
    rcases List.mem_cons.mp listed with rfl | listed
    · exact capped first
    · exact each x listed

instance instCappedReaderList : CappedReader (List α) where
  capped {data rest items} read := by
    obtain ⟨⟨bytes, rest₁⟩, _, read⟩ := Option.bind_eq_some_iff.mp read
    change (if 1000000 < ofLeBytes bytes then none else readItems (ofLeBytes bytes) rest₁) = _ at read
    split at read
    next => cases read
    next few =>
      obtain ⟨length, each⟩ := capped_readItems read
      have short : items.length ≤ 1000000 := by
        rw [length]
        exact Nat.not_lt.mp few
      simpa only [withinCaps, decide_eq_true_eq, List.all_eq_true] using And.intro short each

end Sequences

theorem utf8_of_fromUTF8? {text : Bytes} {s : String}
    (valid : String.fromUTF8? ⟨text.toArray⟩ = some s) : utf8 s = text := by
  unfold String.fromUTF8? at valid
  split at valid
  next =>
    cases Option.some.inj valid
    simp [utf8, String.fromUTF8]
  next => cases valid

instance instCappedReaderString : CappedReader String where
  capped {data rest s} read := by
    obtain ⟨⟨bytes, rest₁⟩, _, read⟩ := Option.bind_eq_some_iff.mp read
    change (if 100000000 < ofLeBytes bytes then none
      else (readExact (ofLeBytes bytes) rest₁).bind (fun p =>
        (String.fromUTF8? ⟨p.1.toArray⟩).bind (fun s => some (s, p.2)))) = _ at read
    split at read
    next => cases read
    next few =>
      obtain ⟨⟨text, rest₂⟩, exactly, read⟩ := Option.bind_eq_some_iff.mp read
      obtain ⟨t, valid, read⟩ := Option.bind_eq_some_iff.mp read
      cases Option.some.inj read
      have short : (utf8 s).length ≤ 100000000 := by
        rw [utf8_of_fromUTF8? valid, length_readExact exactly]
        exact Nat.not_lt.mp few
      simpa only [withinCaps, decide_eq_true_eq] using short

instance instCappedReaderTransactionEntry : CappedReader TransactionEntry where
  capped {data rest e} read := by
    obtain ⟨_, _, read⟩ := Option.bind_eq_some_iff.mp read
    obtain ⟨_, _, read⟩ := Option.bind_eq_some_iff.mp read
    obtain ⟨_, signature, read⟩ := Option.bind_eq_some_iff.mp read
    cases Option.some.inj read
    have caps := capped signature
    exact caps

instance instCappedReaderPartialLedgerStateUpdate : CappedReader PartialLedgerStateUpdate where
  capped {data rest p} read := by
    obtain ⟨_, entries, read⟩ := Option.bind_eq_some_iff.mp read
    obtain ⟨_, _, read⟩ := Option.bind_eq_some_iff.mp read
    obtain ⟨_, _, read⟩ := Option.bind_eq_some_iff.mp read
    obtain ⟨_, _, read⟩ := Option.bind_eq_some_iff.mp read
    cases Option.some.inj read
    have caps := capped entries
    exact caps

instance instCappedReaderCompensationEntry : CappedReader CompensationEntry where
  capped {data rest e} read := by
    obtain ⟨_, producerId, read⟩ := Option.bind_eq_some_iff.mp read
    obtain ⟨_, _, read⟩ := Option.bind_eq_some_iff.mp read
    obtain ⟨_, _, read⟩ := Option.bind_eq_some_iff.mp read
    cases Option.some.inj read
    have caps := capped producerId
    exact caps

instance instCappedReaderLedgerStateUpdate : CappedReader LedgerStateUpdate where
  capped {data rest l} read := by
    obtain ⟨_, partialUpdate, read⟩ := Option.bind_eq_some_iff.mp read
    obtain ⟨_, compensation, read⟩ := Option.bind_eq_some_iff.mp read
    obtain ⟨_, _, read⟩ := Option.bind_eq_some_iff.mp read
    obtain ⟨_, producers, read⟩ := Option.bind_eq_some_iff.mp read
    obtain ⟨_, votes, read⟩ := Option.bind_eq_some_iff.mp read
    cases Option.some.inj read
    have caps := And.intro (capped partialUpdate) (And.intro (capped compensation)
      (And.intro (capped producers) (capped votes)))
    simpa only [withinCaps, decide_eq_true_eq] using caps

theorem deserialize_serialize {α : Type} [CatalystSerialize α] [CatalystDeserialize α] [SerializedSize α]
    [Capped α] [LawfulCodec α] {x : α} (caps : withinCaps x) : deserialize (serialize x) = some x := by
  have taken := LawfulCodec.takes x caps []
  rw [List.append_nil] at taken
  rw [deserialize, taken]
  rfl

end CatalystNode
