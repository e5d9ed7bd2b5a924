import CatalystNode.PrefixCode
import CatalystNode.WireCodec

namespace CatalystNode

open ByteVector HexCodec PrefixCode

theorem prefixFree_leBytes (width : Nat) : PrefixFree (· < 256 ^ width) (leBytes width) :=
  .of_fixedLength width (fun n _ => length_leBytes width n) (fun _ _ => leBytes_inj)

/-- A value whose encoding says where it ends, if its vectors are short enough for their length
prefixes. -/
class SelfDelimiting (α : Type) [CatalystSerialize α] where
  fits : α → Prop
  prefixFree : PrefixFree fits (serialize : α → Bytes)

export SelfDelimiting (fits)

section Scalars

instance instDelimitingUInt8 : SelfDelimiting UInt8 where
  fits _ := True
  prefixFree := .of_fixedLength 1 (fun _ _ => rfl) (fun _ _ _ _ same => List.singleton_inj.mp same)

instance instDelimitingUInt32 : SelfDelimiting UInt32 where
  fits _ := True
  prefixFree := (prefixFree_leBytes 4).comap (fun x _ => x.toNat_lt) (fun _ _ => UInt32.toNat_inj.mp)

instance instDelimitingUInt64 : SelfDelimiting UInt64 where
  fits _ := True
  prefixFree := (prefixFree_leBytes 8).comap (fun x _ => x.toNat_lt) (fun _ _ => UInt64.toNat_inj.mp)

instance instDelimitingInt64 : SelfDelimiting Int64 where
  fits _ := True
  prefixFree := (prefixFree_leBytes 8).comap (fun x _ => x.toUInt64.toNat_lt)
    (fun _ _ same => congrArg UInt64.toInt64 (UInt64.toNat_inj.mp same))

instance instDelimitingByteVec (n : Nat) : SelfDelimiting (ByteVec n) where
  fits _ := True
  prefixFree := .of_fixedLength n (fun v _ => v.toList_length) (fun _ _ _ _ => Subtype.ext)

end Scalars

section Sequences

variable {α : Type} [CatalystSerialize α] [SelfDelimiting α]

instance instDelimitingList : SelfDelimiting (List α) where
  fits items := items.length < 256 ^ 4 ∧ ∀ x ∈ items, fits x
  prefixFree := SelfDelimiting.prefixFree.counted (prefixFree_leBytes 4)

instance instDelimitingOption : SelfDelimiting (Option α) where
  fits o := ∀ x ∈ o, fits x
  prefixFree := by
    intro x y hx hy r s same
    cases x with
    | none =>
      cases y with
      | none => exact ⟨rfl, List.tail_eq_of_cons_eq same⟩
      | some v => exact absurd (List.head_eq_of_cons_eq same) (by decide)
    | some u =>
      cases y with
      | none => exact absurd (List.head_eq_of_cons_eq same) (by decide)
      | some v =>
        obtain ⟨rfl, rest⟩ := SelfDelimiting.prefixFree (hx u rfl) (hy v rfl)
          (List.tail_eq_of_cons_eq same)
        exact ⟨rfl, rest⟩

end Sequences

section Transactions

theorem TransactionType.tag_injective : Function.Injective TransactionType.tag := by
  intro t u same
  cases t <;> cases u <;> first | rfl | exact absurd same (by decide)

instance instDelimitingTransactionType : SelfDelimiting TransactionType where
  fits _ := True
  prefixFree := (instDelimitingUInt8.prefixFree).comap (fun _ _ => trivial)
    TransactionType.tag_injective

instance instDelimitingEntryAmount : SelfDelimiting EntryAmount where
  fits
    | .nonConfidential _ => True
    | .confidential _ rangeProof => fits rangeProof
  prefixFree := by
    intro x y hx hy r s same
    cases x with
    | nonConfidential v =>
      cases y with
      | nonConfidential w =>
        obtain ⟨rfl, rest⟩ := instDelimitingInt64.prefixFree trivial trivial
          (List.tail_eq_of_cons_eq same)
        exact ⟨rfl, rest⟩
      | confidential c p => exact absurd (List.head_eq_of_cons_eq same) (by decide)
    | confidential c p =>
      cases y with
      | nonConfidential w => exact absurd (List.head_eq_of_cons_eq same) (by decide)
      | confidential d q =>
        have fields : (serialize c ++ serialize p) ++ r = (serialize d ++ serialize q) ++ s :=
          List.tail_eq_of_cons_eq same
        rw [List.append_assoc, List.append_assoc] at fields
        obtain ⟨rfl, proofs⟩ := (instDelimitingByteVec 32).prefixFree trivial trivial fields
        obtain ⟨rfl, rest⟩ := SelfDelimiting.prefixFree hx hy proofs
        exact ⟨rfl, rest⟩

instance instDelimitingProtocolEntry : SelfDelimiting ProtocolEntry where
  fits e := fits e.amount
  prefixFree := by
    intro x y hx hy r s same
    obtain ⟨key, amount⟩ := x
    obtain ⟨key', amount'⟩ := y
    change (serialize key ++ serialize amount) ++ r = (serialize key' ++ serialize amount') ++ s at same
    rw [List.append_assoc, List.append_assoc] at same
    obtain ⟨rfl, amounts⟩ := SelfDelimiting.prefixFree trivial trivial same
    obtain ⟨rfl, rest⟩ := SelfDelimiting.prefixFree hx hy amounts
    exact ⟨rfl, rest⟩

instance instDelimitingTransactionCore : SelfDelimiting TransactionCore where
  fits c := fits c.entries ∧ fits c.data
  prefixFree := by
    intro x y hx hy r s same
    obtain ⟨txType, entries, nonce, lockTime, fees, data⟩ := x
    obtain ⟨txType', entries', nonce', lockTime', fees', data'⟩ := y
    change (serialize txType ++ serialize entries ++ serialize nonce ++ serialize lockTime ++
        serialize fees ++ serialize data) ++ r =
      (serialize txType' ++ serialize entries' ++ serialize nonce' ++ serialize lockTime' ++
        serialize fees' ++ serialize data') ++ s at same
    simp only [List.append_assoc] at same
    obtain ⟨rfl, afterType⟩ := SelfDelimiting.prefixFree trivial trivial same
    obtain ⟨rfl, afterEntries⟩ := SelfDelimiting.prefixFree hx.1 hy.1 afterType
    obtain ⟨rfl, afterNonce⟩ := SelfDelimiting.prefixFree trivial trivial afterEntries
    obtain ⟨rfl, afterLock⟩ := SelfDelimiting.prefixFree trivial trivial afterNonce
    obtain ⟨rfl, afterFees⟩ := SelfDelimiting.prefixFree trivial trivial afterLock
    obtain ⟨rfl, rest⟩ := SelfDelimiting.prefixFree hx.2 hy.2 afterFees
    exact ⟨rfl, rest⟩

end Transactions

end CatalystNode
