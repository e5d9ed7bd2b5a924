import CatalystNode.ByteVector

namespace HexCodec

open ByteVector

def utf8 (s : String) : Bytes := s.toByteArray.data.toList

theorem utf8_inj {s t : String} (h : utf8 s = utf8 t) : s = t :=
  String.toByteArray_inj.mp (ByteArray.ext (Array.toList_inj.mp h))

theorem toList_prefix_iff {s t : String} : s.toList <+: t.toList ↔ utf8 s <+: utf8 t := by
  constructor
  · have bytes : ∀ s : String, utf8 s = s.toList.flatMap String.utf8EncodeChar := by
      intro s
      rw [utf8, ← String.utf8Encode_toList, List.utf8Encode]
      simp
    rintro ⟨rest, same⟩
    rw [bytes, bytes, ← same, List.flatMap_append]
    exact List.prefix_append _ _
  · rintro ⟨rest, same⟩
    refine List.isPrefix_of_utf8Encode_append_eq_utf8Encode rest.toByteArray ?_
    rw [String.utf8Encode_toList, String.utf8Encode_toList]
    apply ByteArray.ext
    apply Array.toList_inj.mp
    rw [← utf8, ← same]
    simp [utf8]

def digitValue (b : UInt8) : Option UInt8 :=
  if 48 ≤ b ∧ b ≤ 57 then some (b - 48)
  else if 97 ≤ b ∧ b ≤ 102 then some (b - 87)
  else if 65 ≤ b ∧ b ≤ 70 then some (b - 55)
  else none

def lowerDigit (d : UInt8) : UInt8 := if d < 10 then d + 48 else d + 87

def decode : Bytes → Option Bytes
  | [] => some []
  | [_] => none
  | high :: low :: rest => do
    let h ← digitValue high
    let l ← digitValue low
    let bytes ← decode rest
    return (16 * h + l) :: bytes

/-- A byte as a quoted character, escaped where it is not printed as it is. -/
def quoted (b : UInt8) : String :=
  let escape := if b = 0 then "\\0" else if b = 9 then "\\t" else if b = 10 then "\\n"
    else if b = 13 then "\\r" else if b = 39 then "\\'" else if b = 92 then "\\\\"
    else if b < 32 ∨ (127 ≤ b ∧ b < 160) ∨ b = 173 then
      "\\u\x7b" ++ String.ofList (Nat.toDigits 16 b.toNat) ++ "\x7d"
    else String.singleton (Char.ofNat b.toNat)
  "'" ++ escape ++ "'"

/-- Why digits are not decoded: an odd number of them, or the first that is none. -/
def decodeError (digits : Bytes) : String :=
  if digits.length % 2 = 1 then "Odd number of digits"
  else
    let index := digits.findIdx (fun b => (digitValue b).isNone)
    "Invalid character " ++ quoted (digits.getD index 0) ++ " at position " ++ toString index

def encode : Bytes → Bytes
  | [] => []
  | b :: bs => lowerDigit (b / 16) :: lowerDigit (b % 16) :: encode bs

def encodeString (bs : Bytes) : String :=
  String.ofList ((encode bs).map (fun b => Char.ofNat b.toNat))

def LowerCase (bs : Bytes) : Prop := ∀ b ∈ bs, ¬(65 ≤ b ∧ b ≤ 70)

instance instDecidableLowerCase (bs : Bytes) : Decidable (LowerCase bs) :=
  inferInstanceAs (Decidable (∀ b ∈ bs, ¬(65 ≤ b ∧ b ≤ 70)))

theorem lowerDigit_of_decimal {b : UInt8} (range : 48 ≤ b ∧ b ≤ 57) :
    b - 48 < 16 ∧ lowerDigit (b - 48) = b := by
  obtain ⟨low, high⟩ := range
  have digit := UInt8.toNat_sub_of_le b 48 low
  rw [UInt8.le_iff_toNat_le] at low high
  simp only [UInt8.reduceToNat] at digit low high
  have small : b - 48 < 10 := by
    simp only [UInt8.lt_iff_toNat_lt, UInt8.reduceToNat]
    omega
  refine ⟨UInt8.lt_trans small (by decide), ?_⟩
  rw [lowerDigit, if_pos small, UInt8.sub_add_cancel]

theorem lowerDigit_of_letter {b : UInt8} (range : 97 ≤ b ∧ b ≤ 102) :
    b - 87 < 16 ∧ lowerDigit (b - 87) = b := by
  obtain ⟨low, high⟩ := range
  have digit := UInt8.toNat_sub_of_le b 87 (UInt8.le_trans (by decide) low)
  rw [UInt8.le_iff_toNat_le] at low high
  simp only [UInt8.reduceToNat] at digit low high
  have large : ¬b - 87 < 10 := by
    simp only [UInt8.lt_iff_toNat_lt, UInt8.reduceToNat]
    omega
  refine ⟨?_, ?_⟩
  · simp only [UInt8.lt_iff_toNat_lt, UInt8.reduceToNat]
    omega
  · rw [lowerDigit, if_neg large, UInt8.sub_add_cancel]

theorem digitValue_lower {b d : UInt8} (lower : ¬(65 ≤ b ∧ b ≤ 70)) (h : digitValue b = some d) :
    d < 16 ∧ lowerDigit d = b := by
  unfold digitValue at h
  split at h
  next decimal =>
    cases Option.some.inj h
    exact lowerDigit_of_decimal decimal
  next =>
    split at h
    next letter =>
      cases Option.some.inj h
      exact lowerDigit_of_letter letter
    next =>
      simp at h

theorem high_digit {h l : UInt8} (hh : h < 16) (hl : l < 16) : (16 * h + l) / 16 = h := by
  rw [UInt8.lt_iff_toNat_lt] at hh hl
  apply UInt8.toNat_inj.mp
  simp only [UInt8.toNat_div, UInt8.toNat_add, UInt8.toNat_mul, UInt8.reduceToNat] at *
  omega

theorem low_digit (h : UInt8) {l : UInt8} (hl : l < 16) : (16 * h + l) % 16 = l := by
  rw [UInt8.lt_iff_toNat_lt] at hl
  apply UInt8.toNat_inj.mp
  simp only [UInt8.toNat_mod, UInt8.toNat_add, UInt8.toNat_mul, UInt8.reduceToNat] at *
  omega

theorem encode_decode {bs v : Bytes} (lower : LowerCase bs) (h : decode bs = some v) :
    encode v = bs := by
  induction bs using decode.induct generalizing v with
  | case1 =>
    cases Option.some.inj h
    rfl
  | case2 b => simp [decode] at h
  | case3 high low rest ih =>
    rw [decode] at h
    obtain ⟨dh, hh, h⟩ := Option.bind_eq_some_iff.mp h
    obtain ⟨dl, hl, h⟩ := Option.bind_eq_some_iff.mp h
    obtain ⟨bytes, hb, h⟩ := Option.bind_eq_some_iff.mp h
    cases Option.some.inj h
    obtain ⟨dhLt, dhEq⟩ := digitValue_lower (lower high (by simp)) hh
    obtain ⟨dlLt, dlEq⟩ := digitValue_lower (lower low (by simp)) hl
    rw [encode, high_digit dhLt dlLt, low_digit dh dlLt, dhEq, dlEq,
      ih (fun b hb => lower b (by simp [hb])) hb]

theorem decode_inj_of_lower {bs cs v : Bytes} (lowerB : LowerCase bs) (lowerC : LowerCase cs)
    (hb : decode bs = some v) (hc : decode cs = some v) : bs = cs := by
  rw [← encode_decode lowerB hb, ← encode_decode lowerC hc]

/-- A written digit is printable, reads back, and is no upper-case digit. -/
theorem lowerDigit_spec {d : UInt8} (digit : d < 16) : lowerDigit d < 128 ∧
    digitValue (lowerDigit d) = some d ∧ ¬(65 ≤ lowerDigit d ∧ lowerDigit d ≤ 70) := by
  revert d
  decide +kernel

theorem digits_lt (b : UInt8) : b / 16 < 16 ∧ b % 16 < 16 := by
  have bound := b.toNat_lt
  simp only [UInt8.lt_iff_toNat_lt, UInt8.toNat_div, UInt8.toNat_mod, UInt8.reduceToNat]
  omega

theorem decode_encode (bs : Bytes) : decode (encode bs) = some bs := by
  induction bs with
  | nil => rfl
  | cons b bs ih =>
    obtain ⟨high, low⟩ := digits_lt b
    have joined : 16 * (b / 16) + b % 16 = b := by
      apply UInt8.toNat_inj.mp
      have bound := b.toNat_lt
      simp only [UInt8.toNat_add, UInt8.toNat_mul, UInt8.toNat_div, UInt8.toNat_mod,
        UInt8.reduceToNat]
      omega
    simp [encode, decode, (lowerDigit_spec high).2.1, (lowerDigit_spec low).2.1, ih, joined]

theorem length_encode (bs : Bytes) : (encode bs).length = 2 * bs.length := by
  induction bs with
  | nil => rfl
  | cons b bs ih =>
    rw [encode, List.length_cons, List.length_cons, List.length_cons, ih]
    omega

theorem mem_encode {bs : Bytes} {b : UInt8} (listed : b ∈ encode bs) :
    b < 128 ∧ ¬(65 ≤ b ∧ b ≤ 70) := by
  induction bs with
  | nil => simp [encode] at listed
  | cons c bs ih =>
    obtain ⟨high, low⟩ := digits_lt c
    rw [encode, List.mem_cons, List.mem_cons] at listed
    rcases listed with rfl | rfl | listed
    · exact ⟨(lowerDigit_spec high).1, (lowerDigit_spec high).2.2⟩
    · exact ⟨(lowerDigit_spec low).1, (lowerDigit_spec low).2.2⟩
    · exact ih listed

theorem utf8EncodeChar_ascii {b : UInt8} (ascii : b < 128) :
    String.utf8EncodeChar (Char.ofNat b.toNat) = [b] := by
  revert b
  decide +kernel

theorem utf8_encodeString (bs : Bytes) : utf8 (encodeString bs) = encode bs := by
  have encoded : utf8 (encodeString bs) =
      (encode bs).flatMap (fun b => String.utf8EncodeChar (Char.ofNat b.toNat)) := by
    simp [encodeString, utf8, List.utf8Encode, List.flatMap_map]
  rw [encoded, List.flatMap_congr (fun b listed => utf8EncodeChar_ascii (mem_encode listed).1),
    List.flatMap_singleton']

end HexCodec
