/-
S3rm/Text/Percent.lean

Percent-coding of bytes, over any set of characters that stand for
themselves.

    percentEncode plain   bytes of plain characters as they are, others as %XX
    percentDecode         reads %XX back, other characters as their UTF-8

The decoder inverts the encoder as long as plain characters are ASCII and
'%' is not one of them (`PlainSet`); no other character is in an encoding but
the plain ones, '%' and hexadecimal digits.
-/
import Mathlib.Data.List.Basic

namespace S3rm.Text

/-! ### Hexadecimal digits -/

/-- An upper-case hexadecimal digit. -/
def hexDigit (n : Nat) : Char := if n < 10 then Char.ofNat (48 + n) else Char.ofNat (55 + n)

/-- The value of a hexadecimal digit of either case. -/
def hexValue (c : Char) : Option Nat :=
  if '0' ≤ c ∧ c ≤ '9' then some (c.toNat - 48)
  else if 'A' ≤ c ∧ c ≤ 'F' then some (c.toNat - 55)
  else if 'a' ≤ c ∧ c ≤ 'f' then some (c.toNat - 87)
  else none

theorem hexValue_hexDigit : ∀ n < 16, hexValue (hexDigit n) = some n := by decide

/-! ### The code -/

/-- The characters that stand for themselves. -/
structure PlainSet (plain : Char → Bool) : Prop where
  ascii : ∀ c, plain c → c.toNat < 128
  percent : plain '%' = false

def encodeByte (plain : Char → Bool) (byte : UInt8) : List Char :=
  let c := Char.ofNat byte.toNat
  if plain c then [c] else ['%', hexDigit (byte.toNat / 16), hexDigit (byte.toNat % 16)]

def percentEncode (plain : Char → Bool) (bytes : List UInt8) : List Char :=
  bytes.flatMap (encodeByte plain)

/-- A '%' that no two hexadecimal digits follow stands for itself. -/
def percentDecode : List Char → List UInt8
  | [] => []
  | '%' :: hi :: lo :: rest =>
    match hexValue hi, hexValue lo with
    | some h, some l => UInt8.ofNat (16 * h + l) :: percentDecode rest
    | _, _ => String.utf8EncodeChar '%' ++ percentDecode (hi :: lo :: rest)
  | c :: rest => String.utf8EncodeChar c ++ percentDecode rest

section code

variable {plain : Char → Bool}

theorem percentDecode_cons {c : Char} (hc : c ≠ '%') (rest : List Char) :
    percentDecode (c :: rest) = String.utf8EncodeChar c ++ percentDecode rest := by
  rw [percentDecode]
  intro hi lo rest' heq
  cases heq
  exact absurd rfl hc

theorem percentDecode_percent {h l : Nat} (hh : h < 16) (hl : l < 16) (rest : List Char) :
    percentDecode ('%' :: hexDigit h :: hexDigit l :: rest) =
      UInt8.ofNat (16 * h + l) :: percentDecode rest := by
  rw [percentDecode, hexValue_hexDigit h hh, hexValue_hexDigit l hl]

theorem toNat_ofNat_byte (byte : UInt8) : (Char.ofNat byte.toNat).toNat = byte.toNat := by
  have hlt := byte.toNat_lt
  have hvalid : byte.toNat.isValidChar := Or.inl (by omega)
  rw [Char.ofNat, dif_pos hvalid]
  rfl

/-- An ASCII byte is the UTF-8 of its character. -/
theorem utf8EncodeChar_ofNat {byte : UInt8} (h : byte.toNat < 128) :
    String.utf8EncodeChar (Char.ofNat byte.toNat) = [byte] := by
  have hval := toNat_ofNat_byte byte
  simp [String.utf8EncodeChar, hval, show byte.toNat ≤ 127 by omega]

/-- Of one byte: the step of the round trip. -/
theorem percentDecode_encodeByte (hp : PlainSet plain) (byte : UInt8) (rest : List Char) :
    percentDecode (encodeByte plain byte ++ rest) = byte :: percentDecode rest := by
  have hlt := byte.toNat_lt
  simp only [encodeByte]
  split
  next hplain =>
    have hne : Char.ofNat byte.toNat ≠ '%' := by
      intro heq
      rw [heq, hp.percent] at hplain
      cases hplain
    have hascii := hp.ascii _ hplain
    rw [toNat_ofNat_byte] at hascii
    rw [List.singleton_append, percentDecode_cons hne, utf8EncodeChar_ofNat hascii]
    rfl
  next =>
    show percentDecode ('%' :: hexDigit _ :: hexDigit _ :: rest) = _
    rw [percentDecode_percent (by omega) (by omega), Nat.div_add_mod, UInt8.ofNat_toNat]

theorem percentDecode_encode (hp : PlainSet plain) (bytes : List UInt8) :
    percentDecode (percentEncode plain bytes) = bytes := by
  induction bytes with
  | nil => rfl
  | cons byte bytes ih =>
    show percentDecode (encodeByte plain byte ++ percentEncode plain bytes) = _
    rw [percentDecode_encodeByte hp, ih]

/-- A character outside the code's alphabet is in no encoding. -/
theorem not_mem_percentEncode {c : Char} (hplain : plain c = false) (hp : c ≠ '%')
    (hx : hexValue c = none) (bytes : List UInt8) : c ∉ percentEncode plain bytes := by
  intro hmem
  obtain ⟨byte, -, hc⟩ := List.mem_flatMap.mp hmem
  have hlt := byte.toNat_lt
  have hdigit : ∀ n < 16, c ≠ hexDigit n := by
    intro n hn heq
    rw [heq, hexValue_hexDigit n hn] at hx
    cases hx
  simp only [encodeByte] at hc
  split at hc
  next hbyte =>
    rw [List.mem_singleton] at hc
    rw [← hc, hplain] at hbyte
    cases hbyte
  next =>
    rcases List.mem_cons.mp hc with h | hc
    · exact hp h
    rcases List.mem_cons.mp hc with h | hc
    · exact hdigit _ (by omega) h
    · exact hdigit _ (by omega) (List.mem_singleton.mp hc)

end code

/-! ### Strings -/

theorem byteArray_toList_loop (bytes : ByteArray) (i : Nat) (acc : List UInt8) :
    ByteArray.toList.loop bytes i acc = acc.reverse ++ bytes.data.toList.drop i := by
  fun_induction ByteArray.toList.loop bytes i acc with
  | case1 i acc hi ih =>
    have hi' : i < bytes.data.toList.length := hi
    have hget : bytes.get! i = bytes.data.toList[i] := getElem!_pos bytes.data i hi
    rw [ih, List.drop_eq_getElem_cons hi', hget, List.reverse_cons, List.append_assoc]
    rfl
  | case2 i acc hi =>
    rw [List.drop_eq_nil_of_le (Nat.le_of_not_lt hi), List.append_nil]

theorem toByteArray_toList (bytes : ByteArray) : bytes.toList.toByteArray = bytes := by
  apply ByteArray.ext
  apply Array.toList_inj.mp
  rw [ByteArray.toList, byteArray_toList_loop, List.toList_data_toByteArray]
  rfl

/-- The string whose UTF-8 a percent-coded text stands for. -/
def percentDecodeString (text : List Char) : Option String :=
  String.fromUTF8? (percentDecode text).toByteArray

def percentEncodeString (plain : Char → Bool) (s : String) : List Char :=
  percentEncode plain s.toUTF8.toList

theorem percentDecodeString_encode {plain : Char → Bool} (hp : PlainSet plain) (s : String) :
    percentDecodeString (percentEncodeString plain s) = some s := by
  have hbytes : (percentDecode (percentEncodeString plain s)).toByteArray = s.toByteArray := by
    show (percentDecode (percentEncode plain s.toUTF8.toList)).toByteArray = _
    rw [percentDecode_encode hp, toByteArray_toList]
    rfl
  rw [percentDecodeString, hbytes, String.fromUTF8?, dif_pos s.isValidUTF8]
  rfl

end S3rm.Text
