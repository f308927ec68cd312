import Mathlib.Logic.Basic

/-!
Base64: three bytes are four digits, and what is encoded decodes again. The last digits are written with padding
and read with all of it, with some or without any.
-/

namespace Base64

def digit (value : Nat) : Char :=
  if value < 26 then Char.ofNat (65 + value)
  else if value < 52 then Char.ofNat (71 + value)
  else if value < 62 then Char.ofNat (value - 4)
  else if value = 62 then '+' else '/'

def digitValue (char : Char) : Option Nat :=
  let code := char.toNat
  if 65 ≤ code ∧ code ≤ 90 then some (code - 65)
  else if 97 ≤ code ∧ code ≤ 122 then some (code - 71)
  else if 48 ≤ code ∧ code ≤ 57 then some (code + 4)
  else if char = '+' then some 62
  else if char = '/' then some 63
  else none

def encode : List UInt8 → List Char
  | [] => []
  | [first] => [digit (first.toNat / 4), digit (first.toNat % 4 * 16), '=', '=']
  | [first, second] =>
      [digit (first.toNat / 4), digit (first.toNat % 4 * 16 + second.toNat / 16),
        digit (second.toNat % 16 * 4), '=']
  | first :: second :: third :: rest =>
      digit (first.toNat / 4) :: digit (first.toNat % 4 * 16 + second.toNat / 16) ::
        digit (second.toNat % 16 * 4 + third.toNat / 64) :: digit (third.toNat % 64) :: encode rest

def firstByte (first second : Nat) : UInt8 := UInt8.ofNat (first * 4 + second / 16)

def secondByte (second third : Nat) : UInt8 := UInt8.ofNat (second % 16 * 16 + third / 4)

def thirdByte (third fourth : Nat) : UInt8 := UInt8.ofNat (third % 4 * 64 + fourth)

/-- Two digits and a third where it is no padding; what they hold beyond the last byte has to be zero. -/
def decodeLast (first second third : Char) : Option (List UInt8) :=
  match digitValue first, digitValue second with
  | some first, some second =>
      if third = '=' then
        if second % 16 = 0 then some [firstByte first second] else none
      else
        match digitValue third with
        | none => none
        | some third =>
            if third % 4 = 0 then some [firstByte first second, secondByte second third] else none
  | _, _ => none

def decode : List Char → Option (List UInt8)
  | [] => some []
  | [_] => none
  | [first, second] => decodeLast first second '='
  | [first, second, third] => decodeLast first second third
  | first :: second :: third :: fourth :: rest =>
      if fourth = '=' ∧ rest = [] then decodeLast first second third
      else
        match digitValue first, digitValue second, digitValue third, digitValue fourth, decode rest with
        | some first, some second, some third, some fourth, some bytes =>
            some (firstByte first second :: secondByte second third :: thirdByte third fourth :: bytes)
        | _, _, _, _, _ => none

theorem digitValue_digit : ∀ value < 64, digitValue (digit value) = some value := by decide

theorem digit_ne_padding : ∀ value < 64, digit value ≠ '=' := by decide

theorem digit_visible : ∀ value < 64, 33 ≤ (digit value).toNat ∧ (digit value).toNat < 127 := by decide

theorem firstByte_eq (first second : UInt8) :
    firstByte (first.toNat / 4) (first.toNat % 4 * 16 + second.toNat / 16) = first := by
  have bound := second.toNat_lt
  rw [firstByte, show first.toNat / 4 * 4 + (first.toNat % 4 * 16 + second.toNat / 16) / 16 = first.toNat by
    omega, UInt8.ofNat_toNat]

theorem secondByte_eq (first second third : UInt8) :
    secondByte (first.toNat % 4 * 16 + second.toNat / 16) (second.toNat % 16 * 4 + third.toNat / 64) =
      second := by
  have bound := second.toNat_lt
  have thirdBound := third.toNat_lt
  rw [secondByte, show (first.toNat % 4 * 16 + second.toNat / 16) % 16 * 16 +
    (second.toNat % 16 * 4 + third.toNat / 64) / 4 = second.toNat by omega, UInt8.ofNat_toNat]

theorem thirdByte_eq (second third : UInt8) :
    thirdByte (second.toNat % 16 * 4 + third.toNat / 64) (third.toNat % 64) = third := by
  have bound := third.toNat_lt
  rw [thirdByte, show (second.toNat % 16 * 4 + third.toNat / 64) % 4 * 64 + third.toNat % 64 =
    third.toNat by omega, UInt8.ofNat_toNat]

theorem decode_encode : ∀ bytes : List UInt8, decode (encode bytes) = some bytes
  | [] => rfl
  | [first] => by
      have bound := first.toNat_lt
      have byte := firstByte_eq first 0
      simp only [UInt8.toNat_zero, Nat.zero_div, Nat.add_zero] at byte
      simp [encode, decode, decodeLast, digitValue_digit (first.toNat / 4) (by omega),
        digitValue_digit (first.toNat % 4 * 16) (by omega), byte]
  | [first, second] => by
      have bound := first.toNat_lt
      have secondBound := second.toNat_lt
      have byte := secondByte_eq first second 0
      simp only [UInt8.toNat_zero, Nat.zero_div, Nat.add_zero] at byte
      simp [encode, decode, decodeLast, digitValue_digit (first.toNat / 4) (by omega),
        digitValue_digit (first.toNat % 4 * 16 + second.toNat / 16) (by omega),
        digitValue_digit (second.toNat % 16 * 4) (by omega),
        digit_ne_padding (second.toNat % 16 * 4) (by omega), firstByte_eq, byte]
  | first :: second :: third :: rest => by
      have bound := first.toNat_lt
      have secondBound := second.toNat_lt
      have thirdBound := third.toNat_lt
      simp [encode, decode, digitValue_digit (first.toNat / 4) (by omega),
        digitValue_digit (first.toNat % 4 * 16 + second.toNat / 16) (by omega),
        digitValue_digit (second.toNat % 16 * 4 + third.toNat / 64) (by omega),
        digitValue_digit (third.toNat % 64) (by omega),
        digit_ne_padding (third.toNat % 64) (by omega), decode_encode rest, firstByte_eq, secondByte_eq,
        thirdByte_eq]

theorem encode_visible : ∀ (bytes : List UInt8), ∀ char ∈ encode bytes, 33 ≤ char.toNat ∧ char.toNat < 127
  | [], char, member => by simp [encode] at member
  | [first], char, member => by
      have bound := first.toNat_lt
      simp only [encode, List.mem_cons, List.not_mem_nil, or_false] at member
      rcases member with rfl | rfl | rfl | rfl
      · exact digit_visible _ (by omega)
      · exact digit_visible _ (by omega)
      · decide
      · decide
  | [first, second], char, member => by
      have bound := first.toNat_lt
      have secondBound := second.toNat_lt
      simp only [encode, List.mem_cons, List.not_mem_nil, or_false] at member
      rcases member with rfl | rfl | rfl | rfl
      · exact digit_visible _ (by omega)
      · exact digit_visible _ (by omega)
      · exact digit_visible _ (by omega)
      · decide
  | first :: second :: third :: rest, char, member => by
      have bound := first.toNat_lt
      have secondBound := second.toNat_lt
      have thirdBound := third.toNat_lt
      simp only [encode, List.mem_cons] at member
      rcases member with rfl | rfl | rfl | rfl | later
      · exact digit_visible _ (by omega)
      · exact digit_visible _ (by omega)
      · exact digit_visible _ (by omega)
      · exact digit_visible _ (by omega)
      · exact encode_visible rest char later

end Base64
