import BtcRpcProxy.RpcMethodsCore

/-!
Hexadecimal as the proxy reads and writes it: what is written reads back, and a text that is
read is, in lower case, what is written for its bytes.
-/

namespace BtcRpcProxy

open Blocks

theorem hexDigit_of_code : ∀ code < 103, ∀ value < 16,
    hexValue (Char.ofNat code) = some value ↔ (Char.ofNat code).toLower = hexDigit value := by
  decide +kernel

theorem hexValue_lt {char : Char} {value : Nat} (isValue : hexValue char = some value) :
    char.toNat < 103 ∧ value < 16 := by
  unfold hexValue at isValue
  split_ifs at isValue <;> simp only [Option.some.injEq] at isValue <;> omega

theorem toNat_of_toLower {char : Char} {value : Nat} (small : value < 16)
    (isDigit : char.toLower = hexDigit value) : char.toNat < 103 := by
  have digitCode : ∀ value < 16, (hexDigit value).toNat < 103 := by decide
  unfold Char.toLower at isDigit
  split at isDigit
  · rename_i isUpper
    have below : char.toNat ≤ 'Z'.toNat := UInt32.le_iff_toNat_le.mp isUpper.2
    exact Nat.lt_of_le_of_lt below (by decide)
  · exact isDigit ▸ digitCode value small

/-- A digit is read as the value whose digit it is in lower case. -/
theorem hexValue_eq_some_iff {char : Char} {value : Nat} :
    hexValue char = some value ↔ value < 16 ∧ char.toLower = hexDigit value := by
  constructor
  · intro isValue
    obtain ⟨inRange, small⟩ := hexValue_lt isValue
    have digit := hexDigit_of_code char.toNat inRange value small
    rw [Char.ofNat_toNat] at digit
    exact ⟨small, digit.mp isValue⟩
  · rintro ⟨small, isDigit⟩
    have digit := hexDigit_of_code char.toNat (toNat_of_toLower small isDigit) value small
    rw [Char.ofNat_toNat] at digit
    exact digit.mpr isDigit

theorem byte_halves {byte : UInt8} {high low : Nat} (highSmall : high < 16) (lowSmall : low < 16) :
    UInt8.ofNat (16 * high + low) = byte ↔ high = byte.toNat / 16 ∧ low = byte.toNat % 16 := by
  have bound := byte.toNat_lt
  rw [← UInt8.toNat_inj, UInt8.toNat_ofNat']
  omega

theorem hexBytes_cons_eq_some_iff {high low : Char} {rest : List Char} {byte : UInt8} {bytes : List UInt8} :
    hexBytes (high :: low :: rest) = some (byte :: bytes) ↔
      hexValue high = some (byte.toNat / 16) ∧ hexValue low = some (byte.toNat % 16) ∧
        hexBytes rest = some bytes := by
  constructor
  · intro read
    simp only [hexBytes] at read
    split at read
    · rename_i highValue lowValue decoded isHigh isLow isRest
      simp only [Option.some.injEq, List.cons.injEq] at read
      obtain ⟨rfl, rfl⟩ := (byte_halves (hexValue_lt isHigh).2 (hexValue_lt isLow).2).mp read.1
      exact ⟨isHigh, isLow, read.2 ▸ isRest⟩
    · simp at read
  · rintro ⟨isHigh, isLow, isRest⟩
    have isByte := (byte_halves (hexValue_lt isHigh).2 (hexValue_lt isLow).2).mpr ⟨rfl, rfl⟩
    simp only [hexBytes, isHigh, isLow, isRest, isByte]

theorem hexBytes_cons_ne_nil {high low : Char} {rest : List Char} :
    hexBytes (high :: low :: rest) ≠ some [] := by
  simp only [hexBytes]
  split <;> simp

/-- The bytes a text is read as are those it is written for, in lower case. -/
theorem hexBytes_eq_some_iff : ∀ {text : List Char} {bytes : List UInt8},
    hexBytes text = some bytes ↔ text.map Char.toLower = hexChars bytes
  | [], bytes => by cases bytes <;> simp [hexBytes, hexChars]
  | [char], bytes => by cases bytes <;> simp [hexBytes, hexChars]
  | high :: low :: rest, [] => by simp [hexBytes_cons_ne_nil, hexChars]
  | high :: low :: rest, byte :: bytes => by
      have bound := byte.toNat_lt
      have highSmall : byte.toNat / 16 < 16 := by omega
      have lowSmall : byte.toNat % 16 < 16 := by omega
      rw [hexBytes_cons_eq_some_iff, hexBytes_eq_some_iff, hexValue_eq_some_iff, hexValue_eq_some_iff]
      simp [hexChars, highSmall, lowSmall]

theorem toLower_hexChars (bytes : List UInt8) : (hexChars bytes).map Char.toLower = hexChars bytes := by
  have lower : ∀ value < 16, (hexDigit value).toLower = hexDigit value := by decide
  induction bytes with
  | nil => rfl
  | cons byte rest ih =>
      have bound := byte.toNat_lt
      simp only [hexChars, List.map_cons, ih, lower _ (Nat.mod_lt _ (by decide : 0 < 16)),
        lower (byte.toNat / 16) (by omega)]

theorem hexBytes_hexChars (bytes : List UInt8) : hexBytes (hexChars bytes) = some bytes :=
  hexBytes_eq_some_iff.mpr (toLower_hexChars bytes)

/-! Hashes. -/

/-- The text is the hash as it is printed, in digits of either case. -/
def PrintsHash (text : String) (hash : Digest) : Prop :=
  text.toList.map Char.toLower = hexChars hash.val.reverse

theorem readHash_eq_some_iff {value : Json} {hash : Digest} :
    readHash value = some hash ↔ ∃ text, value = .string text ∧ PrintsHash text hash := by
  cases value with
  | string text =>
      simp only [readHash, Json.string.injEq, exists_eq_left', PrintsHash, ← hexBytes_eq_some_iff]
      cases read : hexBytes text.toList with
      | none => simp
      | some bytes =>
          have lengths := hash.property
          dsimp only
          split
          · rw [Option.some.injEq, Option.some.injEq, ← Subtype.val_inj, List.reverse_eq_iff]
          · rename_i wrongLength
            simp only [reduceCtorEq, Option.some.injEq, false_iff]
            rintro rfl
            simp [lengths] at wrongLength
  | _ => simp [readHash]

theorem readHash_encodeHash (hash : Digest) : readHash (encodeHash hash) = some hash := by
  refine readHash_eq_some_iff.mpr ⟨_, rfl, ?_⟩
  simp [PrintsHash, hexEncode, toLower_hexChars]

end BtcRpcProxy
