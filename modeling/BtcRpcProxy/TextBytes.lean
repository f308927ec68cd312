import BtcRpcProxy.UsersCore

/-! Text as bytes, in UTF-8 and in a header, and how it is taken apart. -/

namespace BtcRpcProxy

theorem utf8Bytes_append (first second : String) :
    utf8Bytes (first ++ second) = utf8Bytes first ++ utf8Bytes second := by
  simp [utf8Bytes, String.toByteArray_append]

theorem fromUtf8_eq_some_iff {bytes : List UInt8} {text : String} :
    fromUtf8 bytes = some text ↔ utf8Bytes text = bytes := by
  unfold fromUtf8 String.fromUTF8?
  constructor
  · intro decoded
    split at decoded
    · simp only [Option.some.injEq] at decoded
      subst decoded
      simp [utf8Bytes, String.fromUTF8]
    · simp at decoded
  · rintro rfl
    have same : (⟨(utf8Bytes text).toArray⟩ : ByteArray) = text.toByteArray := by
      simp [utf8Bytes]
    rw [same]
    simp [text.isValidUTF8, String.fromUTF8]

theorem utf8Bytes_ascii {chars : List Char} (ascii : ∀ char ∈ chars, char.toNat < 128) :
    utf8Bytes (String.ofList chars) = chars.map fun char => UInt8.ofNat char.toNat := by
  have encoded : utf8Bytes (String.ofList chars) = chars.flatMap String.utf8EncodeChar := by
    simp [utf8Bytes, List.utf8Encode]
  rw [encoded]
  clear encoded
  induction chars with
  | nil => rfl
  | cons char rest ih =>
      have small : char.toNat ≤ 127 := Nat.le_of_lt_succ (ascii char List.mem_cons_self)
      have one : String.utf8EncodeChar char = [UInt8.ofNat char.toNat] := by
        simp [String.utf8EncodeChar, small]
      simp [one, ih fun other member => ascii other (List.mem_cons_of_mem _ member)]

def Visible (char : Char) : Prop := 32 ≤ char.toNat ∧ char.toNat < 127

instance (char : Char) : Decidable (Visible char) :=
  inferInstanceAs (Decidable (32 ≤ char.toNat ∧ char.toNat < 127))

theorem toNat_ofNat_byte : ∀ code < 256, (Char.ofNat code).toNat = code := by decide +kernel

theorem headerText_utf8Bytes {text : String} (visible : ∀ char ∈ text.toList, Visible char) :
    headerText (utf8Bytes text) = some text.toList := by
  obtain ⟨chars, rfl⟩ : ∃ chars, text = String.ofList chars := ⟨text.toList, text.ofList_toList.symm⟩
  rw [String.toList_ofList] at visible ⊢
  have code : ∀ char ∈ chars, (UInt8.ofNat char.toNat).toNat = char.toNat := by
    intro char member
    have bound := (visible char member).2
    rw [UInt8.toNat_ofNat']
    omega
  have kept : (chars.map fun char => UInt8.ofNat char.toNat).all
      (fun byte => (32 ≤ byte && byte < 127) || byte == 9) = true := by
    rw [List.all_map, List.all_eq_true]
    intro char member
    obtain ⟨low, high⟩ := visible char member
    rw [← code char member] at low high
    simp only [Function.comp_apply, Bool.or_eq_true, Bool.and_eq_true, decide_eq_true_eq]
    exact Or.inl ⟨UInt8.le_iff_toNat_le.mpr low, UInt8.lt_iff_toNat_lt.mpr high⟩
  have back : ∀ char ∈ chars, Char.ofNat (UInt8.ofNat char.toNat).toNat = char := by
    intro char member
    rw [code char member, Char.ofNat_toNat]
  rw [utf8Bytes_ascii fun char member => Nat.lt_succ_of_lt (visible char member).2, headerText, if_pos kept,
    List.map_map, Option.some.injEq]
  exact (List.map_congr_left back).trans (List.map_id chars)

theorem bytes_of_headerText {header : HeaderValue} {text : List Char} (read : headerText header = some text) :
    header = utf8Bytes (String.ofList text) := by
  unfold headerText at read
  split at read
  · rename_i visible
    simp only [Option.some.injEq] at read
    subst read
    have ascii : ∀ byte ∈ header, byte.toNat < 128 := by
      intro byte member
      have isVisible := List.all_eq_true.mp visible byte member
      simp only [Bool.or_eq_true, Bool.and_eq_true, decide_eq_true_eq, beq_iff_eq] at isVisible
      rcases isVisible with ⟨_, high⟩ | rfl
      · exact Nat.lt_succ_of_lt (UInt8.lt_iff_toNat_lt.mp high)
      · decide
    have code : ∀ byte ∈ header, (Char.ofNat byte.toNat).toNat = byte.toNat := fun byte _ =>
      toNat_ofNat_byte byte.toNat byte.toNat_lt
    rw [utf8Bytes_ascii, List.map_map]
    · have back : ∀ byte ∈ header, UInt8.ofNat (Char.ofNat byte.toNat).toNat = byte := by
        intro byte member
        rw [code byte member, UInt8.ofNat_toNat]
      exact ((List.map_congr_left back).trans (List.map_id header)).symm
    · intro char member
      obtain ⟨byte, isByte, rfl⟩ := List.mem_map.mp member
      rw [code byte isByte]
      exact ascii byte isByte
  · simp at read

theorem stripStart_eq_some_iff {start text rest : List Char} :
    stripStart start text = some rest ↔ text = start ++ rest := by
  induction start generalizing text with
  | nil => simp [stripStart]
  | cons expected start ih =>
      cases text with
      | nil => simp [stripStart]
      | cons char text =>
          by_cases same : expected = char
          · simp [stripStart, same, ih]
          · simp [stripStart, same, Ne.symm same]

theorem splitOnce_eq_some_iff {separator : Char} {text before after : List Char} :
    splitOnce separator text = some (before, after) ↔
      text = before ++ separator :: after ∧ separator ∉ before := by
  induction text generalizing before with
  | nil => simp [splitOnce]
  | cons first rest ih =>
      by_cases isSeparator : first = separator
      · cases before with
        | nil => simp [splitOnce, isSeparator]
        | cons head before => grind [splitOnce]
      · cases before with
        | nil => simp [splitOnce, isSeparator]
        | cons head before =>
            simp only [splitOnce, isSeparator, if_false, Option.map_eq_some_iff, Prod.exists,
              Prod.mk.injEq, List.cons.injEq, List.cons_append, List.mem_cons, not_or]
            constructor
            · rintro ⟨parts, _, split, ⟨rfl, rfl⟩, rfl⟩
              obtain ⟨isRest, absent⟩ := ih.mp split
              exact ⟨⟨rfl, isRest⟩, Ne.symm isSeparator, absent⟩
            · rintro ⟨⟨rfl, isRest⟩, _, absent⟩
              exact ⟨before, after, ih.mpr ⟨isRest, absent⟩, ⟨rfl, rfl⟩, rfl⟩

end BtcRpcProxy
