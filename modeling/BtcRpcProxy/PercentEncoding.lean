import Mathlib.Data.List.Infix

/-!
Percent-decoding: which texts stand for themselves, and that every other one stands for a shorter
one. The bytes are of any text; nothing here depends on what it is.
-/

namespace PercentEncoding

def percent : UInt8 := 37

def digit (byte : UInt8) : Option UInt8 :=
  if 48 ≤ byte ∧ byte ≤ 57 then some (byte - 48)
  else if 65 ≤ byte ∧ byte ≤ 70 then some (byte - 55)
  else if 97 ≤ byte ∧ byte ≤ 102 then some (byte - 87)
  else none

def octet (high low : UInt8) : Option UInt8 :=
  match digit high, digit low with
  | some first, some second => some (16 * first + second)
  | _, _ => none

/-- A percent sign that is not followed by two digits stands for itself. -/
def decode : List UInt8 → List UInt8
  | [] => []
  | [byte] => [byte]
  | [byte, next] => [byte, next]
  | byte :: high :: low :: rest =>
      match if byte = percent then octet high low else none with
      | some value => value :: decode rest
      | none => byte :: decode (high :: low :: rest)

def HasEscape (text : List UInt8) : Prop :=
  ∃ high low, [percent, high, low] <:+: text ∧ octet high low ≠ none

theorem not_hasEscape_of_not_mem {text : List UInt8} (noPercent : percent ∉ text) : ¬HasEscape text := by
  rintro ⟨high, low, isInfix, _⟩
  exact noPercent (isInfix.subset (by simp))

theorem not_hasEscape_of_short {text : List UInt8} (short : text.length < 3) : ¬HasEscape text := by
  rintro ⟨high, low, isInfix, _⟩
  have length := isInfix.length_le
  simp only [List.length_cons, List.length_nil] at length
  omega

theorem hasEscape_cons {byte high low : UInt8} {rest : List UInt8} :
    HasEscape (byte :: high :: low :: rest) ↔
      (byte = percent ∧ octet high low ≠ none) ∨ HasEscape (high :: low :: rest) := by
  constructor
  · rintro ⟨first, second, isInfix, isOctet⟩
    rcases List.infix_cons_iff.mp isInfix with isPrefix | later
    · simp only [List.cons_prefix_cons, List.nil_prefix, and_true] at isPrefix
      obtain ⟨rfl, rfl, rfl⟩ := isPrefix
      exact Or.inl ⟨rfl, isOctet⟩
    · exact Or.inr ⟨first, second, later, isOctet⟩
  · rintro (⟨rfl, isOctet⟩ | ⟨first, second, later, isOctet⟩)
    · exact ⟨high, low, List.infix_cons_iff.mpr (Or.inl (by simp)), isOctet⟩
    · exact ⟨first, second, List.infix_cons_iff.mpr (Or.inr later), isOctet⟩

theorem decode_of_not_hasEscape {text : List UInt8} (plain : ¬HasEscape text) : decode text = text := by
  fun_induction decode text with
  | case1 => rfl
  | case2 byte => rfl
  | case3 byte next => rfl
  | case4 byte high low rest value escapes ih =>
      have isPercent : byte = percent := by
        by_contra other
        simp [other] at escapes
      rw [if_pos isPercent] at escapes
      exact (plain (hasEscape_cons.mpr (Or.inl ⟨isPercent, by simp [escapes]⟩))).elim
  | case5 byte high low rest stands ih =>
      rw [ih fun later => plain (hasEscape_cons.mpr (Or.inr later))]

theorem length_decode_le (text : List UInt8) : (decode text).length ≤ text.length := by
  fun_induction decode text with
  | case1 => exact Nat.le_refl _
  | case2 byte => exact Nat.le_refl _
  | case3 byte next => exact Nat.le_refl _
  | case4 byte high low rest value escapes ih =>
      simp only [List.length_cons]
      omega
  | case5 byte high low rest stands ih =>
      simp only [List.length_cons] at ih ⊢
      omega

theorem length_decode_lt {text : List UInt8} (escape : HasEscape text) :
    (decode text).length < text.length := by
  fun_induction decode text with
  | case1 => exact (not_hasEscape_of_short (by simp) escape).elim
  | case2 byte => exact (not_hasEscape_of_short (by simp) escape).elim
  | case3 byte next => exact (not_hasEscape_of_short (by simp) escape).elim
  | case4 byte high low rest value escapes ih =>
      have rest := length_decode_le rest
      simp only [List.length_cons]
      omega
  | case5 byte high low rest stands ih =>
      rcases hasEscape_cons.mp escape with ⟨rfl, isOctet⟩ | later
      · exact (isOctet (by simpa using stands)).elim
      · have shorter := ih later
        simp only [List.length_cons] at shorter ⊢
        omega

/-- A text is its own decoding exactly where nothing in it is an escape. -/
theorem decode_eq_self_iff {text : List UInt8} : decode text = text ↔ ¬HasEscape text := by
  constructor
  · intro same escape
    have shorter := length_decode_lt escape
    rw [same] at shorter
    exact Nat.lt_irrefl _ shorter
  · exact decode_of_not_hasEscape

theorem hasEscape_append {start text : List UInt8} (noPercent : percent ∉ start) :
    HasEscape (start ++ text) ↔ HasEscape text := by
  induction start with
  | nil => rfl
  | cons byte rest ih =>
      rw [List.mem_cons, not_or] at noPercent
      rw [← ih noPercent.2]
      constructor
      · rintro ⟨high, low, isInfix, isOctet⟩
        rcases List.infix_cons_iff.mp isInfix with isPrefix | later
        · exact (noPercent.1 (List.cons_prefix_cons.mp isPrefix).1).elim
        · exact ⟨high, low, later, isOctet⟩
      · rintro ⟨high, low, later, isOctet⟩
        exact ⟨high, low, List.infix_cons_iff.mpr (Or.inr later), isOctet⟩

end PercentEncoding
