import BtcRpcProxy.CreateStateCore
import BtcRpcProxy.Hexadecimal

/-!
One `rpcauth` line of a bitcoin.conf, as bitcoind reads it and as `create_state` does: what the proxy
takes an entry from, and which of bitcoind's entries it reads alike.
-/

namespace BtcRpcProxy

open TextLines

/-! The entries of the file as bitcoind reads them. -/

namespace Bitcoind

def isBlank (char : Char) : Bool := char == ' ' || char == '\t' || char == '\r' || char == '\n'

def setting (line : List Char) : Option (List Char × List Char) :=
  (splitOnce '=' (trim isBlank (line.takeWhile (· != '#')))).map fun parts =>
    (trim isBlank parts.1, trim isBlank parts.2)

def rpcauth (line : List Char) : Option (List Char × List Char × List Char) :=
  (setting line).bind fun setting =>
    if setting.1 = "rpcauth".toList then userSaltHash setting.2 else none

end Bitcoind

/-! The lines the proxy takes an entry from. -/

def entryText (name salt hash : List Char) : List Char := name ++ ':' :: (salt ++ '$' :: hash)

/-- The line has an entry for the proxy, which may yet have a hash that is none. -/
structure TakesEntry (line name salt hash : List Char) : Prop where
  written : ∃ left middle right,
    line = left ++ ("rpcauth=".toList ++ (middle ++ entryText name salt hash)) ++ right ∧
      (∀ char ∈ left, isWhitespace char = true) ∧ (∀ char ∈ middle, isWhitespace char = true) ∧
      ∀ char ∈ right, isWhitespace char = true
  noColon : ':' ∉ name
  noDollar : '$' ∉ salt
  bareName : ∀ char ∈ name.head?, isWhitespace char = false
  bareHash : ∀ char ∈ hash.getLast?, isWhitespace char = false

theorem userSaltHash_eq_some_iff {value name salt hash : List Char} :
    userSaltHash value = some (name, salt, hash) ↔
      value = entryText name salt hash ∧ ':' ∉ name ∧ '$' ∉ salt := by
  simp only [userSaltHash, Option.bind_eq_some_iff, Option.map_eq_some_iff, Prod.exists, Prod.mk.injEq,
    splitOnce_eq_some_iff, entryText]
  constructor
  · rintro ⟨before, after, ⟨rfl, noColon⟩, start, rest, ⟨rfl, noDollar⟩, rfl, rfl, rfl⟩
    exact ⟨rfl, noColon, noDollar⟩
  · rintro ⟨rfl, noColon, noDollar⟩
    exact ⟨_, _, ⟨rfl, noColon⟩, _, _, ⟨rfl, noDollar⟩, rfl, rfl, rfl⟩

theorem head?_entryText (name salt hash : List Char) :
    (entryText name salt hash).head? = some (name.head?.getD ':') := by
  cases name <;> rfl

theorem getLast?_entryText (name salt hash : List Char) :
    (entryText name salt hash).getLast? = some (hash.getLast?.getD '$') := by
  have atDollar : entryText name salt hash = (name ++ ':' :: salt) ++ '$' :: hash := by simp [entryText]
  rw [atDollar, List.getLast?_append, List.getLast?_cons]
  rfl

theorem getD_not_whitespace {found : Option Char} {char : Char} (mark : isWhitespace char = false) :
    isWhitespace (found.getD char) = false ↔ ∀ char ∈ found, isWhitespace char = false := by
  cases found <;> simp [mark]

theorem bare_entryText_iff {name salt hash : List Char} : Bare isWhitespace (entryText name salt hash) ↔
    (∀ char ∈ name.head?, isWhitespace char = false) ∧ ∀ char ∈ hash.getLast?, isWhitespace char = false := by
  rw [← getD_not_whitespace (by decide : isWhitespace ':' = false),
    ← getD_not_whitespace (by decide : isWhitespace '$' = false)]
  constructor
  · intro bare
    exact ⟨bare.first _ (head?_entryText name salt hash), bare.last _ (getLast?_entryText name salt hash)⟩
  · rintro ⟨first, last⟩
    constructor
    · intro char isFirst
      rw [head?_entryText, Option.mem_some_iff] at isFirst
      exact isFirst ▸ first
    · intro char isLast
      rw [getLast?_entryText, Option.mem_some_iff] at isLast
      exact isLast ▸ last

theorem bare_keyed {middle name salt hash : List Char} (bare : Bare isWhitespace (entryText name salt hash)) :
    Bare isWhitespace ("rpcauth=".toList ++ (middle ++ entryText name salt hash)) := by
  constructor
  · intro char isFirst
    have isKey : 'r' = char := Option.some.inj isFirst
    exact isKey ▸ by decide
  · intro char isLast
    rw [List.getLast?_append, List.getLast?_append, getLast?_entryText] at isLast
    exact bare.last char ((getLast?_entryText name salt hash).trans isLast)

theorem rpcauthLine_eq_some_iff {line name salt hash : List Char} :
    rpcauthLine line = some (name, salt, hash) ↔ TakesEntry line name salt hash := by
  unfold rpcauthLine
  constructor
  · intro taken
    obtain ⟨tok, isTok, isEntry⟩ := Option.bind_eq_some_iff.mp taken
    obtain ⟨isValue, noColon, noDollar⟩ := userSaltHash_eq_some_iff.mp isEntry
    obtain ⟨_, left, right, isLine, leftWhite, rightWhite⟩ := trim_eq_iff.mp (stripStart_eq_some_iff.mp isTok)
    obtain ⟨bare, middle, rest, rfl, middleWhite, restWhite⟩ := trim_eq_iff.mp isValue
    obtain ⟨bareName, bareHash⟩ := bare_entryText_iff.mp bare
    have written : line = left ++ ("rpcauth=".toList ++ (middle ++ entryText name salt hash)) ++
        (rest ++ right) := by
      rw [isLine]
      simp only [List.append_assoc]
    refine ⟨⟨left, middle, rest ++ right, written, leftWhite, middleWhite, ?_⟩, noColon, noDollar,
      bareName, bareHash⟩
    intro char member
    exact (List.mem_append.mp member).elim (restWhite char) (rightWhite char)
  · rintro ⟨⟨left, middle, right, rfl, leftWhite, middleWhite, rightWhite⟩, noColon, noDollar,
      bareName, bareHash⟩
    have bare : Bare isWhitespace (entryText name salt hash) := bare_entryText_iff.mpr ⟨bareName, bareHash⟩
    refine Option.bind_eq_some_iff.mpr ⟨middle ++ entryText name salt hash, ?_, ?_⟩
    · exact stripStart_eq_some_iff.mpr (trim_between (bare_keyed bare) leftWhite rightWhite)
    · have isValue : trim isWhitespace (middle ++ entryText name salt hash ++ []) = entryText name salt hash :=
        trim_between bare middleWhite (by simp)
      rw [List.append_nil] at isValue
      exact userSaltHash_eq_some_iff.mpr ⟨isValue, noColon, noDollar⟩

/-! What both read as the same entry. -/

/-- Written as the proxy expects an entry for the name. -/
structure PlainLine (line name : List Char) : Prop where
  noComment : '#' ∉ line
  keyed : ∃ left rest, line = left ++ ("rpcauth".toList ++ '=' :: rest) ∧
    ∀ char ∈ left, Bitcoind.isBlank char = true
  bareName : ∀ char ∈ name.head?, isWhitespace char = false

theorem isBlank_iff {char : Char} : Bitcoind.isBlank char = true ↔
    char = ' ' ∨ char = '\t' ∨ char = '\r' ∨ char = '\n' := by
  simp only [Bitcoind.isBlank, Bool.or_eq_true, beq_iff_eq, or_assoc]

theorem isWhitespace_of_isBlank {char : Char} (blank : Bitcoind.isBlank char = true) :
    isWhitespace char = true := by
  rcases isBlank_iff.mp blank with rfl | rfl | rfl | rfl <;> decide

theorem equals_not_mem_of_isBlank {left : List Char}
    (blank : ∀ char ∈ left, Bitcoind.isBlank char = true) : '=' ∉ left :=
  fun member => absurd (blank '=' member) (by decide)

theorem hexChars_not_whitespace {bytes : List UInt8} :
    ∀ char ∈ hexChars bytes, isWhitespace char = false := by
  have digits : ∀ value < 16, isWhitespace (hexDigit value) = false := by decide
  induction bytes with
  | nil => simp [hexChars]
  | cons byte rest ih =>
      have bound := byte.toNat_lt
      intro char member
      simp only [hexChars, List.mem_cons] at member
      rcases member with rfl | rfl | later
      · exact digits _ (by omega)
      · exact digits _ (by omega)
      · exact ih char later

theorem rpcauth_eq_some {line name salt hash : List Char}
    (isEntry : Bitcoind.rpcauth line = some (name, salt, hash)) : ∃ key value,
      splitOnce '=' (trim Bitcoind.isBlank (line.takeWhile (· != '#'))) = some (key, value) ∧
      trim Bitcoind.isBlank key = "rpcauth".toList ∧
      trim Bitcoind.isBlank value = entryText name salt hash ∧ ':' ∉ name ∧ '$' ∉ salt := by
  obtain ⟨⟨trimmedKey, trimmedValue⟩, isSetting, isValue⟩ := Option.bind_eq_some_iff.mp isEntry
  obtain ⟨⟨key, value⟩, isSplit, trimmed⟩ := Option.map_eq_some_iff.mp isSetting
  simp only [Prod.mk.injEq] at trimmed
  obtain ⟨rfl, rfl⟩ := trimmed
  split at isValue
  · rename_i isKey
    exact ⟨key, value, isSplit, isKey, userSaltHash_eq_some_iff.mp isValue⟩
  · simp at isValue

theorem splitOnce_keyed {start rest : List Char} (noEquals : '=' ∉ start) :
    splitOnce '=' (start ++ ("rpcauth".toList ++ '=' :: rest)) = some (start ++ "rpcauth".toList, rest) := by
  refine splitOnce_eq_some_iff.mpr ⟨by rw [List.append_assoc], ?_⟩
  rw [List.mem_append, not_or]
  exact ⟨noEquals, by decide⟩

/-- What stands before and after the first equals sign of an entry, where no comment follows. -/
theorem splitOnce_of_rpcauth {line name salt hash : List Char}
    (isEntry : Bitcoind.rpcauth line = some (name, salt, hash)) (noComment : '#' ∉ line) :
    ∃ left before middle right, splitOnce '=' line =
        some (left ++ "rpcauth".toList ++ before, middle ++ entryText name salt hash ++ right) ∧
      (∀ char ∈ left, Bitcoind.isBlank char = true) ∧ (∀ char ∈ before, Bitcoind.isBlank char = true) ∧
      (∀ char ∈ middle, Bitcoind.isBlank char = true) ∧ ∀ char ∈ right, Bitcoind.isBlank char = true := by
  obtain ⟨key, value, isSplit, isKey, isValue, _, _⟩ := rpcauth_eq_some isEntry
  rw [takeWhile_bne_eq_self.mpr noComment] at isSplit
  obtain ⟨isTrimmed, noEquals⟩ := splitOnce_eq_some_iff.mp isSplit
  obtain ⟨_, start, finish, isLine, startBlank, finishBlank⟩ := trim_eq_iff.mp isTrimmed
  obtain ⟨_, left, before, rfl, leftBlank, beforeBlank⟩ := trim_eq_iff.mp isKey
  obtain ⟨_, middle, right, rfl, middleBlank, rightBlank⟩ := trim_eq_iff.mp isValue
  refine ⟨start ++ left, before, middle, right ++ finish, ?_, ?_, beforeBlank, middleBlank, ?_⟩
  · refine splitOnce_eq_some_iff.mpr ⟨by simp [isLine], ?_⟩
    rw [List.append_assoc, List.append_assoc, List.mem_append, not_or, ← List.append_assoc]
    exact ⟨equals_not_mem_of_isBlank startBlank, noEquals⟩
  · exact fun char member => (List.mem_append.mp member).elim (startBlank char) (leftBlank char)
  · exact fun char member => (List.mem_append.mp member).elim (rightBlank char) (finishBlank char)

/-- The proxy reads a plainly written entry as bitcoind does. -/
theorem PlainLine.takes {line name salt : List Char} {digest : List UInt8} (plain : PlainLine line name)
    (isEntry : Bitcoind.rpcauth line = some (name, salt, hexChars digest)) :
    TakesEntry line name salt (hexChars digest) := by
  obtain ⟨_, _, _, _, _, noColon, noDollar⟩ := rpcauth_eq_some isEntry
  obtain ⟨left, before, middle, right, isSplit, _, _, middleBlank, rightBlank⟩ :=
    splitOnce_of_rpcauth isEntry plain.noComment
  obtain ⟨start, rest, rfl, startBlank⟩ := plain.keyed
  rw [splitOnce_keyed (equals_not_mem_of_isBlank startBlank), Option.some.injEq, Prod.mk.injEq] at isSplit
  refine ⟨⟨start, middle, right, ?_, ?_, ?_, ?_⟩, noColon, noDollar, plain.bareName, ?_⟩
  · rw [isSplit.2]
    simp [List.append_assoc]
  · exact fun char member => isWhitespace_of_isBlank (startBlank char member)
  · exact fun char member => isWhitespace_of_isBlank (middleBlank char member)
  · exact fun char member => isWhitespace_of_isBlank (rightBlank char member)
  · exact fun char isLast => hexChars_not_whitespace char (List.mem_of_getLast? isLast)

theorem not_mem_of_whitespace {mark : Char} {white : List Char} (notWhite : isWhitespace mark = false)
    (all : ∀ char ∈ white, isWhitespace char = true) : mark ∉ white := by
  intro member
  simp [all mark member] at notWhite

theorem TakesEntry.noComment {line name salt hash : List Char} (taken : TakesEntry line name salt hash)
    (isEntry : Bitcoind.rpcauth line = some (name, salt, hash)) : '#' ∉ line := by
  obtain ⟨key, value, isSplit, _, isValue, _, _⟩ := rpcauth_eq_some isEntry
  obtain ⟨isTrimmed, _⟩ := splitOnce_eq_some_iff.mp isSplit
  obtain ⟨_, _, _, isKept, _, _⟩ := trim_eq_iff.mp isTrimmed
  obtain ⟨_, _, _, rfl, _, _⟩ := trim_eq_iff.mp isValue
  -- what bitcoind reads comes before the first number sign
  have inEntry : '#' ∉ entryText name salt hash := by
    intro member
    have inKept : '#' ∈ line.takeWhile (· != '#') := by
      rw [isKept]
      simp [member]
    simpa using List.mem_takeWhile_imp inKept
  obtain ⟨left, middle, right, rfl, leftWhite, middleWhite, rightWhite⟩ := taken.written
  have notWhite : isWhitespace '#' = false := by decide
  simp only [List.mem_append, not_or]
  exact ⟨⟨not_mem_of_whitespace notWhite leftWhite, by decide, not_mem_of_whitespace notWhite middleWhite,
    inEntry⟩, not_mem_of_whitespace notWhite rightWhite⟩

end BtcRpcProxy
