import Mathlib.Data.List.Basic

/-!
JSON as `serde_json` holds it (`Json`, its `Value`) and as it is written (`JsonText`):
a text can repeat a member, spell a key with escapes, and hold a number or a string
that no value can take.
-/

namespace BtcRpcProxy

/-- `serde_json::Number`; a float is kept as its bits. -/
inductive Number
  | posInt (value : UInt64)
  | negInt (value : Int64)
  | float (bits : UInt64)
  deriving DecidableEq, Repr

def Number.asU64 : Number → Option UInt64
  | .posInt value => some value
  | .negInt _ => none
  | .float _ => none

/-- A JSON value. The members of an object stand in the order they are written in,
which for a `serde_json::Map` is the order of their keys. -/
inductive Json
  | null
  | bool (value : Bool)
  | number (value : Number)
  | string (value : String)
  | array (items : List Json)
  | object (members : List (String × Json))
  deriving Repr, Inhabited

namespace Json

mutual

def decEq : (left right : Json) → Decidable (left = right)
  | .null, right => by cases right <;> first | exact isTrue rfl | exact isFalse (by simp)
  | .bool value, right => by
      cases right with
      | bool other => exact decidable_of_iff (value = other) (by simp)
      | _ => exact isFalse (by simp)
  | .number value, right => by
      cases right with
      | number other => exact decidable_of_iff (value = other) (by simp)
      | _ => exact isFalse (by simp)
  | .string value, right => by
      cases right with
      | string other => exact decidable_of_iff (value = other) (by simp)
      | _ => exact isFalse (by simp)
  | .array items, right => by
      cases right with
      | array others =>
          have := decEqItems items others
          exact decidable_of_iff (items = others) (by simp)
      | _ => exact isFalse (by simp)
  | .object members, right => by
      cases right with
      | object others =>
          have := decEqMembers members others
          exact decidable_of_iff (members = others) (by simp)
      | _ => exact isFalse (by simp)

def decEqItems : (left right : List Json) → Decidable (left = right)
  | [], [] => isTrue rfl
  | [], _ :: _ => isFalse (by simp)
  | _ :: _, [] => isFalse (by simp)
  | item :: items, other :: others =>
      have := decEq item other
      have := decEqItems items others
      decidable_of_iff (item = other ∧ items = others) (by simp)

def decEqMembers : (left right : List (String × Json)) → Decidable (left = right)
  | [], [] => isTrue rfl
  | [], _ :: _ => isFalse (by simp)
  | _ :: _, [] => isFalse (by simp)
  | (key, value) :: members, (otherKey, other) :: others =>
      have := decEq value other
      have := decEqMembers members others
      decidable_of_iff ((key = otherKey ∧ value = other) ∧ members = others) (by simp)

end

instance : DecidableEq Json := decEq

end Json

/-- `Map::insert` on a `BTreeMap`: a key that is there keeps its place and takes the new value. -/
def mapInsert (key : String) (value : Json) : List (String × Json) → List (String × Json)
  | [] => [(key, value)]
  | (first, old) :: rest =>
      if key = first then (key, value) :: rest
      else if key < first then (key, value) :: (first, old) :: rest
      else (first, old) :: mapInsert key value rest

def mapOfEntries (entries : List (String × Json)) : List (String × Json) :=
  entries.foldl (fun members entry => mapInsert entry.1 entry.2 members) []

/-- One character of a string as it is written. `char` is `none` where no character
can be read, as for the escape of a lone surrogate. -/
structure Piece where
  escaped : Bool
  char : Option Char
  deriving DecidableEq, Repr

abbrev Literal := List Piece

def Literal.read (literal : Literal) : Option String :=
  (literal.mapM Piece.char).map String.ofList

/-- The literal as a borrowed `&str`, which is there only without escapes. -/
def Literal.borrow (literal : Literal) : Option String :=
  if literal.any Piece.escaped then none else literal.read

/-- A JSON text. A number that does not fit a `Number` is `number none`. -/
inductive JsonText
  | null
  | bool (value : Bool)
  | number (value : Option Number)
  | string (literal : Literal)
  | array (items : List JsonText)
  | object (members : List (Literal × JsonText))
  deriving Inhabited

mutual

def readValue : JsonText → Option Json
  | .null => some .null
  | .bool value => some (.bool value)
  | .number value => value.map .number
  | .string literal => literal.read.map .string
  | .array items => (readItems items).map .array
  | .object members => (readMembers members).map fun entries => .object (mapOfEntries entries)

def readItems : List JsonText → Option (List Json)
  | [] => some []
  | item :: rest =>
      match readValue item, readItems rest with
      | some value, some values => some (value :: values)
      | _, _ => none

def readMembers : List (Literal × JsonText) → Option (List (String × Json))
  | [] => some []
  | (key, value) :: rest =>
      match key.read, readValue value, readMembers rest with
      | some key, some value, some entries => some ((key, value) :: entries)
      | _, _, _ => none

end

def readOption {α : Type} (read : JsonText → Option α) : JsonText → Option (Option α)
  | .null => some none
  | text => (read text).map some

end BtcRpcProxy
