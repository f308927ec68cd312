import BtcRpcProxy.JsonCore
import Mathlib.Data.String.Basic

/-!
JSON values as they are written and read back. What `serde_json` reads is canonical: the members of
every object stand in the order of their keys, each key once. A canonical value survives.
-/

namespace BtcRpcProxy

/-! Writing. -/

def needsEscape (char : Char) : Bool := char = '"' || char = '\\' || char.toNat < 32

def writeString (text : String) : Literal :=
  text.toList.map fun char => { escaped := needsEscape char, char := some char }

mutual

def Json.write : Json → JsonText
  | .null => .null
  | .bool value => .bool value
  | .number value => .number (some value)
  | .string value => .string (writeString value)
  | .array items => .array (writeItems items)
  | .object members => .object (writeMembers members)

def writeItems : List Json → List JsonText
  | [] => []
  | item :: rest => item.write :: writeItems rest

def writeMembers : List (String × Json) → List (Literal × JsonText)
  | [] => []
  | (key, value) :: rest => (writeString key, value.write) :: writeMembers rest

end

@[simp] theorem read_writeString (text : String) : (writeString text).read = some text := by
  have pieces (chars : List Char) :
      (chars.map fun char => ({ escaped := needsEscape char, char := some char } : Piece)).mapM Piece.char =
        some chars := by
    induction chars with
    | nil => rfl
    | cons char rest ih => simp [ih]
  simp [Literal.read, writeString, pieces]

/-! The members of an object. -/

def Sorted (members : List (String × Json)) : Prop :=
  members.Pairwise fun first second => first.1 < second.1

mutual

def Json.Canonical : Json → Prop
  | .array items => CanonicalItems items
  | .object members => Sorted members ∧ CanonicalMembers members
  | _ => True

def CanonicalItems : List Json → Prop
  | [] => True
  | item :: rest => item.Canonical ∧ CanonicalItems rest

def CanonicalMembers : List (String × Json) → Prop
  | [] => True
  | (_, value) :: rest => value.Canonical ∧ CanonicalMembers rest

end

theorem mem_mapInsert {key : String} {value : Json} {members : List (String × Json)} {entry : String × Json}
    (member : entry ∈ mapInsert key value members) : entry = (key, value) ∨ entry ∈ members := by
  induction members with
  | nil => exact Or.inl (List.mem_singleton.mp member)
  | cons first rest ih =>
      simp only [mapInsert] at member
      split at member
      · rcases List.mem_cons.mp member with isNew | later
        · exact Or.inl isNew
        · exact Or.inr (List.mem_cons_of_mem _ later)
      · split at member
        · rcases List.mem_cons.mp member with isNew | later
          · exact Or.inl isNew
          · exact Or.inr later
        · rcases List.mem_cons.mp member with isFirst | later
          · exact Or.inr (isFirst ▸ List.mem_cons_self)
          · exact (ih later).imp_right (List.mem_cons_of_mem _)

theorem sorted_mapInsert {key : String} {value : Json} {members : List (String × Json)}
    (sorted : Sorted members) : Sorted (mapInsert key value members) := by
  induction members with
  | nil => exact List.pairwise_singleton _ _
  | cons first rest ih =>
      obtain ⟨before, restSorted⟩ := List.pairwise_cons.mp sorted
      simp only [mapInsert]
      split
      · rename_i same
        exact List.pairwise_cons.mpr ⟨fun entry member => same ▸ before entry member, restSorted⟩
      · rename_i different
        split
        · rename_i earlier
          refine List.pairwise_cons.mpr ⟨?_, sorted⟩
          intro entry member
          rcases List.mem_cons.mp member with rfl | later
          · exact earlier
          · exact lt_trans earlier (before entry later)
        · rename_i notEarlier
          refine List.pairwise_cons.mpr ⟨?_, ih restSorted⟩
          intro entry member
          rcases mem_mapInsert member with rfl | later
          · exact lt_of_le_of_ne (not_lt.mp notEarlier) (Ne.symm different)
          · exact before entry later

theorem mapInsert_last {key : String} {value : Json} {members : List (String × Json)}
    (later : ∀ member ∈ members, member.1 < key) :
    mapInsert key value members = members ++ [(key, value)] := by
  induction members with
  | nil => rfl
  | cons first rest ih =>
      have isLater := later first List.mem_cons_self
      simp only [mapInsert, ne_of_gt isLater, not_lt_of_gt isLater, if_false, List.cons_append]
      rw [ih fun member belongs => later member (List.mem_cons_of_mem _ belongs)]

theorem mapOfEntries_invariant {holds : List (String × Json) → Prop} (entries : List (String × Json))
    (empty : holds []) (inserted : ∀ entry ∈ entries, ∀ members, holds members →
      holds (mapInsert entry.1 entry.2 members)) : holds (mapOfEntries entries) := by
  unfold mapOfEntries
  generalize ([] : List (String × Json)) = members at empty
  induction entries generalizing members with
  | nil => exact empty
  | cons entry rest ih =>
      exact ih (fun other member => inserted other (List.mem_cons_of_mem _ member)) _
        (inserted entry List.mem_cons_self members empty)

theorem sorted_mapOfEntries (entries : List (String × Json)) : Sorted (mapOfEntries entries) :=
  mapOfEntries_invariant entries List.Pairwise.nil fun _ _ _ sorted => sorted_mapInsert sorted

theorem canonicalMembers_iff {members : List (String × Json)} :
    CanonicalMembers members ↔ ∀ member ∈ members, member.2.Canonical := by
  induction members with
  | nil => simp [CanonicalMembers]
  | cons first rest ih => simp [CanonicalMembers, ih]

theorem canonical_mapOfEntries {entries : List (String × Json)} (canonical : CanonicalMembers entries) :
    CanonicalMembers (mapOfEntries entries) := by
  rw [canonicalMembers_iff] at canonical
  refine mapOfEntries_invariant entries trivial ?_
  intro entry member members kept
  rw [canonicalMembers_iff] at kept ⊢
  intro other belongs
  rcases mem_mapInsert belongs with rfl | earlier
  · exact canonical entry member
  · exact kept other earlier

/-- Members in the order of their keys are a map as they stand. -/
theorem mapOfEntries_of_sorted {members : List (String × Json)} (sorted : Sorted members) :
    mapOfEntries members = members := by
  have append (before after : List (String × Json)) (all : Sorted (before ++ after)) :
      after.foldl (fun members entry => mapInsert entry.1 entry.2 members) before = before ++ after := by
    induction after generalizing before with
    | nil => simp
    | cons entry rest ih =>
        have later := (List.pairwise_append.mp all).2.2
        rw [List.foldl_cons, mapInsert_last fun member belongs => later member belongs entry List.mem_cons_self,
          ih _ (by simpa using all), List.append_assoc]
        rfl
  exact append [] members sorted

/-! What is read is canonical, and what is canonical is read back as it was written. -/

mutual

theorem canonical_readValue : ∀ {text : JsonText} {value : Json},
    readValue text = some value → value.Canonical
  | .null, _, read => Option.some.inj read ▸ trivial
  | .bool _, _, read => Option.some.inj read ▸ trivial
  | .number _, _, read => by
      obtain ⟨number, _, rfl⟩ := Option.map_eq_some_iff.mp read
      trivial
  | .string _, _, read => by
      obtain ⟨text, _, rfl⟩ := Option.map_eq_some_iff.mp read
      trivial
  | .array items, _, read => by
      obtain ⟨values, readAll, rfl⟩ := Option.map_eq_some_iff.mp read
      exact canonical_readItems readAll
  | .object members, _, read => by
      obtain ⟨entries, readAll, rfl⟩ := Option.map_eq_some_iff.mp read
      exact ⟨sorted_mapOfEntries entries, canonical_mapOfEntries (canonical_readMembers readAll)⟩

theorem canonical_readItems : ∀ {items : List JsonText} {values : List Json},
    readItems items = some values → CanonicalItems values
  | [], _, read => Option.some.inj read ▸ trivial
  | item :: rest, _, read => by
      simp only [readItems] at read
      split at read
      · rename_i value values readFirst readRest
        exact Option.some.inj read ▸ ⟨canonical_readValue readFirst, canonical_readItems readRest⟩
      · simp at read

theorem canonical_readMembers : ∀ {members : List (Literal × JsonText)} {entries : List (String × Json)},
    readMembers members = some entries → CanonicalMembers entries
  | [], _, read => Option.some.inj read ▸ trivial
  | (key, text) :: rest, _, read => by
      simp only [readMembers] at read
      split at read
      · rename_i key value entries _ readFirst readRest
        exact Option.some.inj read ▸ ⟨canonical_readValue readFirst, canonical_readMembers readRest⟩
      · simp at read

end

mutual

theorem readValue_write : ∀ {value : Json}, value.Canonical → readValue value.write = some value
  | .null, _ => rfl
  | .bool _, _ => rfl
  | .number _, _ => rfl
  | .string text, _ => by simp [Json.write, readValue]
  | .array items, canonical => by
      simp [Json.write, readValue, readItems_write canonical]
  | .object members, canonical => by
      obtain ⟨sorted, values⟩ := canonical
      simp [Json.write, readValue, readMembers_write values, mapOfEntries_of_sorted sorted]

theorem readItems_write : ∀ {items : List Json}, CanonicalItems items →
    readItems (writeItems items) = some items
  | [], _ => rfl
  | item :: rest, canonical => by
      simp [writeItems, readItems, readValue_write canonical.1, readItems_write canonical.2]

theorem readMembers_write : ∀ {members : List (String × Json)}, CanonicalMembers members →
    readMembers (writeMembers members) = some members
  | [], _ => rfl
  | (key, value) :: rest, canonical => by
      simp [writeMembers, readMembers, readValue_write canonical.1, readMembers_write canonical.2]

end

end BtcRpcProxy
