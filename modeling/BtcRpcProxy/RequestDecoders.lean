import BtcRpcProxy.RequestCore

/-!
When the two decoders of a request agree. The hand-written one reads each key as a
borrowed `&str` and lets a repeated member overwrite the one before; the derived one
reads any key and refuses a repeated field. Both are described here by what a member
list says last under each name.
-/

namespace BtcRpcProxy

abbrev Member := Literal × JsonText

def lastText (name : String) : List Member → Option JsonText
  | [] => none
  | member :: rest =>
      match lastText name rest with
      | some later => some later
      | none => if member.1.read = some name then some member.2 else none

def isField (name : String) : Bool := name = "jsonrpc" || name = "id" || name = "method" || name = "params"

def fieldNames (members : List Member) : List String :=
  (members.filterMap fun member => member.1.read).filter isField

def Repeats (members : List Member) : Prop := ¬(fieldNames members).Nodup

def EscapesKey (members : List Member) : Prop := ∃ member ∈ members, member.1.any Piece.escaped = true

def HidesUnreadable (members : List Member) : Prop :=
  ∃ member ∈ members, (∀ name, member.1.read = some name → isField name = false) ∧
    readValue member.2 = none

def typedBy (method params : JsonText → Bool) (member : Member) : Bool :=
  match member.1.read with
  | none => false
  | some key =>
      if key = "jsonrpc" then (readOption readValue member.2).isSome
      else if key = "id" then (readValue member.2).isSome
      else if key = "method" then method member.2
      else if key = "params" then params member.2
      else true

theorem typedBy_imp {method params otherMethod otherParams : JsonText → Bool} {member : Member}
    (typed : typedBy method params member = true)
    (isMethod : member.1.read = some "method" → method member.2 = true → otherMethod member.2 = true)
    (isParams : member.1.read = some "params" → params member.2 = true → otherParams member.2 = true) :
    typedBy otherMethod otherParams member = true := by
  cases named : member.1.read with
  | none => simp [typedBy, named] at typed
  | some name =>
      simp only [typedBy, named] at typed ⊢
      split_ifs at typed ⊢ with _ _ method params
      · exact typed
      · exact typed
      · exact isMethod (method ▸ named) typed
      · exact isParams (params ▸ named) typed
      · rfl

/-- The text under a field's name has the type of the field, or is null where a later
member may replace it. -/
def wellTyped : Member → Bool :=
  typedBy (fun text => (readOption readMethod text).isSome)
    (fun text => (readOption readParams text).isSome)

/-- The members make a request once the repetitions are settled by the last one. -/
structure Usable (members : List Member) : Prop where
  typed : ∀ member ∈ members, wellTyped member = true
  method : ∃ text, lastText "method" members = some text ∧ text ≠ .null
  params : ∃ text, lastText "params" members = some text ∧ text ≠ .null

def latest {α : Type} (read : JsonText → Option α) (name : String) (members : List Member)
    (before : Option α) : Option α :=
  match lastText name members with
  | some text => read text
  | none => before

theorem latest_cons {α : Type} (read : JsonText → Option α) (name : String) (member : Member)
    (rest : List Member) (before : Option α) :
    latest read name (member :: rest) before =
      latest read name rest (latest read name [member] before) := by
  simp only [latest, lastText]
  cases lastText name rest <;> rfl

/-! The hand-written decoder. -/

namespace SingleFields

def readable (member : Member) : Bool :=
  !member.1.any Piece.escaped && wellTyped member &&
    (match member.1.read with
    | none => false
    | some key => isField key || (readValue member.2).isSome)

def overwrite (fields : SingleFields) (members : List Member) : SingleFields where
  jsonrpc := latest (fun text => (readOption readValue text).join) "jsonrpc" members fields.jsonrpc
  id := latest readValue "id" members fields.id
  method := latest (fun text => (readOption readMethod text).join) "method" members fields.method
  params := latest (fun text => (readOption readParams text).join) "params" members fields.params

theorem overwrite_nil (fields : SingleFields) : fields.overwrite [] = fields := rfl

theorem overwrite_cons (fields : SingleFields) (member : Member) (rest : List Member) :
    fields.overwrite (member :: rest) = (fields.overwrite [member]).overwrite rest := by
  simp only [overwrite, latest_cons _ _ member rest]

theorem visitMember_eq (fields : SingleFields) (member : Member) :
    fields.visitMember member =
      if readable member then some (fields.overwrite [member]) else none := by
  obtain ⟨key, text⟩ := member
  by_cases escaped : key.any Piece.escaped = true
  · simp [visitMember, readable, Literal.borrow, escaped]
  · cases isName : key.read with
    | none => simp [visitMember, readable, wellTyped, typedBy, Literal.borrow, escaped, isName]
    | some name =>
        simp only [visitMember, readable, Literal.borrow, escaped, isName, wellTyped,
          typedBy, isField, overwrite, latest, lastText]
        by_cases jsonrpc : name = "jsonrpc"
        · subst jsonrpc
          cases value : readOption readValue text <;> simp [value]
        by_cases id : name = "id"
        · subst id
          cases value : readValue text <;> simp [value]
        by_cases method : name = "method"
        · subst method
          cases value : readOption readMethod text <;> simp [value]
        by_cases params : name = "params"
        · subst params
          cases value : readOption readParams text <;> simp [value]
        cases readValue text <;> simp [jsonrpc, id, method, params]

theorem visitMembers_eq (fields : SingleFields) (members : List Member) :
    fields.visitMembers members =
      if members.all readable then some (fields.overwrite members) else none := by
  induction members generalizing fields with
  | nil => simp [visitMembers, overwrite_nil]
  | cons member rest ih =>
      rw [visitMembers, visitMember_eq, List.all_cons]
      by_cases first : readable member = true
      · simp only [first, if_true, ih, Bool.true_and, ← overwrite_cons]
      · simp [first]

end SingleFields

/-! The derived decoder. -/

namespace DerivedFields

def readable : Member → Bool :=
  typedBy (fun text => (readMethod text).isSome) (fun text => (readParams text).isSome)

def seen (fields : DerivedFields) (name : String) : Bool :=
  if name = "jsonrpc" then fields.jsonrpc.isSome
  else if name = "id" then fields.id.isSome
  else if name = "method" then fields.method.isSome
  else if name = "params" then fields.params.isSome
  else false

def fill (fields : DerivedFields) (members : List Member) : DerivedFields where
  jsonrpc := latest (readOption readValue) "jsonrpc" members fields.jsonrpc
  id := latest (fun text => (readValue text).map some) "id" members fields.id
  method := latest readMethod "method" members fields.method
  params := latest readParams "params" members fields.params

theorem fill_cons (fields : DerivedFields) (member : Member) (rest : List Member) :
    fields.fill (member :: rest) = (fields.fill [member]).fill rest := by
  simp only [fill, latest_cons _ _ member rest]

def repeated (fields : DerivedFields) (member : Member) : Bool :=
  match member.1.read with
  | none => false
  | some key => fields.seen key

theorem visitMember_eq (fields : DerivedFields) (member : Member) :
    fields.visitMember member =
      if readable member && !fields.repeated member then some (fields.fill [member]) else none := by
  obtain ⟨key, text⟩ := member
  cases isName : key.read with
  | none => simp [visitMember, readable, typedBy, isName]
  | some name =>
      simp only [visitMember, readable, typedBy, repeated, seen, isName, fill, latest, lastText]
      by_cases jsonrpc : name = "jsonrpc"
      · subst jsonrpc
        cases fields.jsonrpc <;> cases value : readOption readValue text <;> simp [value]
      by_cases id : name = "id"
      · subst id
        cases fields.id <;> cases value : readValue text <;> simp [value]
      by_cases method : name = "method"
      · subst method
        cases fields.method <;> cases value : readMethod text <;> simp [value]
      by_cases params : name = "params"
      · subst params
        cases fields.params <;> cases value : readParams text <;> simp [value]
      simp [jsonrpc, id, method, params]

theorem seen_fill (fields : DerivedFields) {member : Member} (visited : readable member = true)
    (name : String) :
    (fields.fill [member]).seen name =
      (fields.seen name || (decide (member.1.read = some name) && isField name)) := by
  obtain ⟨key, text⟩ := member
  simp only [readable, typedBy] at visited
  cases isKey : key.read with
  | none => simp [isKey] at visited
  | some other =>
      by_cases same : other = name
      · subst same
        simp only [isKey] at visited
        simp only [seen, fill, latest, lastText, isKey, isField]
        split_ifs at visited ⊢ <;> simp_all
      · simp [seen, fill, latest, lastText, isKey, same]
        grind

theorem fieldNames_cons (member : Member) (rest : List Member) :
    fieldNames (member :: rest) =
      match member.1.read with
      | none => fieldNames rest
      | some key => if isField key then key :: fieldNames rest else fieldNames rest := by
  cases isKey : member.1.read with
  | none => simp [fieldNames, isKey]
  | some key =>
      by_cases field : isField key = true
      · simp [fieldNames, isKey, field]
      · simp [fieldNames, isKey, field]

theorem seen_of_not_isField (fields : DerivedFields) (name : String) (other : isField name = false) :
    fields.seen name = false := by
  simp only [isField, Bool.or_eq_false_iff, decide_eq_false_iff_not] at other
  simp [seen, other]

theorem visitMembers_eq (fields : DerivedFields) (members : List Member) :
    fields.visitMembers members =
      if members.all readable ∧ (fieldNames members).Nodup ∧
          ∀ name ∈ fieldNames members, fields.seen name = false
      then some (fields.fill members) else none := by
  induction members generalizing fields with
  | nil => simp [visitMembers, fieldNames, fill, latest, lastText]
  | cons member rest ih =>
      rw [visitMembers, visitMember_eq, fieldNames_cons, List.all_cons]
      by_cases visited : readable member = true
      · have seenAfter := seen_fill fields visited
        cases isKey : member.1.read with
        | none => simp [readable, typedBy, isKey] at visited
        | some key =>
            by_cases field : isField key = true
            · by_cases before : fields.seen key = true
              · simp [visited, repeated, isKey, field, before]
              · simp only [visited, repeated, isKey, field, before, Bool.not_false, Bool.and_self,
                  if_true, ih, ← fill_cons, seenAfter, Bool.true_and, List.nodup_cons,
                  List.forall_mem_cons]
                congr 1
                simp only [eq_iff_iff]
                grind
            · have notSeen := seen_of_not_isField fields key (by simpa using field)
              simp only [visited, repeated, isKey, notSeen, Bool.not_false, Bool.and_self, if_true, ih,
                ← fill_cons, seenAfter, Bool.true_and, field]
              congr 1
              simp only [eq_iff_iff]
              grind
      · simp [visited]

end DerivedFields

/-! Both decoders end in the same request or in an error. -/

def requestOf (members : List Member) : Option RpcRequest :=
  (SingleFields.empty.overwrite members).finish

theorem join_readOption {α : Type} (read : JsonText → Option α) (notNull : read .null = none)
    (text : JsonText) : (readOption read text).join = read text := by
  have join (value : Option α) : (value.map some).join = value := by cases value <;> rfl
  cases text with
  | null => exact notNull.symm
  | _ => exact join _

theorem latest_getD {α : Type} (read : JsonText → Option (Option α)) (name : String)
    (members : List Member) :
    (latest read name members none).getD none = latest (fun text => (read text).join) name members none := by
  unfold latest
  cases lastText name members with
  | none => rfl
  | some text => cases value : read text <;> simp [value]

theorem fill_finish (members : List Member) :
    (DerivedFields.empty.fill members).finish = requestOf members := by
  have id : latest (fun text => ((readValue text).map some).join) "id" members none =
      latest readValue "id" members none := by
    unfold latest
    cases lastText "id" members with
    | none => rfl
    | some text => cases value : readValue text <;> simp [value]
  simp only [DerivedFields.finish, DerivedFields.fill, DerivedFields.empty, requestOf,
    SingleFields.finish, SingleFields.overwrite, SingleFields.empty, latest_getD, id,
    join_readOption readMethod rfl, join_readOption readParams rfl]

theorem single_decode_eq (members : List Member) :
    SingleOrBatchRpcRequest.decode (.object members) =
      if members.all SingleFields.readable then (requestOf members).map .single else none := by
  simp only [SingleOrBatchRpcRequest.decode, SingleFields.visitMembers_eq]
  split <;> rfl

theorem derived_decode_eq (members : List Member) :
    RpcRequest.decode (.object members) =
      if members.all DerivedFields.readable ∧ (fieldNames members).Nodup then requestOf members
      else none := by
  simp only [RpcRequest.decode, DerivedFields.visitMembers_eq, ← fill_finish]
  have unseen : ∀ name ∈ fieldNames members, DerivedFields.empty.seen name = false := by
    intro name _
    simp [DerivedFields.seen, DerivedFields.empty]
  split <;> rename_i accepted <;> simp_all

theorem batch_decode_eq (members : List Member) :
    SingleOrBatchRpcRequest.decode (.array [.object members]) =
      (RpcRequest.decode (.object members)).map fun request => .batch [request] := by
  simp only [SingleOrBatchRpcRequest.decode, decodeBatch]
  cases RpcRequest.decode (.object members) <;> rfl

theorem lastText_mem {name : String} {members : List Member} {text : JsonText}
    (last : lastText name members = some text) :
    ∃ member ∈ members, member.1.read = some name ∧ member.2 = text := by
  induction members with
  | nil => simp [lastText] at last
  | cons member rest ih =>
      simp only [lastText] at last
      cases later : lastText name rest with
      | some found =>
          simp only [later, Option.some.injEq] at last
          obtain ⟨other, belongs, facts⟩ := ih (by rw [later, last])
          exact ⟨other, List.mem_cons_of_mem member belongs, facts⟩
      | none =>
          simp only [later] at last
          split at last
          · rename_i named
            exact ⟨member, by simp, named, Option.some.inj last⟩
          · simp at last

theorem lastText_none {name : String} {members : List Member} (field : isField name = true)
    (absent : name ∉ fieldNames members) : lastText name members = none := by
  cases last : lastText name members with
  | none => rfl
  | some text =>
      obtain ⟨member, belongs, named, _⟩ := lastText_mem last
      refine (absent ?_).elim
      simp only [fieldNames, List.mem_filter, List.mem_filterMap]
      exact ⟨⟨member, belongs, named⟩, field⟩

theorem lastText_of_nodup {members : List Member} (once : (fieldNames members).Nodup)
    {member : Member} (belongs : member ∈ members) {name : String}
    (named : member.1.read = some name) (field : isField name = true) :
    lastText name members = some member.2 := by
  induction members with
  | nil => simp at belongs
  | cons first rest ih =>
      rw [DerivedFields.fieldNames_cons] at once
      rcases List.mem_cons.mp belongs with same | later
      · subst same
        simp only [named, field, if_true, List.nodup_cons] at once
        simp [lastText, lastText_none field once.1, named]
      · have restOnce : (fieldNames rest).Nodup := by
          split at once
          · exact once
          · split at once
            · exact (List.nodup_cons.mp once).2
            · exact once
        simp [lastText, ih restOnce later]

theorem requestOf_isSome {members : List Member} :
    (requestOf members).isSome = true ↔
      (∃ text, lastText "method" members = some text ∧ (readMethod text).isSome = true) ∧
      ∃ text, lastText "params" members = some text ∧ (readParams text).isSome = true := by
  have method := fun text => join_readOption readMethod rfl text
  have params := fun text => join_readOption readParams rfl text
  simp only [requestOf, SingleFields.finish, SingleFields.overwrite, SingleFields.empty, latest,
    method, params]
  cases lastText "method" members with
  | none => simp
  | some method =>
      cases lastText "params" members with
      | none => cases value : readMethod method <;> simp [value]
      | some params =>
          cases first : readMethod method <;> cases second : readParams params <;> simp [first, second]

theorem readOption_isSome {α : Type} {read : JsonText → Option α} {text : JsonText}
    (notNull : text ≠ .null) : (readOption read text).isSome = (read text).isSome := by
  cases text <;> simp_all [readOption]

theorem read_isSome_iff {α : Type} {read : JsonText → Option α} {text : JsonText}
    (ofNull : read .null = none) (typed : (readOption read text).isSome = true) :
    (read text).isSome = true ↔ text ≠ .null := by
  constructor
  · rintro isRead rfl
    simp [ofNull] at isRead
  · intro notNull
    rwa [readOption_isSome notNull] at typed

theorem requestOf_isSome_of_typed {members : List Member}
    (typed : ∀ member ∈ members, wellTyped member = true) :
    (requestOf members).isSome = true ↔
      (∃ text, lastText "method" members = some text ∧ text ≠ .null) ∧
      ∃ text, lastText "params" members = some text ∧ text ≠ .null := by
  have method : ∀ text, lastText "method" members = some text →
      ((readMethod text).isSome = true ↔ text ≠ .null) := by
    intro text last
    obtain ⟨member, belongs, named, rfl⟩ := lastText_mem last
    refine read_isSome_iff rfl ?_
    simpa [wellTyped, typedBy, named] using typed member belongs
  have params : ∀ text, lastText "params" members = some text →
      ((readParams text).isSome = true ↔ text ≠ .null) := by
    intro text last
    obtain ⟨member, belongs, named, rfl⟩ := lastText_mem last
    refine read_isSome_iff rfl ?_
    simpa [wellTyped, typedBy, named] using typed member belongs
  rw [requestOf_isSome]
  constructor
  · rintro ⟨⟨first, firstLast, firstRead⟩, second, secondLast, secondRead⟩
    exact ⟨⟨first, firstLast, (method first firstLast).mp firstRead⟩,
      second, secondLast, (params second secondLast).mp secondRead⟩
  · rintro ⟨⟨first, firstLast, firstNull⟩, second, secondLast, secondNull⟩
    exact ⟨⟨first, firstLast, (method first firstLast).mpr firstNull⟩,
      second, secondLast, (params second secondLast).mpr secondNull⟩

theorem single_readable_of_shown {member : Member} (typed : wellTyped member = true)
    (plain : member.1.any Piece.escaped = false)
    (shown : (∀ name, member.1.read = some name → isField name = false) → readValue member.2 ≠ none) :
    SingleFields.readable member = true := by
  simp only [SingleFields.readable, Bool.and_eq_true, Bool.not_eq_true']
  refine ⟨⟨plain, typed⟩, ?_⟩
  cases named : member.1.read with
  | none => simp [wellTyped, typedBy, named] at typed
  | some name =>
      by_cases field : isField name = true
      · simp [field]
      · have value : readValue member.2 ≠ none := by
          refine shown fun other isOther => ?_
          have same : name = other := by simpa [named] using isOther
          simpa [← same] using field
        simp [Option.isSome_iff_ne_none.mpr value]

theorem single_readable_iff (members : List Member) :
    members.all SingleFields.readable = true ↔
      (∀ member ∈ members, wellTyped member = true) ∧ ¬EscapesKey members ∧
        ¬HidesUnreadable members := by
  rw [List.all_eq_true]
  constructor
  · intro all
    simp only [SingleFields.readable, Bool.and_eq_true, Bool.not_eq_true'] at all
    refine ⟨fun member belongs => (all member belongs).1.2, ?_, ?_⟩
    · rintro ⟨member, belongs, escaped⟩
      have plain := (all member belongs).1.1
      simp [escaped] at plain
    · rintro ⟨member, belongs, unknown, unreadable⟩
      have facts := (all member belongs).2
      cases named : member.1.read with
      | none => simp [named] at facts
      | some name => simp [named, unknown name named, unreadable] at facts
  · rintro ⟨typed, plain, shown⟩ member belongs
    refine single_readable_of_shown (typed member belongs) ?_ ?_
    · by_contra escaped
      exact plain ⟨member, belongs, by simpa using escaped⟩
    · intro unknown unreadable
      exact shown ⟨member, belongs, unknown, unreadable⟩

theorem single_decode_isSome (members : List Member) :
    (SingleOrBatchRpcRequest.decode (.object members)).isSome = true ↔
      Usable members ∧ ¬EscapesKey members ∧ ¬HidesUnreadable members := by
  have readable := single_readable_iff members
  rw [single_decode_eq]
  by_cases all : members.all SingleFields.readable = true
  · have facts := readable.mp all
    simp only [all, if_true, Option.isSome_map, requestOf_isSome_of_typed facts.1]
    constructor
    · intro ends
      exact ⟨⟨facts.1, ends.1, ends.2⟩, facts.2⟩
    · intro usable
      exact ⟨usable.1.method, usable.1.params⟩
  · simp only [all, if_false, Option.isSome_none, Bool.false_eq_true, false_iff]
    rintro ⟨usable, rest⟩
    exact all (readable.mpr ⟨usable.typed, rest⟩)

theorem wellTyped_of_readable {member : Member} (readable : DerivedFields.readable member = true) :
    wellTyped member = true := by
  have option {α : Type} (read : JsonText → Option α) (isSome : (read member.2).isSome = true) :
      (readOption read member.2).isSome = true := by
    cases isText : member.2 <;> simp_all [readOption]
  exact typedBy_imp readable (fun _ => option readMethod) (fun _ => option readParams)

theorem read_of_last {α : Type} {read : JsonText → Option α} {members : List Member} {member : Member}
    {name : String} (nodup : (fieldNames members).Nodup) (belongs : member ∈ members)
    (named : member.1.read = some name) (field : isField name = true)
    (given : ∃ text, lastText name members = some text ∧ text ≠ .null)
    (typed : (readOption read member.2).isSome = true) : (read member.2).isSome = true := by
  obtain ⟨text, isLast, notNull⟩ := given
  have last := lastText_of_nodup nodup belongs named field
  have same : text = member.2 := Option.some.inj (isLast.symm.trans last)
  rwa [readOption_isSome (same ▸ notNull)] at typed

theorem derived_decode_isSome (members : List Member) :
    (RpcRequest.decode (.object members)).isSome = true ↔ Usable members ∧ ¬Repeats members := by
  rw [derived_decode_eq]
  constructor
  · intro decoded
    split at decoded
    · rename_i accepted
      have typed : ∀ member ∈ members, wellTyped member = true := fun member belongs =>
        wellTyped_of_readable (List.all_eq_true.mp accepted.1 member belongs)
      have ends := (requestOf_isSome_of_typed typed).mp decoded
      exact ⟨⟨typed, ends.1, ends.2⟩, not_not_intro accepted.2⟩
    · simp at decoded
  · rintro ⟨usable, once⟩
    have nodup : (fieldNames members).Nodup := not_not.mp once
    have readable : members.all DerivedFields.readable = true := by
      rw [List.all_eq_true]
      intro member belongs
      apply typedBy_imp (usable.typed member belongs)
      · exact fun named => read_of_last nodup belongs named rfl usable.method
      · exact fun named => read_of_last nodup belongs named rfl usable.params
    rw [if_pos ⟨readable, nodup⟩, requestOf_isSome_of_typed usable.typed]
    exact ⟨usable.method, usable.params⟩

/-- Decoding an object alone and as the only element of a batch gives one request, or
fails in both. -/
def DecodersAgree (members : List Member) : Prop :=
  (∀ request, SingleOrBatchRpcRequest.decode (.object members) = some (.single request) ↔
    SingleOrBatchRpcRequest.decode (.array [.object members]) = some (.batch [request])) ∧
  (SingleOrBatchRpcRequest.decode (.object members) = none ↔
    SingleOrBatchRpcRequest.decode (.array [.object members]) = none)

theorem decodersAgree_iff_isSome (members : List Member) :
    DecodersAgree members ↔
      ((SingleOrBatchRpcRequest.decode (.object members)).isSome = true ↔
        (RpcRequest.decode (.object members)).isSome = true) := by
  simp only [DecodersAgree, batch_decode_eq, single_decode_eq, derived_decode_eq]
  cases requestOf members <;> split <;> split <;> simp

/-- The decoders agree on an object exactly when it makes no request at all, or when
what only the hand-written one refuses stands together with a repeated field. -/
theorem decodersAgree_iff (members : List Member) :
    DecodersAgree members ↔
      (Usable members → (EscapesKey members ∨ HidesUnreadable members ↔ Repeats members)) := by
  rw [decodersAgree_iff_isSome, single_decode_isSome, derived_decode_isSome]
  tauto

def unescaped (text : String) : Literal := text.toList.map fun char => ⟨false, some char⟩

def repeatedId : List Member :=
  [(unescaped "id", .null), (unescaped "id", .bool true), (unescaped "method", .string (unescaped "stop")),
    (unescaped "params", .array [])]

/-- A repeated `id` is settled by the last one in a single request and refused in a batch. -/
theorem decoders_differ_on_repeated_id :
    SingleOrBatchRpcRequest.decode (.object repeatedId) =
        some (.single { jsonrpc := none, id := some (.bool true), method := "stop", params := .array [] }) ∧
      SingleOrBatchRpcRequest.decode (.array [.object repeatedId]) = none ∧ ¬DecodersAgree repeatedId := by
  have alone : SingleOrBatchRpcRequest.decode (.object repeatedId) =
      some (.single { jsonrpc := none, id := some (.bool true), method := "stop", params := .array [] }) := by
    decide
  have inBatch : SingleOrBatchRpcRequest.decode (.array [.object repeatedId]) = none := by decide
  refine ⟨alone, inBatch, fun agree => ?_⟩
  have both := agree.2.mpr inBatch
  simp [alone] at both

end BtcRpcProxy
