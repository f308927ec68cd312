import BtcRpcProxy.JsonRoundTrip
import BtcRpcProxy.RequestDecoders
import Mathlib.Data.List.Forall2

/-!
A request that was decoded, encoded and decoded again. Both decoders leave a null version out and
keep a null id, and the encoder writes both as it finds them; so nothing of a decoded request is lost
on its way to bitcoind.
-/

namespace BtcRpcProxy

/-! What bitcoind finds in a call. -/

def JsonText.member (name : String) : JsonText → Option JsonText
  | .object members => (members.find? fun member => member.1.read = some name).map Prod.snd
  | _ => none

/-- The calls in a body: the body itself or the elements of a batch. -/
def callTexts : JsonText → List JsonText
  | .array items => items
  | text => [text]

def SingleOrBatchRpcRequest.requests : SingleOrBatchRpcRequest → List RpcRequest
  | .single request => [request]
  | .batch requests => requests

structure ReadsAs (text : JsonText) (request : RpcRequest) : Prop where
  method : (text.member "method").bind readMethod = some request.method
  params : (text.member "params").bind readParams = some request.params
  version : (text.member "jsonrpc").map readValue = request.jsonrpc.map some
  id : (text.member "id").map readValue = request.id.map some

def notifies (text : JsonText) : Prop :=
  (text.member "jsonrpc").bind readValue = some (.string "2.0") ∧ text.member "id" = none

/-! What a decoder makes. -/

def GenericRpcParams.Canonical : GenericRpcParams → Prop
  | .array items => CanonicalItems items
  | .object members => Sorted members ∧ CanonicalMembers members

structure RpcRequest.Canonical (request : RpcRequest) : Prop where
  version : ∀ version, request.jsonrpc = some version → version ≠ .null ∧ version.Canonical
  id : ∀ id, request.id = some id → id.Canonical
  params : request.params.Canonical

theorem readValue_eq_null {text : JsonText} (read : readValue text = some .null) : text = .null := by
  cases text with
  | null => rfl
  | bool value => simp [readValue] at read
  | number value => simp [readValue] at read
  | string literal => simp [readValue] at read
  | array items => simp [readValue] at read
  | object members => simp [readValue] at read

theorem version_of_readOption {text : JsonText} {version : Json}
    (read : readOption readValue text = some (some version)) : version ≠ .null ∧ version.Canonical := by
  have isRead : text ≠ .null ∧ readValue text = some version := by
    cases text with
    | null => simp [readOption] at read
    | _ => exact ⟨by simp, by simpa [readOption] using read⟩
  refine ⟨?_, canonical_readValue isRead.2⟩
  rintro rfl
  exact isRead.1 (readValue_eq_null isRead.2)

theorem canonical_readParams {text : JsonText} {params : GenericRpcParams}
    (read : readParams text = some params) : params.Canonical := by
  cases text with
  | array items =>
      obtain ⟨values, readAll, rfl⟩ := Option.map_eq_some_iff.mp read
      exact canonical_readItems readAll
  | object members =>
      obtain ⟨entries, readAll, rfl⟩ := Option.map_eq_some_iff.mp read
      exact ⟨sorted_mapOfEntries entries, canonical_mapOfEntries (canonical_readMembers readAll)⟩
  | _ => simp [readParams] at read

theorem read_of_latest {α : Type} {read : JsonText → Option α} {name : String} {members : List Member}
    {value : α} (isLatest : latest read name members none = some value) : ∃ text, read text = some value := by
  unfold latest at isLatest
  split at isLatest
  · rename_i text _
    exact ⟨text, isLatest⟩
  · simp at isLatest

theorem canonical_requestOf {members : List Member} {request : RpcRequest}
    (isRequest : requestOf members = some request) : request.Canonical := by
  simp only [requestOf, SingleFields.finish, SingleFields.overwrite, SingleFields.empty] at isRequest
  split at isRequest
  · rename_i method params _ isParams
    obtain rfl := Option.some.inj isRequest
    refine ⟨?_, ?_, ?_⟩
    · intro version isVersion
      obtain ⟨text, read⟩ := read_of_latest isVersion
      exact version_of_readOption (Option.join_eq_some_iff.mp read)
    · intro id isId
      obtain ⟨text, read⟩ := read_of_latest isId
      exact canonical_readValue read
    · obtain ⟨text, read⟩ := read_of_latest isParams
      rw [join_readOption readParams rfl] at read
      exact canonical_readParams read
  · simp at isRequest

theorem canonical_decode {text : JsonText} {request : RpcRequest}
    (decoded : RpcRequest.decode text = some request) : request.Canonical := by
  unfold RpcRequest.decode at decoded
  split at decoded
  · rename_i members
    have isRequest := derived_decode_eq members
    simp only [RpcRequest.decode, decoded] at isRequest
    split at isRequest
    · exact canonical_requestOf isRequest.symm
    · simp at isRequest
  · split at decoded
    · rename_i jsonrpc id method params version readId _ readParams
      obtain rfl := Option.some.inj decoded
      refine ⟨?_, ?_, canonical_readParams readParams⟩
      · rintro value rfl
        exact version_of_readOption version
      · intro value isId
        exact canonical_readValue (readId.trans isId)
    · simp at decoded
  · simp at decoded

theorem canonical_decodeBatch {items : List JsonText} {requests : List RpcRequest}
    (decoded : decodeBatch items = some requests) : ∀ request ∈ requests, request.Canonical := by
  induction items generalizing requests with
  | nil =>
      obtain rfl := Option.some.inj decoded
      simp
  | cons item rest ih =>
      simp only [decodeBatch] at decoded
      split at decoded
      · rename_i first others isFirst isOthers
        obtain rfl := Option.some.inj decoded
        exact List.forall_mem_cons.mpr ⟨canonical_decode isFirst, ih isOthers⟩
      · simp at decoded

theorem canonical_of_decoded {text : JsonText} {sent : SingleOrBatchRpcRequest}
    (decoded : SingleOrBatchRpcRequest.decode text = some sent) :
    ∀ request ∈ sent.requests, request.Canonical := by
  cases text with
  | array items =>
      obtain ⟨requests, isBatch, rfl⟩ := Option.map_eq_some_iff.mp decoded
      exact canonical_decodeBatch isBatch
  | object members =>
      rw [single_decode_eq] at decoded
      split at decoded
      · obtain ⟨request, isRequest, rfl⟩ := Option.map_eq_some_iff.mp decoded
        exact List.forall_mem_singleton.mpr (canonical_requestOf isRequest)
      · simp at decoded
  | _ => simp [SingleOrBatchRpcRequest.decode] at decoded

theorem readOption_write {version : Json} (present : version ≠ .null) (canonical : version.Canonical) :
    readOption readValue version.write = some (some version) := by
  have notNull : version.write ≠ .null := by
    cases version with
    | null => exact absurd rfl present
    | _ => simp [Json.write]
  have read := readValue_write canonical
  cases isText : version.write with
  | null => exact absurd isText notNull
  | _ => simp [readOption, ← isText, read]

theorem readParams_write {params : GenericRpcParams} (canonical : params.Canonical) :
    readParams params.encode.write = some params := by
  cases params with
  | array items => simp [GenericRpcParams.encode, Json.write, readParams, readItems_write canonical]
  | object members =>
      obtain ⟨sorted, values⟩ := canonical
      simp [GenericRpcParams.encode, Json.write, readParams, readMembers_write values,
        mapOfEntries_of_sorted sorted]

theorem borrow_writeString {text : String} (plain : text.toList.any needsEscape = false) :
    (writeString text).borrow = some text := by
  have notEscaped : (writeString text).any Piece.escaped = false := by
    simpa [writeString, List.any_map, Function.comp_def] using plain
  simp [Literal.borrow, notEscaped]

section

variable {request : RpcRequest}

theorem readVersion_write (canonical : request.Canonical) (version : Json)
    (isVersion : request.jsonrpc = some version) :
    readOption readValue version.write = some (some version) := by
  obtain ⟨present, versionCanonical⟩ := canonical.version version isVersion
  exact readOption_write present versionCanonical

theorem readId_write (canonical : request.Canonical) (value : Json) (isId : request.id = some value) :
    readValue value.write = some value :=
  readValue_write (canonical.id value isId)

theorem derived_decode_write (canonical : request.Canonical) :
    RpcRequest.decode request.encode.write = some request := by
  obtain ⟨jsonrpc, id, method, params⟩ := request
  have readParams := readParams_write canonical.params
  have readVersion := readVersion_write canonical
  have readId := readId_write canonical
  cases jsonrpc <;> cases id <;>
    simp [RpcRequest.encode, Json.write, writeMembers, RpcRequest.decode, DerivedFields.visitMembers,
      DerivedFields.visitMember, DerivedFields.empty, DerivedFields.finish, readMethod, readParams, readVersion,
      readId]

theorem single_decode_write (canonical : request.Canonical) :
    SingleOrBatchRpcRequest.decode request.encode.write = some (.single request) := by
  obtain ⟨jsonrpc, id, method, params⟩ := request
  have readParams : readOption readParams params.encode.write = some (some params) := by
    have read := readParams_write canonical.params
    cases params <;> simpa [readOption, GenericRpcParams.encode, Json.write] using read
  have readMethod : readOption readMethod (.string (writeString method)) = some (some method) := by
    simp [readOption, readMethod]
  have readVersion := readVersion_write canonical
  have readId := readId_write canonical
  have jsonrpcKey : (writeString "jsonrpc").borrow = some "jsonrpc" := borrow_writeString (by decide)
  have idKey : (writeString "id").borrow = some "id" := borrow_writeString (by decide)
  have methodKey : (writeString "method").borrow = some "method" := borrow_writeString (by decide)
  have paramsKey : (writeString "params").borrow = some "params" := borrow_writeString (by decide)
  cases jsonrpc <;> cases id <;>
    simp [RpcRequest.encode, Json.write, writeMembers, SingleOrBatchRpcRequest.decode,
      SingleFields.visitMembers, SingleFields.visitMember, SingleFields.empty, SingleFields.finish, jsonrpcKey, idKey,
      methodKey, paramsKey, readMethod, readParams, readVersion, readId]

theorem readsAs_write (canonical : request.Canonical) : ReadsAs request.encode.write request := by
  obtain ⟨jsonrpc, id, method, params⟩ := request
  have readParams := readParams_write canonical.params
  have readVersion (version : Json) (isVersion : jsonrpc = some version) :
      readValue version.write = some version :=
    readValue_write (canonical.version version isVersion).2
  have readId := readId_write canonical
  cases jsonrpc <;> cases id <;> constructor <;>
    simp [RpcRequest.encode, Json.write, writeMembers, JsonText.member, readMethod, readParams, readVersion,
      readId]

end

theorem decodeBatch_write {requests : List RpcRequest} (canonical : ∀ request ∈ requests, request.Canonical) :
    decodeBatch (writeItems (requests.map RpcRequest.encode)) = some requests := by
  induction requests with
  | nil => rfl
  | cons request rest ih =>
      obtain ⟨first, others⟩ := List.forall_mem_cons.mp canonical
      simp [writeItems, decodeBatch, derived_decode_write first, ih others]

theorem callTexts_readAs {requests : List RpcRequest} (canonical : ∀ request ∈ requests, request.Canonical) :
    List.Forall₂ ReadsAs (writeItems (requests.map RpcRequest.encode)) requests := by
  induction requests with
  | nil => exact List.Forall₂.nil
  | cons request rest ih =>
      obtain ⟨first, others⟩ := List.forall_mem_cons.mp canonical
      exact List.Forall₂.cons (readsAs_write first) (ih others)

theorem bind_of_map {α β : Type} {read : α → Option β} {given : Option α} {value : Option β}
    (same : given.map read = value.map some) : given.bind read = value := by
  cases given with
  | none => cases value <;> simp_all
  | some given => cases value <;> simp_all

theorem ReadsAs.notifies_iff {text : JsonText} {request : RpcRequest} (reads : ReadsAs text request) :
    notifies text ↔ request.isNotification = true := by
  have version : (text.member "jsonrpc").bind readValue = request.jsonrpc := bind_of_map reads.version
  have id : text.member "id" = none ↔ request.id = none := by
    rw [← Option.map_eq_none_iff, reads.id, Option.map_eq_none_iff]
  simp only [notifies, version, id, RpcRequest.isNotification, RpcRequest.isV2, Bool.and_eq_true,
    decide_eq_true_eq, Option.isNone_iff_eq_none]
  exact and_comm

/-- What a decoder made of a body is decoded again from the body that is forwarded, and each call in
that body is, for bitcoind, the call the proxy has seen. -/
theorem decode_encode_of_decoded {text : JsonText} {sent : SingleOrBatchRpcRequest}
    (decoded : SingleOrBatchRpcRequest.decode text = some sent) :
    SingleOrBatchRpcRequest.decode sent.encode.write = some sent ∧
      List.Forall₂ (fun call request => ReadsAs call request ∧
        (notifies call ↔ request.isNotification = true)) (callTexts sent.encode.write) sent.requests := by
  have canonical := canonical_of_decoded decoded
  cases sent with
  | single request =>
      have isCanonical := canonical request List.mem_cons_self
      have reads := readsAs_write isCanonical
      exact ⟨single_decode_write isCanonical, List.Forall₂.cons ⟨reads, reads.notifies_iff⟩ List.Forall₂.nil⟩
  | batch requests =>
      have areCanonical : ∀ request ∈ requests, request.Canonical := canonical
      constructor
      · simp [SingleOrBatchRpcRequest.encode, Json.write, SingleOrBatchRpcRequest.decode,
          decodeBatch_write areCanonical]
      · exact (callTexts_readAs areCanonical).imp fun _ _ reads => ⟨reads, reads.notifies_iff⟩

/-! A batch of a notification, a call with a null id and a repeated parameter, and a legacy call. -/

def plainText (text : String) : JsonText := .string (writeString text)

def threeCalls : JsonText :=
  .array [
    .object [(writeString "jsonrpc", plainText "2.0"), (writeString "method", plainText "stop"),
      (writeString "params", .array [])],
    .object [(writeString "params", .object [(writeString "wallet", .bool true), (writeString "label", .null),
        (writeString "wallet", plainText "a\"b")]),
      (writeString "method", plainText "getbalance"), (writeString "id", .null),
      (writeString "jsonrpc", plainText "2.0")],
    .array [.null, .number (some (.posInt 7)), plainText "help", .array [.null]]]

theorem decode_encode_of_threeCalls :
    ∃ sent, SingleOrBatchRpcRequest.decode threeCalls = some sent ∧
      sent.requests.map RpcRequest.isNotification = [true, false, false] ∧
      SingleOrBatchRpcRequest.decode sent.encode.write = some sent ∧
      List.Forall₂ (fun call request => ReadsAs call request ∧
        (notifies call ↔ request.isNotification = true)) (callTexts sent.encode.write) sent.requests := by
  have notifications : (SingleOrBatchRpcRequest.decode threeCalls).map
      (fun sent => sent.requests.map RpcRequest.isNotification) = some [true, false, false] := by
    decide +kernel
  obtain ⟨sent, decoded, isNotification⟩ := Option.map_eq_some_iff.mp notifications
  exact ⟨sent, decoded, isNotification, decode_encode_of_decoded decoded⟩

end BtcRpcProxy
