import BtcRpcProxy.CredentialFailures
import BtcRpcProxy.RpcCallCore

/-!
`getblock` at verbosity 0 for a block that bitcoind still has: what the client gets of bitcoind's reply to
the proxy's own call, against the reply bitcoind would have given the client.
-/

namespace BtcRpcProxy

open Polled Polled.Future Blocks CredentialFailures

/-! bitcoind, which answers a call in the version it is asked in. -/

inductive NodeAnswer
  | result (value : Json)
  | error (code : Int64) (message : String)

namespace NodeAnswer

def encodeError (code : Int64) (message : String) : Json :=
  .object [("code", .number (Number.ofI64 code)), ("message", .string message)]

def reply (isV2 : Bool) (id : Json) : NodeAnswer → Json
  | .result value =>
      if isV2 then .object (mapOfEntries [("jsonrpc", .string "2.0"), ("result", value), ("id", id)])
      else .object (mapOfEntries [("result", value), ("error", .null), ("id", id)])
  | .error code message =>
      if isV2 then
        .object (mapOfEntries [("jsonrpc", .string "2.0"), ("error", encodeError code message), ("id", id)])
      else .object (mapOfEntries [("result", .null), ("error", encodeError code message), ("id", id)])

/-- The status of a failed 1.0 call: 400 for an invalid request and 404 for an unknown method. -/
def errorStatus (code : Int64) : Nat :=
  if code = -32600 then 400 else if code = -32601 then 404 else HttpResponse.internalServerError

def status (isV2 : Bool) : NodeAnswer → Nat
  | .result _ => HttpResponse.statusOk
  | .error code _ => if isV2 then HttpResponse.statusOk else errorStatus code

def replyTo (answer : NodeAnswer) (request : RpcRequest) : Json :=
  answer.reply request.isV2 (request.id.getD .null)

def response (answer : NodeAnswer) (request : RpcRequest) : Nat × Body :=
  if request.isNotification then (HttpResponse.noContent, .empty)
  else (answer.status request.isV2, .json (answer.replyTo request))

def pruned : NodeAnswer → Bool
  | .result _ => false
  | .error code message => decide (code = miscErrorCode ∧ message = pruneErrorMessage)

end NodeAnswer

def Node.Answers (node : Node) (answer : InternalCall → NodeAnswer) : Prop :=
  ∀ call authorization, ∃ status body,
    (node.post call.encode authorization).value = some (.ok (status, body)) ∧
      node.parseReply body = some ((answer call).reply false .null)

theorem mapInsert_nil (key : String) (value : Json) : mapInsert key value [] = [(key, value)] := rfl

theorem mapInsert_before {key first : String} (different : key ≠ first) (before : key < first) (value old : Json)
    (rest : List (String × Json)) :
    mapInsert key value ((first, old) :: rest) = (key, value) :: (first, old) :: rest := by
  rw [mapInsert, if_neg different, if_pos before]

theorem mapInsert_after {key first : String} (different : key ≠ first) (after : ¬key < first) (value old : Json)
    (rest : List (String × Json)) :
    mapInsert key value ((first, old) :: rest) = (first, old) :: mapInsert key value rest := by
  rw [mapInsert, if_neg different, if_neg after]

theorem entries_reply (value error id : Json) : mapOfEntries [("result", value), ("error", error), ("id", id)] =
    [("error", error), ("id", id), ("result", value)] := by
  simp (disch := decide) only [mapOfEntries, List.foldl_cons, List.foldl_nil, mapInsert_nil, mapInsert_before,
    mapInsert_after]

theorem entries_ownReply (value error id : Json) : mapOfEntries [("id", id), ("error", error), ("result", value)] =
    [("error", error), ("id", id), ("result", value)] := by
  simp (disch := decide) only [mapOfEntries, List.foldl_cons, List.foldl_nil, mapInsert_nil, mapInsert_before,
    mapInsert_after]

theorem entries_resultV2 (version value id : Json) :
    mapOfEntries [("jsonrpc", version), ("result", value), ("id", id)] =
      [("id", id), ("jsonrpc", version), ("result", value)] := by
  simp (disch := decide) only [mapOfEntries, List.foldl_cons, List.foldl_nil, mapInsert_nil, mapInsert_before,
    mapInsert_after]

theorem entries_errorV2 (version error id : Json) :
    mapOfEntries [("jsonrpc", version), ("error", error), ("id", id)] =
      [("error", error), ("id", id), ("jsonrpc", version)] := by
  simp (disch := decide) only [mapOfEntries, List.foldl_cons, List.foldl_nil, mapInsert_nil, mapInsert_before,
    mapInsert_after]

theorem ofI64_roundTrip (code : Int64) : readI64 (.number (Number.ofI64 code)) = some code := by
  unfold Number.ofI64
  split
  · rfl
  · rename_i notNegative
    have isNat := Int64.toNat_toUInt64_of_le (Int64.not_lt.mp notNegative)
    have bound := code.toNatClampNeg_lt
    rw [readI64, if_pos (by omega), Int64.toInt64_toUInt64]

theorem read_error (code : Int64) (message : String) :
    RpcError.read (NodeAnswer.encodeError code message) = some { code, message, status := none } := by
  simp [RpcError.read, NodeAnswer.encodeError, ofI64_roundTrip, readString, List.lookup_cons]

theorem readOptional_null {Value : Type} (read : Json → Option Value) :
    readOptional read (some .null) = some none := rfl

theorem read_result {Response : Type} (readResult : Json → Option Response) (value : Json) :
    RpcResponse.read readResult ((NodeAnswer.result value).reply false .null) =
      (readOptional readResult (some value)).map fun result => { id := none, error := none, result } := by
  simp only [RpcResponse.read, NodeAnswer.reply, Bool.false_eq_true, if_false, entries_reply]
  cases isRead : readOptional readResult (some value) <;> simp [isRead, List.lookup_cons, readOptional_null]

theorem read_failure {Response : Type} (readResult : Json → Option Response) (code : Int64) (message : String) :
    RpcResponse.read readResult ((NodeAnswer.error code message).reply false .null) =
      some { id := none, error := some { code, message, status := none }, result := none } := by
  have isRead : readOptional RpcError.read (some (NodeAnswer.encodeError code message)) =
      some (some { code, message, status := none }) := congrArg (Option.map some) (read_error code message)
  simp only [RpcResponse.read, NodeAnswer.reply, Bool.false_eq_true, if_false, entries_reply]
  simp [isRead, List.lookup_cons, readOptional_null]

theorem ask_value {Response : Type} {node : Node} {answer : InternalCall → NodeAnswer}
    (answers : node.Answers answer) (readResult : Json → Option Response) (call : InternalCall)
    (authorization : HeaderValue) :
    ∃ called, (node.ask readResult call authorization).value = some called ∧
      called.toOption = RpcResponse.read readResult ((answer call).reply false .null) := by
  obtain ⟨status, body, posted, parsed⟩ := answers call authorization
  refine ⟨node.readResponse call.method readResult (.ok (status, body)), ?_, ?_⟩
  · rw [Node.ask, value_map, value_emit, value_silent, posted, Option.map_some]
  · rw [Node.readResponse, parsed, Option.bind_some]
    cases RpcResponse.read readResult ((answer call).reply false .null) with
    | some response => rfl
    | none =>
        simp only
        split <;> rfl

inductive SelfFetch : NodeAnswer → Except RpcError (Option (List UInt8)) → Prop
  | served {text : String} {bytes : List UInt8} : hexBytes text.toList = some bytes →
      SelfFetch (.result (.string text)) (.ok (some bytes))
  | unread {value : Json} {error : RpcError} : (∀ bytes, value ≠ .string (hexEncode bytes)) →
      error.status = none → SelfFetch (.result value) (.error error)
  | failed {code : Int64} {message : String} :
      SelfFetch (.error code message) (.error { code, message, status := none })

theorem hexEncode_read (bytes : List UInt8) : hexBytes (hexEncode bytes).toList = some bytes := by
  rw [hexEncode, String.toList_ofList, hexBytes_hexChars]

theorem readBlockReply_hex (floatBits : Number → UInt64) (bytes : List UInt8) :
    readOptional (readBlockReply floatBits) (some (.string (hexEncode bytes))) = some (some (.left bytes)) := by
  simp [readOptional, readBlockReply, hexEncode_read]

theorem left_of_readBlockReply {floatBits : Number → UInt64} {value : Json} {bytes : List UInt8}
    (isRead : readOptional (readBlockReply floatBits) (some value) = some (some (.left bytes))) :
    ∃ text, value = .string text ∧ hexBytes text.toList = some bytes := by
  cases value with
  | string text => exact ⟨text, rfl, by simpa [readOptional, readBlockReply] using isRead⟩
  | _ => simp [readOptional, readBlockReply] at isRead

theorem eq_ok_of_toOption {Error Value : Type} {result : Except Error Value} {value : Value}
    (isValue : result.toOption = some value) : result = .ok value := by
  cases result with
  | error error => simp [Except.toOption] at isValue
  | ok other => rw [Option.some.inj isValue]

theorem selfFetch_of_called {floatBits : Number → UInt64} {answer : NodeAnswer} {blockFromNull : AnyhowError}
    (notPruned : blockFromNull.alternate ≠ pruneErrorMessage)
    {called : Except ClientError (RpcResponse BlockReply)} (unpruned : answer.pruned = false)
    (isCalled : called.toOption = RpcResponse.read (readBlockReply floatBits) (answer.reply false .null)) :
    SelfFetch answer (FetchBlocks.fetchBlockFromSelf blockFromNull called) := by
  cases answer with
  | error code message =>
      rw [read_failure] at isCalled
      simp only [NodeAnswer.pruned, decide_eq_false_iff_not] at unpruned
      rw [eq_ok_of_toOption isCalled]
      simp only [FetchBlocks.fetchBlockFromSelf, RpcResponse.intoResult, if_neg unpruned]
      exact .failed
  | result value =>
      rw [read_result] at isCalled
      have notHex : ∀ reply, readOptional (readBlockReply floatBits) (some value) = reply →
          (∀ bytes, reply ≠ some (some (.left bytes))) → ∀ bytes, value ≠ .string (hexEncode bytes) := by
        rintro _ rfl differs bytes rfl
        exact differs bytes (readBlockReply_hex floatBits bytes)
      cases isRead : readOptional (readBlockReply floatBits) (some value) with
      | none =>
          rw [isRead] at isCalled
          cases called with
          | ok response => simp [Except.toOption] at isCalled
          | error error => exact .unread (notHex _ isRead (by simp)) rfl
      | some result =>
          rw [isRead] at isCalled
          rw [eq_ok_of_toOption isCalled]
          cases result with
          | none =>
              simp only [FetchBlocks.fetchBlockFromSelf, RpcResponse.intoResult, Except.mapError,
                RpcError.ofError, notPruned, and_false, if_false]
              exact .unread (notHex _ isRead (by simp)) rfl
          | some reply =>
              cases reply with
              | left bytes =>
                  obtain ⟨text, rfl, isHex⟩ := left_of_readBlockReply isRead
                  exact .served isHex
              | right block => exact .unread (notHex _ isRead (by simp)) rfl

theorem fetchBlockRaw_answered {node : Node} {answer : InternalCall → NodeAnswer} (answers : node.Answers answer)
    {env : Environment} {askPeer : Nat → Nat → String → NetworkParams → Digest → Future Empty (Option Block)}
    {secret : Secret} {place : Nat} {hash : Digest} {authorization : HeaderValue}
    (loaded : (env.tryLoad (.block place)).value = some (.ok authorization)) (missing : env.cached place hash = none)
    (notPruned : (env.fromNull "getblock").alternate ≠ pruneErrorMessage)
    (unpruned : (answer (blockCall hash)).pruned = false) :
    ∃ fetched, SelfFetch (answer (blockCall hash)) fetched ∧
      ((node.serving env askPeer).fetchBlockRaw secret place hash).value = some fetched := by
  obtain ⟨called, isValue, isCalled⟩ :=
    ask_value answers (readBlockReply node.floatBits) (blockCall hash) authorization
  have fetch := selfFetch_of_called notPruned unpruned isCalled
  refine ⟨_, fetch, ?_⟩
  have isLoaded : ((node.serving env askPeer).load secret (.block place)).value = some (.ok authorization) := by
    rw [Environment.load, value_map]
    exact congrArg _ loaded
  have self : ((node.serving env askPeer).fetchBlockFromSelf secret place hash).value =
      some (FetchBlocks.fetchBlockFromSelf (env.fromNull "getblock") called) := by
    rw [Environment.fetchBlockFromSelf, value_map, Environment.call, value_bind, value_silent, isLoaded]
    exact congrArg (Option.map _) isValue
  have notCached : (node.serving env askPeer).cached place hash = none := missing
  rw [Environment.fetchBlockRaw, notCached]
  simp only [value_bind, self, Option.bind_some]
  generalize FetchBlocks.fetchBlockFromSelf (env.fromNull "getblock") called = fetched at fetch ⊢
  generalize answer (blockCall hash) = given at fetch
  cases fetch <;> rfl

def HttpResponse.Shows (response : HttpResponse) (shown : Nat × Body) : Prop :=
  response.status = shown.1 ∧ response.body.value = some (.ok shown.2)

/-- The proxy's own reply as that of a node whose failed calls have one status. -/
def NodeAnswer.ownResponse (answer : NodeAnswer) (request : RpcRequest) : Nat × Body :=
  if request.isNotification then (HttpResponse.noContent, .empty)
  else
    (match answer with
      | .result _ => HttpResponse.statusOk
      | .error _ _ => if request.isV2 then HttpResponse.statusOk else HttpResponse.internalServerError,
      .json (answer.replyTo request))

theorem intoReply_answer (request : RpcRequest) (value : Json) :
    (request.answer value).intoReply request = (NodeAnswer.result value).replyTo request := by
  cases version : request.isV2 <;>
    simp [RpcResponse.intoReply, RpcRequest.answer, NodeAnswer.replyTo, NodeAnswer.reply, version,
      RpcError.encodeOption, entries_reply, entries_ownReply]

theorem intoReply_ofError (request : RpcRequest) (error : RpcError) :
    (RpcResponse.ofError error).intoReply request =
      (NodeAnswer.error error.code error.message).replyTo request := by
  have encoded : NodeAnswer.encodeError error.code error.message = error.encode := rfl
  cases version : request.isV2 <;>
    simp [RpcResponse.intoReply, RpcResponse.ofError, NodeAnswer.replyTo, NodeAnswer.reply, version,
      RpcError.encodeOption, entries_reply, entries_ownReply, encoded]

theorem answer_shows (request : RpcRequest) (value : Json) :
    ((request.answer value).intoResponseTo request).Shows ((NodeAnswer.result value).ownResponse request) := by
  have noError : (request.answer value).error = none := rfl
  cases asks : request.isNotification <;>
    simp [HttpResponse.Shows, RpcResponse.intoResponseTo, noError, NodeAnswer.ownResponse, asks,
      HttpResponse.ofEmpty, HttpResponse.ofJson, intoReply_answer]

theorem error_shows (request : RpcRequest) {error : RpcError} (plain : error.status = none) :
    ((RpcResponse.ofError error).intoResponseTo request).Shows
      ((NodeAnswer.error error.code error.message).ownResponse request) := by
  have isError : (RpcResponse.ofError error : RpcResponse Json).error = some error := rfl
  cases asks : request.isNotification <;> cases version : request.isV2 <;>
    simp [HttpResponse.Shows, RpcResponse.intoResponseTo, isError, NodeAnswer.ownResponse, asks, version,
      HttpResponse.ofEmpty, HttpResponse.ofJson, intoReply_ofError, plain]

theorem shows_iff {response : HttpResponse} {shown other : Nat × Body} (isShown : response.Shows shown) :
    response.Shows other ↔ shown = other := by
  constructor
  · rintro ⟨status, body⟩
    have bodies := isShown.2.symm.trans body
    simp only [Option.some.injEq, Except.ok.injEq] at bodies
    exact Prod.ext (isShown.1.symm.trans status) bodies
  · rintro rfl
    exact isShown

theorem encodeError_injective {code code' : Int64} {message message' : String}
    (same : NodeAnswer.encodeError code message = NodeAnswer.encodeError code' message') :
    code = code' ∧ message = message' := by
  have reads := congrArg RpcError.read same
  rw [read_error, read_error, Option.some.injEq, RpcError.mk.injEq] at reads
  exact ⟨reads.1, reads.2.1⟩

theorem reply_injective {isV2 : Bool} {id : Json} {first second : NodeAnswer}
    (same : first.reply isV2 id = second.reply isV2 id) : first = second := by
  cases first with
  | result value =>
      cases second with
      | result other =>
          cases isV2 <;> simpa [NodeAnswer.reply, entries_reply, entries_resultV2] using same
      | error code message =>
          cases isV2 <;>
            simp [NodeAnswer.reply, entries_reply, entries_resultV2, entries_errorV2, NodeAnswer.encodeError] at same
  | error code message =>
      cases second with
      | result other =>
          cases isV2 <;>
            simp [NodeAnswer.reply, entries_reply, entries_resultV2, entries_errorV2, NodeAnswer.encodeError] at same
      | error code' message' =>
          have errors : NodeAnswer.encodeError code message = NodeAnswer.encodeError code' message' := by
            cases isV2 <;> simpa [NodeAnswer.reply, entries_reply, entries_errorV2] using same
          obtain ⟨rfl, rfl⟩ := encodeError_injective errors
          rfl

theorem ownResponse_silent {request : RpcRequest} (silent : request.isNotification = true)
    (own answer : NodeAnswer) : own.ownResponse request = answer.response request := by
  simp [NodeAnswer.ownResponse, NodeAnswer.response, silent]

/-- What makes no difference to the client: a result as the proxy writes it, and a failure with the status the
proxy gives it. -/
def NodeAnswer.Relayable (request : RpcRequest) : NodeAnswer → Prop
  | .result value => ∃ bytes, value = .string (hexEncode bytes)
  | .error code _ => request.isV2 = true ∨ NodeAnswer.errorStatus code = HttpResponse.internalServerError

theorem ownResponse_result_iff {request : RpcRequest} (asks : request.isNotification = false) (value : Json)
    (answer : NodeAnswer) :
    (NodeAnswer.result value).ownResponse request = answer.response request ↔ answer = .result value := by
  simp only [NodeAnswer.ownResponse, NodeAnswer.response, asks, Bool.false_eq_true, if_false, Prod.mk.injEq,
    Body.json.injEq]
  constructor
  · rintro ⟨_, replies⟩
    exact (reply_injective replies).symm
  · rintro rfl
    exact ⟨rfl, rfl⟩

theorem ownResponse_error_iff {request : RpcRequest} (asks : request.isNotification = false) (code : Int64)
    (message : String) (answer : NodeAnswer) :
    (NodeAnswer.error code message).ownResponse request = answer.response request ↔
      answer = .error code message ∧ answer.Relayable request := by
  simp only [NodeAnswer.ownResponse, NodeAnswer.response, asks, Bool.false_eq_true, if_false, Prod.mk.injEq,
    Body.json.injEq]
  constructor
  · rintro ⟨status, replies⟩
    obtain rfl := reply_injective replies
    refine ⟨rfl, ?_⟩
    cases version : request.isV2 with
    | true => exact Or.inl version
    | false =>
        simp only [NodeAnswer.status, version, Bool.false_eq_true, if_false] at status
        exact Or.inr status.symm
  · rintro ⟨rfl, version | isStatus⟩
    · simp [NodeAnswer.status, version]
    · cases version : request.isV2 <;> simp [NodeAnswer.status, isStatus]

def relayed (request : RpcRequest) : Except RpcError (Option (List UInt8)) → RpcResponse Json
  | .ok (some block) => request.answer (.string (hexEncode block))
  | .ok none => request.fail (miscError pruneErrorMessage)
  | .error error => RpcResponse.ofError error

theorem relayed_shows_iff {request : RpcRequest} {answer : NodeAnswer}
    {fetched : Except RpcError (Option (List UInt8))} (fetch : SelfFetch answer fetched) :
    ((relayed request fetched).intoResponseTo request).Shows (answer.response request) ↔
      request.isNotification = true ∨ answer.Relayable request := by
  cases fetch with
  | @served text bytes isHex =>
      rw [relayed, shows_iff (answer_shows request _)]
      cases asks : request.isNotification with
      | true => exact iff_of_true (ownResponse_silent asks _ _) (Or.inl rfl)
      | false =>
          rw [ownResponse_result_iff asks]
          simp only [NodeAnswer.result.injEq, Bool.false_eq_true, false_or]
          constructor
          · exact fun same => ⟨bytes, same⟩
          · rintro ⟨others, same⟩
            rw [Json.string.inj same, hexEncode_read] at isHex
            rw [same, Option.some.inj isHex]
  | @unread value error notHex plain =>
      rw [relayed, shows_iff (error_shows request plain)]
      cases asks : request.isNotification with
      | true => exact iff_of_true (ownResponse_silent asks _ _) (Or.inl rfl)
      | false =>
          rw [ownResponse_error_iff asks]
          simp only [reduceCtorEq, false_and, Bool.false_eq_true, false_or, false_iff]
          rintro ⟨bytes, isBytes⟩
          exact notHex bytes isBytes
  | @failed code message =>
      rw [relayed, shows_iff (error_shows request rfl)]
      cases asks : request.isNotification with
      | true => exact iff_of_true (ownResponse_silent asks _ _) (Or.inl rfl)
      | false => simp [ownResponse_error_iff asks]

/-! Whole requests. -/

structure AsksRaw (user : User) (request : RpcRequest) (hash : Digest) : Prop where
  fetches : user.fetchBlocks = true
  allowed : user.allows request.method = true
  method : request.method = getBlock
  params : ∃ params number, request.params = .array params ∧ params[0]?.bind readHash = some hash ∧
    params[1]? = some (.number number) ∧ number.asU64 = some 0

theorem intercept_raw {user : User} {upstream : Upstream} {request : RpcRequest} {hash : Digest}
    {fetched : Except RpcError (Option (List UInt8))} (asks : AsksRaw user request hash)
    (settles : (upstream.fetchBlockRaw hash).value = some fetched) :
    (user.intercept upstream request).value = some (.ok (some (relayed request fetched))) := by
  obtain ⟨params, number, isParams, isHash, isVerbosity, isZero⟩ := asks.params
  have isGetBlock : (user.fetchBlocks && request.method == getBlock) = true := by simp [asks.fetches, asks.method]
  simp only [User.intercept, asks.allowed, if_true, isParams, isGetBlock, isVerbosity, Option.getD_some, isZero,
    interceptBlockRaw, withBlockHash_value isHash, value_map, settles, Option.map_some]
  rcases fetched with error | _ | block <;> rfl

end BtcRpcProxy
