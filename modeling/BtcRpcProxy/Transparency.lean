import BtcRpcProxy.BatchFailure
import BtcRpcProxy.TransactionLookups

/-!
A request through the proxy against the same request to bitcoind: whatever is left to bitcoind and whatever
the proxy answers from its own fetch of a block, alone or in a batch, under any order of completion.
-/

namespace BtcRpcProxy

open Polled Polled.Future Blocks CredentialFailures

def RpcRequest.call (request : RpcRequest) : InternalCall :=
  { method := request.method, params := request.params.encode }

def directReply (direct : InternalCall → NodeAnswer) (request : RpcRequest) : Json :=
  (direct request.call).replyTo request

def directReplies (direct : InternalCall → NodeAnswer) (requests : List RpcRequest) : List Json :=
  (requests.filter fun request => !request.isNotification).map (directReply direct)

def directResponse (direct : InternalCall → NodeAnswer) : SingleOrBatchRpcRequest → Nat × Body
  | .single request => (direct request.call).response request
  | .batch requests =>
      if onlyNotifications requests then (HttpResponse.noContent, .empty)
      else (HttpResponse.statusOk, .json (.array (directReplies direct requests)))

def RpcClient.AnswersDirectly (client : RpcClient) (direct : InternalCall → NodeAnswer) (uri : String)
    (authorization : HeaderValue) : Prop :=
  ∀ calls : SingleOrBatchRpcRequest, ∃ response,
    (client.request { uri, authorization, body := calls.encode }).value = some (.ok response) ∧
      response.Shows (directResponse direct calls)

/-! What the elements of a request come to. -/

def User.LooksUp (user : User) (request : RpcRequest) : Prop :=
  ∃ txid verbose hash, AsksTransaction user request txid verbose hash

/-- Left to bitcoind, answered from the bytes it gave the proxy, or answered with the result it has too. -/
inductive Settled (user : User) (request : RpcRequest) (answer : NodeAnswer) : Option (RpcResponse Json) → Prop
  | forwarded : user.forwards request = true → Settled user request answer none
  | fetched {fetched : Except RpcError (Option (List UInt8))} : user.forwards request = false →
      ¬user.LooksUp request → SelfFetch answer fetched → Settled user request answer (some (relayed request fetched))
  | lookedUp {value : Json} : user.forwards request = false → user.LooksUp request → answer = .result value →
      Settled user request answer (some (request.answer value))

def NodeAnswer.Rewritten : NodeAnswer → Prop
  | .result value => ∃ bytes, value = .string (hexEncode bytes)
  | .error _ _ => True

def NodeAnswer.Kept (answer : NodeAnswer) (request : RpcRequest) : SingleOrBatchRpcRequest → Prop
  | .single _ => answer.Relayable request
  | .batch _ => answer.Rewritten

theorem relayed_intoReply_iff {request : RpcRequest} {answer : NodeAnswer}
    {fetched : Except RpcError (Option (List UInt8))} (fetch : SelfFetch answer fetched) :
    (relayed request fetched).intoReply request = answer.replyTo request ↔ answer.Rewritten := by
  cases fetch with
  | @served text bytes isHex =>
      rw [relayed, intoReply_answer]
      constructor
      · intro same
        exact ⟨bytes, (NodeAnswer.result.inj (reply_injective same)).symm⟩
      · rintro ⟨others, same⟩
        rw [Json.string.inj same, hexEncode_read] at isHex
        rw [same, Option.some.inj isHex]
  | @unread value error notHex _ =>
      rw [relayed, intoReply_ofError]
      constructor
      · intro same
        exact absurd (reply_injective same) (by simp)
      · rintro ⟨bytes, isBytes⟩
        exact absurd isBytes (notHex bytes)
  | failed => exact iff_of_true (intoReply_ofError request _) trivial

theorem settled_reply_iff {user : User} {request : RpcRequest} {answer : NodeAnswer}
    {outcome : Option (RpcResponse Json)} (settled : Settled user request answer outcome) :
    replyFor outcome request (answer.replyTo request) = answer.replyTo request ↔
      user.forwards request = true ∨ user.LooksUp request ∨ answer.Rewritten := by
  cases settled with
  | forwarded forwards => exact iff_of_true rfl (Or.inl forwards)
  | fetched forwards other fetch => simp [replyFor, relayed_intoReply_iff fetch, forwards, other]
  | lookedUp _ looksUp same =>
      subst same
      exact iff_of_true (intoReply_answer request _) (Or.inr (Or.inl looksUp))

section

variable {client : RpcClient} {direct : InternalCall → NodeAnswer} {path uri : String}
  {authorization : HeaderValue} {user : User}

theorem sendSingle_shows_iff {request : RpcRequest} {intercepted : Future InternalCall Outcome}
    {outcome : Option (RpcResponse Json)} (reaches : client.Reaches path uri authorization)
    (serves : client.AnswersDirectly direct uri authorization) (settles : intercepted.value = some (.ok outcome))
    (settled : Settled user request (direct request.call) outcome) :
    ∃ response, (client.sendSingle path request intercepted).value = some (.ok response) ∧
      (response.Shows (directResponse direct (.single request)) ↔
        user.forwards request = true ∨ request.isNotification = true ∨ user.LooksUp request ∨
          (direct request.call).Kept request (.single request)) := by
  cases settled with
  | forwarded forwards =>
      obtain ⟨response, isResponse, shows⟩ := serves (.single request)
      refine ⟨response, ?_, iff_of_true shows (Or.inl forwards)⟩
      rw [sendSingle_forwarded reaches settles]
      exact isResponse
  | fetched forwards other fetch =>
      refine ⟨_, sendSingle_answered settles, ?_⟩
      simp only [forwards, Bool.false_eq_true, false_or, other]
      exact relayed_shows_iff fetch
  | lookedUp _ looksUp same =>
      refine ⟨_, sendSingle_answered settles, iff_of_true ?_ (Or.inr (Or.inr (Or.inl looksUp)))⟩
      rw [directResponse, same]
      exact answer_shows request _

def replyAt (direct : InternalCall → NodeAnswer) (requests : List RpcRequest) (place : Nat) : Json :=
  ((requests[place]?).map (directReply direct)).getD .null

theorem replyAt_placed {requests : List RpcRequest} {key : Placed} (member : key ∈ placed requests) :
    replyAt direct requests key.1 = directReply direct key.2 := by
  rw [replyAt, placed_getElem member, Option.map_some, Option.getD_some]

theorem repliesTo_direct (posted : List RpcRequest) :
    repliesTo posted (posted.map (directReply direct)) = directReplies direct posted := by
  have paired : posted.zip (posted.map (directReply direct)) =
      posted.map fun request => (request, directReply direct request) := by
    have pairs := @List.zip_map' _ _ _ id (directReply direct) posted
    rwa [List.map_id] at pairs
  rw [repliesTo, paired, List.filter_map, List.map_map]
  rfl

theorem carries_of_shows {response : HttpResponse} {posted : List RpcRequest}
    (shows : response.Shows (directResponse direct (.batch posted))) :
    response.Carries (repliesTo posted (posted.map (directReply direct))) := by
  rw [repliesTo_direct]
  cases only : onlyNotifications posted with
  | true =>
      rw [directResponse, only] at shows
      refine Or.inl ⟨shows.1, ?_⟩
      simp only [onlyNotifications, Bool.and_eq_true, List.all_eq_true] at only
      rw [directReplies, List.map_eq_nil_iff, List.filter_eq_nil_iff]
      intro request member
      simp [only.2 request member]
  | false =>
      rw [directResponse, only] at shows
      have isOk : response.status = HttpResponse.statusOk := shows.1
      refine Or.inr ⟨?_, shows.2⟩
      rw [isOk]
      decide

theorem sendMany_direct {schedule : List Nat} {requests : List RpcRequest}
    {intercept : Nat → RpcRequest → Future InternalCall Outcome} {outcome : Nat → Option (RpcResponse Json)}
    {run : Future Effect HttpResponse} (reaches : client.Reaches path uri authorization)
    (serves : client.AnswersDirectly direct uri authorization)
    (settles : ∀ key ∈ placed requests, (intercept key.1 key.2).value = some (.ok (outcome key.1)))
    (complete : client.sendMany schedule path requests intercept = some run) :
    run.value = some (batchAnswer requests
      ((repliesInOrder requests outcome (replyAt direct requests)).map Prod.snd)) := by
  rcases sendMany_run complete with ⟨completed, _, settled, isValue, _⟩ | ⟨_, _, _, key, member, isNone⟩
  · have perm := settled.perm (fun place => .ok (outcome place)) settles
    have collected := tryCollect_intercepted completed fun entry member => by
      obtain ⟨key, _, rfl⟩ := List.mem_map.mp (perm.mem_iff.mp member)
      exact ⟨_, rfl⟩
    obtain ⟨response, isResponse, shows⟩ := serves (.batch ((forwardedOf completed).map Prod.snd))
    have answers : (client.request (batchForward uri authorization (forwardedOf completed))).value =
        some (.ok response) := by
      rw [← isResponse, batchForward, SingleOrBatchRpcRequest.encode, List.map_map]
      rfl
    have given : ((forwardedOf completed).map Prod.snd).map (directReply direct) =
        (forwardedOf completed).map fun key => replyAt direct requests key.1 := by
      rw [List.map_map]
      refine List.map_congr_left fun key member => ?_
      exact (replyAt_placed (List.mem_of_mem_filter ((forwardedOf_perm perm).mem_iff.mp member))).symm
    have carries := carries_of_shows shows
    rw [given] at carries
    rw [isValue, answerBatch_value requests reaches collected answers carries, mergeReplies_inOrder _ perm]
  · rw [settles key member] at isNone
    simp at isNone

theorem repliesInOrder_snd (requests : List RpcRequest) (outcome : Nat → Option (RpcResponse Json))
    (replyOf : Nat → Json) :
    (repliesInOrder requests outcome replyOf).map Prod.snd =
      ((placed requests).filter fun key => !key.2.isNotification).map fun key =>
        replyFor (outcome key.1) key.2 (replyOf key.1) := by
  rw [repliesInOrder]
  generalize placed requests = keys
  induction keys with
  | nil => rfl
  | cons key rest ih => cases asks : key.2.isNotification <;> simpa [asks] using ih

theorem directReplies_placed (requests : List RpcRequest) :
    directReplies direct requests =
      ((placed requests).filter fun key => !key.2.isNotification).map fun key => directReply direct key.2 := by
  have requestsOf := placed_requests requests
  rw [directReplies]
  conv_lhs => rw [← requestsOf]
  rw [List.filter_map, List.map_map]
  rfl

theorem sendMany_shows_iff {requests : List RpcRequest} {outcome : Nat → Option (RpcResponse Json)}
    (settled : ∀ key ∈ placed requests, Settled user key.2 (direct key.2.call) (outcome key.1)) :
    (batchAnswer requests ((repliesInOrder requests outcome (replyAt direct requests)).map Prod.snd)).Shows
        (directResponse direct (.batch requests)) ↔
      ∀ key ∈ placed requests, user.forwards key.2 = true ∨ key.2.isNotification = true ∨ user.LooksUp key.2 ∨
        (direct key.2.call).Kept key.2 (.batch requests) := by
  rw [batchAnswer_repliesInOrder, directResponse]
  cases only : onlyNotifications requests with
  | true =>
      refine iff_of_true ⟨rfl, rfl⟩ fun key member => Or.inr (Or.inl ?_)
      simp only [onlyNotifications, Bool.and_eq_true, List.all_eq_true] at only
      exact only.2 key.2 (mem_of_placed member)
  | false =>
      have ownShows : (HttpResponse.ofJson HttpResponse.statusOk (.array
          ((repliesInOrder requests outcome (replyAt direct requests)).map Prod.snd))).Shows
            (HttpResponse.statusOk, .json (.array
              ((repliesInOrder requests outcome (replyAt direct requests)).map Prod.snd))) := ⟨rfl, rfl⟩
      simp only [Bool.false_eq_true, if_false]
      rw [shows_iff ownShows, Prod.mk.injEq, Body.json.injEq, Json.array.injEq, repliesInOrder_snd,
        directReplies_placed, List.map_inj_left]
      simp only [true_and, List.mem_filter, Bool.not_eq_true', and_imp]
      refine forall₂_congr fun key member => ?_
      rw [replyAt_placed member]
      have reply := settled_reply_iff (settled key member)
      unfold directReply NodeAnswer.Kept
      rw [reply]
      cases key.2.isNotification <;> simp

end

section

variable {env : Environment} {secret : Secret} {http : HttpRequest} {user : User}
  {calls : SingleOrBatchRpcRequest}

theorem Handles.sends (handles : Handles env http user calls) :
    ∃ name, Sends (env.state secret) http name user calls := by
  obtain ⟨path, method, ⟨name, authenticates⟩, decoded⟩ := handles
  exact ⟨name, path, method, authenticates, decoded⟩

end

/-- What the client is to get of bitcoind is what the proxy has: the call is left to bitcoind, or asks for a block
that bitcoind still has, or for one that is fetched whole, or for a transaction in one, however the hash and the
number are spelled. -/
inductive Passes (node : Node) (env : Environment)
    (askPeer : Nat → Nat → String → NetworkParams → Digest → Future Empty (Option Block)) (secret : Secret)
    (answer direct : InternalCall → NodeAnswer) (user : User) (key : Placed) : Prop
  | forwarded : user.forwards key.2 = true → Passes node env askPeer secret answer direct user key
  | block {hash : Digest} : AsksRaw user key.2 hash → direct key.2.call = answer (blockCall hash) →
      env.Loads (.block key.1) → env.cached key.1 hash = none → (answer (blockCall hash)).pruned = false →
      Passes node env askPeer secret answer direct user key
  | fetched {hash : Digest} {bytes : List UInt8} : AsksRaw user key.2 hash →
      direct key.2.call = .result (.string (hexEncode bytes)) →
      (((node.serving env askPeer).upstream secret key.1).fetchBlockRaw hash).value = some (.ok (some bytes)) →
      Passes node env askPeer secret answer direct user key
  | transaction {txid hash : Digest} {transaction : Transaction} : AsksTransaction user key.2 txid false hash →
      direct key.2.call = .result (.string (hexEncode transaction.encode)) →
      Supplies ((node.serving env askPeer).upstream secret key.1) hash txid transaction →
      Passes node env askPeer secret answer direct user key
  | verbose {txid hash : Digest} {transaction : Transaction} {standing : Standing} {decoded : List (String × Json)} :
      AsksTransaction user key.2 txid true hash →
      direct key.2.call = .result (standing.verbose (hexEncode transaction.encode) hash decoded) →
      Supplies ((node.serving env askPeer).upstream secret key.1) hash txid transaction →
      Describes node answer transaction hash standing decoded → env.Loads (.decode key.1) →
      env.Loads (.header key.1) → Passes node env askPeer secret answer direct user key

theorem not_forwards {user : User} {upstream : Upstream} {request : RpcRequest} {response : RpcResponse Json}
    (outcome : (user.intercept upstream request).value = some (.ok (some response))) :
    user.forwards request = false := by
  rw [Bool.eq_false_iff]
  intro forwards
  have left := outcome.symm.trans (intercept_forwards_iff.mpr forwards)
  simp at left

theorem AsksRaw.not_looksUp {user : User} {request : RpcRequest} {hash : Digest} (asks : AsksRaw user request hash) :
    ¬user.LooksUp request := by
  rintro ⟨_, _, _, other⟩
  have same := asks.method.symm.trans other.method
  exact absurd same (by decide)

section

variable {node : Node} {answer direct : InternalCall → NodeAnswer} {env : Environment}
  {askPeer : Nat → Nat → String → NetworkParams → Digest → Future Empty (Option Block)} {secret : Secret}
  {user : User} {key : Placed}

theorem settled_of_passes (answers : node.Answers answer)
    (notPruned : (env.fromNull "getblock").alternate ≠ pruneErrorMessage)
    (passes : Passes node env askPeer secret answer direct user key) :
    ∃ outcome, (user.intercept ((node.serving env askPeer).upstream secret key.1) key.2).value =
        some (.ok outcome) ∧ Settled user key.2 (direct key.2.call) outcome := by
  cases passes with
  | forwarded forwards => exact ⟨none, intercept_forwards_iff.mpr forwards, .forwarded forwards⟩
  | @block hash asks same loads missing unpruned =>
      obtain ⟨authorization, loaded⟩ := loads
      obtain ⟨fetched, fetch, settles⟩ :=
        @fetchBlockRaw_answered node answer answers env askPeer secret key.1 hash authorization loaded missing
          notPruned unpruned
      have outcome : (user.intercept ((node.serving env askPeer).upstream secret key.1) key.2).value =
          some (.ok (some (relayed key.2 fetched))) := intercept_raw asks settles
      exact ⟨_, outcome, .fetched (not_forwards outcome) asks.not_looksUp (same ▸ fetch)⟩
  | fetched asks same settles =>
      have outcome := intercept_raw asks settles
      exact ⟨_, outcome, .fetched (not_forwards outcome) asks.not_looksUp (same ▸ .served (hexEncode_read _))⟩
  | transaction asks same supplies =>
      have outcome := intercept_transaction asks supplies
      exact ⟨_, outcome, .lookedUp (not_forwards outcome) ⟨_, _, _, asks⟩ same⟩
  | verbose asks same supplies describes loadsDecode loadsHeader =>
      have outcome := intercept_described answers asks supplies describes loadsDecode loadsHeader
      exact ⟨_, outcome, .lookedUp (not_forwards outcome) ⟨_, _, _, asks⟩ same⟩

end

/-- With the proxy between them a client sees what bitcoind would have shown it, but for a result that is not
lower-case hex and, alone, a failure whose status the proxy does not give. -/
theorem transparent_iff (node : Node) (answer direct : InternalCall → NodeAnswer) (answers : node.Answers answer)
    (env : Environment) (askPeer : Nat → Nat → String → NetworkParams → Digest → Future Empty (Option Block))
    (secret : Secret) (schedule : List Nat) (http : HttpRequest) (user : User) (calls : SingleOrBatchRpcRequest)
    (uri : String) (authorization : HeaderValue)
    (handles : Handles (node.serving env askPeer) http user calls)
    (reaches : ((node.serving env askPeer).state secret).rpcClient.Reaches (State.walletPath user http.path) uri
      authorization)
    (serves : ((node.serving env askPeer).state secret).rpcClient.AnswersDirectly direct uri authorization)
    (notPruned : (env.fromNull "getblock").alternate ≠ pruneErrorMessage)
    (passes : ∀ key ∈ elements calls, Passes node env askPeer secret answer direct user key)
    (run : Future Effect (Except AnyhowError HttpResponse))
    (complete : ((node.serving env askPeer).state secret).proxyRequest schedule http = some run) :
    ∃ response, run.value = some (.ok response) ∧
      (response.Shows (directResponse direct calls) ↔ ∀ key ∈ elements calls,
        user.forwards key.2 = true ∨ key.2.isNotification = true ∨ user.LooksUp key.2 ∨
          (direct key.2.call).Kept key.2 calls) := by
  have settles : ∀ key ∈ elements calls, ∃ outcome,
      (user.intercept ((node.serving env askPeer).upstream secret key.1) key.2).value = some (.ok outcome) ∧
        Settled user key.2 (direct key.2.call) outcome := fun key member =>
    settled_of_passes answers notPruned (passes key member)
  obtain ⟨name, sent⟩ := @Handles.sends _ secret _ _ _ handles
  rw [sent.proxyRequest_eq] at complete
  obtain ⟨answered, isSent, rfl⟩ := Option.map_eq_some_iff.mp complete
  obtain ⟨body, isBody, _⟩ := handles.calls
  have isValue : (http.body.silent.bind fun _ => answered).value = answered.value := by
    rw [value_bind, value_silent, isBody, Option.bind_some]
  rw [isValue]
  cases calls with
  | single request =>
      obtain ⟨outcome, isOutcome, settled⟩ := settles (0, request) (List.mem_singleton_self _)
      obtain ⟨response, isResponse, shows⟩ := sendSingle_shows_iff reaches serves isOutcome settled
      obtain rfl := Option.some.inj isSent
      refine ⟨response, isResponse, shows.trans ?_⟩
      simp [elements]
  | batch requests =>
      obtain ⟨outcome, settled⟩ := exists_by_place settles
      obtain ⟨many, isMany, rfl⟩ := Option.map_eq_some_iff.mp isSent
      have isRun := sendMany_direct reaches serves (fun key member => (settled key member).1) isMany
      rw [value_map, isRun]
      exact ⟨_, rfl, sendMany_shows_iff fun key member => (settled key member).2⟩

/-! A node that has every block, with one byte in it. -/

def oneByteNode : Node :=
  { post := fun _ _ => Future.pure (.ok ("200 OK", [])),
    parseReply := fun _ => some ((NodeAnswer.result (.string "ff")).reply false .null),
    parseError := fun _ => "expected value at line 1 column 1",
    utf8Error := fun _ => "invalid utf-8 sequence of 1 bytes from index 0",
    floatBits := fun _ => 0 }

theorem oneByteNode_answers : oneByteNode.Answers fun _ => .result (.string "ff") :=
  fun _ _ => ⟨"200 OK", [], rfl, rfl⟩

theorem prunedCall_asksRaw : AsksRaw explorer prunedCall Digest.zeros :=
  ⟨rfl, by decide, rfl, _, _, rfl, by decide +kernel, rfl, rfl⟩

def oneByteReply (item : Json) : Json :=
  (NodeAnswer.result (.string "ff")).reply (item.member "jsonrpc" == some (.string "2.0"))
    ((item.member "id").getD .null)

def oneByteClient : RpcClient :=
  nodeAnswering fun body =>
    match body with
    | .array items =>
        let asking := items.filter fun item => !asksNothing item
        if !items.isEmpty && asking.isEmpty then HttpResponse.ofEmpty HttpResponse.noContent
        else HttpResponse.ofJson HttpResponse.statusOk (.array (asking.map oneByteReply))
    | item =>
        if asksNothing item then HttpResponse.ofEmpty HttpResponse.noContent
        else HttpResponse.ofJson HttpResponse.statusOk (oneByteReply item)

theorem oneByteReply_encode (request : RpcRequest) :
    oneByteReply request.encode = directReply (fun _ => .result (.string "ff")) request := by
  simp [oneByteReply, directReply, NodeAnswer.replyTo, encode_member_jsonrpc, encode_member_id, RpcRequest.isV2,
    Bool.beq_eq_decide_eq]

theorem oneByteClient_serves (uri : String) (authorization : HeaderValue) :
    oneByteClient.AnswersDirectly (fun _ => .result (.string "ff")) uri authorization := by
  rintro (request | requests)
  · refine ⟨_, rfl, ?_⟩
    have isBody : request.encode = .object _ := rfl
    simp only [SingleOrBatchRpcRequest.encode, isBody]
    rw [← isBody, asksNothing_encode, oneByteReply_encode]
    cases asks : request.isNotification <;>
      simp [HttpResponse.Shows, directResponse, NodeAnswer.response, NodeAnswer.status, asks, HttpResponse.ofEmpty,
        HttpResponse.ofJson, directReply]
  · refine ⟨_, rfl, ?_⟩
    have asking : (requests.map RpcRequest.encode).filter (fun item => !asksNothing item) =
        (requests.filter fun request => !request.isNotification).map RpcRequest.encode := by
      rw [List.filter_map]
      exact congrArg _ (List.filter_congr fun request _ => by simp [asksNothing_encode])
    have replies : ((requests.filter fun request => !request.isNotification).map RpcRequest.encode).map
        oneByteReply = directReplies (fun _ => .result (.string "ff")) requests := by
      rw [List.map_map]
      exact List.map_congr_left fun request _ => oneByteReply_encode request
    have only : (!(requests.map RpcRequest.encode).isEmpty &&
        ((requests.filter fun request => !request.isNotification).map RpcRequest.encode).isEmpty) =
          onlyNotifications requests := by
      rw [onlyNotifications, Bool.eq_iff_iff]
      simp [List.filter_eq_nil_iff]
    simp only [SingleOrBatchRpcRequest.encode, asking, replies, only]
    cases isOnly : onlyNotifications requests <;>
      simp [HttpResponse.Shows, directResponse, isOnly, HttpResponse.ofEmpty, HttpResponse.ofJson]

def batchText : JsonText :=
  let plain (text : String) : Literal := text.toList.map fun char => { escaped := false, char }
  .array [prunedText, .object [(plain "id", .string (plain "count")), (plain "method", .string (plain "getblockcount")),
    (plain "params", .array [])]]

def batchEnvironment : Environment :=
  { prunedEnvironment [] with
    base := { prunedState with rpcClient := oneByteClient, parseText := fun _ => some batchText } }

theorem batchEnvironment_handles : Handles batchEnvironment paymentHttp explorer (.batch [prunedCall, blockCount]) := by
  have user : batchEnvironment.base.users.get batchEnvironment.base.credentials
      (utf8Bytes "Basic cGF5OnNlY3JldA==") = some (some ("pay", explorer)) := by decide +kernel
  have decoded : batchEnvironment.base.decodeRequest paymentBody = .ok (.batch [prunedCall, blockCount]) := by
    decide +kernel
  exact ⟨by decide, rfl, ⟨"pay", _, rfl, user⟩, _, rfl, decoded⟩

theorem transparent_batch :
    ∃ run response, ((oneByteNode.serving batchEnvironment fun _ _ _ _ _ => Future.pure none).state
        (secretAt "a")).proxyRequest [1, 0] paymentHttp = some run ∧ run.value = some (.ok response) ∧
      response.Shows (directResponse (fun _ => .result (.string "ff")) (.batch [prunedCall, blockCount])) := by
  have handles := batchEnvironment_handles
  have passes : ∀ key ∈ elements (.batch [prunedCall, blockCount]), Passes oneByteNode batchEnvironment
      (fun _ _ _ _ _ => Future.pure none) (secretAt "a") (fun _ => .result (.string "ff"))
      (fun _ => .result (.string "ff")) explorer key := by
    intro key member
    have cases : key = (0, prunedCall) ∨ key = (1, blockCount) := by simpa [elements, placed] using member
    rcases cases with rfl | rfl
    · exact .block prunedCall_asksRaw rfl ⟨[], rfl⟩ rfl rfl
    · exact .forwarded (by decide)
  have complete : ((oneByteNode.serving batchEnvironment fun _ _ _ _ _ => Future.pure none).state
      (secretAt "a")).proxyRequest [1, 0] paymentHttp = some _ := rfl
  obtain ⟨response, isValue, shows⟩ := transparent_iff oneByteNode _ (fun _ => .result (.string "ff"))
    oneByteNode_answers batchEnvironment (fun _ _ _ _ _ => Future.pure none) (secretAt "a") [1, 0] paymentHttp explorer
    (.batch [prunedCall, blockCount]) "/" [] ⟨handles.path, handles.method, handles.user, handles.calls⟩
    ⟨⟨"/", rfl, rfl⟩, rfl⟩ (oneByteClient_serves "/" []) (by decide) passes _ complete
  refine ⟨_, response, complete, isValue, shows.mpr fun key _ => Or.inr (Or.inr (Or.inr ?_))⟩
  exact ⟨[0xff], by decide +kernel⟩

end BtcRpcProxy
