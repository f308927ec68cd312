import BtcRpcProxy.BatchRuns

/-!
A batch on a bitcoind that answers every element but the notifications: whatever mixture
is forwarded and in whatever order the intercepts end, the client gets one reply for each
request that asks for one, in the order of its requests.
-/

namespace BtcRpcProxy

open Polled

def HttpResponse.Carries (response : HttpResponse) (replies : List Json) : Prop :=
  (response.status = noContent ∧ replies = []) ∨
    (response.status ≠ noContent ∧ response.body.value = some (.ok (.json (.array replies))))

theorem readReplies_carries {client : RpcClient} {response : HttpResponse} {replies : List Json}
    (carries : response.Carries replies) (forwarded : List Placed) :
    (client.readReplies forwarded (.ok response)).value = some (.ok (pairReplies forwarded replies)) := by
  rcases carries with ⟨noContent, none⟩ | ⟨hasContent, body⟩
  · simp [RpcClient.readReplies, noContent, none, pairReplies]
  · simp [RpcClient.readReplies, hasContent, body]

section

variable {client : RpcClient} {path uri : String} {authorization : HeaderValue}
variable {requests : List RpcRequest} {completed : Completed} {own : List (Nat × Json)}

theorem answerBatch_value (requests : List RpcRequest)
    (reaches : client.Reaches path uri authorization)
    (collected : tryCollect (interceptedOf completed) = .ok own) {response : HttpResponse}
    {replies : List Json} (answers : (client.request
      (batchForward uri authorization (forwardedOf completed))).value = some (.ok response))
    (carries : response.Carries replies) :
    (client.answerBatch path requests completed).value =
      some (batchAnswer requests (mergeReplies (pairReplies (forwardedOf completed) replies) own)) := by
  simp only [RpcClient.answerBatch, Future.value_map, collected, Future.value_tryJoin_ok,
    sendBatch_value reaches, answers, Option.bind_some, readReplies_carries carries, Option.map_some,
    Except.map, finishBatch]

theorem answerBatch_rejected (requests : List RpcRequest) (reaches : client.Reaches path uri authorization)
    {response : HttpResponse} {replies : List Json} (answers : (client.request
      (batchForward uri authorization (forwardedOf completed))).value = some (.ok response))
    (carries : response.Carries replies) {entry : Placed × Outcome} {error : RpcError}
    (member : entry ∈ completed) (failed : entry.2 = .error error) :
    ∃ joined, (client.answerBatch path requests completed).value =
      some ((RpcResponse.ofError joined).intoResponse) := by
  have sent := sendBatch_value reaches (forwardedOf completed)
  rw [answers, Option.bind_some, readReplies_carries carries] at sent
  exact answerBatch_error requests sent member failed

theorem answerBatch_forwards (reaches : client.Reaches path uri authorization)
    (collected : tryCollect (interceptedOf completed) = .ok own) :
    forwards (client.answerBatch path requests completed).log =
      [batchForward uri authorization (forwardedOf completed)] := by
  simp only [RpcClient.answerBatch, Future.log_map, collected, Future.log_tryJoin_ok,
    sendBatch_forwards reaches]

end

/-- The replies of a bitcoind that leaves notifications out; `given` has one for each element. -/
def repliesTo (posted : List RpcRequest) (given : List Json) : List Json :=
  ((posted.zip given).filter fun entry => !entry.1.isNotification).map Prod.snd

/-- bitcoind answers each batch in order and leaves out exactly the notifications. -/
structure RpcClient.AnswersInOrder (client : RpcClient) (given : List RpcRequest → List Json) :
    Prop where
  oneEach : ∀ posted, (given posted).length = posted.length
  answers : ∀ uri authorization forwarded, ∃ response,
    (client.request (batchForward uri authorization forwarded)).value = some (.ok response) ∧
      response.Carries (repliesTo (forwarded.map Prod.snd) (given (forwarded.map Prod.snd)))

/-- What a request gets: the outcome of its own intercept, or else bitcoind's reply to it. -/
def replyFor (outcome : Option (RpcResponse Json)) (request : RpcRequest) (reply : Json) : Json :=
  match outcome with
  | some response => response.intoReply request
  | none => reply

def repliesInOrder (requests : List RpcRequest) (outcome : Nat → Option (RpcResponse Json))
    (replyOf : Nat → Json) : List (Nat × Json) :=
  (placed requests).filterMap fun key =>
    if key.2.isNotification then none
    else some (key.1, replyFor (outcome key.1) key.2 (replyOf key.1))

theorem repliesInOrder_ordered (requests : List RpcRequest)
    (outcome : Nat → Option (RpcResponse Json)) (replyOf : Nat → Json) :
    (repliesInOrder requests outcome replyOf).Pairwise fun first second => first.1 < second.1 := by
  refine List.Pairwise.filterMap _ ?_ (placed_ordered requests)
  intro first second before reply isReply other isOther
  split at isReply
  · simp at isReply
  · split at isOther
    · simp at isOther
    · simp only [Option.some.injEq] at isReply isOther
      rw [← isReply, ← isOther]
      exact before

theorem pairReplies_repliesTo (replyOf : Nat → Json) (forwarded : List Placed) :
    pairReplies forwarded
        (repliesTo (forwarded.map Prod.snd) (forwarded.map fun key => replyOf key.1)) =
      forwarded.filterMap fun key =>
        if key.2.isNotification then none else some (key.1, replyOf key.1) := by
  induction forwarded with
  | nil => rfl
  | cons key rest ih =>
      simp only [pairReplies, answered, repliesTo] at ih
      cases asks : key.2.isNotification <;>
        simpa [pairReplies, answered, repliesTo, List.filterMap_cons, asks] using ih

theorem mergeReplies_inOrder {requests : List RpcRequest} {completed : Completed}
    {outcome : Nat → Option (RpcResponse Json)} (replyOf : Nat → Json)
    (settled : completed.Perm ((placed requests).map fun key => (key, .ok (outcome key.1)))) :
    mergeReplies (pairReplies (forwardedOf completed) (repliesTo ((forwardedOf completed).map Prod.snd)
        ((forwardedOf completed).map fun key => replyOf key.1))) (ownReplies completed) =
      (repliesInOrder requests outcome replyOf).map Prod.snd := by
  let select : Placed × Outcome → Option (Nat × Json) := fun entry =>
    if entry.1.2.isNotification then none
    else some (entry.1.1, replyFor (outcome entry.1.1) entry.1.2 (replyOf entry.1.1))
  have target : (completed.filterMap select).Perm (repliesInOrder requests outcome replyOf) := by
    have perm := settled.filterMap select
    rwa [List.filterMap_map] at perm
  rw [mergeReplies, pairReplies_repliesTo, forwardedOf_eq_filterMap, List.filterMap_filterMap,
    ownReplies_eq_filterMap]
  congr 1
  refine Keyed.mergeBy_sortByKey_eq (repliesInOrder_ordered requests outcome replyOf) ?_
  refine (Keyed.filterMap_append_perm select completed ?_).trans target
  intro entry member
  obtain ⟨key, isPlaced, rfl⟩ := List.mem_map.mp (settled.mem_iff.mp member)
  cases own : outcome key.1 with
  | none => exact Or.inl ⟨by simp [select, own, replyFor], rfl⟩
  | some response => exact Or.inr ⟨rfl, by simp [select, own, replyFor]⟩

/-! The proxy's own replies. -/

def Json.member (key : String) : Json → Option Json
  | .object members => members.lookup key
  | _ => none

@[simp] theorem lookup_mapInsert_self (key : String) (value : Json) (members : List (String × Json)) :
    (mapInsert key value members).lookup key = some value := by
  induction members with
  | nil => simp [mapInsert]
  | cons member rest ih =>
      simp only [mapInsert]
      split
      · simp
      · split
        · simp
        · rename_i different _
          rw [List.lookup_cons, beq_false_of_ne different]
          exact ih

theorem lookup_mapInsert_of_ne {key other : String} (different : other ≠ key) (value : Json)
    (members : List (String × Json)) :
    (mapInsert key value members).lookup other = members.lookup other := by
  induction members with
  | nil => simp [mapInsert, List.lookup_cons, beq_false_of_ne different]
  | cons member rest ih =>
      simp only [mapInsert]
      split
      · rename_i same
        rw [List.lookup_cons, List.lookup_cons, ← same, beq_false_of_ne different]
      · split
        · rw [List.lookup_cons, beq_false_of_ne different]
        · rw [List.lookup_cons, List.lookup_cons, ih]

structure CarriesOutcome (response : RpcResponse Json) (request : RpcRequest) (reply : Json) : Prop where
  id : reply.member "id" = some (request.id.getD .null)
  error : reply.member "error" =
    if request.isV2 then response.error.map RpcError.encode
    else some (RpcError.encodeOption response.error)
  result : reply.member "result" =
    if request.isV2 && response.error.isSome then none else some (response.result.getD .null)

theorem intoReply_carriesOutcome (response : RpcResponse Json) (request : RpcRequest) :
    CarriesOutcome response request (response.intoReply request) := by
  cases version : request.isV2 <;> cases failed : response.error <;>
    constructor <;>
      simp [RpcResponse.intoReply, version, failed, mapOfEntries, Json.member, lookup_mapInsert_of_ne]

def onlyNotifications (requests : List RpcRequest) : Bool :=
  !requests.isEmpty && requests.all RpcRequest.isNotification

theorem repliesInOrder_eq_nil {requests : List RpcRequest} {outcome : Nat → Option (RpcResponse Json)}
    {replyOf : Nat → Json} :
    repliesInOrder requests outcome replyOf = [] ↔ ∀ request ∈ requests, request.isNotification := by
  rw [repliesInOrder, List.filterMap_eq_nil_iff]
  constructor
  · intro none request member
    obtain ⟨key, isPlaced, rfl⟩ := exists_placed member
    by_contra asks
    simpa [asks] using none key isPlaced
  · intro all key isPlaced
    simp [all key.2 (mem_of_placed isPlaced)]

theorem batchAnswer_repliesInOrder (requests : List RpcRequest)
    (outcome : Nat → Option (RpcResponse Json)) (replyOf : Nat → Json) :
    batchAnswer requests ((repliesInOrder requests outcome replyOf).map Prod.snd) =
      if onlyNotifications requests then HttpResponse.ofEmpty HttpResponse.noContent
      else HttpResponse.ofJson HttpResponse.statusOk
        (.array ((repliesInOrder requests outcome replyOf).map Prod.snd)) := by
  have same : ((repliesInOrder requests outcome replyOf).map Prod.snd = [] ∧ requests ≠ []) ↔
      onlyNotifications requests = true := by
    rw [List.map_eq_nil_iff, repliesInOrder_eq_nil]
    cases requests <;> simp [onlyNotifications]
  simp only [batchAnswer, same]

theorem forwardedOf_perm {requests : List RpcRequest} {completed : Completed}
    {outcome : Nat → Option (RpcResponse Json)}
    (settled : completed.Perm ((placed requests).map fun key => (key, .ok (outcome key.1)))) :
    (forwardedOf completed).Perm ((placed requests).filter fun key => (outcome key.1).isNone) := by
  rw [forwardedOf_eq_filterMap]
  refine (settled.filterMap _).trans (List.Perm.of_eq ?_)
  rw [List.filterMap_map, ← List.filterMap_eq_filter]
  refine List.filterMap_congr fun key _ => ?_
  cases own : outcome key.1 <;> simp [own, Option.guard]

theorem sendMany_in_order {client : RpcClient} {path uri : String} {authorization : HeaderValue}
    {schedule : List Nat} {requests : List RpcRequest}
    {intercept : Nat → RpcRequest → Future InternalCall Outcome}
    (outcome : Nat → Option (RpcResponse Json)) {given : List RpcRequest → List Json}
    {run : Future Effect HttpResponse}
    (reaches : client.Reaches path uri authorization) (inOrder : client.AnswersInOrder given)
    (settles : ∀ key ∈ placed requests, (intercept key.1 key.2).value = some (.ok (outcome key.1)))
    (complete : client.sendMany schedule path requests intercept = some run) :
    ∃ (posted : List Placed) (replyOf : Nat → Json),
      posted.Perm ((placed requests).filter fun key => (outcome key.1).isNone) ∧
      forwards run.log = [batchForward uri authorization posted] ∧
      (posted.map fun key => replyOf key.1) = given (posted.map Prod.snd) ∧
      run.value =
        some (batchAnswer requests ((repliesInOrder requests outcome replyOf).map Prod.snd)) := by
  rcases sendMany_run complete with ⟨completed, _, settled, isValue, isLog⟩ | ⟨_, _, _, key, member, isNone⟩
  · have perm := settled.perm (fun place => .ok (outcome place)) settles
    have collected := tryCollect_intercepted completed fun entry member => by
      obtain ⟨key, _, rfl⟩ := List.mem_map.mp (perm.mem_iff.mp member)
      exact ⟨_, rfl⟩
    have postedPerm := forwardedOf_perm perm
    have distinct : ((forwardedOf completed).map Prod.fst).Nodup := by
      refine (postedPerm.map Prod.fst).nodup_iff.mpr ?_
      exact ((List.filter_sublist).map Prod.fst).nodup (placed_keys_nodup requests)
    obtain ⟨replyOf, isGiven⟩ := Keyed.exists_map_eq distinct
      (given ((forwardedOf completed).map Prod.snd)) (by simp [inOrder.oneEach])
    rw [List.map_map] at isGiven
    obtain ⟨response, answers, carries⟩ := inOrder.answers uri authorization (forwardedOf completed)
    have isAnswer := answerBatch_value requests reaches collected answers carries
    rw [← isGiven] at isAnswer
    refine ⟨forwardedOf completed, replyOf, postedPerm, ?_, isGiven, ?_⟩
    · rw [isLog]
      exact answerBatch_forwards reaches collected
    · rw [isValue, isAnswer, ← mergeReplies_inOrder replyOf perm]
      rfl
  · rw [settles key member] at isNone
    simp at isNone

/-- The batch is posted once, and answered with bitcoind's reply or the proxy's own for
each request that is not a notification, in the order of the requests. -/
theorem send_batch_in_order {client : RpcClient} {path uri : String} {authorization : HeaderValue}
    {schedule : List Nat} {requests : List RpcRequest}
    {intercept : Nat → RpcRequest → Future InternalCall Outcome}
    {outcome : Nat → Option (RpcResponse Json)} {given : List RpcRequest → List Json}
    {run : Future Effect (Except AnyhowError HttpResponse)}
    (reaches : client.Reaches path uri authorization) (inOrder : client.AnswersInOrder given)
    (settles : ∀ key ∈ placed requests, (intercept key.1 key.2).value = some (.ok (outcome key.1)))
    (complete : client.send schedule path (.batch requests) intercept = some run) :
    ∃ (posted : List Placed) (replyOf : Nat → Json),
      posted.Perm ((placed requests).filter fun key => (outcome key.1).isNone) ∧
      forwards run.log = [batchForward uri authorization posted] ∧
      (posted.map fun key => replyOf key.1) = given (posted.map Prod.snd) ∧
      run.value = some (.ok (
        if onlyNotifications requests then HttpResponse.ofEmpty HttpResponse.noContent
        else HttpResponse.ofJson HttpResponse.statusOk
          (.array ((repliesInOrder requests outcome replyOf).map Prod.snd)))) ∧
      ∀ key ∈ placed requests, ∀ response, outcome key.1 = some response →
        CarriesOutcome response key.2 (replyFor (outcome key.1) key.2 (replyOf key.1)) := by
  obtain ⟨many, isRun, rfl⟩ := Option.map_eq_some_iff.mp complete
  obtain ⟨posted, replyOf, isPerm, isPosted, isGiven, isValue⟩ :=
    sendMany_in_order outcome reaches inOrder settles isRun
  refine ⟨posted, replyOf, isPerm, ?_, isGiven, ?_, ?_⟩
  · rw [Future.log_map, isPosted]
  · rw [Future.value_map, isValue, batchAnswer_repliesInOrder]
    rfl
  · intro key _ response own
    rw [own]
    exact intoReply_carriesOutcome response key.2

def echo (request : Json) : Json :=
  .object [("error", .null), ("id", (request.member "id").getD .null),
    ("result", (request.member "method").getD .null)]

def asksNothing (request : Json) : Bool :=
  (request.member "id").isNone && request.member "jsonrpc" == some (.string "2.0")

def listResponse (replies : List Json) : HttpResponse :=
  if replies.isEmpty then HttpResponse.ofEmpty HttpResponse.noContent
  else HttpResponse.ofJson HttpResponse.statusOk (.array replies)

def nodeAnswering (answer : Json → HttpResponse) : RpcClient :=
  { tryLoad := Future.pure (.ok []),
    parsePath := Except.ok,
    fromParts := Except.ok,
    request := fun posted => Future.pure (.ok (answer posted.body)),
    parseError := fun _ => "invalid type" }

def echoNode : RpcClient :=
  nodeAnswering fun body =>
    match body with
    | .array items => listResponse ((items.filter fun item => !asksNothing item).map echo)
    | item => HttpResponse.ofJson HttpResponse.statusOk (echo item)

theorem encode_member_id (request : RpcRequest) : request.encode.member "id" = request.id := by
  cases version : request.jsonrpc <;> cases id : request.id <;>
    simp [RpcRequest.encode, Json.member, version, id, List.lookup_cons]

theorem encode_member_jsonrpc (request : RpcRequest) :
    request.encode.member "jsonrpc" = request.jsonrpc := by
  cases version : request.jsonrpc <;> cases id : request.id <;>
    simp [RpcRequest.encode, Json.member, version, id, List.lookup_cons]

theorem asksNothing_encode (request : RpcRequest) :
    asksNothing request.encode = request.isNotification := by
  simp [asksNothing, encode_member_id, encode_member_jsonrpc, RpcRequest.isNotification,
    RpcRequest.isV2, Bool.beq_eq_decide_eq]

theorem listResponse_carries (replies : List Json) : (listResponse replies).Carries replies := by
  cases replies with
  | nil => exact Or.inl ⟨rfl, rfl⟩
  | cons reply rest => exact Or.inr ⟨show HttpResponse.statusOk ≠ HttpResponse.noContent by decide, rfl⟩

theorem echoNode_inOrder :
    echoNode.AnswersInOrder fun posted => posted.map fun request => echo request.encode := by
  constructor
  · simp
  · intro uri authorization forwarded
    refine ⟨_, rfl, ?_⟩
    have same : repliesTo (forwarded.map Prod.snd)
        ((forwarded.map Prod.snd).map fun request => echo request.encode) =
        (((forwarded.map fun entry => entry.2.encode).filter fun item => !asksNothing item).map echo) := by
      induction forwarded with
      | nil => rfl
      | cons key rest ih =>
          simp only [repliesTo] at ih
          cases asks : key.2.isNotification <;>
            simpa [repliesTo, asks, asksNothing_encode] using ih
    rw [same]
    exact listResponse_carries _

def mixedBatch : List RpcRequest :=
  [{ jsonrpc := none, id := some (.string "a"), method := "getblockcount", params := .array [] },
    { jsonrpc := some (.string "2.0"), id := none, method := "ping", params := .array [] },
    { jsonrpc := some (.string "2.0"), id := some .null, method := "getblock", params := .array [] },
    { jsonrpc := some (.string "2.0"), id := none, method := "getblock", params := .array [] }]

def blockResponse : RpcResponse Json := { id := none, error := none, result := some (.string "00") }

def mixedOutcome (place : Nat) : Option (RpcResponse Json) :=
  if place < 2 then none else some blockResponse

def mixedIntercept (place : Nat) (_ : RpcRequest) : Future InternalCall Outcome :=
  if place = 2 then .pending [] (Future.pure (.ok (mixedOutcome place)))
  else Future.pure (.ok (mixedOutcome place))

theorem send_batch_in_order_mixed :
    ∃ run posted replyOf,
      echoNode.send [2, 1, 0, 1, 0] "/" (.batch mixedBatch) mixedIntercept = some run ∧
      forwards run.log = [batchForward "/" [] posted] ∧
      run.value = some (.ok (HttpResponse.ofJson HttpResponse.statusOk
        (.array ((repliesInOrder mixedBatch mixedOutcome replyOf).map Prod.snd)))) := by
  have settles : ∀ key ∈ placed mixedBatch,
      (mixedIntercept key.1 key.2).value = some (.ok (mixedOutcome key.1)) := by
    intro key _
    unfold mixedIntercept
    split <;> rfl
  have reaches : echoNode.Reaches "/" "/" [] := ⟨⟨"/", rfl, rfl⟩, rfl⟩
  have complete : echoNode.send [2, 1, 0, 1, 0] "/" (.batch mixedBatch) mixedIntercept = some _ := rfl
  obtain ⟨posted, replyOf, _, isPosted, _, isValue, _⟩ :=
    send_batch_in_order reaches echoNode_inOrder settles complete
  exact ⟨_, posted, replyOf, rfl, isPosted, isValue⟩

end BtcRpcProxy
