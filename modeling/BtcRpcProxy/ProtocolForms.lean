import BtcRpcProxy.PostedOnce
import BtcRpcProxy.StatuslessErrors
import BtcRpcProxy.Transparency

/-!
The form of what a client is sent. As long as bitcoind answers in JSON-RPC so does the proxy, whatever it
answers itself, whatever fails and in whichever order.
-/

namespace BtcRpcProxy

open CredentialFailures Polled Polled.Future Blocks

def Answers (request : RpcRequest) (reply : Json) : Prop :=
  ∃ answer : NodeAnswer, reply = answer.replyTo request

structure Fails (reply : Json) : Prop where
  id : reply.member "id" = some .null
  error : ∃ code message, reply.member "error" = some (NodeAnswer.encodeError code message)
  result : reply.member "result" = some .null

/-- What may stand in the body of a response to these calls: a reply to each that is no notification, in their
order, or one failure of nobody's call for a whole batch. A notification on its own that is refused is told so. -/
inductive Conforms (refused : RpcRequest → Prop) : SingleOrBatchRpcRequest → Nat → Body → Prop
  | single {request : RpcRequest} {status : Nat} {reply : Json} : request.isNotification = false →
      Answers request reply → Conforms refused (.single request) status (.json reply)
  | silent {request : RpcRequest} : request.isNotification = true →
      Conforms refused (.single request) HttpResponse.noContent .empty
  | refused {request : RpcRequest} {reply : Json} : request.isNotification = true → refused request →
      reply = (NodeAnswer.error methodNotAllowedErrorCode methodNotAllowedErrorMessage).replyTo request →
      Conforms refused (.single request) HttpResponse.forbidden (.json reply)
  | batch {requests : List RpcRequest} {replies : List Json} :
      List.Forall₂ Answers (requests.filter fun request => !request.isNotification) replies →
      Conforms refused (.batch requests) HttpResponse.statusOk (.json (.array replies))
  | allSilent {requests : List RpcRequest} : onlyNotifications requests = true →
      Conforms refused (.batch requests) HttpResponse.noContent .empty
  | failed {requests : List RpcRequest} {status : Nat} {reply : Json} : status ≠ HttpResponse.noContent →
      Fails reply → Conforms refused (.batch requests) status (.json reply)

def HttpResponse.Conforms (response : HttpResponse) (refused : RpcRequest → Prop) (calls : SingleOrBatchRpcRequest) :
    Prop :=
  ∀ body, response.body.value = some (.ok body) → BtcRpcProxy.Conforms refused calls response.status body

/-- bitcoind refuses nothing in this way, and its response without content has no body. -/
structure RpcClient.Conforms (client : RpcClient) : Prop where
  forms : ∀ (uri : String) (authorization : HeaderValue) (calls : SingleOrBatchRpcRequest) (response : HttpResponse),
    (client.request { uri, authorization, body := calls.encode }).value = some (.ok response) →
    response.Conforms (fun _ => False) calls
  empty : ∀ (uri : String) (authorization : HeaderValue) (calls : SingleOrBatchRpcRequest) (response : HttpResponse),
    (client.request { uri, authorization, body := calls.encode }).value = some (.ok response) →
    response.status = HttpResponse.noContent → response.body.value = some (.ok .empty)

def OneMember (response : RpcResponse Json) : Prop := response.error = none ∨ response.result = none

def Plain (response : RpcResponse Json) : Prop := response.error.bind RpcError.status = none

def Outcome.Own (refused : Prop) : Outcome → Prop
  | .error error => error.status = none ∨ refused ∧ error = methodNotAllowed
  | .ok none => True
  | .ok (some response) => OneMember response ∧ Plain response

def EndsOwn (refused : Prop) (future : Future InternalCall Outcome) : Prop :=
  ∀ outcome, future.value = some outcome → Outcome.Own refused outcome

def RpcError.Spoken (error : RpcError) : Prop := error.status ≠ some HttpResponse.noContent

theorem spoken_of_plain {error : RpcError} (plain : error.status = none) : error.Spoken := by
  simp [RpcError.Spoken, plain]

section

variable {refused : RpcRequest → Prop} {calls : SingleOrBatchRpcRequest} {status : Nat} {request : RpcRequest}
  {response : RpcResponse Json}

theorem Conforms.of_unrefused {body : Body} (conforms : Conforms (fun _ => False) calls status body) :
    Conforms refused calls status body := by
  cases conforms with
  | single asks answers => exact .single asks answers
  | silent silent => exact .silent silent
  | refused _ never _ => exact never.elim
  | batch answers => exact .batch answers
  | allSilent only => exact .allSilent only
  | failed isStatus fails => exact .failed isStatus fails

theorem answers_intoReply (one : OneMember response) (request : RpcRequest) :
    Answers request (response.intoReply request) := by
  obtain ⟨id, error, result⟩ := response
  cases error with
  | none =>
      refine ⟨.result (result.getD .null), ?_⟩
      rw [← intoReply_answer]
      rfl
  | some error =>
      obtain rfl : result = none := by simpa [OneMember] using one
      refine ⟨.error error.code error.message, ?_⟩
      rw [← intoReply_ofError]
      rfl

theorem ofJson_conforms {document : Json} (conforms : Conforms refused calls status (.json document)) :
    (HttpResponse.ofJson status document).Conforms refused calls := by
  intro body isBody
  obtain rfl := Except.ok.inj (Option.some.inj isBody)
  exact conforms

theorem ofEmpty_conforms (conforms : Conforms refused calls status .empty) :
    (HttpResponse.ofEmpty status).Conforms refused calls := by
  intro body isBody
  obtain rfl := Except.ok.inj (Option.some.inj isBody)
  exact conforms

theorem intoResponseTo_conforms (one : OneMember response) (plain : Plain response) (request : RpcRequest) :
    (response.intoResponseTo request).Conforms refused (.single request) := by
  have answers := answers_intoReply one request
  rw [RpcResponse.intoResponseTo, show response.error.bind RpcError.status = none from plain]
  cases asks : request.isNotification with
  | true => exact ofEmpty_conforms (.silent asks)
  | false =>
      simp only [Bool.false_eq_true, if_false]
      split
      · exact ofJson_conforms (.single asks answers)
      · exact ofJson_conforms (.single asks answers)

theorem methodNotAllowed_conforms (isRefused : refused request) :
    ((RpcResponse.ofError methodNotAllowed).intoResponseTo request).Conforms refused (.single request) := by
  cases asks : request.isNotification with
  | true => exact ofJson_conforms (.refused asks isRefused (intoReply_ofError request methodNotAllowed))
  | false => exact ofJson_conforms (.single asks (answers_intoReply (Or.inr rfl) request))

theorem error_conforms {error : RpcError} (own : Outcome.Own (refused request) (.error error)) :
    ((RpcResponse.ofError error).intoResponseTo request).Conforms refused (.single request) := by
  rcases own with plain | ⟨isRefused, rfl⟩
  · have plainReply : Plain (RpcResponse.ofError error) := plain
    exact intoResponseTo_conforms (Or.inr rfl) plainReply request
  · exact methodNotAllowed_conforms isRefused

theorem spoken_of_own {error : RpcError} {isRefused : Prop} (own : Outcome.Own isRefused (.error error)) :
    error.Spoken := by
  rcases own with plain | ⟨_, rfl⟩
  · exact spoken_of_plain plain
  · simp [RpcError.Spoken, methodNotAllowed, HttpResponse.forbidden, HttpResponse.noContent]

theorem intoResponse_conforms {error : RpcError} (spoken : error.Spoken) (requests : List RpcRequest) :
    ((RpcResponse.ofError error).intoResponse).Conforms refused (.batch requests) := by
  have status : error.status.getD HttpResponse.internalServerError ≠ HttpResponse.noContent := by
    cases isStatus : error.status with
    | none => decide
    | some status => exact fun same => spoken (isStatus.trans (congrArg some same))
  exact ofJson_conforms (.failed status ⟨rfl, ⟨error.code, error.message, rfl⟩, rfl⟩)

end

section

variable {refused : Prop} {upstream : Upstream} {request : RpcRequest}

theorem endsOwn_pure {outcome : Outcome} (own : Outcome.Own refused outcome) :
    EndsOwn refused (Future.pure outcome) := by
  intro other isValue
  obtain rfl := Option.some.inj isValue
  exact own

theorem endsOwn_map {Value : Type} {future : Future InternalCall Value} {next : Value → Outcome}
    (own : ∀ value, future.value = some value → Outcome.Own refused (next value)) :
    EndsOwn refused (future.map next) := by
  intro outcome isValue
  rw [value_map, Option.map_eq_some_iff] at isValue
  obtain ⟨value, ends, rfl⟩ := isValue
  exact own value ends

theorem endsOwn_bind {Value : Type} {future : Future InternalCall Value}
    {next : Value → Future InternalCall Outcome}
    (own : ∀ value, future.value = some value → EndsOwn refused (next value)) :
    EndsOwn refused (future.bind next) := by
  intro outcome isValue
  rw [value_bind, Option.bind_eq_some_iff] at isValue
  obtain ⟨value, ends, isNext⟩ := isValue
  exact own value ends outcome isNext

theorem own_answer (request : RpcRequest) (value : Json) :
    Outcome.Own refused (.ok (some (request.answer value))) :=
  ⟨Or.inl rfl, rfl⟩

theorem own_misc (request : RpcRequest) (message : String) :
    Outcome.Own refused (.ok (some (request.fail (miscError message)))) :=
  ⟨Or.inr rfl, rfl⟩

theorem own_ofError {error : RpcError} (plain : error.status = none) :
    Outcome.Own refused (.ok (some (RpcResponse.ofError error))) :=
  ⟨Or.inr rfl, plain⟩

theorem endsOwn_withBlockHash {params : List Json} {next : Digest → Future InternalCall Outcome}
    (own : ∀ hash, EndsOwn refused (next hash)) : EndsOwn refused (withBlockHash upstream params next) := by
  unfold withBlockHash
  split
  · intro outcome isValue
    simp [Future.value] at isValue
  · split
    · exact endsOwn_pure (Or.inl rfl)
    · exact own _

theorem endsOwn_blockRaw (statusless : upstream.Statusless) (params : List Json) :
    EndsOwn refused (interceptBlockRaw upstream request params) := by
  refine endsOwn_withBlockHash fun hash => endsOwn_map fun fetched isFetched => ?_
  rcases fetched with error | _ | block
  · exact own_ofError (statusless.fetches hash error isFetched)
  · exact own_misc request _
  · exact own_answer request _

theorem endsOwn_block (statusless : upstream.Statusless) (params : List Json) :
    EndsOwn refused (interceptBlock upstream request params) := by
  refine endsOwn_withBlockHash fun hash => endsOwn_map fun joined isJoined => ?_
  rcases joined with error | ⟨header, _ | block⟩
  · exact own_ofError (quiet_tryJoin (statusless.headers hash) (statusless.fetchesBlock hash) error isJoined)
  · exact own_misc request _
  · simp only
    split
    · exact Or.inl rfl
    · exact own_answer request _

theorem endsOwn_rawTransaction (statusless : upstream.Statusless) (params : List Json) :
    EndsOwn refused (interceptRawTransaction upstream request params) := by
  unfold interceptRawTransaction
  split
  · exact endsOwn_pure trivial
  · rename_i txid verbose hash _
    refine endsOwn_bind fun fetched isFetched => ?_
    rcases fetched with error | _ | block
    · exact endsOwn_pure (own_ofError (statusless.fetchesBlock hash error isFetched))
    · exact endsOwn_pure (own_misc request _)
    · simp only
      split
      · exact endsOwn_pure (own_misc request _)
      · split
        · exact endsOwn_pure (own_answer request _)
        · refine endsOwn_map fun joined isJoined => ?_
          rcases joined with error | ⟨decoded, header⟩
          · exact own_ofError (quiet_tryJoin (statusless.decodes _) (statusless.headers hash) error isJoined)
          · simp only
            split
            · exact own_ofError rfl
            · exact own_answer request _

theorem endsOwn_intercept (statusless : upstream.Statusless) (user : User) (request : RpcRequest) :
    EndsOwn (user.allows request.method = false) (user.intercept upstream request) := by
  unfold User.intercept
  split
  · split
    · split
      · split
        · split
          · exact endsOwn_blockRaw statusless _
          · split
            · exact endsOwn_block statusless _
            · exact endsOwn_pure trivial
        · exact endsOwn_pure trivial
      · split
        · exact endsOwn_rawTransaction statusless _
        · exact endsOwn_pure trivial
    · exact endsOwn_pure trivial
  · rename_i notAllowed
    exact endsOwn_pure (Or.inr ⟨Bool.not_eq_true _ ▸ notAllowed, rfl⟩)

end

section

variable {client : RpcClient} {path : String}

theorem forwardSingle_relays {request : RpcRequest} {response : HttpResponse}
    (isValue : (client.forwardSingle path request).value = some (.ok response)) :
    ∃ uri authorization,
      (client.request { uri, authorization, body := request.encode }).value = some (.ok response) := by
  unfold RpcClient.forwardSingle at isValue
  split at isValue
  · simp at isValue
  · rw [value_bind, value_silent, Option.bind_eq_some_iff] at isValue
    obtain ⟨loaded, _, isValue⟩ := isValue
    split at isValue
    · simp at isValue
    · split at isValue
      · simp at isValue
      · rw [post_value] at isValue
        exact ⟨_, _, isValue⟩

theorem sendSingle_conforms (conforms : client.Conforms) {refused : RpcRequest → Prop} {request : RpcRequest}
    {intercepted : Future InternalCall Outcome} (own : EndsOwn (refused request) intercepted)
    {response : HttpResponse}
    (isValue : (client.sendSingle path request intercepted).value = some (.ok response)) :
    response.Conforms refused (.single request) := by
  rw [RpcClient.sendSingle, value_bind, value_mapEffect, Option.bind_eq_some_iff] at isValue
  obtain ⟨outcome, ends, isValue⟩ := isValue
  rcases outcome with error | _ | reply
  · obtain rfl := Except.ok.inj (Option.some.inj isValue)
    exact error_conforms (own _ ends)
  · obtain ⟨uri, authorization, relayed⟩ := forwardSingle_relays isValue
    exact fun body isBody =>
      (conforms.forms uri authorization (.single request) response relayed body isBody).of_unrefused
  · obtain rfl := Except.ok.inj (Option.some.inj isValue)
    obtain ⟨one, plain⟩ := own _ ends
    exact intoResponseTo_conforms one plain request

/-! A batch. -/

def Returned (forwarded : List Placed) : Except RpcError (List (Nat × Json)) → Prop
  | .error error => error.Spoken
  | .ok paired => ∃ replies, paired = pairReplies forwarded replies ∧
      List.Forall₂ Answers ((forwarded.map Prod.snd).filter fun request => !request.isNotification) replies

theorem spoken_ofError (error : AnyhowError) : (RpcError.ofError error).Spoken := spoken_of_plain rfl

theorem onlyNotifications_asking {requests : List RpcRequest} (only : onlyNotifications requests = true) :
    requests.filter (fun request => !request.isNotification) = [] := by
  simp only [onlyNotifications, Bool.and_eq_true, List.all_eq_true] at only
  rw [List.filter_eq_nil_iff]
  intro request member
  simp [only.2 request member]

theorem readReplies_returned {forwarded : List Placed} {response : HttpResponse}
    (conforms : response.Conforms (fun _ => False) (.batch (forwarded.map Prod.snd)))
    (empty : response.status = HttpResponse.noContent → response.body.value = some (.ok .empty))
    {returned : Except RpcError (List (Nat × Json))}
    (isValue : (client.readReplies forwarded (.ok response)).value = some returned) : Returned forwarded returned := by
  simp only [RpcClient.readReplies] at isValue
  split at isValue
  · rename_i noContent
    have form := conforms .empty (empty noContent)
    obtain rfl := Option.some.inj isValue
    refine ⟨[], by simp [pairReplies], ?_⟩
    generalize response.status = status at form
    cases form with
    | allSilent only => exact onlyNotifications_asking only ▸ List.Forall₂.nil
  · rw [value_map, value_silent, Option.map_eq_some_iff] at isValue
    obtain ⟨read, isRead, rfl⟩ := isValue
    cases read with
    | error error => exact spoken_ofError error
    | ok body =>
        have form := conforms body isRead
        split
        · exact spoken_ofError _
        · rename_i replies isBody
          obtain rfl := Except.ok.inj isBody
          refine ⟨replies, rfl, ?_⟩
          generalize response.status = status at form
          cases form with
          | batch answers => exact answers
          | failed _ fails => simpa [Json.member] using fails.id
        · exact spoken_of_plain rfl

theorem sendBatch_returned (conforms : client.Conforms) {forwarded : List Placed}
    {returned : Except RpcError (List (Nat × Json))}
    (isValue : (client.sendBatch path forwarded).value = some returned) : Returned forwarded returned := by
  unfold RpcClient.sendBatch at isValue
  split at isValue
  · obtain rfl := Option.some.inj isValue
    exact spoken_ofError _
  · rw [value_bind, value_silent, Option.bind_eq_some_iff] at isValue
    obtain ⟨loaded, _, isValue⟩ := isValue
    split at isValue
    · obtain rfl := Option.some.inj isValue
      simp [Returned, RpcError.Spoken, authorizationError, HttpResponse.internalServerError, HttpResponse.noContent]
    · split at isValue
      · obtain rfl := Option.some.inj isValue
        exact spoken_ofError _
      · rename_i uri _
        rw [value_bind, post_value, Option.bind_eq_some_iff] at isValue
        obtain ⟨answer, isAnswer, isValue⟩ := isValue
        cases answer with
        | error error =>
            obtain rfl := Option.some.inj isValue
            exact spoken_ofError error
        | ok response =>
            have posted : (SingleOrBatchRpcRequest.batch (forwarded.map Prod.snd)).encode =
                .array (forwarded.map fun entry => entry.2.encode) := by
              rw [SingleOrBatchRpcRequest.encode, List.map_map]
              rfl
            rw [← posted] at isAnswer
            exact readReplies_returned (conforms.forms uri _ _ response isAnswer)
              (conforms.empty uri _ _ response isAnswer) isValue

end

section

variable {refused : RpcRequest → Prop} {forwarded : List Placed} {requests : List RpcRequest}
  {completed : Completed} {outcome : Nat → Option (RpcResponse Json)}

theorem answered_eq_asking (forwarded : List Placed) :
    (forwarded.map Prod.snd).filter (fun request => !request.isNotification) =
      (forwarded.filter fun key => !key.2.isNotification).map Prod.snd := by
  rw [List.filter_map]
  rfl

theorem repliesTo_map (forwarded : List Placed) (replyOf : Nat → Json) :
    repliesTo (forwarded.map Prod.snd) (forwarded.map fun key => replyOf key.1) =
      (answered forwarded).map replyOf := by
  have paired := @List.zip_map' _ _ _ Prod.snd (fun key => replyOf key.1) forwarded
  rw [repliesTo, paired, List.filter_map, List.map_map, answered, List.map_map]
  rfl

theorem exists_replyOf {replies : List Json} (distinct : (forwarded.map Prod.fst).Nodup)
    (answers : List.Forall₂ Answers
      ((forwarded.map Prod.snd).filter fun request => !request.isNotification) replies) :
    ∃ replyOf : Nat → Json,
      replies = repliesTo (forwarded.map Prod.snd) (forwarded.map fun key => replyOf key.1) ∧
      ∀ key ∈ forwarded, key.2.isNotification = false → Answers key.2 (replyOf key.1) := by
  rw [answered_eq_asking] at answers
  have distinctAsking : (answered forwarded).Nodup := ((List.filter_sublist).map Prod.fst).nodup distinct
  obtain ⟨replyOf, rfl⟩ := Keyed.exists_map_eq distinctAsking replies
    (by simpa [answered] using answers.length_eq)
  refine ⟨replyOf, (repliesTo_map forwarded replyOf).symm, fun key member asks => ?_⟩
  rw [answered, List.map_map, List.forall₂_map_left_iff, List.forall₂_map_right_iff, List.forall₂_same] at answers
  exact answers key (List.mem_filter.mpr ⟨member, by simp [asks]⟩)

theorem batchAnswer_conforms {replyOf : Nat → Json}
    (each : ∀ key ∈ placed requests, key.2.isNotification = false →
      Answers key.2 (replyFor (outcome key.1) key.2 (replyOf key.1))) :
    (batchAnswer requests ((repliesInOrder requests outcome replyOf).map Prod.snd)).Conforms refused
      (.batch requests) := by
  rw [batchAnswer_repliesInOrder]
  split
  · exact ofEmpty_conforms (.allSilent ‹_›)
  · refine ofJson_conforms (.batch ?_)
    have asking := answered_eq_asking (placed requests)
    rw [placed_requests] at asking
    rw [asking, repliesInOrder_snd, List.forall₂_map_left_iff, List.forall₂_map_right_iff, List.forall₂_same]
    intro key member
    obtain ⟨isPlaced, asks⟩ := List.mem_filter.mp member
    exact each key isPlaced (by simpa using asks)

end

section

variable {client : RpcClient} {path : String} {requests : List RpcRequest}
  {intercept : Nat → RpcRequest → Future InternalCall Outcome} {refused : RpcRequest → Prop}

theorem tryCollect_ok {completed : Completed} {collected : List (Nat × Json)}
    (isCollected : tryCollect (interceptedOf completed) = .ok collected) :
    collected = ownReplies completed ∧ ∀ entry ∈ completed, ∃ response, entry.2 = .ok response := by
  rw [tryCollect_interceptedOf] at isCollected
  split at isCollected
  · simp at isCollected
  · rename_i none
    refine ⟨(Except.ok.inj isCollected).symm, fun entry member => ?_⟩
    rw [List.head?_eq_none_iff, List.filterMap_eq_nil_iff] at none
    have noFailure := none entry member
    rcases isEntry : entry.2 with error | response
    · simp [isEntry, failureOf] at noFailure
    · exact ⟨response, rfl⟩

theorem tryCollect_failed {completed : Completed} {error : RpcError}
    (failed : tryCollect (interceptedOf completed) = .error error) :
    ∃ entry ∈ completed, entry.2 = .error error := by
  rw [tryCollect_interceptedOf] at failed
  split at failed
  · rename_i first isFirst
    obtain rfl := Except.error.inj failed
    obtain ⟨entry, member, isFailure⟩ := List.mem_filterMap.mp (List.mem_of_mem_head? isFirst)
    refine ⟨entry, member, ?_⟩
    rcases isEntry : entry.2 with error | response
    · simp only [isEntry, failureOf, Option.some.injEq] at isFailure
      rw [isFailure]
    · simp [isEntry, failureOf] at isFailure
  · simp at failed

theorem answerBatch_conforms (conforms : client.Conforms) {completed : Completed}
    (own : ∀ place request, EndsOwn (refused request) (intercept place request))
    (settled : Settles intercept requests completed) {response : HttpResponse}
    (isValue : (client.answerBatch path requests completed).value = some response) :
    response.Conforms refused (.batch requests) := by
  rw [RpcClient.answerBatch, value_map, Option.map_eq_some_iff] at isValue
  obtain ⟨joined, isJoined, rfl⟩ := isValue
  cases isCollected : tryCollect (interceptedOf completed) with
  | error error =>
      rw [isCollected] at isJoined
      obtain ⟨first, rfl, isOwn | isSent⟩ := value_tryJoin_error isJoined
      · subst isOwn
        obtain ⟨entry, member, isError⟩ := tryCollect_failed isCollected
        have ends := own _ _ _ (settled.outcome member).2
        rw [isError] at ends
        exact intoResponse_conforms (spoken_of_own ends) requests
      · exact intoResponse_conforms (sendBatch_returned conforms isSent) requests
  | ok collected =>
      obtain ⟨rfl, allOk⟩ := tryCollect_ok isCollected
      rw [isCollected, value_tryJoin_ok, Option.map_eq_some_iff] at isJoined
      obtain ⟨sent, isSent, rfl⟩ := isJoined
      have returned := sendBatch_returned conforms isSent
      cases sent with
      | error error => exact intoResponse_conforms returned requests
      | ok paired =>
          obtain ⟨replies, rfl, answers⟩ := returned
          have outcomes : ∀ key ∈ placed requests, ∃ outcome,
              (intercept key.1 key.2).value = some (.ok outcome) := by
            intro key member
            obtain ⟨settledOn, ends⟩ := settled.ends member
            obtain ⟨outcome, isOk⟩ := allOk _ (settled.of_placed member ends)
            exact ⟨outcome, ends.trans (congrArg some isOk)⟩
          obtain ⟨outcome, isOutcome⟩ := exists_by_place outcomes
          have perm := settled.perm (fun place => .ok (outcome place)) isOutcome
          have postedPerm := forwardedOf_perm perm
          have distinct : ((forwardedOf completed).map Prod.fst).Nodup := by
            refine (postedPerm.map Prod.fst).nodup_iff.mpr ?_
            exact ((List.filter_sublist).map Prod.fst).nodup (placed_keys_nodup requests)
          obtain ⟨replyOf, rfl, answered⟩ := exists_replyOf distinct answers
          simp only [finishBatch, Except.map, mergeReplies_inOrder replyOf perm]
          refine batchAnswer_conforms fun key member asks => ?_
          cases isOwn : outcome key.1 with
          | some reply =>
              have ends := isOutcome key member
              rw [isOwn] at ends
              exact answers_intoReply (own _ _ _ ends).1 key.2
          | none =>
              refine answered key (postedPerm.mem_iff.mpr (List.mem_filter.mpr ⟨member, ?_⟩)) asks
              simp [isOwn]

end

theorem send_conforms {client : RpcClient} (conforms : client.Conforms) {schedule : List Nat} {path : String}
    {calls : SingleOrBatchRpcRequest} {refused : RpcRequest → Prop}
    {intercept : Nat → RpcRequest → Future InternalCall Outcome}
    (own : ∀ place request, EndsOwn (refused request) (intercept place request))
    {run : Future Effect (Except AnyhowError HttpResponse)}
    (complete : client.send schedule path calls intercept = some run) {response : HttpResponse}
    (isValue : run.value = some (.ok response)) : response.Conforms refused calls := by
  cases calls with
  | single request =>
      obtain rfl := Option.some.inj complete
      exact sendSingle_conforms conforms (own 0 request) isValue
  | batch requests =>
      obtain ⟨many, isMany, rfl⟩ := Option.map_eq_some_iff.mp complete
      rw [value_map, Option.map_eq_some_iff] at isValue
      obtain ⟨sent, isSent, same⟩ := isValue
      obtain rfl := Except.ok.inj same
      rcases sendMany_run isMany with ⟨completed, _, settled, isAnswer, _⟩ | ⟨_, isNone, _⟩
      · exact answerBatch_conforms conforms own settled (isAnswer ▸ isSent)
      · simp [isNone] at isSent

/-- As long as bitcoind keeps to the forms of JSON-RPC the proxy does too: each call that is no notification gets
one reply of its own, in its version and with its id, or one failure stands for the whole batch. -/
theorem proxyRequest_conforms (node : Node) (env : Environment)
    (askPeer : Nat → Nat → String → NetworkParams → Digest → Future Empty (Option Block)) (secret : Secret)
    (conforms : env.base.rpcClient.Conforms) (schedule : List Nat) (http : HttpRequest) (name : String) (user : User)
    (calls : SingleOrBatchRpcRequest)
    (sent : Sends ((node.serving env askPeer).state secret) http name user calls)
    (run : Future Effect (Except AnyhowError HttpResponse))
    (complete : ((node.serving env askPeer).state secret).proxyRequest schedule http = some run)
    (response : HttpResponse) (isValue : run.value = some (.ok response)) :
    response.Conforms (fun request => user.allows request.method = false) calls := by
  rw [sent.proxyRequest_eq] at complete
  obtain ⟨answer, served, rfl⟩ := Option.map_eq_some_iff.mp complete
  rw [value_bind, value_silent, Option.bind_eq_some_iff] at isValue
  obtain ⟨_, _, isAnswer⟩ := isValue
  have alike : ((node.serving env askPeer).state secret).rpcClient.Conforms := ⟨conforms.forms, conforms.empty⟩
  exact send_conforms alike (fun place request => endsOwn_intercept (serving_statusless place) user request) served
    isAnswer

theorem directResponse_conforms (direct : InternalCall → NodeAnswer) (calls : SingleOrBatchRpcRequest) :
    Conforms (fun _ => False) calls (directResponse direct calls).1 (directResponse direct calls).2 := by
  cases calls with
  | single request =>
      cases asks : request.isNotification with
      | true => simpa [directResponse, NodeAnswer.response, asks] using Conforms.silent asks
      | false =>
          simpa [directResponse, NodeAnswer.response, asks] using Conforms.single asks ⟨direct request.call, rfl⟩
  | batch requests =>
      cases only : onlyNotifications requests with
      | true => simpa [directResponse, only] using Conforms.allSilent only
      | false =>
          have each : List.Forall₂ Answers (requests.filter fun request => !request.isNotification)
              (directReplies direct requests) := by
            rw [directReplies, List.forall₂_map_right_iff, List.forall₂_same]
            exact fun request _ => ⟨direct request.call, rfl⟩
          simpa [directResponse, only] using Conforms.batch each

theorem conforms_of_shows {response : HttpResponse} {direct : InternalCall → NodeAnswer}
    {calls : SingleOrBatchRpcRequest} (shows : response.Shows (directResponse direct calls)) :
    response.Conforms (fun _ => False) calls := by
  intro body isBody
  obtain rfl := Except.ok.inj (Option.some.inj (shows.2.symm.trans isBody))
  rw [shows.1]
  exact directResponse_conforms direct calls

theorem status_ne_noContent (answer : NodeAnswer) (isV2 : Bool) : answer.status isV2 ≠ HttpResponse.noContent := by
  unfold NodeAnswer.status
  split
  · decide
  · unfold NodeAnswer.errorStatus
    split
    · decide
    · split
      · decide
      · split <;> decide

theorem directResponse_empty {direct : InternalCall → NodeAnswer} {calls : SingleOrBatchRpcRequest}
    (noContent : (directResponse direct calls).1 = HttpResponse.noContent) :
    (directResponse direct calls).2 = .empty := by
  cases calls with
  | single request =>
      cases asks : request.isNotification with
      | true => simp [directResponse, NodeAnswer.response, asks]
      | false =>
          simp only [directResponse, NodeAnswer.response, asks, Bool.false_eq_true, if_false] at noContent
          exact absurd noContent (status_ne_noContent _ _)
  | batch requests =>
      cases only : onlyNotifications requests with
      | true => simp [directResponse, only]
      | false => simp [directResponse, only, HttpResponse.statusOk, HttpResponse.noContent] at noContent

theorem oneByteClient_conforms : oneByteClient.Conforms := by
  have direct (uri : String) (authorization : HeaderValue) (calls : SingleOrBatchRpcRequest) (response : HttpResponse)
      (isResponse : (oneByteClient.request { uri, authorization, body := calls.encode }).value =
        some (.ok response)) : response.Shows (directResponse (fun _ => .result (.string "ff")) calls) := by
    obtain ⟨other, isOther, shows⟩ := oneByteClient_serves uri authorization calls
    obtain rfl := Except.ok.inj (Option.some.inj (isResponse.symm.trans isOther))
    exact shows
  constructor
  · intro uri authorization calls response isResponse
    exact conforms_of_shows (direct uri authorization calls response isResponse)
  · intro uri authorization calls response isResponse noContent
    have shows := direct uri authorization calls response isResponse
    rw [shows.2, directResponse_empty (shows.1.symm.trans noContent)]

theorem proxyRequest_conforms_batch :
    ∃ run response, ((oneByteNode.serving batchEnvironment fun _ _ _ _ _ => Future.pure none).state
        (secretAt "a")).proxyRequest [1, 0] paymentHttp = some run ∧ run.value = some (.ok response) ∧
      response.Conforms (fun request => explorer.allows request.method = false)
        (.batch [prunedCall, blockCount]) := by
  obtain ⟨path, method, ⟨name, authenticates⟩, calls⟩ := batchEnvironment_handles
  let state := (oneByteNode.serving batchEnvironment fun _ _ _ _ _ => Future.pure none).state (secretAt "a")
  have complete : state.proxyRequest [1, 0] paymentHttp = some _ := rfl
  have isValue : ((state.proxyRequest [1, 0] paymentHttp).get rfl).value = some (.ok _) := rfl
  exact ⟨_, _, complete, isValue, proxyRequest_conforms oneByteNode batchEnvironment (fun _ _ _ _ _ => Future.pure none)
    (secretAt "a") oneByteClient_conforms [1, 0] paymentHttp name explorer _ ⟨path, method, authenticates, calls⟩ _
    complete _ isValue⟩

end BtcRpcProxy
