import BtcRpcProxy.BatchRefusal
import BtcRpcProxy.BatchReplies

/-!
A batch of allowed calls against the same calls sent one by one. On a bitcoind that
answers both alike the replies are the same, unless an intercept ends in an error or a
panic: these reach the whole batch.
-/

namespace BtcRpcProxy

open Polled

/-- bitcoind answers a request with one reply, sent alone or in a batch, under its own id. -/
structure RpcClient.AnswersAlike (client : RpcClient) (reply : RpcRequest → Json) : Prop where
  batched : client.AnswersInOrder fun posted => posted.map reply
  alone : ∀ uri authorization request, ∃ response,
    (client.request { uri, authorization, body := request.encode }).value = some (.ok response) ∧
      (request.isNotification = false → response.body.value = some (.ok (.json (reply request))))
  id : ∀ request, request.isNotification = false →
    (reply request).member "id" = some (request.id.getD .null)

section

variable {client : RpcClient} {path uri : String} {authorization : HeaderValue} {request : RpcRequest}
variable {intercepted : Future InternalCall Outcome}

theorem sendSingle_forwarded (reaches : client.Reaches path uri authorization)
    (left : intercepted.value = some (.ok none)) :
    (client.sendSingle path request intercepted).value =
      (client.request { uri, authorization, body := request.encode }).value := by
  obtain ⟨pathAndQuery, parsed, built⟩ := reaches.located
  simp only [RpcClient.sendSingle, Future.value_bind, Future.value_mapEffect, left, Option.bind_some,
    RpcClient.forwardSingle, parsed, Future.value_silent, reaches.loaded, built, post_value]

theorem sendSingle_answered {own : RpcResponse Json} (answered : intercepted.value = some (.ok (some own))) :
    (client.sendSingle path request intercepted).value = some (.ok (own.intoResponseTo request)) := by
  simp [RpcClient.sendSingle, answered]

theorem intoResponseTo_body (own : RpcResponse Json) (asks : request.isNotification = false) :
    (own.intoResponseTo request).body.value = some (.ok (.json (own.intoReply request))) := by
  unfold RpcResponse.intoResponseTo
  split
  · rfl
  · rw [asks]
    simp only [Bool.false_eq_true, if_false]
    split <;> rfl

end

def SoloReply (client : RpcClient) (path : String) (user : User) (upstream : Upstream)
    (request : RpcRequest) (reply : Json) : Prop :=
  (∃ solo response, client.send [] path (.single request) (fun _ => user.intercept upstream) = some solo ∧
    solo.value = some (.ok response) ∧ response.body.value = some (.ok (.json reply))) ∧
  reply.member "id" = some (request.id.getD .null)

def AnswersEach (client : RpcClient) (path : String) (user : User) (upstream : Nat → Upstream)
    (requests : List RpcRequest) (run : Future Effect (Except AnyhowError HttpResponse)) : Prop :=
  ∃ replies, run.value = some (.ok (batchAnswer requests replies)) ∧
    List.Forall₂ (fun key => SoloReply client path user (upstream key.1) key.2)
      ((placed requests).filter fun key => !key.2.isNotification) replies

def ownAnswer (user : User) (upstream : Upstream) (request : RpcRequest) : Option (RpcResponse Json) :=
  match (user.intercept upstream request).value with
  | some (.ok own) => own
  | _ => none

section

variable {client : RpcClient} {path uri : String} {authorization : HeaderValue} {user : User}
variable {upstream : Upstream} {request : RpcRequest} {reply : RpcRequest → Json}

theorem intercept_ok (ends : upstream.Ends) (verbose : upstream.HeadersVerbose)
    (allowed : user.allows request.method = true) (noCrash : user.crashes request = false)
    (accepted : user.rejects request = false) :
    (user.intercept upstream request).value = some (.ok (ownAnswer user upstream request)) := by
  obtain ⟨outcome, settles⟩ := intercept_ends ends noCrash
  rcases intercept_outcome allowed settles with
    ⟨_, isOk⟩ | ⟨rejects, _⟩ | ⟨_, _, ⟨response, isOk⟩ | ⟨notVerbose, _⟩⟩
  · simp [ownAnswer, settles, isOk]
  · simp [accepted] at rejects
  · simp [ownAnswer, settles, isOk]
  · exact absurd verbose notVerbose

theorem soloReply_of_ok (reaches : client.Reaches path uri authorization)
    (alike : client.AnswersAlike reply) (asks : request.isNotification = false)
    (settles : (user.intercept upstream request).value = some (.ok (ownAnswer user upstream request))) :
    SoloReply client path user upstream request
      (replyFor (ownAnswer user upstream request) request (reply request)) := by
  cases own : ownAnswer user upstream request with
  | none =>
      rw [own] at settles
      obtain ⟨response, answers, body⟩ := alike.alone uri authorization request
      refine ⟨⟨_, response, rfl, ?_, body asks⟩, alike.id request asks⟩
      rw [sendSingle_forwarded reaches settles, answers]
  | some response =>
      rw [own] at settles
      exact ⟨⟨_, _, rfl, sendSingle_answered settles, intoResponseTo_body response asks⟩,
        (intoReply_carriesOutcome response request).id⟩

end

section

variable {client : RpcClient} {path uri : String} {authorization : HeaderValue} {user : User}
variable {upstream : Nat → Upstream} {requests : List RpcRequest} {reply : RpcRequest → Json}

theorem repliesInOrder_eq {posted : List Placed} {replyOf : Nat → Json} {outcome : Nat → Option (RpcResponse Json)}
    (isOutcome : ∀ key ∈ placed requests, outcome key.1 = ownAnswer user (upstream key.1) key.2)
    (perm : posted.Perm ((placed requests).filter fun key => (outcome key.1).isNone))
    (given : (posted.map fun key => replyOf key.1) = (posted.map Prod.snd).map reply) :
    (repliesInOrder requests outcome replyOf).map Prod.snd =
      ((placed requests).filter fun key => !key.2.isNotification).map fun key =>
        replyFor (ownAnswer user (upstream key.1) key.2) key.2 (reply key.2) := by
  have isReply : ∀ key ∈ placed requests, outcome key.1 = none → replyOf key.1 = reply key.2 := by
    intro key member left
    have isPosted : key ∈ posted := perm.mem_iff.mpr (List.mem_filter.mpr ⟨member, by simp [left]⟩)
    rw [List.map_map] at given
    exact List.map_inj_left.mp given key isPosted
  rw [repliesInOrder, List.map_filterMap, ← List.filterMap_eq_map, List.filterMap_filter]
  refine List.filterMap_congr fun key member => ?_
  cases asks : key.2.isNotification with
  | true => rfl
  | false =>
      rw [isOutcome key member]
      cases own : ownAnswer user (upstream key.1) key.2 with
      | none => simp [replyFor, own, isReply key member (by rw [isOutcome key member, own])]
      | some response => simp [replyFor, own]

theorem answersEach_of_settled {schedule : List Nat} {run : Future Effect HttpResponse}
    (reaches : client.Reaches path uri authorization) (alike : client.AnswersAlike reply)
    (settles : ∀ key ∈ placed requests, (user.intercept (upstream key.1) key.2).value =
      some (.ok (ownAnswer user (upstream key.1) key.2)))
    (complete : client.sendMany schedule path requests
      (fun place => user.intercept (upstream place)) = some run) :
    AnswersEach client path user upstream requests (run.map Except.ok) := by
  let outcome : Nat → Option (RpcResponse Json) := fun place =>
    (requests[place]?).bind (ownAnswer user (upstream place))
  have isOutcome : ∀ key ∈ placed requests, outcome key.1 = ownAnswer user (upstream key.1) key.2 := by
    intro key member
    simp [outcome, placed_getElem member]
  obtain ⟨posted, replyOf, isPerm, _, given, isValue⟩ :=
    sendMany_in_order outcome reaches alike.batched
      (fun key member => by rw [isOutcome key member]; exact settles key member) complete
  rw [repliesInOrder_eq isOutcome isPerm given] at isValue
  refine ⟨_, by rw [Future.value_map, isValue, Option.map_some], ?_⟩
  rw [List.forall₂_map_right_iff, List.forall₂_same]
  intro key member
  obtain ⟨isPlaced, asks⟩ := List.mem_filter.mp member
  exact soloReply_of_ok reaches alike (by simpa using asks) (settles key isPlaced)

theorem not_answersEach_of_unnamed {schedule : List Nat} {run : Future Effect HttpResponse}
    {request : RpcRequest} (reaches : client.Reaches path uri authorization)
    (alike : client.AnswersAlike reply) (member : request ∈ requests)
    (allowed : user.allows request.method = true) (serves : user.servesBlock request = true)
    (unnamed : request.blockHash = none)
    (complete : client.sendMany schedule path requests
      (fun place => user.intercept (upstream place)) = some run) :
    ¬AnswersEach client path user upstream requests (run.map Except.ok) := by
  rintro ⟨replies, isAnswer, _⟩
  rw [Future.value_map] at isAnswer
  rcases sendMany_run complete with ⟨completed, _, settled, isValue, _⟩ | ⟨_, panics, _⟩
  · obtain ⟨key, isPlaced, rfl⟩ := exists_placed member
    by_cases given : key.2.hasParams = true
    · obtain ⟨error, isError⟩ :=
        intercept_badHash (upstream key.1) allowed serves given unnamed
      have entry := settled.of_placed isPlaced (by rw [isError]; exact Future.value_pure _)
      obtain ⟨response, answers, carries⟩ :=
        alike.batched.answers uri authorization (forwardedOf completed)
      obtain ⟨joined, isJoined⟩ := answerBatch_rejected requests reaches answers carries entry rfl
      rw [isValue, isJoined, Option.map_some, Option.some.injEq, Except.ok.injEq] at isAnswer
      exact batchAnswer_ne_error requests replies joined isAnswer.symm
    · obtain ⟨outcome, isOutcome⟩ := settled.ends isPlaced
      rw [intercept_noParams allowed serves (by simpa using given)] at isOutcome
      simp [Future.value] at isOutcome
  · simp [panics] at isAnswer

/-- A batch of allowed calls is answered as its calls are one by one exactly when each
`getblock` that the proxy serves names its block; and an intercept of an allowed call is
an error exactly when the first parameter of such a call is no block hash. -/
theorem batch_answers_each_iff {schedule : List Nat} {run : Future Effect (Except AnyhowError HttpResponse)}
    (reaches : client.Reaches path uri authorization) (alike : client.AnswersAlike reply)
    (ends : ∀ place, (upstream place).Ends) (verbose : ∀ place, (upstream place).HeadersVerbose)
    (allowed : ∀ request ∈ requests, user.allows request.method = true)
    (complete : client.send schedule path (.batch requests)
      (fun place => user.intercept (upstream place)) = some run) :
    (AnswersEach client path user upstream requests run ↔
      ∀ request ∈ requests, user.servesBlock request = true → request.blockHash ≠ none) ∧
    ∀ key ∈ placed requests,
      (∃ error, (user.intercept (upstream key.1) key.2).value = some (.error error)) ↔
        user.rejects key.2 = true := by
  obtain ⟨many, isRun, rfl⟩ := Option.map_eq_some_iff.mp complete
  refine ⟨⟨?_, ?_⟩, ?_⟩
  · intro answers request member serves unnamed
    exact not_answersEach_of_unnamed reaches alike member (allowed request member) serves unnamed
      isRun answers
  · intro named
    refine answersEach_of_settled reaches alike (fun key isPlaced => ?_) isRun
    have member := mem_of_placed isPlaced
    have noCrash : user.crashes key.2 = false := by
      by_contra crashes
      simp only [Bool.not_eq_false, User.crashes, Bool.and_eq_true, Bool.not_eq_true'] at crashes
      exact named key.2 member crashes.1.2 (blockHash_of_noParams crashes.2)
    have accepted : user.rejects key.2 = false := by
      by_contra rejects
      simp only [Bool.not_eq_false, User.rejects, Bool.and_eq_true, Option.isNone_iff_eq_none] at rejects
      exact named key.2 member rejects.1.1.2 rejects.2
    exact intercept_ok (ends key.1) (verbose key.1) (allowed key.2 member) noCrash accepted
  · intro key isPlaced
    constructor
    · rintro ⟨error, isError⟩
      rcases intercept_outcome (allowed key.2 (mem_of_placed isPlaced)) isError with
        ⟨_, isOk⟩ | ⟨rejects, _⟩ | ⟨_, _, ⟨response, isOk⟩ | ⟨notVerbose, _⟩⟩
      · simp at isOk
      · exact rejects
      · simp at isOk
      · exact absurd (verbose key.1) notVerbose
    · intro rejects
      obtain ⟨error, isError⟩ := intercept_rejects (upstream key.1) rejects
      exact ⟨error, by rw [isError, Future.value_pure]⟩

end

/-! A `getblock` with a mistyped hash. -/

def explorer : User :=
  { password := .cleartext "secret", allowedCalls := none, fetchBlocks := true, overrideWallet := none }

def blockCount : RpcRequest :=
  { jsonrpc := none, id := some (.string "count"), method := "getblockcount", params := .array [] }

def mistypedBlock : RpcRequest :=
  { jsonrpc := none, id := some (.string "block"), method := "getblock",
    params := .array [.string "zz", .number (.posInt 0)] }

def echoReply (request : RpcRequest) : Json := echo request.encode

theorem echoNode_alike : echoNode.AnswersAlike echoReply where
  batched := echoNode_inOrder
  alone := fun uri authorization request => ⟨_, rfl, fun _ => rfl⟩
  id := fun request _ => by
    rw [echoReply, echo, encode_member_id]
    rfl

/-- The block count is lost to the mistyped hash next to it. -/
theorem mistyped_hash_fails_batch :
    ∃ run response, echoNode.send [0, 0] "/" (.batch [blockCount, mistypedBlock])
        (fun _ => explorer.intercept noUpstream) = some run ∧
      explorer.allows blockCount.method = true ∧ explorer.allows mistypedBlock.method = true ∧
      run.value = some (.ok response) ∧
      response = (RpcResponse.ofError { code := -1, message := "invalid hash", status := none }).intoResponse ∧
      ¬AnswersEach echoNode "/" explorer (fun _ => noUpstream) [blockCount, mistypedBlock] run := by
  refine ⟨_, _, rfl, rfl, rfl, rfl, rfl, ?_⟩
  rintro ⟨replies, isAnswer, _⟩
  have same := (Except.ok.inj (Option.some.inj isAnswer)).symm
  exact batchAnswer_ne_error _ _ _ same

theorem batch_answers_each_hash :
    ∃ run, echoNode.send [0, 0] "/" (.batch [blockCount, { mistypedBlock with
          params := .array [encodeHash Blocks.Digest.zeros, .number (.posInt 0)] }])
        (fun _ => explorer.intercept noUpstream) = some run ∧
      AnswersEach echoNode "/" explorer (fun _ => noUpstream) [blockCount, { mistypedBlock with
        params := .array [encodeHash Blocks.Digest.zeros, .number (.posInt 0)] }] run := by
  have reaches : echoNode.Reaches "/" "/" [] := ⟨⟨"/", rfl, rfl⟩, rfl⟩
  have complete : echoNode.send [0, 0] "/" (.batch [blockCount, { mistypedBlock with
        params := .array [encodeHash Blocks.Digest.zeros, .number (.posInt 0)] }])
      (fun _ => explorer.intercept noUpstream) = some _ := rfl
  refine ⟨_, complete,
    (batch_answers_each_iff reaches echoNode_alike ?_ ?_ (fun _ _ => rfl) complete).1.mpr ?_⟩
  · exact fun _ => ⟨fun _ => ⟨_, rfl⟩, fun _ => ⟨_, rfl⟩, fun _ => ⟨_, rfl⟩⟩
  · intro place hash reply isReply
    simp [Upstream.callHeader, noUpstream] at isReply
  · intro request member serves
    rcases List.mem_cons.mp member with rfl | rest
    · exact absurd serves (by decide)
    · rw [List.mem_singleton.mp rest]
      decide

end BtcRpcProxy
