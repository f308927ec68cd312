import BtcRpcProxy.BatchOrder
import BtcRpcProxy.ProxyCalls

/-!
The order in which the elements of a batch settle makes no difference: any two complete runs of a request
post the same and give the client the same response, whatever bitcoind answers and whatever fails.
-/

namespace BtcRpcProxy

open CredentialFailures Polled Polled.Future

theorem ownReplies_keys (completed : Completed) :
    ((ownReplies completed).map Prod.fst).Sublist (completed.map fun entry => entry.1.1) := by
  induction completed with
  | nil => exact List.Sublist.refl _
  | cons entry rest ih =>
      obtain ⟨⟨index, request⟩, error | _ | response⟩ := entry
      · exact ih.cons index
      · exact ih.cons index
      · simp only [ownReplies]
        split
        · exact ih.cons index
        · exact ih.cons_cons index

/-- Two completions of a batch that a client cannot tell apart. -/
structure Alike (completed other : Completed) : Prop where
  forwarded : forwardedOf completed = forwardedOf other
  failures : (completed.filterMap fun entry => failureOf entry.2) = other.filterMap fun entry => failureOf entry.2
  own : (ownReplies completed).Perm (ownReplies other)
  distinct : ((ownReplies completed).map Prod.fst).Nodup

theorem answerBatch_alike {client : RpcClient} {path : String} {requests : List RpcRequest}
    {completed other : Completed} (alike : Alike completed other) :
    (client.answerBatch path requests completed).value = (client.answerBatch path requests other).value ∧
      (client.answerBatch path requests completed).log = (client.answerBatch path requests other).log := by
  simp only [RpcClient.answerBatch, value_map, log_map, tryCollect_interceptedOf, alike.failures, alike.forwarded]
  cases (other.filterMap fun entry => failureOf entry.2).head? with
  | some error => exact ⟨rfl, rfl⟩
  | none =>
      simp only [value_tryJoin_ok, log_tryJoin_ok, and_true, Option.map_map]
      congr 1
      funext sent
      cases sent with
      | error error => rfl
      | ok forwarded =>
          simp only [Function.comp_apply, Except.map, finishBatch, mergeReplies,
            Keyed.sortByKey_eq_of_perm alike.distinct alike.own]

/-! What the elements settle on. -/

section

variable {user : User} {upstream : Nat → Upstream} {requests : List RpcRequest}

theorem intercept_fails_at_once {upstream : Upstream} {request : RpcRequest} {error : RpcError}
    (verbose : upstream.HeadersVerbose) (fails : (user.intercept upstream request).value = some (.error error)) :
    user.intercept upstream request = Future.pure (.error error) := by
  cases allowed : user.allows request.method with
  | false =>
      have refused := @intercept_refused user upstream request allowed
      rw [refused, value_pure, Option.some.injEq] at fails
      rw [refused, fails]
  | true =>
      rcases intercept_outcome allowed fails with
        ⟨_, isOk⟩ | ⟨rejects, _⟩ | ⟨_, _, ⟨response, isOk⟩ | ⟨notVerbose, _⟩⟩
      · simp at isOk
      · obtain ⟨first, isFirst⟩ := intercept_rejects upstream rejects
        rw [isFirst, value_pure, Option.some.injEq] at fails
        rw [isFirst, fails]
      · simp at isOk
      · exact absurd verbose notVerbose

def failsAt (user : User) (upstream : Nat → Upstream) (key : Placed) : Option RpcError :=
  (user.intercept (upstream key.1) key.2).value.bind failureOf

section

variable {schedule : List Nat} {intercepts : Future InternalCall Completed} {completed : Completed}
  (inOrder : firstPollsInOrder 0 schedule
    (RpcClient.interceptAll (fun place => user.intercept (upstream place)) requests) = true)
  (complete : forEachConcurrent schedule
    (RpcClient.interceptAll (fun place => user.intercept (upstream place)) requests) = some intercepts)
  (ends : intercepts.value = some completed)

include inOrder complete ends

theorem keys_in_order (atOnce : Placed → Bool) (prompt : ∀ key, atOnce key = true →
      (user.intercept (upstream key.1) key.2).firstValue ≠ none) :
    (completed.map Prod.fst).filter atOnce = (placed requests).filter atOnce := by
  have keys : (RpcClient.interceptAll (fun place => user.intercept (upstream place)) requests).map Prod.fst =
      placed requests := by
    simp [RpcClient.interceptAll, Function.comp_def]
  rw [completed_in_order atOnce inOrder complete ends ?_, keys]
  intro entry member isAtOnce
  obtain ⟨key, _, rfl⟩ := List.mem_map.mp member
  exact prompt key isAtOnce

theorem forwarded_in_order (settled : Settles (fun place => user.intercept (upstream place)) requests completed) :
    forwardedOf completed = (placed requests).filter fun key => user.forwards key.2 := by
  have known : ∀ entry ∈ completed, entry.2 = .ok none ↔ user.forwards entry.1.2 = true := by
    intro entry member
    rw [← intercept_forwards_iff, (settled.outcome member).2, Option.some.injEq]
  rw [forwardedOf_eq_filter (fun key => user.forwards key.2) known]
  refine keys_in_order inOrder complete ends _ fun key forwards => ?_
  simp [intercept_forwards forwards, firstValue, Future.pure]

theorem failures_in_order (verbose : ∀ place, (upstream place).HeadersVerbose)
    (settled : Settles (fun place => user.intercept (upstream place)) requests completed) :
    (completed.filterMap fun entry => failureOf entry.2) = (placed requests).filterMap (failsAt user upstream) := by
  have known : ∀ entry ∈ completed, failureOf entry.2 = failsAt user upstream entry.1 := by
    intro entry member
    rw [failsAt, (settled.outcome member).2, Option.bind_some]
  have onlyFailing (items : List Placed) : (items.filter fun key => (failsAt user upstream key).isSome).filterMap
      (failsAt user upstream) = items.filterMap (failsAt user upstream) := by
    rw [List.filterMap_filter]
    refine List.filterMap_congr fun key _ => ?_
    cases failsAt user upstream key <;> rfl
  have ordered : (completed.map Prod.fst).filter (fun key => (failsAt user upstream key).isSome) =
      (placed requests).filter fun key => (failsAt user upstream key).isSome := by
    refine keys_in_order inOrder complete ends _ fun key fails => ?_
    obtain ⟨error, isError⟩ := Option.isSome_iff_exists.mp fails
    obtain ⟨outcome, isOutcome, isFailure⟩ := Option.bind_eq_some_iff.mp isError
    cases outcome with
    | ok response => simp [failureOf] at isFailure
    | error error => simp [intercept_fails_at_once (verbose key.1) isOutcome, firstValue, Future.pure]
  calc completed.filterMap (fun entry => failureOf entry.2)
      = (completed.map Prod.fst).filterMap (failsAt user upstream) := by
        rw [List.filterMap_map]
        exact List.filterMap_congr known
    _ = (placed requests).filterMap (failsAt user upstream) := by
        rw [← onlyFailing, ordered, onlyFailing]

end

theorem perm_of_settles {intercept : Nat → RpcRequest → Future InternalCall Outcome} {completed other : Completed}
    (settled : Settles intercept requests completed) (others : Settles intercept requests other) :
    completed.Perm other := by
  have injective : Function.Injective fun entry : Placed × Outcome => (entry.1, some entry.2) := by
    intro first second same
    simp only [Prod.mk.injEq, Option.some.injEq] at same
    exact Prod.ext same.1 same.2
  exact (List.map_perm_map_iff injective).mp (settled.symm.trans others)

theorem own_perm {completed other : Completed} (perm : completed.Perm other) :
    (ownReplies completed).Perm (ownReplies other) := by
  rw [ownReplies_eq_filterMap, ownReplies_eq_filterMap]
  exact perm.filterMap _

theorem own_distinct {intercept : Nat → RpcRequest → Future InternalCall Outcome} {completed : Completed}
    (settled : Settles intercept requests completed) : ((ownReplies completed).map Prod.fst).Nodup := by
  refine (ownReplies_keys completed).nodup ?_
  have keys := settled.keys.map Prod.fst
  rw [List.map_map] at keys
  exact keys.nodup_iff.mpr (placed_keys_nodup requests)

end

/-! Two runs. -/

/-- The client gets the same and bitcoind is posted the same; without a panic the proxy makes the same calls. -/
structure SameRun {Value : Type} (run other : Future Effect Value) : Prop where
  value : run.value = other.value
  posts : forwards run.log = forwards other.log
  calls : run.value ≠ none → run.log.Perm other.log

theorem SameRun.refl {Value : Type} (run : Future Effect Value) : SameRun run run :=
  ⟨rfl, rfl, fun _ => List.Perm.refl _⟩

theorem SameRun.map {Value Result : Type} {run other : Future Effect Value} (same : SameRun run other)
    (f : Value → Result) : SameRun (run.map f) (other.map f) where
  value := by rw [value_map, value_map, same.value]
  posts := by rw [log_map, log_map, same.posts]
  calls ends := by
    rw [log_map, log_map]
    exact same.calls fun panics => ends (by rw [value_map, panics]; rfl)

theorem SameRun.after_silent {Read Value : Type} {run other : Future Effect Value} (same : SameRun run other)
    (reading : Future Empty Read) :
    SameRun (reading.silent.bind fun _ => run) (reading.silent.bind fun _ => other) := by
  cases isRead : reading.value with
  | none => exact ⟨by simp [isRead], by simp [log_bind, isRead], fun ends => absurd (by simp [isRead]) ends⟩
  | some read =>
      have isValue (late : Future Effect Value) : (reading.silent.bind fun _ => late).value = late.value := by
        simp [isRead]
      have isLog (late : Future Effect Value) : (reading.silent.bind fun _ => late).log = late.log := by
        simp [log_bind, isRead]
      constructor
      · rw [isValue, isValue, same.value]
      · rw [isLog, isLog, same.posts]
      · rw [isValue, isLog, isLog]
        exact same.calls

section

variable {user : User} {client : RpcClient} {path : String} {upstream : Nat → Upstream}
  {schedule schedule' : List Nat}

theorem sendMany_same {requests : List RpcRequest} {run run' : Future Effect HttpResponse}
    (verbose : ∀ place, (upstream place).HeadersVerbose)
    (inOrder : firstPollsInOrder 0 schedule
      (RpcClient.interceptAll (fun place => user.intercept (upstream place)) requests) = true)
    (inOrder' : firstPollsInOrder 0 schedule'
      (RpcClient.interceptAll (fun place => user.intercept (upstream place)) requests) = true)
    (complete : client.sendMany schedule path requests (fun place => user.intercept (upstream place)) = some run)
    (complete' : client.sendMany schedule' path requests
      (fun place => user.intercept (upstream place)) = some run') :
    SameRun run run' := by
  obtain ⟨intercepts, isRun, rfl⟩ := Option.map_eq_some_iff.mp complete
  obtain ⟨intercepts', isRun', rfl⟩ := Option.map_eq_some_iff.mp complete'
  rcases intercepts_end isRun with ⟨completed, ends, settled⟩ | ⟨panics, key, member, isNone⟩
  · rcases intercepts_end isRun' with ⟨other, otherEnds, others⟩ | ⟨_, key, member, isNone⟩
    · have alike : Alike completed other :=
        { forwarded := (forwarded_in_order inOrder isRun ends settled).trans
            (forwarded_in_order inOrder' isRun' otherEnds others).symm,
          failures := (failures_in_order inOrder isRun ends verbose settled).trans
            (failures_in_order inOrder' isRun' otherEnds verbose others).symm,
          own := own_perm (perm_of_settles settled others),
          distinct := own_distinct settled }
      obtain ⟨sameValue, sameLog⟩ := @answerBatch_alike client path requests completed other alike
      have perm : intercepts.log.Perm intercepts'.log :=
        ((forEachConcurrent_complete isRun).log_perm ends).trans
          ((forEachConcurrent_complete isRun').log_perm otherEnds).symm
      constructor
      · simp [ends, otherEnds, sameValue]
      · simp [log_bind, forwards_append, forwards_internal, ends, otherEnds, sameLog]
      · intro _
        simp only [log_bind, log_mapEffect, value_mapEffect, ends, otherEnds, Option.map_some, Option.getD_some,
          sameLog]
        exact (perm.map _).append_right _
    · obtain ⟨outcome, isSome⟩ := settled.ends member
      simp [isNone] at isSome
  · rcases intercepts_end isRun' with ⟨other, _, others⟩ | ⟨panics', _⟩
    · obtain ⟨outcome, isSome⟩ := others.ends member
      simp [isNone] at isSome
    · exact ⟨by simp [panics, panics'], by simp [log_bind, forwards_internal, panics, panics'],
        fun ends => absurd (by simp [panics]) ends⟩

/-- The order in which the futures of these calls are polled for the first time is that of the calls. -/
def PollsInOrder (user : User) (upstream : Nat → Upstream) (schedule : List Nat) : SingleOrBatchRpcRequest → Prop
  | .single _ => True
  | .batch requests =>
      firstPollsInOrder 0 schedule
        (RpcClient.interceptAll (fun place => user.intercept (upstream place)) requests) = true

instance (user : User) (upstream : Nat → Upstream) (schedule : List Nat) (calls : SingleOrBatchRpcRequest) :
    Decidable (PollsInOrder user upstream schedule calls) :=
  match calls with
  | .single _ => inferInstanceAs (Decidable True)
  | .batch _ => inferInstanceAs (Decidable (_ = true))

theorem send_same {calls : SingleOrBatchRpcRequest} {run run' : Future Effect (Except AnyhowError HttpResponse)}
    (verbose : ∀ place, (upstream place).HeadersVerbose) (inOrder : PollsInOrder user upstream schedule calls)
    (inOrder' : PollsInOrder user upstream schedule' calls)
    (complete : client.send schedule path calls (fun place => user.intercept (upstream place)) = some run)
    (complete' : client.send schedule' path calls (fun place => user.intercept (upstream place)) = some run') :
    SameRun run run' := by
  cases calls with
  | single request =>
      obtain rfl := Option.some.inj complete
      obtain rfl := Option.some.inj complete'
      exact SameRun.refl _
  | batch requests =>
      obtain ⟨many, isMany, rfl⟩ := Option.map_eq_some_iff.mp complete
      obtain ⟨many', isMany', rfl⟩ := Option.map_eq_some_iff.mp complete'
      exact (sendMany_same verbose inOrder inOrder' isMany isMany').map _

theorem send_completes (user : User) (client : RpcClient) (path : String) (upstream : Nat → Upstream)
    (calls : SingleOrBatchRpcRequest) :
    ∃ schedule run, PollsInOrder user upstream schedule calls ∧
      client.send schedule path calls (fun place => user.intercept (upstream place)) = some run := by
  cases calls with
  | single request => exact ⟨[], _, trivial, rfl⟩
  | batch requests =>
      obtain ⟨schedule, run, inOrder, complete⟩ := exists_complete_in_order 0
        (RpcClient.interceptAll (fun place => user.intercept (upstream place)) requests)
      exact ⟨schedule, _, inOrder, by rw [RpcClient.send, RpcClient.sendMany, complete]; rfl⟩

end

def State.PollsInOrder (state : State) (http : HttpRequest) (schedule : List Nat) : Prop :=
  ∀ name user calls, Sends state http name user calls → BtcRpcProxy.PollsInOrder user state.upstream schedule calls

section

variable {state : State} {http : HttpRequest} {name : String} {user : User} {calls : SingleOrBatchRpcRequest}

theorem sends_unique {other : String} {otherUser : User} {otherCalls : SingleOrBatchRpcRequest}
    (sent : Sends state http name user calls) (otherSent : Sends state http other otherUser otherCalls) :
    otherUser = user ∧ otherCalls = calls := by
  obtain ⟨_, _, ⟨header, isHeader, isUser⟩, read, isRead, decoded⟩ := sent
  obtain ⟨_, _, ⟨same, isSame, isOther⟩, otherRead, isOtherRead, otherDecoded⟩ := otherSent
  obtain rfl := Option.some.inj (isHeader.symm.trans isSame)
  obtain rfl := Except.ok.inj (Option.some.inj (isRead.symm.trans isOtherRead))
  have together : name = other ∧ user = otherUser := by simpa using isUser.symm.trans isOther
  exact ⟨together.2.symm, Except.ok.inj (otherDecoded.symm.trans decoded)⟩

theorem pollsInOrder_of_sends {schedule : List Nat} (sent : Sends state http name user calls)
    (inOrder : BtcRpcProxy.PollsInOrder user state.upstream schedule calls) : state.PollsInOrder http schedule := by
  intro other otherUser otherCalls otherSent
  obtain ⟨rfl, rfl⟩ := sends_unique sent otherSent
  exact inOrder

end

theorem exists_schedule_in_order (state : State) (http : HttpRequest) :
    ∃ schedule, state.PollsInOrder http schedule := by
  by_cases handled : ∃ name user calls, Sends state http name user calls
  · obtain ⟨name, user, calls, sent⟩ := handled
    obtain ⟨schedule, _, inOrder, _⟩ := send_completes user state.rpcClient "" state.upstream calls
    exact ⟨schedule, pollsInOrder_of_sends sent inOrder⟩
  · exact ⟨[], fun name user calls sent => absurd ⟨name, user, calls, sent⟩ handled⟩

/-- Every request can be served, and all runs in which its elements are first polled in their order are the
same, however these are polled after that and in which order they settle. -/
theorem proxyRequest_schedule_independent (state : State) (http : HttpRequest)
    (verbose : ∀ place, (state.upstream place).HeadersVerbose) :
    (∃ schedule run, state.PollsInOrder http schedule ∧ state.proxyRequest schedule http = some run) ∧
      ∀ schedule schedule' run run', state.PollsInOrder http schedule → state.PollsInOrder http schedule' →
        state.proxyRequest schedule http = some run → state.proxyRequest schedule' http = some run' →
        SameRun run run' := by
  rcases proxyRequest_sends state http with
    ⟨answered, _, always⟩ | ⟨name, user, calls, sent, sends⟩
  · constructor
    · obtain ⟨schedule, inOrder⟩ := exists_schedule_in_order state http
      exact ⟨schedule, answered, inOrder, always schedule⟩
    · intro schedule schedule' run run' _ _ complete complete'
      obtain rfl := Option.some.inj ((always schedule).symm.trans complete)
      obtain rfl := Option.some.inj ((always schedule').symm.trans complete')
      exact SameRun.refl _
  · constructor
    · obtain ⟨schedule, run, inOrder, complete⟩ := send_completes user state.rpcClient
        (State.walletPath user http.path) state.upstream calls
      exact ⟨schedule, _, pollsInOrder_of_sends sent inOrder, by rw [sends, complete]; rfl⟩
    · intro schedule schedule' run run' inOrder inOrder' complete complete'
      rw [sends] at complete complete'
      obtain ⟨answer, isAnswer, rfl⟩ := Option.map_eq_some_iff.mp complete
      obtain ⟨answer', isAnswer', rfl⟩ := Option.map_eq_some_iff.mp complete'
      exact (send_same verbose (inOrder name user calls sent) (inOrder' name user calls sent) isAnswer
        isAnswer').after_silent _

/-! A block that takes its time, and a call for bitcoind after it. -/

def slowState : State := { batchEnvironment.base with upstream := fun _ => slowUpstream }

theorem slowState_pollsInOrder {schedule : List Nat} (inOrder : PollsInOrder explorer (fun _ => slowUpstream)
    schedule (.batch [prunedCall, blockCount])) : slowState.PollsInOrder paymentHttp schedule :=
  have user : slowState.users.get slowState.credentials (utf8Bytes "Basic cGF5OnNlY3JldA==") =
      some (some ("pay", explorer)) := by decide +kernel
  have decoded : slowState.decodeRequest paymentBody = .ok (.batch [prunedCall, blockCount]) := by decide +kernel
  pollsInOrder_of_sends ⟨by decide, rfl, ⟨_, rfl, user⟩, _, rfl, decoded⟩ inOrder

theorem proxyRequest_schedule_independent_slow :
    ∃ run run', slowState.proxyRequest [0, 0, 0] paymentHttp = some run ∧
      slowState.proxyRequest [0, 1, 0] paymentHttp = some run' ∧ SameRun run run' := by
  have verbose : ∀ place, (slowState.upstream place).HeadersVerbose := by
    intro place hash reply isReply
    simp [slowState, slowUpstream, noUpstream, Upstream.callHeader] at isReply
  have same := (proxyRequest_schedule_independent slowState paymentHttp verbose).2
  exact ⟨_, _, rfl, rfl, same [0, 0, 0] [0, 1, 0] _ _ (slowState_pollsInOrder (by decide +kernel))
    (slowState_pollsInOrder (by decide +kernel)) rfl rfl⟩

end BtcRpcProxy
