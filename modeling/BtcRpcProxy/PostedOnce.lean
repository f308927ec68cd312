import BtcRpcProxy.BatchRefusal
import BtcRpcProxy.ProxyRequests

/-!
How often a call of a client reaches bitcoind: for each request there is one post at most, the last thing that
is done for it, and in it stands once each element that bitcoind has to answer.
-/

namespace BtcRpcProxy

open Polled Polled.Future

def leftToBitcoind : Option Outcome → Bool
  | some (.ok none) => true
  | _ => false

/-- A post and the proxy's calls before it: every element has settled by then, all that is done for the elements
has been done, and exactly those left to bitcoind are posted, none of them twice. -/
inductive PostedAfter (intercept : Nat → RpcRequest → Future InternalCall Outcome) :
    SingleOrBatchRpcRequest → List InternalCall → Json → Prop
  | single {request : RpcRequest} : leftToBitcoind (intercept 0 request).value = true →
      PostedAfter intercept (.single request) (intercept 0 request).log request.encode
  | batch {requests : List RpcRequest} {calls : List InternalCall} {posted : List Placed} :
      (∀ key ∈ placed requests, ∃ outcome, (intercept key.1 key.2).value = some outcome) →
      calls.Perm ((placed requests).flatMap fun key => (intercept key.1 key.2).log) →
      posted.Perm ((placed requests).filter fun key => leftToBitcoind (intercept key.1 key.2).value) →
      PostedAfter intercept (.batch requests) calls (.array (posted.map fun key => key.2.encode))

/-- No post, or one after all calls of the proxy. -/
def PostsOnce (log : List Effect) (isPost : List InternalCall → Json → Prop) : Prop :=
  ∃ calls : List InternalCall, log = calls.map Effect.internal ∨
    ∃ posted, log = calls.map Effect.internal ++ [.forward posted] ∧ isPost calls posted.body

section

variable {log : List Effect} {isPost : List InternalCall → Json → Prop}

theorem postsOnce_nil : PostsOnce [] isPost := ⟨[], Or.inl rfl⟩

theorem postsOnce_calls (calls : List InternalCall) : PostsOnce (calls.map Effect.internal ++ []) isPost :=
  ⟨calls, Or.inl (List.append_nil _)⟩

theorem PostsOnce.imp {wider : List InternalCall → Json → Prop} (once : PostsOnce log isPost)
    (wide : ∀ calls body, isPost calls body → wider calls body) : PostsOnce log wider := by
  obtain ⟨calls, none | ⟨posted, isLog, isPosted⟩⟩ := once
  · exact ⟨calls, Or.inl none⟩
  · exact ⟨calls, Or.inr ⟨posted, isLog, wide _ _ isPosted⟩⟩

theorem postsOnce_of_start {calls : List InternalCall} {whole : List Effect} {body : Json} (isPrefix : log <+: whole)
    (isWhole : whole = [] ∨ ∃ posted, whole = [.forward posted] ∧ posted.body = body) (isPosted : isPost calls body) :
    PostsOnce (calls.map Effect.internal ++ log) isPost := by
  rcases isWhole with rfl | ⟨posted, rfl, rfl⟩
  · rw [List.prefix_nil.mp isPrefix]
    exact postsOnce_calls calls
  · cases log with
    | nil => exact postsOnce_calls calls
    | cons effect rest =>
        obtain ⟨rfl, isNil⟩ := List.cons_prefix_cons.mp isPrefix
        rw [List.prefix_nil.mp isNil]
        exact ⟨calls, Or.inr ⟨posted, rfl, isPosted⟩⟩

end

section

variable {client : RpcClient} {path : String}

/-! One post. -/

theorem forwardSingle_log (client : RpcClient) (path : String) (request : RpcRequest) :
    (client.forwardSingle path request).log = [] ∨
      ∃ posted, (client.forwardSingle path request).log = [.forward posted] ∧ posted.body = request.encode := by
  unfold RpcClient.forwardSingle
  split
  · exact Or.inl rfl
  · rw [log_bind, log_silent, List.nil_append, value_silent]
    cases client.tryLoad.value with
    | none => exact Or.inl rfl
    | some loaded =>
        cases loaded with
        | error error => exact Or.inl rfl
        | ok authorization =>
            simp only [Option.map_some, Option.getD_some]
            split
            · exact Or.inl rfl
            · exact Or.inr ⟨_, post_log client _, rfl⟩

theorem sendBatch_log (client : RpcClient) (path : String) (forwarded : List Placed) :
    (client.sendBatch path forwarded).log = [] ∨
      ∃ posted, (client.sendBatch path forwarded).log = [.forward posted] ∧
        posted.body = .array (forwarded.map fun key => key.2.encode) := by
  unfold RpcClient.sendBatch
  split
  · exact Or.inl rfl
  · rw [log_bind, log_silent, List.nil_append, value_silent]
    cases client.tryLoad.value with
    | none => exact Or.inl rfl
    | some loaded =>
        cases loaded with
        | error error => exact Or.inl rfl
        | ok authorization =>
            simp only [Option.map_some, Option.getD_some]
            split
            · exact Or.inl rfl
            · rename_i uri built
              let posted : Forward :=
                { uri, authorization, body := .array (forwarded.map fun key => key.2.encode) }
              refine Or.inr ⟨posted, ?_, rfl⟩
              have nothingMore : ∀ answer, (client.readReplies forwarded answer).log = [] :=
                readReplies_log client forwarded
              rw [log_bind, post_log]
              simp only [nothingMore]
              cases (client.post posted).value <;> rfl

/-! A request. -/

theorem forwardedOf_perm_left {intercept : Nat → RpcRequest → Future InternalCall Outcome} {requests : List RpcRequest}
    {completed : Completed} (settled : Settles intercept requests completed) :
    (forwardedOf completed).Perm
      ((placed requests).filter fun key => leftToBitcoind (intercept key.1 key.2).value) := by
  let left : Placed × Option Outcome → Option Placed := fun entry =>
    if leftToBitcoind entry.2 then some entry.1 else none
  have perm := settled.symm.filterMap left
  rw [List.filterMap_map, List.filterMap_map] at perm
  have forwarded : forwardedOf completed = completed.filterMap (left ∘ fun entry => (entry.1, some entry.2)) := by
    rw [forwardedOf_eq_filterMap]
    refine List.filterMap_congr fun entry _ => ?_
    obtain ⟨key, error | _ | response⟩ := entry <;> rfl
  have kept : (placed requests).filterMap (left ∘ fun key => (key, (intercept key.1 key.2).value)) =
      (placed requests).filter fun key => leftToBitcoind (intercept key.1 key.2).value := by
    rw [← List.filterMap_eq_filter]
    rfl
  rwa [forwarded, ← kept]

theorem send_postsOnce {schedule : List Nat} {calls : SingleOrBatchRpcRequest}
    {intercept : Nat → RpcRequest → Future InternalCall Outcome}
    {run : Future Effect (Except AnyhowError HttpResponse)}
    (complete : client.send schedule path calls intercept = some run) :
    PostsOnce run.log (PostedAfter intercept calls) := by
  cases calls with
  | single request =>
      simp only [RpcClient.send, Option.some.injEq] at complete
      subst complete
      rw [RpcClient.sendSingle, log_bind, log_mapEffect, value_mapEffect]
      cases isOutcome : (intercept 0 request).value with
      | none => exact postsOnce_calls _
      | some outcome =>
          rcases outcome with error | _ | response
          · exact postsOnce_calls _
          · exact postsOnce_of_start (List.prefix_refl _) (forwardSingle_log client path request)
              (.single (by rw [isOutcome]; rfl))
          · exact postsOnce_calls _
  | batch requests =>
      obtain ⟨many, isRun, rfl⟩ := Option.map_eq_some_iff.mp complete
      obtain ⟨intercepts, isIntercepts, rfl⟩ := Option.map_eq_some_iff.mp isRun
      rw [log_map, log_bind, log_mapEffect, value_mapEffect]
      rcases intercepts_end isIntercepts with ⟨completed, ends, settled⟩ | ⟨panics, _⟩
      · rw [ends]
        refine postsOnce_of_start (answerBatch_log_start client path requests completed)
          (sendBatch_log client path (forwardedOf completed)) (.batch ?_ ?_ (forwardedOf_perm_left settled))
        · exact fun key member => settled.ends member
        · have done := (forEachConcurrent_complete isIntercepts).log_perm ends
          rwa [RpcClient.interceptAll, List.flatMap_map] at done
      · rw [panics]
        exact postsOnce_calls _

end

/-- Whatever fails, panics or is refused, a call of a client is not posted a second time, and nothing is posted
before all elements have settled. -/
theorem proxyRequest_posts_once (state : State) (schedule : List Nat) (http : HttpRequest)
    (run : Future Effect (Except AnyhowError HttpResponse))
    (complete : state.proxyRequest schedule http = some run) :
    PostsOnce run.log fun before body => ∃ name user read calls, Authenticates state http name user ∧
      http.body.value = some (.ok read) ∧ state.decodeRequest read = .ok calls ∧
      PostedAfter (fun place => user.intercept (state.upstream place)) calls before body := by
  rcases proxyRequest_sends state http with ⟨answered, isNil, always⟩ | ⟨name, user, calls, sent, sends⟩
  · obtain rfl := Option.some.inj ((always schedule).symm.trans complete)
    rw [isNil]
    exact postsOnce_nil
  · obtain ⟨read, isRead, decoded⟩ := sent.calls
    rw [sends] at complete
    obtain ⟨answer, served, rfl⟩ := Option.map_eq_some_iff.mp complete
    have isLog : (http.body.silent.bind fun _ => answer).log = answer.log := by
      rw [log_bind, log_silent, List.nil_append, value_silent, isRead, Option.map_some, Option.getD_some]
    rw [isLog]
    exact (send_postsOnce served).imp fun before posted isPosted =>
      ⟨name, user, read, calls, sent.authenticates, isRead, decoded, isPosted⟩

theorem proxyRequest_posts_once_payment :
    ∃ run, paymentState.proxyRequest [] paymentHttp = some run ∧
      (forwards run.log).map Forward.body =
        [.object [("method", .string "sendtoaddress"), ("params", .array [])]] ∧
      PostsOnce run.log fun before body => ∃ name user read calls,
        Authenticates paymentState paymentHttp name user ∧ paymentHttp.body.value = some (.ok read) ∧
        paymentState.decodeRequest read = .ok calls ∧
        PostedAfter (fun place => user.intercept (paymentState.upstream place)) calls before body := by
  have bodies : ((paymentState.proxyRequest [] paymentHttp).map fun run =>
      (forwards run.log).map Forward.body) =
        some [.object [("method", .string "sendtoaddress"), ("params", .array [])]] := by
    decide +kernel
  obtain ⟨run, isRun, isBody⟩ := Option.map_eq_some_iff.mp bodies
  exact ⟨run, isRun, isBody, proxyRequest_posts_once paymentState [] paymentHttp run isRun⟩

end BtcRpcProxy
