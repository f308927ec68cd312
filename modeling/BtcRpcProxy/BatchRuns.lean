import BtcRpcProxy.SendCore

/-!
What a complete run of a batch comes to: every intercept has settled, in some order,
before anything is posted, and the response is made of what they settled on.
-/

namespace BtcRpcProxy

open Polled

def forwards (log : List Effect) : List Forward :=
  log.filterMap fun effect =>
    match effect with
    | .forward posted => some posted
    | .internal _ => none

@[simp] theorem forwards_nil : forwards [] = [] := rfl

@[simp] theorem forwards_append (first second : List Effect) :
    forwards (first ++ second) = forwards first ++ forwards second :=
  List.filterMap_append

@[simp] theorem forwards_internal (calls : List InternalCall) :
    forwards (calls.map Effect.internal) = [] := by
  rw [forwards, List.filterMap_map]
  exact List.filterMap_eq_nil_iff.mpr fun _ _ => rfl

theorem mem_forwards {posted : Forward} {log : List Effect} :
    posted ∈ forwards log ↔ Effect.forward posted ∈ log := by
  rw [forwards, List.mem_filterMap]
  constructor
  · rintro ⟨effect, member, isPosted⟩
    cases effect with
    | forward other =>
        simp only [Option.some.injEq] at isPosted
        exact isPosted ▸ member
    | internal call => simp at isPosted
  · intro member
    exact ⟨_, member, rfl⟩

theorem placed_keys (requests : List RpcRequest) :
    (placed requests).map Prod.fst = List.range requests.length := by
  rw [placed, List.map_map, List.range_eq_range']
  exact List.zipIdx_map_snd 0 requests

theorem placed_ordered (requests : List RpcRequest) :
    (placed requests).Pairwise fun first second => first.1 < second.1 := by
  have ordered := @List.pairwise_lt_range requests.length
  rw [← placed_keys, List.pairwise_map] at ordered
  exact ordered

theorem placed_keys_nodup (requests : List RpcRequest) : ((placed requests).map Prod.fst).Nodup := by
  rw [placed_keys]
  exact List.nodup_range

theorem placed_requests (requests : List RpcRequest) : (placed requests).map Prod.snd = requests := by
  rw [placed, List.map_map]
  exact List.zipIdx_map_fst 0 requests

theorem mem_of_placed {requests : List RpcRequest} {key : Placed} (member : key ∈ placed requests) :
    key.2 ∈ requests := by
  rw [← placed_requests requests]
  exact List.mem_map_of_mem member

theorem exists_placed {requests : List RpcRequest} {request : RpcRequest} (member : request ∈ requests) :
    ∃ key ∈ placed requests, key.2 = request := by
  rw [← placed_requests requests] at member
  exact List.mem_map.mp member

theorem placed_getElem {requests : List RpcRequest} {key : Placed} (member : key ∈ placed requests) :
    requests[key.1]? = some key.2 := by
  obtain ⟨entry, isEntry, rfl⟩ := List.mem_map.mp member
  exact List.mem_zipIdx_iff_getElem?.mp isEntry

theorem exists_by_place {Value : Type} [Inhabited Value] {requests : List RpcRequest}
    {holds : Placed → Value → Prop} (each : ∀ key ∈ placed requests, ∃ value, holds key value) :
    ∃ valueAt : Nat → Value, ∀ key ∈ placed requests, holds key (valueAt key.1) := by
  choose! value isValue using each
  refine ⟨fun place => ((requests[place]?).map fun request => value (place, request)).getD default, ?_⟩
  intro key member
  simpa [placed_getElem member] using isValue key member

/-- `completed` holds what every element's intercept settled on, in the order in which
they did. -/
def Settles (intercept : Nat → RpcRequest → Future InternalCall Outcome) (requests : List RpcRequest)
    (completed : Completed) : Prop :=
  ((placed requests).map fun key => (key, (intercept key.1 key.2).value)).Perm
    (completed.map fun entry => (entry.1, some entry.2))

theorem Settles.keys {intercept : Nat → RpcRequest → Future InternalCall Outcome}
    {requests : List RpcRequest} {completed : Completed} (settles : Settles intercept requests completed) :
    (completed.map Prod.fst).Perm (placed requests) := by
  have keys := (settles.map Prod.fst).symm
  simpa [List.map_map, Function.comp_def] using keys

theorem Settles.outcome {intercept : Nat → RpcRequest → Future InternalCall Outcome}
    {requests : List RpcRequest} {completed : Completed} (settles : Settles intercept requests completed)
    {entry : Placed × Outcome} (member : entry ∈ completed) :
    entry.1 ∈ placed requests ∧ (intercept entry.1.1 entry.1.2).value = some entry.2 := by
  have listed := settles.symm.mem_iff.mp (List.mem_map.mpr ⟨entry, member, rfl⟩)
  obtain ⟨key, isPlaced, same⟩ := List.mem_map.mp listed
  simp only [Prod.mk.injEq] at same
  exact ⟨same.1 ▸ isPlaced, same.1 ▸ same.2⟩

theorem Settles.of_placed {intercept : Nat → RpcRequest → Future InternalCall Outcome}
    {requests : List RpcRequest} {completed : Completed} (settles : Settles intercept requests completed)
    {key : Placed} (member : key ∈ placed requests) {outcome : Outcome}
    (ends : (intercept key.1 key.2).value = some outcome) : (key, outcome) ∈ completed := by
  have listed := settles.mem_iff.mp (List.mem_map.mpr ⟨key, member, rfl⟩)
  obtain ⟨entry, isEntry, same⟩ := List.mem_map.mp listed
  simp only [ends, Prod.mk.injEq, Option.some.injEq] at same
  have isPair : entry = (key, outcome) := Prod.ext same.1 same.2
  exact isPair ▸ isEntry

theorem Settles.ends {intercept : Nat → RpcRequest → Future InternalCall Outcome}
    {requests : List RpcRequest} {completed : Completed} (settles : Settles intercept requests completed)
    {key : Placed} (member : key ∈ placed requests) :
    ∃ outcome, (intercept key.1 key.2).value = some outcome := by
  have listed := settles.mem_iff.mp (List.mem_map.mpr ⟨key, member, rfl⟩)
  obtain ⟨entry, _, same⟩ := List.mem_map.mp listed
  exact ⟨entry.2, (Prod.mk.inj same).2.symm⟩

theorem Settles.perm {intercept : Nat → RpcRequest → Future InternalCall Outcome}
    {requests : List RpcRequest} {completed : Completed} (settles : Settles intercept requests completed)
    (outcome : Nat → Outcome)
    (ends : ∀ key ∈ placed requests, (intercept key.1 key.2).value = some (outcome key.1)) :
    completed.Perm ((placed requests).map fun key => (key, outcome key.1)) := by
  have known : ((placed requests).map fun key => (key, (intercept key.1 key.2).value)) =
      ((placed requests).map fun key => (key, outcome key.1)).map fun entry => (entry.1, some entry.2) := by
    rw [List.map_map]
    exact List.map_congr_left fun key member => by simp [ends key member]
  have injective : Function.Injective fun entry : Placed × Outcome => (entry.1, some entry.2) := by
    intro first second same
    simp only [Prod.mk.injEq, Option.some.injEq] at same
    exact Prod.ext same.1 same.2
  exact ((List.map_perm_map_iff injective).mp (known ▸ settles)).symm

/-- What the intercepts of a batch settle on, in the order in which they do; nothing where
one of them panics. -/
def completedOf (schedule : List Nat) (requests : List RpcRequest)
    (intercept : Nat → RpcRequest → Future InternalCall Outcome) : Option Completed :=
  (Future.forEachConcurrent schedule (RpcClient.interceptAll intercept requests)).bind Future.value

theorem intercepts_end {schedule : List Nat} {requests : List RpcRequest}
    {intercept : Nat → RpcRequest → Future InternalCall Outcome} {intercepts : Future InternalCall Completed}
    (complete : Future.forEachConcurrent schedule (RpcClient.interceptAll intercept requests) = some intercepts) :
    (∃ completed, intercepts.value = some completed ∧ Settles intercept requests completed) ∨
      (intercepts.value = none ∧ ∃ key ∈ placed requests, (intercept key.1 key.2).value = none) := by
  rcases (Future.forEachConcurrent_complete complete).value with
    ⟨completed, ends, perm⟩ | ⟨panics, entry, member, isNone⟩
  · refine Or.inl ⟨completed, ends, ?_⟩
    simpa [Settles, Future.results, RpcClient.interceptAll, Function.comp_def] using perm
  · obtain ⟨key, isPlaced, rfl⟩ := List.mem_map.mp member
    exact Or.inr ⟨panics, key, isPlaced, isNone⟩

/-- A complete run of a batch is the answer to what its intercepts settled on, after
calls that only the proxy makes for itself; or an intercept panics and nothing is posted. -/
theorem sendMany_run {client : RpcClient} {schedule : List Nat} {path : String}
    {requests : List RpcRequest} {intercept : Nat → RpcRequest → Future InternalCall Outcome}
    {run : Future Effect HttpResponse}
    (complete : client.sendMany schedule path requests intercept = some run) :
    (∃ completed, completedOf schedule requests intercept = some completed ∧
      Settles intercept requests completed ∧
      run.value = (client.answerBatch path requests completed).value ∧
      forwards run.log = forwards (client.answerBatch path requests completed).log) ∨
    (completedOf schedule requests intercept = none ∧ run.value = none ∧ forwards run.log = [] ∧
      ∃ key ∈ placed requests, (intercept key.1 key.2).value = none) := by
  obtain ⟨intercepts, isRun, rfl⟩ := Option.map_eq_some_iff.mp complete
  rw [completedOf, isRun, Option.bind_some]
  rcases intercepts_end isRun with ⟨completed, ends, settled⟩ | ⟨panics, panicking⟩
  · exact Or.inl ⟨completed, ends, settled, by simp [ends], by simp [Future.log_bind, ends]⟩
  · exact Or.inr ⟨panics, by simp [panics], by simp [Future.log_bind, panics], panicking⟩

/-! Posting the forwarded part. -/

def batchForward (uri : String) (authorization : HeaderValue) (forwarded : List Placed) : Forward :=
  { uri, authorization, body := .array (forwarded.map fun entry => entry.2.encode) }

structure RpcClient.Reaches (client : RpcClient) (path uri : String) (authorization : HeaderValue) :
    Prop where
  located : ∃ pathAndQuery, client.parsePath path = .ok pathAndQuery ∧
    client.fromParts pathAndQuery = .ok uri
  loaded : client.tryLoad.value = some (.ok authorization)

@[simp] theorem post_value (client : RpcClient) (posted : Forward) :
    (client.post posted).value = (client.request posted).value := by
  simp [RpcClient.post]

@[simp] theorem post_log (client : RpcClient) (posted : Forward) :
    (client.post posted).log = [.forward posted] := by
  simp [RpcClient.post]

theorem readReplies_log (client : RpcClient) (forwarded : List Placed)
    (answer : Except AnyhowError HttpResponse) : (client.readReplies forwarded answer).log = [] := by
  unfold RpcClient.readReplies
  split
  · rfl
  · split <;> simp

section

variable {client : RpcClient} {path uri : String} {authorization : HeaderValue}

theorem sendBatch_value (reaches : client.Reaches path uri authorization) (forwarded : List Placed) :
    (client.sendBatch path forwarded).value =
      (client.request (batchForward uri authorization forwarded)).value.bind fun answer =>
        (client.readReplies forwarded answer).value := by
  obtain ⟨pathAndQuery, parsed, built⟩ := reaches.located
  simp only [RpcClient.sendBatch, parsed, Future.value_bind, Future.value_silent, reaches.loaded,
    Option.bind_some, built, post_value, batchForward]

theorem sendBatch_forwards (reaches : client.Reaches path uri authorization) (forwarded : List Placed) :
    forwards (client.sendBatch path forwarded).log = [batchForward uri authorization forwarded] := by
  obtain ⟨pathAndQuery, parsed, built⟩ := reaches.located
  have nothingMore : ∀ answer, (client.readReplies forwarded answer).log = [] :=
    readReplies_log client forwarded
  simp only [RpcClient.sendBatch, parsed, Future.log_bind, Future.log_silent, Future.value_silent,
    reaches.loaded, Option.map_some, Option.getD_some, built, post_log, post_value, nothingMore,
    batchForward, List.nil_append, forwards_append]
  cases (client.request _).value <;> rfl

end

/-! Putting the answer together. -/

def ownReplies : Completed → List (Nat × Json)
  | [] => []
  | (_, .ok none) :: rest => ownReplies rest
  | ((index, request), .ok (some response)) :: rest =>
      if request.isNotification then ownReplies rest
      else (index, response.intoReply request) :: ownReplies rest
  | (_, .error _) :: rest => ownReplies rest

theorem tryCollect_intercepted (completed : Completed)
    (noErrors : ∀ entry ∈ completed, ∃ response, entry.2 = .ok response) :
    tryCollect (interceptedOf completed) = .ok (ownReplies completed) := by
  induction completed with
  | nil => rfl
  | cons entry rest ih =>
      have later := ih fun other member => noErrors other (List.mem_cons_of_mem entry member)
      obtain ⟨response, isOk⟩ := noErrors entry List.mem_cons_self
      obtain ⟨⟨index, request⟩, outcome⟩ := entry
      simp only at isOk
      subst isOk
      cases response with
      | none => simpa [interceptedOf, ownReplies] using later
      | some response =>
          simp only [interceptedOf, ownReplies]
          split
          · exact later
          · simp [tryCollect, later, Except.map]

def failureOf : Outcome → Option RpcError
  | .error error => some error
  | .ok _ => none

theorem tryCollect_interceptedOf (completed : Completed) :
    tryCollect (interceptedOf completed) =
      match (completed.filterMap fun entry => failureOf entry.2).head? with
      | some error => .error error
      | none => .ok (ownReplies completed) := by
  induction completed with
  | nil => rfl
  | cons entry rest ih =>
      obtain ⟨⟨index, request⟩, error | _ | response⟩ := entry
      · rfl
      · simpa [interceptedOf, ownReplies, failureOf] using ih
      · cases asks : request.isNotification with
        | true => simpa [interceptedOf, ownReplies, failureOf, asks] using ih
        | false =>
            simp only [interceptedOf, ownReplies, asks, failureOf, Bool.false_eq_true, if_false, tryCollect, ih,
              List.filterMap_cons]
            split <;> rfl

theorem tryCollect_error {completed : Completed} {entry : Placed × Outcome} {error : RpcError}
    (member : entry ∈ completed) (failed : entry.2 = .error error) :
    ∃ first, tryCollect (interceptedOf completed) = .error first ∧
      ∃ key, (key, .error first) ∈ completed := by
  induction completed with
  | nil => simp at member
  | cons head rest ih =>
      obtain ⟨⟨index, request⟩, outcome⟩ := head
      cases outcome with
      | error first => exact ⟨first, rfl, _, List.mem_cons_self⟩
      | ok response =>
          have inRest : entry ∈ rest := by
            rcases List.mem_cons.mp member with same | later
            · simp [same] at failed
            · exact later
          obtain ⟨first, isFirst, key, origin⟩ := ih inRest
          refine ⟨first, ?_, key, List.mem_cons_of_mem _ origin⟩
          cases response with
          | none => simpa [interceptedOf] using isFirst
          | some response =>
              simp only [interceptedOf]
              split
              · exact isFirst
              · simp [tryCollect, isFirst, Except.map]

/-- Where the whole first poll of `sendBatch` ends in a posted batch: nothing fails before,
and the credentials are there at once. -/
def RpcClient.postsAtOnce (client : RpcClient) (path : String) : Option (String × HeaderValue) :=
  match client.parsePath path, client.tryLoad.firstValue with
  | .ok pathAndQuery, some (.ok authorization) =>
      match client.fromParts pathAndQuery with
      | .ok uri => some (uri, authorization)
      | .error _ => none
  | _, _ => none

theorem sendBatch_firstLog (client : RpcClient) (path : String) (forwarded : List Placed) :
    forwards (client.sendBatch path forwarded).firstLog =
      ((client.postsAtOnce path).map fun target =>
        batchForward target.1 target.2 forwarded).toList := by
  have postedOnly : ∀ posted, forwards ((client.post posted).bind
      (client.readReplies forwarded)).firstLog = [posted] := by
    intro posted
    have later : ∀ answer, (client.readReplies forwarded answer).firstLog = [] := fun answer =>
      List.prefix_nil.mp (readReplies_log client forwarded answer ▸ Future.firstLog_prefix _)
    rw [Future.firstLog_bind]
    simp only [RpcClient.post, Future.firstLog_emit, Future.firstLog_silent, later]
    cases ((client.request posted).silent.emit [Effect.forward posted]).firstValue <;> rfl
  unfold RpcClient.sendBatch RpcClient.postsAtOnce
  cases client.parsePath path with
  | error error => rfl
  | ok pathAndQuery =>
      simp only [Future.firstLog_bind, Future.firstLog_silent, Future.firstValue_silent,
        List.nil_append]
      cases client.tryLoad.firstValue with
      | none => rfl
      | some loaded =>
          cases loaded with
          | error error => rfl
          | ok authorization =>
              cases built : client.fromParts pathAndQuery with
              | error error => simp [built, Future.firstLog, Future.pure]
              | ok uri =>
                  have posted := postedOnly (batchForward uri authorization forwarded)
                  simpa [built, batchForward] using posted

/-- A failed element ends `try_join!` after the first poll of `sendBatch`. -/
theorem answerBatch_log_of_error {client : RpcClient} {path : String} {requests : List RpcRequest}
    {completed : Completed} {entry : Placed × Outcome} {error : RpcError} (member : entry ∈ completed)
    (failed : entry.2 = .error error) :
    (client.answerBatch path requests completed).log =
      (client.sendBatch path (forwardedOf completed)).firstLog := by
  obtain ⟨first, isFirst, _⟩ := tryCollect_error member failed
  rw [RpcClient.answerBatch, Future.log_map, isFirst]
  exact Future.log_tryJoin_error _ first

theorem answerBatch_log_start (client : RpcClient) (path : String) (requests : List RpcRequest)
    (completed : Completed) :
    (client.answerBatch path requests completed).log <+: (client.sendBatch path (forwardedOf completed)).log := by
  rw [RpcClient.answerBatch, Future.log_map]
  cases tryCollect (interceptedOf completed) with
  | error error =>
      have cut : (Future.tryJoin (client.sendBatch path (forwardedOf completed)) (.ready [] (.error error) :
          Future Effect (Except RpcError (List (Nat × Json))))).log = _ := Future.log_tryJoin_error _ error
      exact cut ▸ Future.firstLog_prefix _
  | ok collected =>
      have whole := Future.log_tryJoin_ok (client.sendBatch path (forwardedOf completed)) collected
      exact whole ▸ List.prefix_refl _

theorem answerBatch_error {client : RpcClient} {path : String} (requests : List RpcRequest)
    {completed : Completed} {entry : Placed × Outcome} {error : RpcError}
    {sent : Except RpcError (List (Nat × Json))}
    (ends : (client.sendBatch path (forwardedOf completed)).value = some sent)
    (member : entry ∈ completed) (failed : entry.2 = .error error) :
    ∃ joined, (client.answerBatch path requests completed).value =
      some ((RpcResponse.ofError joined).intoResponse) := by
  obtain ⟨first, isFirst, _⟩ := tryCollect_error member failed
  rcases Future.tryJoin_value ends (Future.value_pure (tryCollect (interceptedOf completed))) with
    ⟨_, _, _, isOk, _⟩ | ⟨joined, _, isJoined⟩
  · rw [isFirst] at isOk
    simp at isOk
  · exact ⟨joined, by rw [RpcClient.answerBatch, Future.value_map, isJoined]; rfl⟩

theorem batchAnswer_ne_error (requests : List RpcRequest) (replies : List Json) (error : RpcError) :
    batchAnswer requests replies ≠ (RpcResponse.ofError error).intoResponse := by
  intro same
  have bodies := congrArg HttpResponse.body same
  simp only [batchAnswer, RpcResponse.ofError, RpcResponse.intoResponse, RpcResponse.encode] at bodies
  split at bodies <;> simp [HttpResponse.ofEmpty, HttpResponse.ofJson, Future.pure] at bodies

theorem forwardedOf_eq_filterMap (completed : Completed) :
    forwardedOf completed = completed.filterMap fun entry =>
      match entry.2 with
      | .ok none => some entry.1
      | _ => none := by
  induction completed with
  | nil => rfl
  | cons entry rest ih =>
      obtain ⟨key, outcome⟩ := entry
      rcases outcome with error | response
      · simpa [forwardedOf] using ih
      · cases response <;> simpa [forwardedOf] using ih

theorem ownReplies_eq_filterMap (completed : Completed) :
    ownReplies completed = completed.filterMap fun entry =>
      match entry.2 with
      | .ok (some response) =>
          if entry.1.2.isNotification then none
          else some (entry.1.1, response.intoReply entry.1.2)
      | _ => none := by
  induction completed with
  | nil => rfl
  | cons entry rest ih =>
      obtain ⟨⟨index, request⟩, outcome⟩ := entry
      rcases outcome with error | response
      · simpa [ownReplies] using ih
      · cases response with
        | none => simpa [ownReplies] using ih
        | some response => cases asks : request.isNotification <;> simpa [ownReplies, asks] using ih

end BtcRpcProxy
