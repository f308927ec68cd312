import BtcRpcProxy.BatchReplies

/-!
Which reply each request of a batch is handed. bitcoind's replies are paired with the
posted requests by position alone, so every reply carries here the request it was given
to, and the pairing is right exactly when that is what bitcoind leaves out of its list.
-/

namespace BtcRpcProxy

open Polled

/-- Where a reply comes from, with the place of the request it answers. A reply of
bitcoind's that answers none of the posted requests has no place. -/
inductive Origin
  | bitcoind (place : Option Nat)
  | proxy (place : Nat)
  deriving DecidableEq, Repr

namespace Origin

def answers : Origin → Option Nat
  | .bitcoind place => place
  | .proxy place => some place

def isBitcoind : Origin → Bool
  | .bitcoind _ => true
  | .proxy _ => false

end Origin

abbrev Traced := Origin × Json

abbrev NodeReplies := List (Option Nat × Json)

def traceReplies (replies : NodeReplies) : List Traced := replies.map (Prod.map Origin.bitcoind id)

def traceOwn (own : List (Nat × Json)) : List (Nat × Traced) :=
  own.map fun entry => (entry.1, (Origin.proxy entry.1, entry.2))

def delivered (completed : Completed) (replies : NodeReplies) : List Traced :=
  mergeReplies (pairReplies (forwardedOf completed) (traceReplies replies))
    (traceOwn (ownReplies completed))

def asking (requests : List RpcRequest) : List Nat :=
  ((placed requests).filter fun key => !key.2.isNotification).map Prod.fst

/-- In the position of each request that asks for a reply stands the reply to it, and
every reply of bitcoind's is handed on. -/
structure Faithful (requests : List RpcRequest) (replies : NodeReplies) (delivered : List Traced) :
    Prop where
  positions : (delivered.map fun reply => reply.1.answers) = (asking requests).map some
  handedOn : (delivered.filter fun reply => reply.1.isBitcoind).Perm (traceReplies replies)

theorem mergeReplies_map {Reply Other : Type} (f : Reply → Other) (forwarded intercepted : List (Nat × Reply)) :
    mergeReplies (forwarded.map (Prod.map id f)) (intercepted.map (Prod.map id f)) =
      (mergeReplies forwarded intercepted).map f := by
  rw [mergeReplies, mergeReplies, Keyed.sortByKey_map, Keyed.sortByKey_map, Keyed.mergeBy_map,
    List.map_map, List.map_map]
  rfl

theorem delivered_replies (completed : Completed) (replies : NodeReplies) :
    (delivered completed replies).map Prod.snd =
      mergeReplies (pairReplies (forwardedOf completed) (replies.map Prod.snd)) (ownReplies completed) := by
  have pairs : (pairReplies (forwardedOf completed) (traceReplies replies)).map (Prod.map id Prod.snd) =
      pairReplies (forwardedOf completed) (replies.map Prod.snd) := by
    rw [pairReplies, pairReplies, ← List.zip_map_right, traceReplies, List.map_map]
    rfl
  have own : (traceOwn (ownReplies completed)).map (Prod.map id Prod.snd) = ownReplies completed := by
    rw [traceOwn, List.map_map]
    exact List.map_id _
  rw [delivered, ← mergeReplies_map, pairs, own]

theorem asking_ordered (requests : List RpcRequest) : (asking requests).Pairwise (· < ·) :=
  List.pairwise_map.mpr ((placed_ordered requests).filter _)

section

variable {requests : List RpcRequest} {completed : Completed} {outcome : Nat → Option (RpcResponse Json)}

theorem asking_perm (settled : completed.Perm ((placed requests).map fun key => (key, .ok (outcome key.1)))) :
    (answered (forwardedOf completed) ++ (ownReplies completed).map Prod.fst).Perm (asking requests) := by
  let select : Placed × Outcome → Option Nat := fun entry =>
    if entry.1.2.isNotification then none else some entry.1.1
  have target : (completed.filterMap select).Perm (asking requests) := by
    have perm := settled.filterMap select
    rw [List.filterMap_map] at perm
    refine perm.trans (List.Perm.of_eq ?_)
    rw [asking, ← List.filterMap_eq_map, List.filterMap_filter]
    refine List.filterMap_congr fun key _ => ?_
    cases asks : key.2.isNotification <;> simp [select, asks]
  refine List.Perm.trans ?_ target
  rw [answered, ← List.filterMap_eq_map, List.filterMap_filter, forwardedOf_eq_filterMap,
    List.filterMap_filterMap, ownReplies_eq_filterMap, List.map_filterMap]
  refine Keyed.filterMap_append_perm _ completed fun entry member => ?_
  obtain ⟨key, isPlaced, rfl⟩ := List.mem_map.mp (settled.mem_iff.mp member)
  cases own : outcome key.1 with
  | none =>
      refine Or.inl ⟨?_, rfl⟩
      cases asks : key.2.isNotification <;> simp [select, asks]
  | some response =>
      refine Or.inr ⟨rfl, ?_⟩
      cases asks : key.2.isNotification <;> simp [select, asks]

theorem answers_of_keys (keyed : List (Nat × Traced))
    (matched : ∀ entry ∈ keyed, entry.2.1.answers = some entry.1) :
    (keyed.map fun entry => entry.2.1.answers) = (keyed.map Prod.fst).map some := by
  rw [List.map_map]
  exact List.map_congr_left matched

theorem pairReplies_enough {forwarded : List Placed} {replies : NodeReplies}
    (enough : (answered forwarded).length ≤ replies.length) :
    (pairReplies forwarded (traceReplies replies)).map Prod.fst = answered forwarded ∧
      ((pairReplies forwarded (traceReplies replies)).map fun entry => entry.2.1.answers) =
        (replies.map Prod.fst).take (answered forwarded).length := by
  have sameLength : (traceReplies replies).length = replies.length := by simp [traceReplies]
  constructor
  · exact List.map_fst_zip (sameLength ▸ enough)
  · calc ((pairReplies forwarded (traceReplies replies)).map fun entry => entry.2.1.answers)
        = ((pairReplies forwarded (traceReplies replies)).map Prod.snd).map fun reply => reply.1.answers :=
          by rw [List.map_map]; rfl
      _ = ((traceReplies replies).take (answered forwarded).length).map fun reply => reply.1.answers := by
          rw [pairReplies, Keyed.map_snd_zip_eq_take (sameLength ▸ enough)]
      _ = (replies.map Prod.fst).take (answered forwarded).length := by
          rw [List.map_take, traceReplies, List.map_map]
          rfl

theorem answers_traceOwn {own : List (Nat × Json)} {entry : Nat × Traced} (member : entry ∈ traceOwn own) :
    entry.2.1.answers = some entry.1 := by
  obtain ⟨reply, _, rfl⟩ := List.mem_map.mp member
  rfl

theorem positions_iff (settled : completed.Perm ((placed requests).map fun key => (key, .ok (outcome key.1))))
    (replies : NodeReplies) :
    ((delivered completed replies).map fun reply => reply.1.answers) = (asking requests).map some ↔
      (answered (forwardedOf completed)).map some <+: replies.map Prod.fst := by
  let pairs := pairReplies (forwardedOf completed) (traceReplies replies)
  let own := traceOwn (ownReplies completed)
  let merged := Keyed.mergeBy Keyed.keyBefore (Keyed.sortByKey pairs) (Keyed.sortByKey own)
  have isDelivered : (delivered completed replies).map (fun reply => reply.1.answers) =
      merged.map fun entry => entry.2.1.answers := List.map_map
  have mergedPerm : merged.Perm (pairs ++ own) := Keyed.mergeBy_sortByKey_perm pairs own
  have ownKeys : own.map Prod.fst = (ownReplies completed).map Prod.fst := List.map_map
  have askingPerm := asking_perm settled
  rw [← ownKeys] at askingPerm
  have mergedKeys : pairs.map Prod.fst = answered (forwardedOf completed) →
      merged.map Prod.fst = asking requests := by
    intro pairKeys
    refine Keyed.mergeBy_sortByKey_keys (asking_ordered requests) ?_
    rw [List.map_append, pairKeys]
    exact askingPerm
  rw [isDelivered]
  constructor
  · intro positions
    have lengths := congrArg List.length positions
    have askingLength := askingPerm.length_eq
    have pairsLength : pairs.length = min (answered (forwardedOf completed)).length replies.length := by
      simp [pairs, pairReplies, traceReplies]
    simp only [List.length_map, List.length_append, mergedPerm.length_eq] at lengths askingLength
    have enough : (answered (forwardedOf completed)).length ≤ replies.length := by omega
    obtain ⟨pairKeys, pairAnswers⟩ := pairReplies_enough enough
    rw [← mergedKeys pairKeys, List.map_map] at positions
    have pairMatched := answers_of_keys pairs fun entry member =>
      List.map_inj_left.mp positions entry (mergedPerm.mem_iff.mpr (List.mem_append_left own member))
    rw [pairAnswers, pairKeys] at pairMatched
    rw [← pairMatched]
    exact List.take_prefix _ _
  · intro isPrefix
    have enough : (answered (forwardedOf completed)).length ≤ replies.length := by
      simpa using isPrefix.length_le
    obtain ⟨pairKeys, pairAnswers⟩ := pairReplies_enough enough
    have cut := List.prefix_iff_eq_take.mp isPrefix
    rw [List.length_map] at cut
    rw [← cut, ← pairKeys, List.map_map] at pairAnswers
    rw [← mergedKeys pairKeys]
    refine answers_of_keys _ fun entry member => ?_
    rcases List.mem_append.mp (mergedPerm.mem_iff.mp member) with fromNode | fromProxy
    · exact List.map_inj_left.mp pairAnswers entry fromNode
    · exact answers_traceOwn fromProxy

theorem handedOn_iff (completed : Completed) (replies : NodeReplies) :
    ((delivered completed replies).filter fun reply => reply.1.isBitcoind).Perm (traceReplies replies) ↔
      replies.length ≤ (answered (forwardedOf completed)).length := by
  let pairs := pairReplies (forwardedOf completed) (traceReplies replies)
  let own := traceOwn (ownReplies completed)
  have deliveredPerm : (delivered completed replies).Perm (pairs.map Prod.snd ++ own.map Prod.snd) := by
    rw [← List.map_append]
    exact (Keyed.mergeBy_sortByKey_perm pairs own).map Prod.snd
  have noneOwn : (own.map Prod.snd).filter (fun reply => reply.1.isBitcoind) = [] := by
    rw [List.filter_eq_nil_iff]
    intro reply member
    obtain ⟨entry, isOwn, rfl⟩ := List.mem_map.mp member
    obtain ⟨origin, _, rfl⟩ := List.mem_map.mp isOwn
    simp [Origin.isBitcoind]
  have allPairs : (pairs.map Prod.snd).filter (fun reply => reply.1.isBitcoind) = pairs.map Prod.snd := by
    rw [List.filter_eq_self]
    intro reply member
    obtain ⟨entry, isPair, rfl⟩ := List.mem_map.mp member
    obtain ⟨origin, _, isOrigin⟩ := List.mem_map.mp (List.of_mem_zip isPair).2
    rw [← isOrigin]
    rfl
  have filtered := deliveredPerm.filter fun reply => reply.1.isBitcoind
  rw [List.filter_append, noneOwn, allPairs, List.append_nil] at filtered
  constructor
  · intro perm
    have lengths := (filtered.symm.trans perm).length_eq
    simp only [pairs, pairReplies, traceReplies, List.length_map, List.length_zip] at lengths
    omega
  · intro atMost
    have all : pairs.map Prod.snd = traceReplies replies := by
      refine List.map_snd_zip ?_
      simpa [traceReplies] using atMost
    exact all ▸ filtered

theorem faithful_iff (settled : completed.Perm ((placed requests).map fun key => (key, .ok (outcome key.1))))
    (replies : NodeReplies) :
    Faithful requests replies (delivered completed replies) ↔
      replies.map Prod.fst = (answered (forwardedOf completed)).map some := by
  constructor
  · intro faithful
    have isPrefix := (positions_iff settled replies).mp faithful.positions
    have atMost := (handedOn_iff completed replies).mp faithful.handedOn
    exact (isPrefix.eq_of_length_le (by simpa using atMost)).symm
  · intro same
    refine ⟨(positions_iff settled replies).mpr (same ▸ List.prefix_refl _), ?_⟩
    have lengths := congrArg List.length same
    simp only [List.length_map] at lengths
    exact (handedOn_iff completed replies).mpr (Nat.le_of_eq lengths)

end

def Upheld (requests : List RpcRequest) (completed : Completed) (replies : NodeReplies)
    (response : HttpResponse) : Prop :=
  (∃ error, response = (RpcResponse.ofError error).intoResponse) ∨
    (response = batchAnswer requests ((delivered completed replies).map Prod.snd) ∧
      Faithful requests replies (delivered completed replies))

def Upholds (schedule : List Nat) (requests : List RpcRequest)
    (intercept : Nat → RpcRequest → Future InternalCall Outcome) (replies : List Placed → NodeReplies)
    (run : Future Effect (Except AnyhowError HttpResponse)) : Prop :=
  ∃ completed response, completedOf schedule requests intercept = some completed ∧
    run.value = some (.ok response) ∧ Upheld requests completed (replies (forwardedOf completed)) response

def RpcClient.AnswersWith (client : RpcClient) (replies : List Placed → NodeReplies) : Prop :=
  ∀ uri authorization forwarded, ∃ response,
    (client.request (batchForward uri authorization forwarded)).value = some (.ok response) ∧
      response.Carries ((replies forwarded).map Prod.snd)

section

variable {client : RpcClient} {path uri : String} {authorization : HeaderValue}
  {requests : List RpcRequest} {completed : Completed} {replies : List Placed → NodeReplies}

theorem answerBatch_posted (requests : List RpcRequest) (reaches : client.Reaches path uri authorization)
    {posted : Forward} (member : posted ∈ forwards (client.answerBatch path requests completed).log) :
    posted = batchForward uri authorization (forwardedOf completed) := by
  have sent := (answerBatch_log_start client path requests completed).subset (mem_forwards.mp member)
  rw [← mem_forwards, sendBatch_forwards reaches] at sent
  exact List.mem_singleton.mp sent

theorem answerBatch_upheld_iff (reaches : client.Reaches path uri authorization)
    (answers : client.AnswersWith replies) {outcome : Nat → Option (RpcResponse Json)}
    (settled : completed.Perm ((placed requests).map fun key => (key, .ok (outcome key.1)))) :
    ∃ response, (client.answerBatch path requests completed).value = some response ∧
      (Upheld requests completed (replies (forwardedOf completed)) response ↔
        (replies (forwardedOf completed)).map Prod.fst = (answered (forwardedOf completed)).map some) := by
  obtain ⟨response, isResponse, carries⟩ := answers uri authorization (forwardedOf completed)
  have collected := tryCollect_intercepted completed fun entry member => by
    obtain ⟨key, _, rfl⟩ := List.mem_map.mp (settled.mem_iff.mp member)
    exact ⟨_, rfl⟩
  have isAnswer := answerBatch_value requests reaches collected isResponse carries
  rw [← delivered_replies] at isAnswer
  refine ⟨_, isAnswer, ?_⟩
  rw [← faithful_iff settled]
  constructor
  · rintro (⟨error, isError⟩ | ⟨_, faithful⟩)
    · exact absurd isError (batchAnswer_ne_error _ _ error)
    · exact faithful
  · intro faithful
    exact Or.inr ⟨rfl, faithful⟩

end

/-- No intercept panics, and one of them fails or bitcoind's list is the replies to the
posted requests that ask for one, in order: then, and only then, is a batch answered by an
error or faithfully. -/
theorem send_batch_upheld_iff {client : RpcClient} {path uri : String} {authorization : HeaderValue}
    {schedule : List Nat} {requests : List RpcRequest}
    {intercept : Nat → RpcRequest → Future InternalCall Outcome} {replies : List Placed → NodeReplies}
    {run : Future Effect (Except AnyhowError HttpResponse)}
    (reaches : client.Reaches path uri authorization) (answers : client.AnswersWith replies)
    (complete : client.send schedule path (.batch requests) intercept = some run) :
    (∀ completed, completedOf schedule requests intercept = some completed →
      Settles intercept requests completed ∧
        ∀ posted ∈ forwards run.log, posted = batchForward uri authorization (forwardedOf completed)) ∧
    (Upholds schedule requests intercept replies run ↔
      (∀ key ∈ placed requests, (intercept key.1 key.2).value ≠ none) ∧
        ((∃ key ∈ placed requests, ∃ error, (intercept key.1 key.2).value = some (.error error)) ∨
          ∀ completed, completedOf schedule requests intercept = some completed →
            (replies (forwardedOf completed)).map Prod.fst =
              (answered (forwardedOf completed)).map some)) := by
  obtain ⟨many, isMany, rfl⟩ := Option.map_eq_some_iff.mp complete
  rcases sendMany_run isMany with
    ⟨completed, isCompleted, settled, isValue, isLog⟩ | ⟨isCompleted, isNone, _, key, member, panics⟩
  · refine ⟨?_, ?_⟩
    · intro other same
      obtain rfl := Option.some.inj (isCompleted.symm.trans same)
      rw [Future.log_map, isLog]
      exact ⟨settled, fun posted member => answerBatch_posted requests reaches member⟩
    have noPanic : ∀ key ∈ placed requests, (intercept key.1 key.2).value ≠ none := by
      intro key member isNone
      obtain ⟨outcome, ends⟩ := settled.ends member
      simp [isNone] at ends
    by_cases fails : ∃ key ∈ placed requests, ∃ error, (intercept key.1 key.2).value = some (.error error)
    · obtain ⟨key, member, error, failed⟩ := fails
      obtain ⟨response, isResponse, carries⟩ := answers uri authorization (forwardedOf completed)
      obtain ⟨joined, isJoined⟩ :=
        answerBatch_rejected requests reaches isResponse carries (settled.of_placed member failed) rfl
      refine iff_of_true ⟨completed, _, isCompleted, ?_, Or.inl ⟨joined, rfl⟩⟩
        ⟨noPanic, Or.inl ⟨key, member, error, failed⟩⟩
      rw [Future.value_map, isValue, isJoined]
      rfl
    · have noErrors : ∀ key ∈ placed requests, ∃ own, (intercept key.1 key.2).value = some (.ok own) := by
        intro key member
        obtain ⟨error | own, ends⟩ := settled.ends member
        · exact absurd ⟨key, member, error, ends⟩ fails
        · exact ⟨own, ends⟩
      obtain ⟨own, isOwn⟩ := exists_by_place noErrors
      obtain ⟨response, isResponse, upheld⟩ :=
        answerBatch_upheld_iff reaches answers (settled.perm (fun place => .ok (own place)) isOwn)
      have answered : (many.map Except.ok).value = some (.ok response : Except AnyhowError HttpResponse) := by
        rw [Future.value_map, isValue, isResponse]
        rfl
      constructor
      · rintro ⟨other, delivered, sameRun, isDelivered, holds⟩
        obtain rfl := Option.some.inj (isCompleted.symm.trans sameRun)
        obtain rfl := Except.ok.inj (Option.some.inj (answered.symm.trans isDelivered))
        refine ⟨noPanic, Or.inr fun other same => ?_⟩
        obtain rfl := Option.some.inj (isCompleted.symm.trans same)
        exact upheld.mp holds
      · rintro ⟨_, failed | fits⟩
        · exact absurd failed fails
        · exact ⟨completed, response, isCompleted, answered, upheld.mpr (fits completed isCompleted)⟩
  · refine ⟨fun completed same => by simp [isCompleted] at same, iff_of_false ?_ ?_⟩
    · rintro ⟨completed, response, same, _⟩
      simp [isCompleted] at same
    · rintro ⟨noPanic, _⟩
      exact noPanic key member panics

/-! A node older than the one that leaves notifications out. -/

def olderNode : RpcClient :=
  nodeAnswering fun body =>
    match body with
    | .array items => listResponse (items.map echo)
    | item => HttpResponse.ofJson HttpResponse.statusOk (echo item)

def olderReplies (forwarded : List Placed) : NodeReplies :=
  forwarded.map fun key => (some key.1, echo key.2.encode)

theorem olderNode_answersWith : olderNode.AnswersWith olderReplies := by
  intro uri authorization forwarded
  refine ⟨_, rfl, ?_⟩
  have same : (olderReplies forwarded).map Prod.snd =
      (forwarded.map fun entry => entry.2.encode).map echo := by
    rw [olderReplies, List.map_map, List.map_map]
    rfl
  rw [same]
  exact listResponse_carries _

def notification : RpcRequest :=
  { jsonrpc := some (.string "2.0"), id := none, method := "ping", params := .array [] }

def countRequest : RpcRequest :=
  { jsonrpc := some (.string "2.0"), id := some (.string "b"), method := "getblockcount", params := .array [] }

def forwardAll (_ : Nat) (_ : RpcRequest) : Future InternalCall Outcome := Future.pure (.ok none)

/-- The call is handed the reply to the notification before it. -/
theorem older_node_reply_misplaced :
    ∃ run, olderNode.send [0, 0] "/" (.batch [notification, countRequest]) forwardAll = some run ∧
      run.value = some (.ok (HttpResponse.ofJson HttpResponse.statusOk
        (.array [echo notification.encode]))) ∧
      ¬Upholds [0, 0] [notification, countRequest] forwardAll olderReplies run := by
  refine ⟨_, rfl, rfl, ?_⟩
  rintro ⟨completed, response, isCompleted, isValue, upheld⟩
  obtain rfl : [((0, notification), .ok none), ((1, countRequest), .ok none)] = completed :=
    Option.some.inj isCompleted
  obtain rfl : HttpResponse.ofJson HttpResponse.statusOk (.array [echo notification.encode]) = response :=
    Except.ok.inj (Option.some.inj isValue)
  rcases upheld with ⟨error, isError⟩ | ⟨_, faithful⟩
  · exact batchAnswer_ne_error [notification, countRequest] [echo notification.encode] error isError
  · exact absurd faithful.positions (by decide)

theorem send_batch_upheld_calls :
    ∃ run, olderNode.send [0, 0] "/" (.batch [countRequest, countRequest]) forwardAll = some run ∧
      Upholds [0, 0] [countRequest, countRequest] forwardAll olderReplies run := by
  have reaches : olderNode.Reaches "/" "/" [] := ⟨⟨"/", rfl, rfl⟩, rfl⟩
  have complete : olderNode.send [0, 0] "/" (.batch [countRequest, countRequest]) forwardAll = some _ := rfl
  refine ⟨_, complete, (send_batch_upheld_iff reaches olderNode_answersWith complete).2.mpr
    ⟨fun key _ => by simp [forwardAll], Or.inr fun completed isCompleted => ?_⟩⟩
  obtain rfl : [((0, countRequest), .ok none), ((1, countRequest), .ok none)] = completed :=
    Option.some.inj isCompleted
  rfl

end BtcRpcProxy
