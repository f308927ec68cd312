import BtcRpcProxy.BatchRuns
import BtcRpcProxy.InterceptOutcomes

/-!
Batches with a refused call. The refusal reaches `try_join!` behind the first poll of
`sendBatch`, so whatever can be posted within that poll has been posted by then.
-/

namespace BtcRpcProxy

open Polled

def postedElements (log : List Effect) : List Json :=
  (forwards log).flatMap fun posted =>
    match posted.body with
    | .array elements => elements
    | element => [element]

theorem forwardedOf_eq_nil_iff {user : User} {upstream : Nat → Upstream} {requests : List RpcRequest}
    {completed : Completed}
    (settled : Settles (fun place => user.intercept (upstream place)) requests completed) :
    forwardedOf completed = [] ↔ ∀ request ∈ requests, user.forwards request = false := by
  rw [forwardedOf_eq_filterMap, List.filterMap_eq_nil_iff]
  constructor
  · intro none request member
    obtain ⟨key, isPlaced, rfl⟩ := exists_placed member
    by_contra forwards
    rw [Bool.not_eq_false] at forwards
    have entry := settled.of_placed isPlaced (intercept_forwards_iff.mpr forwards)
    simpa using none _ entry
  · intro kept entry member
    obtain ⟨isPlaced, isOutcome⟩ := settled.outcome member
    split
    · rename_i left
      rw [left, intercept_forwards_iff, kept _ (mem_of_placed isPlaced)] at isOutcome
      simp at isOutcome
    · rfl

def Panics (user : User) (upstream : Upstream) (request : RpcRequest) : Prop :=
  (user.intercept upstream request).value = none

/-- A batch with a refused call posts none of its elements exactly when a call in it
panics first, when none of them is one to forward, or when posting takes `sendBatch` more
than its first poll. What an intercept awaits may differ from place to place. -/
theorem refused_batch_posts_nothing_iff {client : RpcClient} {schedule : List Nat} {path : String}
    {requests : List RpcRequest} {user : User} {upstream : Nat → Upstream}
    {run : Future Effect (Except AnyhowError HttpResponse)}
    (refused : ∃ request ∈ requests, user.allows request.method = false)
    (complete : client.send schedule path (.batch requests)
      (fun place => user.intercept (upstream place)) = some run) :
    (postedElements run.log = [] ↔
      (∃ key ∈ placed requests, Panics user (upstream key.1) key.2) ∨
      (∀ request ∈ requests, user.forwards request = false) ∨ client.postsAtOnce path = none) ∧
    ∀ place, (upstream place).Ends →
      ∀ request, Panics user (upstream place) request ↔ user.crashes request = true := by
  refine ⟨?_, fun place ends request => intercept_panics_iff ends⟩
  obtain ⟨many, isRun, rfl⟩ := Option.map_eq_some_iff.mp complete
  obtain ⟨request, isRequest, notAllowed⟩ := refused
  rw [postedElements, Future.log_map]
  rcases sendMany_run isRun with ⟨completed, _, settled, _, isLog⟩ | ⟨_, _, isLog, key, isPlaced, panics⟩
  · obtain ⟨key, isPlaced, rfl⟩ := exists_placed isRequest
    have entry := settled.of_placed isPlaced
      (by rw [intercept_refused notAllowed]; exact Future.value_pure _)
    have noPanic : ¬∃ key ∈ placed requests, Panics user (upstream key.1) key.2 := by
      rintro ⟨other, isOther, panics⟩
      obtain ⟨outcome, isOutcome⟩ := settled.ends isOther
      rw [panics] at isOutcome
      simp at isOutcome
    rw [isLog, answerBatch_log_of_error entry rfl, sendBatch_firstLog,
      ← forwardedOf_eq_nil_iff settled]
    cases client.postsAtOnce path with
    | none => simp
    | some target => simp [noPanic, batchForward]
  · rw [isLog]
    exact iff_of_true rfl (Or.inl ⟨key, isPlaced, panics⟩)

/-! A payment next to a call the user may not make. -/

def payer : User :=
  { password := .cleartext "secret",
    allowedCalls := some ["sendtoaddress"],
    fetchBlocks := false,
    overrideWallet := none }

def paymentRequest : RpcRequest :=
  { jsonrpc := none, id := some (.string "pay"), method := "sendtoaddress", params := .array [] }

def stopRequest : RpcRequest :=
  { jsonrpc := none, id := some (.string "stop"), method := "stop", params := .array [] }

/-- A bitcoind that takes one poll to answer, behind the credentials in `tryLoad`. -/
def slowNode (tryLoad : Future Empty (Except AuthLoadError HeaderValue)) : RpcClient :=
  { tryLoad,
    parsePath := Except.ok,
    fromParts := Except.ok,
    request := fun _ => .pending [] (Future.pure (.ok (HttpResponse.ofEmpty HttpResponse.statusOk))),
    parseError := fun _ => "invalid type" }

def noUpstream : Upstream :=
  { sha256d := fun _ => Blocks.Digest.zeros,
    fetchBlockRaw := fun _ => Future.pure (.ok none),
    header := fun _ => Future.pure (.error (.hyper "connection refused")),
    decoded := fun _ => Future.pure (.error (.hyper "connection refused")),
    decodeBlock := fun _ => .error ⟨["unexpected end of file"]⟩,
    hashError := fun _ => ⟨["invalid hash"]⟩,
    headerFromNull := ⟨["data did not match any variant of untagged enum Either"]⟩ }

/-- With configured credentials the payment is delivered, and the client is told 403. -/
theorem refused_batch_posts_payment :
    ∃ run response, (slowNode (Future.pure (.ok []))).send [0, 0] "/"
        (.batch [paymentRequest, stopRequest]) (fun _ => payer.intercept noUpstream) = some run ∧
      payer.allows stopRequest.method = false ∧
      postedElements run.log = [paymentRequest.encode] ∧
      run.value = some (.ok response) ∧ response.status = HttpResponse.forbidden :=
  ⟨_, _, rfl, by decide, rfl, rfl, rfl⟩

/-- With credentials that are not there at the first poll of `tryLoad`, nothing is posted. Whether
those of a file are there by then is up to the runtime. -/
theorem refused_batch_posts_nothing_reading :
    ∃ run, (slowNode (.pending [] (Future.pure (.ok [])))).send [0, 0] "/"
        (.batch [paymentRequest, stopRequest]) (fun _ => payer.intercept noUpstream) = some run ∧
      postedElements run.log = [] := by
  have refused : ∃ request ∈ [paymentRequest, stopRequest], payer.allows request.method = false :=
    ⟨stopRequest, by simp, by decide⟩
  have complete : (slowNode (.pending [] (Future.pure (.ok [])))).send [0, 0] "/"
      (.batch [paymentRequest, stopRequest]) (fun _ => payer.intercept noUpstream) = some _ := rfl
  exact ⟨_, complete, (refused_batch_posts_nothing_iff refused complete).1.mpr (Or.inr (Or.inr rfl))⟩

end BtcRpcProxy
