import BtcRpcProxy.ArgumentGrammar
import BtcRpcProxy.ProxyRequests

/-!
The order of what a batch leaves to bitcoind. The forwarded requests are collected as their
intercepts complete, and these complete at their first poll.
-/

namespace BtcRpcProxy

open Polled

theorem forwardedOf_eq_filter (forwards : Placed → Bool) {completed : Completed}
    (known : ∀ entry ∈ completed, entry.2 = .ok none ↔ forwards entry.1 = true) :
    forwardedOf completed = (completed.map Prod.fst).filter forwards := by
  induction completed with
  | nil => rfl
  | cons entry rest ih =>
      obtain ⟨key, outcome⟩ := entry
      have later := ih fun other member => known other (List.mem_cons_of_mem _ member)
      have here := known (key, outcome) List.mem_cons_self
      rcases outcome with error | _ | response
      · have kept : forwards key = false := by simpa using here
        simp [forwardedOf, later, kept]
      · have left : forwards key = true := by simpa using here
        simp [forwardedOf, later, left]
      · have kept : forwards key = false := by simpa using here
        simp [forwardedOf, later, kept]

section

variable {user : User} {client : RpcClient} {path : String} {requests : List RpcRequest}
  {upstream : Nat → Upstream} {schedule : List Nat}

theorem forwardedOf_in_order {intercepts : Future InternalCall Completed} {completed : Completed}
    (inOrder : Future.firstPollsInOrder 0 schedule
      (RpcClient.interceptAll (fun place => user.intercept (upstream place)) requests) = true)
    (complete : Future.forEachConcurrent schedule
      (RpcClient.interceptAll (fun place => user.intercept (upstream place)) requests) = some intercepts)
    (ends : intercepts.value = some completed) :
    (forwardedOf completed).map Prod.snd = requests.filter user.forwards := by
  have settles : Settles (fun place => user.intercept (upstream place)) requests completed := by
    rcases (Future.forEachConcurrent_complete complete).value with
      ⟨other, otherEnds, perm⟩ | ⟨panics, _⟩
    · rw [Option.some.inj (ends.symm.trans otherEnds)]
      simpa [Settles, Future.results, RpcClient.interceptAll, Function.comp_def] using perm
    · simp [panics] at ends
  have known : ∀ entry ∈ completed, entry.2 = .ok none ↔ user.forwards entry.1.2 = true := by
    intro entry member
    have outcome := (settles.outcome member).2
    rw [← intercept_forwards_iff, outcome, Option.some.injEq]
  have ordered := Future.completed_in_order (fun key : Placed => user.forwards key.2) inOrder complete ends
    (by
      intro entry member forwards
      obtain ⟨key, _, rfl⟩ := List.mem_map.mp member
      simp [intercept_forwards forwards, Future.firstValue, Future.pure])
  have keys : (RpcClient.interceptAll (fun place => user.intercept (upstream place)) requests).map Prod.fst =
      placed requests := by
    simp [RpcClient.interceptAll, Function.comp_def]
  have mapped : ((placed requests).map Prod.snd).filter user.forwards =
      ((placed requests).filter fun key => user.forwards key.2).map Prod.snd := List.filter_map
  rw [placed_requests] at mapped
  rw [forwardedOf_eq_filter (fun key => user.forwards key.2) known, ordered, keys, mapped]

/-- A call left to bitcoind is left without an await, and a batch posts the calls left to bitcoind in
the order of its requests, whatever its other calls wait for. -/
theorem forwarded_batch_in_order (user : User) (client : RpcClient) (schedule : List Nat) (path : String)
    (requests : List RpcRequest) (upstream : Nat → Upstream)
    (inOrder : Future.firstPollsInOrder 0 schedule
      (RpcClient.interceptAll (fun place => user.intercept (upstream place)) requests) = true)
    {run : Future Effect (Except AnyhowError HttpResponse)}
    (complete : client.send schedule path (.batch requests)
      (fun place => user.intercept (upstream place)) = some run) :
    (∀ place request, (user.intercept (upstream place) request).value = some (.ok none) →
      user.intercept (upstream place) request = Future.pure (.ok none)) ∧
    ∀ posted ∈ forwards run.log,
      posted.body = .array ((requests.filter user.forwards).map RpcRequest.encode) := by
  constructor
  · intro place request left
    exact intercept_forwards (intercept_forwards_iff.mp left)
  · intro posted member
    obtain ⟨many, isMany, rfl⟩ := Option.map_eq_some_iff.mp complete
    obtain ⟨intercepts, isIntercepts, rfl⟩ := Option.map_eq_some_iff.mp isMany
    rw [Future.log_map, mem_forwards] at member
    rcases Future.mem_log_bind member with internal | ⟨completed, ends, answering⟩
    · simp at internal
    · rw [Future.value_mapEffect] at ends
      rw [(answerBatch_posts (mem_forwards.mpr answering)).1,
        ← forwardedOf_in_order inOrder isIntercepts ends, List.map_map]
      rfl

end

/-! A block that takes its time, before two calls for bitcoind. -/

def slowUpstream : Upstream :=
  { noUpstream with fetchBlockRaw := fun _ => .pending [] (Future.pure (.ok none)) }

def walletCall (method : String) : RpcRequest :=
  { jsonrpc := none, id := some (.string method), method, params := .array [] }

def walletBatch : List RpcRequest :=
  [walletCall "getnewaddress", zeroBlockCall (.number (.posInt 0)), walletCall "getbalance"]

theorem walletBatch_in_order :
    ∃ run, (slowNode (Future.pure (.ok []))).send [0, 0, 1, 0] "/" (.batch walletBatch)
        (fun _ => explorer.intercept slowUpstream) = some run ∧
      (forwards run.log).length = 1 ∧
      ∀ posted ∈ forwards run.log, posted.body =
        .array [(walletCall "getnewaddress").encode, (walletCall "getbalance").encode] := by
  have posts : (((slowNode (Future.pure (.ok []))).send [0, 0, 1, 0] "/" (.batch walletBatch)
      (fun _ => explorer.intercept slowUpstream)).map fun run => (forwards run.log).length) = some 1 := by
    decide +kernel
  obtain ⟨run, isRun, once⟩ := Option.map_eq_some_iff.mp posts
  have inOrder := (forwarded_batch_in_order explorer (slowNode (Future.pure (.ok []))) [0, 0, 1, 0] "/"
    walletBatch (fun _ => slowUpstream) (by decide +kernel) isRun).2
  have left : walletBatch.filter explorer.forwards = [walletCall "getnewaddress", walletCall "getbalance"] := by
    decide +kernel
  refine ⟨run, isRun, once, ?_⟩
  rw [left] at inOrder
  exact inOrder

end BtcRpcProxy
