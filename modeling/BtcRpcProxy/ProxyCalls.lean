import BtcRpcProxy.PostedOnce
import BtcRpcProxy.Transparency

/-!
The calls the proxy makes for itself: to serve one request of a user who has blocks fetched for it, about
the block this request names, and none that changes anything.
-/

namespace BtcRpcProxy

open Polled Polled.Future Blocks CredentialFailures

/-- The calls that serve a request from this block. -/
inductive Serves (sha256d : List UInt8 → Digest) (request : RpcRequest) (hash : Digest) : InternalCall → Prop
  | block : Serves sha256d request hash (blockCall hash)
  | peers : Serves sha256d request hash peerInfoCall
  | network : Serves sha256d request hash blockchainInfoCall
  | header : Serves sha256d request hash (headerCall hash)
  | decode {params : List Json} {txid : Digest} {transaction : Transaction} :
      request.method = getRawTransaction → request.params = .array params →
      interceptable params = some (txid, true, hash) → transaction.txid sha256d = txid →
      Serves sha256d request hash (decodeCall (hexEncode transaction.encode))

/-! The fetch of a block. -/

section

variable {node : Node} {env : Environment}
  {askPeer : Nat → Nat → String → NetworkParams → Digest → Future Empty (Option Block)}
  {secret : Secret} {place : Nat} {hash : Digest} {call : InternalCall}
  {sha256d : List UInt8 → Digest} {request : RpcRequest}

theorem ask_log {Response : Type} (node : Node) (readResult : Json → Option Response) (call : InternalCall)
    (authorization : HeaderValue) : (node.ask readResult call authorization).log = [call] := by
  rw [Node.ask, log_map, log_emit, log_silent, List.append_nil]

/-- A call is posted once, where the credentials are loaded. -/
theorem mem_log_call {Response : Type} {step : LoadStep} {readResult : Json → Option Response} {posted : InternalCall}
    (member : call ∈ ((node.serving env askPeer).call secret step (node.ask readResult posted)).log) :
    call = posted := by
  rcases mem_log_bind member with loading | ⟨loaded, _, asking⟩
  · simp at loading
  · split at asking
    · simp at asking
    · rw [ask_log, List.mem_singleton] at asking
      exact asking

theorem fetchBlockFromSelf_calls
    (member : call ∈ ((node.serving env askPeer).fetchBlockFromSelf secret place hash).log) :
    call = blockCall hash := by
  rw [Environment.fetchBlockFromSelf, log_map] at member
  exact mem_log_call member

theorem getPeers_calls (member : call ∈ ((node.serving env askPeer).getPeers secret place).log) :
    call = peerInfoCall := by
  unfold Environment.getPeers at member
  split at member
  · rw [log_map, Environment.updated, log_map] at member
    exact mem_log_call member
  · simp at member

theorem networkParams_calls {peer : Nat}
    (member : call ∈ ((node.serving env askPeer).networkParams secret place peer).log) :
    call = blockchainInfoCall := by
  unfold Environment.networkParams at member
  split at member
  · simp at member
  · rw [log_map] at member
    exact mem_log_call member

theorem fetchBlockFromPeers_calls {peer : Nat} {addrs : List String}
    (member : call ∈ ((node.serving env askPeer).fetchBlockFromPeers secret place hash peer addrs).log) :
    call = blockchainInfoCall := by
  induction addrs generalizing peer with
  | nil => simp [Environment.fetchBlockFromPeers] at member
  | cons addr rest ih =>
      rcases mem_log_bind member with first | ⟨fetched, _, later⟩
      · rcases mem_log_bind first with asking | ⟨network, _, fetching⟩
        · exact networkParams_calls asking
        · split at fetching
          · simp at fetching
          · simp [Node.serving] at fetching
      · split at later
        · simp at later
        · exact ih later

theorem fetchBlockRaw_serves (member : call ∈ ((node.serving env askPeer).fetchBlockRaw secret place hash).log) :
    Serves sha256d request hash call := by
  unfold Environment.fetchBlockRaw at member
  split at member
  · simp at member
  · rcases mem_log_bind member with self | ⟨fetched, _, later⟩
    · exact fetchBlockFromSelf_calls self ▸ .block
    · split at later
      · simp at later
      · simp at later
      · rcases mem_log_bind later with listing | ⟨peers, _, fetching⟩
        · exact getPeers_calls listing ▸ .peers
        · split at fetching
          · simp at fetching
          · rw [log_map] at fetching
            exact fetchBlockFromPeers_calls fetching ▸ .network

/-! What a request is answered from. -/

theorem header_calls {posted : InternalCall}
    (member : call ∈ (((node.serving env askPeer).upstream secret place).header posted).log) : call = posted :=
  mem_log_call member

theorem decoded_calls {posted : InternalCall}
    (member : call ∈ (((node.serving env askPeer).upstream secret place).decoded posted).log) : call = posted :=
  mem_log_call member

theorem fetchBlock_serves
    (member : call ∈ (((node.serving env askPeer).upstream secret place).fetchBlock hash).log) :
    Serves sha256d request hash call := by
  rw [Upstream.fetchBlock, log_map] at member
  exact fetchBlockRaw_serves member

theorem callHeader_serves
    (member : call ∈ (((node.serving env askPeer).upstream secret place).callHeader hash).log) :
    Serves sha256d request hash call := by
  rw [Upstream.callHeader, log_map] at member
  exact header_calls member ▸ .header

theorem interceptBlockRaw_serves {params : List Json}
    (member : call ∈ (interceptBlockRaw ((node.serving env askPeer).upstream secret place) request params).log) :
    ∃ hash, params[0]?.bind readHash = some hash ∧ Serves sha256d request hash call := by
  unfold interceptBlockRaw withBlockHash at member
  split at member
  · simp [Future.log] at member
  · rename_i value isFirst
    split at member
    · simp at member
    · rename_i hash isHash
      rw [log_map] at member
      exact ⟨hash, by simp [isFirst, isHash], fetchBlockRaw_serves member⟩

theorem interceptBlock_serves {params : List Json}
    (member : call ∈ (interceptBlock ((node.serving env askPeer).upstream secret place) request params).log) :
    ∃ hash, params[0]?.bind readHash = some hash ∧ Serves sha256d request hash call := by
  unfold interceptBlock withBlockHash at member
  split at member
  · simp [Future.log] at member
  · rename_i value isFirst
    split at member
    · simp at member
    · rename_i hash isHash
      rw [log_map] at member
      refine ⟨hash, by simp [isFirst, isHash], ?_⟩
      rcases mem_log_tryJoin member with calling | fetching
      · exact callHeader_serves calling
      · exact fetchBlock_serves fetching

theorem interceptRawTransaction_serves {params : List Json} (isMethod : request.method = getRawTransaction)
    (isParams : request.params = .array params)
    (member : call ∈
      (interceptRawTransaction ((node.serving env askPeer).upstream secret place) request params).log) :
    ∃ txid verbose hash, interceptable params = some (txid, verbose, hash) ∧
      Serves (env.base.upstream place).sha256d request hash call := by
  unfold interceptRawTransaction at member
  split at member
  · simp at member
  · rename_i txid verbose hash isCall
    refine ⟨txid, verbose, hash, isCall, ?_⟩
    rcases mem_log_bind member with fetching | ⟨fetched, _, later⟩
    · exact fetchBlock_serves fetching
    · split at later
      · simp at later
      · simp at later
      · split at later
        · simp at later
        · rename_i transaction found
          have isTxid : transaction.txid (env.base.upstream place).sha256d = txid := by
            have matched := List.find?_some found
            exact of_decide_eq_true matched
          dsimp only at later
          split at later
          · simp at later
          · rename_i isVerbose
            rw [log_map] at later
            rcases mem_log_tryJoin later with decoding | calling
            · rw [Upstream.callDecode, log_map] at decoding
              have verbose : verbose = true := by simpa using isVerbose
              exact decoded_calls decoding ▸ .decode isMethod isParams (verbose ▸ isCall) isTxid
            · exact callHeader_serves calling

theorem intercept_serves {user : User}
    (member : call ∈ (user.intercept ((node.serving env askPeer).upstream secret place) request).log) :
    ∃ hash, fetches user request = some hash ∧ Serves (env.base.upstream place).sha256d request hash call := by
  unfold User.intercept at member
  split at member
  · rename_i allowed
    split at member
    · rename_i params isParams
      split at member
      · rename_i isBlock
        rw [Bool.and_eq_true] at isBlock
        have served (isServed : verbosityServed params = true)
            (serves : ∃ hash, params[0]?.bind readHash = some hash ∧
              Serves (env.base.upstream place).sha256d request hash call) :
            ∃ hash, fetches user request = some hash ∧
              Serves (env.base.upstream place).sha256d request hash call := by
          simpa [fetches, isParams, allowed, isBlock.1, isBlock.2, isServed] using serves
        split at member
        · rename_i number isVerbosity
          split at member
          · rename_i isZero
            exact served (by simp [verbosityServed, isVerbosity, isZero]) (interceptBlockRaw_serves member)
          · split at member
            · rename_i isOne
              exact served (by simp [verbosityServed, isVerbosity, isOne]) (interceptBlock_serves member)
            · simp at member
        · simp at member
      · split at member
        · rename_i notBlock isTransaction
          rw [Bool.and_eq_true] at isTransaction
          have isMethod : request.method = getRawTransaction := by simpa using isTransaction.2
          obtain ⟨txid, verbose, hash, isCall, serves⟩ := interceptRawTransaction_serves isMethod isParams member
          have notGetBlock : (request.method == getBlock) = false := by
            rw [isMethod]
            decide
          exact ⟨hash, by simp [fetches, isParams, allowed, isTransaction, notGetBlock, isCall], serves⟩
        · simp at member
    · simp at member
  · simp at member

end

/-! What a client is sent needs no further call. -/

section

variable {client : RpcClient} {path : String} {call : InternalCall}

theorem forwardSingle_posts_only {request : RpcRequest} :
    .internal call ∉ (client.forwardSingle path request).log := by
  rcases forwardSingle_log client path request with none | ⟨posted, isLog, _⟩
  · simp [none]
  · simp [isLog]

theorem answerBatch_posts_only {requests : List RpcRequest} {completed : Completed} :
    .internal call ∉ (client.answerBatch path requests completed).log := by
  intro member
  have sent := (answerBatch_log_start client path requests completed).subset member
  rcases sendBatch_log client path (forwardedOf completed) with none | ⟨posted, isLog, _⟩
  · simp [none] at sent
  · simp [isLog] at sent

theorem send_calls {schedule : List Nat} {calls : SingleOrBatchRpcRequest}
    {intercept : Nat → RpcRequest → Future InternalCall Outcome}
    {run : Future Effect (Except AnyhowError HttpResponse)}
    (complete : client.send schedule path calls intercept = some run) (member : .internal call ∈ run.log) :
    ∃ key ∈ elements calls, call ∈ (intercept key.1 key.2).log := by
  cases calls with
  | single request =>
      simp only [RpcClient.send, Option.some.injEq] at complete
      subst complete
      rcases mem_log_bind member with intercepting | ⟨outcome, _, later⟩
      · exact ⟨(0, request), List.mem_singleton_self _, by simpa using intercepting⟩
      · split at later
        · exact absurd later forwardSingle_posts_only
        · simp at later
        · simp at later
  | batch requests =>
      obtain ⟨many, isRun, rfl⟩ := Option.map_eq_some_iff.mp complete
      obtain ⟨intercepts, isIntercepts, rfl⟩ := Option.map_eq_some_iff.mp isRun
      rw [log_map] at member
      rcases mem_log_bind member with intercepting | ⟨completed, _, later⟩
      · obtain ⟨entry, isEntry, performs⟩ :=
          (forEachConcurrent_complete isIntercepts).mem_log (by simpa using intercepting)
        obtain ⟨key, isKey, rfl⟩ := List.mem_map.mp isEntry
        exact ⟨key, isKey, performs⟩
      · exact absurd later answerBatch_posts_only

end

/-- Whoever sends a request, bitcoind is called under the credentials of the proxy for nothing but what serves
an element of it from a block, and only for a user who may call the method and has blocks fetched. -/
theorem internal_calls_entitled (node : Node) (env : Environment)
    (askPeer : Nat → Nat → String → NetworkParams → Digest → Future Empty (Option Block)) (secret : Secret)
    (schedule : List Nat) (http : HttpRequest) (run : Future Effect (Except AnyhowError HttpResponse))
    (complete : ((node.serving env askPeer).state secret).proxyRequest schedule http = some run)
    (call : InternalCall) (member : .internal call ∈ run.log) :
    ∃ user calls, Handles (node.serving env askPeer) http user calls ∧
      ∃ key ∈ elements calls, ∃ hash, fetches user key.2 = some hash ∧
        Serves (env.base.upstream key.1).sha256d key.2 hash call := by
  rcases proxyRequest_sends ((node.serving env askPeer).state secret) http with
    ⟨answered, isNil, always⟩ | ⟨name, user, calls, sent, sends⟩
  · obtain rfl := Option.some.inj ((always schedule).symm.trans complete)
    simp [isNil] at member
  · rw [sends] at complete
    obtain ⟨answer, served, rfl⟩ := Option.map_eq_some_iff.mp complete
    rcases mem_log_bind member with reading | ⟨_, _, answering⟩
    · simp at reading
    · obtain ⟨key, isKey, performs⟩ := send_calls served answering
      obtain ⟨hash, isHash, serves⟩ := intercept_serves performs
      exact ⟨user, calls, ⟨sent.path, sent.method, ⟨name, sent.authenticates⟩, sent.calls⟩, key, isKey, hash, isHash,
        serves⟩

theorem internal_calls_entitled_oneByte :
    ∃ run, ((oneByteNode.serving (prunedEnvironment []) fun _ _ _ _ _ => Future.pure none).state
        (secretAt "a")).proxyRequest [] paymentHttp = some run ∧
      run.log = [.internal (blockCall Digest.zeros)] ∧
      ∃ user calls, Handles (oneByteNode.serving (prunedEnvironment []) fun _ _ _ _ _ => Future.pure none)
          paymentHttp user calls ∧
        ∃ key ∈ elements calls, ∃ hash, fetches user key.2 = some hash ∧
          Serves (prunedState.upstream key.1).sha256d key.2 hash (blockCall Digest.zeros) := by
  have logs : ((((oneByteNode.serving (prunedEnvironment []) fun _ _ _ _ _ => Future.pure none).state
      (secretAt "a")).proxyRequest [] paymentHttp).map Future.log) = some [.internal (blockCall Digest.zeros)] := by
    decide +kernel
  obtain ⟨run, isRun, isLog⟩ := Option.map_eq_some_iff.mp logs
  refine ⟨run, isRun, isLog, ?_⟩
  exact internal_calls_entitled oneByteNode (prunedEnvironment []) _ (secretAt "a") [] paymentHttp run isRun _
    (isLog ▸ List.mem_singleton_self _)

end BtcRpcProxy
