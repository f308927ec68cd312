import BtcRpcProxy.BatchFailure
import BtcRpcProxy.CredentialSecrets
import BtcRpcProxy.ProxyRequests

/-!
What a failure to load bitcoind's credentials tells a client: nothing, but where an answer needs a
block that is pruned and the update of the peers for it fails.
-/

namespace BtcRpcProxy.CredentialFailures

open Polled Polled.Future Blocks

def elements : SingleOrBatchRpcRequest → List Placed
  | .single request => [(0, request)]
  | .batch requests => placed requests

section

variable {client : RpcClient} {load load' : Future Empty (Except AuthLoadError HeaderValue)}
variable {path : String} {request : RpcRequest}

theorem intoResponseTo_ofError_same {error error' : RpcError} (silent : request.isNotification = true)
    (unmarked : error.status = none) (unmarked' : error'.status = none) :
    (RpcResponse.ofError error).intoResponseTo request = (RpcResponse.ofError error').intoResponseTo request := by
  simp [RpcResponse.intoResponseTo, RpcResponse.ofError, unmarked, unmarked', silent]

theorem forwardSingle_related (loads : Related (Agree fun _ _ => True) load load') :
    Related (Agree fun _ _ => True) ({ client with tryLoad := load }.forwardSingle path request)
      ({ client with tryLoad := load' }.forwardSingle path request) := by
  unfold RpcClient.forwardSingle
  dsimp only
  split
  · exact related_pure (Agree.error trivial)
  · refine related_bind (related_mapEffect _ loads) fun _ _ agree => ?_
    cases agree with
    | error _ => exact related_pure (Agree.error trivial)
    | ok => exact related_refl (agree_refl fun _ => trivial) _

theorem sendSingle_related {intercepted intercepted' : Future InternalCall Outcome}
    (loads : Related (Agree fun _ _ => True) load load')
    (outcomes : Related (SameOutcome request) intercepted intercepted') :
    Related (Agree fun _ _ => True) ({ client with tryLoad := load }.sendSingle path request intercepted)
      ({ client with tryLoad := load' }.sendSingle path request intercepted') := by
  refine related_bind (related_mapEffect _ outcomes) fun outcome _ isSame => ?_
  rcases isSame with rfl | ⟨silent, error, error', rfl, rfl, unmarked, unmarked'⟩
  · rcases outcome with error | _ | response
    · exact related_pure Agree.ok
    · exact forwardSingle_related loads
    · exact related_pure Agree.ok
  · dsimp only
    rw [intoResponseTo_ofError_same silent unmarked unmarked']
    exact related_pure Agree.ok

theorem sendBatch_same {forwarded : List Placed} (loads : Related (Agree fun _ _ => True) load load') :
    { client with tryLoad := load }.sendBatch path forwarded =
      { client with tryLoad := load' }.sendBatch path forwarded := by
  unfold RpcClient.sendBatch
  dsimp only
  split
  · rfl
  · refine eq_of_related (related_bind (related_mapEffect _ loads) fun _ _ agree => ?_)
    cases agree with
    | error _ => exact related_pure rfl
    | ok => exact related_refl (fun _ => rfl) _

theorem completed_same {completed completed' : Completed}
    (all : List.Forall₂ (SameEntry fun key => SameOutcome key.2) completed completed') :
    forwardedOf completed = forwardedOf completed' ∧ interceptedOf completed = interceptedOf completed' := by
  induction all with
  | nil => exact ⟨rfl, rfl⟩
  | @cons entry entry' _ _ isEntry _ ih =>
      obtain ⟨⟨index, request⟩, outcome⟩ := entry
      obtain ⟨key', outcome'⟩ := entry'
      obtain ⟨isKey, isSame⟩ := isEntry
      obtain rfl := isKey
      rcases isSame with rfl | ⟨silent, error, error', isError, isError', _⟩
      · rcases outcome with error | _ | response <;> simp [forwardedOf, interceptedOf, ih]
      · dsimp only at isError isError' silent
        subst isError isError'
        simp [forwardedOf, interceptedOf, silent, ih]

theorem answerBatch_same {requests : List RpcRequest} {completed completed' : Completed}
    (loads : Related (Agree fun _ _ => True) load load')
    (all : List.Forall₂ (SameEntry fun key => SameOutcome key.2) completed completed') :
    { client with tryLoad := load }.answerBatch path requests completed =
      { client with tryLoad := load' }.answerBatch path requests completed' := by
  unfold RpcClient.answerBatch
  rw [sendBatch_same loads, (completed_same all).1, (completed_same all).2]

theorem sendMany_related {schedule : List Nat} {requests : List RpcRequest}
    {intercept intercept' : Nat → RpcRequest → Future InternalCall Outcome}
    (loads : Related (Agree fun _ _ => True) load load')
    (outcomes : ∀ key ∈ placed requests,
      Related (SameOutcome key.2) (intercept key.1 key.2) (intercept' key.1 key.2)) :
    Option.Rel (Related Eq) ({ client with tryLoad := load }.sendMany schedule path requests intercept)
      ({ client with tryLoad := load' }.sendMany schedule path requests intercept') := by
  have all : List.Forall₂ (RelatedEntry fun key => SameOutcome key.2)
      (RpcClient.interceptAll intercept requests) (RpcClient.interceptAll intercept' requests) := by
    rw [RpcClient.interceptAll, RpcClient.interceptAll, List.forall₂_map_left_iff,
      List.forall₂_map_right_iff, List.forall₂_same]
    exact fun key member => ⟨rfl, outcomes key member⟩
  refine optionRel_map (related_forEachConcurrent all) fun run run' runs => ?_
  refine related_bind (related_mapEffect _ runs) fun completed completed' all => ?_
  rw [answerBatch_same loads all]
  exact related_refl (fun _ => rfl) _

theorem send_related {schedule : List Nat} {calls : SingleOrBatchRpcRequest}
    {intercept intercept' : Nat → RpcRequest → Future InternalCall Outcome}
    (loads : Related (Agree fun _ _ => True) load load')
    (outcomes : ∀ key ∈ elements calls,
      Related (SameOutcome key.2) (intercept key.1 key.2) (intercept' key.1 key.2)) :
    Option.Rel (Related (Agree fun _ _ => True))
      ({ client with tryLoad := load }.send schedule path calls intercept)
      ({ client with tryLoad := load' }.send schedule path calls intercept') := by
  cases calls with
  | single request =>
      exact Option.Rel.some (sendSingle_related loads (outcomes (0, request) (by simp [elements])))
  | batch requests =>
      refine optionRel_map (sendMany_related loads outcomes) fun run run' runs => ?_
      refine related_map runs ?_
      rintro answer _ rfl
      exact Agree.ok

end

/-! Whole requests. -/

/-- The calls that a client makes with a request, and the user they are made as. -/
structure Handles (env : Environment) (request : HttpRequest) (user : User)
    (calls : SingleOrBatchRpcRequest) : Prop where
  path : State.handlesPath request.path = true
  method : request.method = "POST"
  user : ∃ name, Authenticates env.base request name user
  calls : ∃ body, request.body.value = some (.ok body) ∧ env.base.decodeRequest body = .ok calls

/-- No answer is made from a block whose fetch is exposed; notifications have no answer. -/
def NoneExposed (env : Environment) (request : HttpRequest) : Prop :=
  ∀ user calls, Handles env request user calls → ∀ key ∈ elements calls, key.2.isNotification = false →
    ∀ hash, fetches user key.2 = some hash → ¬Exposed env key.1 hash

section

variable {env : Environment} {secret secret' : Secret} {schedule : List Nat} {request : HttpRequest}

theorem serve_related {path : String} {user : User} {read : Except AnyhowError (List UInt8)}
    (safe : ∀ body calls, read = .ok body → env.base.decodeRequest body = .ok calls →
      ∀ key ∈ elements calls, key.2.isNotification = false → ∀ hash, fetches user key.2 = some hash →
        ¬Exposed env key.1 hash) :
    Option.Rel (Related (Agree fun _ _ => True)) ((env.state secret).serve schedule path user read)
      ((env.state secret').serve schedule path user read) := by
  cases read with
  | error error => exact Option.Rel.some (related_pure (Agree.error trivial))
  | ok body =>
      have decodes (secret : Secret) : (env.state secret).decodeRequest body = env.base.decodeRequest body := rfl
      simp only [State.serve, decodes]
      cases decoded : env.base.decodeRequest body with
      | error error => exact Option.Rel.some (related_pure Agree.ok)
      | ok calls =>
          exact send_related (load_related .forward) fun key member =>
            intercept_related user (safe body calls rfl decoded key member)

theorem getD_eq_some_some {Value : Type} {found : Option (Option (Option Value))} {value : Value}
    (isFound : found.getD (some none) = some (some value)) : found = some (some (some value)) := by
  cases found with
  | none => simp at isFound
  | some found => exact congrArg some isFound

theorem proxyRequest_related (safe : NoneExposed env request) :
    Option.Rel (Related (Agree fun _ _ => True)) ((env.state secret).proxyRequest schedule request)
      ((env.state secret').proxyRequest schedule request) := by
  unfold State.proxyRequest
  split
  · rename_i path
    split
    · rename_i method
      have authenticates (secret : Secret) : (env.state secret).users.get (env.state secret).credentials =
          env.base.users.get env.base.credentials := rfl
      rw [authenticates, authenticates]
      split
      · exact Option.Rel.some Related.panic
      · exact Option.Rel.some (related_pure Agree.ok)
      · rename_i name user isUser
        split
        · exact Option.Rel.some Related.panic
        · rename_i read isRead
          refine optionRel_map (serve_related fun body calls isBody decoded key member => ?_)
            fun answer answer' answers => related_bind (related_refl (fun _ => rfl) _) fun _ _ _ => answers
          refine safe user calls ⟨path, beq_iff_eq.mp method, ?_, body, isBody ▸ isRead, decoded⟩ key member
          obtain ⟨header, isHeader, found⟩ := Option.map_eq_some_iff.mp (getD_eq_some_some isUser)
          exact ⟨name, header, isHeader, found⟩
    · exact Option.Rel.some (related_pure Agree.ok)
  · exact Option.Rel.some (related_pure Agree.ok)

theorem toOption_same {runs runs' : Option (Future Effect (Except AnyhowError HttpResponse))}
    (related : Option.Rel (Related (Agree fun _ _ => True)) runs runs') :
    (runs.bind fun run => run.value.map Except.toOption) =
      runs'.bind fun run => run.value.map Except.toOption := by
  cases related with
  | none => rfl
  | @some run run' related =>
      have values := related_value related
      simp only [Option.bind_some]
      generalize run.value = result at values
      generalize run'.value = result' at values
      cases values with
      | none => rfl
      | some agree =>
          cases agree with
          | ok => rfl
          | error _ => rfl

theorem reply_same (safe : NoneExposed env request) :
    env.reply secret schedule request = env.reply secret' schedule request :=
  toOption_same (proxyRequest_related safe)

end

/-! What an exposed fetch tells. -/

def refreshError (secret : Secret) (place : Nat) (failure : LoadFailure) : RpcError :=
  RpcError.ofError (PeerUpdateError.client (.loadAuth (failure.error secret (.peers place)))).intoError

def joinsHeader (request : RpcRequest) : Bool :=
  match request.params with
  | .array params =>
      request.method == getBlock &&
        match params[1]?.getD (.number (.posInt 1)) with
        | .number number => !decide (number.asU64 = some 0)
        | _ => false
  | .object _ => false

def HeaderGiven (env : Environment) (place : Nat) (hash : Digest) : Prop :=
  ∀ secret, ∃ header, ((env.upstream secret place).callHeader hash).value = some (.ok header)

section

variable {env : Environment} {place : Nat} {hash : Digest}

theorem fetchBlockRaw_exposed (exposed : Exposed env place hash) :
    ∃ failure, failure.namesFile = true ∧ ∀ secret, (env.fetchBlockRaw secret place hash).value =
      some (.error (refreshError secret place failure)) := by
  obtain ⟨uncached, ⟨authorization, called, loaded, posted, pruned⟩, stale, unlisted, failure, failed, named⟩ :=
    exposed
  refine ⟨failure, named, fun secret => ?_⟩
  have self : (env.fetchBlockFromSelf secret place hash).value = some (.ok none) := by
    simp [Environment.fetchBlockFromSelf, Environment.call, Environment.load, loaded, posted, pruned,
      Except.mapError]
  have peers : (env.getPeers secret place).value =
      some (.error (PeerUpdateError.client (.loadAuth (failure.error secret (.peers place)))).intoError) := by
    simp [Environment.getPeers, stale, unlisted, Environment.updated, Environment.call, Environment.load,
      failed, Except.mapError]
  simp [Environment.fetchBlockRaw, uncached, self, peers, refreshError]

theorem fetchBlock_error {upstream : Upstream} {error : RpcError}
    (fails : (upstream.fetchBlockRaw hash).value = some (.error error)) :
    (upstream.fetchBlock hash).value = some (.error error) := by
  rw [Upstream.fetchBlock, value_map, fails, Option.map_some]

theorem withBlockHash_value {upstream : Upstream} {params : List Json}
    {next : Digest → Future InternalCall Outcome} (isHash : params[0]?.bind readHash = some hash) :
    withBlockHash upstream params next = next hash := by
  obtain ⟨value, isFirst, isHash⟩ := Option.bind_eq_some_iff.mp isHash
  simp [withBlockHash, isFirst, isHash]

theorem interceptBlock_error {upstream : Upstream} {request : RpcRequest} {params : List Json}
    {header : HeaderReply} {error : RpcError} (isHash : params[0]?.bind readHash = some hash)
    (given : (upstream.callHeader hash).value = some (.ok header))
    (fails : (upstream.fetchBlockRaw hash).value = some (.error error)) :
    (interceptBlock upstream request params).value = some (.ok (some (RpcResponse.ofError error))) := by
  rw [interceptBlock, withBlockHash_value isHash, value_map]
  rcases tryJoin_value given (fetchBlock_error fails) with
    ⟨_, _, _, isOk, _⟩ | ⟨_, isError | isError, joined⟩
  · simp at isOk
  · simp at isError
  · obtain rfl := Except.error.inj isError
    rw [joined, Option.map_some]

theorem intercept_error {user : User} {upstream : Upstream} {request : RpcRequest} {error : RpcError}
    (named : fetches user request = some hash)
    (given : joinsHeader request = true → ∃ header, (upstream.callHeader hash).value = some (.ok header))
    (fails : (upstream.fetchBlockRaw hash).value = some (.error error)) :
    (user.intercept upstream request).value = some (.ok (some (RpcResponse.ofError error))) := by
  unfold fetches at named
  split at named
  · rename_i params isParams
    split at named
    · simp at named
    · rename_i mayFetch
      simp only [Bool.or_eq_true, Bool.not_eq_true', not_or, Bool.not_eq_false] at mayFetch
      simp only [User.intercept, mayFetch, isParams, if_true, Bool.true_and]
      split at named
      · rename_i isBlock
        rw [if_pos isBlock]
        split at named
        · rename_i served
          cases verbosity : params[1]?.getD (.number (.posInt 1)) with
          | number number =>
              simp only [verbosityServed, verbosity, Bool.or_eq_true, decide_eq_true_eq] at served
              dsimp only
              by_cases zero : number.asU64 = some 0
              · rw [if_pos zero, interceptBlockRaw, withBlockHash_value named, value_map, fails, Option.map_some]
              · have one : number.asU64 = some 1 := served.resolve_left zero
                obtain ⟨header, given⟩ := given (by simp [joinsHeader, isParams, isBlock, verbosity, zero])
                rw [if_neg zero, if_pos one]
                exact interceptBlock_error named given fails
          | _ => simp [verbosityServed, verbosity] at served
        · simp at named
      · rename_i notBlock
        rw [if_neg notBlock]
        split at named
        · rename_i isTransaction
          obtain ⟨⟨txid, verbose, blockhash⟩, isCall, rfl⟩ := Option.map_eq_some_iff.mp named
          rw [if_pos isTransaction]
          simp only [interceptRawTransaction, isCall, value_bind, fetchBlock_error fails, Option.bind_some,
            value_pure]
        · simp at named
  · simp at named

end

def secretAt (path : String) : Secret := { path, osError := fun _ => "" }

theorem refreshError_secretAt (path : String) (place : Nat) (failure : LoadFailure) :
    refreshError (secretAt path) place failure = refreshError (secretAt path) 0 failure := by
  cases failure <;> rfl

theorem refreshError_tells {place : Nat} {failure : LoadFailure} (named : failure.namesFile = true) :
    (refreshError (secretAt "a") place failure).message ≠ (refreshError (secretAt "b") place failure).message := by
  rw [refreshError_secretAt "a", refreshError_secretAt "b"]
  cases failure with
  | headerValue error => simp [LoadFailure.namesFile] at named
  | metadata => decide
  | modified => decide
  | read => decide

section

variable {env : Environment} {schedule : List Nat} {request : HttpRequest} {user : User} {call : RpcRequest}

theorem reply_single {secret : Secret} {response : RpcResponse Json}
    (handles : Handles env request user (.single call))
    (settles : (user.intercept (env.upstream secret 0) call).value = some (.ok (some response))) :
    env.reply secret schedule request = some (some (response.intoResponseTo call)) := by
  obtain ⟨path, method, ⟨name, header, isHeader, isUser⟩, body, isBody, decoded⟩ := handles
  have users : (env.state secret).users.get (env.state secret).credentials header = some (some (name, user)) :=
    isUser
  have decodes : (env.state secret).decodeRequest body = .ok (.single call) := decoded
  have sent : ((env.state secret).rpcClient.sendSingle (State.walletPath user request.path) call
      (user.intercept (env.upstream secret 0) call)).value = some (.ok (response.intoResponseTo call)) :=
    sendSingle_answered settles
  simp only [Environment.reply, State.proxyRequest, path, method, isHeader, Option.map_some, users,
    Option.getD_some, isBody, State.serve, decodes, RpcClient.send, beq_self_eq_true, if_true]
  rw [Option.bind_some, value_bind, value_silent, isBody, Option.bind_some]
  exact congrArg (Option.map Except.toOption) sent

theorem elements_single {key : Placed} (member : key ∈ elements (.single call)) : key = (0, call) :=
  List.mem_singleton.mp member

theorem intoReply_error (error : RpcError) (request : RpcRequest) :
    ((RpcResponse.ofError error).intoReply request).member "error" = some error.encode := by
  rw [(intoReply_carriesOutcome _ request).error]
  split <;> rfl

theorem message_of_intoResponseTo {error error' : RpcError} (asks : call.isNotification = false)
    (same : (RpcResponse.ofError error).intoResponseTo call = (RpcResponse.ofError error').intoResponseTo call) :
    error.message = error'.message := by
  have bodies := intoResponseTo_body (RpcResponse.ofError error) asks
  rw [same, intoResponseTo_body _ asks, Option.some.injEq, Except.ok.injEq, Body.json.injEq] at bodies
  have errors := intoReply_error error call
  rw [← bodies, intoReply_error, Option.some.injEq] at errors
  simp only [RpcError.encode, Json.object.injEq, List.cons.injEq, Prod.mk.injEq, Json.string.injEq] at errors
  exact errors.2.1.2.symm

theorem reply_tells {hash : Digest} (handles : Handles env request user (.single call))
    (asks : call.isNotification = false) (named : fetches user call = some hash)
    (given : joinsHeader call = true → HeaderGiven env 0 hash) (exposed : Exposed env 0 hash) :
    env.reply (secretAt "a") schedule request ≠ env.reply (secretAt "b") schedule request := by
  obtain ⟨failure, namesFile, fails⟩ := fetchBlockRaw_exposed exposed
  have replies (path : String) : env.reply (secretAt path) schedule request = some (some
      ((RpcResponse.ofError (refreshError (secretAt path) 0 failure)).intoResponseTo call)) :=
    reply_single handles (intercept_error named (fun joins => given joins (secretAt path)) (fails (secretAt path)))
  intro same
  rw [replies, replies, Option.some.injEq, Option.some.injEq] at same
  exact refreshError_tells namesFile (message_of_intoResponseTo asks same)

theorem handles_unique {user' : User} {calls calls' : SingleOrBatchRpcRequest}
    (handles : Handles env request user calls) (handles' : Handles env request user' calls') :
    user = user' ∧ calls = calls' := by
  obtain ⟨_, _, ⟨name, header, isHeader, isUser⟩, body, isBody, decoded⟩ := handles
  obtain ⟨_, _, ⟨name', header', isHeader', isUser'⟩, body', isBody', decoded'⟩ := handles'
  obtain rfl : header = header' := Option.some.inj (isHeader.symm.trans isHeader')
  obtain rfl : body = body' := Except.ok.inj (Option.some.inj (isBody.symm.trans isBody'))
  have sameUser := isUser.symm.trans isUser'
  simp only [Option.some.injEq, Prod.mk.injEq] at sameUser
  exact ⟨sameUser.2, Except.ok.inj (decoded.symm.trans decoded')⟩

/-- Runs that differ in the secret alone give one response where no answer needs an exposed fetch.
A single request, unless the call for its header fails, gives one response only there. -/
theorem reply_same_of_noneExposed_iff (env : Environment) (request : HttpRequest) :
    (NoneExposed env request → ∀ schedule secret secret',
      env.reply secret schedule request = env.reply secret' schedule request) ∧
    ∀ user call, Handles env request user (.single call) →
      (∀ hash, joinsHeader call = true → fetches user call = some hash → HeaderGiven env 0 hash) →
      (∀ schedule secret secret', env.reply secret schedule request = env.reply secret' schedule request) →
      NoneExposed env request := by
  refine ⟨fun safe schedule secret secret' => reply_same safe, fun user call handles given same => ?_⟩
  intro user' calls handles' key member asks hash named exposed
  obtain ⟨rfl, rfl⟩ := handles_unique handles handles'
  obtain rfl := elements_single member
  exact reply_tells handles asks named (fun joins => given hash joins named) exposed (same [] _ _)

end

/-! A pruned block, and a cookie file that is gone when the peers are asked for. -/

def prunedText : JsonText :=
  let plain (text : String) : Literal := text.toList.map fun char => { escaped := false, char }
  .object [(plain "method", .string (plain getBlock)),
    (plain "params", .array [.string (plain (String.ofList (List.replicate 64 '0'))), .number (some (.posInt 0))])]

def prunedCall : RpcRequest :=
  { jsonrpc := none, id := none, method := getBlock,
    params := .array [encodeHash Digest.zeros, .number (.posInt 0)] }

def prunedState : State :=
  { paymentState with users := [("pay", explorer)], parseText := fun _ => some prunedText }

/-- `listed` are the peers of an update that is out of date. -/
def prunedEnvironment (listed : List String) : Environment :=
  let pruned : RpcError := { code := miscErrorCode, message := pruneErrorMessage, status := none }
  { base := prunedState,
    tryLoad := fun step =>
      match step with
      | .peers _ => Future.pure (.error .metadata)
      | _ => Future.pure (.ok []),
    getBlock := fun _ _ _ => Future.pure (.ok { id := none, error := some pruned, result := none }),
    getBlockHeader := fun _ _ _ => Future.pure (.error (.hyper "connection refused")),
    decodeRawTransaction := fun _ _ _ => Future.pure (.error (.hyper "connection refused")),
    getPeerInfo := fun _ _ => Future.pure (.error (.hyper "connection refused")),
    getBlockchainInfo := fun _ _ _ => Future.pure (.error (.hyper "connection refused")),
    fromNull := fun _ => ⟨["invalid type: null"]⟩,
    cached := fun _ _ => none,
    stale := fun _ => true,
    listed := fun _ => listed,
    network := fun _ _ => none,
    order := fun _ addrs => addrs,
    askPeer := fun _ _ _ _ _ => Future.pure none }

theorem prunedEnvironment_handles (listed : List String) :
    Handles (prunedEnvironment listed) paymentHttp explorer (.single prunedCall) := by
  have user : prunedState.users.get prunedState.credentials (utf8Bytes "Basic cGF5OnNlY3JldA==") =
      some (some ("pay", explorer)) := by decide +kernel
  have decoded : prunedState.decodeRequest paymentBody = .ok (.single prunedCall) := by decide +kernel
  exact ⟨by decide, rfl, ⟨"pay", _, rfl, user⟩, _, rfl, decoded⟩

theorem reply_same_of_listed_peers :
    (∀ schedule secret secret', (prunedEnvironment ["203.0.113.9:8333"]).reply secret schedule paymentHttp =
      (prunedEnvironment ["203.0.113.9:8333"]).reply secret' schedule paymentHttp) ∧
    ¬∀ schedule secret secret', (prunedEnvironment []).reply secret schedule paymentHttp =
      (prunedEnvironment []).reply secret' schedule paymentHttp := by
  constructor
  · refine (reply_same_of_noneExposed_iff _ _).1 ?_
    intro user calls handles key member asks hash named exposed
    have unlisted : ["203.0.113.9:8333"] = [] := exposed.unlisted
    simp at unlisted
  · intro same
    have safe := (reply_same_of_noneExposed_iff _ _).2 explorer prunedCall (prunedEnvironment_handles [])
      (fun hash joins => by simp [joinsHeader, prunedCall, Number.asU64] at joins) same
    refine safe explorer _ (prunedEnvironment_handles []) (0, prunedCall) (by simp [elements]) rfl
      Digest.zeros (by decide +kernel) ?_
    exact ⟨rfl, ⟨[], _, rfl, rfl, rfl⟩, rfl, rfl, .metadata, rfl, rfl⟩

def homeSecret (user : String) : Secret :=
  { path := "/home/" ++ user ++ "/.bitcoin/.cookie", osError := fun _ => "No such file or directory (os error 2)" }

theorem prunedEnvironment_reply (secret : Secret) :
    (prunedEnvironment []).reply secret [] paymentHttp =
      some (some ((RpcResponse.ofError (refreshError secret 0 .metadata)).intoResponseTo prunedCall)) :=
  reply_single (prunedEnvironment_handles []) rfl

theorem missing_cookie_told :
    (∃ response, (prunedEnvironment []).reply (homeSecret "alice") [] paymentHttp = some (some response) ∧
      response.body.value = some (.ok (.json (.object [
        ("error", .object [("code", .number (.negInt (-1))),
          ("message", .string ("failed to call Bitcoin RPC: failed to load authentication data: " ++
            "failed to get metadata of file /home/alice/.bitcoin/.cookie: " ++
            "No such file or directory (os error 2)"))]),
        ("id", .null), ("result", .null)])))) ∧
    (prunedEnvironment []).reply (homeSecret "alice") [] paymentHttp ≠
      (prunedEnvironment []).reply (homeSecret "bob") [] paymentHttp := by
  constructor
  · exact ⟨_, prunedEnvironment_reply _, by decide +kernel⟩
  · intro same
    rw [prunedEnvironment_reply, prunedEnvironment_reply, Option.some.injEq, Option.some.injEq] at same
    have messages := message_of_intoResponseTo rfl same
    revert messages
    decide +kernel

end BtcRpcProxy.CredentialFailures
