import BtcRpcProxy.ResponseCore
import BtcRpcProxy.KeyedMerge

/-!
`RpcClient::send`: one request or a batch is intercepted or posted to bitcoind, and a
batch's answer is put together from the replies of both kinds.
-/

namespace BtcRpcProxy

open Polled

/-- A request posted on behalf of a client. `uri` is where it goes, after `Uri::from_parts`. -/
structure Forward where
  uri : String
  authorization : HeaderValue
  body : Json
  deriving DecidableEq, Repr

inductive Effect
  | forward (posted : Forward)
  | internal (call : InternalCall)
  deriving DecidableEq, Repr

/-- bitcoind behind the HTTP client. `tryLoad` is `AuthSource::try_load`, `parsePath` and
`fromParts` are the two steps to the URI, `request` is what comes back for a posted request
and `parseError` the message for a body that is not a list of replies. -/
structure RpcClient where
  tryLoad : Future Empty (Except AuthLoadError HeaderValue)
  parsePath : String → Except AnyhowError String
  fromParts : String → Except AnyhowError String
  request : Forward → Future Empty (Except AnyhowError HttpResponse)
  parseError : Body → String

/-- What becomes of a request: answered by the proxy, forwarded (`none`) or refused. -/
abbrev Outcome := Except RpcError (Option (RpcResponse Json))

namespace RpcClient

/-- The HTTP client may deliver the request once the future has been polled. -/
def post (client : RpcClient) (posted : Forward) : Future Effect (Except AnyhowError HttpResponse) :=
  (client.request posted).silent.emit [.forward posted]

/-! A single request. -/

def forwardSingle (client : RpcClient) (path : String) (request : RpcRequest) :
    Future Effect (Except AnyhowError HttpResponse) :=
  match client.parsePath path with
  | .error error => Future.pure (.error error)
  | .ok pathAndQuery =>
      client.tryLoad.silent.bind fun loaded =>
        match loaded with
        | .error error => Future.pure (.error error.intoError)
        | .ok authorization =>
            match client.fromParts pathAndQuery with
            | .error error => Future.pure (.error error)
            | .ok uri => client.post { uri, authorization, body := request.encode }

def sendSingle (client : RpcClient) (path : String) (request : RpcRequest)
    (intercepted : Future InternalCall Outcome) : Future Effect (Except AnyhowError HttpResponse) :=
  (intercepted.mapEffect Effect.internal).bind fun outcome =>
    match outcome with
    | .ok none => client.forwardSingle path request
    | .ok (some response) => Future.pure (.ok (response.intoResponseTo request))
    | .error error => Future.pure (.ok ((RpcResponse.ofError error).intoResponseTo request))

end RpcClient

/-! A batch. Its elements travel with their place in it. -/

abbrev Placed := Nat × RpcRequest

def placed (requests : List RpcRequest) : List Placed := requests.zipIdx.map Prod.swap

/-- bitcoind leaves notifications out of its reply. -/
def answered (forwarded : List Placed) : List Nat :=
  (forwarded.filter fun entry => !entry.2.isNotification).map Prod.fst

def pairReplies {Reply : Type} (forwarded : List Placed) (replies : List Reply) : List (Nat × Reply) :=
  (answered forwarded).zip replies

def authorizationError : RpcError :=
  { code := miscErrorCode, message := "internal server error", status := some HttpResponse.internalServerError }

namespace RpcClient

def readReplies (client : RpcClient) (forwarded : List Placed) :
    Except AnyhowError HttpResponse → Future Effect (Except RpcError (List (Nat × Json)))
  | .error error => Future.pure (.error (RpcError.ofError error))
  | .ok response =>
      if response.status = HttpResponse.noContent then
        -- All notifications: no content, and nothing to pair.
        Future.pure (.ok [])
      else
        response.body.silent.map fun read =>
          match read with
          | .error error => .error (RpcError.ofError error)
          | .ok (.json (.array replies)) => .ok (pairReplies forwarded replies)
          | .ok body => .error (RpcError.ofJsonError (client.parseError body))

def sendBatch (client : RpcClient) (path : String) (forwarded : List Placed) :
    Future Effect (Except RpcError (List (Nat × Json))) :=
  match client.parsePath path with
  | .error error => Future.pure (.error (RpcError.ofError error))
  | .ok pathAndQuery =>
      client.tryLoad.silent.bind fun loaded =>
        match loaded with
        | .error _ => Future.pure (.error authorizationError)
        | .ok authorization =>
            match client.fromParts pathAndQuery with
            | .error error => Future.pure (.error (RpcError.ofError error))
            | .ok uri =>
                let body := Json.array (forwarded.map fun entry => entry.2.encode)
                (client.post { uri, authorization, body }).bind (client.readReplies forwarded)

end RpcClient

abbrev Completed := List (Placed × Outcome)

def forwardedOf : Completed → List Placed
  | [] => []
  | (key, .ok none) :: rest => key :: forwardedOf rest
  | _ :: rest => forwardedOf rest

/-- What is sent through the channel of the intercepted ones: an answer to a
notification is dropped, an error never is. -/
def interceptedOf : Completed → List (Except RpcError (Nat × Json))
  | [] => []
  | (_, .ok none) :: rest => interceptedOf rest
  | ((index, request), .ok (some response)) :: rest =>
      if request.isNotification then interceptedOf rest
      else .ok (index, response.intoReply request) :: interceptedOf rest
  | (_, .error error) :: rest => .error error :: interceptedOf rest

def tryCollect {Error Item : Type} : List (Except Error Item) → Except Error (List Item)
  | [] => .ok []
  | .error error :: _ => .error error
  | .ok item :: rest => (tryCollect rest).map fun items => item :: items

def mergeReplies {Reply : Type} (forwarded intercepted : List (Nat × Reply)) : List Reply :=
  (Keyed.mergeBy Keyed.keyBefore (Keyed.sortByKey forwarded) (Keyed.sortByKey intercepted)).map Prod.snd

def batchAnswer (requests : List RpcRequest) (replies : List Json) : HttpResponse :=
  if replies = [] ∧ requests ≠ [] then HttpResponse.ofEmpty HttpResponse.noContent
  else HttpResponse.ofJson HttpResponse.statusOk (.array replies)

def finishBatch (requests : List RpcRequest)
    (joined : Except RpcError (List (Nat × Json) × List (Nat × Json))) : HttpResponse :=
  match joined with
  | .error error => (RpcResponse.ofError error).intoResponse
  | .ok (forwarded, intercepted) => batchAnswer requests (mergeReplies forwarded intercepted)

namespace RpcClient

def answerBatch (client : RpcClient) (path : String) (requests : List RpcRequest)
    (completed : Completed) : Future Effect HttpResponse :=
  (Future.tryJoin (client.sendBatch path (forwardedOf completed))
    (Future.pure (tryCollect (interceptedOf completed)))).map (finishBatch requests)

def interceptAll (intercept : Nat → RpcRequest → Future InternalCall Outcome)
    (requests : List RpcRequest) : List (Placed × Future InternalCall Outcome) :=
  (placed requests).map fun key => (key, intercept key.1 key.2)

/-- `schedule` is the order in which the intercepts are polled; `none` when it does not
bring all of them to their end. -/
def sendMany (client : RpcClient) (schedule : List Nat) (path : String) (requests : List RpcRequest)
    (intercept : Nat → RpcRequest → Future InternalCall Outcome) : Option (Future Effect HttpResponse) :=
  (Future.forEachConcurrent schedule (interceptAll intercept requests)).map fun run =>
    (run.mapEffect Effect.internal).bind (client.answerBatch path requests)

/-- `RpcClient::send`. `intercept` is given the place of a request in the batch, as equal
requests need not meet the same fate. -/
def send (client : RpcClient) (schedule : List Nat) (path : String) (request : SingleOrBatchRpcRequest)
    (intercept : Nat → RpcRequest → Future InternalCall Outcome) :
    Option (Future Effect (Except AnyhowError HttpResponse)) :=
  match request with
  | .single request => some (client.sendSingle path request (intercept 0 request))
  | .batch requests =>
      (client.sendMany schedule path requests intercept).map fun run => run.map Except.ok

end RpcClient

end BtcRpcProxy
