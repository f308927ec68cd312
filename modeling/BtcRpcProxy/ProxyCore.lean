import BtcRpcProxy.UsersCore

/-!
`proxy_request`: the path, the method, the user and the body of an HTTP request, and what
becomes of it.
-/

namespace BtcRpcProxy

open Polled

structure HttpRequest where
  path : String
  method : String
  authorization : Option HeaderValue
  body : Future Empty (Except AnyhowError (List UInt8))

/-- `parseText` is `serde_json` reading bytes as a JSON text, `requestError` its message when
these are no request. The upstream may differ from one element of a batch to the next. -/
structure State where
  rpcClient : RpcClient
  users : Users
  credentials : Credentials
  upstream : Nat → Upstream
  parseText : List UInt8 → Option JsonText
  requestError : List UInt8 → String

namespace HttpResponse

def unauthorized : HttpResponse :=
  { status := 401,
    headers := [.wwwAuthenticate "Basic realm=\"jsonrpc\""],
    body := Future.pure (.ok .empty) }

def methodNotAllowed : HttpResponse :=
  { status := 405, headers := [],
    body := Future.pure (.ok (.text "JSONRPC server handles only POST requests")) }

def notFound : HttpResponse := ofEmpty 404

end HttpResponse

namespace State

def decodeRequest (state : State) (body : List UInt8) : Except RpcError SingleOrBatchRpcRequest :=
  match (state.parseText body).bind SingleOrBatchRpcRequest.decode with
  | some request => .ok request
  | none => .error (RpcError.ofJsonError (state.requestError body))

def walletPath (user : User) (path : String) : String := user.overrideWallet.getD path

def serve (state : State) (schedule : List Nat) (path : String) (user : User)
    (read : Except AnyhowError (List UInt8)) : Option (Future Effect (Except AnyhowError HttpResponse)) :=
  match read with
  | .error error => some (Future.pure (.error error))
  | .ok body =>
      match state.decodeRequest body with
      | .error error => some (Future.pure (.ok (RpcResponse.ofError error).intoResponse))
      | .ok request =>
          state.rpcClient.send schedule (walletPath user path) request fun place =>
            user.intercept (state.upstream place)

def handlesPath (path : String) : Bool :=
  path == "/" || path == "" || (stripStart "/wallet/".toList path.toList).isSome

def proxyRequest (state : State) (schedule : List Nat) (request : HttpRequest) :
    Option (Future Effect (Except AnyhowError HttpResponse)) :=
  if handlesPath request.path then
    if request.method == "POST" then
      match (request.authorization.map (state.users.get state.credentials)).getD (some none) with
      | none => some (.panic [])
      | some none => some (Future.pure (.ok HttpResponse.unauthorized))
      | some (some (_, user)) =>
          match request.body.value with
          | none => some (.panic [])
          | some read =>
              (state.serve schedule request.path user read).map fun answer =>
                request.body.silent.bind fun _ => answer
    else some (Future.pure (.ok HttpResponse.methodNotAllowed))
  else some (Future.pure (.ok HttpResponse.notFound))

end State

end BtcRpcProxy
