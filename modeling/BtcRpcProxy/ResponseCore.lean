import BtcRpcProxy.RequestCore
import BtcRpcProxy.PolledFuture

/-! Errors and replies of the proxy, and the HTTP responses they become (`client.rs`). -/

namespace BtcRpcProxy

open Polled

def miscErrorCode : Int64 := -1
def methodNotAllowedErrorCode : Int64 := -32604
def parseErrorCode : Int64 := -32700
def methodNotAllowedErrorMessage : String := "Method not allowed"
def pruneErrorMessage : String := "Block not available (pruned data)"

/-- `anyhow::Error`: the messages of its source chain, the outermost first. -/
structure AnyhowError where
  chain : List String
  deriving DecidableEq, Repr

def AnyhowError.alternate (error : AnyhowError) : String := ": ".intercalate error.chain

/-- `status` is the HTTP answer for a request the proxy refuses or cannot serve. -/
structure RpcError where
  code : Int64
  message : String
  status : Option Nat
  deriving DecidableEq, Repr

def RpcError.ofError (error : AnyhowError) : RpcError :=
  { code := miscErrorCode, message := error.alternate, status := none }

def RpcError.ofJsonError (message : String) : RpcError :=
  { code := parseErrorCode, message, status := none }

structure RpcResponse (Response : Type) where
  id : Option Json
  error : Option RpcError
  result : Option Response
  deriving Repr

def RpcResponse.ofError (error : RpcError) : RpcResponse Json :=
  { id := none, error := some error, result := none }

/-- Without an error or a result the reply is decoded from `null`. -/
def RpcResponse.intoResult {Response : Type} (fromNull : Except AnyhowError Response)
    (response : RpcResponse Response) : Except RpcError Response :=
  match response.error with
  | some error => .error error
  | none =>
      match response.result with
      | some result => .ok result
      | none => fromNull.mapError RpcError.ofError

/-! Loading bitcoind's credentials, and calling it. -/

abbrev HeaderValue := List UInt8

inductive AuthLoadError
  | metadata (path : String) (error : String)
  | modified (path : String) (error : String)
  | read (path : String) (error : String)
  | headerValue (error : String)
  deriving DecidableEq, Repr

def AuthLoadError.intoError : AuthLoadError → AnyhowError
  | .metadata path error => ⟨["failed to get metadata of file " ++ path, error]⟩
  | .modified path error => ⟨["failed to get modification time of file " ++ path, error]⟩
  | .read path error => ⟨["failed to read file " ++ path, error]⟩
  | .headerValue error => ⟨["invalid header value", error]⟩

inductive ClientError
  | serde (error : String)
  | loadAuth (error : AuthLoadError)
  | hyper (error : String)
  | http (error : String)
  | parseResponseUtf8 (method : String) (status : String) (body : String) (serdeError : String)
  | responseNotUtf8 (method : String) (status : String) (utf8Error : String)
  deriving DecidableEq, Repr

def ClientError.toString : ClientError → String
  | .serde _ => "serialization failed"
  | .loadAuth _ => "failed to load authentication data"
  | .hyper _ => "hyper failed to process HTTP request"
  | .http _ => "invalid HTTP request"
  | .parseResponseUtf8 method status body _ =>
      "HTTP response (status: " ++ status ++ ") to method " ++ method ++
        " can't be parsed as json, body: " ++ body
  | .responseNotUtf8 method status _ =>
      "HTTP response (status: " ++ status ++ ") to method " ++ method ++ " is not UTF-8"

def RpcError.ofClientError (error : ClientError) : RpcError :=
  { code := miscErrorCode, message := error.toString, status := none }

/-! HTTP. -/

structure InternalCall where
  method : String
  params : Json
  deriving DecidableEq, Repr

/-- The bytes of a body, as the JSON document they are where they are one. -/
inductive Body
  | empty
  | json (document : Json)
  | text (content : String)
  deriving DecidableEq, Repr

inductive Header
  | contentLength (body : Body)
  | wwwAuthenticate (challenge : String)
  deriving DecidableEq, Repr

/-- A body is read as it arrives, and reading it can fail. -/
structure HttpResponse where
  status : Nat
  headers : List Header
  body : Future Empty (Except AnyhowError Body)

namespace HttpResponse

def statusOk : Nat := 200
def noContent : Nat := 204
def forbidden : Nat := 403
def internalServerError : Nat := 500

def ofJson (status : Nat) (document : Json) : HttpResponse :=
  { status, headers := [.contentLength (.json document)], body := Future.pure (.ok (.json document)) }

def ofEmpty (status : Nat) : HttpResponse :=
  { status, headers := [], body := Future.pure (.ok .empty) }

end HttpResponse

/-! The proxy's own replies. -/

def Number.ofI64 (value : Int64) : Number :=
  if value < 0 then .negInt value else .posInt value.toUInt64

def RpcError.encode (error : RpcError) : Json :=
  .object [("code", .number (Number.ofI64 error.code)), ("message", .string error.message)]

def RpcError.encodeOption (error : Option RpcError) : Json := (error.map RpcError.encode).getD .null

namespace RpcResponse

open HttpResponse

def encode (response : RpcResponse Json) : Json :=
  .object [("id", response.id.getD .null), ("error", RpcError.encodeOption response.error),
    ("result", response.result.getD .null)]

def intoResponse (response : RpcResponse Json) : HttpResponse :=
  match response.error with
  | some error => ofJson (error.status.getD internalServerError) response.encode
  | none => ofJson statusOk response.encode

def intoReply (response : RpcResponse Json) (request : RpcRequest) : Json :=
  let id := request.id.getD .null
  if request.isV2 then
    -- 2.0 carries only the member that applies.
    match response.error with
    | some error =>
        .object (mapOfEntries [("jsonrpc", .string "2.0"), ("error", error.encode), ("id", id)])
    | none =>
        .object (mapOfEntries [("jsonrpc", .string "2.0"),
          ("result", response.result.getD .null), ("id", id)])
  else
    .object (mapOfEntries [("id", id), ("error", RpcError.encodeOption response.error),
      ("result", response.result.getD .null)])

def intoResponseTo (response : RpcResponse Json) (request : RpcRequest) : HttpResponse :=
  match response.error.bind RpcError.status with
  | some status => ofJson status (response.intoReply request)
  | none =>
      if request.isNotification then ofEmpty noContent
      -- 2.0 reports a failed call in the body of a 200.
      else if response.error.isSome && !request.isV2 then
        ofJson internalServerError (response.intoReply request)
      else ofJson statusOk (response.intoReply request)

end RpcResponse

end BtcRpcProxy
