import BtcRpcProxy.NetworkParams

/-!
`RpcClient::call` (`client.rs`): the calls the proxy makes for itself, and the replies to them as
`rpc_methods.rs` reads them. bitcoind names a member of an object once.
-/

namespace BtcRpcProxy

open Polled Blocks

/-! Replies. -/

def readI64 : Json → Option Int64
  | .number (.posInt value) => if value.toNat < 2 ^ 63 then some value.toInt64 else none
  | .number (.negInt value) => some value
  | _ => none

def readUsize (value : Json) : Option Nat := (readU64 value).map UInt64.toNat

def readBool : Json → Option Bool
  | .bool value => some value
  | _ => none

def readList {Value : Type} (read : Json → Option Value) : Json → Option (List Value)
  | .array items => items.mapM read
  | _ => none

/-- What a derived `Deserialize` reads: the members of an object, or as many items in the order of the fields. -/
def structMembers (fields : List String) : Json → Option (List (String × Json))
  | .object members => some members
  | .array items => if items.length = fields.length then some (fields.zip items) else none
  | _ => none

@[simp] theorem structMembers_object (fields : List String) (members : List (String × Json)) :
    structMembers fields (.object members) = some members := rfl

/-- The `status` is skipped. -/
def RpcError.read (error : Json) : Option RpcError := do
  let members ← structMembers ["code", "message"] error
  let code ← (members.lookup "code").bind readI64
  let message ← (members.lookup "message").bind readString
  pure { code, message, status := none }

def RpcResponse.read {Response : Type} (readResult : Json → Option Response) (reply : Json) :
    Option (RpcResponse Response) := do
  let members ← structMembers ["id", "error", "result"] reply
  let id ← readOptional some (members.lookup "id")
  let error ← readOptional RpcError.read (members.lookup "error")
  let result ← readOptional readResult (members.lookup "result")
  pure { id, error, result }

/-- The header is flattened into the block, which is read from an object alone. -/
def readBlockResult (floatBits : Number → UInt64) (members : List (String × Json)) : Option GetBlockResult := do
  let header ← readHeader floatBits members
  let size ← (members.lookup "size").bind readUsize
  let strippedsize ← readOptional readUsize (members.lookup "strippedsize")
  let weight ← (members.lookup "weight").bind readUsize
  let tx ← (members.lookup "tx").bind (readList readHash)
  pure { header, size, strippedsize, weight, tx }

/-- `Either`, of which the left is tried first. -/
def readBlockReply (floatBits : Number → UInt64) : Json → Option BlockReply
  | .string text => (hexBytes text.toList).map .left
  | .object members => (readBlockResult floatBits members).map .right
  | _ => none

def headerFields : List String :=
  ["hash", "confirmations", "height", "version", "versionHex", "merkleroot", "time", "mediantime", "nonce", "bits",
    "difficulty", "chainwork", "nTx", "previousblockhash", "nextblockhash"]

def readHeaderReply (floatBits : Number → UInt64) : Json → Option HeaderReply
  | .string text => (hexBytes text.toList).map .left
  | header => ((structMembers headerFields header).bind (readHeader floatBits)).map .right

def readPeerInfo (info : Json) : Option PeerInfo := do
  let members ← structMembers ["addr", "servicesnames", "inbound"] info
  let addr ← (members.lookup "addr").bind readString
  let servicesnames ← (members.lookup "servicesnames").bind (readList readString)
  let inbound ← (members.lookup "inbound").bind readBool
  pure { addr, servicesnames, inbound }

def readNetworkReply (info : Json) : Option BlockchainInfo :=
  (structMembers ["chain", "signet_challenge"] info).bind Network.readBlockchainInfo

/-! Calls. -/

def peerInfoCall : InternalCall := { method := "getpeerinfo", params := .array [] }

def blockchainInfoCall : InternalCall := { method := "getblockchaininfo", params := .array [] }

/-- Without a version and an id, which are skipped. -/
def InternalCall.encode (call : InternalCall) : Json :=
  .object [("method", .string call.method), ("params", call.params)]

/-- bitcoind behind the HTTP client. `post` gives the status and the body of its response or the message of
`hyper`'s error, `parseReply` is `serde_json` reading bytes, and the two errors are those for bytes that are
no reply. -/
structure Node where
  post : Json → HeaderValue → Future Empty (Except String (String × List UInt8))
  parseReply : List UInt8 → Option Json
  parseError : List UInt8 → String
  utf8Error : List UInt8 → String
  floatBits : Number → UInt64

namespace Node

variable {Response : Type} (node : Node)

def readResponse (method : String) (readResult : Json → Option Response) :
    Except String (String × List UInt8) → Except ClientError (RpcResponse Response)
  | .error error => .error (.hyper error)
  | .ok (status, body) =>
      match (node.parseReply body).bind (RpcResponse.read readResult) with
      | some response => .ok response
      | none =>
          match fromUtf8 body with
          | some text => .error (.parseResponseUtf8 method status text (node.parseError body))
          | none => .error (.responseNotUtf8 method status (node.utf8Error body))

def ask (readResult : Json → Option Response) (call : InternalCall) (authorization : HeaderValue) :
    Future InternalCall (Except ClientError (RpcResponse Response)) :=
  ((node.post call.encode authorization).silent.emit [call]).map (node.readResponse call.method readResult)

/-- `RpcClient::call`. -/
def call (tryLoad : Future Empty (Except AuthLoadError HeaderValue)) (readResult : Json → Option Response)
    (call : InternalCall) : Future InternalCall (Except ClientError (RpcResponse Response)) :=
  tryLoad.silent.bind fun loaded =>
    match loaded with
    | .error error => Future.pure (.error (.loadAuth error))
    | .ok authorization => node.ask readResult call authorization

open CredentialFailures

/-- What a request meets where all calls go to this node and none of the peers' messages does. -/
def serving (env : Environment)
    (askPeer : Nat → Nat → String → NetworkParams → Digest → Future Empty (Option Block)) : Environment :=
  { env with
    getBlock := fun _ hash => node.ask (readBlockReply node.floatBits) (blockCall hash),
    getBlockHeader := fun _ call => node.ask (readHeaderReply node.floatBits) call,
    decodeRawTransaction := fun _ call => node.ask some call,
    getPeerInfo := fun _ => node.ask (readList readPeerInfo) peerInfoCall,
    getBlockchainInfo := fun _ _ => node.ask readNetworkReply blockchainInfoCall,
    askPeer := fun place peer addr params hash => (askPeer place peer addr params hash).silent }

end Node

theorem environment_call_eq {Response : Type} (env : CredentialFailures.Environment)
    (secret : CredentialFailures.Secret) (node : Node) (step : CredentialFailures.LoadStep)
    (readResult : Json → Option Response) (call : InternalCall) :
    env.call secret step (node.ask readResult call) = node.call (env.load secret step) readResult call := rfl

end BtcRpcProxy
