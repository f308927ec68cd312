import BtcRpcProxy.RpcMethodsCore
import BtcRpcProxy.SendCore

/-!
`User::intercept`: which calls a user may make, and which of them the proxy answers from
blocks it fetches itself. What it awaits is a parameter, as is how `serde_json` and
`bitcoin` word their errors.
-/

namespace BtcRpcProxy

open Polled Blocks

/-- What an intercept awaits and the errors it passes on. `fetchBlockRaw` is the function of
that name; `header` and `decoded` are what `RpcClient::call` gives for `getblockheader` and
`decoderawtransaction`, `decodeBlock` is `Block::consensus_decode`, and the two errors are
those of `serde_json::from_value`. -/
structure Upstream where
  sha256d : List UInt8 → Digest
  fetchBlockRaw : Digest → Future InternalCall (Except RpcError (Option (List UInt8)))
  header : InternalCall → Future InternalCall (Except ClientError (RpcResponse HeaderReply))
  decoded : InternalCall → Future InternalCall (Except ClientError (RpcResponse Json))
  decodeBlock : List UInt8 → Except AnyhowError Block
  hashError : Json → AnyhowError
  headerFromNull : AnyhowError

namespace Upstream

def fetchBlock (upstream : Upstream) (hash : Digest) :
    Future InternalCall (Except RpcError (Option Block)) :=
  (upstream.fetchBlockRaw hash).map fun fetched =>
    match fetched with
    | .error error => .error error
    | .ok none => .ok none
    | .ok (some bytes) => ((upstream.decodeBlock bytes).map some).mapError RpcError.ofError

def callHeader (upstream : Upstream) (hash : Digest) : Future InternalCall (Except RpcError HeaderReply) :=
  (upstream.header (headerCall hash)).map fun called =>
    match called with
    | .error error => .error (RpcError.ofClientError error)
    | .ok response => response.intoResult (.error upstream.headerFromNull)

def callDecode (upstream : Upstream) (transaction : String) : Future InternalCall (Except RpcError Json) :=
  (upstream.decoded (decodeCall transaction)).map fun called =>
    match called with
    | .error error => .error (RpcError.ofClientError error)
    | .ok response => response.intoResult (.ok .null)

end Upstream

/-- What a request is refused for, or answered with when there is no block. -/
def methodNotAllowed : RpcError :=
  { code := methodNotAllowedErrorCode, message := methodNotAllowedErrorMessage,
    status := some HttpResponse.forbidden }

def miscError (message : String) : RpcError := { code := miscErrorCode, message, status := none }

def unexpectedHeader : AnyhowError := ⟨["unexpected response for getblockheader"]⟩

namespace RpcRequest

def answer (request : RpcRequest) (result : Json) : RpcResponse Json :=
  { id := request.id, error := none, result := some result }

def fail (request : RpcRequest) (error : RpcError) : RpcResponse Json :=
  { id := request.id, error := some error, result := none }

end RpcRequest

def withBlockHash (upstream : Upstream) (params : List Json)
    (next : Digest → Future InternalCall Outcome) : Future InternalCall Outcome :=
  match params[0]? with
  | none => .panic []
  | some value =>
      match readHash value with
      | none => Future.pure (.error (RpcError.ofError (upstream.hashError value)))
      | some hash => next hash

def interceptBlockRaw (upstream : Upstream) (request : RpcRequest) (params : List Json) :
    Future InternalCall Outcome :=
  withBlockHash upstream params fun hash =>
    (upstream.fetchBlockRaw hash).map fun fetched =>
      match fetched with
      | .ok (some block) => .ok (some (request.answer (.string (hexEncode block))))
      | .ok none => .ok (some (request.fail (miscError pruneErrorMessage)))
      | .error error => .ok (some (RpcResponse.ofError error))

def blockResult (sha256d : List UInt8 → Digest) (header : GetBlockHeaderResult) (block : Block) :
    GetBlockResult :=
  { header,
    size := block.size,
    strippedsize := if block.strippedsize ≠ block.size then some block.strippedsize else none,
    weight := block.weight,
    tx := block.txids sha256d }

def interceptBlock (upstream : Upstream) (request : RpcRequest) (params : List Json) :
    Future InternalCall Outcome :=
  withBlockHash upstream params fun hash =>
    (Future.tryJoin (upstream.callHeader hash) (upstream.fetchBlock hash)).map fun joined =>
      match joined with
      | .ok (header, some block) =>
          match header.intoRight with
          | none => .error (RpcError.ofError unexpectedHeader)
          | some header =>
              .ok (some (request.answer (blockResult upstream.sha256d header block).encode))
      | .ok (_, none) => .ok (some (request.fail (miscError pruneErrorMessage)))
      | .error error => .ok (some (RpcResponse.ofError error))

/-- Whether a `getrawtransaction` call is one this proxy can answer, and its arguments if so. -/
def interceptable (params : List Json) : Option (Digest × Bool × Digest) :=
  match params[2]?.bind readHash with
  | none => none
  | some blockhash =>
      let verbose :=
        match params[1]? with
        | none => some false
        | some .null => some false
        | some (.bool verbose) => some verbose
        | some (.number number) =>
            if number.asU64 = some 0 then some false
            else if number.asU64 = some 1 then some true
            else none
        | some _ => none
      match verbose with
      | none => none
      | some verbose =>
          match params[0]?.bind readHash with
          | none => none
          | some txid => some (txid, verbose, blockhash)

/-- The members Core adds to the decoded transaction, from the block's header. -/
def addHeader (transaction : String) (blockhash : Digest) (header : GetBlockHeaderResult) : Json → Json
  | .object members =>
      let inActiveChain := decide (0 ≤ header.confirmations)
      let members := mapInsert "in_active_chain" (.bool inActiveChain) members
      let members := mapInsert "hex" (.string transaction) members
      let members := mapInsert "blockhash" (encodeHash blockhash) members
      let members := mapInsert "confirmations"
        (encodeI32 (if inActiveChain then header.confirmations else 0)) members
      if inActiveChain then
        .object (mapInsert "blocktime" (encodeU64 header.time)
          (mapInsert "time" (encodeU64 header.time) members))
      else .object members
  | decoded => decoded

def interceptRawTransaction (upstream : Upstream) (request : RpcRequest) (params : List Json) :
    Future InternalCall Outcome :=
  match interceptable params with
  | none => Future.pure (.ok none)
  | some (txid, verbose, blockhash) =>
      (upstream.fetchBlock blockhash).bind fun fetched =>
        match fetched with
        | .error error => Future.pure (.ok (some (RpcResponse.ofError error)))
        | .ok none => Future.pure (.ok (some (request.fail (miscError pruneErrorMessage))))
        | .ok (some block) =>
            match block.txdata.find? fun transaction => transaction.txid upstream.sha256d = txid with
            | none =>
                -- Core's own wording for this case.
                Future.pure (.ok (some (request.fail
                  (miscError "No such transaction found in the provided block."))))
            | some transaction =>
                let hex := hexEncode transaction.encode
                if !verbose then Future.pure (.ok (some (request.answer (.string hex))))
                else
                  (Future.tryJoin (upstream.callDecode hex) (upstream.callHeader blockhash)).map
                    fun joined =>
                      match joined with
                      | .ok (decoded, header) =>
                          match header.intoRight with
                          | none => .ok (some (RpcResponse.ofError (RpcError.ofError unexpectedHeader)))
                          | some header =>
                              .ok (some (request.answer (addHeader hex blockhash header decoded)))
                      | .error error => .ok (some (RpcResponse.ofError error))

/-! Users. -/

/-- The password as configured. A cookie file is read at each comparison. -/
inductive Password
  | cleartext (password : String)
  | hash (salt : String) (hash : List UInt8)
  | cookieFile (path : String)
  deriving DecidableEq, Repr

structure User where
  password : Password
  allowedCalls : Option (List String)
  fetchBlocks : Bool
  overrideWallet : Option String
  deriving DecidableEq, Repr

namespace User

def allows (user : User) (method : String) : Bool :=
  match user.allowedCalls with
  | none => true
  | some allowed => allowed.contains method

def intercept (user : User) (upstream : Upstream) (request : RpcRequest) : Future InternalCall Outcome :=
  if user.allows request.method then
    match request.params with
    | .array params =>
        if user.fetchBlocks && request.method == getBlock then
          match params[1]?.getD (.number (.posInt 1)) with
          | .number number =>
              if number.asU64 = some 0 then interceptBlockRaw upstream request params
              else if number.asU64 = some 1 then interceptBlock upstream request params
              else Future.pure (.ok none)
          | _ => Future.pure (.ok none)
        else if user.fetchBlocks && request.method == getRawTransaction then
          interceptRawTransaction upstream request params
        else Future.pure (.ok none)
    | .object _ => Future.pure (.ok none)
  else Future.pure (.error methodNotAllowed)

end User

end BtcRpcProxy
