import BtcRpcProxy.FetchBlocksCore
import BtcRpcProxy.ProxyCore

/-!
A request from the loading of bitcoind's credentials to its HTTP response: `RpcClient::call`, the
list of peers and the network parameters (`client.rs`, `fetch_blocks.rs`, `state.rs`) under the
rest of the proxy. Where the cookie file is and how the operating system words a failure stand
apart from everything else that a request meets.
-/

namespace BtcRpcProxy

open Polled Blocks

/-! Errors as the sources of an `anyhow::Error`. -/

def RpcError.toString (error : RpcError) : String :=
  "bitcoin RPC failed with code " ++ ToString.toString error.code.toInt ++ ", message: " ++ error.message

/-- Of the two for a reply that is not read only the first names its source. -/
def ClientError.intoError (error : ClientError) : AnyhowError :=
  match error with
  | .serde source => ⟨[error.toString, source]⟩
  | .loadAuth source => ⟨error.toString :: source.intoError.chain⟩
  | .hyper source => ⟨[error.toString, source]⟩
  | .http source => ⟨[error.toString, source]⟩
  | .parseResponseUtf8 _ _ _ serdeError => ⟨[error.toString, serdeError]⟩
  | .responseNotUtf8 _ _ _ => ⟨[error.toString]⟩

inductive PeerUpdateError
  | rpc (error : RpcError)
  | client (error : ClientError)

def PeerUpdateError.intoError : PeerUpdateError → AnyhowError
  | .rpc error => ⟨["Bitcoin RPC failed", error.toString]⟩
  | .client error => ⟨"failed to call Bitcoin RPC" :: error.intoError.chain⟩

/-! The network bitcoind is on. -/

structure BlockchainInfo where
  chain : String
  signetChallenge : Option (List UInt8)

structure NetworkParams where
  magic : UInt32
  defaultPeerPort : UInt16
  deriving DecidableEq, Repr

inductive NetworkError
  | unknownChain (chain : String)
  | missingSignetChallenge

def fromLeBytes : List UInt8 → UInt32
  | [] => 0
  | byte :: rest => byte.toUInt32 + 256 * fromLeBytes rest

def signetMagic (sha256d : List UInt8 → Digest) (challenge : List UInt8) : UInt32 :=
  fromLeBytes ((sha256d (encodeBytes challenge)).val.take 4)

def NetworkParams.fromBlockchainInfo (sha256d : List UInt8 → Digest) (info : BlockchainInfo) :
    Except NetworkError NetworkParams :=
  match info.chain with
  | "main" => .ok { magic := 0xD9B4BEF9, defaultPeerPort := 8333 }
  | "test" => .ok { magic := 0x0709110B, defaultPeerPort := 18333 }
  | "testnet4" => .ok { magic := 0x283F161C, defaultPeerPort := 48333 }
  | "signet" =>
      match info.signetChallenge with
      | none => .error .missingSignetChallenge
      | some challenge => .ok { magic := signetMagic sha256d challenge, defaultPeerPort := 38333 }
  | "regtest" => .ok { magic := 0xDAB5BFFA, defaultPeerPort := 18444 }
  | other => .error (.unknownChain other)

/-- An `anyhow::Error` that is logged and nothing more. -/
inductive NetworkFailure
  | client (error : ClientError)
  | rpc (error : RpcError)
  | network (error : NetworkError)

namespace CredentialFailures

/-- The uses of `AuthSource::try_load`. A `place` is that of a request in its batch. -/
inductive LoadStep
  | forward
  | header (place : Nat)
  | decode (place : Nat)
  | block (place : Nat)
  | peers (place : Nat)
  | network (place peer : Nat)
  deriving DecidableEq, Repr

/-- An `AuthLoadError` without the file and without the words of the operating system. -/
inductive LoadFailure
  | metadata
  | modified
  | read
  | headerValue (error : String)
  deriving DecidableEq, Repr

structure Secret where
  path : String
  osError : LoadStep → String

def LoadFailure.namesFile : LoadFailure → Bool
  | .headerValue _ => false
  | _ => true

def LoadFailure.error (secret : Secret) (step : LoadStep) : LoadFailure → AuthLoadError
  | .metadata => .metadata secret.path (secret.osError step)
  | .modified => .modified secret.path (secret.osError step)
  | .read => .read secret.path (secret.osError step)
  | .headerValue error => .headerValue error

/-- What a request meets. `tryLoad` is the fate of each load, and a function of an authorization
posts a call with it. `cached`, `stale`, `listed` and `network` are what the request of that place
finds in the shared state, and `order` is the one in which it asks its peers. `askPeer` is
everything with a peer once the network is known, `none` for an error. `fromNull` is the error of
a reply to the method that has no result. Of `base` the loading and the awaited calls are replaced. -/
structure Environment where
  base : State
  tryLoad : LoadStep → Future Empty (Except LoadFailure HeaderValue)
  getBlock : Nat → Digest → HeaderValue →
    Future InternalCall (Except ClientError (RpcResponse BlockReply))
  getBlockHeader : Nat → InternalCall → HeaderValue →
    Future InternalCall (Except ClientError (RpcResponse HeaderReply))
  decodeRawTransaction : Nat → InternalCall → HeaderValue →
    Future InternalCall (Except ClientError (RpcResponse Json))
  getPeerInfo : Nat → HeaderValue →
    Future InternalCall (Except ClientError (RpcResponse (List PeerInfo)))
  getBlockchainInfo : Nat → Nat → HeaderValue →
    Future InternalCall (Except ClientError (RpcResponse BlockchainInfo))
  fromNull : String → AnyhowError
  cached : Nat → Digest → Option (List UInt8)
  stale : Nat → Bool
  listed : Nat → List String
  network : Nat → Nat → Option NetworkParams
  order : Nat → List String → List String
  askPeer : Nat → Nat → String → NetworkParams → Digest → Future InternalCall (Option Block)

namespace Environment

variable (env : Environment) (secret : Secret)

def load (step : LoadStep) : Future Empty (Except AuthLoadError HeaderValue) :=
  (env.tryLoad step).map fun loaded => loaded.mapError (LoadFailure.error secret step)

def call {Response : Type} (step : LoadStep)
    (post : HeaderValue → Future InternalCall (Except ClientError (RpcResponse Response))) :
    Future InternalCall (Except ClientError (RpcResponse Response)) :=
  (env.load secret step).silent.bind fun loaded =>
    match loaded with
    | .error error => Future.pure (.error (.loadAuth error))
    | .ok authorization => post authorization

/-- `Peers::updated`, as the addresses of the peers. -/
def updated (place : Nat) : Future InternalCall (Except PeerUpdateError (List String)) :=
  (env.call secret (.peers place) (env.getPeerInfo place)).map fun called =>
    match called with
    | .error error => .error (.client error)
    | .ok response =>
        match response.intoResult (.error (env.fromNull "getpeerinfo")) with
        | .error error => .error (.rpc error)
        | .ok infos => .ok ((infos.filter FetchBlocks.PeerInfo.fetchable).map PeerInfo.addr)

/-- An update that is not awaited is logged when it fails, and the list as it is serves the call. -/
def getPeers (place : Nat) : Future InternalCall (Except AnyhowError (List String)) :=
  if env.stale place && (env.listed place).isEmpty then
    (env.updated secret place).map fun updated => updated.mapError PeerUpdateError.intoError
  else Future.pure (.ok (env.listed place))

def networkParams (place peer : Nat) : Future InternalCall (Except NetworkFailure NetworkParams) :=
  match env.network place peer with
  | some params => Future.pure (.ok params)
  | none =>
      (env.call secret (.network place peer) (env.getBlockchainInfo place peer)).map fun called =>
        match called with
        | .error error => .error (.client error)
        | .ok response =>
            match response.intoResult (.error (env.fromNull "getblockchaininfo")) with
            | .error error => .error (.rpc error)
            | .ok info =>
                (NetworkParams.fromBlockchainInfo (env.base.upstream place).sha256d info).mapError .network

def fetchBlockFromSelf (place : Nat) (hash : Digest) :
    Future InternalCall (Except RpcError (Option (List UInt8))) :=
  (env.call secret (.block place) (env.getBlock place hash)).map
    (FetchBlocks.fetchBlockFromSelf (env.fromNull "getblock"))

def fetchBlockFromPeer (place peer : Nat) (addr : String) (hash : Digest) :
    Future InternalCall (Option Block) :=
  (env.networkParams secret place peer).bind fun network =>
    match network with
    | .error _ => Future.pure none
    | .ok params => env.askPeer place peer addr params hash

def fetchBlockFromPeers (place : Nat) (hash : Digest) : Nat → List String → Future InternalCall (Option Block)
  | _, [] => Future.pure none
  | peer, addr :: rest =>
      (env.fetchBlockFromPeer secret place peer addr hash).bind fun fetched =>
        match fetched with
        | some block => Future.pure (some block)
        | none => fetchBlockFromPeers place hash (peer + 1) rest

def fetchBlockRaw (place : Nat) (hash : Digest) :
    Future InternalCall (Except RpcError (Option (List UInt8))) :=
  match env.cached place hash with
  | some block => Future.pure (.ok (some block))
  | none =>
      (env.fetchBlockFromSelf secret place hash).bind fun fetched =>
        match fetched with
        | .error error => Future.pure (.error error)
        | .ok (some block) => Future.pure (.ok (some block))
        | .ok none =>
            (env.getPeers secret place).bind fun peers =>
              match peers with
              | .error error => Future.pure (.error (RpcError.ofError error))
              | .ok addrs =>
                  (env.fetchBlockFromPeers secret place hash 0 (env.order place addrs)).map fun block =>
                    .ok (block.map Block.encode)

def upstream (place : Nat) : Upstream :=
  { env.base.upstream place with
    fetchBlockRaw := env.fetchBlockRaw secret place,
    header := fun call => env.call secret (.header place) (env.getBlockHeader place call),
    decoded := fun call => env.call secret (.decode place) (env.decodeRawTransaction place call) }

def state : State :=
  { env.base with
    rpcClient := { env.base.rpcClient with tryLoad := env.load secret .forward },
    upstream := env.upstream secret }

/-- The response a client gets, `some none` when its connection is closed without one. A request
whose handling panics, or which the schedule does not bring to its end, gets `none`. -/
def reply (schedule : List Nat) (request : HttpRequest) : Option (Option HttpResponse) :=
  ((env.state secret).proxyRequest schedule request).bind fun run => run.value.map Except.toOption

end Environment

end CredentialFailures

end BtcRpcProxy
