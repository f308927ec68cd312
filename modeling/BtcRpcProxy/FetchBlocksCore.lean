import BtcRpcProxy.BlockCacheCore
import BtcRpcProxy.Interleaving
import BtcRpcProxy.RpcMethodsCore

/-!
Fetching a block from bitcoind or from peers (`fetch_blocks.rs` and `State::get_peers`): any
number of `fetch_block_raw` calls over one cache and one set of pooled connections. What
bitcoind and the peers send, failures, timeouts and the age of the peer list are the events of
a call, in any order. Errors of a peer are only logged and carry no text here, and the magic
number every message starts with is left out.
-/

namespace BtcRpcProxy.FetchBlocks

open Blocks Interleaved

/-! Peers and the connections to them. -/

/-- `getData` asks for one block, with its witnesses. -/
inductive NetworkMessage
  | version
  | verack
  | getData (hash : Digest)
  | block (block : Block)
  | ping (nonce : UInt64)
  | pong (nonce : UInt64)
  | other (command : String)

/-- The messages of a connection so far, the newest last. -/
structure Connection where
  sent : List NetworkMessage
  received : List NetworkMessage

namespace Connection

def write (conn : Connection) (message : NetworkMessage) : Connection :=
  { conn with sent := conn.sent ++ [message] }

def read (conn : Connection) (message : NetworkMessage) : Connection :=
  { conn with received := conn.received ++ [message] }

/-- The handshake reads two messages, and does not look at them. -/
def connect (first second : NetworkMessage) : Connection :=
  let conn : Connection := { sent := [.version], received := [first, second] }
  conn.write .verack

end Connection

/-- One pool for each `Peer` there has been, with room for one connection. -/
abbrev Pools := List (Option Connection)

structure Peer where
  addr : String
  pool : Nat

structure PeerHandle where
  addr : String
  conn : Option Connection
  send : Nat

structure RecyclableConnection where
  conn : Connection
  send : Nat

def Peer.handle (pools : Pools) (peer : Peer) : PeerHandle × Pools :=
  ({ addr := peer.addr, conn := (pools[peer.pool]?).join, send := peer.pool },
    pools.set peer.pool none)

def handles (pools : Pools) : List Peer → List PeerHandle × Pools
  | [] => ([], pools)
  | peer :: rest =>
      let (handle, pools) := peer.handle pools
      let (later, pools) := handles pools rest
      (handle :: later, pools)

/-- `try_send`: the connection is lost when the pool has one. -/
def RecyclableConnection.recycle (recyclable : RecyclableConnection) (pools : Pools) : Pools :=
  match pools[recyclable.send]? with
  | some none => pools.set recyclable.send (some recyclable.conn)
  | _ => pools

def PeerInfo.fetchable (info : PeerInfo) : Bool :=
  !info.inbound && (info.servicesnames.contains "NETWORK" && info.servicesnames.contains "WITNESS")

structure Peers where
  fetched : Bool
  peers : List Peer

namespace Peers

def new : Peers := { fetched := false, peers := [] }

/-- `aged` is whether the list is older than `max_peer_age`. -/
def stale (peers : Peers) (aged : Bool) : Bool := !peers.fetched || aged

def isEmpty (peers : Peers) : Bool := peers.peers.isEmpty

def updated (pools : Pools) (infos : List PeerInfo) : Peers × Pools :=
  let addrs := (infos.filter PeerInfo.fetchable).map PeerInfo.addr
  ({ fetched := true,
     peers := (addrs.zipIdx pools.length).map fun entry => { addr := entry.1, pool := entry.2 } },
    pools ++ addrs.map fun _ => none)

end Peers

/-! One block from one peer. -/

inductive PeerFetch
  | connecting (addr : String) (send : Nat)
  | connected (conn : RecyclableConnection)
  | reading (conn : RecyclableConnection)
  | answering (nonce : UInt64) (conn : RecyclableConnection)
  | ended (result : Option (Block × RecyclableConnection))
  | panicked

/-- `failed` is any error, of the network parameters or of the connection, or a timeout. -/
inductive PeerEvent
  | handshake (first second : NetworkMessage)
  | written
  | read (message : NetworkMessage)
  | failed

def PeerHandle.connect (handle : PeerHandle) : PeerFetch :=
  match handle.conn with
  | some conn => .connected { conn, send := handle.send }
  | none => .connecting handle.addr handle.send

def RecyclableConnection.write (recyclable : RecyclableConnection) (message : NetworkMessage) :
    RecyclableConnection :=
  { recyclable with conn := recyclable.conn.write message }

def RecyclableConnection.read (recyclable : RecyclableConnection) (message : NetworkMessage) :
    RecyclableConnection :=
  { recyclable with conn := recyclable.conn.read message }

section

variable (sha256d : List UInt8 → Digest)

def handleMessage (hash : Digest) (conn : RecyclableConnection) : NetworkMessage → PeerFetch
  | .block block =>
      match checkWitnesses sha256d block with
      | none => .panicked
      | some _ => .ended (if accepted sha256d hash block then some (block, conn) else none)
  | .ping nonce => .answering nonce conn
  | _ => .reading conn

def fetchBlockFromPeer (hash : Digest) (fetch : PeerFetch) : PeerEvent → Option PeerFetch
  | .handshake first second =>
      match fetch with
      | .connecting _ send => some (.connected { conn := Connection.connect first second, send })
      | _ => none
  | .written =>
      match fetch with
      | .connected conn => some (.reading (conn.write (.getData hash)))
      | .answering nonce conn => some (.reading (conn.write (.pong nonce)))
      | _ => none
  | .read message =>
      match fetch with
      | .reading conn => some (handleMessage sha256d hash (conn.read message) message)
      | _ => none
  | .failed => some (.ended none)

/-! One block from any peer. -/

/-- The runner and the channel it sends into. `then` holds one fetch at a time and
`for_each_concurrent` the futures of its handler, each of which is ready at once. -/
structure Runner where
  waiting : List PeerHandle
  active : Option PeerFetch
  handling : Nat
  channel : List Block

inductive RunnerEvent
  | start (position : Nat)
  | peer (event : PeerEvent)
  | handled

namespace Runner

def new (peers : List PeerHandle) : Runner :=
  { waiting := peers, active := none, handling := 0, channel := [] }

/-- `for_each_concurrent` polls its stream only below the limit, and takes zero for no limit. -/
def room (limit : Option Nat) (runner : Runner) : Bool :=
  match limit with
  | none => true
  | some 0 => true
  | some (limit + 1) => decide (runner.handling < limit + 1)

/-- The handler. A clone of the sender always has room for one block. -/
def handle (runner : Runner) (pools : Pools) : Option (Block × RecyclableConnection) → Runner × Pools
  | some (block, conn) =>
      ({ runner with active := none, handling := runner.handling + 1, channel := runner.channel ++ [block] },
        conn.recycle pools)
  | none => ({ runner with active := none, handling := runner.handling + 1 }, pools)

def poll (limit : Option Nat) (hash : Digest) (runner : Runner) (pools : Pools) :
    RunnerEvent → Option (Runner × Pools)
  | .start position =>
      match runner.active, runner.waiting[position]? with
      | none, some handle =>
          if runner.room limit then
            some ({ runner with waiting := runner.waiting.eraseIdx position, active := some handle.connect },
              pools)
          else none
      | _, _ => none
  | .peer event =>
      match runner.active with
      | none => none
      | some fetch =>
          if runner.room limit then
            match fetchBlockFromPeer sha256d hash fetch event with
            | none => none
            | some (.ended result) => some (runner.handle pools result)
            | some fetch => some ({ runner with active := some fetch }, pools)
          else none
  | .handled =>
      if 0 < runner.handling then some ({ runner with handling := runner.handling - 1 }, pools) else none

def isDone (runner : Runner) : Bool :=
  runner.waiting.isEmpty && runner.active.isNone && runner.handling == 0

end Runner

end

/-! `fetch_block_raw`. -/

/-- What the calls run with. `blockFromNull` is the error of a reply with no result. -/
structure Config where
  sha256d : List UInt8 → Digest
  usizeMax : Nat
  maxPeerConcurrency : Option Nat
  blockFromNull : AnyhowError

/-- `replies` records what bitcoind answered to `getblock`. -/
structure Shared where
  blockCache : BlockCache Digest
  peers : Peers
  pools : Pools
  replies : List (InternalCall × Except ClientError (RpcResponse BlockReply))

def Shared.new (maxBytes : Nat) : Shared :=
  { blockCache := BlockCache.new maxBytes, peers := Peers.new, pools := [], replies := [] }

inductive Progress
  | started
  | missed
  | pruned
  | updating
  | listed (peers : Peers)
  | fetching (runner : Runner)
  | fetched (block : Block)
  | returned (result : Except RpcError (Option (List UInt8)))
  | panicked
  | dropped

structure Call where
  hash : Digest
  progress : Progress

def Call.bytes (call : Call) : Option (List UInt8) :=
  match call.progress with
  | .returned (.ok result) => result
  | _ => none

/-- `proceed` is a step that waits for nothing. -/
inductive Event
  | proceed
  | selfReplied (called : Except ClientError (RpcResponse BlockReply))
  | peersRead (aged : Bool)
  | peersUpdated (infos : Except AnyhowError (List PeerInfo))
  | runner (event : RunnerEvent)
  | received
  | runnerEnded
  | dropped

def unexpectedBlock : AnyhowError := ⟨["unexpected response for getblock"]⟩

def fetchBlockFromSelf (blockFromNull : AnyhowError)
    (called : Except ClientError (RpcResponse BlockReply)) : Except RpcError (Option (List UInt8)) :=
  match called with
  | .error error => .error (RpcError.ofClientError error)
  | .ok response =>
      match response.intoResult (.error blockFromNull) with
      | .ok reply =>
          match reply.intoLeft with
          | some bytes => .ok (some bytes)
          | none => .error (RpcError.ofError unexpectedBlock)
      | .error error =>
          if error.code = miscErrorCode ∧ error.message = pruneErrorMessage then .ok none else .error error

def lookUp (shared : Shared) (hash : Digest) : Shared × Progress :=
  match shared.blockCache.get hash with
  | (some block, blockCache) => ({ shared with blockCache }, .returned (.ok (some block)))
  | (none, blockCache) => ({ shared with blockCache }, .missed)

def askSelf (config : Config) (shared : Shared) (hash : Digest)
    (called : Except ClientError (RpcResponse BlockReply)) : Shared × Progress :=
  ({ shared with replies := (blockCall hash, called) :: shared.replies },
    match fetchBlockFromSelf config.blockFromNull called with
    | .ok (some block) => .returned (.ok (some block))
    | .ok none => .pruned
    | .error error => .returned (.error error))

/-- `get_peers` waits for an update only where it has no peers at all. -/
def getPeers (shared : Shared) (aged : Bool) : Progress :=
  if shared.peers.stale aged && shared.peers.isEmpty then .updating else .listed shared.peers

def Shared.update (shared : Shared) (infos : List PeerInfo) : Shared :=
  let (peers, pools) := Peers.updated shared.pools infos
  { shared with peers, pools }

def updatePeers (shared : Shared) : Except AnyhowError (List PeerInfo) → Shared × Progress
  | .ok infos => (shared.update infos, .listed (shared.update infos).peers)
  | .error error => (shared, .returned (.error (RpcError.ofError error)))

def takeHandles (shared : Shared) (peers : Peers) : Shared × Progress :=
  let (handles, pools) := handles shared.pools peers.peers
  ({ shared with pools }, .fetching (Runner.new handles))

def pollRunner (config : Config) (shared : Shared) (hash : Digest) (runner : Runner) (event : RunnerEvent) :
    Option (Shared × Progress) :=
  (runner.poll config.sha256d config.maxPeerConcurrency hash shared.pools event).map fun polled =>
    ({ shared with pools := polled.2 },
      match polled.1.active with
      | some .panicked => .panicked
      | _ => .fetching polled.1)

def receiveBlock (runner : Runner) : Option Progress :=
  match runner.channel with
  | block :: _ => some (.fetched block)
  | [] => none

/-- The channel is polled once more when the runner ends first. -/
def endRunner (runner : Runner) : Option Progress :=
  if runner.isDone then some ((receiveBlock runner).getD (.returned (.ok none))) else none

def cacheBlock (config : Config) (shared : Shared) (hash : Digest) (block : Block) : Shared × Progress :=
  match shared.blockCache.insert config.usizeMax hash block.encode with
  | some blockCache => ({ shared with blockCache }, .returned (.ok (some block.encode)))
  | none => (shared, .panicked)

def fetchBlockRaw (config : Config) (shared : Shared) (hash : Digest) (progress : Progress) :
    Event → Option (Shared × Progress)
  | .proceed =>
      match progress with
      | .started => some (lookUp shared hash)
      | .listed peers => some (takeHandles shared peers)
      | .fetched block => some (cacheBlock config shared hash block)
      | _ => none
  | .selfReplied called =>
      match progress with
      | .missed => some (askSelf config shared hash called)
      | _ => none
  | .peersRead aged =>
      match progress with
      | .pruned => some (shared, getPeers shared aged)
      | _ => none
  | .peersUpdated infos =>
      match progress with
      | .updating => some (updatePeers shared infos)
      | _ => none
  | .runner event =>
      match progress with
      | .fetching runner => pollRunner config shared hash runner event
      | _ => none
  | .received =>
      match progress with
      | .fetching runner => (receiveBlock runner).map fun next => (shared, next)
      | _ => none
  | .runnerEnded =>
      match progress with
      | .fetching runner => (endRunner runner).map fun next => (shared, next)
      | _ => none
  | .dropped =>
      match progress with
      | .returned _ => none
      | .panicked => none
      | _ => some (shared, .dropped)

def system (config : Config) : System Shared Call Digest Event (List PeerInfo) :=
  { start := fun hash => { hash, progress := .started },
    advance := fun shared call event =>
      (fetchBlockRaw config shared call.hash call.progress event).map fun moved =>
        (moved.1, { call with progress := moved.2 }),
    outside := fun shared infos => some (shared.update infos) }

end BtcRpcProxy.FetchBlocks
