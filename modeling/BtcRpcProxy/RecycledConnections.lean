import BtcRpcProxy.FetchBlocks

/-!
What is open on a connection to a peer: the blocks it was asked for and has not sent, and the
pings it has not been answered. A connection goes back to its pool only with nothing open, so
the next block to come over it is the one that is asked for next.
-/

namespace BtcRpcProxy.FetchBlocks

open Blocks Interleaved

namespace NetworkMessage

def requested : NetworkMessage → Option Digest
  | .getData hash => some hash
  | _ => none

def delivered (sha256d : List UInt8 → Digest) : NetworkMessage → Option Digest
  | .block sent => some (sent.blockHash sha256d)
  | _ => none

def pinged : NetworkMessage → Option UInt64
  | .ping nonce => some nonce
  | _ => none

def ponged : NetworkMessage → Option UInt64
  | .pong nonce => some nonce
  | _ => none

end NetworkMessage

namespace Connection

def asked (conn : Connection) : List Digest := conn.sent.filterMap NetworkMessage.requested

def pongs (conn : Connection) : List UInt64 := conn.sent.filterMap NetworkMessage.ponged

/-- Of the handshake's two messages none is looked at. -/
def delivered (sha256d : List UInt8 → Digest) (conn : Connection) : List Digest :=
  (conn.received.drop 2).filterMap (NetworkMessage.delivered sha256d)

def pings (conn : Connection) : List UInt64 := (conn.received.drop 2).filterMap NetworkMessage.pinged

/-- The peer owes these blocks, and is owed a pong for each of these nonces. -/
structure Open (sha256d : List UInt8 → Digest) (conn : Connection) (blocks : List Digest)
    (nonces : List UInt64) : Prop where
  handshake : 2 ≤ conn.received.length
  asked : conn.asked = conn.delivered sha256d ++ blocks
  pings : conn.pings = conn.pongs ++ nonces

section

variable {sha256d : List UInt8 → Digest} {conn : Connection} {blocks : List Digest} {nonces : List UInt64}

@[simp] theorem asked_write (message : NetworkMessage) :
    (conn.write message).asked = conn.asked ++ message.requested.toList := by
  cases requested : message.requested <;> simp [asked, write, requested]

@[simp] theorem pongs_write (message : NetworkMessage) :
    (conn.write message).pongs = conn.pongs ++ message.ponged.toList := by
  cases ponged : message.ponged <;> simp [pongs, write, ponged]

@[simp] theorem delivered_write (message : NetworkMessage) :
    (conn.write message).delivered sha256d = conn.delivered sha256d := rfl

@[simp] theorem pings_write (message : NetworkMessage) : (conn.write message).pings = conn.pings := rfl

@[simp] theorem asked_read (message : NetworkMessage) : (conn.read message).asked = conn.asked := rfl

@[simp] theorem pongs_read (message : NetworkMessage) : (conn.read message).pongs = conn.pongs := rfl

theorem delivered_read (handshake : 2 ≤ conn.received.length) (message : NetworkMessage) :
    (conn.read message).delivered sha256d =
      conn.delivered sha256d ++ (message.delivered sha256d).toList := by
  rw [delivered, read, List.drop_append_of_le_length handshake]
  cases isDelivered : message.delivered sha256d <;> simp [delivered, isDelivered]

theorem pings_read (handshake : 2 ≤ conn.received.length) (message : NetworkMessage) :
    (conn.read message).pings = conn.pings ++ message.pinged.toList := by
  rw [pings, read, List.drop_append_of_le_length handshake]
  cases pinged : message.pinged <;> simp [pings, pinged]

theorem open_connect (sha256d : List UInt8 → Digest) (first second : NetworkMessage) :
    (connect first second).Open sha256d [] [] :=
  ⟨by simp [connect, write], rfl, rfl⟩

theorem Open.ask (isOpen : conn.Open sha256d [] nonces) (hash : Digest) :
    (conn.write (.getData hash)).Open sha256d [hash] nonces := by
  refine ⟨isOpen.handshake, ?_, ?_⟩
  · simpa [NetworkMessage.requested] using isOpen.asked
  · simpa [NetworkMessage.ponged] using isOpen.pings

theorem Open.pong {nonce : UInt64} (isOpen : conn.Open sha256d blocks [nonce]) :
    (conn.write (.pong nonce)).Open sha256d blocks [] := by
  refine ⟨isOpen.handshake, ?_, ?_⟩
  · simpa [NetworkMessage.requested] using isOpen.asked
  · simpa [NetworkMessage.ponged] using isOpen.pings

theorem Open.read (message : NetworkMessage) {later : List Digest}
    (isOpen : conn.Open sha256d ((message.delivered sha256d).toList ++ later) []) :
    (conn.read message).Open sha256d later message.pinged.toList := by
  refine ⟨Nat.le_trans isOpen.handshake (by simp [Connection.read]), ?_, ?_⟩
  · rw [delivered_read isOpen.handshake, List.append_assoc]
    exact isOpen.asked
  · have noPongs := isOpen.pings
    rw [List.append_nil] at noPongs
    rw [pings_read isOpen.handshake, noPongs, pongs_read]

end

end Connection

def PeerFetch.Clean (sha256d : List UInt8 → Digest) (hash : Digest) : PeerFetch → Prop
  | .connecting _ _ => True
  | .connected recyclable => recyclable.conn.Open sha256d [] []
  | .reading recyclable => recyclable.conn.Open sha256d [hash] []
  | .answering nonce recyclable => recyclable.conn.Open sha256d [hash] [nonce]
  | .ended (some (_, recyclable)) => recyclable.conn.Open sha256d [] []
  | .ended none => True
  | .panicked => True

section

variable {sha256d : List UInt8 → Digest} {hash : Digest}

theorem handleMessage_clean {recyclable : RecyclableConnection}
    (isOpen : recyclable.conn.Open sha256d [hash] []) (message : NetworkMessage) :
    (handleMessage sha256d hash (recyclable.read message) message).Clean sha256d hash := by
  cases message with
  | block block =>
      rw [handleMessage_block]
      -- A block that is let through is the one asked for; with any other the connection is lost.
      by_cases valid : accepted sha256d hash block = true
      · have isHash := (accepted_root valid).1
        rw [← isHash] at isOpen
        rw [if_pos valid]
        exact isOpen.read (.block block)
      · rw [if_neg valid]
        trivial
  | ping nonce => exact isOpen.read (.ping nonce)
  | version => exact isOpen.read (.version)
  | verack => exact isOpen.read (.verack)
  | getData other => exact isOpen.read (.getData other)
  | pong nonce => exact isOpen.read (.pong nonce)
  | other command => exact isOpen.read (.other command)

theorem fetchBlockFromPeer_clean {fetch next : PeerFetch} {event : PeerEvent}
    (clean : fetch.Clean sha256d hash) (step : fetchBlockFromPeer sha256d hash fetch event = some next) :
    next.Clean sha256d hash := by
  rcases fetchBlockFromPeer_cases step with ⟨first, second, _, _, _, _, rfl⟩ | ⟨_, _, rfl, rfl⟩ |
    ⟨_, _, _, rfl, rfl⟩ | ⟨message, _, _, rfl, rfl⟩ | ⟨_, rfl⟩
  · exact Connection.open_connect sha256d first second
  · exact clean.ask hash
  · exact clean.pong
  · exact handleMessage_clean clean message
  · trivial

end

/-! The runner and the pools. -/

def PoolsClean (sha256d : List UInt8 → Digest) (pools : Pools) : Prop :=
  ∀ conn, some conn ∈ pools → conn.Open sha256d [] []

def PeerHandle.Clean (sha256d : List UInt8 → Digest) (handle : PeerHandle) : Prop :=
  ∀ conn, handle.conn = some conn → conn.Open sha256d [] []

structure Runner.Clean (sha256d : List UInt8 → Digest) (hash : Digest) (runner : Runner) : Prop where
  waiting : ∀ handle ∈ runner.waiting, handle.Clean sha256d
  active : ∀ fetch, runner.active = some fetch → fetch.Clean sha256d hash

section

variable {sha256d : List UInt8 → Digest} {hash : Digest} {pools : Pools}

theorem handle_clean (clean : PoolsClean sha256d pools) (peer : Peer) :
    (peer.handle pools).1.Clean sha256d ∧ PoolsClean sha256d (peer.handle pools).2 := by
  constructor
  · intro conn isConn
    obtain ⟨slot, found, rfl⟩ : ∃ slot, pools[peer.pool]? = some slot ∧ slot = some conn := by
      simpa [Peer.handle, Option.join_eq_some_iff] using isConn
    exact clean conn (List.mem_of_getElem? found)
  · intro conn member
    rcases List.mem_or_eq_of_mem_set member with earlier | isNone
    · exact clean conn earlier
    · simp at isNone

theorem handles_clean (clean : PoolsClean sha256d pools) (peers : List Peer) :
    (∀ handle ∈ (handles pools peers).1, handle.Clean sha256d) ∧
      PoolsClean sha256d (handles pools peers).2 := by
  induction peers generalizing pools with
  | nil => exact ⟨by simp [handles], clean⟩
  | cons peer rest ih =>
      obtain ⟨firstClean, leftClean⟩ := handle_clean clean peer
      obtain ⟨laterClean, restClean⟩ := ih leftClean
      refine ⟨?_, restClean⟩
      intro handle member
      rcases List.mem_cons.mp member with rfl | later
      · exact firstClean
      · exact laterClean handle later

theorem recycle_clean (clean : PoolsClean sha256d pools) {recyclable : RecyclableConnection}
    (isClean : recyclable.conn.Open sha256d [] []) : PoolsClean sha256d (recyclable.recycle pools) := by
  unfold RecyclableConnection.recycle
  split
  · intro conn member
    rcases List.mem_or_eq_of_mem_set member with earlier | isConn
    · exact clean conn earlier
    · exact Option.some.inj isConn ▸ isClean
  · exact clean

theorem connect_clean {handle : PeerHandle} (clean : handle.Clean sha256d) :
    handle.connect.Clean sha256d hash := by
  unfold PeerHandle.connect
  split
  · rename_i conn isConn
    exact clean conn isConn
  · trivial

theorem poll_clean {limit : Option Nat} {runner : Runner} {event : RunnerEvent} {polled : Runner × Pools}
    (poolsClean : PoolsClean sha256d pools) (clean : runner.Clean sha256d hash)
    (step : runner.poll sha256d limit hash pools event = some polled) :
    polled.1.Clean sha256d hash ∧ PoolsClean sha256d polled.2 := by
  rcases poll_cases step with ⟨_, handle, _, _, found, rfl⟩ | ⟨_, fetch, result, _, isActive, fetched, rfl⟩ |
    ⟨_, fetch, next, _, isActive, fetched, _, rfl⟩ | ⟨_, _, rfl⟩
  · refine ⟨⟨?_, ?_⟩, poolsClean⟩
    · exact fun other member => clean.waiting other (List.mem_of_mem_eraseIdx member)
    · intro fetch isFetch
      rw [← Option.some.inj isFetch]
      exact connect_clean (clean.waiting handle (List.mem_of_getElem? found))
  · have ended := fetchBlockFromPeer_clean (clean.active fetch isActive) fetched
    cases result with
    | none => exact ⟨⟨clean.waiting, by simp [Runner.handle]⟩, poolsClean⟩
    | some result => exact ⟨⟨clean.waiting, by simp [Runner.handle]⟩, recycle_clean poolsClean ended⟩
  · refine ⟨⟨clean.waiting, ?_⟩, poolsClean⟩
    intro later isLater
    rw [← Option.some.inj isLater]
    exact fetchBlockFromPeer_clean (clean.active fetch isActive) fetched
  · exact ⟨⟨clean.waiting, clean.active⟩, poolsClean⟩

end

/-! Any number of calls. -/

def Progress.Clean (sha256d : List UInt8 → Digest) (hash : Digest) : Progress → Prop
  | .fetching runner => runner.Clean sha256d hash
  | _ => True

theorem update_clean {sha256d : List UInt8 → Digest} {shared : Shared}
    (clean : PoolsClean sha256d shared.pools) (infos : List PeerInfo) :
    PoolsClean sha256d (shared.update infos).pools := by
  intro conn member
  rcases List.mem_append.mp member with earlier | isNew
  · exact clean conn earlier
  · simp at isNew

theorem moves_clean {config : Config} {shared : Shared} {hash : Digest} {progress : Progress} {event : Event}
    {moved : Shared × Progress} (poolsClean : PoolsClean config.sha256d shared.pools)
    (clean : progress.Clean config.sha256d hash) (moves : Moves config shared hash progress event moved) :
    PoolsClean config.sha256d moved.1.pools ∧ moved.2.Clean config.sha256d hash := by
  cases moves with
  | lookUp =>
      unfold lookUp
      split <;> exact ⟨poolsClean, trivial⟩
  | askSelf called =>
      refine ⟨poolsClean, ?_⟩
      unfold askSelf
      split <;> trivial
  | getPeers aged =>
      refine ⟨poolsClean, ?_⟩
      unfold getPeers
      split <;> trivial
  | updatePeers infos =>
      cases infos with
      | ok infos => exact ⟨update_clean poolsClean infos, trivial⟩
      | error error => exact ⟨poolsClean, trivial⟩
  | takeHandles peers =>
      obtain ⟨waiting, left⟩ := handles_clean poolsClean peers.peers
      exact ⟨left, waiting, by simp [Runner.new]⟩
  | poll polled =>
      obtain ⟨next, progress, isPolled, rfl, outcome⟩ := pollRunner_cases polled
      obtain ⟨runnerClean, left⟩ := poll_clean poolsClean clean isPolled
      rcases outcome with ⟨_, rfl⟩ | rfl
      · exact ⟨left, trivial⟩
      · exact ⟨left, runnerClean⟩
  | receive received =>
      obtain ⟨block, _, rfl⟩ := receiveBlock_cases received
      exact ⟨poolsClean, trivial⟩
  | finish finished =>
      obtain ⟨_, ⟨block, _, rfl⟩ | ⟨_, rfl⟩⟩ := endRunner_cases finished <;> exact ⟨poolsClean, trivial⟩
  | cacheBlock block =>
      unfold cacheBlock
      split <;> exact ⟨poolsClean, trivial⟩
  | drop => exact ⟨poolsClean, trivial⟩

theorem system_clean (config : Config) :
    (system config).Keeps (fun shared => PoolsClean config.sha256d shared.pools)
      (fun _ call => call.progress.Clean config.sha256d call.hash) fun _ _ => True := by
  constructor
  · intro shared hash
    trivial
  · intro shared call event after next poolsClean clean step
    obtain ⟨progress, rfl, moves⟩ := system_moves step
    obtain ⟨afterClean, nextClean⟩ := moves_clean poolsClean clean moves
    exact ⟨afterClean, nextClean, trivial⟩
  · intro shared infos after poolsClean changed
    exact ⟨Option.some.inj changed ▸ update_clean poolsClean infos, trivial⟩
  · exact fun _ _ _ _ clean => clean

/-- The connection the call waits for a message on. -/
def Call.reader (call : Call) : Option RecyclableConnection :=
  match call.progress with
  | .fetching runner =>
      match runner.active with
      | some (.reading recyclable) => some recyclable
      | _ => none
  | _ => none

theorem reader_open {sha256d : List UInt8 → Digest} {call : Call} {recyclable : RecyclableConnection}
    (clean : call.progress.Clean sha256d call.hash) (isReader : call.reader = some recyclable) :
    recyclable.conn.Open sha256d [call.hash] [] := by
  unfold Call.reader at isReader
  split at isReader
  · rename_i runner isFetching
    rw [isFetching] at clean
    split at isReader
    · rename_i reading isActive
      exact Option.some.inj isReader ▸ clean.active _ isActive
    · simp at isReader
  · simp at isReader

/-- Nothing is open on a connection in a pool. Where a peer sends no block but the ones it was asked
for, in their order, the next block on a connection is the one its fetch is for, all pings before it
have been answered, and the fetch ends with it where it passes the two other checks. The two messages
of the handshake are read by `connect`, which answers neither, and are no pings here. -/
theorem recycled_connections_clean (config : Config) (maxBytes : Nat) (state : Interleaved.State Shared Call)
    (reached : (system config).Reached (Shared.new maxBytes) state) :
    (∀ conn, some conn ∈ state.shared.pools →
      conn.asked = conn.delivered config.sha256d ∧ conn.pongs = conn.pings) ∧
      ∀ call ∈ state.calls, ∀ recyclable block, call.reader = some recyclable →
        (recyclable.read (.block block)).conn.delivered config.sha256d <+: recyclable.conn.asked →
        block.blockHash config.sha256d = call.hash ∧ recyclable.conn.pongs = recyclable.conn.pings ∧
          (block.checkMerkleRoot config.sha256d = true → checkWitnesses config.sha256d block = some true →
            fetchBlockFromPeer config.sha256d call.hash (.reading recyclable) (.read (.block block)) =
              some (.ended (some (block, recyclable.read (.block block))))) := by
  have start : PoolsClean config.sha256d (Shared.new maxBytes).pools := by
    intro conn member
    simp [Shared.new] at member
  obtain ⟨poolsClean, clean⟩ := (system_clean config).reached reached start
  constructor
  · intro conn member
    have isOpen := poolsClean conn member
    exact ⟨by simpa using isOpen.asked, by simpa using isOpen.pings.symm⟩
  · intro call member recyclable block isReader inOrder
    have isOpen := reader_open (clean call member) isReader
    have isHash : block.blockHash config.sha256d = call.hash := by
      simp only [RecyclableConnection.read, Connection.delivered_read isOpen.handshake, isOpen.asked,
        NetworkMessage.delivered, Option.toList_some, List.prefix_append_right_inj] at inOrder
      simpa using inOrder
    refine ⟨isHash, by simpa using isOpen.pings.symm, ?_⟩
    intro isRoot witnesses
    have valid : accepted config.sha256d call.hash block = true := by
      simp [accepted, isHash, isRoot, witnesses]
    simp only [fetchBlockFromPeer, handleMessage_block, if_pos valid]

/-! Two fetches of one block over one connection, without a cache, until the second is asked for. -/

def recycledRun : List (Action Digest Event (List PeerInfo)) :=
  let sampled := honestBlock.blockHash sampleHash
  let pruned : RpcError := { code := miscErrorCode, message := pruneErrorMessage, status := none }
  [.begin sampled, .advance 0 .proceed,
    .advance 0 (.selfReplied (.ok { id := none, error := some pruned, result := none })),
    .advance 0 (.peersRead false),
    .advance 0 (.peersUpdated (.ok [samplePeer "first"])),
    .advance 0 .proceed,
    .advance 0 (.runner (.start 0)),
    .advance 0 (.runner (.peer (.handshake .version .verack))),
    .advance 0 (.runner (.peer .written)),
    .advance 0 (.runner (.peer (.read (.ping 7)))),
    .advance 0 (.runner (.peer .written)),
    .advance 0 (.runner (.peer (.read (.block honestBlock)))),
    .advance 0 .received, .advance 0 .proceed,
    .begin sampled, .advance 1 .proceed,
    .advance 1 (.selfReplied (.ok { id := none, error := some pruned, result := none })),
    .advance 1 (.peersRead false),
    .advance 1 .proceed,
    .advance 1 (.runner (.start 0)),
    .advance 1 (.runner (.peer .written))]

def secondReader (state : Interleaved.State Shared Call) : Option (Call × RecyclableConnection) :=
  state.calls[1]?.bind fun call => call.reader.map fun recyclable => (call, recyclable)

theorem recycled_connections_clean_twice :
    ∃ (state : Interleaved.State Shared Call) (call : Call) (recyclable : RecyclableConnection),
      call ∈ state.calls ∧ call.reader = some recyclable ∧
      recyclable.conn.asked = [call.hash, call.hash] ∧
      honestBlock.blockHash sampleHash = call.hash ∧ recyclable.conn.pongs = recyclable.conn.pings ∧
      fetchBlockFromPeer sampleHash call.hash (.reading recyclable) (.read (.block honestBlock)) =
        some (.ended (some (honestBlock, recyclable.read (.block honestBlock)))) := by
  have waits : ((Runs.runFrom (system sampleConfig).step { shared := Shared.new 0, calls := [] }
      recycledRun).map secondReader).map (fun found => found.map fun (call, recyclable) =>
        decide (recyclable.conn.asked = [call.hash, call.hash] ∧
          (recyclable.read (.block honestBlock)).conn.delivered sampleHash <+: recyclable.conn.asked)) =
      some (some true) := by
    decide +kernel
  obtain ⟨found, run, decided⟩ := Option.map_eq_some_iff.mp waits
  obtain ⟨⟨call, recyclable⟩, rfl, holds⟩ := Option.map_eq_some_iff.mp decided
  obtain ⟨asked, inOrder⟩ := of_decide_eq_true holds
  obtain ⟨state, stateRun, second⟩ := Option.map_eq_some_iff.mp run
  obtain ⟨_, isSecond, isReader⟩ := Option.bind_eq_some_iff.mp second
  obtain ⟨_, readerFound, same⟩ := Option.map_eq_some_iff.mp isReader
  obtain ⟨rfl, rfl⟩ := Prod.mk.inj same
  have reached : (system sampleConfig).Reached (Shared.new 0) state :=
    Runs.reachable_of_run _ recycledRun stateRun
  have member := List.mem_of_getElem? isSecond
  obtain ⟨isHash, answered, fetched⟩ := (recycled_connections_clean sampleConfig 0 state reached).2
    _ member _ honestBlock readerFound inOrder
  exact ⟨state, _, _, member, readerFound, asked, isHash, answered,
    fetched (by decide +kernel) (by decide +kernel)⟩

end BtcRpcProxy.FetchBlocks
