import BtcRpcProxy.RecycledConnections

/-!
Where what the fetches do comes from. Peers are asked for a block, and a block of theirs is cached and
given out, only after bitcoind has said that it has pruned it; and a peer is dialled only at an address
that bitcoind has listed, for a peer it connected to itself and that serves whole blocks.
-/

namespace BtcRpcProxy.FetchBlocks

open Blocks Interleaved

/-- bitcoind has answered `getblock` for the hash with what `fetch_block_from_self` takes for a pruned block. -/
def ReportedPruned (config : Config) (shared : Shared) (hash : Digest) : Prop :=
  ∃ called, (blockCall hash, called) ∈ shared.replies ∧ fetchBlockFromSelf config.blockFromNull called = .ok none

def Connection.AsksFor (may : Digest → Prop) (conn : Connection) : Prop := ∀ hash ∈ conn.asked, may hash

/-! What a step makes of peers and connections. `known` are addresses, and `may` are hashes that may be
asked for. -/

def PeerHandle.Sourced (known : String → Prop) (may : Digest → Prop) (handle : PeerHandle) : Prop :=
  known handle.addr ∧ ∀ conn, handle.conn = some conn → conn.AsksFor may

def PeerFetch.Sourced (known : String → Prop) (may : Digest → Prop) : PeerFetch → Prop
  | .connecting addr _ => known addr
  | .connected recyclable => recyclable.conn.AsksFor may
  | .reading recyclable => recyclable.conn.AsksFor may
  | .answering _ recyclable => recyclable.conn.AsksFor may
  | .ended result => ∀ block recyclable, result = some (block, recyclable) → recyclable.conn.AsksFor may
  | .panicked => True

structure Runner.Sourced (known : String → Prop) (may : Digest → Prop) (runner : Runner) : Prop where
  waiting : ∀ handle ∈ runner.waiting, handle.Sourced known may
  active : ∀ fetch, runner.active = some fetch → fetch.Sourced known may

def PoolsSourced (may : Digest → Prop) (pools : Pools) : Prop := ∀ conn, some conn ∈ pools → conn.AsksFor may

section

variable {sha256d : List UInt8 → Digest} {known : String → Prop} {may : Digest → Prop} {hash : Digest}
  {pools : Pools}

theorem asksFor_connect (first second : NetworkMessage) : (Connection.connect first second).AsksFor may := by
  intro hash member
  simp [Connection.connect, Connection.asked, Connection.write, NetworkMessage.requested] at member

theorem Connection.AsksFor.write {conn : Connection} (asksFor : conn.AsksFor may) {message : NetworkMessage}
    (allowed : ∀ hash, message.requested = some hash → may hash) : (conn.write message).AsksFor may := by
  intro hash member
  rw [Connection.asked_write, List.mem_append, Option.mem_toList] at member
  exact member.elim (asksFor hash) (allowed hash)

theorem handleMessage_sourced {recyclable : RecyclableConnection} (asksFor : recyclable.conn.AsksFor may)
    (message : NetworkMessage) : (handleMessage sha256d hash recyclable message).Sourced known may := by
  cases message with
  | block block =>
      rw [handleMessage_block]
      intro sent kept isKept
      rw [Option.ite_none_right_eq_some, Option.some.injEq, Prod.mk.injEq] at isKept
      exact isKept.2.2 ▸ asksFor
  | _ => exact asksFor

theorem fetchBlockFromPeer_sourced (asked : may hash) {fetch next : PeerFetch} {event : PeerEvent}
    (sourced : fetch.Sourced known may) (step : fetchBlockFromPeer sha256d hash fetch event = some next) :
    next.Sourced known may := by
  rcases fetchBlockFromPeer_cases step with ⟨first, second, _, _, _, _, rfl⟩ | ⟨conn, _, rfl, rfl⟩ |
    ⟨nonce, conn, _, rfl, rfl⟩ | ⟨message, conn, _, rfl, rfl⟩ | ⟨_, rfl⟩
  · exact asksFor_connect first second
  · refine Connection.AsksFor.write sourced ?_
    intro requested isHash
    exact Option.some.inj isHash ▸ asked
  · exact Connection.AsksFor.write sourced (by simp [NetworkMessage.requested])
  · have read : (conn.read message).conn.AsksFor may := sourced
    exact handleMessage_sourced read message
  · exact fun _ _ isNone => by simp at isNone

theorem handle_sourced (sourced : PoolsSourced may pools) {peer : Peer} (isKnown : known peer.addr) :
    (peer.handle pools).1.Sourced known may ∧ PoolsSourced may (peer.handle pools).2 := by
  refine ⟨⟨isKnown, ?_⟩, ?_⟩
  · intro conn isConn
    obtain ⟨slot, found, rfl⟩ : ∃ slot, pools[peer.pool]? = some slot ∧ slot = some conn := by
      simpa [Peer.handle, Option.join_eq_some_iff] using isConn
    exact sourced conn (List.mem_of_getElem? found)
  · intro conn member
    rcases List.mem_or_eq_of_mem_set member with earlier | isNone
    · exact sourced conn earlier
    · simp at isNone

theorem handles_sourced (sourced : PoolsSourced may pools) {peers : List Peer}
    (isKnown : ∀ peer ∈ peers, known peer.addr) :
    (∀ handle ∈ (handles pools peers).1, handle.Sourced known may) ∧
      PoolsSourced may (handles pools peers).2 := by
  induction peers generalizing pools with
  | nil => exact ⟨by simp [handles], sourced⟩
  | cons peer rest ih =>
      rw [List.forall_mem_cons] at isKnown
      obtain ⟨first, left⟩ := handle_sourced sourced isKnown.1
      obtain ⟨later, afterwards⟩ := ih left isKnown.2
      exact ⟨List.forall_mem_cons.mpr ⟨first, later⟩, afterwards⟩

theorem recycle_sourced (sourced : PoolsSourced may pools) {recyclable : RecyclableConnection}
    (asksFor : recyclable.conn.AsksFor may) : PoolsSourced may (recyclable.recycle pools) := by
  unfold RecyclableConnection.recycle
  split
  · intro conn member
    rcases List.mem_or_eq_of_mem_set member with earlier | isConn
    · exact sourced conn earlier
    · exact Option.some.inj isConn ▸ asksFor
  · exact sourced

theorem connect_sourced {handle : PeerHandle} (sourced : handle.Sourced known may) :
    handle.connect.Sourced known may := by
  unfold PeerHandle.connect
  split
  · rename_i conn isConn
    exact sourced.2 conn isConn
  · exact sourced.1

theorem poll_sourced (asked : may hash) {limit : Option Nat} {runner : Runner} {event : RunnerEvent}
    {polled : Runner × Pools} (poolsSourced : PoolsSourced may pools) (sourced : runner.Sourced known may)
    (step : runner.poll sha256d limit hash pools event = some polled) :
    polled.1.Sourced known may ∧ PoolsSourced may polled.2 := by
  rcases poll_cases step with ⟨_, handle, _, _, found, rfl⟩ | ⟨_, fetch, result, _, isActive, fetched, rfl⟩ |
    ⟨_, fetch, next, _, isActive, fetched, _, rfl⟩ | ⟨_, _, rfl⟩
  · refine ⟨⟨?_, ?_⟩, poolsSourced⟩
    · exact fun other member => sourced.waiting other (List.mem_of_mem_eraseIdx member)
    · intro fetch isFetch
      rw [← Option.some.inj isFetch]
      exact connect_sourced (sourced.waiting handle (List.mem_of_getElem? found))
  · have ended := fetchBlockFromPeer_sourced asked (sourced.active fetch isActive) fetched
    cases result with
    | none => exact ⟨⟨sourced.waiting, by simp [Runner.handle]⟩, poolsSourced⟩
    | some result =>
        exact ⟨⟨sourced.waiting, by simp [Runner.handle]⟩, recycle_sourced poolsSourced (ended _ _ rfl)⟩
  · refine ⟨⟨sourced.waiting, ?_⟩, poolsSourced⟩
    intro later isLater
    rw [← Option.some.inj isLater]
    exact fetchBlockFromPeer_sourced asked (sourced.active fetch isActive) fetched
  · exact ⟨⟨sourced.waiting, sourced.active⟩, poolsSourced⟩

end

section

variable {known : String → Prop} {may later : Digest → Prop}

theorem Connection.AsksFor.mono {conn : Connection} (asksFor : conn.AsksFor may)
    (grows : ∀ hash, may hash → later hash) : conn.AsksFor later :=
  fun hash member => grows hash (asksFor hash member)

theorem PeerFetch.Sourced.mono {fetch : PeerFetch} (sourced : fetch.Sourced known may)
    (grows : ∀ hash, may hash → later hash) : fetch.Sourced known later := by
  cases fetch with
  | connecting addr send => exact sourced
  | connected recyclable => exact Connection.AsksFor.mono sourced grows
  | reading recyclable => exact Connection.AsksFor.mono sourced grows
  | answering nonce recyclable => exact Connection.AsksFor.mono sourced grows
  | ended result => exact fun block recyclable isResult => (sourced block recyclable isResult).mono grows
  | panicked => trivial

theorem Runner.Sourced.mono {runner : Runner} (sourced : runner.Sourced known may)
    (grows : ∀ hash, may hash → later hash) : runner.Sourced known later where
  waiting := fun handle member =>
    ⟨(sourced.waiting handle member).1,
      fun conn isConn => ((sourced.waiting handle member).2 conn isConn).mono grows⟩
  active := fun fetch isActive => (sourced.active fetch isActive).mono grows

end

/-! Any number of calls. -/

structure Shared.Sourced (config : Config) (known : String → Prop) (shared : Shared) : Prop where
  cached : ∀ hash, shared.blockCache.inner.blocks.lookup hash ≠ none → ReportedPruned config shared hash
  pooled : PoolsSourced (ReportedPruned config shared) shared.pools
  listed : ∀ peer ∈ shared.peers.peers, known peer.addr

/-- From the reply on that the block is pruned, it is known to be. -/
def Progress.Sourced (config : Config) (known : String → Prop) (shared : Shared) (hash : Digest) :
    Progress → Prop
  | .started => True
  | .missed => True
  | .listed peers => ReportedPruned config shared hash ∧ ∀ peer ∈ peers.peers, known peer.addr
  | .fetching runner => ReportedPruned config shared hash ∧ runner.Sourced known (ReportedPruned config shared)
  | .returned (.ok (some bytes)) => AnsweredBySelf shared hash bytes ∨ ReportedPruned config shared hash
  | .returned (.ok none) => ReportedPruned config shared hash
  | .returned (.error _) => True
  | .dropped => True
  | _ => ReportedPruned config shared hash

section

variable {config : Config} {known : String → Prop} {shared after : Shared} {hash : Digest}

theorem ReportedPruned.follows (pruned : ReportedPruned config shared hash) (follows : Follows shared after) :
    ReportedPruned config after hash := by
  obtain ⟨called, member, isPruned⟩ := pruned
  exact ⟨called, follows _ member, isPruned⟩

theorem Progress.Sourced.follows {progress : Progress} (sourced : progress.Sourced config known shared hash)
    (follows : Follows shared after) : progress.Sourced config known after hash := by
  have grows : ∀ hash, ReportedPruned config shared hash → ReportedPruned config after hash :=
    fun hash pruned => pruned.follows follows
  cases progress with
  | started => trivial
  | missed => trivial
  | pruned => exact grows hash sourced
  | updating => exact grows hash sourced
  | listed peers => exact ⟨grows hash sourced.1, sourced.2⟩
  | fetching runner => exact ⟨grows hash sourced.1, sourced.2.mono grows⟩
  | fetched block => exact grows hash sourced
  | panicked => exact grows hash sourced
  | dropped => trivial
  | returned result =>
      rcases result with error | _ | bytes
      · trivial
      · exact grows hash sourced
      · refine sourced.imp ?_ (grows hash)
        rintro ⟨response, member, answer⟩
        exact ⟨response, follows _ member, answer⟩

structure StillSourced (config : Config) (known : String → Prop) (shared : Shared) (hash : Digest)
    (moved : Shared × Progress) : Prop where
  state : moved.1.Sourced config known
  call : moved.2.Sourced config known moved.1 hash
  follows : Follows shared moved.1

theorem still_of_same {progress : Progress} (sourced : shared.Sourced config known)
    (replies : after.replies = shared.replies)
    (blocks : after.blockCache.inner.blocks = shared.blockCache.inner.blocks)
    (pooled : PoolsSourced (ReportedPruned config shared) after.pools)
    (listed : ∀ peer ∈ after.peers.peers, known peer.addr)
    (isSourced : progress.Sourced config known shared hash) :
    StillSourced config known shared hash (after, progress) := by
  have follows : Follows shared after := fun reply member => by rwa [replies]
  refine ⟨⟨?_, ?_, listed⟩, isSourced.follows follows, follows⟩
  · intro key held
    rw [blocks] at held
    exact (sourced.cached key held).follows follows
  · exact fun conn member => (pooled conn member).mono fun _ pruned => pruned.follows follows

theorem lookUp_sourced (sourced : shared.Sourced config known) :
    StillSourced config known shared hash (lookUp shared hash) := by
  have unchanged := (BlockCache.get_inner shared.blockCache hash).1
  unfold lookUp
  split
  · rename_i block blockCache got
    have hit := BlockCache.lookup_of_get (congrArg Prod.fst got)
    rw [got] at unchanged
    exact still_of_same sourced rfl unchanged sourced.pooled sourced.listed
      (Or.inr (sourced.cached hash (by simp [hit])))
  · rename_i blockCache got
    rw [got] at unchanged
    exact still_of_same sourced rfl unchanged sourced.pooled sourced.listed trivial

theorem askSelf_sourced (sourced : shared.Sourced config known)
    (called : Except ClientError (RpcResponse BlockReply)) :
    StillSourced config known shared hash (askSelf config shared hash called) := by
  have follows : Follows shared (askSelf config shared hash called).1 :=
    fun reply member => List.mem_cons_of_mem _ member
  refine ⟨⟨?_, ?_, sourced.listed⟩, ?_, follows⟩
  · exact fun key held => (sourced.cached key held).follows follows
  · exact fun conn member => (sourced.pooled conn member).mono fun _ pruned => pruned.follows follows
  · unfold askSelf
    cases fetched : fetchBlockFromSelf config.blockFromNull called with
    | error error => trivial
    | ok answer =>
        cases answer with
        | none => exact ⟨called, List.mem_cons_self, fetched⟩
        | some block =>
            obtain ⟨response, rfl, noError, result⟩ := fetchBlockFromSelf_some fetched
            exact Or.inl ⟨response, List.mem_cons_self, noError, result⟩

theorem update_listed {infos : List PeerInfo}
    (reported : ∀ info ∈ infos, PeerInfo.fetchable info = true → known info.addr) :
    ∀ peer ∈ (shared.update infos).peers.peers, known peer.addr := by
  intro peer member
  obtain ⟨⟨addr, pool⟩, isEntry, rfl⟩ := List.mem_map.mp member
  have isAddr := (List.mem_zipIdx isEntry).2.2
  have inAddrs : addr ∈ (infos.filter PeerInfo.fetchable).map PeerInfo.addr := by
    rw [isAddr]
    exact List.getElem_mem _
  obtain ⟨info, isInfo, rfl⟩ := List.mem_map.mp inAddrs
  exact reported info (List.mem_filter.mp isInfo).1 (List.mem_filter.mp isInfo).2

theorem update_sourced (sourced : shared.Sourced config known) {infos : List PeerInfo}
    (reported : ∀ info ∈ infos, PeerInfo.fetchable info = true → known info.addr) {progress : Progress}
    (isSourced : progress.Sourced config known shared hash) :
    StillSourced config known shared hash (shared.update infos, progress) := by
  refine still_of_same sourced rfl rfl ?_ (update_listed reported) isSourced
  intro conn member
  rcases List.mem_append.mp member with earlier | isNew
  · exact sourced.pooled conn earlier
  · simp at isNew

def Event.infos : Event → List PeerInfo
  | .peersUpdated (.ok infos) => infos
  | _ => []

theorem moves_sourced (sourced : shared.Sourced config known) {progress : Progress}
    (isSourced : progress.Sourced config known shared hash) {event : Event} {moved : Shared × Progress}
    (reported : ∀ info ∈ event.infos, PeerInfo.fetchable info = true → known info.addr)
    (moves : Moves config shared hash progress event moved) : StillSourced config known shared hash moved := by
  cases moves with
  | lookUp => exact lookUp_sourced sourced
  | askSelf called => exact askSelf_sourced sourced called
  | getPeers aged =>
      refine still_of_same sourced rfl rfl sourced.pooled sourced.listed ?_
      unfold getPeers
      split
      · exact isSourced
      · exact ⟨isSourced, sourced.listed⟩
  | updatePeers infos =>
      cases infos with
      | error error => exact still_of_same sourced rfl rfl sourced.pooled sourced.listed trivial
      | ok infos => exact update_sourced sourced reported ⟨isSourced, update_listed reported⟩
  | takeHandles peers =>
      obtain ⟨waiting, left⟩ := handles_sourced sourced.pooled isSourced.2
      exact still_of_same sourced rfl rfl left sourced.listed ⟨isSourced.1, waiting, by simp [Runner.new]⟩
  | poll polled =>
      obtain ⟨next, progress, isPolled, rfl, outcome⟩ := pollRunner_cases polled
      obtain ⟨runnerSourced, left⟩ := poll_sourced isSourced.1 sourced.pooled isSourced.2 isPolled
      refine still_of_same sourced rfl rfl left sourced.listed ?_
      rcases outcome with ⟨_, rfl⟩ | rfl
      · exact isSourced.1
      · exact ⟨isSourced.1, runnerSourced⟩
  | receive received =>
      obtain ⟨block, _, rfl⟩ := receiveBlock_cases received
      exact still_of_same sourced rfl rfl sourced.pooled sourced.listed isSourced.1
  | finish finished =>
      obtain ⟨_, ⟨block, _, rfl⟩ | ⟨_, rfl⟩⟩ := endRunner_cases finished <;>
        exact still_of_same sourced rfl rfl sourced.pooled sourced.listed isSourced.1
  | cacheBlock block =>
      unfold cacheBlock
      split
      · rename_i blockCache stored
        refine ⟨⟨?_, sourced.pooled, sourced.listed⟩, Or.inr isSourced, fun reply member => member⟩
        intro key held
        obtain ⟨bytes, isHeld⟩ := Option.ne_none_iff_exists'.mp held
        rcases BlockCache.lookup_of_insert stored isHeld with earlier | ⟨rfl, _⟩
        · exact sourced.cached key (by simp [earlier])
        · exact isSourced
      · exact still_of_same sourced rfl rfl sourced.pooled sourced.listed isSourced
  | drop => exact still_of_same sourced rfl rfl sourced.pooled sourced.listed trivial

def listedBy : Action Digest Event (List PeerInfo) → List PeerInfo
  | .begin _ => []
  | .advance _ event => event.infos
  | .outside infos => infos

def Sourced (config : Config) (known : String → Prop) : Interleaved.State Shared Call → Prop :=
  System.Holds (Shared.Sourced config known) fun shared call =>
    call.progress.Sourced config known shared call.hash

theorem new_sourced (config : Config) (known : String → Prop) (maxBytes : Nat) :
    Sourced config known { shared := Shared.new maxBytes, calls := [] } := by
  refine ⟨⟨?_, ?_, ?_⟩, ?_⟩
  · intro hash held
    simp [Shared.new, BlockCache.new] at held
  · intro conn member
    simp [Shared.new] at member
  · intro peer member
    simp [Shared.new, Peers.new] at member
  · intro call member
    simp at member

theorem sourced_step {state after : Interleaved.State Shared Call}
    {action : Action Digest Event (List PeerInfo)}
    (reported : ∀ info ∈ listedBy action, PeerInfo.fetchable info = true → known info.addr)
    (sourced : Sourced config known state) (taken : (system config).step state action = some after) :
    Sourced config known after := by
  obtain ⟨sharedSourced, callsSourced⟩ := sourced
  rcases System.step_cases taken with ⟨argument, _, rfl⟩ |
    ⟨index, event, call, shared, next, rfl, found, moved, rfl⟩ | ⟨infos, shared, rfl, changed, rfl⟩
  · refine ⟨sharedSourced, ?_⟩
    intro call member
    rcases List.mem_append.mp member with running | started
    · exact callsSourced call running
    · rw [List.mem_singleton.mp started]
      trivial
  · obtain ⟨progress, rfl, moves⟩ := system_moves moved
    have still := moves_sourced sharedSourced (callsSourced call (List.mem_of_getElem? found)) reported moves
    refine ⟨still.state, ?_⟩
    intro other member
    rcases List.mem_or_eq_of_mem_set member with running | rfl
    · exact (callsSourced other running).follows still.follows
    · exact still.call
  · have isUpdated : shared = state.shared.update infos := (Option.some.inj changed).symm
    subst isUpdated
    have still : StillSourced config known state.shared Digest.zeros (state.shared.update infos, .started) :=
      update_sourced sharedSourced reported trivial
    exact ⟨still.state, fun call member => (callsSourced call member).follows still.follows⟩

def PeerFetch.connection : PeerFetch → Option Connection
  | .connecting _ _ => none
  | .connected recyclable => some recyclable.conn
  | .reading recyclable => some recyclable.conn
  | .answering _ recyclable => some recyclable.conn
  | .ended result => result.map fun ended => ended.2.conn
  | .panicked => none

def Progress.connections : Progress → List Connection
  | .fetching runner => runner.waiting.filterMap PeerHandle.conn ++ (runner.active.bind PeerFetch.connection).toList
  | _ => []

/-- All connections there are: in the pools, and in the hands of a call. -/
def connections (state : Interleaved.State Shared Call) : List Connection :=
  state.shared.pools.filterMap id ++ state.calls.flatMap fun call => call.progress.connections

theorem connection_sourced {may : Digest → Prop} {fetch : PeerFetch} (sourced : fetch.Sourced known may)
    {conn : Connection} (isConn : fetch.connection = some conn) : conn.AsksFor may := by
  cases fetch with
  | connecting addr send => simp [PeerFetch.connection] at isConn
  | panicked => simp [PeerFetch.connection] at isConn
  | ended result =>
      obtain ⟨⟨block, recyclable⟩, isResult, rfl⟩ := Option.map_eq_some_iff.mp isConn
      exact sourced block recyclable isResult
  | _ =>
      rw [← Option.some.inj isConn]
      exact sourced

theorem progress_connections_sourced {progress : Progress}
    (sourced : progress.Sourced config known shared hash) {conn : Connection}
    (member : conn ∈ progress.connections) : conn.AsksFor (ReportedPruned config shared) := by
  cases progress with
  | fetching runner =>
      obtain ⟨_, waiting, active⟩ := sourced
      rcases List.mem_append.mp member with isWaiting | isActive
      · obtain ⟨handle, isHandle, isConn⟩ := List.mem_filterMap.mp isWaiting
        exact (waiting handle isHandle).2 conn isConn
      · obtain ⟨fetch, isFetch, isConn⟩ := Option.bind_eq_some_iff.mp (Option.mem_toList.mp isActive)
        exact connection_sourced (active fetch isFetch) isConn
  | _ => simp [Progress.connections] at member

end

/-- In every state the calls reach, peers have been asked only for blocks that bitcoind has reported as
pruned, only such blocks are cached, and only for such a block does a call come by anything but what
bitcoind answers, or by nothing. -/
theorem peers_asked_for_pruned (config : Config) (maxBytes : Nat) (state : Interleaved.State Shared Call)
    (reached : (system config).Reached (Shared.new maxBytes) state) :
    (∀ conn ∈ connections state, ∀ hash ∈ conn.asked, ReportedPruned config state.shared hash) ∧
    (∀ hash, state.shared.blockCache.inner.blocks.lookup hash ≠ none →
      ReportedPruned config state.shared hash) ∧
    ∀ call ∈ state.calls,
      (call.progress = .returned (.ok none) → ReportedPruned config state.shared call.hash) ∧
      ∀ bytes, call.bytes = some bytes →
        AnsweredBySelf state.shared call.hash bytes ∨ ReportedPruned config state.shared call.hash := by
  have sourced : Sourced config (fun _ => True) state := by
    refine Runs.Reachable.invariant reached ?_ ?_
    · rintro start rfl
      exact new_sourced config _ maxBytes
    · exact fun before action after sourced taken => sourced_step (fun _ _ _ => trivial) sourced taken
  obtain ⟨sharedSourced, callsSourced⟩ := sourced
  refine ⟨?_, sharedSourced.cached, ?_⟩
  · intro conn member
    rcases List.mem_append.mp member with inPool | inHand
    · obtain ⟨slot, isSlot, isConn⟩ := List.mem_filterMap.mp inPool
      exact sharedSourced.pooled conn (isConn ▸ isSlot)
    · obtain ⟨call, isCall, isConn⟩ := List.mem_flatMap.mp inHand
      exact progress_connections_sourced (callsSourced call isCall) isConn
  · intro call member
    have isSourced : call.progress.Sourced config (fun _ => True) state.shared call.hash :=
      callsSourced call member
    constructor
    · intro returned
      rwa [returned] at isSourced
    · intro bytes isBytes
      unfold Call.bytes at isBytes
      split at isBytes
      · rename_i result returned
        rw [returned, isBytes] at isSourced
        exact isSourced
      · simp at isBytes

def Call.dials (call : Call) : Option String :=
  match call.progress with
  | .fetching runner =>
      match runner.active with
      | some (.connecting addr _) => some addr
      | _ => none
  | _ => none

/-- Whatever a run has done, a peer is dialled only where bitcoind has listed it in that run as one it
connected to itself and that serves the whole chain with witnesses. -/
theorem peers_dialled_as_listed (config : Config) (maxBytes : Nat) (state : Interleaved.State Shared Call)
    (actions : List (Action Digest Event (List PeerInfo)))
    (run : Runs.runFrom (system config).step { shared := Shared.new maxBytes, calls := [] } actions =
      some state) :
    ∀ call ∈ state.calls, ∀ addr, call.dials = some addr → ReportedPruned config state.shared call.hash ∧
      ∃ action ∈ actions, ∃ info ∈ listedBy action, info.addr = addr ∧ info.inbound = false ∧
        "NETWORK" ∈ info.servicesnames ∧ "WITNESS" ∈ info.servicesnames := by
  let known : String → Prop := fun addr => ∃ action ∈ actions, ∃ info ∈ listedBy action,
    info.addr = addr ∧ PeerInfo.fetchable info = true
  have sourced : Sourced config known state := by
    refine Runs.runFrom_keeps (new_sourced config _ maxBytes) ?_ run
    intro before action after member isSourced taken
    refine sourced_step ?_ isSourced taken
    exact fun info isInfo fetchable => ⟨action, member, info, isInfo, rfl, fetchable⟩
  intro call member addr dials
  have isSourced : call.progress.Sourced config known state.shared call.hash := sourced.2 call member
  unfold Call.dials at dials
  split at dials
  · rename_i runner isFetching
    rw [isFetching] at isSourced
    split at dials
    · rename_i dialled send isActive
      obtain rfl := Option.some.inj dials
      obtain ⟨action, isAction, info, isInfo, isAddr, fetchable⟩ := isSourced.2.active _ isActive
      simp only [PeerInfo.fetchable, Bool.and_eq_true, Bool.not_eq_true', List.contains_iff_mem] at fetchable
      exact ⟨isSourced.1, action, isAction, info, isInfo, isAddr, fetchable.1, fetchable.2.1, fetchable.2.2⟩
    · simp at dials
  · simp at dials

/-! A peer that is dialled, and the block it then sends. -/

theorem peers_dialled_as_listed_first :
    ∃ state : Interleaved.State Shared Call,
      state.calls.map Call.dials = [some "first", none] ∧
      ∀ call ∈ state.calls, ∀ addr, call.dials = some addr →
        ReportedPruned sampleConfig state.shared call.hash ∧
          ∃ action ∈ sampleRun.take 9, ∃ info ∈ listedBy action, info.addr = addr ∧ info.inbound = false ∧
            "NETWORK" ∈ info.servicesnames ∧ "WITNESS" ∈ info.servicesnames := by
  have dialled : (Runs.runFrom (system sampleConfig).step { shared := Shared.new 1000, calls := [] }
      (sampleRun.take 9)).map (fun state => state.calls.map Call.dials) = some [some "first", none] := by
    decide +kernel
  obtain ⟨state, run, calls⟩ := Option.map_eq_some_iff.mp dialled
  exact ⟨state, calls, peers_dialled_as_listed sampleConfig 1000 state _ run⟩

theorem peers_asked_for_pruned_second :
    ∃ state : Interleaved.State Shared Call,
      (connections state).map Connection.asked = [[honestBlock.blockHash sampleHash]] ∧
      (∀ conn ∈ connections state, ∀ hash ∈ conn.asked, ReportedPruned sampleConfig state.shared hash) ∧
      (∀ hash, state.shared.blockCache.inner.blocks.lookup hash ≠ none →
        ReportedPruned sampleConfig state.shared hash) ∧
      ∀ call ∈ state.calls,
        (call.progress = .returned (.ok none) → ReportedPruned sampleConfig state.shared call.hash) ∧
        ∀ bytes, call.bytes = some bytes →
          AnsweredBySelf state.shared call.hash bytes ∨ ReportedPruned sampleConfig state.shared call.hash := by
  have asked : (Runs.runFrom (system sampleConfig).step { shared := Shared.new 1000, calls := [] }
      sampleRun).map (fun state => (connections state).map Connection.asked) =
        some [[honestBlock.blockHash sampleHash]] := by
    decide +kernel
  obtain ⟨state, run, isAsked⟩ := Option.map_eq_some_iff.mp asked
  exact ⟨state, isAsked, peers_asked_for_pruned sampleConfig 1000 state (Runs.reachable_of_run _ sampleRun run)⟩

end BtcRpcProxy.FetchBlocks
