import BtcRpcProxy.FetchFates
import BtcRpcProxy.FetchProvenance
import BtcRpcProxy.PeerRace

/-!
The fetches of a run as those of requests. Among any number of interleaved fetches, one that returns has
made the calls of a request that meets what it has met, and has come to the same result.
-/

namespace BtcRpcProxy.FetchBlocks

open Blocks Interleaved Interleaved.System CredentialFailures Polled

def addresses (infos : List PeerInfo) : List String := (infos.filter PeerInfo.fetchable).map PeerInfo.addr

def Event.sent (block : Block) : Event := .runner (.peer (.read (.block block)))

def Event.asks (hash : Digest) : Event → Option InternalCall
  | .selfReplied _ => some (blockCall hash)
  | .peersUpdated _ => some peerInfoCall
  | _ => none

def callsOf (hash : Digest) (events : List Event) : List InternalCall := events.filterMap (Event.asks hash)

abbrev Past := List (Action Digest Event (List PeerInfo))

def SentToAny (config : Config) (past : Past) (hash : Digest) (bytes : List UInt8) : Prop :=
  ∃ index block, .advance index (Event.sent block) ∈ past ∧ accepted config.sha256d hash block = true ∧
    bytes = block.encode

def Fate.Sent (config : Config) (events : List Event) (hash : Digest) (fate : Fate) : Prop :=
  ∀ addr block, (addr, some block) ∈ fate.asked →
    Event.sent block ∈ events ∧ accepted config.sha256d hash block = true

/-- A fate of a run: what is cached is a block that a peer sent to some fetch, what bitcoind and the peers send
they send to this one, the peers are those bitcoind has listed, and their blocks are accepted. -/
structure Fate.Drawn (config : Config) (past : Past) (events : List Event) (hash : Digest) (fate : Fate) :
    Prop where
  cached : ∀ bytes, fate.cached = some bytes → SentToAny config past hash bytes
  called : fate.cached = none → .selfReplied fate.called ∈ events
  update : ∀ update, fate.update = some update →
    .peersUpdated (update.mapError PeerUpdateError.intoError) ∈ events
  updated : ∀ infos, fate.update = some (.ok infos) → (fate.asked.map Prod.fst).Perm (addresses infos)
  listed : fate.asked = [] ∨ ∃ action ∈ past, (fate.asked.map Prod.fst).Perm (addresses (listedBy action))
  sent : fate.Sent config events hash

structure Fate.Pruned (config : Config) (events : List Event) (fate : Fate) : Prop where
  uncached : fate.cached = none
  called : .selfReplied fate.called ∈ events
  pruned : fetchBlockFromSelf config.blockFromNull fate.called = .ok none

structure Fate.Asks (config : Config) (past : Past) (events : List Event) (hash : Digest) (addrs : List String)
    (fate : Fate) : Prop extends fate.Pruned config events where
  update : ∀ update, fate.update = some update →
    ∃ infos, update = .ok infos ∧ .peersUpdated (.ok infos) ∈ events ∧ addrs = addresses infos
  listed : ∃ action ∈ past, addrs = addresses (listedBy action)
  calls : callsOf hash events = blockCall hash :: if fate.update.isSome then [peerInfoCall] else []

structure Fate.Asked (config : Config) (past : Past) (events : List Event) (hash : Digest) (fate : Fate) :
    Prop where
  asks : ∃ addrs, fate.Asks config past events hash addrs ∧ (fate.asked.map Prod.fst).Perm addrs
  sent : fate.Sent config events hash

/-- The race among the peers with these addresses, in which their blocks are those sent to this fetch. -/
structure Raced (config : Config) (events : List Event) (hash : Digest) (addrs : List String) (race : Race)
    (runner : Runner) : Prop where
  reached : ∃ peers, Race.Reached config hash peers race ∧ peers.map PeerHandle.addr = addrs
  progress : race.progress = .fetching runner
  sent : ∀ peer block, (peer, some block) ∈ race.ended → Event.sent block ∈ events

def Progress.Told (config : Config) (past : Past) (events : List Event) (hash : Digest) : Progress → Prop
  | .started => callsOf hash events = []
  | .missed => callsOf hash events = []
  | .pruned => callsOf hash events = [blockCall hash] ∧ ∃ fate : Fate, fate.Pruned config events
  | .updating => callsOf hash events = [blockCall hash] ∧ ∃ fate : Fate, fate.Pruned config events
  | .listed peers => ∃ fate : Fate, fate.Asks config past events hash (peers.peers.map Peer.addr)
  | .fetching runner => ∃ (fate : Fate) (addrs : List String) (race : Race),
      fate.Asks config past events hash addrs ∧ Raced config events hash addrs race runner
  | .fetched block => ∃ fate : Fate, fate.Asked config past events hash ∧
      fate.asked.findSome? Prod.snd = some block
  | .returned result => ∃ fate : Fate, fate.Drawn config past events hash ∧
      fate.Gives config.blockFromNull hash (callsOf hash events) result
  | .panicked => True
  | .dropped => True

structure Shared.Told (config : Config) (past : Past) (shared : Shared) : Prop where
  cached : ∀ hash bytes, shared.blockCache.inner.blocks.lookup hash = some bytes →
    SentToAny config past hash bytes
  listed : (shared.peers.fetched = false ∧ shared.peers.peers = []) ∨
    ∃ action ∈ past, shared.peers.peers.map Peer.addr = addresses (listedBy action)

/-- More has been done, and nothing more asked of bitcoind for this fetch. -/
structure Goes (hash : Digest) (past later : Past) (events more : List Event) : Prop where
  actions : past ⊆ later
  own : events ⊆ more
  calls : callsOf hash more = callsOf hash events

section

variable {config : Config} {past later : Past} {events more : List Event} {hash : Digest} {fate : Fate}
  {addrs : List String}

theorem SentToAny.mono {bytes : List UInt8} (sentToAny : SentToAny config past hash bytes)
    (within : past ⊆ later) : SentToAny config later hash bytes := by
  obtain ⟨index, block, member, isAccepted, isBytes⟩ := sentToAny
  exact ⟨index, block, within member, isAccepted, isBytes⟩

theorem Fate.Sent.mono (sent : fate.Sent config events hash) (within : events ⊆ more) :
    fate.Sent config more hash :=
  fun addr block member => ⟨within (sent addr block member).1, (sent addr block member).2⟩

theorem Fate.Pruned.mono (pruned : fate.Pruned config events) (within : events ⊆ more) :
    fate.Pruned config more :=
  ⟨pruned.uncached, within pruned.called, pruned.pruned⟩

theorem Fate.Asks.goes (asks : fate.Asks config past events hash addrs) (goes : Goes hash past later events more) :
    fate.Asks config later more hash addrs where
  toPruned := asks.toPruned.mono goes.own
  update := by
    intro update isUpdate
    obtain ⟨infos, isInfos, member, isAddrs⟩ := asks.update update isUpdate
    exact ⟨infos, isInfos, goes.own member, isAddrs⟩
  listed := by
    obtain ⟨action, member, isAddrs⟩ := asks.listed
    exact ⟨action, goes.actions member, isAddrs⟩
  calls := goes.calls.trans asks.calls

theorem Fate.Asked.goes (asked : fate.Asked config past events hash) (goes : Goes hash past later events more) :
    fate.Asked config later more hash := by
  obtain ⟨addrs, asks, perm⟩ := asked.asks
  exact ⟨⟨addrs, asks.goes goes, perm⟩, asked.sent.mono goes.own⟩

theorem Raced.mono {race : Race} {runner : Runner} (raced : Raced config events hash addrs race runner)
    (within : events ⊆ more) : Raced config more hash addrs race runner :=
  ⟨raced.reached, raced.progress, fun peer block member => within (raced.sent peer block member)⟩

theorem Fate.Drawn.mono (drawn : fate.Drawn config past events hash) (within : past ⊆ later) :
    fate.Drawn config later events hash where
  cached := fun bytes isCached => (drawn.cached bytes isCached).mono within
  called := drawn.called
  update := drawn.update
  updated := drawn.updated
  listed := drawn.listed.imp id fun ⟨action, member, perm⟩ => ⟨action, within member, perm⟩
  sent := drawn.sent

theorem Fate.Asked.drawn (asked : fate.Asked config past events hash) : fate.Drawn config past events hash := by
  obtain ⟨addrs, asks, perm⟩ := asked.asks
  refine ⟨by simp [asks.uncached], fun _ => asks.called, ?_, ?_, ?_, asked.sent⟩
  · intro update isUpdate
    obtain ⟨infos, rfl, member, _⟩ := asks.update update isUpdate
    exact member
  · intro infos isUpdate
    obtain ⟨_, isInfos, _, rfl⟩ := asks.update _ isUpdate
    rwa [Except.ok.inj isInfos]
  · obtain ⟨action, member, rfl⟩ := asks.listed
    exact Or.inr ⟨action, member, perm⟩

theorem Fate.Asked.gives (asked : fate.Asked config past events hash) :
    fate.Gives config.blockFromNull hash (callsOf hash events)
      (.ok ((fate.asked.findSome? Prod.snd).map Block.encode)) := by
  obtain ⟨addrs, asks, _⟩ := asked.asks
  rw [asks.calls]
  refine gives_fetched asks.uncached asks.pruned fun update isUpdate => ?_
  obtain ⟨infos, isInfos, _⟩ := asks.update update isUpdate
  exact ⟨infos, isInfos⟩

theorem Fate.Asked.returned (asked : fate.Asked config past events hash) {found : Option Block}
    (isFound : fate.asked.findSome? Prod.snd = found) :
    (Progress.returned (.ok (found.map Block.encode))).Told config past events hash :=
  ⟨fate, asked.drawn, isFound ▸ asked.gives⟩

end

namespace Race

def answers (race : Race) (runner : Runner) : List (String × Option Block) :=
  race.ended.map (fun entry => (entry.1.addr, entry.2)) ++
    (race.asked.toList ++ runner.waiting).map fun peer => (peer.addr, none)

section

variable {sha256d : List UInt8 → Digest} {hash : Digest} {peers : List PeerHandle} {race : Race}
  {runner : Runner}

theorem answers_perm (accounts : race.Accounts sha256d hash peers runner) :
    ((race.answers runner).map Prod.fst).Perm (peers.map PeerHandle.addr) := by
  have perm := accounts.peers.map PeerHandle.addr
  simpa [answers, Function.comp_def] using perm

theorem answers_findSome? (accounts : race.Accounts sha256d hash peers runner) :
    (race.answers runner).findSome? Prod.snd = runner.channel.head? := by
  have unended : ((race.asked.toList ++ runner.waiting).map fun peer => (peer.addr, (none : Option Block))).findSome?
      Prod.snd = none := by
    simp [List.findSome?_eq_none_iff]
  rw [answers, List.findSome?_append, unended, Option.or_none, List.findSome?_map, accounts.channel,
    List.head?_filterMap]
  rfl

theorem answers_ended {addr : String} {block : Block} (member : (addr, some block) ∈ race.answers runner) :
    ∃ peer, (peer, some block) ∈ race.ended := by
  rcases List.mem_append.mp member with ended | unended
  · obtain ⟨⟨peer, given⟩, isEnded, same⟩ := List.mem_map.mp ended
    obtain ⟨rfl, rfl⟩ := Prod.mk.inj same
    exact ⟨peer, isEnded⟩
  · obtain ⟨peer, _, same⟩ := List.mem_map.mp unended
    simp at same

theorem ended_record {event : Event} {progress : Progress} {peer : PeerHandle} {block : Block}
    (member : (peer, some block) ∈ (race.record sha256d hash event progress).ended) :
    (peer, some block) ∈ race.ended ∨ event = Event.sent block := by
  unfold record at member
  split at member
  · exact Or.inl member
  · rename_i runner peerEvent _ _
    split at member
    · rename_i result isEnded
      rcases List.mem_append.mp member with earlier | now
      · exact Or.inl earlier
      · obtain ⟨_, _, same⟩ := List.mem_map.mp now
        obtain ⟨_, isGiven⟩ := Prod.mk.inj same
        obtain ⟨⟨given, conn⟩, rfl, rfl⟩ := Option.map_eq_some_iff.mp isGiven
        obtain ⟨fetch, _, fetched⟩ := Option.bind_eq_some_iff.mp isEnded
        obtain ⟨_, rfl, _⟩ := fetchBlockFromPeer_fetched fetched
        exact Or.inr rfl
    · exact Or.inl member
  · exact Or.inl member

end

end Race

section

variable {config : Config} {past later : Past} {events more : List Event} {hash : Digest} {fate : Fate}
  {addrs : List String} {race : Race} {runner : Runner} {shared : Shared}

theorem Raced.answered (raced : Raced config events hash addrs race runner)
    (asks : fate.Asks config past events hash addrs) :
    ∃ after : Fate, after.Asked config past events hash ∧
      after.asked.findSome? Prod.snd = runner.channel.head? := by
  obtain ⟨peers, reached, rfl⟩ := raced.reached
  have accounts : race.Accounts config.sha256d hash peers runner := by
    simpa only [Race.Sound, raced.progress] using Race.sound_reached reached
  refine ⟨{ fate with asked := race.answers runner }, ⟨⟨_, ⟨⟨asks.uncached, asks.called, asks.pruned⟩,
    asks.update, asks.listed, asks.calls⟩, Race.answers_perm accounts⟩, ?_⟩, Race.answers_findSome? accounts⟩
  intro addr block member
  obtain ⟨peer, isEnded⟩ := Race.answers_ended member
  refine ⟨raced.sent peer block isEnded, accounts.valid block ?_⟩
  rw [accounts.channel]
  exact List.mem_filterMap.mpr ⟨_, isEnded, rfl⟩

theorem Raced.step {event : RunnerEvent} {polled : Shared × Progress} {next : Runner}
    (raced : Raced config events hash addrs race runner)
    (isPolled : pollRunner config shared hash runner event = some polled) (isNext : polled.2 = .fetching next) :
    Raced config (events ++ [.runner event]) hash addrs
      (race.record config.sha256d hash (.runner event) (.fetching next)) next := by
  obtain ⟨peers, reached, isAddrs⟩ := raced.reached
  have taken : Race.step config hash race (shared, .runner event) =
      some (race.record config.sha256d hash (.runner event) (.fetching next)) := by
    rw [Race.step, raced.progress, fetchBlockRaw, isPolled, Option.map_some, isNext]
  refine ⟨⟨peers, reached.next taken, isAddrs⟩, Race.record_progress _, ?_⟩
  intro peer block member
  rcases Race.ended_record member with earlier | isRead
  · exact List.mem_append_left _ (raced.sent peer block earlier)
  · exact List.mem_append_right _ (List.mem_singleton.mpr isRead.symm)

theorem update_addr (shared : Shared) (infos : List PeerInfo) :
    (shared.update infos).peers.peers.map Peer.addr = addresses infos := by
  simp only [Shared.update, Peers.updated, List.map_map, Function.comp_def]
  exact List.zipIdx_map_fst _ _

theorem Progress.Told.stays {progress : Progress} (told : progress.Told config past events hash)
    (within : past ⊆ later) : progress.Told config later events hash := by
  have goes : Goes hash past later events events := ⟨within, List.Subset.refl _, rfl⟩
  cases progress with
  | listed peers =>
      obtain ⟨fate, asks⟩ := told
      exact ⟨fate, asks.goes goes⟩
  | fetching runner =>
      obtain ⟨fate, addrs, race, asks, raced⟩ := told
      exact ⟨fate, addrs, race, asks.goes goes, raced⟩
  | fetched block =>
      obtain ⟨fate, asked, found⟩ := told
      exact ⟨fate, asked.goes goes, found⟩
  | returned result =>
      obtain ⟨fate, drawn, gives⟩ := told
      exact ⟨fate, drawn.mono within, gives⟩
  | _ => exact told

theorem Shared.Told.goes {after : Shared} (told : shared.Told config past) (within : past ⊆ later)
    (blocks : after.blockCache.inner.blocks = shared.blockCache.inner.blocks) (peers : after.peers = shared.peers) :
    after.Told config later where
  cached := fun hash bytes held => (told.cached hash bytes (blocks ▸ held)).mono within
  listed := by
    rw [peers]
    exact told.listed.imp id fun ⟨action, member, isListed⟩ => ⟨action, within member, isListed⟩

theorem Shared.Told.update (told : shared.Told config past) (within : past ⊆ later)
    {action : Action Digest Event (List PeerInfo)} (member : action ∈ later) :
    (shared.update (listedBy action)).Told config later where
  cached := fun hash bytes held => (told.cached hash bytes held).mono within
  listed := Or.inr ⟨action, member, update_addr shared (listedBy action)⟩

end

/-! Any number of fetches. -/

def Told (config : Config) (past : Past) (state : Interleaved.State Shared Call) : Prop :=
  state.shared.Told config past ∧
    Along (fun past events call => call.progress.Told config past events call.hash) past state

end BtcRpcProxy.FetchBlocks
