import BtcRpcProxy.BlockCache
import BtcRpcProxy.WitnessChecks
import BtcRpcProxy.FetchBlocksCore

/-!
What the block cache and `fetch_block_raw` give out: bytes bitcoind answered with, or the
encoding of a block that passed the three checks for the hash, whatever the peers send and
however the calls interleave. Blocks enter a runner's channel only from `fetch_block_from_peer`,
and the cache only from a channel.
-/

namespace BtcRpcProxy.FetchBlocks

open Blocks Interleaved

def Verified (sha256d : List UInt8 → Digest) (hash : Digest) (bytes : List UInt8) : Prop :=
  ∃ block : Block, bytes = block.encode ∧ block.blockHash sha256d = hash ∧
    block.checkMerkleRoot sha256d = true ∧ checkWitnesses sha256d block = some true

def AnsweredBySelf (shared : Shared) (hash : Digest) (bytes : List UInt8) : Prop :=
  ∃ response, (blockCall hash, .ok response) ∈ shared.replies ∧ response.error = none ∧
    response.result = some (.left bytes)

theorem encode_verified {sha256d : List UInt8 → Digest} {hash : Digest} {block : Block}
    (valid : accepted sha256d hash block = true) : Verified sha256d hash block.encode := by
  simp only [accepted, Bool.and_eq_true, beq_iff_eq] at valid
  exact ⟨block, rfl, valid.1.1, valid.1.2, valid.2⟩

def CacheVerified (config : Config) (shared : Shared) : Prop :=
  ∀ hash bytes, shared.blockCache.inner.blocks.lookup hash = some bytes →
    Verified config.sha256d hash bytes

/-- What a call holds of peers' blocks and what it returned, where it stands. -/
def Progress.Sound (config : Config) (shared : Shared) (hash : Digest) : Progress → Prop
  | .fetching runner => ∀ block ∈ runner.channel, accepted config.sha256d hash block = true
  | .fetched block => accepted config.sha256d hash block = true
  | .returned result => ∀ bytes, result = .ok (some bytes) →
      AnsweredBySelf shared hash bytes ∨ Verified config.sha256d hash bytes
  | _ => True

def Follows (shared after : Shared) : Prop := ∀ reply ∈ shared.replies, reply ∈ after.replies

theorem Progress.Sound.follows {config : Config} {shared after : Shared} {hash : Digest}
    {progress : Progress} (sound : progress.Sound config shared hash) (follows : Follows shared after) :
    progress.Sound config after hash := by
  cases progress with
  | returned result =>
      intro bytes isResult
      rcases sound bytes isResult with ⟨response, member, answer⟩ | verified
      · exact Or.inl ⟨response, follows _ member, answer⟩
      · exact Or.inr verified
  | _ => exact sound

structure Kept (config : Config) (shared : Shared) (hash : Digest) (moved : Shared × Progress) : Prop where
  cache : CacheVerified config moved.1
  sound : moved.2.Sound config moved.1 hash
  follows : Follows shared moved.1

/-! The runner. -/

theorem fetchBlockFromPeer_cases {sha256d : List UInt8 → Digest} {hash : Digest} {fetch next : PeerFetch}
    {event : PeerEvent} (step : fetchBlockFromPeer sha256d hash fetch event = some next) :
    (∃ first second addr send, event = .handshake first second ∧ fetch = .connecting addr send ∧
      next = .connected { conn := Connection.connect first second, send }) ∨
    (∃ conn, event = .written ∧ fetch = .connected conn ∧ next = .reading (conn.write (.getData hash))) ∨
    (∃ nonce conn, event = .written ∧ fetch = .answering nonce conn ∧
      next = .reading (conn.write (.pong nonce))) ∨
    (∃ message conn, event = .read message ∧ fetch = .reading conn ∧
      next = handleMessage sha256d hash (conn.read message) message) ∨
    (event = .failed ∧ next = .ended none) := by
  cases event with
  | handshake first second =>
      cases fetch with
      | connecting addr send => exact Or.inl ⟨first, second, addr, send, rfl, rfl, (Option.some.inj step).symm⟩
      | _ => simp [fetchBlockFromPeer] at step
  | written =>
      cases fetch with
      | connected conn => exact Or.inr (Or.inl ⟨conn, rfl, rfl, (Option.some.inj step).symm⟩)
      | answering nonce conn =>
          exact Or.inr (Or.inr (Or.inl ⟨nonce, conn, rfl, rfl, (Option.some.inj step).symm⟩))
      | _ => simp [fetchBlockFromPeer] at step
  | read message =>
      cases fetch with
      | reading conn =>
          exact Or.inr (Or.inr (Or.inr (Or.inl ⟨message, conn, rfl, rfl, (Option.some.inj step).symm⟩)))
      | _ => simp [fetchBlockFromPeer] at step
  | failed => exact Or.inr (Or.inr (Or.inr (Or.inr ⟨rfl, (Option.some.inj step).symm⟩)))

theorem handleMessage_block (sha256d : List UInt8 → Digest) (hash : Digest) (conn : RecyclableConnection)
    (block : Block) : handleMessage sha256d hash conn (.block block) =
      .ended (if accepted sha256d hash block then some (block, conn) else none) := by
  obtain ⟨result, checked⟩ := checkWitnesses_total sha256d block
  simp [handleMessage, checked]

theorem handleMessage_accepted {sha256d : List UInt8 → Digest} {hash : Digest} {conn kept : RecyclableConnection}
    {message : NetworkMessage} {block : Block}
    (handled : handleMessage sha256d hash conn message = .ended (some (block, kept))) :
    message = .block block ∧ kept = conn ∧ accepted sha256d hash block = true := by
  cases message with
  | block sent =>
      rw [handleMessage_block] at handled
      by_cases valid : accepted sha256d hash sent = true
      · simp only [valid, if_true, PeerFetch.ended.injEq, Option.some.injEq, Prod.mk.injEq] at handled
        obtain ⟨rfl, rfl⟩ := handled
        exact ⟨rfl, rfl, valid⟩
      · simp [valid] at handled
  | _ => simp [handleMessage] at handled

/-- A fetch ends with a block only where it has just read it. -/
theorem fetchBlockFromPeer_fetched {sha256d : List UInt8 → Digest} {hash : Digest} {fetch : PeerFetch}
    {event : PeerEvent} {block : Block} {conn : RecyclableConnection}
    (fetched : fetchBlockFromPeer sha256d hash fetch event = some (.ended (some (block, conn)))) :
    ∃ reader, event = .read (.block block) ∧ fetch = .reading reader ∧ conn = reader.read (.block block) ∧
      accepted sha256d hash block = true := by
  rcases fetchBlockFromPeer_cases fetched with ⟨_, _, _, _, _, _, ended⟩ | ⟨_, _, _, ended⟩ |
    ⟨_, _, _, _, ended⟩ | ⟨message, reader, rfl, isReading, ended⟩ | ⟨_, ended⟩
  · simp at ended
  · simp at ended
  · simp at ended
  · obtain ⟨rfl, isConn, valid⟩ := handleMessage_accepted ended.symm
    exact ⟨reader, rfl, isReading, isConn, valid⟩
  · simp at ended

theorem poll_cases {sha256d : List UInt8 → Digest} {limit : Option Nat} {hash : Digest} {runner : Runner}
    {pools : Pools} {event : RunnerEvent} {polled : Runner × Pools}
    (step : runner.poll sha256d limit hash pools event = some polled) :
    (∃ position handle, event = .start position ∧ runner.active = none ∧
      runner.waiting[position]? = some handle ∧
      polled = ({ runner with waiting := runner.waiting.eraseIdx position, active := some handle.connect },
        pools)) ∨
    (∃ peerEvent fetch result, event = .peer peerEvent ∧ runner.active = some fetch ∧
      fetchBlockFromPeer sha256d hash fetch peerEvent = some (.ended result) ∧
      polled = runner.handle pools result) ∨
    (∃ peerEvent fetch next, event = .peer peerEvent ∧ runner.active = some fetch ∧
      fetchBlockFromPeer sha256d hash fetch peerEvent = some next ∧ (∀ result, next ≠ .ended result) ∧
      polled = ({ runner with active := some next }, pools)) ∨
    (event = .handled ∧ 0 < runner.handling ∧
      polled = ({ runner with handling := runner.handling - 1 }, pools)) := by
  cases event with
  | start position =>
      simp only [Runner.poll] at step
      split at step
      · rename_i handle isIdle found
        split at step
        · exact Or.inl ⟨position, handle, rfl, isIdle, found, (Option.some.inj step).symm⟩
        · simp at step
      · simp at step
  | peer event =>
      simp only [Runner.poll] at step
      split at step
      · simp at step
      · rename_i fetch isActive
        split at step
        · split at step
          · simp at step
          · rename_i result fetched
            exact Or.inr (Or.inl ⟨event, fetch, result, rfl, isActive, fetched, (Option.some.inj step).symm⟩)
          · rename_i next notEnded fetched
            refine Or.inr (Or.inr (Or.inl ⟨event, fetch, next, rfl, isActive, fetched, ?_,
              (Option.some.inj step).symm⟩))
            intro result isEnded
            exact notEnded result isEnded
        · simp at step
  | handled =>
      simp only [Runner.poll] at step
      split at step
      · rename_i some
        exact Or.inr (Or.inr (Or.inr ⟨rfl, some, (Option.some.inj step).symm⟩))
      · simp at step

theorem poll_channel {sha256d : List UInt8 → Digest} {limit : Option Nat} {hash : Digest} {runner : Runner}
    {pools : Pools} {event : RunnerEvent} {polled : Runner × Pools}
    (step : runner.poll sha256d limit hash pools event = some polled) {block : Block}
    (member : block ∈ polled.1.channel) :
    block ∈ runner.channel ∨ accepted sha256d hash block = true := by
  rcases poll_cases step with ⟨_, _, _, _, _, rfl⟩ | ⟨_, _, result, _, _, fetched, rfl⟩ |
    ⟨_, _, _, _, _, _, _, rfl⟩ | ⟨_, _, rfl⟩
  · exact Or.inl member
  · cases result with
    | none => exact Or.inl member
    | some result =>
        rcases List.mem_append.mp member with earlier | isFetched
        · exact Or.inl earlier
        · obtain ⟨_, _, _, _, valid⟩ := fetchBlockFromPeer_fetched fetched
          exact Or.inr (List.mem_singleton.mp isFetched ▸ valid)
  · exact Or.inl member
  · exact Or.inl member

/-! `fetch_block_raw`, await by await. -/

theorem kept_of_same {config : Config} {shared after : Shared} {hash : Digest} {progress : Progress}
    (verified : CacheVerified config shared)
    (blocks : after.blockCache.inner.blocks = shared.blockCache.inner.blocks)
    (replies : after.replies = shared.replies) (sound : progress.Sound config after hash) :
    Kept config shared hash (after, progress) := by
  refine ⟨?_, sound, ?_⟩
  · intro key bytes held
    rw [blocks] at held
    exact verified key bytes held
  · intro reply member
    rw [replies]
    exact member

theorem lookUp_kept {config : Config} {shared : Shared} (verified : CacheVerified config shared)
    (hash : Digest) : Kept config shared hash (lookUp shared hash) := by
  have unchanged := (BlockCache.get_inner shared.blockCache hash).1
  unfold lookUp
  split
  · rename_i block blockCache got
    have hit := BlockCache.lookup_of_get (congrArg Prod.fst got)
    rw [got] at unchanged
    refine kept_of_same verified unchanged rfl ?_
    intro bytes isResult
    simp only [Except.ok.injEq, Option.some.injEq] at isResult
    exact Or.inr (isResult ▸ verified hash block hit)
  · rename_i blockCache got
    rw [got] at unchanged
    exact kept_of_same verified unchanged rfl trivial

theorem fetchBlockFromSelf_some {blockFromNull : AnyhowError}
    {called : Except ClientError (RpcResponse BlockReply)} {bytes : List UInt8}
    (fetched : fetchBlockFromSelf blockFromNull called = .ok (some bytes)) :
    ∃ response, called = .ok response ∧ response.error = none ∧ response.result = some (.left bytes) := by
  unfold fetchBlockFromSelf at fetched
  split at fetched
  · simp at fetched
  · rename_i response
    obtain ⟨id, error, result⟩ := response
    refine ⟨_, rfl, ?_⟩
    cases error with
    | some error =>
        simp only [RpcResponse.intoResult] at fetched
        split at fetched <;> simp at fetched
    | none =>
        cases result with
        | none =>
            simp only [RpcResponse.intoResult, Except.mapError] at fetched
            split at fetched <;> simp at fetched
        | some reply =>
            cases reply with
            | left answered => simpa [RpcResponse.intoResult, BlockReply.intoLeft] using fetched
            | right block => simp [RpcResponse.intoResult, BlockReply.intoLeft] at fetched

theorem askSelf_kept {config : Config} {shared : Shared} (verified : CacheVerified config shared)
    (hash : Digest) (called : Except ClientError (RpcResponse BlockReply)) :
    Kept config shared hash (askSelf config shared hash called) := by
  refine ⟨verified, ?_, fun reply member => List.mem_cons_of_mem _ member⟩
  unfold askSelf
  cases fetched : fetchBlockFromSelf config.blockFromNull called with
  | error error =>
      intro bytes isResult
      simp at isResult
  | ok answer =>
      cases answer with
      | none => trivial
      | some block =>
          intro bytes isResult
          simp only [Except.ok.injEq, Option.some.injEq] at isResult
          obtain ⟨response, isResponse, noError, result⟩ := fetchBlockFromSelf_some fetched
          refine Or.inl ⟨response, ?_, noError, isResult ▸ result⟩
          rw [isResponse]
          exact List.mem_cons_self

theorem getPeers_kept {config : Config} {shared : Shared} (verified : CacheVerified config shared)
    (hash : Digest) (aged : Bool) : Kept config shared hash (shared, getPeers shared aged) := by
  refine kept_of_same verified rfl rfl ?_
  unfold getPeers
  split <;> trivial

theorem updatePeers_kept {config : Config} {shared : Shared} (verified : CacheVerified config shared)
    (hash : Digest) (infos : Except AnyhowError (List PeerInfo)) :
    Kept config shared hash (updatePeers shared infos) := by
  cases infos with
  | error error =>
      refine kept_of_same verified rfl rfl ?_
      intro bytes isResult
      simp at isResult
  | ok infos => exact kept_of_same verified rfl rfl trivial

theorem takeHandles_kept {config : Config} {shared : Shared} (verified : CacheVerified config shared)
    (hash : Digest) (peers : Peers) : Kept config shared hash (takeHandles shared peers) := by
  refine kept_of_same verified rfl rfl ?_
  intro block member
  simp [Runner.new] at member

theorem pollRunner_cases {config : Config} {shared : Shared} {hash : Digest} {runner : Runner}
    {event : RunnerEvent} {moved : Shared × Progress}
    (step : pollRunner config shared hash runner event = some moved) :
    ∃ polled progress,
      runner.poll config.sha256d config.maxPeerConcurrency hash shared.pools event = some polled ∧
      moved = ({ shared with pools := polled.2 }, progress) ∧
      ((polled.1.active = some .panicked ∧ progress = .panicked) ∨ progress = .fetching polled.1) := by
  obtain ⟨polled, isPolled, rfl⟩ := Option.map_eq_some_iff.mp step
  refine ⟨polled, _, isPolled, rfl, ?_⟩
  split
  · rename_i panicked
    exact Or.inl ⟨panicked, rfl⟩
  · exact Or.inr rfl

theorem pollRunner_kept {config : Config} {shared : Shared} (verified : CacheVerified config shared)
    {hash : Digest} {runner : Runner} (sound : (Progress.fetching runner).Sound config shared hash)
    {event : RunnerEvent} {moved : Shared × Progress}
    (step : pollRunner config shared hash runner event = some moved) : Kept config shared hash moved := by
  obtain ⟨polled, progress, isPolled, rfl, ⟨_, rfl⟩ | rfl⟩ := pollRunner_cases step
  · exact kept_of_same verified rfl rfl trivial
  · refine kept_of_same verified rfl rfl ?_
    intro block member
    rcases poll_channel isPolled member with earlier | valid
    · exact sound block earlier
    · exact valid

theorem receiveBlock_cases {runner : Runner} {next : Progress} (received : receiveBlock runner = some next) :
    ∃ block, runner.channel.head? = some block ∧ next = .fetched block := by
  unfold receiveBlock at received
  split at received
  · rename_i block rest channel
    exact ⟨block, by simp [channel], (Option.some.inj received).symm⟩
  · simp at received

theorem endRunner_cases {runner : Runner} {next : Progress} (finished : endRunner runner = some next) :
    runner.isDone = true ∧ ((∃ block, runner.channel.head? = some block ∧ next = .fetched block) ∨
      (runner.channel = [] ∧ next = .returned (.ok none))) := by
  unfold endRunner at finished
  split at finished
  · rename_i isDone
    refine ⟨isDone, ?_⟩
    cases channel : runner.channel with
    | nil =>
        simp only [receiveBlock, channel, Option.getD_none, Option.some.injEq] at finished
        exact Or.inr ⟨rfl, finished.symm⟩
    | cons block rest =>
        simp only [receiveBlock, channel, Option.getD_some, Option.some.injEq] at finished
        exact Or.inl ⟨block, rfl, finished.symm⟩
  · simp at finished

theorem receiveBlock_sound {config : Config} {shared : Shared} {hash : Digest} {runner : Runner}
    (sound : (Progress.fetching runner).Sound config shared hash) {next : Progress}
    (received : receiveBlock runner = some next) : next.Sound config shared hash := by
  obtain ⟨block, isFirst, rfl⟩ := receiveBlock_cases received
  exact sound block (List.mem_of_head? isFirst)

theorem endRunner_sound {config : Config} {shared : Shared} {hash : Digest} {runner : Runner}
    (sound : (Progress.fetching runner).Sound config shared hash) {next : Progress}
    (finished : endRunner runner = some next) : next.Sound config shared hash := by
  obtain ⟨_, ⟨block, isFirst, rfl⟩ | ⟨_, rfl⟩⟩ := endRunner_cases finished
  · exact sound block (List.mem_of_head? isFirst)
  · intro bytes isResult
    simp at isResult

theorem cacheBlock_kept {config : Config} {shared : Shared} (verified : CacheVerified config shared)
    {hash : Digest} {block : Block} (valid : accepted config.sha256d hash block = true) :
    Kept config shared hash (cacheBlock config shared hash block) := by
  unfold cacheBlock
  split
  · rename_i blockCache stored
    refine ⟨?_, ?_, fun reply member => member⟩
    · intro key bytes held
      rcases BlockCache.lookup_of_insert stored held with earlier | ⟨isHash, isBlock⟩
      · exact verified key bytes earlier
      · rw [isHash, isBlock]
        exact encode_verified valid
    · intro bytes isResult
      simp only [Except.ok.injEq, Option.some.injEq] at isResult
      exact Or.inr (isResult ▸ encode_verified valid)
  · exact kept_of_same verified rfl rfl trivial

/-- The steps of `fetch_block_raw`, one for each await and each step between two. -/
inductive Moves (config : Config) (shared : Shared) (hash : Digest) :
    Progress → Event → Shared × Progress → Prop
  | lookUp : Moves config shared hash .started .proceed (lookUp shared hash)
  | askSelf (called) : Moves config shared hash .missed (.selfReplied called) (askSelf config shared hash called)
  | getPeers (aged) : Moves config shared hash .pruned (.peersRead aged) (shared, getPeers shared aged)
  | updatePeers (infos) : Moves config shared hash .updating (.peersUpdated infos) (updatePeers shared infos)
  | takeHandles (peers) : Moves config shared hash (.listed peers) .proceed (takeHandles shared peers)
  | poll {runner event moved} : pollRunner config shared hash runner event = some moved →
      Moves config shared hash (.fetching runner) (.runner event) moved
  | receive {runner next} : receiveBlock runner = some next →
      Moves config shared hash (.fetching runner) .received (shared, next)
  | finish {runner next} : endRunner runner = some next →
      Moves config shared hash (.fetching runner) .runnerEnded (shared, next)
  | cacheBlock (block) : Moves config shared hash (.fetched block) .proceed (cacheBlock config shared hash block)
  | drop {progress} : Moves config shared hash progress .dropped (shared, .dropped)

theorem fetchBlockRaw_moves {config : Config} {shared : Shared} {hash : Digest} {progress : Progress}
    {event : Event} {moved : Shared × Progress}
    (step : fetchBlockRaw config shared hash progress event = some moved) :
    Moves config shared hash progress event moved := by
  cases event with
  | proceed =>
      cases progress with
      | started => exact Option.some.inj step ▸ .lookUp
      | listed peers => exact Option.some.inj step ▸ .takeHandles peers
      | fetched block => exact Option.some.inj step ▸ .cacheBlock block
      | _ => simp [fetchBlockRaw] at step
  | selfReplied called =>
      cases progress with
      | missed => exact Option.some.inj step ▸ .askSelf called
      | _ => simp [fetchBlockRaw] at step
  | peersRead aged =>
      cases progress with
      | pruned => exact Option.some.inj step ▸ .getPeers aged
      | _ => simp [fetchBlockRaw] at step
  | peersUpdated infos =>
      cases progress with
      | updating => exact Option.some.inj step ▸ .updatePeers infos
      | _ => simp [fetchBlockRaw] at step
  | runner event =>
      cases progress with
      | fetching runner => exact .poll step
      | _ => simp [fetchBlockRaw] at step
  | received =>
      cases progress with
      | fetching runner =>
          obtain ⟨next, received, isMoved⟩ := Option.map_eq_some_iff.mp step
          exact isMoved ▸ .receive received
      | _ => simp [fetchBlockRaw] at step
  | runnerEnded =>
      cases progress with
      | fetching runner =>
          obtain ⟨next, finished, isMoved⟩ := Option.map_eq_some_iff.mp step
          exact isMoved ▸ .finish finished
      | _ => simp [fetchBlockRaw] at step
  | dropped =>
      cases progress with
      | returned result => simp [fetchBlockRaw] at step
      | panicked => simp [fetchBlockRaw] at step
      | _ => exact Option.some.inj step ▸ .drop

theorem system_moves {config : Config} {shared after : Shared} {call next : Call} {event : Event}
    (step : (system config).advance shared call event = some (after, next)) :
    ∃ progress, next = { call with progress } ∧
      Moves config shared call.hash call.progress event (after, progress) := by
  obtain ⟨moved, isMoved, isNext⟩ := Option.map_eq_some_iff.mp step
  obtain ⟨rfl, rfl⟩ := Prod.mk.inj isNext
  exact ⟨moved.2, rfl, fetchBlockRaw_moves isMoved⟩

theorem moves_kept {config : Config} {shared : Shared} (verified : CacheVerified config shared)
    {hash : Digest} {progress : Progress} (sound : progress.Sound config shared hash) {event : Event}
    {moved : Shared × Progress} (moves : Moves config shared hash progress event moved) :
    Kept config shared hash moved := by
  cases moves with
  | lookUp => exact lookUp_kept verified hash
  | askSelf called => exact askSelf_kept verified hash called
  | getPeers aged => exact getPeers_kept verified hash aged
  | updatePeers infos => exact updatePeers_kept verified hash infos
  | takeHandles peers => exact takeHandles_kept verified hash peers
  | poll polled => exact pollRunner_kept verified sound polled
  | receive received => exact kept_of_same verified rfl rfl (receiveBlock_sound sound received)
  | finish finished => exact kept_of_same verified rfl rfl (endRunner_sound sound finished)
  | cacheBlock block => exact cacheBlock_kept verified sound
  | drop => exact kept_of_same verified rfl rfl trivial

theorem system_keeps (config : Config) :
    (system config).Keeps (CacheVerified config)
      (fun shared call => call.progress.Sound config shared call.hash) Follows := by
  constructor
  · intro shared hash
    trivial
  · intro shared call event after next verified sound step
    obtain ⟨progress, rfl, moves⟩ := system_moves step
    have kept := moves_kept verified sound moves
    exact ⟨kept.cache, kept.sound, kept.follows⟩
  · intro shared infos after verified step
    rw [← Option.some.inj step]
    exact ⟨verified, fun reply member => member⟩
  · intro shared after call follows sound
    exact sound.follows follows

theorem new_verified (config : Config) (maxBytes : Nat) : CacheVerified config (Shared.new maxBytes) := by
  intro hash bytes held
  simp [Shared.new, BlockCache.new] at held

theorem bytes_sound {config : Config} {shared : Shared} {call : Call}
    (sound : call.progress.Sound config shared call.hash) {bytes : List UInt8}
    (returned : call.bytes = some bytes) :
    AnsweredBySelf shared call.hash bytes ∨ Verified config.sha256d call.hash bytes := by
  unfold Call.bytes at returned
  split at returned
  · rename_i result isReturned
    rw [isReturned] at sound
    exact sound bytes (congrArg Except.ok returned)
  · simp at returned

/-- In every state the calls reach, a call has returned bytes only if bitcoind gave them for its
hash or they encode a block that passes the three checks, and the cache holds the latter only. -/
theorem fetchBlockRaw_verified (config : Config) (maxBytes : Nat) (state : Interleaved.State Shared Call)
    (reached : (system config).Reached (Shared.new maxBytes) state) :
    (∀ call ∈ state.calls, ∀ bytes, call.bytes = some bytes →
      AnsweredBySelf state.shared call.hash bytes ∨ Verified config.sha256d call.hash bytes) ∧
    ∀ hash bytes, state.shared.blockCache.inner.blocks.lookup hash = some bytes →
      Verified config.sha256d hash bytes := by
  obtain ⟨verified, sound⟩ := (system_keeps config).reached reached (new_verified config maxBytes)
  exact ⟨fun call member bytes returned => bytes_sound (sound call member) returned, verified⟩

/-! Three calls for one block, one of them answered by bitcoind. -/

def sampleConfig : Config :=
  { sha256d := sampleHash,
    usizeMax := 2 ^ 64 - 1,
    maxPeerConcurrency := none,
    blockFromNull := ⟨[]⟩ }

def samplePeer (addr : String) : PeerInfo :=
  { addr, servicesnames := ["NETWORK", "WITNESS"], inbound := false }

/-- The first peer sends a block that lacks two transactions, the second one the block itself. -/
def sampleRun : List (Action Digest Event (List PeerInfo)) :=
  let sampled := honestBlock.blockHash sampleHash
  let pruned : RpcError := { code := miscErrorCode, message := pruneErrorMessage, status := none }
  [.begin sampled, .begin sampled, .advance 0 .proceed, .advance 1 .proceed,
    .advance 0 (.selfReplied (.ok { id := none, error := some pruned, result := none })),
    .advance 0 (.peersRead false),
    .advance 0 (.peersUpdated (.ok [samplePeer "first", samplePeer "second"])),
    .advance 0 .proceed,
    .advance 0 (.runner (.start 0)),
    .advance 0 (.runner (.peer (.handshake .version .verack))),
    .advance 0 (.runner (.peer .written)),
    .advance 0 (.runner (.peer (.read (.ping 7)))),
    .advance 0 (.runner (.peer .written)),
    .advance 0 (.runner (.peer (.read (.block (sampleBlock [sampleCoinbase]))))),
    .advance 0 (.runner .handled),
    .advance 0 (.runner (.start 0)),
    .advance 0 (.runner (.peer (.handshake .version .verack))),
    .advance 0 (.runner (.peer .written)),
    .advance 0 (.runner (.peer (.read (.block honestBlock)))),
    .advance 0 .received, .advance 0 .proceed,
    .advance 1 (.selfReplied (.ok { id := none, error := none, result := some (.left [1, 2, 3]) })),
    .begin sampled, .advance 2 .proceed]

theorem fetchBlockRaw_verified_peers :
    ∃ state : Interleaved.State Shared Call,
      state.calls.map Call.bytes =
        [some honestBlock.encode, some [1, 2, 3], some honestBlock.encode] ∧
      (∀ call ∈ state.calls, ∀ bytes, call.bytes = some bytes →
        AnsweredBySelf state.shared call.hash bytes ∨ Verified sampleHash call.hash bytes) ∧
      ∀ hash bytes, state.shared.blockCache.inner.blocks.lookup hash = some bytes →
        Verified sampleHash hash bytes := by
  have returned : (Runs.runFrom (system sampleConfig).step { shared := Shared.new 1000, calls := [] }
      sampleRun).map (fun state => state.calls.map Call.bytes) =
        some [some honestBlock.encode, some [1, 2, 3], some honestBlock.encode] := by
    decide +kernel
  obtain ⟨state, run, calls⟩ := Option.map_eq_some_iff.mp returned
  have reached : (system sampleConfig).Reached (Shared.new 1000) state :=
    Runs.reachable_of_run _ sampleRun run
  exact ⟨state, calls, fetchBlockRaw_verified sampleConfig 1000 state reached⟩

end BtcRpcProxy.FetchBlocks
