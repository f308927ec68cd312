import BtcRpcProxy.FetchBlocks
import BtcRpcProxy.BatchFailure

/-!
Which requests `User::intercept` panics on. A fetch of a block never does, as long as memory
holds the blocks of the cache and the one being stored; what is left is the index `params[0]`.
-/

namespace BtcRpcProxy

namespace FetchBlocks

open Blocks Interleaved

/-- Memory holds the blocks of the cache and the one being stored. -/
def fits (config : Config) (shared : Shared) (call : Call) (event : Event) : Bool :=
  match call.progress, event with
  | .fetched block, .proceed =>
      decide (BlockCache.heldBytes shared.blockCache.inner.blocks + block.encode.length ≤ config.usizeMax)
  | _, _ => true

def Progress.NoPanic : Progress → Prop
  | .fetching runner => runner.active ≠ some .panicked
  | .panicked => False
  | _ => True

theorem handleMessage_noPanic (sha256d : List UInt8 → Digest) (hash : Digest) (conn : RecyclableConnection)
    (message : NetworkMessage) : handleMessage sha256d hash conn message ≠ .panicked := by
  cases message with
  | block block =>
      rw [handleMessage_block]
      simp
  | _ => simp [handleMessage]

theorem fetchBlockFromPeer_noPanic {sha256d : List UInt8 → Digest} {hash : Digest} {fetch next : PeerFetch}
    {event : PeerEvent} (step : fetchBlockFromPeer sha256d hash fetch event = some next) :
    next ≠ .panicked := by
  rcases fetchBlockFromPeer_cases step with ⟨_, _, _, _, _, _, rfl⟩ | ⟨_, _, _, rfl⟩ | ⟨_, _, _, _, rfl⟩ |
    ⟨message, conn, _, _, rfl⟩ | ⟨_, rfl⟩
  · simp
  · simp
  · simp
  · exact handleMessage_noPanic sha256d hash _ message
  · simp

theorem connect_noPanic (handle : PeerHandle) : handle.connect ≠ .panicked := by
  unfold PeerHandle.connect
  split <;> simp

theorem poll_noPanic {sha256d : List UInt8 → Digest} {limit : Option Nat} {hash : Digest} {runner : Runner}
    {pools : Pools} {event : RunnerEvent} {polled : Runner × Pools}
    (noPanic : runner.active ≠ some .panicked)
    (step : runner.poll sha256d limit hash pools event = some polled) :
    polled.1.active ≠ some .panicked := by
  rcases poll_cases step with ⟨_, handle, _, _, _, rfl⟩ | ⟨_, _, result, _, _, _, rfl⟩ |
    ⟨_, _, next, _, _, fetched, _, rfl⟩ | ⟨_, _, rfl⟩
  · simpa using connect_noPanic handle
  · cases result <;> simp [Runner.handle]
  · simpa using fetchBlockFromPeer_noPanic fetched
  · exact noPanic

theorem moves_noPanic {config : Config} {maxBytes : Nat} {shared : Shared} {call : Call} {event : Event}
    {moved : Shared × Progress} (accounted : BlockCache.Accounted maxBytes shared.blockCache)
    (noPanic : call.progress.NoPanic) (isFit : fits config shared call event = true)
    (moves : Moves config shared call.hash call.progress event moved) :
    BlockCache.Accounted maxBytes moved.1.blockCache ∧ moved.2.NoPanic := by
  obtain ⟨hash, progress⟩ := call
  cases moves with
  | lookUp =>
      have gotAccounted := BlockCache.get_accounted accounted hash
      unfold lookUp
      split
      · rename_i got
        exact ⟨by simpa [got] using gotAccounted, trivial⟩
      · rename_i got
        exact ⟨by simpa [got] using gotAccounted, trivial⟩
  | askSelf called =>
      refine ⟨accounted, ?_⟩
      unfold askSelf
      split <;> trivial
  | getPeers aged =>
      refine ⟨accounted, ?_⟩
      unfold getPeers
      split <;> trivial
  | updatePeers infos => cases infos <;> exact ⟨accounted, trivial⟩
  | takeHandles peers => exact ⟨accounted, by simp [takeHandles, Progress.NoPanic, Runner.new]⟩
  | poll polled =>
      obtain ⟨next, progress, isPolled, rfl, outcome⟩ := pollRunner_cases polled
      have nextNoPanic := poll_noPanic noPanic isPolled
      rcases outcome with ⟨panicked, _⟩ | rfl
      · exact absurd panicked nextNoPanic
      · exact ⟨accounted, nextNoPanic⟩
  | receive received =>
      obtain ⟨block, _, rfl⟩ := receiveBlock_cases received
      exact ⟨accounted, trivial⟩
  | finish finished =>
      obtain ⟨_, ⟨block, _, rfl⟩ | ⟨_, rfl⟩⟩ := endRunner_cases finished <;> exact ⟨accounted, trivial⟩
  | cacheBlock block =>
      obtain ⟨after, stored, afterAccounted⟩ :=
        BlockCache.insert_accounted accounted hash block.encode (of_decide_eq_true isFit)
      simp only [cacheBlock, stored]
      exact ⟨afterAccounted, trivial⟩
  | drop => exact ⟨accounted, trivial⟩

theorem restricted_noPanic (config : Config) (maxBytes : Nat) :
    ((system config).restrict (fits config)).Keeps
      (fun shared => BlockCache.Accounted maxBytes shared.blockCache)
      (fun _ call => call.progress.NoPanic) fun _ _ => True := by
  constructor
  · intro shared hash
    trivial
  · intro shared call event after next accounted noPanic step
    obtain ⟨isFit, taken⟩ := System.restrict_advance.mp step
    obtain ⟨progress, rfl, moves⟩ := system_moves taken
    obtain ⟨afterAccounted, nextNoPanic⟩ := moves_noPanic accounted noPanic isFit moves
    exact ⟨afterAccounted, nextNoPanic, trivial⟩
  · intro shared infos after accounted changed
    rw [← Option.some.inj changed]
    exact ⟨accounted, trivial⟩
  · exact fun _ _ _ _ noPanic => noPanic

def Reached (config : Config) (maxBytes : Nat) : Interleaved.State Shared Call → Prop :=
  ((system config).restrict (fits config)).Reached (Shared.new maxBytes)

def Call.outcome (call : Call) : Option (Option (Except RpcError (Option (List UInt8)))) :=
  match call.progress with
  | .returned result => some (some result)
  | .panicked => some none
  | _ => none

theorem outcome_noPanic {config : Config} {maxBytes : Nat} {state : Interleaved.State Shared Call}
    (reached : Reached config maxBytes state) {call : Call} (member : call ∈ state.calls) :
    call.outcome ≠ some none := by
  have noPanic : call.progress.NoPanic := ((restricted_noPanic config maxBytes).reached reached
    (BlockCache.new_accounted maxBytes)).2 call member
  unfold Call.outcome
  split
  · simp
  · rename_i panicked
    rw [panicked] at noPanic
    exact noPanic.elim
  · simp

end FetchBlocks

open Polled

/-- Each fetch ends as a call of `fetch_block_raw` does in a run, and each call of bitcoind ends. -/
structure Upstream.Awaited (upstream : Upstream) (config : FetchBlocks.Config) (maxBytes : Nat) : Prop where
  fetches : ∀ hash, ∃ state, FetchBlocks.Reached config maxBytes state ∧
    ∃ call ∈ state.calls, call.hash = hash ∧ call.outcome = some (upstream.fetchBlockRaw hash).value
  headers : ∀ call, ∃ result, (upstream.header call).value = some result
  decodes : ∀ call, ∃ result, (upstream.decoded call).value = some result

section

variable {user : User} {upstream : Upstream} {request : RpcRequest} {config : FetchBlocks.Config}
  {maxBytes : Nat}

theorem Upstream.Awaited.ends (awaited : upstream.Awaited config maxBytes) : upstream.Ends := by
  refine ⟨?_, awaited.headers, awaited.decodes⟩
  intro hash
  obtain ⟨state, reached, call, member, _, ended⟩ := awaited.fetches hash
  refine Option.ne_none_iff_exists'.mp ?_
  intro panics
  rw [panics] at ended
  exact FetchBlocks.outcome_noPanic reached member ended

theorem verbosityServed_nil : verbosityServed [] = true := by decide

theorem crashes_iff : user.crashes request = true ↔ user.allows request.method = true ∧
    user.fetchBlocks = true ∧ request.method = getBlock ∧ request.params = .array [] := by
  unfold User.crashes User.servesBlock RpcRequest.hasParams
  cases request.params with
  | object members => simp
  | array params =>
      cases params with
      | nil => simp [verbosityServed_nil]
      | cons first rest => simp

/-- An intercept comes to an outcome but for one kind of request. -/
theorem intercept_completes_iff (awaited : upstream.Awaited config maxBytes) :
    (∃ outcome, (user.intercept upstream request).value = some outcome) ↔
      ¬(user.allows request.method = true ∧ user.fetchBlocks = true ∧ request.method = getBlock ∧
        request.params = .array []) := by
  rw [← crashes_iff, ← intercept_panics_iff awaited.ends, ← Option.ne_none_iff_exists']

end

/-! A bitcoind that has pruned every block and knows no peer. -/

def prunedRun (hash : Blocks.Digest) :
    List (Interleaved.Action Blocks.Digest FetchBlocks.Event (List PeerInfo)) :=
  let pruned : RpcError := { code := miscErrorCode, message := pruneErrorMessage, status := none }
  [.begin hash, .advance 0 .proceed,
    .advance 0 (.selfReplied (.ok { id := none, error := some pruned, result := none })),
    .advance 0 (.peersRead false), .advance 0 (.peersUpdated (.ok [])), .advance 0 .proceed,
    .advance 0 .runnerEnded]

theorem noUpstream_awaited : noUpstream.Awaited FetchBlocks.sampleConfig 0 := by
  refine ⟨?_, fun _ => ⟨_, rfl⟩, fun _ => ⟨_, rfl⟩⟩
  intro hash
  exact ⟨_, Runs.reachable_of_run _ (prunedRun hash) rfl, { hash, progress := .returned (.ok none) },
    List.mem_singleton.mpr rfl, rfl, rfl⟩

def blockWithoutParams : RpcRequest :=
  { jsonrpc := none, id := none, method := "getblock", params := .array [] }

def blockText : JsonText :=
  let plain (text : String) : Literal := text.toList.map fun char => ⟨false, some char⟩
  .object [(plain "method", .string (plain "getblock")), (plain "params", .array [])]

theorem intercept_completes_iff_count :
    (∃ outcome, (explorer.intercept noUpstream blockCount).value = some outcome) ↔
      ¬(explorer.allows blockCount.method = true ∧ explorer.fetchBlocks = true ∧
        blockCount.method = getBlock ∧ blockCount.params = .array []) :=
  intercept_completes_iff noUpstream_awaited

/-- A request for a block without any parameter is accepted, and panics. -/
theorem block_without_params_panics :
    SingleOrBatchRpcRequest.decode blockText = some (.single blockWithoutParams) ∧
      noUpstream.Awaited FetchBlocks.sampleConfig 0 ∧
      (explorer.intercept noUpstream blockWithoutParams).value = none :=
  ⟨by decide, noUpstream_awaited, by decide⟩

end BtcRpcProxy
