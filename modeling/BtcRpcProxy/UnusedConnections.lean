import BtcRpcProxy.PeerRace

/-!
What becomes of the pooled connections of peers that a fetch does not get to. `Peers::handles` takes
every connection out of its pool, and only the connection of a peer that was asked goes back.
-/

namespace BtcRpcProxy.FetchBlocks

open Blocks Interleaved Runs

/-- A fetch from the list of peers on, with no other fetch beside it. `connected` are the handles whose
`connect` it has called. -/
structure Solo where
  shared : Shared
  progress : Progress
  connected : List PeerHandle

namespace Solo

def begin (shared : Shared) (peers : Peers) : Solo := { shared, progress := .listed peers, connected := [] }

def starts : Progress → Event → List PeerHandle
  | .fetching runner, .runner (.start position) => (runner.waiting[position]?).toList
  | _, _ => []

def step (config : Config) (hash : Digest) (solo : Solo) (event : Event) : Option Solo :=
  (fetchBlockRaw config solo.shared hash solo.progress event).map fun moved =>
    { shared := moved.1, progress := moved.2, connected := solo.connected ++ starts solo.progress event }

def Reached (config : Config) (hash : Digest) (shared : Shared) (peers : Peers) : Solo → Prop :=
  Reachable (· = begin shared peers) (ofStep (step config hash))

end Solo

def pooled (pools : Pools) (pool : Nat) : Option Connection := (pools[pool]?).join

def PeerFetch.send : PeerFetch → Option Nat
  | .connecting _ send => some send
  | .connected conn => some conn.send
  | .reading conn => some conn.send
  | .answering _ conn => some conn.send
  | .ended (some (_, conn)) => some conn.send
  | .ended none => none
  | .panicked => none

section

variable {pools : Pools} {pool : Nat}

theorem pooled_set_none (pools : Pools) (pool place : Nat) :
    pooled (pools.set place none) pool = if place = pool then none else pooled pools pool := by
  by_cases same : place = pool
  · subst same
    by_cases inRange : place < pools.length <;> simp [pooled, inRange]
  · simp [pooled, same]

theorem handles_keeps_empty (peers : List Peer) (empty : pooled pools pool = none) :
    pooled (handles pools peers).2 pool = none := by
  induction peers generalizing pools with
  | nil => exact empty
  | cons peer rest ih =>
      refine ih ?_
      rw [pooled_set_none]
      split
      · rfl
      · exact empty

theorem handles_empties {peers : List Peer} {peer : Peer} (member : peer ∈ peers) (pools : Pools) :
    pooled (handles pools peers).2 peer.pool = none := by
  induction peers generalizing pools with
  | nil => simp at member
  | cons first rest ih =>
      rcases List.mem_cons.mp member with rfl | later
      · exact handles_keeps_empty rest (by simp [pooled_set_none])
      · exact ih later _

theorem recycle_keeps_empty {recyclable : RecyclableConnection} (other : recyclable.send ≠ pool)
    (empty : pooled pools pool = none) : pooled (recyclable.recycle pools) pool = none := by
  unfold RecyclableConnection.recycle
  split
  · simpa [pooled, List.getElem?_set, other] using empty
  · exact empty

theorem connect_send (handle : PeerHandle) : handle.connect.send = some handle.send := by
  unfold PeerHandle.connect
  split <;> rfl

theorem handleMessage_send {sha256d : List UInt8 → Digest} {hash : Digest} {conn : RecyclableConnection}
    {message : NetworkMessage} {send : Nat}
    (sends : (handleMessage sha256d hash conn message).send = some send) : conn.send = send := by
  cases message with
  | block block =>
      rw [handleMessage_block] at sends
      split at sends
      · exact Option.some.inj sends
      · simp [PeerFetch.send] at sends
  | _ => exact Option.some.inj sends

theorem fetchBlockFromPeer_send {sha256d : List UInt8 → Digest} {hash : Digest} {fetch next : PeerFetch}
    {event : PeerEvent} (step : fetchBlockFromPeer sha256d hash fetch event = some next) {send : Nat}
    (sends : next.send = some send) : fetch.send = some send := by
  rcases fetchBlockFromPeer_cases step with ⟨_, _, _, _, _, rfl, rfl⟩ | ⟨_, _, rfl, rfl⟩ |
    ⟨_, _, _, rfl, rfl⟩ | ⟨_, _, _, rfl, rfl⟩ | ⟨_, rfl⟩
  · exact sends
  · exact sends
  · exact sends
  · have same := handleMessage_send sends
    exact congrArg some same
  · simp [PeerFetch.send] at sends

end

def Runner.Avoids (runner : Runner) (pool : Nat) : Prop :=
  ∀ fetch, runner.active = some fetch → fetch.send ≠ some pool

namespace Solo

def Unconnected (solo : Solo) (pool : Nat) : Prop := ∀ handle ∈ solo.connected, handle.send ≠ pool

def Sound (peers : Peers) (pool : Nat) (solo : Solo) : Prop :=
  match solo.progress with
  | .listed listed => listed = peers
  | .fetching runner => solo.Unconnected pool → pooled solo.shared.pools pool = none ∧ runner.Avoids pool
  | .fetched _ => solo.Unconnected pool → pooled solo.shared.pools pool = none
  | .returned _ => solo.Unconnected pool → pooled solo.shared.pools pool = none
  | .panicked => True
  | .dropped => True
  | _ => False

theorem unconnected_before {solo : Solo} {event : Event} {shared : Shared} {progress : Progress} {pool : Nat}
    (unconnected : Unconnected { shared, progress, connected := solo.connected ++ starts solo.progress event }
      pool) : solo.Unconnected pool :=
  fun handle member => unconnected handle (List.mem_append_left _ member)

theorem poll_sound {sha256d : List UInt8 → Digest} {limit : Option Nat} {hash : Digest} {runner : Runner}
    {pools : Pools} {event : RunnerEvent} {polled : Runner × Pools} {pool : Nat}
    (step : runner.poll sha256d limit hash pools event = some polled) (empty : pooled pools pool = none)
    (avoids : runner.Avoids pool)
    (unconnected : ∀ handle ∈ starts (.fetching runner) (.runner event), handle.send ≠ pool) :
    pooled polled.2 pool = none ∧ polled.1.Avoids pool := by
  rcases poll_cases step with ⟨position, handle, rfl, _, found, rfl⟩ |
    ⟨_, fetch, result, _, isActive, fetched, rfl⟩ | ⟨_, fetch, next, _, isActive, fetched, _, rfl⟩ |
    ⟨_, _, rfl⟩
  · refine ⟨empty, ?_⟩
    intro fetch isFetch
    rw [← Option.some.inj isFetch, connect_send]
    exact fun same => unconnected handle (by simp [starts, found]) (Option.some.inj same)
  · cases result with
    | none => exact ⟨empty, by simp [Runner.Avoids, Runner.handle]⟩
    | some result =>
        obtain ⟨block, conn⟩ := result
        have other : conn.send ≠ pool := by
          rintro rfl
          exact avoids fetch isActive (fetchBlockFromPeer_send fetched rfl)
        exact ⟨recycle_keeps_empty other empty, by simp [Runner.Avoids, Runner.handle]⟩
  · refine ⟨empty, ?_⟩
    intro later isLater same
    rw [← Option.some.inj isLater] at same
    exact avoids fetch isActive (fetchBlockFromPeer_send fetched same)
  · exact ⟨empty, avoids⟩

theorem sound_step {config : Config} {hash : Digest} {peers : Peers} {peer : Peer} (member : peer ∈ peers.peers)
    {solo after : Solo} {event : Event} (sound : solo.Sound peers peer.pool)
    (step : solo.step config hash event = some after) : after.Sound peers peer.pool := by
  obtain ⟨shared, progress, connected⟩ := solo
  obtain ⟨moved, isMoved, rfl⟩ := Option.map_eq_some_iff.mp step
  cases fetchBlockRaw_moves isMoved with
  | lookUp => exact False.elim sound
  | askSelf called => exact False.elim sound
  | getPeers aged => exact False.elim sound
  | updatePeers infos => exact False.elim sound
  | takeHandles listed =>
      obtain rfl : listed = peers := sound
      intro unconnected
      exact ⟨handles_empties member shared.pools, by simp [Runner.Avoids, Runner.new]⟩
  | poll polled =>
      obtain ⟨next, progress, isNext, rfl, ⟨_, rfl⟩ | rfl⟩ := pollRunner_cases polled
      · trivial
      · intro unconnected
        obtain ⟨empty, avoids⟩ := sound (unconnected_before unconnected)
        exact poll_sound isNext empty avoids
          fun handle member => unconnected handle (List.mem_append_right _ member)
  | receive received =>
      obtain ⟨block, _, rfl⟩ := receiveBlock_cases received
      exact fun unconnected => (sound (unconnected_before unconnected)).1
  | finish finished =>
      obtain ⟨_, ⟨block, _, rfl⟩ | ⟨_, rfl⟩⟩ := endRunner_cases finished
      · exact fun unconnected => (sound (unconnected_before unconnected)).1
      · exact fun unconnected => (sound (unconnected_before unconnected)).1
  | cacheBlock block =>
      simp only [cacheBlock]
      split
      · exact fun unconnected => sound (unconnected_before unconnected)
      · trivial
  | drop => trivial

/-- The peer had a connection in its pool, and the fetch has not connected to it. -/
structure Unused (shared : Shared) (solo : Solo) (peer : Peer) : Prop where
  pooled : (pooled shared.pools peer.pool).isSome = true
  unconnected : solo.Unconnected peer.pool

/-- When a fetch returns, no peer it left unused has a connection in its pool any more. -/
theorem unused_connections_lost {config : Config} {hash : Digest} {shared : Shared} {peers : Peers} {solo : Solo}
    (reached : Reached config hash shared peers solo) {result : Except RpcError (Option (List UInt8))}
    (returned : solo.progress = .returned result) :
    ∀ peer ∈ peers.peers, Unused shared solo peer → pooled solo.shared.pools peer.pool = none := by
  intro peer member unused
  have sound : solo.Sound peers peer.pool := by
    apply Reachable.invariant reached
    · rintro start rfl
      rfl
    · intro before event after sound step
      exact sound_step member sound step
  simp only [Sound, returned] at sound
  exact sound unused.unconnected

/-- As long as nothing else moves, a call that has its list of peers is such a fetch. -/
theorem solo_of_advances {config : Config} {hash : Digest} {shared : Shared} {peers : Peers} {solo : Solo}
    (reached : Reached config hash shared peers solo) {state final : Interleaved.State Shared Call} {index : Nat}
    (same : state.shared = solo.shared)
    (isCall : state.calls[index]? = some { hash, progress := solo.progress }) {events : List Event}
    (run : runFrom (system config).step state (events.map (.advance index)) = some final) :
    ∃ last, Reached config hash shared peers last ∧ final.shared = last.shared ∧
      final.calls[index]? = some { hash, progress := last.progress } := by
  induction events generalizing state solo with
  | nil =>
      obtain rfl := Option.some.inj run
      exact ⟨solo, reached, same, isCall⟩
  | cons event rest ih =>
      simp only [List.map_cons, runFrom] at run
      split at run
      · rename_i after taken
        rcases System.step_cases taken with ⟨_, isBegin, _⟩ | ⟨_, _, _, _, _, isAdvance, found, advanced, rfl⟩ |
          ⟨_, _, isOutside, _⟩
        · simp at isBegin
        · simp only [Action.advance.injEq] at isAdvance
          obtain ⟨rfl, rfl⟩ := isAdvance
          obtain rfl := Option.some.inj (isCall.symm.trans found)
          obtain ⟨moved, isMoved, isNext⟩ := Option.map_eq_some_iff.mp advanced
          obtain ⟨rfl, rfl⟩ := Prod.mk.inj isNext
          have stepped : solo.step config hash event =
              some { shared := moved.1, progress := moved.2,
                     connected := solo.connected ++ starts solo.progress event } := by
            rw [step, ← same, isMoved]
            rfl
          exact ih (reached.next stepped) rfl
            (List.getElem?_set_self (List.getElem?_eq_some_iff.mp found).1) run
        · simp at isOutside
      · simp at run

/-! The last of three peers has a connection in its pool, and the first one has the block. -/

def pooledThird : Shared :=
  { Shared.new 1000 with pools := [none, none, some (Connection.connect .version .verack)] }

def thirdPeer : Peer := { addr := "third", pool := 2 }

def threePeers : Peers :=
  { fetched := true, peers := [{ addr := "first", pool := 0 }, { addr := "second", pool := 1 }, thirdPeer] }

def firstAnswers : List Event :=
  [.proceed, .runner (.start 0), .runner (.peer (.handshake .version .verack)), .runner (.peer .written),
    .runner (.peer (.read (.block honestBlock))), .runner .handled, .runner (.start 0)]

def SampleReached : Solo → Prop :=
  Reached sampleConfig (honestBlock.blockHash sampleHash) pooledThird threePeers

def runSample : Solo → List Event → Option Solo :=
  runFrom (step sampleConfig (honestBlock.blockHash sampleHash))

def polledOut (solo : Solo) : Bool :=
  match solo.progress with
  | .fetching runner => runner.active.isSome && runner.handling == 0
  | _ => false

def served (solo : Solo) : Bool :=
  match solo.progress with
  | .returned (.ok (some _)) => true
  | _ => false

theorem waiting_of_polledOut {solo : Solo} (isPolled : solo.polledOut = true) (config : Config) (hash : Digest) :
    ∃ runner, solo.progress = .fetching runner ∧ runner.Waiting config hash := by
  unfold polledOut at isPolled
  split at isPolled
  · rename_i runner isFetching
    simp only [Bool.and_eq_true, beq_iff_eq] at isPolled
    exact ⟨runner, isFetching, Runner.waiting_of_active isPolled.1 isPolled.2⟩
  · simp at isPolled

theorem returned_of_served {solo : Solo} (isServed : solo.served = true) :
    ∃ bytes, solo.progress = .returned (.ok (some bytes)) := by
  unfold served at isServed
  split at isServed
  · rename_i bytes isReturned
    exact ⟨bytes, isReturned⟩
  · simp at isServed

theorem firstAnswers_polled :
    ∃ polled, SampleReached polled ∧ polled.polledOut = true ∧
      ∃ solo, runSample polled [.received, .proceed] = some solo ∧ solo.served = true ∧
        solo.connected.map PeerHandle.send = [0, 1] ∧ (pooled solo.shared.pools 2).isNone = true := by
  have ran : (runSample (begin pooledThird threePeers) firstAnswers).any (fun polled => polled.polledOut &&
      (runSample polled [.received, .proceed]).any fun solo => solo.served &&
        (solo.connected.map PeerHandle.send == [0, 1] && (pooled solo.shared.pools 2).isNone)) = true := by
    decide +kernel
  obtain ⟨polled, run, facts⟩ := (Option.any_eq_true ..).mp ran
  obtain ⟨isPolled, ended⟩ := Bool.and_eq_true_iff.mp facts
  obtain ⟨solo, isEnd, facts⟩ := (Option.any_eq_true ..).mp ended
  simp only [Bool.and_eq_true, beq_iff_eq] at facts
  exact ⟨polled, reachable_of_run _ firstAnswers run, isPolled, solo, isEnd, facts⟩

theorem unused_of_connected {solo : Solo} (connected : solo.connected.map PeerHandle.send = [0, 1]) :
    Unused pooledThird solo thirdPeer := by
  refine ⟨rfl, ?_⟩
  rintro handle member isThird
  have isAsked : handle.send ∈ [0, 1] := connected ▸ List.mem_map_of_mem member
  simp [isThird, thirdPeer] at isAsked

theorem unused_connections_lost_third :
    ∃ solo bytes, solo.progress = .returned (.ok (some bytes)) ∧ Unused pooledThird solo thirdPeer ∧
      pooled solo.shared.pools thirdPeer.pool = none := by
  obtain ⟨polled, reached, _, solo, run, isServed, connected, _⟩ := firstAnswers_polled
  obtain ⟨bytes, returned⟩ := returned_of_served isServed
  have unused := unused_of_connected connected
  exact ⟨solo, bytes, returned, unused, unused_connections_lost (reached.runFrom run) returned thirdPeer
    (by simp [threePeers]) unused⟩

/-- The runner is at the end of its poll when the fetch takes the block. -/
theorem third_connection_gone :
    ∃ polled runner solo, SampleReached polled ∧ polled.progress = .fetching runner ∧
      runner.Waiting sampleConfig (honestBlock.blockHash sampleHash) ∧
      runSample polled [.received, .proceed] = some solo ∧
      (∃ bytes, solo.progress = .returned (.ok (some bytes))) ∧
      ∃ peer ∈ threePeers.peers, Unused pooledThird solo peer ∧
        ¬(pooled solo.shared.pools peer.pool).isSome = true := by
  obtain ⟨polled, reached, isPolled, solo, run, isServed, connected, gone⟩ := firstAnswers_polled
  obtain ⟨runner, isFetching, waits⟩ := waiting_of_polledOut isPolled _ _
  refine ⟨polled, runner, solo, reached, isFetching, waits, run, returned_of_served isServed, thirdPeer,
    by simp [threePeers], unused_of_connected connected, ?_⟩
  simp [thirdPeer, Option.isNone_iff_eq_none.mp gone]

end Solo

end BtcRpcProxy.FetchBlocks
