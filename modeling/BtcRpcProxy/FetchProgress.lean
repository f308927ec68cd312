import BtcRpcProxy.FetchProvenance
import BtcRpcProxy.PeerRace

/-!
That a fetch comes to its end. Each step of a call is paid for: there are six for each peer it may ask and
seven more, and two for each message a peer sends, the second one for the pong. As long as a call has not
ended there is a step it can make.
-/

namespace BtcRpcProxy.FetchBlocks

open Blocks Interleaved Interleaved.System

/-! What is left to be done. -/

def PeerFetch.worth : PeerFetch → Nat
  | .connecting _ _ => 5
  | .connected _ => 4
  | .answering _ _ => 4
  | .reading _ => 3
  | .ended _ => 2
  | .panicked => 2

def Runner.worth (runner : Runner) : Nat :=
  6 * runner.waiting.length + (runner.active.map PeerFetch.worth).getD 0 + runner.handling

/-- `peers` bounds the lists of peers that may come. -/
def Progress.worth (peers : Nat) : Progress → Nat
  | .started => 7 + 6 * peers
  | .missed => 6 + 6 * peers
  | .pruned => 5 + 6 * peers
  | .updating => 4 + 6 * peers
  | .listed list => 3 + 6 * list.peers.length
  | .fetching runner => 2 + runner.worth
  | .fetched _ => 1
  | .returned _ => 0
  | .panicked => 0
  | .dropped => 0

def PeerEvent.isRead : PeerEvent → Bool
  | .read _ => true
  | _ => false

def Event.isRead : Event → Bool
  | .runner (.peer event) => event.isRead
  | _ => false

def Event.isDrop : Event → Bool
  | .dropped => true
  | _ => false

def readIncome (isRead : Bool) : Nat := if isRead then 2 else 0

def Event.income (event : Event) : Nat := if event.isDrop then 1 else readIncome event.isRead

theorem worth_ge_two (fetch : PeerFetch) : 2 ≤ fetch.worth := by
  cases fetch <;> simp [PeerFetch.worth]

theorem connect_worth (handle : PeerHandle) : handle.connect.worth ≤ 5 := by
  unfold PeerHandle.connect
  split <;> simp [PeerFetch.worth]

section

variable {sha256d : List UInt8 → Digest} {hash : Digest}

theorem handleMessage_worth (sha256d : List UInt8 → Digest) (hash : Digest) (conn : RecyclableConnection)
    (message : NetworkMessage) :
    (handleMessage sha256d hash conn message).worth ≤ 4 := by
  cases message with
  | block block => simp [handleMessage_block, PeerFetch.worth]
  | _ => simp [handleMessage, PeerFetch.worth]

theorem fetchBlockFromPeer_worth {fetch next : PeerFetch} {event : PeerEvent}
    (step : fetchBlockFromPeer sha256d hash fetch event = some next) (notEnded : ∀ result, next ≠ .ended result) :
    next.worth + 1 ≤ fetch.worth + readIncome event.isRead := by
  rcases fetchBlockFromPeer_cases step with ⟨first, second, _, _, rfl, rfl, rfl⟩ | ⟨conn, rfl, rfl, rfl⟩ |
    ⟨nonce, conn, rfl, rfl, rfl⟩ | ⟨message, conn, rfl, rfl, rfl⟩ | ⟨_, rfl⟩
  · simp [PeerFetch.worth]
  · simp [PeerFetch.worth]
  · simp [PeerFetch.worth]
  · have atMost := handleMessage_worth sha256d hash (conn.read message) message
    have reading : (PeerFetch.reading conn).worth = 3 := rfl
    simp only [reading, PeerEvent.isRead, readIncome, if_true]
    omega
  · exact absurd rfl (notEnded none)

theorem handle_worth (runner : Runner) (pools : Pools) (result : Option (Block × RecyclableConnection)) :
    (runner.handle pools result).1.worth = 6 * runner.waiting.length + (runner.handling + 1) := by
  cases result <;> simp [Runner.handle, Runner.worth]

theorem poll_worth {limit : Option Nat} {runner : Runner} {pools : Pools} {event : RunnerEvent}
    {polled : Runner × Pools} (step : runner.poll sha256d limit hash pools event = some polled) :
    polled.1.worth + 1 ≤ runner.worth + readIncome (Event.runner event).isRead := by
  rcases poll_cases step with ⟨position, handle, rfl, isIdle, found, rfl⟩ |
    ⟨peerEvent, fetch, result, rfl, isActive, _, rfl⟩ |
    ⟨peerEvent, fetch, next, rfl, isActive, fetched, notEnded, rfl⟩ | ⟨rfl, positive, rfl⟩
  · obtain ⟨bound, _⟩ := List.getElem?_eq_some_iff.mp found
    have atMost := connect_worth handle
    simp only [Runner.worth, isIdle, List.length_eraseIdx_of_lt bound, Option.map_some, Option.map_none,
      Option.getD_some, Option.getD_none]
    omega
  · have atLeast := worth_ge_two fetch
    rw [handle_worth]
    simp only [Runner.worth, isActive, Option.map_some, Option.getD_some]
    omega
  · have paid := fetchBlockFromPeer_worth fetched notEnded
    simp only [Runner.worth, isActive, Option.map_some, Option.getD_some, Event.isRead]
    omega
  · simp only [Runner.worth]
    omega

end

theorem handles_length (pools : Pools) (peers : List Peer) : (handles pools peers).1.length = peers.length := by
  induction peers generalizing pools with
  | nil => rfl
  | cons peer rest ih => simp [handles, ih]

theorem update_length (shared : Shared) (infos : List PeerInfo) :
    (shared.update infos).peers.peers.length ≤ infos.length := by
  simpa [Shared.update, Peers.updated] using List.length_filter_le _ infos

section

variable {config : Config} {shared : Shared} {hash : Digest} {progress : Progress} {event : Event}
  {moved : Shared × Progress} {peers : Nat}

theorem moves_worth (few : shared.peers.peers.length ≤ peers) (fewListed : event.infos.length ≤ peers)
    (moves : Moves config shared hash progress event moved) :
    moved.2.worth peers + 1 ≤ progress.worth peers + event.income := by
  cases moves with
  | lookUp =>
      unfold lookUp
      split <;> simp only [Progress.worth] <;> omega
  | askSelf called =>
      unfold askSelf
      split <;> simp only [Progress.worth] <;> omega
  | getPeers aged =>
      unfold getPeers
      split <;> simp only [Progress.worth] <;> omega
  | updatePeers infos =>
      cases infos with
      | error error =>
          simp only [updatePeers, Progress.worth]
          omega
      | ok infos =>
          have short := update_length shared infos
          simp only [Event.infos] at fewListed
          simp only [updatePeers, Progress.worth]
          omega
  | takeHandles listed =>
      simp only [takeHandles, Progress.worth, Runner.worth, Runner.new, handles_length, Option.map_none,
        Option.getD_none]
      omega
  | poll polled =>
      obtain ⟨next, progress, isPolled, rfl, outcome⟩ := pollRunner_cases polled
      have paid := poll_worth isPolled
      simp only [Event.income, Event.isDrop, Bool.false_eq_true, if_false]
      rcases outcome with ⟨_, rfl⟩ | rfl
      · simp only [Progress.worth]
        omega
      · simp only [Progress.worth]
        omega
  | receive received =>
      obtain ⟨block, _, rfl⟩ := receiveBlock_cases received
      simp only [Progress.worth]
      omega
  | finish finished =>
      obtain ⟨_, ⟨block, _, rfl⟩ | ⟨_, rfl⟩⟩ := endRunner_cases finished <;> simp only [Progress.worth] <;> omega
  | cacheBlock block =>
      unfold cacheBlock
      split <;> simp only [Progress.worth] <;> omega
  | drop => exact Nat.le_add_left 1 _

theorem system_pays (config : Config) (peers : Nat) :
    (system config).Pays (fun shared => shared.peers.peers.length ≤ peers)
      (fun event => event.infos.length ≤ peers) (fun call => call.progress.worth peers)
      Event.income := by
  constructor
  intro shared call event after next few fewListed step
  obtain ⟨progress, rfl, moves⟩ := system_moves step
  exact moves_worth few fewListed moves

/-! A step that can be made. -/

theorem poll_enabled (config : Config) (hash : Digest) (runner : Runner) (pools : Pools)
    (unended : runner.isDone = false) :
    ∃ event polled, runner.poll config.sha256d config.maxPeerConcurrency hash pools event = some polled := by
  by_cases idle : runner.handling = 0
  · have room : runner.room config.maxPeerConcurrency = true := Race.room_of_idle idle
    cases isActive : runner.active with
    | some fetch => exact ⟨.peer .failed, _, by simp [Runner.poll, isActive, room, fetchBlockFromPeer]; rfl⟩
    | none =>
        cases waiting : runner.waiting with
        | nil => simp [Runner.isDone, idle, isActive, waiting] at unended
        | cons handle rest => exact ⟨.start 0, _, by simp [Runner.poll, isActive, waiting, room]; rfl⟩
  · exact ⟨.handled, _, by simp [Runner.poll, Nat.pos_of_ne_zero idle]; rfl⟩

def Call.finished (call : Call) : Bool :=
  match call.progress with
  | .returned _ => true
  | .panicked => true
  | .dropped => true
  | _ => false

theorem advance_enabled (config : Config) (shared : Shared) {call : Call} (unfinished : call.finished = false) :
    ∃ event moved, event.isDrop = false ∧ (system config).advance shared call event = some moved := by
  have enabled : ∃ event moved, event.isDrop = false ∧
      fetchBlockRaw config shared call.hash call.progress event = some moved := by
    cases isProgress : call.progress with
    | started => exact ⟨.proceed, _, rfl, rfl⟩
    | missed => exact ⟨.selfReplied (.error (.hyper "")), _, rfl, rfl⟩
    | pruned => exact ⟨.peersRead false, _, rfl, rfl⟩
    | updating => exact ⟨.peersUpdated (.ok []), _, rfl, rfl⟩
    | listed list => exact ⟨.proceed, _, rfl, rfl⟩
    | fetched block => exact ⟨.proceed, _, rfl, rfl⟩
    | fetching runner =>
        by_cases isDone : runner.isDone = true
        · exact ⟨.runnerEnded, _, rfl, by simp [fetchBlockRaw, endRunner, isDone]; rfl⟩
        · obtain ⟨event, polled, isPolled⟩ :=
            poll_enabled config call.hash runner shared.pools (by simpa using isDone)
          exact ⟨.runner event, _, rfl, by simp [fetchBlockRaw, pollRunner, isPolled]; rfl⟩
    | returned result => simp [Call.finished, isProgress] at unfinished
    | panicked => simp [Call.finished, isProgress] at unfinished
    | dropped => simp [Call.finished, isProgress] at unfinished
  obtain ⟨event, moved, notDrop, step⟩ := enabled
  refine ⟨event, (moved.1, { call with progress := moved.2 }), notDrop, ?_⟩
  simp only [system, step, Option.map_some]

/-! Any number of calls. -/

theorem moves_peers (moves : Moves config shared hash progress event moved) :
    moved.1.peers = shared.peers ∨ moved.1.peers.peers.length ≤ event.infos.length := by
  cases moves with
  | updatePeers infos =>
      cases infos with
      | error error => exact Or.inl rfl
      | ok infos => exact Or.inr (update_length shared infos)
  | lookUp =>
      unfold lookUp
      split <;> exact Or.inl rfl
  | poll polled =>
      obtain ⟨_, _, _, rfl, _⟩ := pollRunner_cases polled
      exact Or.inl rfl
  | cacheBlock block =>
      unfold cacheBlock
      split <;> exact Or.inl rfl
  | _ => exact Or.inl rfl

theorem peers_step {config : Config} {state after : Interleaved.State Shared Call} {peers : Nat}
    {action : Action Digest Event (List PeerInfo)} (few : state.shared.peers.peers.length ≤ peers)
    (fewListed : (listedBy action).length ≤ peers) (taken : (system config).step state action = some after) :
    after.shared.peers.peers.length ≤ peers := by
  rcases step_cases taken with ⟨_, _, rfl⟩ | ⟨index, event, call, shared, next, rfl, _, moved, rfl⟩ |
    ⟨infos, shared, rfl, changed, rfl⟩
  · exact few
  · obtain ⟨progress, _, moves⟩ := system_moves moved
    rcases moves_peers moves with same | short
    · rw [same]
      exact few
    · exact short.trans fewListed
  · rw [← Option.some.inj changed]
    exact (update_length _ _).trans fewListed

end

/-- The steps of a call that is not dropped, and the messages it reads. -/
def ownSteps (events : List Event) : Nat := (events.filter fun event => !event.isDrop).length

def readSteps (events : List Event) : Nat := (events.filter Event.isRead).length

theorem ownSteps_le_of_paid {events : List Event} {budget : Nat}
    (paid : events.length ≤ budget + (events.map Event.income).sum) :
    ownSteps events ≤ budget + 2 * readSteps events := by
  have counted : ownSteps events + (events.map Event.income).sum = events.length + 2 * readSteps events := by
    clear paid
    induction events with
    | nil => rfl
    | cons event rest ih =>
        simp only [ownSteps, readSteps] at ih ⊢
        by_cases drop : event.isDrop = true
        · have noRead : event.isRead = false := by cases event <;> simp_all [Event.isDrop, Event.isRead]
          simp only [List.filter_cons, drop, noRead, Event.income, Bool.not_true, Bool.false_eq_true, if_true,
            if_false, List.map_cons, List.sum_cons, List.length_cons]
          omega
        · by_cases read : event.isRead = true <;>
            simp [drop, read, Event.income, readIncome] <;> omega
  omega

def Bounded (peers : Nat) (past : List (Action Digest Event (List PeerInfo)))
    (state : Interleaved.State Shared Call) : Prop :=
  state.shared.peers.peers.length ≤ peers ∧
    Affords (fun call => call.progress.worth peers) Event.income (7 + 6 * peers) past state

theorem bounded_step {config : Config} {peers : Nat} {past : List (Action Digest Event (List PeerInfo))}
    {state after : Interleaved.State Shared Call} {action : Action Digest Event (List PeerInfo)}
    (fewListed : (listedBy action).length ≤ peers) (bounded : Bounded peers past state)
    (taken : (system config).step state action = some after) : Bounded peers (past ++ [action]) after := by
  obtain ⟨few, affords⟩ := bounded
  refine ⟨peers_step few fewListed taken, (system_pays config peers).step ?_ few ?_ affords taken⟩
  · exact fun hash => Nat.le_refl _
  · rintro moving event rfl
    exact fewListed

/-- In any run in which bitcoind lists at most so many peers at a time, a call makes at most six steps for
each of these, two for each message it reads and seven more before it is dropped. As long as it has not
ended it can make one. -/
theorem fetchBlockRaw_terminates (config : Config) (maxBytes peers : Nat) (state : Interleaved.State Shared Call)
    (actions : List (Action Digest Event (List PeerInfo)))
    (run : Runs.runFrom (system config).step { shared := Shared.new maxBytes, calls := [] } actions =
      some state)
    (few : ∀ action ∈ actions, (listedBy action).length ≤ peers) (index : Nat) (call : Call)
    (found : state.calls[index]? = some call) :
    ownSteps (eventsOf index actions) ≤ 7 + 6 * peers + 2 * readSteps (eventsOf index actions) ∧
      (call.finished = false → ∃ event moved, event.isDrop = false ∧
        (system config).advance state.shared call event = some moved) := by
  have bounded : Bounded peers ([] ++ actions) state := by
    refine Runs.runFrom_past ?_ ?_ run
    · refine ⟨Nat.zero_le _, ?_, ?_⟩
      · intro index call isCall
        simp at isCall
      · exact fun index _ => rfl
    · exact fun past before action after member bounded taken => bounded_step (few action member) bounded taken
  have paid := bounded.2.1 index call found
  refine ⟨ownSteps_le_of_paid ?_, advance_enabled config state.shared⟩
  rw [List.nil_append] at paid
  omega

theorem fetchBlockRaw_terminates_sample :
    ∃ state : Interleaved.State Shared Call, ∃ call, state.calls[0]? = some call ∧ call.finished = true ∧
      ownSteps (eventsOf 0 sampleRun) ≤ 7 + 6 * 2 + 2 * readSteps (eventsOf 0 sampleRun) := by
  have finished : (Runs.runFrom (system sampleConfig).step { shared := Shared.new 1000, calls := [] }
      sampleRun).map (fun state => state.calls[0]?.map Call.finished) = some (some true) := by
    decide +kernel
  obtain ⟨state, run, isFinished⟩ := Option.map_eq_some_iff.mp finished
  obtain ⟨call, found, isFinished⟩ := Option.map_eq_some_iff.mp isFinished
  have few : ∀ action ∈ sampleRun, (listedBy action).length ≤ 2 := by decide
  exact ⟨state, call, found, isFinished,
    (fetchBlockRaw_terminates sampleConfig 1000 2 state sampleRun run few 0 call found).1⟩

end BtcRpcProxy.FetchBlocks
