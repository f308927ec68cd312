import BtcRpcProxy.FetchBlocks

/-!
`fetch_block_from_peers` from its list of peers to its result: what it returns, whatever order
the peers end in and `select!` polls in, and how many peers it asks at once. Beside the runner
stands whose fetch is going on and what each fetch that ended gave.
-/

namespace BtcRpcProxy.FetchBlocks

open Blocks Interleaved Runs

structure Race where
  progress : Progress
  asked : Option PeerHandle
  ended : List (PeerHandle × Option Block)

namespace Race

def begin (peers : List PeerHandle) : Race :=
  { progress := .fetching (Runner.new peers), asked := none, ended := [] }

def record (sha256d : List UInt8 → Digest) (hash : Digest) (race : Race) (event : Event)
    (progress : Progress) : Race :=
  match race.progress, event with
  | .fetching runner, .runner (.start position) =>
      { race with progress, asked := runner.waiting[position]? }
  | .fetching runner, .runner (.peer event) =>
      match runner.active.bind fun fetch => fetchBlockFromPeer sha256d hash fetch event with
      | some (.ended result) =>
          { progress,
            asked := none,
            ended := race.ended ++ race.asked.toList.map fun peer => (peer, result.map Prod.fst) }
      | _ => { race with progress }
  | _, _ => { race with progress }

/-- The other calls may have changed the shared state in any way before a step. -/
def step (config : Config) (hash : Digest) (race : Race) (label : Shared × Event) : Option Race :=
  (fetchBlockRaw config label.1 hash race.progress label.2).map fun moved =>
    race.record config.sha256d hash label.2 moved.2

def Reached (config : Config) (hash : Digest) (peers : List PeerHandle) : Race → Prop :=
  Reachable (· = begin peers) (ofStep (step config hash))

/-- Each peer waits, is asked or has ended, and what has ended well is in the channel. -/
structure Accounts (sha256d : List UInt8 → Digest) (hash : Digest) (peers : List PeerHandle) (race : Race)
    (runner : Runner) : Prop where
  peers : (race.ended.map Prod.fst ++ (race.asked.toList ++ runner.waiting)).Perm peers
  asked : race.asked.isSome = runner.active.isSome
  channel : runner.channel = race.ended.filterMap Prod.snd
  valid : ∀ block ∈ runner.channel, accepted sha256d hash block = true

def Sound (sha256d : List UInt8 → Digest) (hash : Digest) (peers : List PeerHandle) (race : Race) : Prop :=
  match race.progress with
  | .fetching runner => race.Accounts sha256d hash peers runner
  | .fetched block => accepted sha256d hash block = true ∧ ∃ peer ∈ peers, (peer, some block) ∈ race.ended
  | .returned (.ok none) => (race.ended.map Prod.fst).Perm peers ∧ ∀ entry ∈ race.ended, entry.2 = none
  | .returned _ => True
  | .panicked => True
  | .dropped => True
  | _ => False

section

variable {sha256d : List UInt8 → Digest} {hash : Digest} {peers : List PeerHandle} {race : Race}
  {runner : Runner} {progress : Progress}

theorem accounts_begin (sha256d : List UInt8 → Digest) (hash : Digest) (peers : List PeerHandle) :
    (begin peers).Accounts sha256d hash peers (Runner.new peers) :=
  ⟨List.Perm.refl _, rfl, rfl, by simp [Runner.new]⟩

theorem accounts_start (isFetching : race.progress = .fetching runner)
    (accounts : race.Accounts sha256d hash peers runner) {position : Nat} {handle : PeerHandle}
    (isIdle : runner.active = none) (found : runner.waiting[position]? = some handle) :
    (race.record sha256d hash (.runner (.start position)) progress).Accounts sha256d hash peers
      { runner with waiting := runner.waiting.eraseIdx position, active := some handle.connect } := by
  have notAsked : race.asked = none := by
    simpa [isIdle] using accounts.asked
  obtain ⟨inRange, isHandle⟩ := List.getElem?_eq_some_iff.mp found
  simp only [record, isFetching]
  refine ⟨?_, by simp [found], accounts.channel, accounts.valid⟩
  have taken : (handle :: runner.waiting.eraseIdx position).Perm runner.waiting :=
    isHandle ▸ List.getElem_cons_eraseIdx_perm inRange
  refine List.Perm.trans ?_ accounts.peers
  simpa [found, notAsked] using taken.append_left (race.ended.map Prod.fst)

theorem accounts_ended (isFetching : race.progress = .fetching runner)
    (accounts : race.Accounts sha256d hash peers runner) {event : PeerEvent} {fetch : PeerFetch}
    {result : Option (Block × RecyclableConnection)} (isActive : runner.active = some fetch)
    (fetched : fetchBlockFromPeer sha256d hash fetch event = some (.ended result)) (pools : Pools) :
    (race.record sha256d hash (.runner (.peer event)) progress).Accounts sha256d hash peers
      (runner.handle pools result).1 := by
  have isAsked : race.asked.isSome = true := by
    simpa [isActive] using accounts.asked
  obtain ⟨peer, isPeer⟩ := Option.isSome_iff_exists.mp isAsked
  have recorded : race.record sha256d hash (.runner (.peer event)) progress =
      { progress, asked := none, ended := race.ended ++ [(peer, result.map Prod.fst)] } := by
    simp [record, isFetching, isActive, fetched, isPeer]
  have unchanged := accounts.peers
  rw [isPeer] at unchanged
  rw [recorded]
  cases result with
  | none =>
      refine ⟨?_, rfl, ?_, accounts.valid⟩
      · simpa [Runner.handle] using unchanged
      · simpa [Runner.handle] using accounts.channel
  | some result =>
      obtain ⟨_, _, _, _, valid⟩ := fetchBlockFromPeer_fetched fetched
      refine ⟨?_, rfl, ?_, ?_⟩
      · simpa [Runner.handle] using unchanged
      · simp [Runner.handle, accounts.channel]
      · intro block member
        rcases List.mem_append.mp member with earlier | isFetched
        · exact accounts.valid block earlier
        · exact List.mem_singleton.mp isFetched ▸ valid

theorem accounts_poll (isFetching : race.progress = .fetching runner)
    (accounts : race.Accounts sha256d hash peers runner) {limit : Option Nat} {pools : Pools}
    {event : RunnerEvent} {polled : Runner × Pools}
    (step : runner.poll sha256d limit hash pools event = some polled) :
    (race.record sha256d hash (.runner event) progress).Accounts sha256d hash peers polled.1 := by
  rcases poll_cases step with ⟨_, _, rfl, isIdle, found, rfl⟩ | ⟨_, _, _, rfl, isActive, fetched, rfl⟩ |
    ⟨peerEvent, fetch, next, rfl, isActive, fetched, notEnded, rfl⟩ | ⟨rfl, _, rfl⟩
  · exact accounts_start isFetching accounts isIdle found
  · exact accounts_ended isFetching accounts isActive fetched pools
  · have recorded : race.record sha256d hash (.runner (.peer peerEvent)) progress = { race with progress } := by
      simp only [record, isFetching, isActive, Option.bind_some, fetched]
      split
      · rename_i result isEnded
        exact absurd (Option.some.inj isEnded) (notEnded result)
      · rfl
    rw [recorded]
    exact ⟨accounts.peers, accounts.asked.trans (by rw [isActive]; rfl), accounts.channel, accounts.valid⟩
  · simp only [record, isFetching]
    exact ⟨accounts.peers, accounts.asked, accounts.channel, accounts.valid⟩

theorem record_other {event : Event} (other : ∀ polled, event ≠ .runner polled) :
    race.record sha256d hash event progress = { race with progress } := by
  unfold record
  split
  · exact absurd rfl (other _)
  · exact absurd rfl (other _)
  · rfl

@[simp] theorem record_progress (event : Event) :
    (race.record sha256d hash event progress).progress = progress := by
  unfold record
  split
  · rfl
  · split <;> rfl
  · rfl

theorem sound_of_channel (accounts : race.Accounts sha256d hash peers runner) {block : Block}
    (member : block ∈ runner.channel) :
    Sound sha256d hash peers { race with progress := .fetched block } := by
  refine ⟨accounts.valid block member, ?_⟩
  rw [accounts.channel] at member
  obtain ⟨⟨peer, given⟩, isEnded, isGiven⟩ := List.mem_filterMap.mp member
  simp only at isGiven
  subst isGiven
  refine ⟨peer, accounts.peers.subset ?_, isEnded⟩
  exact List.mem_append_left _ (List.mem_map_of_mem isEnded)

theorem sound_of_empty (accounts : race.Accounts sha256d hash peers runner) (isDone : runner.isDone = true)
    (isEmpty : runner.channel = []) :
    Sound sha256d hash peers { race with progress := .returned (.ok none) } := by
  simp only [Runner.isDone, Bool.and_eq_true, List.isEmpty_iff, Option.isNone_iff_eq_none] at isDone
  obtain ⟨⟨noneWaiting, noneActive⟩, _⟩ := isDone
  have noneAsked : race.asked = none := by
    simpa [noneActive] using accounts.asked
  constructor
  · simpa [noneWaiting, noneAsked] using accounts.peers
  · intro entry member
    have noneGiven := accounts.channel
    rw [isEmpty] at noneGiven
    exact List.filterMap_eq_nil_iff.mp noneGiven.symm entry member

end

theorem sound_step {config : Config} {hash : Digest} {peers : List PeerHandle} {race after : Race}
    {label : Shared × Event} (sound : race.Sound config.sha256d hash peers)
    (step : race.step config hash label = some after) : after.Sound config.sha256d hash peers := by
  obtain ⟨shared, event⟩ := label
  obtain ⟨progress, asked, ended⟩ := race
  obtain ⟨moved, isMoved, rfl⟩ := Option.map_eq_some_iff.mp step
  cases fetchBlockRaw_moves isMoved with
  | lookUp => exact False.elim sound
  | askSelf called => exact False.elim sound
  | getPeers aged => exact False.elim sound
  | updatePeers infos => exact False.elim sound
  | takeHandles taken => exact False.elim sound
  | poll polled =>
      obtain ⟨next, progress, isNext, rfl, ⟨_, rfl⟩ | rfl⟩ := pollRunner_cases polled
      · simp only [Sound, record_progress]
      · simp only [Sound, record_progress]
        exact accounts_poll rfl sound isNext
  | receive received =>
      obtain ⟨block, isFirst, rfl⟩ := receiveBlock_cases received
      rw [record_other (by simp)]
      exact sound_of_channel sound (List.mem_of_head? isFirst)
  | finish finished =>
      rw [record_other (by simp)]
      obtain ⟨isDone, ⟨block, isFirst, rfl⟩ | ⟨isEmpty, rfl⟩⟩ := endRunner_cases finished
      · exact sound_of_channel sound (List.mem_of_head? isFirst)
      · exact sound_of_empty sound isDone isEmpty
  | cacheBlock block =>
      rw [record_other (by simp)]
      unfold cacheBlock
      split <;> trivial
  | drop =>
      rw [record_other (by simp)]
      trivial

theorem sound_reached {config : Config} {hash : Digest} {peers : List PeerHandle} {race : Race}
    (reached : Reached config hash peers race) : race.Sound config.sha256d hash peers := by
  apply Reachable.invariant reached
  · rintro start rfl
    exact accounts_begin config.sha256d hash peers
  · intro before label after sound step
    exact sound_step sound step

/-- There is no block only where each peer's fetch has ended without one, and a block has passed the
checks. -/
theorem fetchBlockFromPeers_complete {config : Config} {hash : Digest} {peers : List PeerHandle} {race : Race}
    (reached : Reached config hash peers race) :
    (race.progress = .returned (.ok none) →
      (race.ended.map Prod.fst).Perm peers ∧ ∀ entry ∈ race.ended, entry.2 = none) ∧
      ∀ block, race.progress = .fetched block →
        accepted config.sha256d hash block = true ∧ ∃ peer ∈ peers, (peer, some block) ∈ race.ended := by
  have sound := sound_reached reached
  constructor
  · intro isNone
    simpa only [Sound, isNone] using sound
  · intro block isFetched
    simpa only [Sound, isFetched] using sound

/-! Two peers, of which the first cannot be reached. -/

def block (race : Race) : Option Block :=
  match race.progress with
  | .fetched block => some block
  | _ => none

theorem fetched_of_block {race : Race} {found : Block} (isBlock : race.block = some found) :
    race.progress = .fetched found := by
  unfold block at isBlock
  split at isBlock
  · rename_i isFetched
    rw [isFetched, Option.some.inj isBlock]
  · simp at isBlock

def sampleHandles : List PeerHandle :=
  [{ addr := "first", conn := none, send := 0 }, { addr := "second", conn := none, send := 1 }]

def sampleRace : List (Shared × Event) :=
  [.runner (.start 0), .runner (.peer .failed), .runner .handled, .runner (.start 0),
    .runner (.peer (.handshake .version .verack)), .runner (.peer .written),
    .runner (.peer (.read (.block honestBlock))), .received].map fun event => (Shared.new 1000, event)

theorem fetchBlockFromPeers_complete_second :
    ∃ race : Race, race.progress = .fetched honestBlock ∧
      accepted sampleHash (honestBlock.blockHash sampleHash) honestBlock = true ∧
      ∃ peer ∈ sampleHandles, (peer, some honestBlock) ∈ race.ended := by
  have delivered : (runFrom (step sampleConfig (honestBlock.blockHash sampleHash)) (begin sampleHandles)
      sampleRace).map Race.block = some (some honestBlock) := by
    decide +kernel
  obtain ⟨race, run, isBlock⟩ := Option.map_eq_some_iff.mp delivered
  have isFetched := fetched_of_block isBlock
  exact ⟨race, isFetched,
    (fetchBlockFromPeers_complete (reachable_of_run _ sampleRace run)).2 honestBlock isFetched⟩

end Race

/-! How many peers are asked at once. -/

def Runner.inProgress (runner : Runner) : Nat := runner.active.toList.length

/-- Only a peer's next event lets the runner go on. -/
structure Runner.Waiting (config : Config) (hash : Digest) (runner : Runner) : Prop where
  notDone : runner.isDone = false
  noStart : ∀ pools position,
    runner.poll config.sha256d config.maxPeerConcurrency hash pools (.start position) = none
  noHandler : ∀ pools, runner.poll config.sha256d config.maxPeerConcurrency hash pools .handled = none

theorem Runner.waiting_of_active {config : Config} {hash : Digest} {runner : Runner}
    (isActive : runner.active.isSome = true) (isIdle : runner.handling = 0) : runner.Waiting config hash := by
  obtain ⟨fetch, isFetch⟩ := Option.isSome_iff_exists.mp isActive
  constructor
  · simp [Runner.isDone, isFetch]
  · intro pools position
    simp [Runner.poll, isFetch]
  · intro pools
    simp [Runner.poll, isIdle]

def limited (limit : Option Nat) (peers : Nat) : Nat :=
  match limit with
  | none => peers
  | some limit => min limit peers

namespace Race

variable {config : Config} {hash : Digest} {peers : List PeerHandle} {race : Race} {runner : Runner}

theorem unended_eq (accounts : race.Accounts config.sha256d hash peers runner) :
    peers.length - race.ended.length = runner.inProgress + runner.waiting.length := by
  have counted := accounts.peers.length_eq
  have sameAsked : race.asked.toList.length = runner.inProgress := by
    have asked := accounts.asked
    unfold Runner.inProgress
    cases isAsked : race.asked <;> cases isActive : runner.active <;> simp_all
  simp only [List.length_append, List.length_map] at counted
  omega

theorem room_of_idle {limit : Option Nat} (isIdle : runner.handling = 0) : runner.room limit = true := by
  unfold Runner.room
  split
  · rfl
  · rfl
  · simp [isIdle]

theorem inProgress_of_waiting (waits : runner.Waiting config hash) : runner.inProgress = 1 := by
  have isIdle : runner.handling = 0 := by
    have noHandler := waits.noHandler []
    simp only [Runner.poll, ite_eq_right_iff, reduceCtorEq] at noHandler
    exact Nat.eq_zero_of_not_pos noHandler
  cases isActive : runner.active with
  -- `then` holds one fetch, so one is all there is.
  | some fetch => simp [Runner.inProgress, isActive]
  | none =>
      have noneWaiting : runner.waiting = [] := by
        cases waiting : runner.waiting with
        | nil => rfl
        | cons handle rest =>
            have noStart := waits.noStart [] 0
            simp [Runner.poll, isActive, waiting, room_of_idle isIdle] at noStart
      have notDone := waits.notDone
      simp [Runner.isDone, noneWaiting, isActive, isIdle] at notDone

/-- The runner asks as many peers at once as the limit allows only where that is one. -/
theorem asked_at_once_iff (reached : Reached config hash peers race)
    (isFetching : race.progress = .fetching runner) (positive : config.maxPeerConcurrency ≠ some 0)
    (waits : runner.Waiting config hash) :
    runner.inProgress = limited config.maxPeerConcurrency (peers.length - race.ended.length) ↔
      config.maxPeerConcurrency = some 1 ∨ peers.length - race.ended.length ≤ 1 := by
  have accounts := sound_reached reached
  simp only [Sound, isFetching] at accounts
  rw [unended_eq accounts, inProgress_of_waiting waits]
  unfold limited
  cases isLimit : config.maxPeerConcurrency with
  | none =>
      simp only [reduceCtorEq, false_or]
      omega
  | some limit =>
      have positive : limit ≠ 0 := by simpa [isLimit] using positive
      simp only [Option.some.injEq]
      omega

/-! The first of two peers is asked, and does not answer. -/

def askingFirst : Runner :=
  { waiting := sampleHandles.tail, active := some (.connecting "first" 0), handling := 0, channel := [] }

def askedFirst : Race :=
  { progress := .fetching askingFirst, asked := sampleHandles.head?, ended := [] }

theorem askedFirst_reached (config : Config) (hash : Digest) :
    Reached config hash sampleHandles askedFirst := by
  refine reachable_of_run _ [(Shared.new 0, .runner (.start 0))] ?_
  rcases config with ⟨sha256d, usizeMax, _ | _ | limit, blockFromNull⟩ <;> rfl

theorem askingFirst_waits (config : Config) (hash : Digest) : askingFirst.Waiting config hash :=
  Runner.waiting_of_active rfl rfl

theorem asked_at_once_iff_one :
    askingFirst.inProgress = limited (some 1) 2 ↔ some 1 = some 1 ∨ 2 ≤ 1 :=
  asked_at_once_iff (askedFirst_reached { sampleConfig with maxPeerConcurrency := some 1 } Digest.zeros) rfl (by simp)
    (askingFirst_waits _ Digest.zeros)

theorem second_peer_not_asked :
    Reached sampleConfig Digest.zeros sampleHandles askedFirst ∧ askedFirst.progress = .fetching askingFirst ∧
      askingFirst.Waiting sampleConfig Digest.zeros ∧ askingFirst.channel = [] ∧
      askingFirst.inProgress ≠
        limited sampleConfig.maxPeerConcurrency (sampleHandles.length - askedFirst.ended.length) :=
  ⟨askedFirst_reached sampleConfig Digest.zeros, rfl, askingFirst_waits _ _, rfl, by decide⟩

end Race

end BtcRpcProxy.FetchBlocks
