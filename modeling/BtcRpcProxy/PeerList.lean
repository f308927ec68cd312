import BtcRpcProxy.PeerListCore

/-!
What holds of the peer list whatever the calls and their refreshes do, and what holds where the
refreshes get the lock in the order in which they have read the clock: then every list waiting to be
stored is no older than the one that is.
-/

namespace BtcRpcProxy.PeerList

open Interleaved Runs

/-- The steps of `get_peers` and of the refresh it has spawned. -/
inductive Moves (maxPeerAge : Nat) (shared : Shared) : Call → Event → Shared → Call → Prop
  | read {check refresh} :
      Moves maxPeerAge shared ⟨.started, check, refresh⟩ .read shared ⟨.listed shared.peers, check, refresh⟩
  | check {peers check refresh} :
      Moves maxPeerAge shared ⟨.listed peers, check, refresh⟩ .check shared
        (checkStale maxPeerAge shared.clock ⟨.listed peers, check, refresh⟩ peers)
  | updated {progress check} (infos) :
      Moves maxPeerAge shared ⟨progress, check, some .updating⟩ (.updated (.ok infos)) shared
        ⟨progress, check, some (.writing (Peers.updated shared.clock infos))⟩
  | failed {progress check} (error) :
      Moves maxPeerAge shared ⟨progress, check, some .updating⟩ (.updated (.error error)) shared
        ⟨progress, check, some (.failed error)⟩
  | store {progress check peers} :
      Moves maxPeerAge shared ⟨progress, check, some (.writing peers)⟩ .store { shared with peers }
        ⟨progress, check, some (.stored peers)⟩
  | cancelUpdate {progress check} (error) :
      Moves maxPeerAge shared ⟨progress, check, some .updating⟩ (.cancelled error) shared
        ⟨progress, check, some (.failed error)⟩
  | cancelWrite {progress check peers} (error) :
      Moves maxPeerAge shared ⟨progress, check, some (.writing peers)⟩ (.cancelled error) shared
        ⟨progress, check, some (.failed error)⟩
  | joinStored {check peers} :
      Moves maxPeerAge shared ⟨.awaiting, check, some (.stored peers)⟩ .joined shared
        ⟨.returned (.ok peers.peers), check, some (.stored peers)⟩
  | joinFailed {check error} :
      Moves maxPeerAge shared ⟨.awaiting, check, some (.failed error)⟩ .joined shared
        ⟨.returned (.error error), check, some (.failed error)⟩
  | drop {progress check refresh} :
      Moves maxPeerAge shared ⟨progress, check, refresh⟩ .dropped shared ⟨.dropped, check, refresh⟩

section

variable {maxPeerAge : Nat} {shared after : Shared} {call next : Call} {event : Event}

theorem getPeers_moves (step : getPeers maxPeerAge shared call event = some (after, next)) :
    Moves maxPeerAge shared call event after next := by
  obtain ⟨progress, check, refresh⟩ := call
  cases event with
  | read =>
      cases progress with
      | started => cases step; exact .read
      | _ => simp [getPeers] at step
  | check =>
      cases progress with
      | listed peers => cases step; exact .check
      | _ => simp [getPeers] at step
  | updated called =>
      rcases refresh with _ | _ | _ | _ | _ <;> cases called <;> cases step
      · exact .failed _
      · exact .updated _
  | store =>
      rcases refresh with _ | _ | _ | _ | _ <;> cases step
      exact .store
  | cancelled error =>
      rcases refresh with _ | _ | _ | _ | _ <;> cases step
      · exact .cancelUpdate error
      · exact .cancelWrite error
  | joined =>
      cases progress with
      | awaiting =>
          rcases refresh with _ | _ | _ | _ | _ <;> cases step
          · exact .joinStored
          · exact .joinFailed
      | _ => simp [getPeers] at step
  | dropped =>
      cases progress with
      | returned result => simp [getPeers] at step
      | dropped => simp [getPeers] at step
      | _ => cases step; exact .drop

theorem Moves.refresh_cases (moves : Moves maxPeerAge shared call event after next) :
    (after = shared ∧ next.refresh = call.refresh) ∨
    (after = shared ∧ (∃ peers, call.progress = .listed peers) ∧ next.refresh = some .updating) ∨
    (after = shared ∧ call.refresh = some .updating ∧
      ∃ infos, next.refresh = some (.writing (Peers.updated shared.clock infos))) ∨
    (after = shared ∧ (call.refresh = some .updating ∨ ∃ peers, call.refresh = some (.writing peers)) ∧
      ∃ error, next.refresh = some (.failed error)) ∨
    (event = .store ∧ ∃ peers, call.refresh = some (.writing peers) ∧ after = { shared with peers } ∧
      next.refresh = some (.stored peers)) := by
  cases moves with
  | @check peers =>
      by_cases stale : peers.stale maxPeerAge shared.clock = true
      · exact Or.inr (Or.inl ⟨rfl, ⟨peers, rfl⟩, by simp [checkStale, stale]⟩)
      · exact Or.inl ⟨rfl, by simp [checkStale, stale]⟩
  | updated infos => exact Or.inr (Or.inr (Or.inl ⟨rfl, rfl, infos, rfl⟩))
  | failed error => exact Or.inr (Or.inr (Or.inr (Or.inl ⟨rfl, Or.inl rfl, error, rfl⟩)))
  | cancelUpdate error => exact Or.inr (Or.inr (Or.inr (Or.inl ⟨rfl, Or.inl rfl, error, rfl⟩)))
  | cancelWrite error => exact Or.inr (Or.inr (Or.inr (Or.inl ⟨rfl, Or.inr ⟨_, rfl⟩, error, rfl⟩)))
  | store => exact Or.inr (Or.inr (Or.inr (Or.inr ⟨rfl, _, rfl, rfl, rfl⟩)))
  | _ => exact Or.inl ⟨rfl, rfl⟩

/-! Which calls fail. -/

def Call.FoundNothing (maxPeerAge : Nat) (call : Call) : Prop :=
  ∃ check, call.check = some check ∧ check.peers.stale maxPeerAge check.moment = true ∧
    check.peers.isEmpty = true

def Call.Sound (maxPeerAge : Nat) (call : Call) : Prop :=
  match call.progress with
  | .started => call.refresh = none
  | .listed _ => call.refresh = none
  | .awaiting => call.FoundNothing maxPeerAge
  | .returned (.error error) => call.FoundNothing maxPeerAge ∧ call.refresh = some (.failed error)
  | .returned (.ok _) => True
  | .dropped => True

theorem sound_checkStale (now : Nat) (call : Call) (peers : Peers) :
    (checkStale maxPeerAge now call peers).Sound maxPeerAge := by
  unfold checkStale
  by_cases stale : peers.stale maxPeerAge now = true
  · by_cases empty : peers.isEmpty = true
    · simp only [stale, empty, if_true, Call.Sound]
      exact ⟨_, rfl, stale, empty⟩
    · simp [stale, empty, Call.Sound]
  · simp [stale, Call.Sound]

theorem Call.Sound.setRefresh (sound : call.Sound maxPeerAge) {running : Refresh}
    (runs : call.refresh = some running) (notFailed : ∀ error, running ≠ .failed error) (refresh : Refresh) :
    Call.Sound maxPeerAge { call with refresh := some refresh } := by
  obtain ⟨progress, check, old⟩ := call
  obtain rfl : old = some running := runs
  rcases progress with _ | _ | _ | result | _
  · simp [Call.Sound] at sound
  · simp [Call.Sound] at sound
  · exact sound
  · cases result with
    | ok peers => trivial
    | error error => exact absurd (Option.some.inj sound.2) (notFailed error)
  · trivial

theorem Moves.sound (sound : call.Sound maxPeerAge) (moves : Moves maxPeerAge shared call event after next) :
    next.Sound maxPeerAge := by
  cases moves with
  | read => exact sound
  | check => exact sound_checkStale _ _ _
  | updated infos => exact sound.setRefresh rfl (by simp) _
  | failed error => exact sound.setRefresh rfl (by simp) _
  | store => exact sound.setRefresh rfl (by simp) _
  | cancelUpdate error => exact sound.setRefresh rfl (by simp) _
  | cancelWrite error => exact sound.setRefresh rfl (by simp) _
  | joinStored => trivial
  | joinFailed => exact ⟨sound, rfl⟩
  | drop => trivial

theorem sound_keeps (maxPeerAge : Nat) :
    (system maxPeerAge).Keeps (fun _ => True) (fun _ call => call.Sound maxPeerAge) fun _ _ => True := by
  constructor
  · exact fun _ _ => rfl
  · exact fun _ _ _ _ _ _ sound moved => ⟨trivial, (getPeers_moves moved).sound sound, trivial⟩
  · exact fun _ _ _ _ _ => ⟨trivial, trivial⟩
  · exact fun _ _ _ _ sound => sound

theorem Moves.stored (moves : Moves maxPeerAge shared call event after next) (sound : call.Sound maxPeerAge)
    {peers : Peers} (stored : call.refresh = some (.stored peers)) : next.refresh = some (.stored peers) := by
  rcases moves.refresh_cases with ⟨_, same⟩ | ⟨_, ⟨listed, isListed⟩, _⟩ | ⟨_, updating, _⟩ |
    ⟨_, updating | ⟨waiting, writing⟩, _⟩ | ⟨_, waiting, writing, _⟩
  · exact same.trans stored
  · rw [Call.Sound, isListed, stored] at sound
    simp at sound
  · simp [stored] at updating
  · simp [stored] at updating
  · simp [stored] at writing
  · simp [stored] at writing

end

section

variable {maxPeerAge : Nat} {state after final : State Shared Call} {index : Nat}

theorem stored_run {call : Call} {peers : Peers} (sound : call.Sound maxPeerAge)
    (found : state.calls[index]? = some call) (stored : call.refresh = some (.stored peers))
    (run : Reachable (· = state) (ofStep (system maxPeerAge).step) final) :
    ∃ last, final.calls[index]? = some last ∧ last.refresh = some (.stored peers) := by
  let Kept (call : Call) : Prop := call.Sound maxPeerAge ∧ call.refresh = some (.stored peers)
  have own (shared : Shared) (call : Call) (event : Event) (after : Shared) (next : Call) (kept : Kept call)
      (moved : (system maxPeerAge).advance shared call event = some (after, next)) : Kept next :=
    ⟨(getPeers_moves moved).sound kept.1, (getPeers_moves moved).stored kept.1 kept.2⟩
  obtain ⟨last, isLast, _, stillStored⟩ := System.call_run own found ⟨sound, stored⟩ run
  exact ⟨last, isLast, stillStored⟩

theorem unchanged_of_failed {event : Event} {call : Call} {error : AnyhowError}
    (sound : ∀ call ∈ state.calls, call.Sound maxPeerAge)
    (taken : (system maxPeerAge).step state (.advance index event) = some after)
    (run : Reachable (· = after) (ofStep (system maxPeerAge).step) final)
    (found : final.calls[index]? = some call) (failed : call.refresh = some (.failed error)) :
    after.shared = state.shared := by
  rcases System.step_cases taken with ⟨_, wrong, _⟩ | ⟨_, _, moving, shared, next, same, isMoving, moved, rfl⟩ |
    ⟨_, _, wrong, _⟩
  · simp at wrong
  · obtain ⟨rfl, rfl⟩ := (Action.advance.injEq ..).mp same
    have moves := getPeers_moves moved
    rcases moves.refresh_cases with ⟨unchanged, _⟩ | ⟨unchanged, _⟩ | ⟨unchanged, _⟩ | ⟨unchanged, _⟩ |
      ⟨_, peers, _, _, stored⟩
    · exact unchanged
    · exact unchanged
    · exact unchanged
    · exact unchanged
    · obtain ⟨bound, _⟩ := List.getElem?_eq_some_iff.mp isMoving
      have isNext : (state.calls.set index next)[index]? = some next := by simp [bound]
      have nextSound := moves.sound (sound moving (List.mem_of_getElem? isMoving))
      obtain ⟨ended, isEnded, stillStored⟩ := stored_run nextSound isNext stored run
      rw [Option.some.inj (found.symm.trans isEnded), stillStored] at failed
      simp at failed
  · simp at wrong

end

def Peers.NotLater (first second : Peers) : Prop :=
  ∀ moment, first.fetched = some moment → ∃ later, second.fetched = some later ∧ moment ≤ later

theorem Peers.NotLater.refl (peers : Peers) : peers.NotLater peers :=
  fun moment fetched => ⟨moment, fetched, Nat.le_refl moment⟩

theorem Peers.NotLater.trans {first second third : Peers} (before : first.NotLater second)
    (after : second.NotLater third) : first.NotLater third := by
  intro moment fetched
  obtain ⟨middle, isMiddle, lower⟩ := before moment fetched
  obtain ⟨last, isLast, upper⟩ := after middle isMiddle
  exact ⟨last, isLast, Nat.le_trans lower upper⟩

def Call.waiting (call : Call) : Option Nat :=
  match call.refresh with
  | some (.writing peers) => peers.fetched
  | _ => none

/-- The refresh that gets the lock has a list no later than any other that waits for it. -/
def inOrder (state : State Shared Call) : Action Unit Event Nat → Bool
  | .advance index .store =>
      match (state.calls[index]?).bind Call.waiting with
      | some fetched => (state.calls.filterMap Call.waiting).all fun other => decide (fetched ≤ other)
      | none => true
  | _ => true

def InOrder (state : State Shared Call) (action : Action Unit Event Nat) : Prop :=
  inOrder state action = true

/-- A list that waits has a time, and that of the list that is stored comes no later. -/
def Call.Waits (shared : Shared) (call : Call) : Prop :=
  ∀ peers, call.refresh = some (.writing peers) →
    shared.peers.NotLater peers ∧ ∃ fetched, peers.fetched = some fetched ∧ fetched ≤ shared.clock

structure Ordered (state : State Shared Call) : Prop where
  stored : ∀ fetched, state.shared.peers.fetched = some fetched → fetched ≤ state.shared.clock
  waiting : ∀ call ∈ state.calls, call.Waits state.shared

theorem waiting_of_writing {call : Call} {peers : Peers} (writing : call.refresh = some (.writing peers)) :
    call.waiting = peers.fetched := by
  rw [Call.waiting, writing]

theorem writing_of_waiting {call : Call} {moment : Nat} (waiting : call.waiting = some moment) :
    ∃ peers, call.refresh = some (.writing peers) ∧ peers.fetched = some moment := by
  unfold Call.waiting at waiting
  split at waiting
  · rename_i peers writing
    exact ⟨peers, writing, waiting⟩
  · simp at waiting

section

variable {maxPeerAge : Nat} {state after : State Shared Call}

theorem le_of_inOrder {index fetched : Nat} {call : Call} {peers : Peers}
    (inOrder : InOrder state (.advance index .store)) (found : state.calls[index]? = some call)
    (writing : call.refresh = some (.writing peers)) (isFetched : peers.fetched = some fetched) :
    ∀ other ∈ state.calls, ∀ moment, other.waiting = some moment → fetched ≤ moment := by
  intro other member moment waiting
  have first : (state.calls[index]?).bind Call.waiting = some fetched := by
    rw [found, Option.bind_some, waiting_of_writing writing, isFetched]
  simp only [InOrder, PeerList.inOrder, first, List.all_eq_true, decide_eq_true_eq] at inOrder
  exact inOrder moment (List.mem_filterMap.mpr ⟨other, member, waiting⟩)

theorem waits_of_notWriting {shared : Shared} {call : Call}
    (notWriting : ∀ peers, call.refresh ≠ some (.writing peers)) : call.Waits shared :=
  fun peers writing => absurd writing (notWriting peers)

theorem ordered_set {index : Nat} {shared : Shared} {next : Call} (ordered : Ordered state)
    (unchanged : shared = state.shared) (waits : next.Waits shared) :
    Ordered { shared, calls := state.calls.set index next } := by
  subst unchanged
  refine ⟨ordered.stored, ?_⟩
  intro call member
  rcases List.mem_or_eq_of_mem_set member with old | rfl
  · exact ordered.waiting call old
  · exact waits

theorem ordered_store {index : Nat} {call next : Call} {peers : Peers} (ordered : Ordered state)
    (inOrder : InOrder state (.advance index .store)) (found : state.calls[index]? = some call)
    (writing : call.refresh = some (.writing peers)) (stored : next.refresh = some (.stored peers)) :
    Ordered { shared := { state.shared with peers }, calls := state.calls.set index next } ∧
      state.shared.peers.NotLater peers := by
  obtain ⟨notLater, fetched, isFetched, past⟩ :=
    ordered.waiting call (List.mem_of_getElem? found) peers writing
  refine ⟨⟨?_, ?_⟩, notLater⟩
  · intro moment isMoment
    rw [isFetched, Option.some.injEq] at isMoment
    exact isMoment ▸ past
  · intro other member
    rcases List.mem_or_eq_of_mem_set member with old | rfl
    · intro waiting isWaiting
      obtain ⟨_, moment, isMoment, momentPast⟩ := ordered.waiting other old waiting isWaiting
      have lower := le_of_inOrder inOrder found writing isFetched other old moment
        ((waiting_of_writing isWaiting).trans isMoment)
      refine ⟨?_, moment, isMoment, momentPast⟩
      intro first isFirst
      rw [isFetched, Option.some.injEq] at isFirst
      exact ⟨moment, isMoment, isFirst ▸ lower⟩
    · exact waits_of_notWriting (by simp [stored])

theorem ordered_advance {index : Nat} {event : Event} {call next : Call} {shared : Shared}
    (ordered : Ordered state) (inOrder : InOrder state (.advance index event))
    (found : state.calls[index]? = some call)
    (moved : getPeers maxPeerAge state.shared call event = some (shared, next)) :
    Ordered { shared, calls := state.calls.set index next } ∧
      state.shared.peers.NotLater shared.peers := by
  have callWaits := ordered.waiting call (List.mem_of_getElem? found)
  rcases (getPeers_moves moved).refresh_cases with ⟨same, sameRefresh⟩ | ⟨same, _, updating⟩ |
    ⟨same, _, infos, writing⟩ | ⟨same, _, error, failed⟩ | ⟨rfl, peers, writing, rfl, stored⟩
  · refine ⟨ordered_set ordered same ?_, same ▸ Peers.NotLater.refl _⟩
    intro peers writing
    exact same ▸ callWaits peers (sameRefresh.symm.trans writing)
  · have waits : next.Waits shared := waits_of_notWriting (by simp [updating])
    exact ⟨ordered_set ordered same waits, same ▸ Peers.NotLater.refl _⟩
  · refine ⟨ordered_set ordered same ?_, same ▸ Peers.NotLater.refl _⟩
    intro peers isWriting
    obtain rfl : Peers.updated state.shared.clock infos = peers := by simpa [writing] using isWriting
    rw [same]
    exact ⟨fun moment isMoment => ⟨_, rfl, ordered.stored moment isMoment⟩, _, rfl, Nat.le_refl _⟩
  · have waits : next.Waits shared := waits_of_notWriting (by simp [failed])
    exact ⟨ordered_set ordered same waits, same ▸ Peers.NotLater.refl _⟩
  · exact ordered_store ordered inOrder found writing stored

theorem ordered_step {action : Action Unit Event Nat} (ordered : Ordered state)
    (inOrder : InOrder state action) (taken : (system maxPeerAge).step state action = some after) :
    Ordered after ∧ state.shared.peers.NotLater after.shared.peers := by
  rcases System.step_cases taken with ⟨_, _, rfl⟩ |
    ⟨index, event, call, shared, next, rfl, found, moved, rfl⟩ | ⟨duration, shared, _, passed, rfl⟩
  · refine ⟨⟨ordered.stored, ?_⟩, Peers.NotLater.refl _⟩
    intro call member
    rcases List.mem_append.mp member with running | started
    · exact ordered.waiting call running
    · rw [List.mem_singleton.mp started]
      exact waits_of_notWriting (by simp [system])
  · exact ordered_advance ordered inOrder found moved
  · obtain rfl : { state.shared with clock := state.shared.clock + duration } = shared :=
      Option.some.inj passed
    refine ⟨⟨?_, ?_⟩, Peers.NotLater.refl _⟩
    · intro fetched isFetched
      exact Nat.le_add_right_of_le (ordered.stored fetched isFetched)
    · intro call member peers writing
      obtain ⟨notLater, fetched, isFetched, past⟩ := ordered.waiting call member peers writing
      exact ⟨notLater, fetched, isFetched, Nat.le_add_right_of_le past⟩

theorem ordered_start (clock : Nat) : Ordered { shared := Shared.new clock, calls := [] } :=
  ⟨fun _ isFetched => by simp [Shared.new, Peers.new] at isFetched, fun _ member => by simp at member⟩

theorem notLater_of_run {clock : Nat}
    (reached : Reachable (· = { shared := Shared.new clock, calls := [] })
      (restrict InOrder (ofStep (system maxPeerAge).step)) state)
    (run : Reachable (· = state) (restrict InOrder (ofStep (system maxPeerAge).step)) after) :
    state.shared.peers.NotLater after.shared.peers := by
  have ordered : Ordered state := by
    apply Reachable.invariant reached
    · rintro start rfl
      exact ordered_start clock
    · intro before action next ordered taken
      exact (ordered_step ordered taken.1 taken.2).1
  have kept : Ordered after ∧ state.shared.peers.NotLater after.shared.peers := by
    apply Reachable.invariant run
    · rintro start rfl
      exact ⟨ordered, Peers.NotLater.refl _⟩
    · rintro before action next ⟨stillOrdered, notLater⟩ taken
      obtain ⟨nextOrdered, follows⟩ := ordered_step stillOrdered taken.1 taken.2
      exact ⟨nextOrdered, notLater.trans follows⟩
  exact kept.2

theorem store_step {index : Nat} : (system maxPeerAge).step state (.advance index .store) = some after ↔
    ∃ call peers, state.calls[index]? = some call ∧ call.refresh = some (.writing peers) ∧
      after = { shared := { state.shared with peers },
                calls := state.calls.set index { call with refresh := some (.stored peers) } } := by
  simp only [System.step, system]
  cases found : state.calls[index]? with
  | none => simp
  | some call =>
      obtain ⟨progress, check, refresh⟩ := call
      rcases refresh with _ | _ | peers | _ | _ <;> simp [getPeers, eq_comm]

/-- Where a list is stored out of order, an earlier one is left that can be stored over it. -/
theorem store_over_later {index : Nat} (late : ¬InOrder state (.advance index .store))
    (taken : (system maxPeerAge).step state (.advance index .store) = some after) :
    ∃ other last, (system maxPeerAge).step after (.advance other .store) = some last ∧
      ¬after.shared.peers.NotLater last.shared.peers := by
  obtain ⟨call, peers, found, writing, rfl⟩ := store_step.mp taken
  cases isFetched : peers.fetched with
  | none => simp [InOrder, inOrder, found, waiting_of_writing writing, isFetched] at late
  | some fetched =>
      simp only [InOrder, inOrder, found, Option.bind_some, waiting_of_writing writing, isFetched,
        List.all_eq_true, List.mem_filterMap, decide_eq_true_eq, not_forall, Nat.not_le] at late
      obtain ⟨moment, ⟨earlier, member, waiting⟩, before⟩ := late
      obtain ⟨other, isEarlier⟩ := List.mem_iff_getElem?.mp member
      have different : index ≠ other := by
        rintro rfl
        obtain rfl : call = earlier := Option.some.inj (found.symm.trans isEarlier)
        rw [waiting_of_writing writing, isFetched, Option.some.injEq] at waiting
        omega
      obtain ⟨older, stillWriting, isOlder⟩ := writing_of_waiting waiting
      refine ⟨other, _, store_step.mpr ⟨earlier, older, ?_, stillWriting, rfl⟩, ?_⟩
      · rw [List.getElem?_set_ne different, isEarlier]
      · intro notLater
        obtain ⟨last, isLast, upper⟩ := notLater fetched isFetched
        rw [isOlder, Option.some.injEq] at isLast
        omega

end

/-- The time of the list never goes back where the refreshes store in the order in which they have
read the clock; out of that order an older list can come last. However they store, one that fails
leaves the list as it is, and a call fails only with its own refresh, having read a stale list of
no peers. -/
theorem peer_list_kept (maxPeerAge clock : Nat) :
    (∀ state after, Reachable (· = { shared := Shared.new clock, calls := [] })
        (restrict InOrder (ofStep (system maxPeerAge).step)) state →
      Reachable (· = state) (restrict InOrder (ofStep (system maxPeerAge).step)) after →
      state.shared.peers.NotLater after.shared.peers) ∧
    ∀ state, (system maxPeerAge).Reached (Shared.new clock) state →
      (∀ index event after final call error,
        (system maxPeerAge).step state (.advance index event) = some after →
        Reachable (· = after) (ofStep (system maxPeerAge).step) final →
        final.calls[index]? = some call → call.refresh = some (.failed error) →
        after.shared = state.shared) ∧
      (∀ call ∈ state.calls, ∀ error, call.progress = .returned (.error error) →
        call.FoundNothing maxPeerAge ∧ call.refresh = some (.failed error)) ∧
      ∀ index after, ¬InOrder state (.advance index .store) →
        (system maxPeerAge).step state (.advance index .store) = some after →
        ∃ other last, (system maxPeerAge).step after (.advance other .store) = some last ∧
          ¬after.shared.peers.NotLater last.shared.peers := by
  refine ⟨fun state after reached run => notLater_of_run reached run, ?_⟩
  intro state reached
  have sound : ∀ call ∈ state.calls, call.Sound maxPeerAge :=
    ((sound_keeps maxPeerAge).reached reached trivial).2
  refine ⟨?_, ?_, fun index after late taken => store_over_later late taken⟩
  · intro index event after final call error taken run found failed
    exact unchanged_of_failed sound taken run found failed
  · intro call member error returned
    have callSound := sound call member
    obtain ⟨progress, check, refresh⟩ := call
    obtain rfl : progress = .returned (.error error) := returned
    exact callSound

/-! Two calls that find no list, and a refresh each. -/

def outbound (addr : String) : PeerInfo :=
  { addr, servicesnames := ["NETWORK", "WITNESS"], inbound := false }

def twoRefreshes : List (Action Unit Event Nat) :=
  [.begin (), .begin (), .advance 0 .read, .advance 1 .read, .advance 0 .check, .advance 1 .check,
   .outside 1, .advance 0 (.updated (.ok [outbound "a"])), .outside 1,
   .advance 1 (.updated (.ok [outbound "b"]))]

theorem older_list_stored_last : ∃ state after, (system 300).Reached (Shared.new 0) state ∧
    (system 300).step state (.advance 0 .store) = some after ∧
    state.shared.peers = { fetched := some 2, peers := ["b"] } ∧
    after.shared.peers = { fetched := some 1, peers := ["a"] } ∧
    ¬state.shared.peers.NotLater after.shared.peers := by
  refine ⟨_, _, reachable_of_run _ (twoRefreshes ++ [.advance 1 .store]) rfl, rfl, rfl, rfl, ?_⟩
  intro notLater
  obtain ⟨later, isLater, upper⟩ := notLater 2 rfl
  obtain rfl : 1 = later := Option.some.inj isLater
  omega

instance : DecidableRel InOrder := fun _ _ => inferInstanceAs (Decidable (_ = true))

theorem older_list_stored_first :
    Peers.NotLater { fetched := some 1, peers := ["a"] } { fetched := some 2, peers := ["b"] } :=
  (peer_list_kept 300 0).1 _ _
    (reachable_of_restricted_run _ (twoRefreshes ++ [.advance 0 .store]) rfl)
    (reachable_of_restricted_run _ [.advance 1 .store] rfl)

end BtcRpcProxy.PeerList
