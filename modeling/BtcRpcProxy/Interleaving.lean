import Mathlib.Algebra.Ring.Nat
import BtcRpcProxy.Runs

/-!
Any number of calls over one shared state, their steps interleaved in any order, and
the rule that proves an invariant of all of them from the steps of one: a call keeps what
is shared good and its own state sound, and whatever the others do to the shared state
leaves it sound.
-/

namespace Interleaved

open Runs

structure State (Shared Local : Type*) where
  shared : Shared
  calls : List Local

/-- `outside` is what changes the shared state besides the calls. -/
structure System (Shared Local Argument Event Change : Type*) where
  start : Argument → Local
  advance : Shared → Local → Event → Option (Shared × Local)
  outside : Shared → Change → Option Shared

inductive Action (Argument Event Change : Type*)
  | begin (argument : Argument)
  | advance (call : Nat) (event : Event)
  | outside (change : Change)

variable {Shared Local Argument Event Change : Type*}

namespace System

def step (system : System Shared Local Argument Event Change) (state : State Shared Local) :
    Action Argument Event Change → Option (State Shared Local)
  | .begin argument => some { state with calls := state.calls ++ [system.start argument] }
  | .advance index event =>
      match state.calls[index]? with
      | none => none
      | some call =>
          match system.advance state.shared call event with
          | none => none
          | some (shared, call) => some { shared, calls := state.calls.set index call }
  | .outside change =>
      match system.outside state.shared change with
      | none => none
      | some shared => some { state with shared }

def Reached (system : System Shared Local Argument Event Change) (shared : Shared) :
    State Shared Local → Prop :=
  Reachable (· = { shared, calls := [] }) (ofStep system.step)

theorem step_cases {system : System Shared Local Argument Event Change} {state after : State Shared Local}
    {action : Action Argument Event Change} (taken : system.step state action = some after) :
    (∃ argument, action = .begin argument ∧
      after = { state with calls := state.calls ++ [system.start argument] }) ∨
    (∃ index event call shared next, action = .advance index event ∧ state.calls[index]? = some call ∧
      system.advance state.shared call event = some (shared, next) ∧
      after = { shared, calls := state.calls.set index next }) ∨
    (∃ change shared, action = .outside change ∧ system.outside state.shared change = some shared ∧
      after = { state with shared }) := by
  cases action with
  | begin argument => exact Or.inl ⟨argument, rfl, (Option.some.inj taken).symm⟩
  | advance index event =>
      simp only [step] at taken
      cases found : state.calls[index]? with
      | none => simp [found] at taken
      | some call =>
          simp only [found] at taken
          cases moved : system.advance state.shared call event with
          | none => simp [moved] at taken
          | some next =>
              simp only [moved] at taken
              exact Or.inr (Or.inl ⟨index, event, call, next.1, next.2, rfl, found, moved,
                (Option.some.inj taken).symm⟩)
  | outside change =>
      simp only [step] at taken
      cases moved : system.outside state.shared change with
      | none => simp [moved] at taken
      | some shared =>
          simp only [moved] at taken
          exact Or.inr (Or.inr ⟨change, shared, rfl, moved, (Option.some.inj taken).symm⟩)

/-- What a call's own steps keep, the steps of the others leave alone. -/
theorem call_step {system : System Shared Local Argument Event Change} {Kept : Local → Prop}
    (own : ∀ shared call event after next, Kept call →
      system.advance shared call event = some (after, next) → Kept next)
    {state after : State Shared Local} {action : Action Argument Event Change} {index : Nat} {call : Local}
    (found : state.calls[index]? = some call) (kept : Kept call)
    (taken : system.step state action = some after) :
    ∃ next, after.calls[index]? = some next ∧ Kept next := by
  rcases step_cases taken with ⟨_, _, rfl⟩ | ⟨other, event, moving, shared, next, _, isMoving, moved, rfl⟩ |
    ⟨_, _, _, _, rfl⟩
  · exact ⟨call, by rw [List.getElem?_append_left (List.getElem?_eq_some_iff.mp found).1, found], kept⟩
  · by_cases same : other = index
    · subst same
      obtain rfl : call = moving := Option.some.inj (found.symm.trans isMoving)
      obtain ⟨bound, _⟩ := List.getElem?_eq_some_iff.mp found
      exact ⟨next, by simp [bound], own _ _ _ _ _ kept moved⟩
    · exact ⟨call, by rw [List.getElem?_set_ne same, found], kept⟩
  · exact ⟨call, found, kept⟩

theorem call_run {system : System Shared Local Argument Event Change} {Kept : Local → Prop}
    (own : ∀ shared call event after next, Kept call →
      system.advance shared call event = some (after, next) → Kept next)
    {state final : State Shared Local} {index : Nat} {call : Local}
    (found : state.calls[index]? = some call) (kept : Kept call)
    (run : Reachable (· = state) (ofStep system.step) final) :
    ∃ last, final.calls[index]? = some last ∧ Kept last := by
  apply Reachable.invariant run
  · rintro start rfl
    exact ⟨call, found, kept⟩
  · rintro before action after ⟨running, isRunning, stillKept⟩ taken
    exact call_step own isRunning stillKept taken

/-- The same calls, each going on only where `allowed` holds of the step. -/
def restrict (system : System Shared Local Argument Event Change)
    (allowed : Shared → Local → Event → Bool) : System Shared Local Argument Event Change :=
  { system with
    advance := fun shared call event =>
      if allowed shared call event then system.advance shared call event else none }

theorem restrict_advance {system : System Shared Local Argument Event Change}
    {allowed : Shared → Local → Event → Bool} {shared : Shared} {call : Local} {event : Event}
    {moved : Shared × Local} : (system.restrict allowed).advance shared call event = some moved ↔
      allowed shared call event = true ∧ system.advance shared call event = some moved := by
  simp [restrict, Option.ite_none_right_eq_some]

/-- What has to be shown of one call for an invariant of all of them. `Follows` says how
the shared state may change from one step to a later one. -/
structure Keeps (system : System Shared Local Argument Event Change) (Good : Shared → Prop)
    (Sound : Shared → Local → Prop) (Follows : Shared → Shared → Prop) : Prop where
  start : ∀ shared argument, Sound shared (system.start argument)
  advance : ∀ shared call event after next, Good shared → Sound shared call →
    system.advance shared call event = some (after, next) →
    Good after ∧ Sound after next ∧ Follows shared after
  outside : ∀ shared change after, Good shared → system.outside shared change = some after →
    Good after ∧ Follows shared after
  stable : ∀ shared after call, Follows shared after → Sound shared call → Sound after call

def Holds (Good : Shared → Prop) (Sound : Shared → Local → Prop) (state : State Shared Local) : Prop :=
  Good state.shared ∧ ∀ call ∈ state.calls, Sound state.shared call

theorem Keeps.step {system : System Shared Local Argument Event Change} {Good : Shared → Prop}
    {Sound : Shared → Local → Prop} {Follows : Shared → Shared → Prop}
    (keeps : system.Keeps Good Sound Follows) {state after : State Shared Local}
    {action : Action Argument Event Change} (holds : Holds Good Sound state)
    (taken : system.step state action = some after) : Holds Good Sound after := by
  obtain ⟨good, sound⟩ := holds
  rcases step_cases taken with ⟨argument, _, rfl⟩ | ⟨index, event, call, shared, next, _, found, moved, rfl⟩ |
    ⟨change, shared, _, moved, rfl⟩
  · refine ⟨good, ?_⟩
    intro call member
    rcases List.mem_append.mp member with running | started
    · exact sound call running
    · rw [List.mem_singleton.mp started]
      exact keeps.start state.shared argument
  · obtain ⟨stillGood, nextSound, follows⟩ :=
      keeps.advance _ _ _ _ _ good (sound call (List.mem_of_getElem? found)) moved
    refine ⟨stillGood, ?_⟩
    intro other member
    rcases List.mem_or_eq_of_mem_set member with running | isNext
    · exact keeps.stable _ _ _ follows (sound other running)
    · exact isNext ▸ nextSound
  · obtain ⟨stillGood, follows⟩ := keeps.outside _ _ _ good moved
    exact ⟨stillGood, fun call member => keeps.stable _ _ _ follows (sound call member)⟩

theorem Keeps.reached {system : System Shared Local Argument Event Change} {Good : Shared → Prop}
    {Sound : Shared → Local → Prop} {Follows : Shared → Shared → Prop}
    (keeps : system.Keeps Good Sound Follows) {shared : Shared} {state : State Shared Local}
    (reached : system.Reached shared state) (good : Good shared) : Holds Good Sound state := by
  apply Reachable.invariant reached
  · rintro initial rfl
    refine ⟨good, ?_⟩
    intro call member
    simp at member
  · intro before action after holds taken
    exact keeps.step holds taken

/-! How many steps a call makes. -/

def eventsOf (index : Nat) (actions : List (Action Argument Event Change)) : List Event :=
  actions.filterMap fun action =>
    match action with
    | .advance other event => if other = index then some event else none
    | _ => none

@[simp] theorem eventsOf_begin (index : Nat) (past : List (Action Argument Event Change)) (argument : Argument) :
    eventsOf index (past ++ [.begin argument]) = eventsOf index past := by
  simp [eventsOf]

@[simp] theorem eventsOf_outside (index : Nat) (past : List (Action Argument Event Change)) (change : Change) :
    eventsOf index (past ++ [.outside change]) = eventsOf index past := by
  simp [eventsOf]

theorem eventsOf_advance (index moving : Nat) (past : List (Action Argument Event Change)) (event : Event) :
    eventsOf index (past ++ [.advance moving event]) =
      eventsOf index past ++ if moving = index then [event] else [] := by
  by_cases same : moving = index <;> simp [eventsOf, same]

/-- What holds of each call after its own events, and after all that has been done. -/
def Along (Sound : List (Action Argument Event Change) → List Event → Local → Prop)
    (past : List (Action Argument Event Change)) (state : State Shared Local) : Prop :=
  (∀ index call, state.calls[index]? = some call → Sound past (eventsOf index past) call) ∧
    ∀ index, state.calls.length ≤ index → eventsOf index past = []

theorem Along.step {system : System Shared Local Argument Event Change}
    {Sound : List (Action Argument Event Change) → List Event → Local → Prop}
    {past : List (Action Argument Event Change)} {state after : State Shared Local}
    {action : Action Argument Event Change}
    (begins : ∀ argument, action = .begin argument → Sound (past ++ [action]) [] (system.start argument))
    (advances : ∀ index event call shared next, action = .advance index event →
      Sound past (eventsOf index past) call → system.advance state.shared call event = some (shared, next) →
      Sound (past ++ [action]) (eventsOf index past ++ [event]) next)
    (stays : ∀ events call, Sound past events call → Sound (past ++ [action]) events call)
    (along : Along Sound past state) (taken : system.step state action = some after) :
    Along Sound (past ++ [action]) after := by
  obtain ⟨sound, unbegun⟩ := along
  rcases step_cases taken with ⟨argument, rfl, rfl⟩ | ⟨moving, event, call, shared, next, rfl, found, moved, rfl⟩ |
    ⟨change, shared, rfl, _, rfl⟩
  · refine ⟨?_, ?_⟩
    · intro index call isCall
      rw [eventsOf_begin]
      by_cases old : index < state.calls.length
      · rw [List.getElem?_append_left old] at isCall
        exact stays _ _ (sound index call isCall)
      · rw [List.getElem?_append_right (by omega), List.getElem?_singleton] at isCall
        obtain ⟨_, started⟩ := Option.ite_none_right_eq_some.mp isCall
        rw [← Option.some.inj started, unbegun index (by omega)]
        exact begins argument rfl
    · intro index beyond
      rw [eventsOf_begin]
      exact unbegun index (by simp at beyond; omega)
  · obtain ⟨bound, _⟩ := List.getElem?_eq_some_iff.mp found
    refine ⟨?_, ?_⟩
    · intro index other isOther
      rw [eventsOf_advance]
      by_cases same : moving = index
      · subst same
        rw [List.getElem?_set_self bound, Option.some.injEq] at isOther
        subst isOther
        rw [if_pos rfl]
        exact advances _ _ _ _ _ rfl (sound moving call found) moved
      · rw [List.getElem?_set_ne same] at isOther
        rw [if_neg same, List.append_nil]
        exact stays _ _ (sound index other isOther)
    · intro index beyond
      simp only [List.length_set] at beyond
      have other : moving ≠ index := by omega
      rw [eventsOf_advance, unbegun index beyond, if_neg other, List.append_nil]
  · refine ⟨?_, ?_⟩
    · intro index call isCall
      rw [eventsOf_outside]
      exact stays _ _ (sound index call isCall)
    · intro index beyond
      rw [eventsOf_outside]
      exact unbegun index beyond

/-- Each step of a call is paid for by what it has, and by what comes in with the event. -/
structure Pays (system : System Shared Local Argument Event Change) (Good : Shared → Prop)
    (allowed : Event → Prop) (worth : Local → Nat) (income : Event → Nat) : Prop where
  advance : ∀ shared call event after next, Good shared → allowed event →
    system.advance shared call event = some (after, next) → worth next + 1 ≤ worth call + income event

def Affords (worth : Local → Nat) (income : Event → Nat) (budget : Nat)
    (past : List (Action Argument Event Change)) (state : State Shared Local) : Prop :=
  (∀ index call, state.calls[index]? = some call →
    (eventsOf index past).length + worth call ≤ budget + ((eventsOf index past).map income).sum) ∧
  ∀ index, state.calls.length ≤ index → eventsOf index past = []

theorem Pays.step {system : System Shared Local Argument Event Change} {Good : Shared → Prop}
    {allowed : Event → Prop} {worth : Local → Nat} {income : Event → Nat}
    (pays : system.Pays Good allowed worth income) {budget : Nat}
    (begins : ∀ argument, worth (system.start argument) ≤ budget) {past : List (Action Argument Event Change)}
    {state after : State Shared Local} {action : Action Argument Event Change} (good : Good state.shared)
    (isAllowed : ∀ index event, action = .advance index event → allowed event)
    (affords : Affords worth income budget past state) (taken : system.step state action = some after) :
    Affords worth income budget (past ++ [action]) after := by
  have along : Along (fun _ events call => events.length + worth call ≤ budget + (events.map income).sum)
      past state := affords
  refine Along.step ?_ ?_ (fun _ _ paid => paid) along taken
  · exact fun argument _ => by simpa using begins argument
  · intro index event call shared next isAction paid moved
    have cost := pays.advance _ _ _ _ _ good (isAllowed index event isAction) moved
    simp only [List.length_append, List.length_singleton, List.map_append, List.map_cons, List.map_nil,
      List.sum_append, List.sum_cons, List.sum_nil]
    omega

end System

end Interleaved
