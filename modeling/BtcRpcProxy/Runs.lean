import Mathlib.Logic.Basic

/-!
Runs of a labelled transition system: what is reachable, the invariant rule, and
how a run of an executable step function gives a reachable state. Nothing here
depends on what the states and the labels stand for.
-/

namespace Runs

variable {State Label : Type*}

inductive Reachable (initial : State → Prop) (step : State → Label → State → Prop) : State → Prop
  | start {state} : initial state → Reachable initial step state
  | next {state label after} : Reachable initial step state → step state label after →
      Reachable initial step after

theorem Reachable.invariant {initial : State → Prop} {step : State → Label → State → Prop}
    {holds : State → Prop} {state : State} (reached : Reachable initial step state)
    (holdsInitially : ∀ state, initial state → holds state)
    (preserved : ∀ state label after, holds state → step state label after → holds after) :
    holds state := by
  induction reached with
  | start isInitial => exact holdsInitially _ isInitial
  | next _ taken ih => exact preserved _ _ _ ih taken

/-- The same steps, each taken only where `allowed` holds of the state before it. -/
def restrict (allowed : State → Label → Prop) (step : State → Label → State → Prop) :
    State → Label → State → Prop :=
  fun state label after => allowed state label ∧ step state label after

def ofStep (step : State → Label → Option State) : State → Label → State → Prop :=
  fun state label after => step state label = some after

def runFrom (step : State → Label → Option State) : State → List Label → Option State
  | state, [] => some state
  | state, label :: rest =>
      match step state label with
      | some after => runFrom step after rest
      | none => none

theorem runFrom_append (step : State → Label → Option State) (state : State) (first second : List Label) :
    runFrom step state (first ++ second) =
      (runFrom step state first).bind fun after => runFrom step after second := by
  induction first generalizing state with
  | nil => rfl
  | cons label rest ih =>
      simp only [List.cons_append, runFrom]
      cases step state label with
      | none => rfl
      | some after => exact ih after

/-- An invariant of a run that speaks of the labels so far, kept by the labels it has. -/
theorem runFrom_past {step : State → Label → Option State} {holds : List Label → State → Prop}
    {state final : State} {past labels : List Label} (holdsInitially : holds past state)
    (preserved : ∀ past before label after, label ∈ labels → holds past before →
      step before label = some after → holds (past ++ [label]) after)
    (run : runFrom step state labels = some final) : holds (past ++ labels) final := by
  induction labels generalizing state past with
  | nil =>
      simp only [Runs.runFrom, Option.some.injEq] at run
      rw [List.append_nil]
      exact run ▸ holdsInitially
  | cons label rest ih =>
      simp only [Runs.runFrom] at run
      cases taken : step state label with
      | none => simp [taken] at run
      | some after =>
          simp only [taken] at run
          rw [List.append_cons]
          refine ih (preserved past state label after List.mem_cons_self holdsInitially taken) ?_ run
          exact fun past before later after member =>
            preserved past before later after (List.mem_cons_of_mem _ member)

theorem runFrom_keeps {step : State → Label → Option State} {holds : State → Prop} {state final : State}
    {labels : List Label} (holdsInitially : holds state)
    (preserved : ∀ before label after, label ∈ labels → holds before → step before label = some after →
      holds after) (run : runFrom step state labels = some final) : holds final := by
  have kept : ∀ past : List Label, ∀ before label after, label ∈ labels → holds before →
      step before label = some after → holds after := fun _ => preserved
  have keeps := @runFrom_past State Label step (fun _ => holds) state final [] labels holdsInitially kept run
  exact keeps

theorem Reachable.runFrom {initial : State → Prop} {step : State → Label → Option State}
    {state final : State} {labels : List Label}
    (reached : Reachable initial (ofStep step) state)
    (run : runFrom step state labels = some final) :
    Reachable initial (ofStep step) final := by
  induction labels generalizing state with
  | nil =>
      simp only [Runs.runFrom, Option.some.injEq] at run
      exact run ▸ reached
  | cons label rest ih =>
      simp only [Runs.runFrom] at run
      cases taken : step state label with
      | none => simp [taken] at run
      | some after =>
          simp only [taken] at run
          exact ih (reached.next taken) run

theorem Reachable.runRestricted {initial : State → Prop} {allowed : State → Label → Prop}
    [DecidableRel allowed] {step : State → Label → Option State} {state final : State}
    {labels : List Label} (reached : Reachable initial (restrict allowed (ofStep step)) state)
    (run : Runs.runFrom (fun state label => if allowed state label then step state label else none)
      state labels = some final) :
    Reachable initial (restrict allowed (ofStep step)) final := by
  induction labels generalizing state with
  | nil =>
      simp only [Runs.runFrom, Option.some.injEq] at run
      exact run ▸ reached
  | cons label rest ih =>
      simp only [Runs.runFrom] at run
      by_cases isAllowed : allowed state label
      · cases taken : step state label with
        | none => simp [isAllowed, taken] at run
        | some after =>
            simp only [isAllowed, if_true, taken] at run
            exact ih (reached.next ⟨isAllowed, taken⟩) run
      · simp [isAllowed] at run

theorem reachable_of_run {step : State → Label → Option State} (start : State) {final : State}
    (labels : List Label) (run : runFrom step start labels = some final) :
    Reachable (· = start) (ofStep step) final := by
  have started : Reachable (· = start) (ofStep step) start := Reachable.start rfl
  exact started.runFrom run

theorem reachable_of_restricted_run {allowed : State → Label → Prop} [DecidableRel allowed]
    {step : State → Label → Option State} (start : State) {final : State} (labels : List Label)
    (run : runFrom (fun state label => if allowed state label then step state label else none)
      start labels = some final) :
    Reachable (· = start) (restrict allowed (ofStep step)) final := by
  have started : Reachable (· = start) (restrict allowed (ofStep step)) start := Reachable.start rfl
  exact started.runRestricted run

/-! Machines that answer each input, and one that simulates another. -/

section

variable {Concrete Abstract Input Output : Type*}

/-- The outputs for a list of inputs and the state they lead to. -/
def answers (step : State → Input → Option (Output × State)) :
    State → List Input → Option (List Output × State)
  | state, [] => some ([], state)
  | state, input :: rest =>
      match step state input with
      | none => none
      | some (output, after) => (answers step after rest).map fun run => (output :: run.1, run.2)

/-- `allowed` holds before each input of a run. -/
def Admits (allowed : State → Input → Prop) (step : State → Input → Output × State) :
    State → List Input → Prop
  | _, [] => True
  | state, input :: rest => allowed state input ∧ Admits allowed step (step state input).2 rest

theorem answers_of_simulation {related : Concrete → Abstract → Prop} {allowed : Abstract → Input → Prop}
    {concreteStep : Concrete → Input → Option (Output × Concrete)}
    {abstractStep : Abstract → Input → Output × Abstract}
    (simulates : ∀ concrete abstract input, related concrete abstract → allowed abstract input →
      ∃ after, concreteStep concrete input = some ((abstractStep abstract input).1, after) ∧
        related after (abstractStep abstract input).2)
    {concrete : Concrete} {abstract : Abstract} (start : related concrete abstract) (inputs : List Input)
    (admitted : Admits allowed abstractStep abstract inputs) :
    ∃ outputs concreteEnd abstractEnd, answers concreteStep concrete inputs = some (outputs, concreteEnd) ∧
      answers (fun state input => some (abstractStep state input)) abstract inputs =
        some (outputs, abstractEnd) ∧ related concreteEnd abstractEnd := by
  induction inputs generalizing concrete abstract with
  | nil => exact ⟨[], concrete, abstract, rfl, rfl, start⟩
  | cons input rest ih =>
      obtain ⟨after, taken, stillRelated⟩ := simulates concrete abstract input start admitted.1
      obtain ⟨outputs, concreteEnd, abstractEnd, concreteRun, abstractRun, endRelated⟩ :=
        ih stillRelated admitted.2
      refine ⟨(abstractStep abstract input).1 :: outputs, concreteEnd, abstractEnd, ?_, ?_, endRelated⟩
      · simp [answers, taken, concreteRun]
      · simp [answers, abstractRun]

end

end Runs
