import Mathlib.Data.List.Perm.Basic
import Mathlib.Data.List.Perm.Lattice

/-!
Futures as the sequence of their polls. Each poll performs some effects and then is
ready, suspends or panics. On top of that: sequencing, `try_join!` of two futures and
the concurrent completion of many under an arbitrary order of polls. Nothing here
depends on what the effects and the values are.
-/

namespace Polled

inductive Future (Effect Value : Type)
  | ready (log : List Effect) (value : Value)
  | pending (log : List Effect) (rest : Future Effect Value)
  | panic (log : List Effect)

namespace Future

variable {Effect Other Value Result Left Right Error Key : Type}

/-- The value it ends with when polled to the end; `none` after a panic. -/
def value : Future Effect Value → Option Value
  | .ready _ value => some value
  | .pending _ rest => rest.value
  | .panic _ => none

def log : Future Effect Value → List Effect
  | .ready log _ => log
  | .pending log rest => log ++ rest.log
  | .panic log => log

/-- The effects of the first poll alone: what has happened when it is dropped after it. -/
def firstLog : Future Effect Value → List Effect
  | .ready log _ => log
  | .pending log _ => log
  | .panic log => log

def firstValue : Future Effect Value → Option Value
  | .ready _ value => some value
  | .pending _ _ => none
  | .panic _ => none

def pure (value : Value) : Future Effect Value := .ready [] value

def emit (effects : List Effect) : Future Effect Value → Future Effect Value
  | .ready log value => .ready (effects ++ log) value
  | .pending log rest => .pending (effects ++ log) rest
  | .panic log => .panic (effects ++ log)

/-- `.await`: the poll in which the first future is ready goes on into the next one. -/
def bind (next : Value → Future Effect Result) : Future Effect Value → Future Effect Result
  | .ready log value => (next value).emit log
  | .pending log rest => .pending log (rest.bind next)
  | .panic log => .panic log

def map (f : Value → Result) : Future Effect Value → Future Effect Result :=
  bind fun value => pure (f value)

def mapEffect (f : Effect → Other) : Future Effect Value → Future Other Value
  | .ready log value => .ready (log.map f) value
  | .pending log rest => .pending (log.map f) (rest.mapEffect f)
  | .panic log => .panic (log.map f)

def silent : Future Empty Value → Future Effect Value := mapEffect Empty.elim

@[simp] theorem value_pure (value : Value) : (pure value : Future Effect Value).value = some value := rfl

@[simp] theorem log_pure (value : Value) : (pure value : Future Effect Value).log = [] := rfl

@[simp] theorem value_emit (effects : List Effect) (future : Future Effect Value) :
    (future.emit effects).value = future.value := by
  cases future <;> rfl

@[simp] theorem log_emit (effects : List Effect) (future : Future Effect Value) :
    (future.emit effects).log = effects ++ future.log := by
  cases future <;> simp [emit, log]

@[simp] theorem firstLog_emit (effects : List Effect) (future : Future Effect Value) :
    (future.emit effects).firstLog = effects ++ future.firstLog := by
  cases future <;> rfl

@[simp] theorem value_bind (next : Value → Future Effect Result) (future : Future Effect Value) :
    (future.bind next).value = future.value.bind fun value => (next value).value := by
  induction future with
  | ready log value => simp [bind, Future.value]
  | pending log rest ih => simpa [bind, Future.value] using ih
  | panic log => rfl

theorem log_bind (next : Value → Future Effect Result) (future : Future Effect Value) :
    (future.bind next).log =
      future.log ++ (future.value.map fun value => (next value).log).getD [] := by
  induction future with
  | ready log value => simp [bind, Future.log, Future.value]
  | pending log rest ih => simp [bind, Future.log, Future.value, ih]
  | panic log => simp [bind, Future.log, Future.value]

theorem mem_log_bind {next : Value → Future Effect Result} {future : Future Effect Value}
    {effect : Effect} (member : effect ∈ (future.bind next).log) :
    effect ∈ future.log ∨ ∃ value, future.value = some value ∧ effect ∈ (next value).log := by
  rw [log_bind, List.mem_append] at member
  rcases member with first | later
  · exact Or.inl first
  · cases ended : future.value with
    | none => simp [ended] at later
    | some value => exact Or.inr ⟨value, rfl, by simpa [ended] using later⟩

@[simp] theorem value_map (f : Value → Result) (future : Future Effect Value) :
    (future.map f).value = future.value.map f := by
  cases ended : future.value <;> simp [map, ended]

@[simp] theorem log_map (f : Value → Result) (future : Future Effect Value) :
    (future.map f).log = future.log := by
  cases ended : future.value <;> simp [map, log_bind, ended]

@[simp] theorem value_mapEffect (f : Effect → Other) (future : Future Effect Value) :
    (future.mapEffect f).value = future.value := by
  induction future with
  | ready log value => rfl
  | pending log rest ih => exact ih
  | panic log => rfl

@[simp] theorem log_mapEffect (f : Effect → Other) (future : Future Effect Value) :
    (future.mapEffect f).log = future.log.map f := by
  induction future with
  | ready log value => rfl
  | pending log rest ih => simp [mapEffect, Future.log, ih]
  | panic log => rfl

@[simp] theorem value_silent (future : Future Empty Value) :
    (future.silent : Future Effect Value).value = future.value :=
  value_mapEffect Empty.elim future

@[simp] theorem log_silent (future : Future Empty Value) :
    (future.silent : Future Effect Value).log = [] := by
  rw [silent, log_mapEffect, List.map_eq_nil_iff, List.eq_nil_iff_forall_not_mem]
  exact fun effect => effect.elim

theorem firstLog_prefix (future : Future Effect Value) : future.firstLog <+: future.log := by
  cases future with
  | ready log value => exact List.prefix_refl log
  | pending log rest => exact List.prefix_append log rest.log
  | panic log => exact List.prefix_refl log

theorem firstLog_bind (next : Value → Future Effect Result) (future : Future Effect Value) :
    (future.bind next).firstLog =
      future.firstLog ++ (future.firstValue.map fun value => (next value).firstLog).getD [] := by
  cases future with
  | ready log value => exact firstLog_emit log (next value)
  | pending log rest => exact (List.append_nil log).symm
  | panic log => exact (List.append_nil log).symm

@[simp] theorem firstLog_silent (future : Future Empty Value) :
    (future.silent : Future Effect Value).firstLog = [] := by
  have isPrefix := firstLog_prefix (future.silent : Future Effect Value)
  rw [log_silent] at isPrefix
  exact List.prefix_nil.mp isPrefix

@[simp] theorem firstValue_silent (future : Future Empty Value) :
    (future.silent : Future Effect Value).firstValue = future.firstValue := by
  cases future <;> rfl

/-! `try_join!` of two futures: each round polls the ones still running in the order
written and returns the first error it meets, dropping the other future. -/

def tryJoin : Future Effect (Except Error Left) → Future Effect (Except Error Right) →
    Future Effect (Except Error (Left × Right))
  | .panic log, _ => .panic log
  | .ready log (.error error), _ => .ready log (.error error)
  | .ready log (.ok left), right => (right.map fun result => result.map fun right => (left, right)).emit log
  | .pending log _, .panic rightLog => .panic (log ++ rightLog)
  | .pending log _, .ready rightLog (.error error) => .ready (log ++ rightLog) (.error error)
  | .pending log leftRest, .ready rightLog (.ok right) =>
      .pending (log ++ rightLog) (leftRest.map fun result => result.map fun left => (left, right))
  | .pending log leftRest, .pending rightLog rightRest =>
      .pending (log ++ rightLog) (tryJoin leftRest rightRest)

theorem tryJoin_value {left : Future Effect (Except Error Left)}
    {right : Future Effect (Except Error Right)} {leftResult : Except Error Left}
    {rightResult : Except Error Right} (leftEnds : left.value = some leftResult)
    (rightEnds : right.value = some rightResult) :
    (∃ leftValue rightValue, leftResult = .ok leftValue ∧ rightResult = .ok rightValue ∧
      (tryJoin left right).value = some (.ok (leftValue, rightValue))) ∨
    ∃ error, (leftResult = .error error ∨ rightResult = .error error) ∧
      (tryJoin left right).value = some (.error error) := by
  induction left generalizing right with
  | panic log => simp [value] at leftEnds
  | ready log result =>
      simp only [value, Option.some.injEq] at leftEnds
      subst leftEnds
      cases result with
      | error error => exact Or.inr ⟨error, Or.inl rfl, rfl⟩
      | ok leftValue =>
          cases rightResult with
          | error error =>
              exact Or.inr ⟨error, Or.inr rfl, by simp [tryJoin, rightEnds, Except.map]⟩
          | ok rightValue =>
              exact Or.inl ⟨leftValue, rightValue, rfl, rfl, by simp [tryJoin, rightEnds, Except.map]⟩
  | pending log rest ih =>
      simp only [value] at leftEnds
      cases right with
      | panic rightLog => simp [value] at rightEnds
      | ready rightLog result =>
          simp only [value, Option.some.injEq] at rightEnds
          subst rightEnds
          cases result with
          | error error => exact Or.inr ⟨error, Or.inr rfl, rfl⟩
          | ok rightValue =>
              cases leftResult with
              | error error =>
                  exact Or.inr ⟨error, Or.inl rfl, by simp [tryJoin, value, leftEnds, Except.map]⟩
              | ok leftValue =>
                  exact Or.inl ⟨leftValue, rightValue, rfl, rfl,
                    by simp [tryJoin, value, leftEnds, Except.map]⟩
      | pending rightLog rightRest => exact ih leftEnds rightEnds

theorem exists_of_map_ok {f : Value → Result} {result : Except Error Value} {mapped : Result}
    (isMapped : result.map f = .ok mapped) : ∃ value, result = .ok value ∧ f value = mapped := by
  cases result with
  | error error => simp [Except.map] at isMapped
  | ok value => exact ⟨value, rfl, Except.ok.inj isMapped⟩

theorem tryJoin_value_ok {left : Future Effect (Except Error Left)}
    {right : Future Effect (Except Error Right)} {leftValue : Left} {rightValue : Right}
    (joined : (tryJoin left right).value = some (.ok (leftValue, rightValue))) :
    left.value = some (.ok leftValue) ∧ right.value = some (.ok rightValue) := by
  induction left generalizing right with
  | panic log => simp [tryJoin, value] at joined
  | ready log result =>
      cases result with
      | error error => simp [tryJoin, value] at joined
      | ok first =>
          simp only [tryJoin, value_emit, value_map, Option.map_eq_some_iff] at joined
          obtain ⟨result, ends, mapped⟩ := joined
          obtain ⟨second, rfl, isPair⟩ := exists_of_map_ok mapped
          obtain ⟨rfl, rfl⟩ := Prod.mk.inj isPair
          exact ⟨rfl, ends⟩
  | pending log rest ih =>
      cases right with
      | panic rightLog => simp [tryJoin, value] at joined
      | ready rightLog result =>
          cases result with
          | error error => simp [tryJoin, value] at joined
          | ok second =>
              simp only [tryJoin, value, value_map, Option.map_eq_some_iff] at joined
              obtain ⟨result, ends, mapped⟩ := joined
              obtain ⟨first, rfl, isPair⟩ := exists_of_map_ok mapped
              obtain ⟨rfl, rfl⟩ := Prod.mk.inj isPair
              exact ⟨ends, rfl⟩
      | pending rightLog rightRest =>
          have later : (tryJoin rest rightRest).value = some (.ok (leftValue, rightValue)) := joined
          have ends := ih later
          exact ends

theorem error_of_map_error {f : Value → Result} {result : Except Error Value} {error : Error}
    (isMapped : result.map f = .error error) : result = .error error := by
  cases result with
  | error first => exact congrArg Except.error (Except.error.inj isMapped)
  | ok value => simp [Except.map] at isMapped

theorem tryJoin_value_error {left : Future Effect (Except Error Left)}
    {right : Future Effect (Except Error Right)} {error : Error}
    (joined : (tryJoin left right).value = some (.error error)) :
    left.value = some (.error error) ∨ right.value = some (.error error) := by
  induction left generalizing right with
  | panic log => simp [tryJoin, value] at joined
  | ready log result =>
      cases result with
      | error first => exact Or.inl (by simpa [tryJoin, value] using joined)
      | ok leftValue =>
          simp only [tryJoin, value_emit, value_map, Option.map_eq_some_iff] at joined
          obtain ⟨result, ends, mapped⟩ := joined
          exact Or.inr (ends.trans (congrArg some (error_of_map_error mapped)))
  | pending log rest ih =>
      cases right with
      | panic rightLog => simp [tryJoin, value] at joined
      | ready rightLog result =>
          cases result with
          | error second => exact Or.inr (by simpa [tryJoin, value] using joined)
          | ok rightValue =>
              simp only [tryJoin, value, value_map, Option.map_eq_some_iff] at joined
              obtain ⟨result, ends, mapped⟩ := joined
              exact Or.inl (ends.trans (congrArg some (error_of_map_error mapped)))
      | pending rightLog rightRest =>
          have later : (tryJoin rest rightRest).value = some (.error error) := joined
          have ends := ih later
          exact ends

theorem mem_log_tryJoin {left : Future Effect (Except Error Left)}
    {right : Future Effect (Except Error Right)} {effect : Effect}
    (member : effect ∈ (tryJoin left right).log) : effect ∈ left.log ∨ effect ∈ right.log := by
  induction left generalizing right with
  | panic log => exact Or.inl member
  | ready log result =>
      cases result with
      | error error => exact Or.inl member
      | ok leftValue => simpa [tryJoin, Future.log] using member
  | pending log rest ih =>
      cases right with
      | panic rightLog =>
          simp only [tryJoin, Future.log, List.mem_append] at member ⊢
          tauto
      | ready rightLog result =>
          cases result <;>
            simp only [tryJoin, Future.log, log_map, List.mem_append] at member ⊢ <;> tauto
      | pending rightLog rightRest =>
          simp only [tryJoin, Future.log, List.mem_append] at member ⊢
          rcases member with (early | early) | late
          · exact Or.inl (Or.inl early)
          · exact Or.inr (Or.inl early)
          · exact (ih late).imp Or.inr Or.inr

theorem value_tryJoin_ok (left : Future Effect (Except Error Left)) (right : Right) :
    (tryJoin left (pure (.ok right))).value =
      left.value.map fun result => result.map fun left => (left, right) := by
  cases left with
  | panic log => rfl
  | ready log result => cases result <;> simp [tryJoin, value, Except.map]
  | pending log rest => simp [tryJoin, value, pure]

theorem value_tryJoin_error {left : Future Effect (Except Error Left)} {error : Error}
    {joined : Except Error (Left × Right)}
    (ends : (tryJoin left (pure (.error error) : Future Effect (Except Error Right))).value = some joined) :
    ∃ first, joined = .error first ∧ (first = error ∨ left.value = some (.error first)) := by
  cases left with
  | panic log => simp [tryJoin, value] at ends
  | ready log result =>
      cases result with
      | error first => exact ⟨first, (Option.some.inj ends).symm, Or.inr rfl⟩
      | ok leftValue =>
          simp only [tryJoin, value_emit, value_map, value_pure, Option.map_some, Option.some.injEq] at ends
          exact ⟨error, ends.symm, Or.inl rfl⟩
  | pending log rest => exact ⟨error, (Option.some.inj ends).symm, Or.inl rfl⟩

theorem log_tryJoin_ok (left : Future Effect (Except Error Left)) (right : Right) :
    (tryJoin left (pure (.ok right))).log = left.log := by
  cases left with
  | panic log => rfl
  | ready log result => cases result <;> simp [tryJoin, Future.log]
  | pending log rest => simp [tryJoin, Future.log, pure]

theorem log_tryJoin_error (left : Future Effect (Except Error Left)) (error : Error) :
    (tryJoin left (.ready [] (.error error) : Future Effect (Except Error Right))).log =
      left.firstLog := by
  cases left with
  | panic log => rfl
  | ready log result => cases result <;> simp [tryJoin, firstLog, Future.log, map, bind, emit, pure]
  | pending log rest => simp [tryJoin, firstLog, Future.log]

/-! Many futures at once, each of them completing when its own polls are done. -/

/-- `for_each_concurrent` without a limit: `schedule` gives the place, among the futures
still running, of each next poll. The values come in the order of completion. `none` is
a schedule that is not a complete run. -/
def forEachConcurrent : List Nat → List (Key × Future Effect Value) →
    Option (Future Effect (List (Key × Value)))
  | _, [] => some (pure [])
  | [], _ :: _ => none
  | place :: schedule, first :: others =>
      let running := first :: others
      match running[place]? with
      | none => none
      | some (key, .ready log value) =>
          (forEachConcurrent schedule (running.eraseIdx place)).map fun rest =>
            (rest.map fun completed => (key, value) :: completed).emit log
      | some (key, .pending log next) =>
          (forEachConcurrent schedule (running.set place (key, next))).map fun rest => rest.emit log
      | some (_, .panic log) => some (.panic log)

theorem perm_cons_eraseIdx {items : List Value} {place : Nat} {item : Value}
    (found : items[place]? = some item) : items.Perm (item :: items.eraseIdx place) := by
  induction items generalizing place with
  | nil => simp at found
  | cons first rest ih =>
      cases place with
      | zero =>
          have same : first = item := by simpa using found
          simp [same]
      | succ place =>
          have later := (ih (show rest[place]? = some item by simpa using found)).cons first
          exact later.trans (List.Perm.swap item first _)

theorem set_perm_cons_eraseIdx {items : List Value} {place : Nat} {item : Value} (other : Value)
    (found : items[place]? = some item) :
    (items.set place other).Perm (other :: items.eraseIdx place) := by
  have bound : place < items.length := (List.getElem?_eq_some_iff.mp found).1
  have replaced : (items.set place other)[place]? = some other := by simp [bound]
  have perm := perm_cons_eraseIdx replaced
  rwa [List.eraseIdx_set_eq] at perm

inductive CompleteRun : List (Key × Future Effect Value) → Future Effect (List (Key × Value)) → Prop
  | finish : CompleteRun [] (pure [])
  | ready {running : List (Key × Future Effect Value)} {place : Nat} {key log value rest} :
      running[place]? = some (key, .ready log value) → CompleteRun (running.eraseIdx place) rest →
      CompleteRun running ((rest.map fun completed => (key, value) :: completed).emit log)
  | pending {running : List (Key × Future Effect Value)} {place : Nat} {key log next rest} :
      running[place]? = some (key, .pending log next) → CompleteRun (running.set place (key, next)) rest →
      CompleteRun running (rest.emit log)
  | panic {running : List (Key × Future Effect Value)} {place : Nat} {key log} :
      running[place]? = some (key, .panic log) → CompleteRun running (.panic log)

theorem forEachConcurrent_complete {schedule : List Nat} {running : List (Key × Future Effect Value)}
    {run : Future Effect (List (Key × Value))} (complete : forEachConcurrent schedule running = some run) :
    CompleteRun running run := by
  induction schedule generalizing running run with
  | nil =>
      cases running with
      | nil => exact Option.some.inj complete ▸ CompleteRun.finish
      | cons first others => simp [forEachConcurrent] at complete
  | cons place schedule ih =>
      cases running with
      | nil => exact Option.some.inj complete ▸ CompleteRun.finish
      | cons first others =>
          simp only [forEachConcurrent] at complete
          split at complete
          · simp at complete
          · rename_i found
            obtain ⟨rest, isRest, rfl⟩ := Option.map_eq_some_iff.mp complete
            exact CompleteRun.ready found (ih isRest)
          · rename_i found
            obtain ⟨rest, isRest, rfl⟩ := Option.map_eq_some_iff.mp complete
            exact CompleteRun.pending found (ih isRest)
          · rename_i found
            exact Option.some.inj complete ▸ CompleteRun.panic found

def results (running : List (Key × Future Effect Value)) : List (Key × Option Value) :=
  running.map fun entry => (entry.1, entry.2.value)

/-- A complete run gives every key its own value once, in some order; it panics if
and only if one of the futures does. -/
theorem CompleteRun.value {running : List (Key × Future Effect Value)}
    {run : Future Effect (List (Key × Value))} (complete : CompleteRun running run) :
    (∃ completed, run.value = some completed ∧
      (results running).Perm (completed.map fun entry => (entry.1, some entry.2))) ∨
    (run.value = none ∧ ∃ entry ∈ running, entry.2.value = none) := by
  induction complete with
  | finish => exact Or.inl ⟨[], rfl, List.Perm.refl _⟩
  | @ready running place key log value rest found _ ih =>
      have perm := (perm_cons_eraseIdx found).map fun entry => (entry.1, entry.2.value)
      rcases ih with ⟨completed, ends, permRest⟩ | ⟨noValue, entry, member, isNone⟩
      · refine Or.inl ⟨(key, value) :: completed, by simp [ends], ?_⟩
        exact perm.trans (permRest.cons _)
      · exact Or.inr ⟨by simp [noValue], entry, List.mem_of_mem_eraseIdx member, isNone⟩
  | @pending running place key log next rest found _ ih =>
      have perm := (perm_cons_eraseIdx found).map fun entry => (entry.1, entry.2.value)
      have permSet := (set_perm_cons_eraseIdx (key, next) found).map fun entry => (entry.1, entry.2.value)
      rcases ih with ⟨completed, ends, permRest⟩ | ⟨noValue, entry, member, isNone⟩
      · exact Or.inl ⟨completed, by simp [ends], (perm.trans permSet.symm).trans permRest⟩
      · refine Or.inr ⟨by simp [noValue], ?_⟩
        rcases List.mem_or_eq_of_mem_set member with old | same
        · exact ⟨entry, old, isNone⟩
        · subst same
          exact ⟨_, List.mem_of_getElem? found, isNone⟩
  | panic found => exact Or.inr ⟨rfl, _, List.mem_of_getElem? found, rfl⟩

theorem CompleteRun.mem_log {running : List (Key × Future Effect Value)}
    {run : Future Effect (List (Key × Value))} (complete : CompleteRun running run) {effect : Effect}
    (member : effect ∈ run.log) : ∃ entry ∈ running, effect ∈ entry.2.log := by
  induction complete with
  | finish => simp at member
  | @ready running place key log value rest found _ ih =>
      rw [log_emit, log_map, List.mem_append] at member
      rcases member with now | later
      · exact ⟨_, List.mem_of_getElem? found, now⟩
      · obtain ⟨entry, isEntry, performs⟩ := ih later
        exact ⟨entry, List.mem_of_mem_eraseIdx isEntry, performs⟩
  | @pending running place key log next rest found _ ih =>
      have stands := List.mem_of_getElem? found
      rw [log_emit, List.mem_append] at member
      rcases member with now | later
      · exact ⟨_, stands, List.mem_append_left _ now⟩
      · obtain ⟨entry, isEntry, performs⟩ := ih later
        rcases List.mem_or_eq_of_mem_set isEntry with old | rfl
        · exact ⟨entry, old, performs⟩
        · exact ⟨_, stands, List.mem_append_right _ performs⟩
  | panic found => exact ⟨_, List.mem_of_getElem? found, member⟩

theorem CompleteRun.log_perm {running : List (Key × Future Effect Value)}
    {run : Future Effect (List (Key × Value))} (complete : CompleteRun running run)
    {completed : List (Key × Value)} (ends : run.value = some completed) :
    run.log.Perm (running.flatMap fun entry => entry.2.log) := by
  induction complete generalizing completed with
  | finish => exact List.Perm.refl _
  | @ready running place key log value rest found _ ih =>
      rw [value_emit, value_map, Option.map_eq_some_iff] at ends
      obtain ⟨later, restEnds, _⟩ := ends
      have whole := (perm_cons_eraseIdx found).flatMap_right fun entry => entry.2.log
      rw [log_emit, log_map]
      exact ((ih restEnds).append_left log).trans whole.symm
  | @pending running place key log next rest found _ ih =>
      rw [value_emit] at ends
      have whole := (perm_cons_eraseIdx found).flatMap_right fun entry => entry.2.log
      have replaced := (set_perm_cons_eraseIdx (key, next) found).flatMap_right fun entry => entry.2.log
      rw [List.flatMap_cons, Future.log, List.append_assoc] at whole
      rw [log_emit]
      exact (((ih ends).trans replaced).append_left log).trans whole.symm
  | panic found => simp [Future.value] at ends

/-! The order of completion, where the first polls come in the order of the futures. -/

/-- Whether each future is polled for the first time in its turn: `started` of those still
running have been polled. -/
def firstPollsInOrder : Nat → List Nat → List (Key × Future Effect Value) → Bool
  | _, _, [] => true
  | _, [], _ :: _ => true
  | started, place :: schedule, first :: others =>
      let running := first :: others
      decide (place ≤ started) &&
        match running[place]? with
        | none => true
        | some (_, .ready _ _) =>
            firstPollsInOrder (if place < started then started - 1 else started) schedule
              (running.eraseIdx place)
        | some (key, .pending _ next) =>
            firstPollsInOrder (if place < started then started else started + 1) schedule
              (running.set place (key, next))
        | some (_, .panic _) => true

theorem firstPollsInOrder_polled {polled waiting : List (Key × Future Effect Value)} {place : Nat}
    {schedule : List Nat} (before : place < polled.length)
    (inOrder : firstPollsInOrder polled.length (place :: schedule) (polled ++ waiting) = true) :
    (∀ key log value, polled[place]? = some (key, .ready log value) →
      firstPollsInOrder (polled.eraseIdx place).length schedule (polled.eraseIdx place ++ waiting) = true) ∧
    ∀ key log next, polled[place]? = some (key, .pending log next) →
      firstPollsInOrder (polled.set place (key, next)).length schedule
        (polled.set place (key, next) ++ waiting) = true := by
  obtain ⟨first, others, isRunning⟩ := List.exists_cons_of_ne_nil
    (List.append_ne_nil_of_left_ne_nil (List.ne_nil_of_length_pos (by omega : 0 < polled.length)) waiting)
  rw [isRunning, firstPollsInOrder, ← isRunning, List.getElem?_append_left before] at inOrder
  simp only [Bool.and_eq_true, before, if_true] at inOrder
  constructor
  · intro key log value found
    rw [List.length_eraseIdx_of_lt before, ← List.eraseIdx_append_of_lt_length before]
    simpa [found] using inOrder.2
  · intro key log next found
    rw [List.length_set, ← List.set_append_left place (key, next) before]
    simpa [found] using inOrder.2

theorem firstPollsInOrder_waiting {polled waiting : List (Key × Future Effect Value)}
    {first : Key × Future Effect Value} {schedule : List Nat}
    (inOrder : firstPollsInOrder polled.length (polled.length :: schedule) (polled ++ first :: waiting) = true) :
    (∀ key log value, first = (key, .ready log value) →
      firstPollsInOrder polled.length schedule (polled ++ waiting) = true) ∧
    ∀ key log next, first = (key, .pending log next) →
      firstPollsInOrder (polled ++ [(key, next)]).length schedule (polled ++ [(key, next)] ++ waiting) = true := by
  obtain ⟨head, others, isRunning⟩ := List.exists_cons_of_ne_nil
    (List.append_ne_nil_of_right_ne_nil polled (List.cons_ne_nil first waiting))
  rw [isRunning, firstPollsInOrder, ← isRunning] at inOrder
  simp only [Bool.and_eq_true, Nat.lt_irrefl, if_false] at inOrder
  have found : (polled ++ first :: waiting)[polled.length]? = some first := by simp
  have turn := inOrder.2
  constructor
  · rintro key log value rfl
    simpa [found, List.eraseIdx_append_of_length_le] using turn
  · rintro key log next rfl
    simpa [found, List.set_append_right] using turn

theorem completed_nil {schedule : List Nat} {run : Future Effect (List (Key × Value))}
    {completed : List (Key × Value)} (complete : forEachConcurrent schedule [] = some run)
    (ends : run.value = some completed) : completed = [] := by
  simp only [forEachConcurrent, Option.some.injEq] at complete
  rw [← complete, value_pure, Option.some.injEq] at ends
  exact ends.symm

theorem turn_of_inOrder {started place : Nat} {schedule : List Nat}
    {running : List (Key × Future Effect Value)} (nonempty : running ≠ [])
    (inOrder : firstPollsInOrder started (place :: schedule) running = true) : place ≤ started := by
  obtain ⟨first, others, rfl⟩ := List.exists_cons_of_ne_nil nonempty
  simp only [firstPollsInOrder, Bool.and_eq_true, decide_eq_true_eq] at inOrder
  exact inOrder.1

theorem completed_cons {place : Nat} {schedule : List Nat} {running : List (Key × Future Effect Value)}
    {run : Future Effect (List (Key × Value))} {completed : List (Key × Value)} (nonempty : running ≠ [])
    (complete : forEachConcurrent (place :: schedule) running = some run)
    (ends : run.value = some completed) :
    (∃ key log value rest later, running[place]? = some (key, .ready log value) ∧
      forEachConcurrent schedule (running.eraseIdx place) = some rest ∧ rest.value = some later ∧
      completed = (key, value) :: later) ∨
    ∃ key log next rest, running[place]? = some (key, .pending log next) ∧
      forEachConcurrent schedule (running.set place (key, next)) = some rest ∧
      rest.value = some completed := by
  obtain ⟨first, others, rfl⟩ := List.exists_cons_of_ne_nil nonempty
  simp only [forEachConcurrent] at complete
  split at complete
  · simp at complete
  · rename_i key log value found
    obtain ⟨rest, isRest, rfl⟩ := Option.map_eq_some_iff.mp complete
    simp only [value_emit, value_map, Option.map_eq_some_iff] at ends
    obtain ⟨later, restEnds, rfl⟩ := ends
    exact Or.inl ⟨key, log, value, rest, later, found, isRest, restEnds, rfl⟩
  · rename_i key log next found
    obtain ⟨rest, isRest, rfl⟩ := Option.map_eq_some_iff.mp complete
    exact Or.inr ⟨key, log, next, rest, found, isRest, by simpa using ends⟩
  · simp only [Option.some.injEq] at complete
    simp [← complete, Future.value] at ends

theorem completed_of_polled (atOnce : Key → Bool) {schedule : List Nat}
    {polled waiting : List (Key × Future Effect Value)} {run : Future Effect (List (Key × Value))}
    {completed : List (Key × Value)}
    (inOrder : firstPollsInOrder polled.length schedule (polled ++ waiting) = true)
    (complete : forEachConcurrent schedule (polled ++ waiting) = some run)
    (ends : run.value = some completed)
    (suspended : ∀ entry ∈ polled, atOnce entry.1 = false)
    (prompt : ∀ entry ∈ waiting, atOnce entry.1 = true → entry.2.firstValue ≠ none) :
    (completed.map Prod.fst).filter atOnce = (waiting.map Prod.fst).filter atOnce := by
  induction schedule generalizing polled waiting run completed with
  | nil =>
      cases isRunning : polled ++ waiting with
      | nil =>
          obtain ⟨_, rfl⟩ := List.append_eq_nil_iff.mp isRunning
          rw [completed_nil (isRunning ▸ complete) ends]
          rfl
      | cons first others => simp [isRunning, forEachConcurrent] at complete
  | cons place schedule ih =>
      by_cases isRunning : polled ++ waiting = []
      · obtain ⟨_, rfl⟩ := List.append_eq_nil_iff.mp isRunning
        rw [completed_nil (isRunning ▸ complete) ends]
        rfl
      · rcases Nat.lt_or_eq_of_le (turn_of_inOrder isRunning inOrder) with before | rfl
        · have later := firstPollsInOrder_polled before inOrder
          rcases completed_cons isRunning complete ends with
            ⟨key, log, value, rest, completed, found, isRest, restEnds, rfl⟩ |
            ⟨key, log, next, rest, found, isRest, restEnds⟩
          · rw [List.getElem?_append_left before] at found
            rw [List.eraseIdx_append_of_lt_length before] at isRest
            have notAtOnce := suspended _ (List.mem_of_getElem? found)
            have rest := ih (later.1 key log value found) isRest restEnds
              (fun entry member => suspended entry (List.mem_of_mem_eraseIdx member)) prompt
            simpa [notAtOnce] using rest
          · rw [List.getElem?_append_left before] at found
            rw [List.set_append_left place _ before] at isRest
            refine ih (later.2 key log next found) isRest restEnds ?_ prompt
            intro entry member
            rcases List.mem_or_eq_of_mem_set member with old | rfl
            · exact suspended entry old
            · exact suspended (key, .pending log next) (List.mem_of_getElem? found)
        · cases waiting with
          | nil =>
              rcases completed_cons isRunning complete ends with
                ⟨key, log, value, rest, completed, found, _⟩ | ⟨key, log, next, rest, found, _⟩
              · simp at found
              · simp at found
          | cons first waiting =>
              have later := firstPollsInOrder_waiting inOrder
              rcases completed_cons isRunning complete ends with
                ⟨key, log, value, rest, completed, found, isRest, restEnds, rfl⟩ |
                ⟨key, log, next, rest, found, isRest, restEnds⟩
              · obtain rfl : first = (key, .ready log value) := by simpa using found
                rw [List.eraseIdx_append_of_length_le (Nat.le_refl _), Nat.sub_self, List.eraseIdx_zero,
                  List.tail_cons] at isRest
                have rest := ih (later.1 key log value rfl) isRest restEnds suspended
                  (fun entry member => prompt entry (List.mem_cons_of_mem _ member))
                simp only [List.map_cons, List.filter_cons, rest]
              · obtain rfl : first = (key, .pending log next) := by simpa using found
                have notAtOnce : atOnce key = false := by
                  by_contra asked
                  exact prompt _ List.mem_cons_self (by simpa using asked) rfl
                rw [List.set_append_right _ _ (Nat.le_refl _), Nat.sub_self, List.set_cons_zero,
                  List.append_cons] at isRest
                have rest := ih (later.2 key log next rfl) isRest restEnds
                  (by simpa [or_imp, forall_and, notAtOnce] using suspended)
                  (fun entry member => prompt entry (List.mem_cons_of_mem _ member))
                simpa [notAtOnce] using rest

/-- Futures that are ready at their first poll complete in their own order, whatever the others do. -/
theorem completed_in_order (atOnce : Key → Bool) {schedule : List Nat}
    {futures : List (Key × Future Effect Value)} {run : Future Effect (List (Key × Value))}
    {completed : List (Key × Value)} (inOrder : firstPollsInOrder 0 schedule futures = true)
    (complete : forEachConcurrent schedule futures = some run) (ends : run.value = some completed)
    (prompt : ∀ entry ∈ futures, atOnce entry.1 = true → entry.2.firstValue ≠ none) :
    (completed.map Prod.fst).filter atOnce = (futures.map Prod.fst).filter atOnce := by
  have nothingPolled : ([] : List (Key × Future Effect Value)) ++ futures = futures := List.nil_append futures
  refine completed_of_polled atOnce ?_ (nothingPolled ▸ complete) ends (by simp) prompt
  simpa using inOrder

theorem exists_complete_in_order (started : Nat) (futures : List (Key × Future Effect Value)) :
    ∃ schedule run, firstPollsInOrder started schedule futures = true ∧
      forEachConcurrent schedule futures = some run := by
  induction futures generalizing started with
  | nil => exact ⟨[], pure [], rfl, rfl⟩
  | cons first others ih =>
      obtain ⟨key, future⟩ := first
      induction future generalizing started with
      | ready log value =>
          obtain ⟨schedule, run, inOrder, complete⟩ := ih (if 0 < started then started - 1 else started)
          exact ⟨0 :: schedule, (run.map fun completed => (key, value) :: completed).emit log,
            by simpa [firstPollsInOrder] using inOrder, by simp [forEachConcurrent, complete]⟩
      | pending log next ihNext =>
          obtain ⟨schedule, run, inOrder, complete⟩ := ihNext (if 0 < started then started else started + 1)
          exact ⟨0 :: schedule, run.emit log, by simpa [firstPollsInOrder] using inOrder,
            by simp [forEachConcurrent, complete]⟩
      | panic log => exact ⟨[0], .panic log, by simp [firstPollsInOrder], rfl⟩

end Future

end Polled
