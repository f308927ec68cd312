import BtcRpcProxy.PolledFuture
import Mathlib.Data.List.Forall2

/-!
Two futures side by side: they perform the same effects, poll by poll, and end in related values.
Sequencing, `try_join!` and the concurrent completion of many keep the relation.
-/

namespace Polled.Future

variable {Effect Other Value Value' Result Result' Left Right Error Key : Type}

inductive Related (same : Value → Value' → Prop) : Future Effect Value → Future Effect Value' → Prop
  | ready {log : List Effect} {value : Value} {value' : Value'} :
      same value value' → Related same (.ready log value) (.ready log value')
  | pending {log : List Effect} {rest : Future Effect Value} {rest' : Future Effect Value'} :
      Related same rest rest' → Related same (.pending log rest) (.pending log rest')
  | panic {log : List Effect} : Related same (.panic log) (.panic log)

/-- Two results with one value, or with errors that look the same. -/
inductive Agree (sameError : Error → Error → Prop) : Except Error Value → Except Error Value → Prop
  | ok {value : Value} : Agree sameError (.ok value) (.ok value)
  | error {error error' : Error} : sameError error error' → Agree sameError (.error error) (.error error')

section

variable {same : Value → Value' → Prop} {future : Future Effect Value} {future' : Future Effect Value'}

theorem related_pure {value : Value} {value' : Value'} (isSame : same value value') :
    Related same (pure value : Future Effect Value) (pure value') :=
  Related.ready isSame

theorem related_refl {same : Value → Value → Prop} (isRefl : ∀ value, same value value)
    (future : Future Effect Value) : Related same future future := by
  induction future with
  | ready log value => exact Related.ready (isRefl value)
  | pending log rest ih => exact Related.pending ih
  | panic log => exact Related.panic

theorem related_self (future : Future Effect Value) :
    Related (fun value value' => value = value' ∧ future.value = some value) future future := by
  induction future with
  | ready log value => exact Related.ready ⟨rfl, rfl⟩
  | pending log rest ih => exact Related.pending ih
  | panic log => exact Related.panic

theorem related_emit (effects : List Effect) (related : Related same future future') :
    Related same (future.emit effects) (future'.emit effects) := by
  cases related with
  | ready isSame => exact Related.ready isSame
  | pending rests => exact Related.pending rests
  | panic => exact Related.panic

theorem related_bind {sameResult : Result → Result' → Prop} {next : Value → Future Effect Result}
    {next' : Value' → Future Effect Result'} (related : Related same future future')
    (later : ∀ value value', same value value' → Related sameResult (next value) (next' value')) :
    Related sameResult (future.bind next) (future'.bind next') := by
  induction related with
  | ready isSame => exact related_emit _ (later _ _ isSame)
  | pending _ ih => exact Related.pending ih
  | panic => exact Related.panic

theorem related_map {sameResult : Result → Result' → Prop} {f : Value → Result} {f' : Value' → Result'}
    (related : Related same future future')
    (later : ∀ value value', same value value' → sameResult (f value) (f' value')) :
    Related sameResult (future.map f) (future'.map f') :=
  related_bind related fun value value' isSame => related_pure (later value value' isSame)

theorem related_map_right {sameMapped : Value → Result → Prop} {f : Value' → Result}
    (related : Related same future future') (later : ∀ value value', same value value' → sameMapped value (f value')) :
    Related sameMapped future (future'.map f) := by
  induction related with
  | ready isSame => simpa [map, bind, pure, emit] using Related.ready (later _ _ isSame)
  | pending _ ih => exact Related.pending ih
  | panic => exact Related.panic

/-- One future, and two ways to go on from the value it does end with. -/
theorem related_after {sameResult : Result → Result' → Prop} {future : Future Effect Value}
    {next : Value → Future Effect Result} {next' : Value → Future Effect Result'}
    (later : ∀ value, future.value = some value → Related sameResult (next value) (next' value)) :
    Related sameResult (future.bind next) (future.bind next') := by
  refine related_bind (related_self future) ?_
  rintro value _ ⟨rfl, ends⟩
  exact later value ends

theorem related_mapEffect (f : Effect → Other) (related : Related same future future') :
    Related same (future.mapEffect f) (future'.mapEffect f) := by
  induction related with
  | ready isSame => exact Related.ready isSame
  | pending _ ih => exact Related.pending ih
  | panic => exact Related.panic

theorem related_value (related : Related same future future') :
    Option.Rel same future.value future'.value := by
  induction related with
  | ready isSame => exact Option.Rel.some isSame
  | pending _ ih => exact ih
  | panic => exact Option.Rel.none

end

theorem eq_of_related {future future' : Future Effect Value} (related : Related Eq future future') :
    future = future' := by
  induction related with
  | ready isSame => rw [isSame]
  | pending _ ih => rw [ih]
  | panic => rfl

/-! `try_join!`. -/

theorem agree_map {sameError : Error → Error → Prop} {result result' : Except Error Value}
    (f : Value → Result) (agree : Agree sameError result result') :
    Agree sameError (result.map f) (result'.map f) := by
  cases agree with
  | ok => exact Agree.ok
  | error isSame => exact Agree.error isSame

theorem related_tryJoin {sameError : Error → Error → Prop}
    {left left' : Future Effect (Except Error Left)} {right right' : Future Effect (Except Error Right)}
    (lefts : Related (Agree sameError) left left') (rights : Related (Agree sameError) right right') :
    Related (Agree sameError) (tryJoin left right) (tryJoin left' right') := by
  induction lefts generalizing right right' with
  | panic => exact Related.panic
  | ready agree =>
      cases agree with
      | error isSame => exact Related.ready (Agree.error isSame)
      | ok => exact related_emit _ (related_map rights fun _ _ => agree_map _)
  | pending rests ih =>
      cases rights with
      | panic => exact Related.panic
      | pending rightRests => exact Related.pending (ih rightRests)
      | ready agree =>
          cases agree with
          | error isSame => exact Related.ready (Agree.error isSame)
          | ok => exact Related.pending (related_map rests fun _ _ => agree_map _)

/-! Many futures at once. -/

/-- Entries of one key, whose values are related as that key has it. -/
def SameEntry (same : Key → Value → Value' → Prop) (entry : Key × Value) (entry' : Key × Value') : Prop :=
  entry.1 = entry'.1 ∧ same entry.1 entry.2 entry'.2

def RelatedEntry (same : Key → Value → Value' → Prop) (entry : Key × Future Effect Value)
    (entry' : Key × Future Effect Value') : Prop :=
  entry.1 = entry'.1 ∧ Related (same entry.1) entry.2 entry'.2

section

variable {Item Item' Mapped Mapped' : Type} {related : Item → Item' → Prop}
variable {items : List Item} {items' : List Item'}

theorem optionRel_map {mapped : Mapped → Mapped' → Prop} {item : Option Item} {item' : Option Item'}
    {f : Item → Mapped} {f' : Item' → Mapped'} (isRelated : Option.Rel related item item')
    (later : ∀ item item', related item item' → mapped (f item) (f' item')) :
    Option.Rel mapped (item.map f) (item'.map f') := by
  cases isRelated with
  | none => exact Option.Rel.none
  | some isRelated => exact Option.Rel.some (later _ _ isRelated)

theorem forall₂_getElem? (all : List.Forall₂ related items items') (place : Nat) :
    Option.Rel related items[place]? items'[place]? := by
  induction all generalizing place with
  | nil => exact Option.Rel.none
  | cons head tail ih =>
      cases place with
      | zero => exact Option.Rel.some head
      | succ place => exact ih place

theorem forall₂_eraseIdx (all : List.Forall₂ related items items') (place : Nat) :
    List.Forall₂ related (items.eraseIdx place) (items'.eraseIdx place) := by
  induction all generalizing place with
  | nil => exact List.Forall₂.nil
  | cons head tail ih =>
      cases place with
      | zero => exact tail
      | succ place => exact List.Forall₂.cons head (ih place)

theorem forall₂_set {item : Item} {item' : Item'} (all : List.Forall₂ related items items') (place : Nat)
    (isRelated : related item item') :
    List.Forall₂ related (items.set place item) (items'.set place item') := by
  induction all generalizing place with
  | nil => exact List.Forall₂.nil
  | cons head tail ih =>
      cases place with
      | zero => exact List.Forall₂.cons isRelated tail
      | succ place => exact List.Forall₂.cons head (ih place)

end

/-- Under one schedule the two lists complete in the same order. -/
theorem related_forEachConcurrent {same : Key → Value → Value' → Prop} {schedule : List Nat}
    {running : List (Key × Future Effect Value)} {running' : List (Key × Future Effect Value')}
    (all : List.Forall₂ (RelatedEntry same) running running') :
    Option.Rel (Related (List.Forall₂ (SameEntry same)))
      (forEachConcurrent schedule running) (forEachConcurrent schedule running') := by
  induction schedule generalizing running running' with
  | nil =>
      cases all with
      | nil => exact Option.Rel.some (related_pure List.Forall₂.nil)
      | cons head tail => exact Option.Rel.none
  | cons place schedule ih =>
      cases all with
      | nil => exact Option.Rel.some (related_pure List.Forall₂.nil)
      | @cons first first' others others' head tail =>
          have all := List.Forall₂.cons head tail
          have turn := forall₂_getElem? all place
          simp only [forEachConcurrent]
          generalize (first :: others)[place]? = found at turn
          generalize (first' :: others')[place]? = found' at turn
          cases turn with
          | none => exact Option.Rel.none
          | @some entry entry' isEntry =>
              obtain ⟨key, future⟩ := entry
              obtain ⟨key', future'⟩ := entry'
              obtain ⟨isKey, isRelated⟩ := isEntry
              obtain rfl : key = key' := isKey
              cases isRelated with
              | ready isSame =>
                  refine optionRel_map (ih (forall₂_eraseIdx all place)) fun _ _ rests => ?_
                  refine related_emit _ (related_map rests fun _ _ later => ?_)
                  exact List.Forall₂.cons ⟨rfl, isSame⟩ later
              | pending nexts =>
                  refine optionRel_map (ih (forall₂_set all place ⟨rfl, nexts⟩)) fun _ _ rests => ?_
                  exact related_emit _ rests
              | panic => exact Option.Rel.some Related.panic

end Polled.Future
