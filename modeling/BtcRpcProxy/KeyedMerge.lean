import Mathlib.Data.List.Sort
import Mathlib.Data.List.Zip

/-!
Lists of keyed items: sorting by the key, merging two sorted lists, and the one list
these lead to when no key occurs twice. Nothing here depends on what the items are.
-/

namespace Keyed

variable {Item Other : Type}

/-- `sort_by_key`, a stable sort on a `Nat` key. -/
def sortByKey (items : List (Nat × Item)) : List (Nat × Item) :=
  items.insertionSort fun left right => left.1 ≤ right.1

def mergeItem (isFirst : Item → Item → Bool) (item : Item) (rest : List Item → List Item) :
    List Item → List Item
  | [] => item :: rest []
  | other :: others =>
      if isFirst item other then item :: rest (other :: others)
      else other :: mergeItem isFirst item rest others

/-- `merge_by`: the head of the left list comes first where `isFirst` holds of the two heads. -/
def mergeBy (isFirst : Item → Item → Bool) : List Item → List Item → List Item
  | [], right => right
  | item :: left, right => mergeItem isFirst item (mergeBy isFirst left) right

def keyBefore (left right : Nat × Item) : Bool := decide (left.1 < right.1)

theorem mergeBy_perm (isFirst : Item → Item → Bool) (left right : List Item) :
    (mergeBy isFirst left right).Perm (left ++ right) := by
  induction left generalizing right with
  | nil => exact List.Perm.refl right
  | cons item left ih =>
      simp only [mergeBy]
      induction right with
      | nil => exact (ih []).cons item
      | cons other others inner =>
          simp only [mergeItem]
          split
          · exact (ih (other :: others)).cons item
          · have moved : (item :: left ++ other :: others).Perm (other :: (item :: left ++ others)) :=
              List.perm_middle
            exact (inner.cons other).trans moved.symm

theorem bound_of_mergeBy {left right : List (Nat × Item)} {bound : Nat}
    (leftBound : ∀ item ∈ left, bound ≤ item.1) (rightBound : ∀ item ∈ right, bound ≤ item.1) :
    ∀ item ∈ mergeBy keyBefore left right, bound ≤ item.1 := by
  intro item member
  rcases List.mem_append.mp ((mergeBy_perm keyBefore left right).mem_iff.mp member) with inLeft | inRight
  · exact leftBound item inLeft
  · exact rightBound item inRight

theorem mergeBy_sorted {left right : List (Nat × Item)}
    (leftSorted : left.Pairwise fun first second => first.1 ≤ second.1)
    (rightSorted : right.Pairwise fun first second => first.1 ≤ second.1) :
    (mergeBy keyBefore left right).Pairwise fun first second => first.1 ≤ second.1 := by
  induction left generalizing right with
  | nil => exact rightSorted
  | cons item left ih =>
      have leftParts := List.pairwise_cons.mp leftSorted
      simp only [mergeBy]
      induction right with
      | nil =>
          refine List.pairwise_cons.mpr ⟨?_, ih leftParts.2 List.Pairwise.nil⟩
          exact bound_of_mergeBy leftParts.1 (by simp)
      | cons other others inner =>
          have rightParts := List.pairwise_cons.mp rightSorted
          simp only [mergeItem]
          split
          · rename_i before
            have less : item.1 < other.1 := by simpa [keyBefore] using before
            refine List.pairwise_cons.mpr ⟨?_, ih leftParts.2 rightSorted⟩
            refine bound_of_mergeBy leftParts.1 (List.forall_mem_cons.mpr ⟨Nat.le_of_lt less, ?_⟩)
            exact fun later member => Nat.le_trans (Nat.le_of_lt less) (rightParts.1 later member)
          · rename_i notBefore
            have notLess : other.1 ≤ item.1 := by simpa [keyBefore] using notBefore
            have leftBound : ∀ later ∈ item :: left, other.1 ≤ later.1 :=
              List.forall_mem_cons.mpr
                ⟨notLess, fun later member => Nat.le_trans notLess (leftParts.1 later member)⟩
            exact List.pairwise_cons.mpr ⟨bound_of_mergeBy leftBound rightParts.1, inner rightParts.2⟩

theorem sortByKey_perm (items : List (Nat × Item)) : (sortByKey items).Perm items :=
  List.perm_insertionSort _ items

theorem sortByKey_sorted (items : List (Nat × Item)) :
    (sortByKey items).Pairwise fun first second => first.1 ≤ second.1 := by
  have total : Std.Total fun (first second : Nat × Item) => first.1 ≤ second.1 :=
    ⟨fun first second => Nat.le_total first.1 second.1⟩
  have trans : IsTrans (Nat × Item) fun first second => first.1 ≤ second.1 :=
    ⟨fun _ _ _ => Nat.le_trans⟩
  exact List.pairwise_insertionSort _ items

theorem mergeBy_sortByKey_perm (left right : List (Nat × Item)) :
    (mergeBy keyBefore (sortByKey left) (sortByKey right)).Perm (left ++ right) :=
  (mergeBy_perm keyBefore _ _).trans ((sortByKey_perm left).append (sortByKey_perm right))

theorem mergeBy_sortByKey_sorted (left right : List (Nat × Item)) :
    (mergeBy keyBefore (sortByKey left) (sortByKey right)).Pairwise fun first second =>
      first.1 ≤ second.1 :=
  mergeBy_sorted (sortByKey_sorted left) (sortByKey_sorted right)

/-- A list in strict order of its keys is what sorting and merging any two lists with
its items gives. -/
theorem mergeBy_sortByKey_eq {left right target : List (Nat × Item)}
    (ordered : target.Pairwise fun first second => first.1 < second.1)
    (perm : (left ++ right).Perm target) :
    mergeBy keyBefore (sortByKey left) (sortByKey right) = target := by
  have permTarget := (mergeBy_sortByKey_perm left right).trans perm
  refine List.Perm.eq_of_pairwise ?_ (mergeBy_sortByKey_sorted left right) (ordered.imp Nat.le_of_lt)
    permTarget
  intro first second firstMember secondMember below above
  have sameKey : first.1 = second.1 := Nat.le_antisymm below above
  have distinct : (target.map Prod.fst).Nodup := by
    rw [List.nodup_iff_pairwise_ne, List.pairwise_map]
    exact ordered.imp Nat.ne_of_lt
  exact List.inj_on_of_nodup_map distinct (permTarget.mem_iff.mp firstMember) secondMember sameKey

theorem map_snd_zip_eq_take {keys : List Nat} {values : List Item} (enough : keys.length ≤ values.length) :
    (keys.zip values).map Prod.snd = values.take keys.length := by
  have cut := @List.zip_eq_zip_take_min _ _ keys values
  rw [Nat.min_eq_left enough, List.take_length] at cut
  rw [cut]
  exact List.map_snd_zip (by simp)

theorem mergeBy_sortByKey_keys {left right : List (Nat × Item)} {keys : List Nat}
    (ordered : keys.Pairwise (· < ·)) (perm : ((left ++ right).map Prod.fst).Perm keys) :
    (mergeBy keyBefore (sortByKey left) (sortByKey right)).map Prod.fst = keys := by
  have sorted := List.pairwise_map.mpr (mergeBy_sortByKey_sorted left right)
  refine List.Perm.eq_of_pairwise ?_ sorted (ordered.imp Nat.le_of_lt)
    (((mergeBy_sortByKey_perm left right).map Prod.fst).trans perm)
  intro first second _ _ below above
  exact Nat.le_antisymm below above

theorem sortByKey_eq_of_perm {items others : List (Nat × Item)} (distinct : (items.map Prod.fst).Nodup)
    (perm : items.Perm others) : sortByKey items = sortByKey others := by
  refine List.Perm.eq_of_pairwise ?_ (sortByKey_sorted items) (sortByKey_sorted others)
    ((sortByKey_perm items).trans (perm.trans (sortByKey_perm others).symm))
  intro first second isFirst isSecond below above
  have inItems := perm.mem_iff.mpr ((sortByKey_perm others).mem_iff.mp isSecond)
  exact List.inj_on_of_nodup_map distinct ((sortByKey_perm items).mem_iff.mp isFirst) inItems
    (Nat.le_antisymm below above)

theorem sortByKey_map (f : Item → Other) (items : List (Nat × Item)) :
    sortByKey (items.map (Prod.map id f)) = (sortByKey items).map (Prod.map id f) :=
  (List.map_insertionSort _ _ (Prod.map id f) items fun _ _ _ _ => Iff.rfl).symm

theorem mergeBy_map (f : Item → Other) (left right : List (Nat × Item)) :
    mergeBy keyBefore (left.map (Prod.map id f)) (right.map (Prod.map id f)) =
      (mergeBy keyBefore left right).map (Prod.map id f) := by
  induction left generalizing right with
  | nil => rfl
  | cons item left ih =>
      simp only [List.map_cons, mergeBy]
      induction right with
      | nil => simpa [mergeItem] using ih []
      | cons other others inner =>
          have sameTest : keyBefore (Prod.map id f item) (Prod.map id f other) = keyBefore item other := rfl
          simp only [List.map_cons, mergeItem, sameTest]
          split
          · simpa using ih (other :: others)
          · simpa using inner

theorem filterMap_cons_toList (select : Item → Option Other) (item : Item) (items : List Item) :
    (item :: items).filterMap select = (select item).toList ++ items.filterMap select := by
  cases chosen : select item <;> simp [chosen]

theorem filterMap_append_perm (select : Item → Option Other) {first second : Item → Option Other}
    (items : List Item)
    (splits : ∀ item ∈ items, (first item = select item ∧ second item = none) ∨
      (first item = none ∧ second item = select item)) :
    (items.filterMap first ++ items.filterMap second).Perm (items.filterMap select) := by
  induction items with
  | nil => exact List.Perm.nil
  | cons item items ih =>
      have rest := ih fun other member => splits other (List.mem_cons_of_mem item member)
      rw [filterMap_cons_toList first, filterMap_cons_toList second, filterMap_cons_toList select,
        List.append_assoc]
      rcases splits item List.mem_cons_self with ⟨taken, left⟩ | ⟨left, taken⟩
      · rw [taken, left]
        exact rest.append_left _
      · rw [taken, left, Option.toList_none, List.nil_append]
        exact (List.perm_append_comm_assoc _ _ _).trans (rest.append_left _)

theorem exists_map_eq [Inhabited Item] {keys : List Nat} (distinct : keys.Nodup) (values : List Item)
    (sameLength : keys.length = values.length) : ∃ valueOf : Nat → Item, keys.map valueOf = values := by
  induction keys generalizing values with
  | nil => exact ⟨fun _ => default, (List.length_eq_zero_iff.mp sameLength.symm).symm⟩
  | cons key keys ih =>
      obtain ⟨notMember, distinctRest⟩ := List.nodup_cons.mp distinct
      cases values with
      | nil => simp at sameLength
      | cons value values =>
          obtain ⟨valueOf, isMap⟩ := ih distinctRest values (by simpa using sameLength)
          refine ⟨fun other => if other = key then value else valueOf other, ?_⟩
          have unchanged : keys.map (fun other => if other = key then value else valueOf other) =
              keys.map valueOf := by
            refine List.map_congr_left fun other member => ?_
            have isOther : other ≠ key := fun same => notMember (same ▸ member)
            simp [isOther]
          simp [unchanged, isMap]

end Keyed
