import Mathlib.Data.List.Basic

/-!
Encodings that say where they end: with anything after them, two codes are the same only where they
say the same of their items and the same follows. Such encodings can be put one after the other,
and a number of them after their count.
-/

namespace SelfDelimiting

variable {Item Other View Coarse Code First Second : Type}

/-- `view` is what the code of an item says of it, `valid` are the items that are encoded. -/
def Reads (encode : Item → List Code) (view : Item → View) (valid : Item → Prop) : Prop :=
  ∀ first second, valid first → valid second → ∀ left right,
    encode first ++ left = encode second ++ right → view first = view second ∧ left = right

theorem Reads.view_eq {encode : Item → List Code} {view : Item → View} {valid : Item → Prop}
    (reads : Reads encode view valid) {first second : Item} (firstValid : valid first)
    (secondValid : valid second) (same : encode first = encode second) : view first = view second :=
  (reads first second firstValid secondValid [] [] (by rw [same])).1

theorem reads_of_length {encode : Item → List Code} {view : Item → View} {valid : Item → Prop}
    (length : Nat) (hasLength : ∀ item, (encode item).length = length)
    (determines : ∀ first second, valid first → valid second → encode first = encode second →
      view first = view second) : Reads encode view valid := by
  intro first second firstValid secondValid left right same
  obtain ⟨sameCode, sameRest⟩ := List.append_inj same (by rw [hasLength, hasLength])
  exact ⟨determines first second firstValid secondValid sameCode, sameRest⟩

theorem Reads.append {first second : Item → List Code} {firstView : Item → First}
    {secondView : Item → Second} {firstValid secondValid : Item → Prop}
    (reads : Reads first firstView firstValid) (next : Reads second secondView secondValid) :
    Reads (fun item => first item ++ second item) (fun item => (firstView item, secondView item))
      fun item => firstValid item ∧ secondValid item := by
  intro item other itemValid otherValid left right same
  rw [List.append_assoc, List.append_assoc] at same
  obtain ⟨sameFirst, rest⟩ := reads item other itemValid.1 otherValid.1 _ _ same
  obtain ⟨sameSecond, sameRest⟩ := next item other itemValid.2 otherValid.2 _ _ rest
  exact ⟨Prod.ext sameFirst sameSecond, sameRest⟩

theorem Reads.comap {encode : Item → List Code} {view : Item → View} {valid : Item → Prop}
    (reads : Reads encode view valid) (part : Other → Item) :
    Reads (fun other => encode (part other)) (fun other => view (part other))
      fun other => valid (part other) :=
  fun first second => reads (part first) (part second)

/-- A view that the code determines by way of another one, of fewer items. -/
theorem Reads.mono {encode : Item → List Code} {view : Item → View} {coarse : Item → Coarse}
    {valid fewer : Item → Prop} (reads : Reads encode view valid) (isValid : ∀ item, fewer item → valid item)
    (determines : ∀ first second, fewer first → fewer second → view first = view second →
      coarse first = coarse second) : Reads encode coarse fewer := by
  intro first second firstFewer secondFewer left right same
  obtain ⟨sameView, sameRest⟩ :=
    reads first second (isValid first firstFewer) (isValid second secondFewer) left right same
  exact ⟨determines first second firstFewer secondFewer sameView, sameRest⟩

theorem Reads.flatten {encode : Item → List Code} {view : Item → View} {valid : Item → Prop}
    (reads : Reads encode view valid) {first second : List Item} (sameLength : first.length = second.length)
    (firstValid : ∀ item ∈ first, valid item) (secondValid : ∀ item ∈ second, valid item)
    {left right : List Code}
    (same : (first.map encode).flatten ++ left = (second.map encode).flatten ++ right) :
    first.map view = second.map view ∧ left = right := by
  induction first generalizing second with
  | nil =>
      obtain rfl := List.length_eq_zero_iff.mp sameLength.symm
      exact ⟨rfl, same⟩
  | cons item rest ih =>
      obtain ⟨other, others, rfl⟩ := List.exists_cons_of_length_eq_add_one sameLength.symm
      rw [List.forall_mem_cons] at firstValid secondValid
      simp only [List.map_cons, List.flatten_cons, List.append_assoc] at same
      obtain ⟨sameItem, later⟩ := reads item other firstValid.1 secondValid.1 _ _ same
      obtain ⟨sameRest, sameAfter⟩ :=
        ih (by simpa using sameLength) firstValid.2 secondValid.2 later
      exact ⟨by rw [List.map_cons, List.map_cons, sameItem, sameRest], sameAfter⟩

theorem Reads.counted {count : Nat → List Code} {counts : Nat → Prop} {encode : Item → List Code}
    {view : Item → View} {valid : Item → Prop} (countReads : Reads count id counts)
    (reads : Reads encode view valid) :
    Reads (fun items : List Item => count items.length ++ (items.map encode).flatten) (List.map view)
      fun items => counts items.length ∧ ∀ item ∈ items, valid item := by
  intro first second firstValid secondValid left right same
  rw [List.append_assoc, List.append_assoc] at same
  obtain ⟨sameLength, later⟩ := countReads _ _ firstValid.1 secondValid.1 _ _ same
  exact reads.flatten sameLength firstValid.2 secondValid.2 later

end SelfDelimiting
