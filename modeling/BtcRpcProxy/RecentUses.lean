import BtcRpcProxy.LeastRecentlyUsed

/-!
How long an entry stays in a cache with a bound on the total weight: until the entries used since its own
last use leave no room for it. What was used before it makes no difference.
-/

namespace LeastRecentlyUsed

variable {Key Value : Type*} [DecidableEq Key] {weight : Value → Nat} {bound : Nat}

/-! Uses, of which the first of a key counts. -/

def addUse (used : List (Key × Value)) (entry : Key × Value) : List (Key × Value) :=
  if entry.1 ∈ used.map Prod.fst then used else used ++ [entry]

def firstUses (uses : List (Key × Value)) : List (Key × Value) := uses.foldl addUse []

theorem addUse_of_mem {used : List (Key × Value)} {entry : Key × Value} (member : entry.1 ∈ used.map Prod.fst) :
    addUse used entry = used := if_pos member

theorem addUse_of_not_mem {used : List (Key × Value)} {entry : Key × Value}
    (fresh : entry.1 ∉ used.map Prod.fst) : addUse used entry = used ++ [entry] := if_neg fresh

theorem total_le_addUse (used : List (Key × Value)) (entry : Key × Value) :
    total weight used ≤ total weight (addUse used entry) := by
  unfold addUse
  split
  · exact Nat.le_refl _
  · rw [total_append]
    exact Nat.le_add_right _ _

/-! What an insert keeps. -/

omit [DecidableEq Key] in
theorem trim_append_of_light (before : List (Key × Value)) {suffix : List (Key × Value)}
    (light : total weight suffix ≤ bound) :
    ∃ kept, kept <:+ before ∧ trim weight bound (before ++ suffix) = kept ++ suffix := by
  induction before with
  | nil =>
      refine ⟨[], List.suffix_rfl, ?_⟩
      cases suffix with
      | nil => exact trim_nil
      | cons entry rest => rw [List.nil_append, trim_cons, if_neg (Nat.not_lt.mpr light)]
  | cons entry before ih =>
      rw [List.cons_append, trim_cons]
      split
      · obtain ⟨kept, isSuffix, trimmed⟩ := ih
        exact ⟨kept, isSuffix.trans (List.suffix_cons entry before), trimmed⟩
      · exact ⟨entry :: before, List.suffix_rfl, rfl⟩

omit [DecidableEq Key] in
theorem trim_append_of_heavy (before : List (Key × Value)) {entry : Key × Value} {rest : List (Key × Value)}
    (heavy : bound < total weight (entry :: rest)) :
    trim weight bound (before ++ entry :: rest) = trim weight bound rest := by
  induction before with
  | nil => rw [List.nil_append, trim_cons, if_pos heavy]
  | cons first before ih =>
      have heavier : bound < total weight (first :: (before ++ entry :: rest)) := by
        rw [total_cons, total_append]
        omega
      rw [List.cons_append, trim_cons, if_pos heavier, ih]

/-! An entry, and the uses since its last one. -/

/-- Either the entry is held, and what was used since stands after it, or this left it no room. -/
inductive Recent (weight : Value → Nat) (bound : Nat) (key : Key) (value : Value)
    (used entries : List (Key × Value)) : Prop
  | held {before after : List (Key × Value)} : entries = before ++ (key, value) :: after →
      after.Perm used → Recent weight bound key value used entries
  | gone : entries.lookup key = none → bound < weight value + total weight used →
      Recent weight bound key value used entries

variable {key other : Key} {value : Value} {used entries : List (Key × Value)}

omit [DecidableEq Key] in
theorem not_mem_of_distinct {before after : List (Key × Value)}
    (distinct : ((before ++ (key, value) :: after).map Prod.fst).Nodup) :
    key ∉ before.map Prod.fst ∧ key ∉ after.map Prod.fst ∧
      ∀ other ∈ before.map Prod.fst, other ∉ after.map Prod.fst := by
  simp only [List.map_append, List.map_cons, List.nodup_append, List.nodup_cons] at distinct
  obtain ⟨_, ⟨notAfter, _⟩, apart⟩ := distinct
  refine ⟨?_, notAfter, ?_⟩
  · exact fun member => apart key member key List.mem_cons_self rfl
  · exact fun other member later => apart other member other (List.mem_cons_of_mem _ later) rfl

theorem lookup_eq_none_iff_not_mem : entries.lookup key = none ↔ key ∉ entries.map Prod.fst := by
  rw [List.lookup_eq_none_iff, List.mem_map]
  constructor
  · rintro different ⟨entry, member, rfl⟩
    simpa using different entry member
  · intro missing entry member
    rw [bne_iff_ne]
    rintro rfl
    exact missing ⟨entry, member, rfl⟩

theorem mem_of_lookup (found : entries.lookup key = some value) : key ∈ entries.map Prod.fst := by
  obtain ⟨before, after, split, _⟩ := split_of_lookup found
  simp [split]

theorem Recent.use (different : other ≠ key) (recent : Recent weight bound key value used entries)
    (distinct : (entries.map Prod.fst).Nodup) {found : Value} (isFound : entries.lookup other = some found) :
    Recent weight bound key value (addUse used (other, found)) (LeastRecentlyUsed.get other entries).2 := by
  cases recent with
  | gone missing heavy =>
      refine .gone ?_ (Nat.lt_of_lt_of_le heavy (Nat.add_le_add_left (total_le_addUse _ _) _))
      rw [lookup_eq_of_perm distinct (get_perm other entries), missing]
  | @held before after split perm =>
      subst split
      obtain ⟨_, _, apart⟩ := not_mem_of_distinct distinct
      rw [get_of_lookup isFound]
      cases inBefore : before.lookup other with
      | some earlier =>
          -- It moves past the entry.
          rw [List.lookup_append, inBefore, Option.some_or, Option.some.injEq] at isFound
          subst isFound
          have notAfter : other ∉ after.map Prod.fst := apart other (mem_of_lookup inBefore)
          have fresh : other ∉ used.map Prod.fst := fun member =>
            notAfter ((perm.map Prod.fst).mem_iff.mpr member)
          obtain ⟨first, second, isBefore, _, erased⟩ := split_of_lookup inBefore
          have removed : ((before ++ (key, value) :: after).eraseP fun entry => entry.1 = other) =
              (first ++ second) ++ (key, value) :: after := by
            rw [List.eraseP_append_left (a := (other, earlier)) (by simp) _ (by simp [isBefore]), erased]
          rw [removed, addUse_of_not_mem fresh, List.append_assoc, List.cons_append]
          exact .held rfl (perm.append_right _)
      | none =>
          rw [List.lookup_append, inBefore, Option.none_or, List.lookup_cons,
            beq_eq_false_iff_ne.mpr different] at isFound
          obtain ⟨first, second, isAfter, _, erased⟩ := split_of_lookup isFound
          have removed : ((before ++ (key, value) :: after).eraseP fun entry => entry.1 = other) =
              before ++ (key, value) :: (first ++ second) := by
            have notBefore : ∀ entry ∈ before, ¬(decide (entry.1 = other) = true) := by
              intro entry member isOther
              have missing := lookup_eq_none_iff_not_mem.mp inBefore
              exact missing (of_decide_eq_true isOther ▸ List.mem_map_of_mem member)
            rw [← erased, List.eraseP_append_right _ notBefore, List.eraseP_cons_of_neg (by simp [different.symm])]
          have isUsed : other ∈ used.map Prod.fst := (perm.map Prod.fst).mem_iff.mp (mem_of_lookup isFound)
          rw [removed, addUse_of_mem isUsed, List.append_assoc, List.cons_append]
          refine .held rfl (List.Perm.trans ?_ perm)
          rw [isAfter, List.append_assoc]
          exact (List.perm_append_singleton (other, found) second).append_left first

theorem Recent.store (different : other ≠ key) (recent : Recent weight bound key value used entries)
    (distinct : (entries.map Prod.fst).Nodup) (fresh : entries.lookup other = none) {stored : Value}
    (fits : weight stored ≤ bound) :
    Recent weight bound key value (addUse used (other, stored)) (insert weight bound other stored entries) := by
  rw [insert_of_new fresh fits]
  cases recent with
  | gone missing heavy =>
      refine .gone ?_ (Nat.lt_of_lt_of_le heavy (Nat.add_le_add_left (total_le_addUse _ _) _))
      rw [lookup_eq_none_iff_not_mem] at missing ⊢
      intro member
      obtain ⟨entry, isEntry, rfl⟩ := List.mem_map.mp member
      rcases List.mem_append.mp ((trim_suffix _).subset isEntry) with earlier | new
      · exact missing (List.mem_map_of_mem earlier)
      · exact different (by rw [List.mem_singleton.mp new])
  | @held before after split perm =>
      subst split
      have notUsed : other ∉ used.map Prod.fst := by
        intro member
        have later := (perm.map Prod.fst).mem_iff.mpr member
        exact lookup_eq_none_iff_not_mem.mp fresh (by simp [later])
      rw [addUse_of_not_mem notUsed, List.append_assoc, List.cons_append]
      have moved : (after ++ [(other, stored)]).Perm (used ++ [(other, stored)]) := perm.append_right _
      by_cases light : total weight ((key, value) :: (after ++ [(other, stored)])) ≤ bound
      · obtain ⟨kept, _, trimmed⟩ := trim_append_of_light before light
        exact .held trimmed moved
      · rw [Nat.not_le] at light
        refine .gone ?_ ?_
        · rw [trim_append_of_heavy before light, lookup_eq_none_iff_not_mem]
          intro member
          obtain ⟨entry, isEntry, isKey⟩ := List.mem_map.mp member
          obtain ⟨_, notAfter, _⟩ := not_mem_of_distinct distinct
          rcases List.mem_append.mp ((trim_suffix _).subset isEntry) with later | new
          · exact notAfter (isKey ▸ List.mem_map_of_mem later)
          · exact different (by rw [← isKey, List.mem_singleton.mp new])
        · have weighed : total weight (after ++ [(other, stored)]) = total weight (used ++ [(other, stored)]) :=
            (moved.map _).sum_eq
          rw [total_cons, weighed] at light
          exact light

theorem Recent.lookup_eq (recent : Recent weight bound key value used entries)
    (distinct : (entries.map Prod.fst).Nodup) (within : total weight entries ≤ bound) :
    entries.lookup key = if weight value + total weight used ≤ bound then some value else none := by
  cases recent with
  | gone missing heavy => rw [missing, if_neg (Nat.not_le.mpr heavy)]
  | @held before after split perm =>
      subst split
      have weighed : total weight after = total weight used := (perm.map _).sum_eq
      simp only [total_append, total_cons, weighed] at within
      rw [if_pos (by omega), lookup_iff_mem distinct]
      simp

theorem recent_of_last (before : List (Key × Value)) :
    Recent weight bound key value [] (before ++ [(key, value)]) := .held rfl List.Perm.nil

end LeastRecentlyUsed
