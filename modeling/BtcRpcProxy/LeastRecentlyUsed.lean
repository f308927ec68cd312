import Mathlib.Algebra.BigOperators.Group.List.Basic
import Mathlib.Algebra.Ring.Nat
import Mathlib.Data.List.Infix

/-!
A cache with a bound on the total weight of its values, as one list of entries in the
order of their last use, the least recent first. An insert keeps the longest suffix of
the list that is within the bound.
-/

namespace LeastRecentlyUsed

variable {Key Value : Type*}

def total (weight : Value → Nat) (entries : List (Key × Value)) : Nat :=
  (entries.map fun entry => weight entry.2).sum

/-- `tails` lists the suffixes from the longest one on. -/
def trim (weight : Value → Nat) (bound : Nat) (entries : List (Key × Value)) : List (Key × Value) :=
  (entries.tails.find? fun suffix => total weight suffix ≤ bound).getD []

variable [DecidableEq Key]

def get (key : Key) (entries : List (Key × Value)) : Option Value × List (Key × Value) :=
  match entries.lookup key with
  | none => (none, entries)
  | some value => (some value, (entries.eraseP fun entry => entry.1 = key) ++ [(key, value)])

def insert (weight : Value → Nat) (bound : Nat) (key : Key) (value : Value)
    (entries : List (Key × Value)) : List (Key × Value) :=
  if (entries.lookup key).isSome ∨ bound < weight value then entries
  else trim weight bound (entries ++ [(key, value)])

section

variable {weight : Value → Nat} {bound : Nat}

omit [DecidableEq Key]

@[simp] theorem total_nil : total weight ([] : List (Key × Value)) = 0 := rfl

@[simp] theorem total_cons (entry : Key × Value) (entries : List (Key × Value)) :
    total weight (entry :: entries) = weight entry.2 + total weight entries := by
  simp [total]

@[simp] theorem total_append (first second : List (Key × Value)) :
    total weight (first ++ second) = total weight first + total weight second := by
  simp [total]

@[simp] theorem trim_nil : trim weight bound ([] : List (Key × Value)) = [] := by
  simp [trim]

theorem trim_cons (entry : Key × Value) (entries : List (Key × Value)) :
    trim weight bound (entry :: entries) =
      if bound < total weight (entry :: entries) then trim weight bound entries
      else entry :: entries := by
  simp only [trim, List.tails_cons, List.find?_cons]
  by_cases exceeds : bound < total weight (entry :: entries)
  · rw [if_pos exceeds, decide_eq_false (Nat.not_le.mpr exceeds)]
  · rw [if_neg exceeds, decide_eq_true (Nat.not_lt.mp exceeds), Option.getD_some]

theorem trim_suffix (entries : List (Key × Value)) : trim weight bound entries <:+ entries := by
  induction entries with
  | nil => simp
  | cons entry entries ih =>
      rw [trim_cons]
      split
      · exact ih.trans (List.suffix_cons entry entries)
      · exact List.suffix_rfl

theorem trim_append_singleton (key : Key) {value : Value} (fits : weight value ≤ bound)
    (entries : List (Key × Value)) :
    ∃ kept, kept <:+ entries ∧ trim weight bound (entries ++ [(key, value)]) = kept ++ [(key, value)] := by
  induction entries with
  | nil => exact ⟨[], List.suffix_rfl, by simp [trim_cons, fits]⟩
  | cons entry entries ih =>
      rw [List.cons_append, trim_cons]
      split
      · obtain ⟨kept, isSuffix, trimmed⟩ := ih
        exact ⟨kept, isSuffix.trans (List.suffix_cons entry entries), trimmed⟩
      · exact ⟨entry :: entries, List.suffix_rfl, rfl⟩

end

/-! Lookups. -/

section

variable {key : Key} {value : Value} {entries others : List (Key × Value)}

theorem split_of_lookup (found : entries.lookup key = some value) :
    ∃ before after, entries = before ++ (key, value) :: after ∧ key ∉ before.map Prod.fst ∧
      (entries.eraseP fun entry => entry.1 = key) = before ++ after := by
  obtain ⟨before, after, split, different⟩ := List.lookup_eq_some_iff.mp found
  refine ⟨before, after, split, ?_, ?_⟩
  · intro member
    obtain ⟨entry, isEntry, isKey⟩ := List.mem_map.mp member
    simpa [isKey] using different entry isEntry
  · have notBefore : ∀ entry ∈ before, ¬(decide (entry.1 = key) = true) := by
      intro entry member isKey
      simpa [of_decide_eq_true isKey] using different entry member
    rw [split, List.eraseP_append_right _ notBefore, List.eraseP_cons_of_pos (by simp)]

theorem lookup_iff_mem (distinct : (entries.map Prod.fst).Nodup) :
    entries.lookup key = some value ↔ (key, value) ∈ entries := by
  constructor
  · intro found
    obtain ⟨before, after, split, _⟩ := split_of_lookup found
    simp [split]
  · intro member
    obtain ⟨before, after, split⟩ := List.append_of_mem member
    refine List.lookup_eq_some_iff.mpr ⟨before, after, split, ?_⟩
    intro entry isEntry
    rw [split, List.map_append, List.nodup_append] at distinct
    have different := distinct.2.2 entry.1 (List.mem_map_of_mem isEntry) key (by simp)
    simpa using different.symm

theorem lookup_eq_of_perm (distinct : (entries.map Prod.fst).Nodup) (perm : others.Perm entries)
    (key : Key) : others.lookup key = entries.lookup key := by
  have othersDistinct : (others.map Prod.fst).Nodup := (perm.map Prod.fst).nodup_iff.mpr distinct
  ext value
  rw [lookup_iff_mem distinct, lookup_iff_mem othersDistinct, perm.mem_iff]

end

/-! What a `get` and an `insert` do. -/

section

variable {weight : Value → Nat} {bound : Nat} {key : Key} {value : Value} {entries : List (Key × Value)}

theorem get_of_lookup (found : entries.lookup key = some value) :
    get key entries = (some value, (entries.eraseP fun entry => entry.1 = key) ++ [(key, value)]) := by
  simp [get, found]

theorem get_of_missing (missing : entries.lookup key = none) : get key entries = (none, entries) := by
  simp [get, missing]

theorem get_perm (key : Key) (entries : List (Key × Value)) : (get key entries).2.Perm entries := by
  cases found : entries.lookup key with
  | none => simp [get_of_missing found]
  | some value =>
      obtain ⟨before, after, split, _, erased⟩ := split_of_lookup found
      rw [get_of_lookup found, erased, split]
      simp only [List.append_assoc]
      exact (List.perm_append_singleton (key, value) after).append_left before

theorem map_fst_get (found : entries.lookup key = some value) :
    (get key entries).2.map Prod.fst = (entries.map Prod.fst).erase key ++ [key] := by
  obtain ⟨before, after, split, notBefore, erased⟩ := split_of_lookup found
  rw [get_of_lookup found, erased, split]
  simp [List.erase_append_right _ notBefore]

theorem total_get (key : Key) (entries : List (Key × Value)) :
    total weight (get key entries).2 = total weight entries :=
  ((get_perm key entries).map _).sum_eq

theorem insert_of_new (fresh : entries.lookup key = none) (fits : weight value ≤ bound) :
    insert weight bound key value entries = trim weight bound (entries ++ [(key, value)]) := by
  rw [insert, if_neg (by simp [fresh, fits])]

theorem insert_of_held (held : entries.lookup key ≠ none) :
    insert weight bound key value entries = entries := by
  rw [insert, if_pos (Or.inl (Option.isSome_iff_ne_none.mpr held))]

theorem insert_of_heavy (heavy : bound < weight value) : insert weight bound key value entries = entries := by
  rw [insert, if_pos (Or.inr heavy)]

theorem mem_of_insert {entry : Key × Value} (member : entry ∈ insert weight bound key value entries) :
    entry ∈ entries ∨ entry = (key, value) := by
  unfold insert at member
  split at member
  · exact Or.inl member
  · simpa using (trim_suffix _).subset member

/-- What is evicted was used before everything that is kept, and the new entry is kept. -/
theorem insert_evicts (fresh : entries.lookup key = none) (fits : weight value ≤ bound) :
    ∃ evicted kept, entries = evicted ++ kept ∧
      insert weight bound key value entries = kept ++ [(key, value)] := by
  obtain ⟨kept, ⟨evicted, split⟩, trimmed⟩ := trim_append_singleton key fits entries
  exact ⟨evicted, kept, split.symm, (insert_of_new fresh fits).trans trimmed⟩

end

end LeastRecentlyUsed
