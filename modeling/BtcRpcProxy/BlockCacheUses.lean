import BtcRpcProxy.BlockCacheOrder
import BtcRpcProxy.RecentUses

/-!
How long a block stays in the cache after its last use, whatever other calls are made meanwhile.
-/

namespace BtcRpcProxy.BlockCache

open Runs LeastRecentlyUsed

variable {BlockHash : Type} [DecidableEq BlockHash]

/-- The block that is served or stored by a call. -/
def use (cache : BlockCache BlockHash) : Call BlockHash → Option (BlockHash × Bytes)
  | .get hash => (cache.get hash).1.map fun block => (hash, block)
  | .insert hash block =>
      if cache.enabled ∧ block.length ≤ cache.maxBytes ∧ hash ∉ cache.inner.blocks then some (hash, block)
      else none

def uses (usizeMax : Nat) : BlockCache BlockHash → List (Call BlockHash) → Entries BlockHash
  | _, [] => []
  | cache, call :: rest =>
      match cache.apply usizeMax call with
      | none => []
      | some after => (cache.use call).toList ++ uses usizeMax after rest

variable {usizeMax maxBytes : Nat} {cache after : BlockCache BlockHash} {entries : Entries BlockHash}

/-! One call, on the cache and on the list it stands for. -/

theorem get_eq_lookup (stands : Stands maxBytes cache entries) (hash : BlockHash) :
    (cache.get hash).1 = entries.lookup hash := by
  rw [(get_stands stands hash).1]
  cases found : entries.lookup hash with
  | none => rw [LeastRecentlyUsed.get_of_missing found]
  | some block => rw [get_of_lookup found]

/-- The list after a call that does not panic. -/
inductive Lists (maxBytes : Nat) (cache after : BlockCache BlockHash) (entries : Entries BlockHash)
    (call : Call BlockHash) : Prop
  | unused : cache.use call = none → Stands maxBytes after entries → Lists maxBytes cache after entries call
  | served {hash : BlockHash} {block : Bytes} : cache.use call = some (hash, block) →
      entries.lookup hash = some block →
      Stands maxBytes after (LeastRecentlyUsed.get hash entries).2 → Lists maxBytes cache after entries call
  | stored {hash : BlockHash} {block : Bytes} : cache.use call = some (hash, block) →
      entries.lookup hash = none → block.length ≤ maxBytes →
      Stands maxBytes after (LeastRecentlyUsed.insert List.length maxBytes hash block entries) →
      Lists maxBytes cache after entries call

theorem apply_lists (stands : Stands maxBytes cache entries) {call : Call BlockHash}
    (applied : cache.apply usizeMax call = some after) : Lists maxBytes cache after entries call := by
  cases call with
  | get hash =>
      rw [← Option.some.inj applied]
      have kept := (get_stands stands hash).2
      cases found : entries.lookup hash with
      | none =>
          rw [LeastRecentlyUsed.get_of_missing found] at kept
          exact .unused (by simp [use, get_eq_lookup stands, found]) kept
      | some block => exact .served (by simp [use, get_eq_lookup stands, found]) found kept
  | insert hash block =>
      by_cases stores : cache.enabled = true ∧ block.length ≤ cache.maxBytes ∧ hash ∉ cache.inner.blocks
      · obtain ⟨enabled, fits, fresh⟩ := stores
        have positive : 0 < maxBytes := Nat.pos_of_ne_zero (stands.enabled_iff.mp enabled)
        have added : total List.length entries + block.length ≤ usizeMax := by
          by_contra overflows
          rw [← stands.lists.bytes] at overflows
          simp [apply, insert, enabled, Nat.not_lt.mpr fits, fresh, checkedAdd, overflows] at applied
        obtain ⟨stored, inserted, kept⟩ := insert_stands stands hash block fun _ => added
        rw [decide_eq_true positive, if_pos rfl] at kept
        rw [← Option.some.inj (inserted.symm.trans applied)]
        have missing : entries.lookup hash = none := not_not.mp fun held => fresh ((stands.mem_iff hash).mpr held)
        exact .stored (if_pos ⟨enabled, fits, fresh⟩) missing (stands.accounted.bound ▸ fits) kept
      · have same : after = cache := by
          refine Option.some.inj (applied.symm.trans ?_)
          simp only [apply, insert]
          split
          · rename_i enabled
            split
            · rfl
            · rename_i light
              rw [if_pos]
              exact not_not.mp fun fresh => stores ⟨enabled, Nat.not_lt.mp light, fresh⟩
          · rfl
        rw [same]
        exact .unused (if_neg stores) stands

/-! Any calls. -/

/-- The cache stands for a list in which the uses since are those after the block. -/
def Remains (maxBytes : Nat) (hash : BlockHash) (block : Bytes) (used : Entries BlockHash)
    (cache : BlockCache BlockHash) : Prop :=
  ∃ entries, Stands maxBytes cache entries ∧ Recent List.length maxBytes hash block used entries

theorem Remains.apply {hash : BlockHash} {block : Bytes} {used : Entries BlockHash}
    (remains : Remains maxBytes hash block used cache) {call : Call BlockHash}
    (unused : ∀ use ∈ cache.use call, use.1 ≠ hash) (applied : cache.apply usizeMax call = some after) :
    Remains maxBytes hash block ((cache.use call).toList.foldl addUse used) after := by
  obtain ⟨entries, stands, recent⟩ := remains
  cases apply_lists stands applied with
  | unused isUse kept =>
      rw [isUse]
      exact ⟨entries, kept, recent⟩
  | served isUse found kept =>
      rw [isUse]
      exact ⟨_, kept, recent.use (unused _ isUse) stands.distinct found⟩
  | stored isUse missing fits kept =>
      rw [isUse]
      exact ⟨_, kept, recent.store (unused _ isUse) stands.distinct missing fits⟩

theorem Remains.run {hash : BlockHash} {block : Bytes} {used : Entries BlockHash} {final : BlockCache BlockHash}
    {calls : List (Call BlockHash)} (remains : Remains maxBytes hash block used cache)
    (unused : ∀ use ∈ uses usizeMax cache calls, use.1 ≠ hash)
    (run : runFrom (BlockCache.apply usizeMax) cache calls = some final) :
    Remains maxBytes hash block ((uses usizeMax cache calls).foldl addUse used) final := by
  induction calls generalizing cache used with
  | nil =>
      rw [← Option.some.inj run]
      exact remains
  | cons call rest ih =>
      simp only [runFrom] at run
      cases applied : cache.apply usizeMax call with
      | none => simp [applied] at run
      | some after =>
          simp only [applied] at run
          simp only [uses, applied, List.mem_append, Option.mem_toList] at unused ⊢
          rw [List.foldl_append]
          have kept := remains.apply (fun use isUse => unused use (Or.inl isUse)) applied
          exact ih kept (fun use later => unused use (Or.inr later)) run

theorem stands_of_run {calls : List (Call BlockHash)} {final : BlockCache BlockHash}
    (stands : Stands maxBytes cache entries) (run : runFrom (apply usizeMax) cache calls = some final) :
    ∃ entries, Stands maxBytes final entries := by
  let standsFor (cache : BlockCache BlockHash) : Prop := ∃ entries, Stands maxBytes cache entries
  have initially : standsFor cache := ⟨entries, stands⟩
  suffices kept : standsFor final from kept
  refine runFrom_keeps initially ?_ run
  rintro before call after _ ⟨entries, stands⟩ applied
  cases apply_lists stands applied with
  | unused _ kept => exact ⟨_, kept⟩
  | served _ _ kept => exact ⟨_, kept⟩
  | stored _ _ _ kept => exact ⟨_, kept⟩

theorem remains_of_use {hash : BlockHash} {block : Bytes} {call : Call BlockHash}
    (stands : Stands maxBytes cache entries) (isUse : cache.use call = some (hash, block))
    (applied : cache.apply usizeMax call = some after) : Remains maxBytes hash block [] after := by
  cases apply_lists stands applied with
  | unused isUnused => simp [isUnused] at isUse
  | served isServed found kept =>
      obtain ⟨rfl, rfl⟩ := Prod.mk.inj (Option.some.inj (isServed.symm.trans isUse))
      rw [get_of_lookup found] at kept
      exact ⟨_, kept, recent_of_last _⟩
  | stored isStored missing fits kept =>
      obtain ⟨rfl, rfl⟩ := Prod.mk.inj (Option.some.inj (isStored.symm.trans isUse))
      obtain ⟨_, later, _, inserted⟩ := insert_evicts missing fits
      rw [inserted] at kept
      exact ⟨_, kept, recent_of_last _⟩

/-- A block is served after its last use as long as it and the distinct blocks used since are not more than
the cache has room for. -/
theorem get_after_uses (usizeMax maxBytes : Nat) (earlier later : List (Call BlockHash)) (call : Call BlockHash)
    (hash : BlockHash) (block : Bytes) (before cache final : BlockCache BlockHash)
    (earlierRun : runFrom (apply usizeMax) (new maxBytes) earlier = some before)
    (isUse : before.use call = some (hash, block)) (applied : before.apply usizeMax call = some cache)
    (laterRun : runFrom (apply usizeMax) cache later = some final)
    (unused : ∀ use ∈ uses usizeMax cache later, use.1 ≠ hash) :
    (final.get hash).1 =
      if block.length + total List.length (firstUses (uses usizeMax cache later)) ≤ maxBytes then some block
      else none := by
  obtain ⟨entries, stands⟩ := stands_of_run (new_stands maxBytes) earlierRun
  obtain ⟨finalEntries, finalStands, recent⟩ :=
    (remains_of_use stands isUse applied).run unused laterRun
  have within : total List.length finalEntries ≤ maxBytes :=
    finalStands.lists.bytes ▸ finalStands.accounted.within
  rw [get_eq_lookup finalStands]
  exact recent.lookup_eq finalStands.distinct within

/-! Room for ten bytes: a block of four stays through two others of three, one of them used twice, until a
fourth is stored. -/

def sampleCache : BlockCache Nat :=
  { maxBytes := 10,
    inner := { blocks := (∅ : AList fun _ : Nat => Bytes).insert 1 [1, 2, 3, 4], order := [1], bytes := 4 } }

def sampleLater : List (Call Nat) :=
  [.insert 2 [5, 6, 7], .get 2, .get 9, .insert 1 [0], .insert 3 [8, 9, 10], .get 2]

theorem get_after_uses_within :
    ∃ final : BlockCache Nat, runFrom (apply 100) sampleCache sampleLater = some final ∧
      firstUses (uses 100 sampleCache sampleLater) = [(2, [5, 6, 7]), (3, [8, 9, 10])] ∧
      (final.get 1).1 = some [1, 2, 3, 4] ∧
      ∃ full : BlockCache Nat, runFrom (apply 100) sampleCache (sampleLater ++ [.insert 4 [11]]) = some full ∧
        (full.get 1).1 = none := by
  have isUses : firstUses (uses 100 sampleCache sampleLater) = [(2, [5, 6, 7]), (3, [8, 9, 10])] := by decide
  refine ⟨_, rfl, isUses, ?_, _, rfl, ?_⟩
  · rw [get_after_uses 100 10 [.insert 1 [1, 2, 3, 4]] sampleLater (.get 1) 1 [1, 2, 3, 4] sampleCache sampleCache _
      rfl rfl rfl rfl (by decide), isUses]
    rfl
  · rw [get_after_uses 100 10 [.insert 1 [1, 2, 3, 4]] (sampleLater ++ [.insert 4 [11]]) (.get 1) 1 [1, 2, 3, 4]
      sampleCache sampleCache _ rfl rfl rfl rfl (by decide)]
    exact if_neg (by decide)

end BtcRpcProxy.BlockCache
