import BtcRpcProxy.BlockCache
import BtcRpcProxy.LeastRecentlyUsed

/-!
The block cache against a cache that is one list in the order of last use: map, queue and
byte total together stand for the list, and every run of calls gives the same answers on both.
-/

namespace BtcRpcProxy.BlockCache

open Runs LeastRecentlyUsed

variable {BlockHash : Type}

inductive Query (BlockHash : Type)
  | call (call : Call BlockHash)
  | stats

inductive Answer
  | got (block : Option Bytes)
  | inserted
  | stats (blocks bytes : Nat)
  deriving DecidableEq, Repr

abbrev Entries (BlockHash : Type) := List (BlockHash × Bytes)

section

variable [DecidableEq BlockHash]

def ask (usizeMax : Nat) (cache : BlockCache BlockHash) :
    Query BlockHash → Option (Answer × BlockCache BlockHash)
  | .call (.get hash) => some (.got (cache.get hash).1, (cache.get hash).2)
  | .call (.insert hash block) =>
      (cache.insert usizeMax hash block).map fun after => (.inserted, after)
  | .stats => some (.stats cache.stats.1 cache.stats.2, cache)

/-- `keeps` is whether the list takes a block it has room for. -/
def askEntries (keeps : Bool) (maxBytes : Nat) (entries : Entries BlockHash) :
    Query BlockHash → Answer × Entries BlockHash
  | .call (.get hash) =>
      (.got (LeastRecentlyUsed.get hash entries).1, (LeastRecentlyUsed.get hash entries).2)
  | .call (.insert hash block) =>
      (.inserted,
        if keeps then LeastRecentlyUsed.insert List.length maxBytes hash block entries else entries)
  | .stats => (.stats entries.length (total List.length entries), entries)

end

/-- Memory holds the blocks of the cache and the one that is added to them. -/
def Query.Fits (usizeMax maxBytes : Nat) (entries : Entries BlockHash) : Query BlockHash → Prop
  | .call (.insert _ block) =>
      block.length ≤ maxBytes → total List.length entries + block.length ≤ usizeMax
  | _ => True

variable [DecidableEq BlockHash]

/-- The queue has the entries' keys in order, and the map their blocks. -/
structure Inner.Lists (inner : Inner BlockHash) (entries : Entries BlockHash) : Prop where
  order : inner.order = entries.map Prod.fst
  blocks : ∀ hash, inner.blocks.lookup hash = entries.lookup hash
  bytes : inner.bytes = total List.length entries

structure Stands (maxBytes : Nat) (cache : BlockCache BlockHash) (entries : Entries BlockHash) : Prop where
  accounted : Accounted maxBytes cache
  lists : Inner.Lists cache.inner entries
  disabled : maxBytes = 0 → entries = []

theorem new_stands (maxBytes : Nat) : Stands maxBytes (new maxBytes : BlockCache BlockHash) [] := by
  refine ⟨new_accounted maxBytes, ⟨rfl, ?_, rfl⟩, fun _ => rfl⟩
  intro hash
  simp [new]

variable {usizeMax maxBytes : Nat} {cache : BlockCache BlockHash} {entries : Entries BlockHash}

theorem Stands.distinct (stands : Stands maxBytes cache entries) : (entries.map Prod.fst).Nodup :=
  stands.lists.order ▸ stands.accounted.consistent.unique

theorem Stands.mem_iff (stands : Stands maxBytes cache entries) (hash : BlockHash) :
    hash ∈ cache.inner.blocks ↔ entries.lookup hash ≠ none := by
  rw [← stands.lists.blocks, Ne, AList.lookup_eq_none, not_not]

theorem Stands.enabled_iff (stands : Stands maxBytes cache entries) :
    cache.enabled = true ↔ maxBytes ≠ 0 := by
  rw [BlockCache.enabled, stands.accounted.bound, decide_eq_true_eq, Nat.pos_iff_ne_zero]

theorem Stands.stats (stands : Stands maxBytes cache entries) :
    cache.stats = (entries.length, total List.length entries) := by
  have keys : cache.inner.blocks.keys.Perm cache.inner.order := by
    refine (List.perm_ext_iff_of_nodup cache.inner.blocks.keys_nodup
      stands.accounted.consistent.unique).mpr fun hash => ?_
    exact (stands.accounted.consistent.keys hash).symm
  have length := keys.length_eq
  rw [stands.lists.order, List.length_map] at length
  rw [BlockCache.stats, length, stands.lists.bytes]

theorem get_of_missing {hash : BlockHash} (missing : cache.inner.blocks.lookup hash = none) :
    cache.get hash = (none, cache) := by
  simp [get, missing]

theorem get_of_held {hash : BlockHash} {block : Bytes} (enabled : cache.enabled = true)
    (held : cache.inner.blocks.lookup hash = some block) :
    cache.get hash =
      (some block, { cache with inner := { cache.inner with order := touch hash cache.inner.order } }) := by
  simp [get, enabled, held]

theorem get_stands (stands : Stands maxBytes cache entries) (hash : BlockHash) :
    (cache.get hash).1 = (LeastRecentlyUsed.get hash entries).1 ∧
      Stands maxBytes (cache.get hash).2 (LeastRecentlyUsed.get hash entries).2 := by
  cases found : entries.lookup hash with
  | none =>
      rw [get_of_missing (stands.lists.blocks hash ▸ found), LeastRecentlyUsed.get_of_missing found]
      exact ⟨rfl, stands⟩
  | some block =>
      have nonempty : entries ≠ [] := by
        rintro rfl
        simp at found
      have enabled : cache.enabled = true :=
        stands.enabled_iff.mpr fun isZero => nonempty (stands.disabled isZero)
      have queued : hash ∈ cache.inner.order := by
        rw [stands.lists.order]
        exact List.mem_map_of_mem ((lookup_iff_mem stands.distinct).mp found)
      have got := get_of_held enabled (stands.lists.blocks hash ▸ found)
      refine ⟨by rw [got, get_of_lookup found], get_accounted stands.accounted hash, ⟨?_, ?_, ?_⟩, ?_⟩
      · rw [map_fst_get found, ← stands.lists.order, got]
        simp [touch, queued]
      · intro other
        rw [lookup_eq_of_perm stands.distinct (get_perm hash entries), got]
        exact stands.lists.blocks other
      · rw [total_get, got]
        exact stands.lists.bytes
      · intro isZero
        exact (nonempty (stands.disabled isZero)).elim

theorem evict_lists (maxBytes : Nat) {blocks : AList (fun _ : BlockHash => Bytes)}
    {inner : Inner BlockHash} {order : List BlockHash} {bytes : Nat}
    (consistent : Inner.Consistent { blocks, order, bytes })
    (lists : Inner.Lists { blocks, order, bytes } entries)
    (evicted : evict maxBytes blocks bytes order = some inner) :
    Inner.Lists inner (trim List.length maxBytes entries) := by
  induction entries generalizing blocks order bytes with
  | nil =>
      obtain rfl : order = [] := lists.order
      simp only [evict, Option.some.injEq] at evicted
      rw [trim_nil, ← evicted]
      exact lists
  | cons oldest rest ih =>
      obtain rfl : order = oldest.1 :: rest.map Prod.fst := lists.order
      obtain rfl : bytes = oldest.2.length + total List.length rest := lists.bytes
      simp only [evict] at evicted
      rw [trim_cons, total_cons]
      by_cases exceeds : maxBytes < oldest.2.length + total List.length rest
      · have held : blocks.lookup oldest.1 = some oldest.2 := by
          rw [lists.blocks, List.lookup_cons_self]
        obtain ⟨inRange, popped⟩ := consistent.pop held
        simp only [if_pos exceeds, held, checkedSub, if_pos inRange, Nat.add_sub_cancel_left]
          at evicted popped
        rw [if_pos exceeds]
        refine ih popped ⟨rfl, ?_, rfl⟩ evicted
        intro hash
        by_cases same : hash = oldest.1
        · have unique := (List.nodup_cons.mp consistent.unique).1
          have notLater : rest.lookup oldest.1 = none := by
            rw [List.lookup_eq_none_iff]
            intro entry member
            simp only [bne_iff_ne]
            intro isOldest
            exact unique (isOldest ▸ List.mem_map_of_mem member)
          rw [same, AList.lookup_erase, notLater]
        · rw [AList.lookup_erase_ne same, lists.blocks, List.lookup_cons, beq_eq_false_iff_ne.mpr same]
      · simp only [if_neg exceeds, Option.some.injEq] at evicted
        rw [if_neg exceeds, ← evicted]
        exact lists

theorem append_lists {inner : Inner BlockHash} (lists : Inner.Lists inner entries) {hash : BlockHash}
    (fresh : entries.lookup hash = none) (block : Bytes) :
    Inner.Lists
      { blocks := inner.blocks.insert hash block,
        order := inner.order ++ [hash],
        bytes := inner.bytes + block.length }
      (entries ++ [(hash, block)]) := by
  refine ⟨by simp [lists.order], ?_, by simp [lists.bytes]⟩
  intro other
  by_cases same : other = hash
  · rw [same, AList.lookup_insert, List.lookup_append, fresh, Option.none_or, List.lookup_cons_self]
  · rw [AList.lookup_insert_ne same, lists.blocks, List.lookup_append, List.lookup_cons,
      beq_eq_false_iff_ne.mpr same, List.lookup_nil, Option.or_none]

theorem insert_stands (stands : Stands maxBytes cache entries) (hash : BlockHash) (block : Bytes)
    (fits : block.length ≤ maxBytes → total List.length entries + block.length ≤ usizeMax) :
    ∃ after, cache.insert usizeMax hash block = some after ∧
      Stands maxBytes after
        (if decide (0 < maxBytes) then LeastRecentlyUsed.insert List.length maxBytes hash block entries
          else entries) := by
  by_cases positive : 0 < maxBytes
  · have enabled : cache.enabled = true := stands.enabled_iff.mpr (by omega)
    rw [if_pos (decide_eq_true positive)]
    by_cases oversized : maxBytes < block.length
    · rw [insert_of_heavy oversized]
      exact ⟨cache, by simp [insert, enabled, stands.accounted.bound, oversized], stands⟩
    · by_cases held : entries.lookup hash = none
      · have fresh : hash ∉ cache.inner.blocks := by
          rw [stands.mem_iff]
          simp [held]
        have within : block.length ≤ maxBytes := by omega
        have inRange : cache.inner.bytes + block.length ≤ usizeMax := stands.lists.bytes ▸ fits within
        have appended := stands.accounted.consistent.append fresh block
        obtain ⟨inner, evicted, consistent, bounded⟩ := evict_consistent maxBytes appended
        refine ⟨{ cache with inner }, ?_, ⟨stands.accounted.bound, consistent, bounded⟩, ?_, ?_⟩
        · simp [insert, enabled, stands.accounted.bound, oversized, fresh, checkedAdd, inRange, evicted]
        · rw [insert_of_new held within]
          exact evict_lists maxBytes appended (append_lists stands.lists held block) evicted
        · intro isZero
          omega
      · rw [insert_of_held held]
        have member := (stands.mem_iff hash).mpr held
        exact ⟨cache, by simp [insert, enabled, stands.accounted.bound, oversized, member], stands⟩
  · have disabled : cache.enabled = false := by
      rw [← Bool.not_eq_true, stands.enabled_iff]
      omega
    rw [if_neg (by simp [positive])]
    exact ⟨cache, by simp [insert, disabled], stands⟩

/-! Any sequence of calls. -/

theorem ask_stands (stands : Stands maxBytes cache entries) (query : Query BlockHash)
    (fits : query.Fits usizeMax maxBytes entries) :
    ∃ after, ask usizeMax cache query =
        some ((askEntries (decide (0 < maxBytes)) maxBytes entries query).1, after) ∧
      Stands maxBytes after (askEntries (decide (0 < maxBytes)) maxBytes entries query).2 := by
  rcases query with (hash | ⟨hash, block⟩) | _
  · obtain ⟨found, kept⟩ := get_stands stands hash
    exact ⟨_, by simp only [ask, askEntries, found], kept⟩
  · obtain ⟨after, inserted, kept⟩ := insert_stands stands hash block fits
    exact ⟨after, by simp only [ask, askEntries, inserted, Option.map_some], kept⟩
  · exact ⟨cache, by simp only [ask, askEntries, stands.stats], stands⟩

theorem entries_inserted {keeps : Bool} {start entries : Entries BlockHash} {outputs : List Answer}
    (queries : List (Query BlockHash))
    (run : answers (fun entries query => some (askEntries keeps maxBytes entries query)) start queries =
      some (outputs, entries)) :
    ∀ entry ∈ entries, entry ∈ start ∨ Query.call (.insert entry.1 entry.2) ∈ queries := by
  induction queries generalizing start outputs with
  | nil =>
      intro entry member
      simp only [answers, Option.some.injEq, Prod.mk.injEq] at run
      exact Or.inl (run.2 ▸ member)
  | cons query rest ih =>
      intro entry member
      simp only [answers, Option.map_eq_some_iff, Prod.mk.injEq] at run
      obtain ⟨⟨later, final⟩, isRun, _, rfl⟩ := run
      rcases ih isRun entry member with before | asked
      · rcases query with (hash | ⟨hash, block⟩) | _
        · exact Or.inl ((get_perm hash start).mem_iff.mp before)
        · simp only [askEntries] at before
          split at before
          · rcases mem_of_insert before with earlier | rfl
            · exact Or.inl earlier
            · exact Or.inr List.mem_cons_self
          · exact Or.inl before
        · exact Or.inl before
      · exact Or.inr (List.mem_cons_of_mem _ asked)

/-- Every run of calls on a new cache gives the answers of the list, which keeps blocks only where
there is room for any, and ends with the blocks of the list in its order. A block in the list is one
that was inserted, and an insert of a new block drops the first blocks of the list only. -/
theorem answers_in_order (usizeMax maxBytes : Nat) (queries : List (Query BlockHash))
    (fits : Admits (Query.Fits usizeMax maxBytes) (askEntries (decide (0 < maxBytes)) maxBytes) []
      queries) :
    ∃ outputs cache entries,
      answers (ask usizeMax) (new maxBytes) queries = some (outputs, cache) ∧
      answers (fun entries query => some (askEntries (decide (0 < maxBytes)) maxBytes entries query)) []
        queries = some (outputs, entries) ∧
      (cache.inner.order = entries.map Prod.fst ∧
        ∀ hash, cache.inner.blocks.lookup hash = entries.lookup hash) ∧
      (∀ entry ∈ entries, Query.call (.insert entry.1 entry.2) ∈ queries) ∧
      ∀ hash block, 0 < maxBytes → block.length ≤ maxBytes → entries.lookup hash = none →
        ∃ evicted kept, entries = evicted ++ kept ∧
          (askEntries (decide (0 < maxBytes)) maxBytes entries (.call (.insert hash block))).2 =
            kept ++ [(hash, block)] := by
  have simulates (cache : BlockCache BlockHash) (entries : Entries BlockHash) (query : Query BlockHash)
      (stands : Stands maxBytes cache entries) (fits : query.Fits usizeMax maxBytes entries) :=
    ask_stands stands query fits
  obtain ⟨outputs, cache, entries, run, entriesRun, stands⟩ :=
    answers_of_simulation simulates (new_stands maxBytes) queries fits
  refine ⟨outputs, cache, entries, run, entriesRun, ⟨stands.lists.order, stands.lists.blocks⟩, ?_, ?_⟩
  · intro entry member
    exact (entries_inserted queries entriesRun entry member).resolve_left (by simp)
  · intro hash block positive within fresh
    obtain ⟨evicted, kept, split, inserted⟩ := insert_evicts fresh within
    exact ⟨evicted, kept, split, by simp only [askEntries, decide_eq_true positive, if_true, inserted]⟩

/-! A cache of four bytes, in which the second block evicts the first. -/

def sampleQueries : List (Query Nat) :=
  [.call (.insert 1 [1, 2, 3]), .call (.get 1), .call (.insert 2 [7, 8]), .call (.get 1), .stats]

theorem answers_in_order_evicting :
    ∃ outputs cache entries,
      outputs = [.inserted, .got (some [1, 2, 3]), .inserted, .got none, .stats 1 2] ∧
      answers (ask 100) (new 4) sampleQueries = some (outputs, cache) ∧
      answers (fun entries query => some (askEntries (decide (0 < 4)) 4 entries query)) [] sampleQueries =
        some (outputs, entries) ∧
      (cache.inner.order = entries.map Prod.fst ∧
        ∀ hash, cache.inner.blocks.lookup hash = entries.lookup hash) ∧
      (∀ entry ∈ entries, Query.call (.insert entry.1 entry.2) ∈ sampleQueries) ∧
      ∀ hash block, 0 < 4 → block.length ≤ 4 → entries.lookup hash = none →
        ∃ evicted kept, entries = evicted ++ kept ∧
          (askEntries (decide (0 < 4)) 4 entries (.call (.insert hash block))).2 =
            kept ++ [(hash, block)] := by
  obtain ⟨outputs, cache, entries, run, entriesRun, ends⟩ := answers_in_order 100 4 sampleQueries
    ⟨fun _ => by decide, trivial, fun _ => by decide, trivial, trivial, trivial⟩
  have isOutputs : outputs = [.inserted, .got (some [1, 2, 3]), .inserted, .got none, .stats 1 2] := by
    have computed := congrArg (Option.map Prod.fst) entriesRun
    exact (Option.some.inj computed).symm
  exact ⟨outputs, cache, entries, isOutputs, run, entriesRun, ends⟩

theorem empty_block_not_kept :
    let queries : List (Query Nat) := [.call (.insert 1 []), .call (.get 1), .stats]
    Admits (Query.Fits 100 0) (askEntries true 0) [] queries ∧
      (answers (ask 100) (new 0) queries).map Prod.fst = some [.inserted, .got none, .stats 0 0] ∧
      (answers (fun entries query => some (askEntries true 0 entries query)) [] queries).map Prod.fst =
        some [.inserted, .got (some []), .stats 1 0] :=
  ⟨⟨fun _ => by decide, trivial, trivial, trivial⟩, rfl, rfl⟩

end BtcRpcProxy.BlockCache
