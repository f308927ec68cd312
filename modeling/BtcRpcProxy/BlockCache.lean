import Mathlib.Algebra.Ring.Nat
import BtcRpcProxy.BlockCacheCore
import BtcRpcProxy.Runs

/-!
The accounting of the block cache: the byte total, the queue and the map agree in
every state any sequence of calls reaches, and no `usize` operation leaves its range.
-/

namespace BtcRpcProxy.BlockCache

open Runs

variable {BlockHash : Type}

def heldBytes (blocks : AList (fun _ : BlockHash => Bytes)) : Nat :=
  (blocks.entries.map fun entry => entry.2.length).sum

@[simp] theorem heldBytes_empty : heldBytes (∅ : AList (fun _ : BlockHash => Bytes)) = 0 := by
  rfl

structure Inner.Consistent (inner : Inner BlockHash) : Prop where
  total : inner.bytes = heldBytes inner.blocks
  unique : inner.order.Nodup
  keys : ∀ hash, hash ∈ inner.order ↔ hash ∈ inner.blocks

theorem Inner.Consistent.reorder {inner other : Inner BlockHash} (consistent : Inner.Consistent inner)
    (blocks : other.blocks = inner.blocks) (bytes : other.bytes = inner.bytes)
    (order : other.order.Perm inner.order) : Inner.Consistent other := by
  constructor
  · rw [bytes, blocks]
    exact consistent.total
  · exact order.symm.nodup consistent.unique
  · intro hash
    rw [order.mem_iff, blocks]
    exact consistent.keys hash

theorem Inner.Consistent.bytes_eq_zero {blocks : AList (fun _ : BlockHash => Bytes)} {bytes : Nat}
    (consistent : Inner.Consistent { blocks, order := [], bytes }) : bytes = 0 := by
  have noKeys : blocks.entries = [] := by
    cases entries : blocks.entries with
    | nil => rfl
    | cons entry rest =>
        have member : entry.1 ∈ blocks := by
          rw [AList.mem_keys, AList.keys, entries]
          simp
        simpa using (consistent.keys entry.1).mpr member
  have total : bytes = heldBytes blocks := consistent.total
  simp [total, heldBytes, noKeys]

/-- The cache with its accounting: what every call preserves. -/
structure Accounted (maxBytes : Nat) (cache : BlockCache BlockHash) : Prop where
  bound : cache.maxBytes = maxBytes
  consistent : Inner.Consistent cache.inner
  within : cache.inner.bytes ≤ maxBytes

theorem new_accounted (maxBytes : Nat) :
    Accounted maxBytes (new maxBytes : BlockCache BlockHash) := by
  refine ⟨rfl, ⟨rfl, List.nodup_nil, ?_⟩, Nat.zero_le maxBytes⟩
  intro hash
  simp [new]

variable [DecidableEq BlockHash]

theorem heldBytes_insert {blocks : AList (fun _ : BlockHash => Bytes)} {hash : BlockHash}
    (fresh : hash ∉ blocks) (block : Bytes) :
    heldBytes (blocks.insert hash block) = heldBytes blocks + block.length := by
  rw [heldBytes, AList.entries_insert_of_notMem fresh, List.map_cons, List.sum_cons, Nat.add_comm,
    heldBytes]

theorem heldBytes_erase {blocks : AList (fun _ : BlockHash => Bytes)} {hash : BlockHash}
    {block : Bytes} (held : blocks.lookup hash = some block) :
    heldBytes (blocks.erase hash) + block.length = heldBytes blocks := by
  have member : hash ∈ blocks.entries.keys := by
    have isSome : (blocks.lookup hash).isSome := by simp [held]
    exact AList.lookup_isSome.mp isSome
  obtain ⟨value, before, after, notBefore, split, erased⟩ := List.exists_of_kerase member
  have isBlock : value = block := by
    have found : (⟨hash, value⟩ : Sigma fun _ : BlockHash => Bytes) ∈ blocks.entries := by
      simp [split]
    have lookup := AList.mem_lookup_iff.mpr found
    simpa [held] using lookup.symm
  have entries : (blocks.erase hash).entries = before ++ after := erased
  simp only [heldBytes, entries, split, isBlock, List.map_append, List.map_cons, List.sum_append,
    List.sum_cons]
  omega

theorem touch_perm (hash : BlockHash) (order : List BlockHash) : (touch hash order).Perm order := by
  unfold touch
  split
  · rename_i member
    exact (List.perm_append_singleton hash _).trans (List.perm_cons_erase member).symm
  · exact List.Perm.refl order

theorem get_maxBytes (cache : BlockCache BlockHash) (hash : BlockHash) :
    (cache.get hash).2.maxBytes = cache.maxBytes := by
  unfold get
  split
  · split <;> rfl
  · rfl

theorem get_inner (cache : BlockCache BlockHash) (hash : BlockHash) :
    (cache.get hash).2.inner.blocks = cache.inner.blocks ∧
      (cache.get hash).2.inner.bytes = cache.inner.bytes ∧
      (cache.get hash).2.inner.order.Perm cache.inner.order := by
  unfold get
  split
  · split
    · exact ⟨rfl, rfl, List.Perm.refl _⟩
    · exact ⟨rfl, rfl, touch_perm hash cache.inner.order⟩
  · exact ⟨rfl, rfl, List.Perm.refl _⟩

theorem Inner.Consistent.pop {blocks : AList (fun _ : BlockHash => Bytes)} {bytes : Nat}
    {evicted : BlockHash} {rest : List BlockHash} {block : Bytes}
    (consistent : Inner.Consistent { blocks, order := evicted :: rest, bytes })
    (held : blocks.lookup evicted = some block) :
    block.length ≤ bytes ∧
      Inner.Consistent { blocks := blocks.erase evicted, order := rest, bytes := bytes - block.length } := by
  have remaining := heldBytes_erase held
  have total : bytes = heldBytes blocks := consistent.total
  have unique := List.nodup_cons.mp consistent.unique
  refine ⟨by omega, ?_, unique.2, ?_⟩
  · change bytes - block.length = heldBytes (blocks.erase evicted)
    omega
  · intro hash
    have before := consistent.keys hash
    simp only [List.mem_cons] at before
    rw [AList.mem_erase, ← before]
    constructor
    · intro later
      exact ⟨fun same => unique.1 (same ▸ later), Or.inr later⟩
    · rintro ⟨different, same | later⟩
      · exact (different same).elim
      · exact later

/-- The loop pops keys of the map only, so each subtraction is in range and the
state it starts from being consistent is kept pop by pop. -/
theorem evict_consistent (maxBytes : Nat) {order : List BlockHash}
    {blocks : AList (fun _ : BlockHash => Bytes)} {bytes : Nat}
    (consistent : Inner.Consistent { blocks, order, bytes }) :
    ∃ inner, evict maxBytes blocks bytes order = some inner ∧
      Inner.Consistent inner ∧ inner.bytes ≤ maxBytes := by
  induction order generalizing blocks bytes with
  | nil => exact ⟨_, rfl, consistent, by simp [consistent.bytes_eq_zero]⟩
  | cons evicted rest ih =>
      simp only [evict]
      by_cases exceeds : maxBytes < bytes
      · have member : evicted ∈ blocks := (consistent.keys evicted).mp (by simp)
        obtain ⟨block, held⟩ := Option.isSome_iff_exists.mp (AList.lookup_isSome.mpr member)
        obtain ⟨inRange, popped⟩ := consistent.pop held
        simp only [exceeds, if_true, held, checkedSub, inRange]
        exact ih popped
      · simp only [exceeds, if_false]
        exact ⟨_, rfl, consistent, by simpa using Nat.le_of_not_lt exceeds⟩

theorem Inner.Consistent.append {inner : Inner BlockHash} (consistent : Inner.Consistent inner)
    {hash : BlockHash} (fresh : hash ∉ inner.blocks) (block : Bytes) :
    Inner.Consistent {
      blocks := inner.blocks.insert hash block
      order := inner.order ++ [hash]
      bytes := inner.bytes + block.length
    } := by
  have notQueued : hash ∉ inner.order := fun queued => fresh ((consistent.keys hash).mp queued)
  constructor
  · simp [heldBytes_insert fresh, consistent.total]
  · exact (List.perm_append_singleton hash inner.order).symm.nodup
      (List.nodup_cons.mpr ⟨notQueued, consistent.unique⟩)
  · intro other
    simp [AList.mem_insert, consistent.keys other, or_comm]

/-! What is held, before and after a call. -/

theorem lookup_of_get {cache : BlockCache BlockHash} {hash : BlockHash} {block : Bytes}
    (hit : (cache.get hash).1 = some block) : cache.inner.blocks.lookup hash = some block := by
  unfold get at hit
  split at hit
  · split at hit
    · simp at hit
    · rename_i found
      rw [found]
      exact hit
  · simp at hit

theorem lookup_of_evict {maxBytes : Nat} {order : List BlockHash}
    {blocks : AList (fun _ : BlockHash => Bytes)} {bytes : Nat} {inner : Inner BlockHash}
    (evicted : evict maxBytes blocks bytes order = some inner) {hash : BlockHash} {block : Bytes}
    (held : inner.blocks.lookup hash = some block) : blocks.lookup hash = some block := by
  induction order generalizing blocks bytes with
  | nil =>
      simp only [evict, Option.some.injEq] at evicted
      subst evicted
      exact held
  | cons oldest rest ih =>
      simp only [evict] at evicted
      split at evicted
      · split at evicted
        · split at evicted
          · have later := ih evicted
            by_cases same : hash = oldest
            · rw [same, AList.lookup_erase] at later
              simp at later
            · rwa [AList.lookup_erase_ne same] at later
          · simp at evicted
        · exact ih evicted
      · rw [← Option.some.inj evicted] at held
        exact held

theorem lookup_of_insert {usizeMax : Nat} {cache after : BlockCache BlockHash} {inserted : BlockHash}
    {bytes : Bytes} (stored : cache.insert usizeMax inserted bytes = some after) {hash : BlockHash}
    {block : Bytes} (held : after.inner.blocks.lookup hash = some block) :
    cache.inner.blocks.lookup hash = some block ∨ (hash = inserted ∧ block = bytes) := by
  have unchanged (same : some cache = some after) :
      cache.inner.blocks.lookup hash = some block ∨ (hash = inserted ∧ block = bytes) :=
    Or.inl (Option.some.inj same ▸ held)
  unfold insert at stored
  split at stored
  · split at stored
    · exact unchanged stored
    · split at stored
      · exact unchanged stored
      · split at stored
        · simp at stored
        · split at stored
          · simp at stored
          · rename_i inner evicted
            have fromInsert : inner.blocks.lookup hash = some block := by
              rw [← Option.some.inj stored] at held
              exact held
            have before := lookup_of_evict evicted fromInsert
            by_cases same : hash = inserted
            · rw [same, AList.lookup_insert, Option.some.injEq] at before
              exact Or.inr ⟨same, before.symm⟩
            · rw [AList.lookup_insert_ne same] at before
              exact Or.inl before
  · exact unchanged stored

/-! Any sequence of calls. -/

/-- Memory holds the blocks of the cache and the one being inserted. -/
def Call.Fits (usizeMax : Nat) (cache : BlockCache BlockHash) : Call BlockHash → Prop
  | .get _ => True
  | .insert _ block => heldBytes cache.inner.blocks + block.length ≤ usizeMax

instance (usizeMax : Nat) :
    DecidableRel fun (cache : BlockCache BlockHash) (call : Call BlockHash) => call.Fits usizeMax cache :=
  fun cache call =>
    match call with
    | .get _ => inferInstanceAs (Decidable True)
    | .insert _ block =>
        inferInstanceAs (Decidable (heldBytes cache.inner.blocks + block.length ≤ usizeMax))

theorem insert_accounted {usizeMax maxBytes : Nat} {cache : BlockCache BlockHash}
    (accounted : Accounted maxBytes cache) (hash : BlockHash) (block : Bytes)
    (fits : heldBytes cache.inner.blocks + block.length ≤ usizeMax) :
    ∃ after, cache.insert usizeMax hash block = some after ∧ Accounted maxBytes after := by
  unfold insert
  by_cases enabled : cache.enabled
  · by_cases oversized : cache.maxBytes < block.length
    · exact ⟨cache, by simp [enabled, oversized], accounted⟩
    · by_cases held : hash ∈ cache.inner.blocks
      · exact ⟨cache, by simp [enabled, oversized, held], accounted⟩
      · have total := accounted.consistent.total
        obtain ⟨inner, evicted, consistent, within⟩ :=
          evict_consistent cache.maxBytes (accounted.consistent.append held block)
        have inRange : cache.inner.bytes + block.length ≤ usizeMax := by omega
        refine ⟨{ cache with inner }, ?_, accounted.bound, consistent, ?_⟩
        · simp [enabled, oversized, held, checkedAdd, inRange, evicted]
        · exact accounted.bound ▸ within
  · exact ⟨cache, by simp [enabled], accounted⟩

theorem get_accounted {maxBytes : Nat} {cache : BlockCache BlockHash} (accounted : Accounted maxBytes cache)
    (hash : BlockHash) : Accounted maxBytes (cache.get hash).2 := by
  obtain ⟨blocks, bytes, order⟩ := get_inner cache hash
  refine ⟨?_, accounted.consistent.reorder blocks bytes order, ?_⟩
  · rw [get_maxBytes]
    exact accounted.bound
  · rw [bytes]
    exact accounted.within

theorem apply_accounted {usizeMax maxBytes : Nat} {cache : BlockCache BlockHash}
    (accounted : Accounted maxBytes cache) (call : Call BlockHash)
    (fits : call.Fits usizeMax cache) :
    ∃ after, cache.apply usizeMax call = some after ∧ Accounted maxBytes after := by
  cases call with
  | get hash => exact ⟨(cache.get hash).2, rfl, get_accounted accounted hash⟩
  | insert hash block => exact insert_accounted accounted hash block fits

def Reached (usizeMax maxBytes : Nat) : BlockCache BlockHash → Prop :=
  Reachable (· = new maxBytes) (restrict (fun cache call => call.Fits usizeMax cache)
    (ofStep (apply usizeMax)))

theorem Reached.accounted {usizeMax maxBytes : Nat} {cache : BlockCache BlockHash}
    (reached : Reached usizeMax maxBytes cache) : Accounted maxBytes cache := by
  apply Reachable.invariant reached
  · intro state isNew
    exact isNew ▸ new_accounted maxBytes
  · intro state call after accounted taken
    obtain ⟨next, applied, kept⟩ := apply_accounted accounted call taken.1
    have same : some after = some next := taken.2.symm.trans applied
    exact Option.some.inj same ▸ kept

/-- In every reachable cache the byte total is what is held, the queue lists each
key of the map once and nothing else, the bound holds, and no next call panics. -/
theorem accounting_holds (usizeMax maxBytes : Nat) (cache : BlockCache BlockHash)
    (reached : Reached usizeMax maxBytes cache) :
    cache.inner.bytes = heldBytes cache.inner.blocks ∧
      (∀ hash, cache.inner.order.count hash = if hash ∈ cache.inner.blocks then 1 else 0) ∧
      cache.inner.bytes ≤ maxBytes ∧
      ∀ call : Call BlockHash, call.Fits usizeMax cache → ∃ after, cache.apply usizeMax call = some after := by
  have accounted := reached.accounted
  refine ⟨accounted.consistent.total, ?_, accounted.within, ?_⟩
  · intro hash
    rw [List.Nodup.count accounted.consistent.unique]
    simp only [accounted.consistent.keys hash]
  · intro call fits
    obtain ⟨after, applied, _⟩ := apply_accounted accounted call fits
    exact ⟨after, applied⟩

theorem accounting_holds_evicting :
    ∃ cache : BlockCache Nat, cache.inner.order = [2] ∧
      cache.inner.bytes = heldBytes cache.inner.blocks ∧
      (∀ hash, cache.inner.order.count hash = if hash ∈ cache.inner.blocks then 1 else 0) ∧
      cache.inner.bytes ≤ 4 ∧
      ∀ call : Call Nat, call.Fits 100 cache → ∃ after, cache.apply 100 call = some after := by
  let cache : BlockCache Nat := {
    maxBytes := 4
    inner := { blocks := (∅ : AList fun _ : Nat => Bytes).insert 2 [7, 8], order := [2], bytes := 2 }
  }
  have reached : Reached 100 4 cache :=
    reachable_of_restricted_run _ [.insert 1 [1, 2, 3], .get 1, .insert 2 [7, 8]] rfl
  exact ⟨cache, rfl, accounting_holds 100 4 cache reached⟩

end BtcRpcProxy.BlockCache
