import Mathlib.Data.List.AList

/-! The bounded in-memory cache of peer-fetched blocks (`block_cache.rs`). -/

namespace BtcRpcProxy

abbrev Bytes := List UInt8

/-- `usize` addition; `none` is the overflow panic. -/
def checkedAdd (usizeMax left right : Nat) : Option Nat :=
  if left + right ≤ usizeMax then some (left + right) else none

/-- `usize` subtraction; `none` is the underflow panic. -/
def checkedSub (left right : Nat) : Option Nat :=
  if right ≤ left then some (left - right) else none

/-- `order` has the least recently used at the front, where eviction takes from. -/
structure Inner (BlockHash : Type) where
  blocks : AList (fun _ : BlockHash => Bytes)
  order : List BlockHash
  bytes : Nat

structure BlockCache (BlockHash : Type) where
  maxBytes : Nat
  inner : Inner BlockHash

namespace BlockCache

variable {BlockHash : Type}

/-- Zero `maxBytes` disables the cache. -/
def new (maxBytes : Nat) : BlockCache BlockHash :=
  { maxBytes, inner := { blocks := ∅, order := [], bytes := 0 } }

def enabled (cache : BlockCache BlockHash) : Bool := decide (0 < cache.maxBytes)

def stats (cache : BlockCache BlockHash) : Nat × Nat :=
  (cache.inner.blocks.keys.length, cache.inner.bytes)

variable [DecidableEq BlockHash]

/-- `order.position`, `remove` and `push_back`: the hash moves to the back. -/
def touch (hash : BlockHash) (order : List BlockHash) : List BlockHash :=
  if hash ∈ order then order.erase hash ++ [hash] else order

def get (cache : BlockCache BlockHash) (hash : BlockHash) : Option Bytes × BlockCache BlockHash :=
  if cache.enabled then
    match cache.inner.blocks.lookup hash with
    | none => (none, cache)
    | some block =>
        (some block, { cache with inner := { cache.inner with order := touch hash cache.inner.order } })
  else (none, cache)

/-- The `while inner.bytes > max_bytes` loop, on the queue it pops from the front of. -/
def evict (maxBytes : Nat) (blocks : AList (fun _ : BlockHash => Bytes)) (bytes : Nat) :
    List BlockHash → Option (Inner BlockHash)
  | [] => some { blocks, order := [], bytes }
  | evicted :: rest =>
      if maxBytes < bytes then
        match blocks.lookup evicted with
        | some block =>
            match checkedSub bytes block.length with
            | some remaining => evict maxBytes (blocks.erase evicted) remaining rest
            | none => none
        | none => evict maxBytes blocks bytes rest
      else some { blocks, order := evicted :: rest, bytes }

/-- `none` is a panic on `usize` arithmetic. -/
def insert (usizeMax : Nat) (cache : BlockCache BlockHash) (hash : BlockHash) (block : Bytes) :
    Option (BlockCache BlockHash) :=
  if cache.enabled then
    if cache.maxBytes < block.length then some cache
    else if hash ∈ cache.inner.blocks then some cache
    else
      match checkedAdd usizeMax cache.inner.bytes block.length with
      | none => none
      | some bytes =>
          match evict cache.maxBytes (cache.inner.blocks.insert hash block) bytes
              (cache.inner.order ++ [hash]) with
          | none => none
          | some inner => some { cache with inner }
  else some cache

inductive Call (BlockHash : Type)
  | get (hash : BlockHash)
  | insert (hash : BlockHash) (block : Bytes)

def apply (usizeMax : Nat) (cache : BlockCache BlockHash) : Call BlockHash → Option (BlockCache BlockHash)
  | .get hash => some (cache.get hash).2
  | .insert hash block => cache.insert usizeMax hash block

end BlockCache

end BtcRpcProxy
