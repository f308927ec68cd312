import BtcRpcProxy.FetchBlocksCore

/-!
The peer list (`State::get_peers` and `Peers` in `fetch_blocks.rs`) with the time it was fetched: any
number of `get_peers` calls over one list, each with the refresh it spawned, which goes on when the
call has returned or is dropped. A use of the lock is one step; a refresh reads the clock before it
waits for the lock. What bitcoind answers, failures and the passing of time come in any order.
-/

namespace BtcRpcProxy.PeerList

open Interleaved

/-- `fetched` is an instant of the monotonic clock. The pools of the peers are left out. -/
structure Peers where
  fetched : Option Nat
  peers : List String
  deriving DecidableEq, Repr

namespace Peers

def new : Peers := { fetched := none, peers := [] }

def stale (peers : Peers) (maxPeerAge now : Nat) : Bool :=
  (peers.fetched.map fun fetched => decide (now - fetched > maxPeerAge)).getD true

def isEmpty (peers : Peers) : Bool := peers.peers.isEmpty

/-- The clock is read when the reply is there. -/
def updated (now : Nat) (infos : List PeerInfo) : Peers :=
  { peers := (infos.filter FetchBlocks.PeerInfo.fetchable).map PeerInfo.addr,
    fetched := some now }

end Peers

/-- The spawned task. `failed` is an error of the update, or the task's own end before it is done. -/
inductive Refresh
  | updating
  | writing (peers : Peers)
  | stored (peers : Peers)
  | failed (error : AnyhowError)

inductive Progress
  | started
  | listed (peers : Peers)
  | awaiting
  | returned (result : Except AnyhowError (List String))
  | dropped

/-- The list a call has read, and when it asked whether the list is stale. -/
structure Check where
  peers : Peers
  moment : Nat

structure Call where
  progress : Progress
  check : Option Check
  refresh : Option Refresh

structure Shared where
  peers : Peers
  clock : Nat

def Shared.new (clock : Nat) : Shared := { peers := Peers.new, clock }

inductive Event
  | read
  | check
  | updated (called : Except AnyhowError (List PeerInfo))
  | store
  | cancelled (error : AnyhowError)
  | joined
  | dropped

/-- The refresh is awaited only where there is no peer at all. -/
def checkStale (maxPeerAge now : Nat) (call : Call) (peers : Peers) : Call :=
  let checked := { call with check := some { peers, moment := now } }
  if peers.stale maxPeerAge now then
    { checked with
      progress := if peers.isEmpty then .awaiting else .returned (.ok peers.peers),
      refresh := some .updating }
  else { checked with progress := .returned (.ok peers.peers) }

def getPeers (maxPeerAge : Nat) (shared : Shared) (call : Call) : Event → Option (Shared × Call)
  | .read =>
      match call.progress with
      | .started => some (shared, { call with progress := .listed shared.peers })
      | _ => none
  | .check =>
      match call.progress with
      | .listed peers => some (shared, checkStale maxPeerAge shared.clock call peers)
      | _ => none
  | .updated called =>
      match call.refresh, called with
      | some .updating, .ok infos =>
          some (shared, { call with refresh := some (.writing (Peers.updated shared.clock infos)) })
      | some .updating, .error error => some (shared, { call with refresh := some (.failed error) })
      | _, _ => none
  | .store =>
      match call.refresh with
      | some (.writing peers) => some ({ shared with peers }, { call with refresh := some (.stored peers) })
      | _ => none
  | .cancelled error =>
      match call.refresh with
      | some .updating => some (shared, { call with refresh := some (.failed error) })
      | some (.writing _) => some (shared, { call with refresh := some (.failed error) })
      | _ => none
  | .joined =>
      match call.progress, call.refresh with
      | .awaiting, some (.stored peers) =>
          some (shared, { call with progress := .returned (.ok peers.peers) })
      | .awaiting, some (.failed error) => some (shared, { call with progress := .returned (.error error) })
      | _, _ => none
  | .dropped =>
      match call.progress with
      | .returned _ => none
      | .dropped => none
      | _ => some (shared, { call with progress := .dropped })

/-- Outside the calls time passes. -/
def system (maxPeerAge : Nat) : System Shared Call Unit Event Nat :=
  { start := fun _ => { progress := .started, check := none, refresh := none },
    advance := getPeers maxPeerAge,
    outside := fun shared duration => some { shared with clock := shared.clock + duration } }

end BtcRpcProxy.PeerList
