import BtcRpcProxy.RpcCallCore

/-!
What a fetch may meet, from the cache to the last peer, and what a request comes to that fetches a block
in an environment made of it.
-/

namespace BtcRpcProxy.FetchBlocks

open Blocks CredentialFailures Polled

/-- `asked` are the peers in the order in which they are asked, each with the block it sends, and without
one where it fails or is not asked any more. -/
structure Fate where
  cached : Option (List UInt8)
  called : Except ClientError (RpcResponse BlockReply)
  update : Option (Except PeerUpdateError (List PeerInfo))
  asked : List (String × Option Block)

def Fate.updateReply (fate : Fate) : Except ClientError (RpcResponse (List PeerInfo)) :=
  match fate.update with
  | none => .ok { id := none, error := none, result := some [] }
  | some (.ok infos) => .ok { id := none, error := none, result := some infos }
  | some (.error (.rpc error)) => .ok { id := none, error := some error, result := none }
  | some (.error (.client error)) => .error error

/-- The fetch at each place meets its fate; `params` are those of the network, once it is known. -/
def meeting (base : Environment) (params : NetworkParams) (fates : Nat → Fate) : Environment :=
  { base with
    tryLoad := fun step =>
      match step with
      | .block _ => Future.pure (.ok [])
      | .peers _ => Future.pure (.ok [])
      | other => base.tryLoad other,
    getBlock := fun place hash _ => .ready [blockCall hash] (fates place).called,
    getPeerInfo := fun place _ => .ready [peerInfoCall] (fates place).updateReply,
    cached := fun place _ => (fates place).cached,
    stale := fun place => (fates place).update.isSome,
    listed := fun place => if (fates place).update.isSome then [] else (fates place).asked.map Prod.fst,
    network := fun _ _ => some params,
    order := fun place _ => (fates place).asked.map Prod.fst,
    askPeer := fun place peer _ _ _ => Future.pure ((fates place).asked[peer]?.bind Prod.snd) }

section

variable {base : Environment} {secret : Secret} {params : NetworkParams} {fates : Nat → Fate} {place : Nat}
  {hash : Digest}

theorem meeting_self : (meeting base params fates).fetchBlockFromSelf secret place hash =
    .ready [blockCall hash] (fetchBlockFromSelf (base.fromNull "getblock") (fates place).called) := rfl

theorem meeting_peers {asked : List (String × Option Block)} {peer : Nat}
    (left : (fates place).asked.drop peer = asked) :
    (meeting base params fates).fetchBlockFromPeers secret place hash peer (asked.map Prod.fst) =
      .ready [] (asked.findSome? Prod.snd) := by
  induction asked generalizing peer with
  | nil => rfl
  | cons entry rest ih =>
      have found : (fates place).asked[peer]? = some entry := by
        rw [← List.head?_drop, left, List.head?_cons]
      have later : (fates place).asked.drop (peer + 1) = rest := by
        rw [← List.tail_drop, left, List.tail_cons]
      have fetched : (meeting base params fates).fetchBlockFromPeer secret place peer entry.1 hash =
          .ready [] entry.2 := by
        simp [Environment.fetchBlockFromPeer, Environment.networkParams, meeting, Future.pure, Future.bind,
          Future.emit, found]
      rw [List.map_cons, Environment.fetchBlockFromPeers, fetched]
      cases sent : entry.2 with
      | some block => simp [Future.bind, Future.emit, Future.pure, sent]
      | none => simp [Future.bind, Future.emit, ih later, sent]

theorem meeting_getPeers : (meeting base params fates).getPeers secret place =
    match (fates place).update with
    | none => .ready [] (.ok ((fates place).asked.map Prod.fst))
    | some (.ok infos) => .ready [peerInfoCall] (.ok ((infos.filter PeerInfo.fetchable).map PeerInfo.addr))
    | some (.error failure) => .ready [peerInfoCall] (.error failure.intoError) := by
  cases isUpdate : (fates place).update with
  | none => simp [Environment.getPeers, meeting, isUpdate, Future.pure]
  | some update =>
      rcases update with (error | error) | infos <;>
        simp [Environment.getPeers, Environment.updated, Environment.call, Environment.load, meeting, isUpdate,
          Fate.updateReply, Future.pure, Future.map, Future.bind, Future.emit, Future.silent, Future.mapEffect,
          RpcResponse.intoResult, Except.mapError]

theorem meeting_pruned (uncached : (fates place).cached = none)
    (pruned : fetchBlockFromSelf (base.fromNull "getblock") (fates place).called = .ok none) :
    (meeting base params fates).fetchBlockRaw secret place hash =
      match (fates place).update with
      | some (.error failure) =>
          .ready [blockCall hash, peerInfoCall] (.error (RpcError.ofError failure.intoError))
      | some (.ok _) =>
          .ready [blockCall hash, peerInfoCall]
            (.ok (((fates place).asked.findSome? Prod.snd).map Block.encode))
      | none =>
          .ready [blockCall hash] (.ok (((fates place).asked.findSome? Prod.snd).map Block.encode)) := by
  have isCached : (meeting base params fates).cached place hash = none := uncached
  have ordered : ∀ addrs, (meeting base params fates).order place addrs = (fates place).asked.map Prod.fst :=
    fun _ => rfl
  have asked : (meeting base params fates).fetchBlockFromPeers secret place hash 0
      ((fates place).asked.map Prod.fst) = .ready [] ((fates place).asked.findSome? Prod.snd) :=
    meeting_peers rfl
  rw [Environment.fetchBlockRaw, isCached, meeting_self, pruned]
  simp only [Future.bind, Future.emit, meeting_getPeers]
  rcases (fates place).update with _ | failure | infos <;>
    simp [Future.bind, Future.emit, Future.map, Future.pure, ordered, asked]

end

/-- A request to which the fetch at its place has this fate makes these calls for it and gets this result. -/
def Fate.Gives (blockFromNull : AnyhowError) (hash : Digest) (fate : Fate) (calls : List InternalCall)
    (result : Except RpcError (Option (List UInt8))) : Prop :=
  ∀ (base : Environment) (secret : Secret) (params : NetworkParams) (fates : Nat → Fate) (place : Nat),
    base.fromNull "getblock" = blockFromNull → fates place = fate →
      (meeting base params fates).fetchBlockRaw secret place hash = .ready calls result

section

variable {blockFromNull : AnyhowError} {hash : Digest} {fate : Fate}

theorem gives_fetched (uncached : fate.cached = none)
    (pruned : fetchBlockFromSelf blockFromNull fate.called = .ok none)
    (updated : ∀ update, fate.update = some update → ∃ infos, update = .ok infos) :
    fate.Gives blockFromNull hash (blockCall hash :: if fate.update.isSome then [peerInfoCall] else [])
      (.ok ((fate.asked.findSome? Prod.snd).map Block.encode)) := by
  rintro base secret params fates place rfl rfl
  rw [meeting_pruned uncached pruned]
  cases isUpdate : (fates place).update with
  | none => rfl
  | some update =>
      obtain ⟨infos, rfl⟩ := updated update isUpdate
      rfl

end

end BtcRpcProxy.FetchBlocks
