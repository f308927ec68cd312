import BtcRpcProxy.RpcCallCore

/-!
The HTTP statuses of errors. Where a reply is read the status of its error is skipped, so that no error of
bitcoind's or of a peer's has one, in front of whatever node.
-/

namespace BtcRpcProxy

open CredentialFailures Polled Polled.Future Blocks

def Quiet {Value : Type} (future : Future InternalCall (Except RpcError Value)) : Prop :=
  ∀ error, future.value = some (.error error) → error.status = none

structure Upstream.Statusless (upstream : Upstream) : Prop where
  fetches : ∀ hash, Quiet (upstream.fetchBlockRaw hash)
  headers : ∀ hash, Quiet (upstream.callHeader hash)
  decodes : ∀ transaction, Quiet (upstream.callDecode transaction)

theorem quiet_tryJoin {Left Right : Type} {left : Future InternalCall (Except RpcError Left)}
    {right : Future InternalCall (Except RpcError Right)} (leftQuiet : Quiet left) (rightQuiet : Quiet right) :
    Quiet (tryJoin left right) := by
  intro error isError
  rcases tryJoin_value_error isError with isLeft | isRight
  · exact leftQuiet error isLeft
  · exact rightQuiet error isRight

theorem Upstream.Statusless.fetchesBlock {upstream : Upstream} (statusless : upstream.Statusless) (hash : Digest) :
    Quiet (upstream.fetchBlock hash) := by
  intro error isError
  rw [Upstream.fetchBlock, value_map, Option.map_eq_some_iff] at isError
  obtain ⟨fetched, isFetched, same⟩ := isError
  rcases fetched with first | _ | bytes
  · obtain rfl := Except.error.inj same
    exact statusless.fetches hash first isFetched
  · simp at same
  · simp only at same
    cases decoded : upstream.decodeBlock bytes with
    | error failure =>
        rw [decoded] at same
        obtain rfl := Except.error.inj same
        rfl
    | ok block =>
        rw [decoded] at same
        simp [Except.map, Except.mapError] at same

theorem RpcError.read_plain {reply : Json} {error : RpcError} (isRead : RpcError.read reply = some error) :
    error.status = none := by
  simp only [RpcError.read, Option.bind_eq_bind, Option.pure_def, Option.bind_eq_some_iff,
    Option.some.injEq] at isRead
  obtain ⟨_, _, _, _, _, _, rfl⟩ := isRead
  rfl

section

variable {Response : Type} {readResult : Json → Option Response}

def PlainReply (response : RpcResponse Response) : Prop := ∀ error, response.error = some error → error.status = none

theorem RpcResponse.read_plain {reply : Json} {response : RpcResponse Response}
    (isRead : RpcResponse.read readResult reply = some response) : PlainReply response := by
  simp only [RpcResponse.read, Option.bind_eq_bind, Option.pure_def, Option.bind_eq_some_iff,
    Option.some.injEq] at isRead
  obtain ⟨members, _, id, _, error, isError, result, _, rfl⟩ := isRead
  rintro first rfl
  unfold readOptional at isError
  split at isError
  · simp at isError
  · simp at isError
  · obtain ⟨read, isFirst, same⟩ := Option.map_eq_some_iff.mp isError
    exact RpcError.read_plain (isFirst.trans same)

theorem intoResult_plain {response : RpcResponse Response} (plain : PlainReply response)
    {fromNull : Except AnyhowError Response} {error : RpcError}
    (isError : response.intoResult fromNull = .error error) : error.status = none := by
  unfold RpcResponse.intoResult at isError
  split at isError
  · rename_i first isFirst
    obtain rfl := Except.error.inj isError
    exact plain first isFirst
  · split at isError
    · simp at isError
    · cases fromNull with
      | error failure =>
          obtain rfl := Except.error.inj isError
          rfl
      | ok value => simp [Except.mapError] at isError

variable {node : Node} {call : InternalCall} {env : Environment} {secret : Secret}

theorem ask_plain {authorization : HeaderValue} {response : RpcResponse Response}
    (isValue : (node.ask readResult call authorization).value = some (.ok response)) : PlainReply response := by
  rw [Node.ask, value_map, Option.map_eq_some_iff] at isValue
  obtain ⟨posted, _, isRead⟩ := isValue
  unfold Node.readResponse at isRead
  split at isRead
  · simp at isRead
  · split at isRead
    · rename_i read isReply
      obtain rfl := Except.ok.inj isRead
      obtain ⟨reply, _, isReply⟩ := Option.bind_eq_some_iff.mp isReply
      exact RpcResponse.read_plain isReply
    · split at isRead <;> simp at isRead

theorem call_plain {step : LoadStep} {response : RpcResponse Response}
    (isValue : (env.call secret step (node.ask readResult call)).value = some (.ok response)) :
    PlainReply response := by
  rw [Environment.call, value_bind, value_silent, Option.bind_eq_some_iff] at isValue
  obtain ⟨loaded, _, isValue⟩ := isValue
  cases loaded with
  | error error => simp at isValue
  | ok authorization => exact ask_plain isValue

end

section

variable {node : Node} {env : Environment} {secret : Secret}
  {askPeer : Nat → Nat → String → NetworkParams → Digest → Future Empty (Option Block)}

theorem fetchBlockFromSelf_quiet (place : Nat) (hash : Digest) :
    Quiet ((node.serving env askPeer).fetchBlockFromSelf secret place hash) := by
  intro error isError
  rw [Environment.fetchBlockFromSelf, value_map, Option.map_eq_some_iff] at isError
  obtain ⟨called, isCalled, same⟩ := isError
  cases called with
  | error failure =>
      obtain rfl := Except.error.inj same
      rfl
  | ok response =>
      simp only [FetchBlocks.fetchBlockFromSelf] at same
      split at same
      · split at same
        · simp at same
        · obtain rfl := Except.error.inj same
          rfl
      · rename_i first isFirst
        split at same
        · simp at same
        · obtain rfl := Except.error.inj same
          exact intoResult_plain (call_plain isCalled) isFirst

theorem fetchBlockRaw_quiet (place : Nat) (hash : Digest) :
    Quiet ((node.serving env askPeer).fetchBlockRaw secret place hash) := by
  intro error isError
  unfold Environment.fetchBlockRaw at isError
  split at isError
  · simp at isError
  · rw [value_bind, Option.bind_eq_some_iff] at isError
    obtain ⟨fetched, isFetched, isError⟩ := isError
    rcases fetched with first | _ | bytes
    · obtain rfl := Except.error.inj (Option.some.inj isError)
      exact fetchBlockFromSelf_quiet place hash first isFetched
    · rw [value_bind, Option.bind_eq_some_iff] at isError
      obtain ⟨peers, _, isError⟩ := isError
      cases peers with
      | error failure =>
          obtain rfl := Except.error.inj (Option.some.inj isError)
          rfl
      | ok addrs =>
          rw [value_map, Option.map_eq_some_iff] at isError
          obtain ⟨block, _, same⟩ := isError
          simp at same
    · simp at isError

theorem serving_statusless (place : Nat) : ((node.serving env askPeer).upstream secret place).Statusless := by
  constructor
  · exact fun hash => fetchBlockRaw_quiet place hash
  · intro hash error isError
    rw [Upstream.callHeader, value_map, Option.map_eq_some_iff] at isError
    obtain ⟨called, isCalled, same⟩ := isError
    cases called with
    | error failure =>
        obtain rfl := Except.error.inj same
        rfl
    | ok response => exact intoResult_plain (call_plain isCalled) same
  · intro transaction error isError
    rw [Upstream.callDecode, value_map, Option.map_eq_some_iff] at isError
    obtain ⟨called, isCalled, same⟩ := isError
    cases called with
    | error failure =>
        obtain rfl := Except.error.inj same
        rfl
    | ok response => exact intoResult_plain (call_plain isCalled) same

end

end BtcRpcProxy
