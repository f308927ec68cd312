import BtcRpcProxy.InterceptCore

/-!
What an intercept can come to, read off the user and the request: a refusal, a request
left to bitcoind, a parameter that is no hash, or an answer by the proxy.
-/

namespace BtcRpcProxy

open Polled Blocks

def verbosityServed (params : List Json) : Bool :=
  match params[1]?.getD (.number (.posInt 1)) with
  | .number number => number.asU64 = some 0 || number.asU64 = some 1
  | _ => false

namespace User

def servesBlock (user : User) (request : RpcRequest) : Bool :=
  match request.params with
  | .array params => user.fetchBlocks && request.method == getBlock && verbosityServed params
  | .object _ => false

def servesTransaction (user : User) (request : RpcRequest) : Bool :=
  match request.params with
  | .array params =>
      user.fetchBlocks && request.method == getRawTransaction && (interceptable params).isSome
  | .object _ => false

def forwards (user : User) (request : RpcRequest) : Bool :=
  user.allows request.method && !user.servesBlock request && !user.servesTransaction request

end User

theorem allows_of_forwards {user : User} {request : RpcRequest} (left : user.forwards request = true) :
    user.allows request.method = true := by
  simp only [User.forwards, Bool.and_eq_true] at left
  exact left.1.1

namespace RpcRequest

def blockHash (request : RpcRequest) : Option Digest :=
  match request.params with
  | .array params => params[0]?.bind readHash
  | .object _ => none

def hasParams (request : RpcRequest) : Bool :=
  match request.params with
  | .array params => !params.isEmpty
  | .object members => !members.isEmpty

end RpcRequest

theorem blockHash_of_noParams {request : RpcRequest} (empty : request.hasParams = false) :
    request.blockHash = none := by
  unfold RpcRequest.hasParams at empty
  unfold RpcRequest.blockHash
  split
  · rename_i params isParams
    rw [isParams] at empty
    have isEmpty : params = [] := by simpa using empty
    simp [isEmpty]
  · rfl

theorem getBlock_ne_getRawTransaction : getBlock ≠ getRawTransaction := by decide

section

variable {user : User} {upstream : Upstream} {request : RpcRequest}

theorem intercept_refused (refused : user.allows request.method = false) :
    user.intercept upstream request = Future.pure (.error methodNotAllowed) := by
  simp [User.intercept, refused]

theorem intercept_forwards (forwards : user.forwards request = true) :
    user.intercept upstream request = Future.pure (.ok none) := by
  simp only [User.forwards, Bool.and_eq_true, Bool.not_eq_true'] at forwards
  obtain ⟨⟨allowed, notBlock⟩, notTransaction⟩ := forwards
  simp only [User.intercept, allowed, if_true]
  cases isParams : request.params with
  | object members => rfl
  | array params =>
      simp only [User.servesBlock, User.servesTransaction, isParams] at notBlock notTransaction
      by_cases block : (user.fetchBlocks && request.method == getBlock) = true
      · simp only [block, if_true]
        rw [block, Bool.true_and, verbosityServed] at notBlock
        split
        · rename_i number verbosity
          simp only [verbosity, Bool.or_eq_false_iff, decide_eq_false_iff_not] at notBlock
          simp [notBlock.1, notBlock.2]
        · rfl
      · simp only [block, Bool.false_eq_true, if_false]
        by_cases transaction : (user.fetchBlocks && request.method == getRawTransaction) = true
        · simp only [transaction, if_true]
          rw [transaction, Bool.true_and, Option.isSome_eq_false_iff, Option.isNone_iff_eq_none]
            at notTransaction
          simp [interceptRawTransaction, notTransaction]
        · simp [transaction]

theorem intercept_servesBlock (upstream : Upstream) (allowed : user.allows request.method = true)
    (serves : user.servesBlock request = true) :
    ∃ params, request.params = .array params ∧
      (user.intercept upstream request = interceptBlockRaw upstream request params ∨
        user.intercept upstream request = interceptBlock upstream request params) := by
  cases isParams : request.params with
  | object members => simp [User.servesBlock, isParams] at serves
  | array params =>
      simp only [User.servesBlock, isParams, Bool.and_eq_true] at serves
      obtain ⟨⟨fetches, isGetBlock⟩, served⟩ := serves
      refine ⟨params, rfl, ?_⟩
      simp only [User.intercept, allowed, if_true, isParams, fetches, isGetBlock, Bool.and_self]
      cases verbosity : params[1]?.getD (.number (.posInt 1)) with
      | number number =>
          simp only [verbosityServed, verbosity, Bool.or_eq_true, decide_eq_true_eq] at served
          by_cases zero : number.asU64 = some 0
          · exact Or.inl (if_pos zero)
          · have one : number.asU64 = some 1 := served.resolve_left zero
            exact Or.inr ((if_neg zero).trans (if_pos one))
      | _ => simp [verbosityServed, verbosity] at served

theorem intercept_servesTransaction (upstream : Upstream)
    (allowed : user.allows request.method = true)
    (serves : user.servesTransaction request = true) :
    ∃ params, interceptable params ≠ none ∧
      user.intercept upstream request = interceptRawTransaction upstream request params := by
  cases isParams : request.params with
  | object members => simp [User.servesTransaction, isParams] at serves
  | array params =>
      simp only [User.servesTransaction, isParams, Bool.and_eq_true] at serves
      obtain ⟨⟨fetches, isMethod⟩, served⟩ := serves
      refine ⟨params, ?_, ?_⟩
      · intro none
        simp [none] at served
      · have notBlock : (request.method == getBlock) = false := by
          rw [beq_iff_eq.mp isMethod, beq_eq_false_iff_ne]
          exact getBlock_ne_getRawTransaction.symm
        simp [User.intercept, allowed, isParams, notBlock, fetches, isMethod]

theorem intercept_noParams (allowed : user.allows request.method = true)
    (serves : user.servesBlock request = true) (empty : request.hasParams = false) :
    user.intercept upstream request = .panic [] := by
  obtain ⟨params, isParams, isBlock⟩ := intercept_servesBlock upstream allowed serves
  have none : params[0]? = none := by
    have isEmpty : params = [] := by simpa [RpcRequest.hasParams, isParams] using empty
    simp [isEmpty]
  rcases isBlock with isBlock | isBlock <;>
    simp [isBlock, interceptBlockRaw, interceptBlock, withBlockHash, none]

theorem intercept_badHash (upstream : Upstream) (allowed : user.allows request.method = true)
    (serves : user.servesBlock request = true) (given : request.hasParams = true)
    (bad : request.blockHash = none) :
    ∃ error, user.intercept upstream request = Future.pure (.error error) := by
  obtain ⟨params, isParams, isBlock⟩ := intercept_servesBlock upstream allowed serves
  cases first : params with
  | nil => simp [RpcRequest.hasParams, isParams, first] at given
  | cons value rest =>
      have unreadable : readHash value = none := by
        simpa [RpcRequest.blockHash, isParams, first] using bad
      refine ⟨RpcError.ofError (upstream.hashError value), ?_⟩
      rcases isBlock with isBlock | isBlock <;>
        simp [isBlock, interceptBlockRaw, interceptBlock, withBlockHash, first, unreadable]

end

/-! What the awaited calls and fetches give. -/

structure Upstream.Ends (upstream : Upstream) : Prop where
  fetches : ∀ hash, ∃ result, (upstream.fetchBlockRaw hash).value = some result
  headers : ∀ call, ∃ result, (upstream.header call).value = some result
  decodes : ∀ call, ∃ result, (upstream.decoded call).value = some result

/-- A reply to a verbose `getblockheader` is a header or an error, never bytes. -/
def Upstream.HeadersVerbose (upstream : Upstream) : Prop :=
  ∀ hash reply, (upstream.callHeader hash).value = some (.ok reply) → ∃ header, reply = .right header

/-- The proxy answers itself, or fails on a header that came as bytes. -/
def AnswersItself (upstream : Upstream) (outcome : Outcome) : Prop :=
  (∃ response, outcome = .ok (some response)) ∨
    (¬upstream.HeadersVerbose ∧ ∃ error, outcome = .error error)

section

variable {user : User} {upstream : Upstream} {request : RpcRequest} {params : List Json}
variable {hash : Digest} {outcome : Outcome}

theorem interceptBlockRaw_answers (isHash : params[0]?.bind readHash = some hash)
    (settles : (interceptBlockRaw upstream request params).value = some outcome) :
    AnswersItself upstream outcome := by
  obtain ⟨value, isFirst, isHash⟩ := Option.bind_eq_some_iff.mp isHash
  simp only [interceptBlockRaw, withBlockHash, isFirst, isHash, Future.value_map,
    Option.map_eq_some_iff] at settles
  obtain ⟨fetched, _, rfl⟩ := settles
  rcases fetched with error | _ | block
  · exact Or.inl ⟨_, rfl⟩
  · exact Or.inl ⟨_, rfl⟩
  · exact Or.inl ⟨_, rfl⟩

theorem interceptBlock_answers (isHash : params[0]?.bind readHash = some hash)
    (settles : (interceptBlock upstream request params).value = some outcome) :
    AnswersItself upstream outcome := by
  obtain ⟨value, isFirst, isHash⟩ := Option.bind_eq_some_iff.mp isHash
  simp only [interceptBlock, withBlockHash, isFirst, isHash, Future.value_map,
    Option.map_eq_some_iff] at settles
  obtain ⟨joined, isJoined, rfl⟩ := settles
  rcases joined with error | ⟨reply, _ | block⟩
  · exact Or.inl ⟨_, rfl⟩
  · exact Or.inl ⟨_, rfl⟩
  · cases reply with
    | right header => exact Or.inl ⟨_, rfl⟩
    | left bytes =>
        refine Or.inr ⟨fun verbose => ?_, _, rfl⟩
        obtain ⟨header, isRight⟩ := verbose hash (.left bytes) (Future.tryJoin_value_ok isJoined).1
        simp at isRight

theorem interceptRawTransaction_answers (served : interceptable params ≠ none)
    (settles : (interceptRawTransaction upstream request params).value = some outcome) :
    AnswersItself upstream outcome := by
  obtain ⟨⟨txid, verbose, blockhash⟩, isCall⟩ := Option.ne_none_iff_exists'.mp served
  simp only [interceptRawTransaction, isCall, Future.value_bind, Option.bind_eq_some_iff] at settles
  obtain ⟨fetched, _, settles⟩ := settles
  refine Or.inl ?_
  rcases fetched with error | _ | block
  · exact ⟨_, (Option.some.inj settles).symm⟩
  · exact ⟨_, (Option.some.inj settles).symm⟩
  · cases found : block.txdata.find? fun transaction => transaction.txid upstream.sha256d = txid with
    | none =>
        simp only [found] at settles
        exact ⟨_, (Option.some.inj settles).symm⟩
    | some transaction =>
        cases verbose with
        | false =>
            simp only [found] at settles
            exact ⟨_, (Option.some.inj settles).symm⟩
        | true =>
            simp only [found, Bool.not_true, Bool.false_eq_true, if_false, Future.value_map,
              Option.map_eq_some_iff] at settles
            obtain ⟨joined, _, rfl⟩ := settles
            rcases joined with error | ⟨decoded, bytes | header⟩
            · exact ⟨_, rfl⟩
            · exact ⟨_, rfl⟩
            · exact ⟨_, rfl⟩

theorem intercept_answers (allowed : user.allows request.method = true)
    (kept : user.forwards request = false)
    (named : user.servesBlock request = true → request.blockHash ≠ none)
    (settles : (user.intercept upstream request).value = some outcome) :
    AnswersItself upstream outcome := by
  by_cases block : user.servesBlock request = true
  · obtain ⟨params, isParams, isBlock⟩ := intercept_servesBlock upstream allowed block
    obtain ⟨digest, isHash⟩ := Option.ne_none_iff_exists'.mp (named block)
    have first : params[0]?.bind readHash = some digest := by
      simpa [RpcRequest.blockHash, isParams] using isHash
    rcases isBlock with isBlock | isBlock
    · exact interceptBlockRaw_answers first (isBlock ▸ settles)
    · exact interceptBlock_answers first (isBlock ▸ settles)
  · have transaction : user.servesTransaction request = true := by
      simpa [User.forwards, allowed, block] using kept
    obtain ⟨params, served, isTransaction⟩ :=
      intercept_servesTransaction upstream allowed transaction
    exact interceptRawTransaction_answers served (isTransaction ▸ settles)

/-! Ends of the awaited calls. -/

theorem fetchBlock_ends (ends : upstream.Ends) (hash : Digest) :
    ∃ result, (upstream.fetchBlock hash).value = some result := by
  obtain ⟨result, isResult⟩ := ends.fetches hash
  exact ⟨_, by rw [Upstream.fetchBlock, Future.value_map, isResult, Option.map_some]⟩

theorem callHeader_ends (ends : upstream.Ends) (hash : Digest) :
    ∃ result, (upstream.callHeader hash).value = some result := by
  obtain ⟨result, isResult⟩ := ends.headers (headerCall hash)
  exact ⟨_, by rw [Upstream.callHeader, Future.value_map, isResult, Option.map_some]⟩

theorem callDecode_ends (ends : upstream.Ends) (transaction : String) :
    ∃ result, (upstream.callDecode transaction).value = some result := by
  obtain ⟨result, isResult⟩ := ends.decodes (decodeCall transaction)
  exact ⟨_, by rw [Upstream.callDecode, Future.value_map, isResult, Option.map_some]⟩

theorem tryJoin_ends {Left Right : Type} {left : Future InternalCall (Except RpcError Left)}
    {right : Future InternalCall (Except RpcError Right)}
    (leftEnds : ∃ result, left.value = some result) (rightEnds : ∃ result, right.value = some result) :
    ∃ result, (Future.tryJoin left right).value = some result := by
  obtain ⟨leftResult, isLeft⟩ := leftEnds
  obtain ⟨rightResult, isRight⟩ := rightEnds
  rcases Future.tryJoin_value isLeft isRight with ⟨_, _, _, _, joined⟩ | ⟨_, _, joined⟩
  · exact ⟨_, joined⟩
  · exact ⟨_, joined⟩

theorem withBlockHash_ends {next : Digest → Future InternalCall Outcome} (given : params ≠ [])
    (nextEnds : ∀ hash, ∃ outcome, (next hash).value = some outcome) :
    ∃ outcome, (withBlockHash upstream params next).value = some outcome := by
  obtain ⟨value, rest, rfl⟩ := List.exists_cons_of_ne_nil given
  simp only [withBlockHash, List.getElem?_cons_zero]
  cases readHash value with
  | none => exact ⟨_, Future.value_pure _⟩
  | some hash => exact nextEnds hash

theorem interceptRawTransaction_ends (ends : upstream.Ends) :
    ∃ outcome, (interceptRawTransaction upstream request params).value = some outcome := by
  unfold interceptRawTransaction
  split
  · exact ⟨_, Future.value_pure _⟩
  · rename_i txid verbose blockhash _
    obtain ⟨fetched, isFetched⟩ := fetchBlock_ends ends blockhash
    rw [Future.value_bind, isFetched, Option.bind_some]
    rcases fetched with error | _ | block
    · exact ⟨_, rfl⟩
    · exact ⟨_, rfl⟩
    · dsimp only
      split
      · exact ⟨_, rfl⟩
      · rename_i transaction _
        split
        · exact ⟨_, rfl⟩
        · obtain ⟨joined, isJoined⟩ := tryJoin_ends
            (callDecode_ends ends (hexEncode transaction.encode)) (callHeader_ends ends blockhash)
          exact ⟨_, by rw [Future.value_map, isJoined, Option.map_some]⟩

def User.crashes (user : User) (request : RpcRequest) : Bool :=
  user.allows request.method && user.servesBlock request && !request.hasParams

def User.rejects (user : User) (request : RpcRequest) : Bool :=
  user.allows request.method && user.servesBlock request && request.hasParams &&
    request.blockHash.isNone

theorem intercept_ends (ends : upstream.Ends) (noCrash : user.crashes request = false) :
    ∃ outcome, (user.intercept upstream request).value = some outcome := by
  by_cases allowed : user.allows request.method = true
  · by_cases forwards : user.forwards request = true
    · exact ⟨_, by rw [intercept_forwards forwards, Future.value_pure]⟩
    · by_cases block : user.servesBlock request = true
      · obtain ⟨params, isParams, isBlock⟩ := intercept_servesBlock upstream allowed block
        have given : params ≠ [] := by
          rintro rfl
          simp [User.crashes, allowed, block, RpcRequest.hasParams, isParams] at noCrash
        rcases isBlock with isBlock | isBlock
        · rw [isBlock]
          refine withBlockHash_ends given fun hash => ?_
          obtain ⟨result, isResult⟩ := ends.fetches hash
          exact ⟨_, by rw [Future.value_map, isResult, Option.map_some]⟩
        · rw [isBlock]
          refine withBlockHash_ends given fun hash => ?_
          obtain ⟨joined, isJoined⟩ := tryJoin_ends (callHeader_ends ends hash) (fetchBlock_ends ends hash)
          exact ⟨_, by rw [Future.value_map, isJoined, Option.map_some]⟩
      · have transaction : user.servesTransaction request = true := by
          simpa [User.forwards, allowed, block] using forwards
        obtain ⟨params, _, isTransaction⟩ :=
          intercept_servesTransaction upstream allowed transaction
        rw [isTransaction]
        exact interceptRawTransaction_ends ends
  · exact ⟨_, by rw [intercept_refused (by simpa using allowed), Future.value_pure]⟩

theorem intercept_panics_iff (ends : upstream.Ends) :
    (user.intercept upstream request).value = none ↔ user.crashes request = true := by
  constructor
  · intro panics
    by_contra noCrash
    obtain ⟨outcome, isOutcome⟩ := intercept_ends ends (by simpa using noCrash)
    simp [isOutcome] at panics
  · intro crashes
    simp only [User.crashes, Bool.and_eq_true, Bool.not_eq_true'] at crashes
    rw [intercept_noParams crashes.1.1 crashes.1.2 crashes.2]
    rfl

theorem intercept_rejects (upstream : Upstream) (rejects : user.rejects request = true) :
    ∃ error, user.intercept upstream request = Future.pure (.error error) := by
  simp only [User.rejects, Bool.and_eq_true, Option.isNone_iff_eq_none] at rejects
  obtain ⟨⟨⟨allowed, serves⟩, params⟩, unnamed⟩ := rejects
  exact intercept_badHash upstream allowed serves params unnamed

/-- What an allowed call settles on: it is left to bitcoind, or rejected, or answered. -/
theorem intercept_outcome (allowed : user.allows request.method = true)
    (settles : (user.intercept upstream request).value = some outcome) :
    (user.forwards request = true ∧ outcome = .ok none) ∨
    (user.rejects request = true ∧ ∃ error, outcome = .error error) ∨
    (user.forwards request = false ∧ user.rejects request = false ∧ AnswersItself upstream outcome) := by
  by_cases forwards : user.forwards request = true
  · rw [intercept_forwards forwards, Future.value_pure, Option.some.injEq] at settles
    exact Or.inl ⟨forwards, settles.symm⟩
  · rw [Bool.not_eq_true] at forwards
    by_cases rejects : user.rejects request = true
    · obtain ⟨error, isError⟩ := intercept_rejects upstream rejects
      rw [isError, Future.value_pure, Option.some.injEq] at settles
      exact Or.inr (Or.inl ⟨rejects, error, settles.symm⟩)
    · rw [Bool.not_eq_true] at rejects
      refine Or.inr (Or.inr ⟨forwards, rejects, intercept_answers allowed forwards ?_ settles⟩)
      intro serves unnamed
      by_cases params : request.hasParams = true
      · simp [User.rejects, allowed, serves, params, unnamed] at rejects
      · rw [intercept_noParams allowed serves (by simpa using params)] at settles
        simp [Future.value] at settles

theorem intercept_forwards_iff :
    (user.intercept upstream request).value = some (.ok none) ↔ user.forwards request = true := by
  constructor
  · intro left
    by_cases allowed : user.allows request.method = true
    · rcases intercept_outcome allowed left with
        ⟨forwards, _⟩ | ⟨_, error, isError⟩ | ⟨_, _, ⟨response, isResponse⟩ | ⟨_, error, isError⟩⟩
      · exact forwards
      · simp at isError
      · simp at isResponse
      · simp at isError
    · rw [intercept_refused (by simpa using allowed)] at left
      simp at left
  · intro forwards
    rw [intercept_forwards forwards, Future.value_pure]

end

end BtcRpcProxy
