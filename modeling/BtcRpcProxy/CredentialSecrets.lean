import BtcRpcProxy.CredentialFailuresCore
import BtcRpcProxy.InterceptOutcomes
import BtcRpcProxy.RelatedFutures

/-!
A request under two secrets, up to its outcome. Whatever fails to load, the two runs go side by side;
the one place where they can part is an update of the peers that a fetch waits for.
-/

namespace BtcRpcProxy.CredentialFailures

open Polled Polled.Future Blocks

inductive SameClientError : ClientError → ClientError → Prop
  | same {error : ClientError} : SameClientError error error
  | loadAuth {error error' : AuthLoadError} : SameClientError (.loadAuth error) (.loadAuth error')

theorem ofClientError_same {error error' : ClientError} (isSame : SameClientError error error') :
    RpcError.ofClientError error = RpcError.ofClientError error' := by
  cases isSame with
  | same => rfl
  | loadAuth => rfl

def SameError (shown : Prop) (error error' : RpcError) : Prop :=
  error = error' ∨ (¬shown ∧ error.status = none ∧ error'.status = none)

theorem sameError_refl (shown : Prop) (error : RpcError) : SameError shown error error := Or.inl rfl

theorem agree_refl {Error Value : Type} {sameError : Error → Error → Prop}
    (isRefl : ∀ error, sameError error error) (result : Except Error Value) :
    Agree sameError result result := by
  cases result with
  | error error => exact Agree.error (isRefl error)
  | ok value => exact Agree.ok

/-- The update of the peers that a fetch waits for fails, and the error names the file. -/
structure Exposed (env : Environment) (place : Nat) (hash : Digest) : Prop where
  uncached : env.cached place hash = none
  pruned : ∃ authorization called, (env.tryLoad (.block place)).value = some (.ok authorization) ∧
    (env.getBlock place hash authorization).value = some called ∧
    FetchBlocks.fetchBlockFromSelf (env.fromNull "getblock") called = .ok none
  stale : env.stale place = true
  unlisted : env.listed place = []
  failed : ∃ failure, (env.tryLoad (.peers place)).value = some (.error failure) ∧
    failure.namesFile = true

section

variable {env : Environment} {secret secret' : Secret} {place : Nat} {hash : Digest}

/-! Loading the credentials and calling bitcoind. -/

theorem load_related (step : LoadStep) :
    Related (Agree fun _ _ => True) (env.load secret step) (env.load secret' step) := by
  refine related_map (related_refl (fun _ => rfl) (env.tryLoad step)) ?_
  rintro loaded _ rfl
  cases loaded with
  | error failure => exact Agree.error trivial
  | ok authorization => exact Agree.ok

theorem load_same {step : LoadStep} (unnamed : ∀ failure, (env.tryLoad step).value = some (.error failure) →
    failure.namesFile = false) : env.load secret step = env.load secret' step := by
  refine eq_of_related (related_after fun loaded ends => related_pure ?_)
  cases loaded with
  | ok authorization => rfl
  | error failure =>
      cases failure with
      | headerValue error => rfl
      | _ => exact absurd (unnamed _ ends) (by decide)

theorem call_related {Response : Type} (step : LoadStep)
    (post : HeaderValue → Future InternalCall (Except ClientError (RpcResponse Response))) :
    Related (Agree SameClientError) (env.call secret step post) (env.call secret' step post) := by
  refine related_bind (related_mapEffect _ (load_related step)) fun _ _ agree => ?_
  cases agree with
  | error _ => exact related_pure (Agree.error SameClientError.loadAuth)
  | ok => exact related_refl (agree_refl fun _ => SameClientError.same) _

theorem call_map_same {Response Result : Type} {step : LoadStep}
    {post : HeaderValue → Future InternalCall (Except ClientError (RpcResponse Response))}
    {read : Except ClientError (RpcResponse Response) → Result}
    (reads : ∀ error error', SameClientError error error' → read (.error error) = read (.error error')) :
    (env.call secret step post).map read = (env.call secret' step post).map read := by
  refine eq_of_related (related_map (call_related step post) fun _ _ agree => ?_)
  cases agree with
  | ok => rfl
  | error isSame => exact reads _ _ isSame

theorem fetchBlockFromSelf_same :
    env.fetchBlockFromSelf secret place hash = env.fetchBlockFromSelf secret' place hash :=
  call_map_same fun _ _ isSame => congrArg Except.error (ofClientError_same isSame)

theorem callHeader_same (hash : Digest) :
    (env.upstream secret place).callHeader hash = (env.upstream secret' place).callHeader hash :=
  call_map_same fun _ _ isSame => congrArg Except.error (ofClientError_same isSame)

theorem callDecode_same (transaction : String) :
    (env.upstream secret place).callDecode transaction =
      (env.upstream secret' place).callDecode transaction :=
  call_map_same fun _ _ isSame => congrArg Except.error (ofClientError_same isSame)

theorem networkParams_related (peer : Nat) :
    Related (Agree fun _ _ => True) (env.networkParams secret place peer)
      (env.networkParams secret' place peer) := by
  unfold Environment.networkParams
  split
  · exact related_pure Agree.ok
  · refine related_map (call_related _ _) fun _ _ agree => ?_
    cases agree with
    | ok => exact agree_refl (fun _ => trivial) _
    | error _ => exact Agree.error trivial

theorem fetchBlockFromPeer_same (peer : Nat) (addr : String) :
    env.fetchBlockFromPeer secret place peer addr hash =
      env.fetchBlockFromPeer secret' place peer addr hash := by
  refine eq_of_related (related_bind (networkParams_related peer) fun _ _ agree => ?_)
  cases agree with
  | ok => exact related_refl (fun _ => rfl) _
  | error _ => exact related_pure rfl

theorem fetchBlockFromPeers_same (peer : Nat) (addrs : List String) :
    env.fetchBlockFromPeers secret place hash peer addrs =
      env.fetchBlockFromPeers secret' place hash peer addrs := by
  induction addrs generalizing peer with
  | nil => rfl
  | cons addr rest ih =>
      simp only [Environment.fetchBlockFromPeers]
      have first : env.fetchBlockFromPeer secret place peer addr hash =
          env.fetchBlockFromPeer secret' place peer addr hash := fetchBlockFromPeer_same peer addr
      rw [first, ih]

theorem updated_related :
    Related (Agree fun _ _ => True) (env.updated secret place) (env.updated secret' place) := by
  refine related_map (call_related _ _) fun _ _ agree => ?_
  cases agree with
  | ok => exact agree_refl (fun _ => trivial) _
  | error _ => exact Agree.error trivial

theorem getPeers_related {shown : Prop} (safe : shown → env.stale place = true → env.listed place = [] →
      ∀ failure, (env.tryLoad (.peers place)).value = some (.error failure) → failure.namesFile = false) :
    Related (Agree fun error error' => error = error' ∨ ¬shown) (env.getPeers secret place)
      (env.getPeers secret' place) := by
  unfold Environment.getPeers
  split
  · rename_i awaited
    rw [Bool.and_eq_true, List.isEmpty_iff] at awaited
    by_cases isShown : shown
    · have same : env.updated secret place = env.updated secret' place := by
        unfold Environment.updated Environment.call
        rw [load_same (safe isShown awaited.1 awaited.2)]
      rw [same]
      refine related_refl (agree_refl fun error => ?_) _
      exact Or.inl rfl
    · refine related_map updated_related fun _ _ agree => ?_
      cases agree with
      | ok => exact Agree.ok
      | error _ => exact Agree.error (Or.inr isShown)
  · exact related_pure Agree.ok

theorem pruned_of_value (ends : (env.fetchBlockFromSelf secret place hash).value = some (.ok none)) :
    ∃ authorization called, (env.tryLoad (.block place)).value = some (.ok authorization) ∧
      (env.getBlock place hash authorization).value = some called ∧
      FetchBlocks.fetchBlockFromSelf (env.fromNull "getblock") called = .ok none := by
  simp only [Environment.fetchBlockFromSelf, Environment.call, Environment.load, value_map, value_bind,
    value_silent, Option.map_eq_some_iff, Option.bind_eq_some_iff] at ends
  obtain ⟨called, ⟨_, ⟨loaded, isLoaded, rfl⟩, posted⟩, isPruned⟩ := ends
  cases loaded with
  | error failure =>
      obtain rfl := Option.some.inj posted
      simp [FetchBlocks.fetchBlockFromSelf] at isPruned
  | ok authorization => exact ⟨authorization, called, isLoaded, posted, isPruned⟩

theorem fetchBlockRaw_related {shown : Prop} (safe : shown → ¬Exposed env place hash) :
    Related (Agree (SameError shown)) (env.fetchBlockRaw secret place hash)
      (env.fetchBlockRaw secret' place hash) := by
  unfold Environment.fetchBlockRaw
  cases uncached : env.cached place hash with
  | some block => exact related_pure Agree.ok
  | none =>
      have self : env.fetchBlockFromSelf secret place hash = env.fetchBlockFromSelf secret' place hash :=
        fetchBlockFromSelf_same
      rw [← self]
      refine related_after fun fetched ends => ?_
      rcases fetched with error | _ | block
      · exact related_pure (Agree.error (Or.inl rfl))
      · have peers : Related (Agree fun error error' => error = error' ∨ ¬shown)
            (env.getPeers secret place) (env.getPeers secret' place) := by
          refine getPeers_related fun isShown stale unlisted failure failed => ?_
          by_contra named
          rw [Bool.not_eq_false] at named
          exact safe isShown ⟨uncached, pruned_of_value ends, stale, unlisted, failure, failed, named⟩
        refine related_bind peers fun _ _ agree => ?_
        cases agree with
        | @ok addrs =>
            have fetched : env.fetchBlockFromPeers secret place hash 0 (env.order place addrs) =
                env.fetchBlockFromPeers secret' place hash 0 (env.order place addrs) :=
              fetchBlockFromPeers_same 0 _
            dsimp only
            rw [fetched]
            exact related_refl (agree_refl (sameError_refl shown)) _
        | error isSame =>
            refine related_pure (Agree.error ?_)
            rcases isSame with rfl | hidden
            · exact Or.inl rfl
            · exact Or.inr ⟨hidden, rfl, rfl⟩
      · exact related_pure Agree.ok

end

/-! The same fetch among other calls. -/

theorem lookUp_missed {shared : FetchBlocks.Shared} {hash : Digest}
    (missed : (shared.blockCache.get hash).1 = none) :
    FetchBlocks.lookUp shared hash =
      ({ shared with blockCache := (shared.blockCache.get hash).2 }, .missed) := by
  unfold FetchBlocks.lookUp
  split
  · rename_i got
    simp [got] at missed
  · rename_i got
    rw [got]

theorem getPeers_error {env : Environment} {secret : Secret} {place : Nat} {error : AnyhowError}
    (ends : (env.getPeers secret place).value = some (.error error)) :
    (env.stale place && (env.listed place).isEmpty) = true := by
  unfold Environment.getPeers at ends
  split at ends
  · assumption
  · simp at ends

/-- An error is what a fetch among any others returns, when bitcoind and the update of the peers
answer it alike. -/
theorem fetchBlockRaw_error_runs {env : Environment} {secret : Secret} {place : Nat} {hash : Digest}
    {error : RpcError} {config : FetchBlocks.Config} {shared : FetchBlocks.Shared} {aged : Bool}
    (fromNull : config.blockFromNull = env.fromNull "getblock")
    (missed : (shared.blockCache.get hash).1 = none) (stale : shared.peers.stale aged = env.stale place)
    (listed : shared.peers.isEmpty = (env.listed place).isEmpty)
    (ends : (env.fetchBlockRaw secret place hash).value = some (.error error)) :
    ∃ events after, Runs.runFrom (fun fetch event => FetchBlocks.fetchBlockRaw config fetch.1 hash fetch.2 event)
      (shared, .started) events = some (after, .returned (.error error)) := by
  unfold Environment.fetchBlockRaw at ends
  split at ends
  · simp at ends
  · rw [value_bind, Option.bind_eq_some_iff] at ends
    obtain ⟨fetched, isFetched, ends⟩ := ends
    rw [Environment.fetchBlockFromSelf, value_map, Option.map_eq_some_iff] at isFetched
    obtain ⟨called, _, isFetched⟩ := isFetched
    rw [← fromNull] at isFetched
    let asked : FetchBlocks.Shared :=
      { shared with
        blockCache := (shared.blockCache.get hash).2,
        replies := (blockCall hash, called) :: shared.replies }
    rcases fetched with fetchError | _ | block
    · obtain rfl : fetchError = error := by simpa using ends
      refine ⟨[.proceed, .selfReplied called], asked, ?_⟩
      simp [Runs.runFrom, FetchBlocks.fetchBlockRaw, lookUp_missed missed, FetchBlocks.askSelf, isFetched, asked]
    · simp only [value_bind, Option.bind_eq_some_iff] at ends
      obtain ⟨peers, isPeers, ends⟩ := ends
      cases peers with
      | error updateError =>
          obtain rfl : RpcError.ofError updateError = error := by simpa using ends
          have awaited := getPeers_error isPeers
          rw [← stale, ← listed] at awaited
          refine ⟨[.proceed, .selfReplied called, .peersRead aged, .peersUpdated (.error updateError)], asked, ?_⟩
          simp [Runs.runFrom, FetchBlocks.fetchBlockRaw, lookUp_missed missed, FetchBlocks.askSelf, isFetched,
            FetchBlocks.getPeers, awaited, FetchBlocks.updatePeers, asked]
      | ok addrs =>
          simp only [value_map, Option.map_eq_some_iff] at ends
          obtain ⟨_, _, isError⟩ := ends
          simp at isError
    · simp at ends

/-! What becomes of a request. -/

/-- The block that the answer to a request is made from. -/
def fetches (user : User) (request : RpcRequest) : Option Digest :=
  match request.params with
  | .array params =>
      if !user.allows request.method || !user.fetchBlocks then none
      else if request.method == getBlock then
        if verbosityServed params then params[0]?.bind readHash else none
      else if request.method == getRawTransaction then (interceptable params).map fun call => call.2.2
      else none
  | .object _ => none

/-- Two outcomes of a request, equal but for what a notification is answered with. -/
def SameOutcome (request : RpcRequest) (outcome outcome' : Outcome) : Prop :=
  outcome = outcome' ∨ (request.isNotification = true ∧ ∃ error error',
    outcome = .ok (some (RpcResponse.ofError error)) ∧ outcome' = .ok (some (RpcResponse.ofError error')) ∧
      error.status = none ∧ error'.status = none)

section

variable {env : Environment} {secret secret' : Secret} {place : Nat} {request : RpcRequest}

theorem sameOutcome_ofError {error error' : RpcError}
    (isSame : SameError (request.isNotification = false) error error') :
    SameOutcome request (.ok (some (RpcResponse.ofError error))) (.ok (some (RpcResponse.ofError error'))) := by
  rcases isSame with rfl | ⟨hidden, unmarked, unmarked'⟩
  · exact Or.inl rfl
  · exact Or.inr ⟨by simpa using hidden, error, error', rfl, rfl, unmarked, unmarked'⟩

theorem sameOutcome_refl (outcome : Outcome) : SameOutcome request outcome outcome := Or.inl rfl

theorem fetchBlock_related {shown : Prop} {hash : Digest} (secret secret' : Secret)
    (safe : shown → ¬Exposed env place hash) :
    Related (Agree (SameError shown)) ((env.upstream secret place).fetchBlock hash)
      ((env.upstream secret' place).fetchBlock hash) := by
  refine related_map (fetchBlockRaw_related safe) fun _ _ agree => ?_
  cases agree with
  | ok => exact agree_refl (sameError_refl shown) _
  | error isSame => exact Agree.error isSame

theorem withBlockHash_related {params : List Json} {next next' : Digest → Future InternalCall Outcome}
    (later : ∀ hash, params[0]?.bind readHash = some hash →
      Related (SameOutcome request) (next hash) (next' hash)) :
    Related (SameOutcome request) (withBlockHash (env.upstream secret place) params next)
      (withBlockHash (env.upstream secret' place) params next') := by
  unfold withBlockHash
  split
  · exact Related.panic
  · rename_i value isFirst
    split
    · exact related_pure (sameOutcome_refl _)
    · rename_i hash isHash
      exact later hash (by rw [isFirst, Option.bind_some, isHash])

theorem interceptBlockRaw_related {params : List Json}
    (safe : request.isNotification = false → ∀ hash, params[0]?.bind readHash = some hash →
      ¬Exposed env place hash) :
    Related (SameOutcome request) (interceptBlockRaw (env.upstream secret place) request params)
      (interceptBlockRaw (env.upstream secret' place) request params) := by
  refine withBlockHash_related fun hash isHash => ?_
  refine related_map (fetchBlockRaw_related fun shown => safe shown hash isHash) fun _ _ agree => ?_
  cases agree with
  | ok => exact sameOutcome_refl _
  | error isSame => exact sameOutcome_ofError isSame

theorem interceptBlock_related {params : List Json}
    (safe : request.isNotification = false → ∀ hash, params[0]?.bind readHash = some hash →
      ¬Exposed env place hash) :
    Related (SameOutcome request) (interceptBlock (env.upstream secret place) request params)
      (interceptBlock (env.upstream secret' place) request params) := by
  refine withBlockHash_related fun hash isHash => ?_
  have headers : Related (Agree (SameError (request.isNotification = false)))
      ((env.upstream secret place).callHeader hash) ((env.upstream secret' place).callHeader hash) := by
    rw [callHeader_same hash]
    exact related_refl (agree_refl (sameError_refl _)) _
  have blocks := fetchBlock_related secret secret' fun shown => safe shown hash isHash
  refine related_map (related_tryJoin headers blocks) fun _ _ agree => ?_
  cases agree with
  | ok => exact sameOutcome_refl _
  | error isSame => exact sameOutcome_ofError isSame

theorem interceptRawTransaction_related {params : List Json}
    (safe : request.isNotification = false → ∀ call, interceptable params = some call →
      ¬Exposed env place call.2.2) :
    Related (SameOutcome request) (interceptRawTransaction (env.upstream secret place) request params)
      (interceptRawTransaction (env.upstream secret' place) request params) := by
  unfold interceptRawTransaction
  cases isCall : interceptable params with
  | none => exact related_pure (sameOutcome_refl _)
  | some call =>
      obtain ⟨txid, verbose, blockhash⟩ := call
      refine related_bind (fetchBlock_related secret secret' fun shown => safe shown _ isCall)
        fun _ _ agree => ?_
      cases agree with
      | error isSame => exact related_pure (sameOutcome_ofError isSame)
      | @ok fetched =>
          have decodes : (env.upstream secret place).callDecode = (env.upstream secret' place).callDecode :=
            funext callDecode_same
          have headers : (env.upstream secret place).callHeader = (env.upstream secret' place).callHeader :=
            funext callHeader_same
          rw [decodes, headers]
          exact related_refl sameOutcome_refl _

theorem intercept_related (user : User)
    (safe : request.isNotification = false → ∀ hash, fetches user request = some hash →
      ¬Exposed env place hash) :
    Related (SameOutcome request) (user.intercept (env.upstream secret place) request)
      (user.intercept (env.upstream secret' place) request) := by
  unfold User.intercept
  split
  · rename_i allowed
    split
    · rename_i params isParams
      split
      · rename_i isBlock
        rw [Bool.and_eq_true] at isBlock
        have named (served : verbosityServed params = true) :
            fetches user request = params[0]?.bind readHash := by
          simp [fetches, isParams, allowed, isBlock, served]
        split
        · rename_i number verbosity
          split
          · rename_i zero
            have served : verbosityServed params = true := by simp [verbosityServed, verbosity, zero]
            exact interceptBlockRaw_related fun shown hash isHash =>
              safe shown hash ((named served).trans isHash)
          · split
            · rename_i one
              have served : verbosityServed params = true := by simp [verbosityServed, verbosity, one]
              exact interceptBlock_related fun shown hash isHash =>
                safe shown hash ((named served).trans isHash)
            · exact related_pure (sameOutcome_refl _)
        · exact related_pure (sameOutcome_refl _)
      · split
        · rename_i notBlock isTransaction
          rw [Bool.and_eq_true] at isTransaction
          refine interceptRawTransaction_related fun shown call isCall => safe shown _ ?_
          have notGetBlock : request.method ≠ getBlock := by
            rw [beq_iff_eq.mp isTransaction.2]
            exact getBlock_ne_getRawTransaction.symm
          simp [fetches, isParams, allowed, isTransaction, notGetBlock, isCall]
        · exact related_pure (sameOutcome_refl _)
    · exact related_pure (sameOutcome_refl _)
  · exact related_pure (sameOutcome_refl _)

end

end BtcRpcProxy.CredentialFailures
