import BtcRpcProxy.BatchFailure
import BtcRpcProxy.Hexadecimal

/-!
The arguments of `getblock` and `getrawtransaction` as the interceptions read them, against
what they mean to Core: the verbosity, and the three arguments of a transaction lookup.
-/

namespace BtcRpcProxy

open Polled Blocks

/-! The verbosity. -/

/-- Whether Core takes a verbosity for 1 or for 0; `absent` is the default of the method, and
`none` stands for all that neither of them means. -/
def coreVerbosity (absent : Bool) : Option Json → Option Bool
  | none => some absent
  | some .null => some absent
  | some (.bool verbose) => some verbose
  | some (.number (.posInt value)) =>
      if value = 0 then some false else if value = 1 then some true else none
  | some _ => none

structure BlockCall (user : User) (request : RpcRequest) (params : List Json) (hash : Digest) : Prop where
  allowed : user.allows request.method = true
  fetches : user.fetchBlocks = true
  method : request.method = getBlock
  positional : request.params = .array params
  hash : params[0]?.bind readHash = some hash

structure ReadAsCore (verbosity : Option Json) : Prop where
  block : ∀ user upstream request params hash, BlockCall user request params hash →
    params[1]? = verbosity →
      user.intercept upstream request =
        match coreVerbosity true verbosity with
        | some false => interceptBlockRaw upstream request params
        | some true => interceptBlock upstream request params
        | none => Future.pure (.ok none)
  transaction : ∀ params txid blockhash, params[0]?.bind readHash = some txid →
    params[2]?.bind readHash = some blockhash → params[1]? = verbosity →
      interceptable params = (coreVerbosity false verbosity).map fun verbose => (txid, verbose, blockhash)
  served : ∀ user upstream request params hash, BlockCall user request params hash →
    params[1]? = verbosity → coreVerbosity true verbosity ≠ none → upstream.Ends →
      ∃ outcome, (user.intercept upstream request).value = some outcome ∧ AnswersItself upstream outcome

/-- What the `getblock` interception leaves to bitcoind although Core takes it for 0 or 1. -/
def overlooked : Option Json → Bool
  | some .null => true
  | some (.bool _) => true
  | _ => false

theorem asU64_eq_some_iff {number : Number} {value : UInt64} :
    number.asU64 = some value ↔ number = .posInt value := by
  cases number <;> simp [Number.asU64]

theorem coreVerbosity_number (absent : Bool) (number : Number) :
    coreVerbosity absent (some (.number number)) =
      if number.asU64 = some 0 then some false
      else if number.asU64 = some 1 then some true
      else none := by
  cases number with
  | posInt value => simp [coreVerbosity, Number.asU64]
  | negInt value => rfl
  | float bits => rfl

section

variable {user : User} {upstream : Upstream} {request : RpcRequest} {params : List Json} {hash : Digest}

theorem intercept_block (call : BlockCall user request params hash)
    (read : overlooked params[1]? = false) :
    user.intercept upstream request =
      match coreVerbosity true params[1]? with
      | some false => interceptBlockRaw upstream request params
      | some true => interceptBlock upstream request params
      | none => Future.pure (.ok none) := by
  simp only [User.intercept, call.allowed, call.fetches, call.positional, beq_iff_eq.mpr call.method,
    Bool.and_self, if_true]
  cases verbosity : params[1]? with
  | none => rfl
  | some value =>
      cases value with
      | number number =>
          rw [coreVerbosity_number]
          by_cases zero : number.asU64 = some 0
          · simp [zero]
          · by_cases one : number.asU64 = some 1
            · simp [one]
            · simp [zero, one]
      | null => simp [overlooked, verbosity] at read
      | bool verbose => simp [overlooked, verbosity] at read
      | string text => rfl
      | array items => rfl
      | object members => rfl

theorem intercept_overlooked (call : BlockCall user request params hash)
    (missed : overlooked params[1]? = true) :
    user.intercept upstream request = Future.pure (.ok none) := by
  apply intercept_forwards
  have notTransaction : (request.method == getRawTransaction) = false := by
    rw [call.method, beq_eq_false_iff_ne]
    exact getBlock_ne_getRawTransaction
  have notServed : verbosityServed params = false := by
    unfold overlooked at missed
    split at missed <;> simp_all [verbosityServed]
  simp [User.forwards, User.servesBlock, User.servesTransaction, call.allowed, call.positional, notServed,
    notTransaction]

theorem interceptable_verbosity {txid blockhash : Digest} (isTxid : params[0]?.bind readHash = some txid)
    (isBlockhash : params[2]?.bind readHash = some blockhash) :
    interceptable params =
      (coreVerbosity false params[1]?).map fun verbose => (txid, verbose, blockhash) := by
  simp only [interceptable, isBlockhash, isTxid]
  cases verbosity : params[1]? with
  | none => rfl
  | some value =>
      cases value with
      | number number =>
          rw [coreVerbosity_number]
          by_cases zero : number.asU64 = some 0
          · simp [zero]
          · by_cases one : number.asU64 = some 1
            · simp [one]
            · simp [zero, one]
      | _ => rfl

theorem intercept_block_served (call : BlockCall user request params hash)
    (served : verbosityServed params = true) (ends : upstream.Ends) :
    ∃ outcome, (user.intercept upstream request).value = some outcome ∧ AnswersItself upstream outcome := by
  have serves : user.servesBlock request = true := by
    simp [User.servesBlock, call.positional, call.fetches, call.method, served]
  have named : request.blockHash ≠ none := by
    simp [RpcRequest.blockHash, call.positional, call.hash]
  have given : request.hasParams = true := by
    by_contra empty
    exact named (blockHash_of_noParams (by simpa using empty))
  have noCrash : user.crashes request = false := by simp [User.crashes, given]
  obtain ⟨outcome, settles⟩ := intercept_ends ends noCrash
  have kept : user.forwards request = false := by simp [User.forwards, serves]
  exact ⟨outcome, settles, intercept_answers call.allowed kept (fun _ => named) settles⟩

end

theorem verbosityServed_iff {params : List Json} (read : overlooked params[1]? = false) :
    verbosityServed params = true ↔ coreVerbosity true params[1]? ≠ none := by
  unfold verbosityServed
  cases verbosity : params[1]? with
  | none => simp [coreVerbosity, Number.asU64]
  | some value =>
      cases value with
      | number number =>
          rw [coreVerbosity_number]
          by_cases zero : number.asU64 = some 0
          · simp [zero]
          · by_cases one : number.asU64 = some 1
            · simp [one]
            · simp [zero, one]
      | null => simp [overlooked, verbosity] at read
      | bool verbose => simp [overlooked, verbosity] at read
      | _ => simp [coreVerbosity]

theorem readAsCore_of_read {verbosity : Option Json} (read : overlooked verbosity = false) :
    ReadAsCore verbosity := by
  refine ⟨?_, ?_, ?_⟩
  · rintro user upstream request params hash call rfl
    exact intercept_block call read
  · rintro params txid blockhash isTxid isBlockhash rfl
    exact interceptable_verbosity isTxid isBlockhash
  · rintro user upstream request params hash call rfl meant ends
    exact intercept_block_served call ((verbosityServed_iff read).mpr meant) ends

def zeroBlockCall (verbosity : Json) : RpcRequest :=
  { jsonrpc := none, id := none, method := getBlock,
    params := .array [encodeHash Digest.zeros, verbosity] }

theorem zeroBlockCall_calls (verbosity : Json) :
    BlockCall explorer (zeroBlockCall verbosity) [encodeHash Digest.zeros, verbosity] Digest.zeros :=
  ⟨rfl, rfl, rfl, rfl, readHash_encodeHash Digest.zeros⟩

theorem noUpstream_ends : noUpstream.Ends :=
  ⟨fun _ => ⟨_, rfl⟩, fun _ => ⟨_, rfl⟩, fun _ => ⟨_, rfl⟩⟩

theorem not_readAsCore {verbosity : Option Json} (missed : overlooked verbosity = true) :
    ¬ReadAsCore verbosity := by
  intro alike
  obtain ⟨value, rfl⟩ : ∃ value, verbosity = some value := by
    cases verbosity with
    | none => simp [overlooked] at missed
    | some value => exact ⟨value, rfl⟩
  have meant : coreVerbosity true (some value) ≠ none := by
    cases value <;> simp_all [overlooked, coreVerbosity]
  obtain ⟨outcome, settles, answers⟩ :=
    alike.served explorer noUpstream (zeroBlockCall value) _ _ (zeroBlockCall_calls value) rfl meant noUpstream_ends
  rw [intercept_overlooked (zeroBlockCall_calls value) missed, Future.value_pure, Option.some.injEq] at settles
  rcases answers with ⟨response, isAnswer⟩ | ⟨_, error, isError⟩
  · simp [← settles] at isAnswer
  · simp [← settles] at isError

/-- The two interceptions read a verbosity alike and as Core does exactly where it is neither null
nor a boolean. -/
theorem verbosity_readAsCore_iff (verbosity : Option Json) :
    ReadAsCore verbosity ↔ overlooked verbosity = false := by
  constructor
  · intro alike
    by_contra missed
    exact not_readAsCore (by simpa using missed) alike
  · exact readAsCore_of_read

theorem false_verbosity_forwarded :
    explorer.intercept noUpstream (zeroBlockCall (.bool false)) = Future.pure (.ok none) ∧
      ¬∀ verbosity, ReadAsCore verbosity := by
  refine ⟨?_, fun all => not_readAsCore rfl (all (some (.bool false)))⟩
  exact intercept_overlooked (zeroBlockCall_calls (.bool false)) rfl

/-! The three arguments of a transaction lookup. -/

inductive DenotesVerbosity : Json → Bool → Prop
  | null : DenotesVerbosity .null false
  | bool (verbose : Bool) : DenotesVerbosity (.bool verbose) verbose
  | zero : DenotesVerbosity (.number (.posInt 0)) false
  | one : DenotesVerbosity (.number (.posInt 1)) true

def DenotesHash (value : Json) (hash : Digest) : Prop :=
  ∃ text, value = .string text ∧ PrintsHash text hash

def DenotesCall (params : List Json) (txid : Digest) (verbose : Bool) (blockhash : Digest) : Prop :=
  ∃ first second third, params = [first, second, third] ∧ DenotesHash first txid ∧
    DenotesVerbosity second verbose ∧ DenotesHash third blockhash

def WellFormed (params : List Json) : Prop :=
  ∃ txid verbose blockhash, DenotesCall params txid verbose blockhash

structure InterceptsExactly (params : List Json) : Prop where
  returns : ∀ txid verbose blockhash,
    interceptable params = some (txid, verbose, blockhash) ↔ DenotesCall params txid verbose blockhash
  passes : ¬WellFormed params → ∀ upstream request,
    interceptRawTransaction upstream request params = Future.pure (.ok none)

theorem denotesVerbosity_iff {value : Json} {verbose : Bool} :
    DenotesVerbosity value verbose ↔ coreVerbosity false (some value) = some verbose := by
  constructor
  · intro denotes
    cases denotes <;> rfl
  · intro read
    cases value with
    | null => exact Option.some.inj read ▸ .null
    | bool value => exact Option.some.inj read ▸ .bool value
    | number number =>
        cases number with
        | posInt value =>
            simp only [coreVerbosity] at read
            split_ifs at read with zero one
            · exact Option.some.inj read ▸ zero ▸ .zero
            · exact Option.some.inj read ▸ one ▸ .one
        | _ => simp [coreVerbosity] at read
    | _ => simp [coreVerbosity] at read

theorem interceptable_eq_some_iff {params : List Json} {txid blockhash : Digest} {verbose : Bool} :
    interceptable params = some (txid, verbose, blockhash) ↔
      params[0]?.bind readHash = some txid ∧ coreVerbosity false params[1]? = some verbose ∧
        params[2]?.bind readHash = some blockhash := by
  cases isBlockhash : params[2]?.bind readHash with
  | none => simp [interceptable, isBlockhash]
  | some third =>
      cases isTxid : params[0]?.bind readHash with
      | none =>
          simp only [interceptable, isBlockhash, isTxid]
          split <;> simp
      | some first =>
          rw [interceptable_verbosity isTxid isBlockhash]
          cases coreVerbosity false params[1]? with
          | none => simp
          | some value => simp

theorem interceptable_cons {first second third : Json} {rest : List Json} {txid blockhash : Digest}
    {verbose : Bool} :
    interceptable (first :: second :: third :: rest) = some (txid, verbose, blockhash) ↔
      DenotesCall [first, second, third] txid verbose blockhash := by
  simp only [interceptable_eq_some_iff, List.getElem?_cons_zero, List.getElem?_cons_succ, Option.bind_some,
    readHash_eq_some_iff, ← denotesVerbosity_iff, DenotesCall, DenotesHash]
  constructor
  · intro denotes
    exact ⟨first, second, third, rfl, denotes⟩
  · rintro ⟨_, _, _, same, denotes⟩
    simp only [List.cons.injEq, and_true] at same
    obtain ⟨rfl, rfl, rfl⟩ := same
    exact denotes

theorem interceptable_short {params : List Json} (short : params.length < 3) :
    interceptable params = none := by
  have missing : params[2]? = none := List.getElem?_eq_none (by omega)
  simp [interceptable, missing]

/-- The array goes on after a call that is well-formed by itself. -/
def Overlong (params : List Json) : Prop := 3 < params.length ∧ WellFormed (params.take 3)

theorem length_of_denotesCall {params : List Json} {txid blockhash : Digest} {verbose : Bool}
    (denotes : DenotesCall params txid verbose blockhash) : params.length = 3 := by
  obtain ⟨_, _, _, rfl, _⟩ := denotes
  rfl

theorem exactly_of_returns {params : List Json} (returns : ∀ txid verbose blockhash,
    interceptable params = some (txid, verbose, blockhash) ↔
      DenotesCall params txid verbose blockhash) : InterceptsExactly params := by
  refine ⟨returns, fun malformed upstream request => ?_⟩
  cases intercepted : interceptable params with
  | none => simp [interceptRawTransaction, intercepted]
  | some call => exact (malformed ⟨_, _, _, (returns _ _ _).mp intercepted⟩).elim

/-- Exactly the three-argument calls are intercepted, but for the arrays that go on after one. -/
theorem interceptable_exact_iff (params : List Json) : InterceptsExactly params ↔ ¬Overlong params := by
  by_cases short : params.length < 3
  · have exactly : InterceptsExactly params := by
      refine exactly_of_returns fun txid verbose blockhash => ?_
      rw [interceptable_short short]
      refine ⟨by simp, fun denotes => ?_⟩
      have length := length_of_denotesCall denotes
      omega
    refine ⟨fun _ overlong => ?_, fun _ => exactly⟩
    have long := overlong.1
    omega
  · obtain ⟨first, second, third, rest, rfl⟩ : ∃ first second third rest,
        params = first :: second :: third :: rest := by
      match params with
      | [] | [_] | [_, _] => simp at short
      | first :: second :: third :: rest => exact ⟨first, second, third, rest, rfl⟩
    constructor
    · rintro exactly ⟨long, txid, verbose, blockhash, denotes⟩
      have length := length_of_denotesCall
        ((exactly.returns txid verbose blockhash).mp (interceptable_cons.mpr denotes))
      omega
    · intro bounded
      refine exactly_of_returns fun txid verbose blockhash => ?_
      rw [interceptable_cons]
      cases rest with
      | nil => exact Iff.rfl
      | cons extra rest =>
          have notCall : ¬DenotesCall [first, second, third] txid verbose blockhash := fun denotes =>
            bounded ⟨by simp, txid, verbose, blockhash, denotes⟩
          refine ⟨fun denotes => (notCall denotes).elim, fun denotes => ?_⟩
          simpa using length_of_denotesCall denotes

theorem fourth_argument_intercepted :
    interceptable [encodeHash Digest.zeros, .bool true, encodeHash Digest.zeros, .null] =
        some (Digest.zeros, true, Digest.zeros) ∧
      ¬∀ params, InterceptsExactly params := by
  have intercepted : interceptable [encodeHash Digest.zeros, .bool true, encodeHash Digest.zeros, .null] =
      some (Digest.zeros, true, Digest.zeros) := by
    simp [interceptable_eq_some_iff, readHash_encodeHash, coreVerbosity]
  refine ⟨intercepted, fun exactly => ?_⟩
  have length := length_of_denotesCall (((exactly _).returns _ _ _).mp intercepted)
  simp at length

end BtcRpcProxy
