import BtcRpcProxy.ReplyRelay

/-!
`getrawtransaction` with a block hash: the transaction as bitcoind writes it or, put together from two more
calls, the object bitcoind answers a verbose call with.
-/

namespace BtcRpcProxy

open Polled Polled.Future Blocks CredentialFailures

/-! What bitcoind says of a transaction in a block. -/

/-- How many confirmations a block has in the active chain, `none` off it, and its time. -/
structure Standing where
  confirmations : Option UInt64
  time : UInt64

namespace Standing

structure InHeader (standing : Standing) (reply : List (String × Json)) : Prop where
  confirmations : reply.lookup "confirmations" =
    some (match standing.confirmations with
      | some confirmations => encodeU64 confirmations
      | none => .number (.negInt (-1)))
  time : reply.lookup "time" = some (encodeU64 standing.time)

def added (standing : Standing) (transaction : String) (blockhash : Digest) : List (String × Json) :=
  [("in_active_chain", .bool standing.confirmations.isSome), ("hex", .string transaction),
    ("blockhash", encodeHash blockhash)] ++
    match standing.confirmations with
    | some confirmations =>
        [("confirmations", encodeU64 confirmations), ("time", encodeU64 standing.time),
          ("blocktime", encodeU64 standing.time)]
    | none => [("confirmations", encodeU64 0)]

def verbose (standing : Standing) (transaction : String) (blockhash : Digest) (decoded : List (String × Json)) :
    Json :=
  .object ((standing.added transaction blockhash).foldl (fun members entry => mapInsert entry.1 entry.2 members)
    decoded)

end Standing

theorem readHeader_standing {floatBits : Number → UInt64} {reply : List (String × Json)}
    {header : GetBlockHeaderResult} (isRead : readHeader floatBits reply = some header) :
    (reply.lookup "confirmations").bind readI32 = some header.confirmations ∧
      (reply.lookup "time").bind readU64 = some header.time := by
  obtain ⟨hash, _, isRead⟩ := Option.bind_eq_some_iff.mp isRead
  obtain ⟨confirmations, isConfirmations, isRead⟩ := Option.bind_eq_some_iff.mp isRead
  obtain ⟨height, _, isRead⟩ := Option.bind_eq_some_iff.mp isRead
  obtain ⟨version, _, isRead⟩ := Option.bind_eq_some_iff.mp isRead
  obtain ⟨versionHex, _, isRead⟩ := Option.bind_eq_some_iff.mp isRead
  obtain ⟨merkleroot, _, isRead⟩ := Option.bind_eq_some_iff.mp isRead
  obtain ⟨time, isTime, isRead⟩ := Option.bind_eq_some_iff.mp isRead
  obtain ⟨mediantime, _, isRead⟩ := Option.bind_eq_some_iff.mp isRead
  obtain ⟨nonce, _, isRead⟩ := Option.bind_eq_some_iff.mp isRead
  obtain ⟨bits, _, isRead⟩ := Option.bind_eq_some_iff.mp isRead
  obtain ⟨difficulty, _, isRead⟩ := Option.bind_eq_some_iff.mp isRead
  obtain ⟨chainwork, _, isRead⟩ := Option.bind_eq_some_iff.mp isRead
  obtain ⟨nTx, _, isRead⟩ := Option.bind_eq_some_iff.mp isRead
  obtain ⟨previous, _, isRead⟩ := Option.bind_eq_some_iff.mp isRead
  obtain ⟨next, _, isRead⟩ := Option.bind_eq_some_iff.mp isRead
  rw [← Option.some.inj isRead]
  exact ⟨isConfirmations, isTime⟩

theorem encodeI32_of_read {confirmations : UInt64} {value : Int32}
    (isRead : readI32 (encodeU64 confirmations) = some value) :
    0 ≤ value ∧ encodeI32 value = encodeU64 confirmations := by
  simp only [readI32, encodeU64] at isRead
  split at isRead
  · rename_i small
    obtain rfl := Option.some.inj isRead
    have isInt : (Int32.ofNat confirmations.toNat).toInt = confirmations.toNat := Int32.toInt_ofNat_of_lt small
    have widened : (Int32.ofNat confirmations.toNat).toInt64 = Int64.ofNat confirmations.toNat := by
      rw [← Int64.toInt_inj, Int32.toInt_toInt64, isInt, Int64.toInt_ofNat_of_lt (by omega)]
    have notNegative : ¬Int64.ofNat confirmations.toNat < 0 := by
      rw [← widened, Int64.lt_iff_toInt_lt, Int32.toInt_toInt64, isInt]
      simp
    constructor
    · rw [Int32.le_iff_toInt_le, isInt]
      simp
    · rw [encodeI32, widened, Number.ofI64, if_neg notNegative, Int64.toUInt64_ofNat', UInt64.ofNat_toNat, encodeU64]
  · simp at isRead

/-- On the chain and off it, what the proxy adds from the header is what bitcoind has there. -/
theorem addHeader_eq_verbose {floatBits : Number → UInt64} {reply : List (String × Json)}
    {header : GetBlockHeaderResult} {standing : Standing} (isRead : readHeader floatBits reply = some header)
    (inHeader : standing.InHeader reply) (transaction : String) (blockhash : Digest)
    (decoded : List (String × Json)) :
    addHeader transaction blockhash header (.object decoded) = standing.verbose transaction blockhash decoded := by
  obtain ⟨isConfirmations, isTime⟩ := readHeader_standing isRead
  rw [inHeader.confirmations, Option.bind_some] at isConfirmations
  rw [inHeader.time, Option.bind_some] at isTime
  have time : standing.time = header.time := Option.some.inj isTime
  cases onChain : standing.confirmations with
  | some confirmations =>
      simp only [onChain] at isConfirmations
      obtain ⟨notNegative, encoded⟩ := encodeI32_of_read isConfirmations
      simp only [addHeader, notNegative, decide_true, if_true, encoded, Standing.verbose, Standing.added, onChain,
        Option.isSome_some, time, List.cons_append, List.nil_append, List.foldl_cons, List.foldl_nil]
  | none =>
      simp only [onChain] at isConfirmations
      have isNegative : header.confirmations = -1 := Option.some.inj isConfirmations.symm
      have offChain : ¬(0 : Int32) ≤ -1 := by decide
      have zero : encodeI32 0 = encodeU64 0 := rfl
      simp only [addHeader, isNegative, offChain, decide_false, Bool.false_eq_true, if_false, zero, Standing.verbose,
        Standing.added, onChain, Option.isSome_none, List.cons_append, List.nil_append, List.foldl_cons,
        List.foldl_nil]

structure AsksTransaction (user : User) (request : RpcRequest) (txid : Digest) (verbose : Bool) (hash : Digest) :
    Prop where
  fetches : user.fetchBlocks = true
  allowed : user.allows request.method = true
  method : request.method = getRawTransaction
  params : ∃ params, request.params = .array params ∧ interceptable params = some (txid, verbose, hash)

def Supplies (upstream : Upstream) (hash txid : Digest) (transaction : Transaction) : Prop :=
  ∃ block, (upstream.fetchBlock hash).value = some (.ok (some block)) ∧
    block.txdata.find? (fun entry => entry.txid upstream.sha256d = txid) = some transaction

section

variable {user : User} {upstream : Upstream} {request : RpcRequest} {txid hash : Digest} {transaction : Transaction}
  {verbose : Bool}

theorem intercept_supplied (asks : AsksTransaction user request txid verbose hash) :
    ∃ params, interceptable params = some (txid, verbose, hash) ∧
      user.intercept upstream request = interceptRawTransaction upstream request params := by
  obtain ⟨params, isParams, isCall⟩ := asks.params
  have notBlock : (user.fetchBlocks && request.method == getBlock) = false := by
    rw [asks.method, Bool.and_eq_false_iff]
    exact Or.inr (by decide)
  have isTransaction : (user.fetchBlocks && request.method == getRawTransaction) = true := by
    simp [asks.fetches, asks.method]
  refine ⟨params, isCall, ?_⟩
  simp only [User.intercept, asks.allowed, if_true, isParams, notBlock, Bool.false_eq_true, if_false, isTransaction]

theorem intercept_transaction (asks : AsksTransaction user request txid false hash)
    (supplies : Supplies upstream hash txid transaction) :
    (user.intercept upstream request).value =
      some (.ok (some (request.answer (.string (hexEncode transaction.encode))))) := by
  obtain ⟨params, isCall, intercepted⟩ := @intercept_supplied user upstream _ _ _ _ asks
  obtain ⟨block, fetched, found⟩ := supplies
  rw [intercepted]
  simp only [interceptRawTransaction, isCall, value_bind, fetched, Option.bind_some, found]
  rfl

theorem intercept_verbose {decoded : List (String × Json)} {header : GetBlockHeaderResult}
    (asks : AsksTransaction user request txid true hash) (supplies : Supplies upstream hash txid transaction)
    (decodes : (upstream.callDecode (hexEncode transaction.encode)).value = some (.ok (.object decoded)))
    (heads : (upstream.callHeader hash).value = some (.ok (.right header))) :
    (user.intercept upstream request).value = some (.ok (some (request.answer
      (addHeader (hexEncode transaction.encode) hash header (.object decoded))))) := by
  obtain ⟨params, isCall, intercepted⟩ := @intercept_supplied user upstream _ _ _ _ asks
  obtain ⟨block, fetched, found⟩ := supplies
  rw [intercepted]
  simp only [interceptRawTransaction, isCall, value_bind, fetched, Option.bind_some, found, Bool.not_true,
    Bool.false_eq_true, if_false, value_map]
  rcases tryJoin_value decodes heads with ⟨_, _, isLeft, isRight, joined⟩ | ⟨error, failed, _⟩
  · obtain rfl := Except.ok.inj isLeft
    obtain rfl := Except.ok.inj isRight
    simp [joined, HeaderReply.intoRight]
  · simp at failed

end

section

variable {node : Node} {answer : InternalCall → NodeAnswer} {env : Environment}
  {askPeer : Nat → Nat → String → NetworkParams → Digest → Future Empty (Option Block)} {secret : Secret}
  {place : Nat}

def CredentialFailures.Environment.Loads (env : Environment) (step : LoadStep) : Prop :=
  ∃ authorization, (env.tryLoad step).value = some (.ok authorization)

theorem call_result {Response : Type} {readResult : Json → Option Response} {call : InternalCall} {value : Json}
    {result : Response} (answers : node.Answers answer) {step : LoadStep} (loads : env.Loads step)
    (isAnswer : answer call = .result value) (isRead : readOptional readResult (some value) = some (some result)) :
    ((node.serving env askPeer).call secret step (node.ask readResult call)).value =
      some (.ok { id := none, error := none, result := some result }) := by
  obtain ⟨authorization, isLoaded⟩ := loads
  have loaded : ((node.serving env askPeer).load secret step).value = some (.ok authorization) := by
    rw [Environment.load, value_map]
    exact congrArg _ isLoaded
  obtain ⟨called, isValue, isCalled⟩ := ask_value answers readResult call authorization
  rw [isAnswer, read_result, isRead, Option.map_some] at isCalled
  rw [Environment.call, value_bind, value_silent, loaded]
  exact isValue.trans (congrArg some (eq_ok_of_toOption isCalled))

theorem callDecode_result {transaction : String} {decoded : List (String × Json)} (answers : node.Answers answer)
    (loads : env.Loads (.decode place)) (isAnswer : answer (decodeCall transaction) = .result (.object decoded)) :
    (((node.serving env askPeer).upstream secret place).callDecode transaction).value =
      some (.ok (.object decoded)) := by
  have called := @call_result node answer env askPeer secret _ some _ _ (.object decoded) answers _ loads isAnswer rfl
  rw [Upstream.callDecode, value_map]
  exact congrArg (Option.map _) called

theorem callHeader_result {hash : Digest} {reply : List (String × Json)} {header : GetBlockHeaderResult}
    (answers : node.Answers answer) (loads : env.Loads (.header place))
    (isAnswer : answer (headerCall hash) = .result (.object reply))
    (isRead : readHeader node.floatBits reply = some header) :
    (((node.serving env askPeer).upstream secret place).callHeader hash).value = some (.ok (.right header)) := by
  have isReply : readOptional (readHeaderReply node.floatBits) (some (.object reply)) =
      some (some (.right header)) := by
    simp [readOptional, readHeaderReply, isRead]
  have called := @call_result node answer env askPeer secret _ (readHeaderReply node.floatBits) _ _ (.right header)
    answers _ loads isAnswer isReply
  rw [Upstream.callHeader, value_map]
  exact congrArg (Option.map _) called

end

/-- bitcoind's own account of the transaction, as it decodes it and as it stands in the chain. -/
structure Describes (node : Node) (answer : InternalCall → NodeAnswer) (transaction : Transaction) (hash : Digest)
    (standing : Standing) (decoded : List (String × Json)) : Prop where
  decodes : answer (decodeCall (hexEncode transaction.encode)) = .result (.object decoded)
  heads : ∃ reply header, answer (headerCall hash) = .result (.object reply) ∧
    readHeader node.floatBits reply = some header ∧ standing.InHeader reply

theorem intercept_described {node : Node} {answer : InternalCall → NodeAnswer} (answers : node.Answers answer)
    {env : Environment} {askPeer : Nat → Nat → String → NetworkParams → Digest → Future Empty (Option Block)}
    {secret : Secret} {place : Nat} {user : User} {request : RpcRequest} {txid hash : Digest}
    {transaction : Transaction} {standing : Standing} {decoded : List (String × Json)}
    (asks : AsksTransaction user request txid true hash)
    (supplies : Supplies ((node.serving env askPeer).upstream secret place) hash txid transaction)
    (describes : Describes node answer transaction hash standing decoded) (loadsDecode : env.Loads (.decode place))
    (loadsHeader : env.Loads (.header place)) :
    (user.intercept ((node.serving env askPeer).upstream secret place) request).value =
      some (.ok (some (request.answer (standing.verbose (hexEncode transaction.encode) hash decoded)))) := by
  obtain ⟨reply, header, isReply, isRead, inHeader⟩ := describes.heads
  rw [intercept_verbose asks supplies (callDecode_result answers loadsDecode describes.decodes)
    (callHeader_result answers loadsHeader isReply isRead), addHeader_eq_verbose isRead inHeader]

end BtcRpcProxy
