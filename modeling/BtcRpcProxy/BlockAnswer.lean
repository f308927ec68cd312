import BtcRpcProxy.ArgumentGrammar

/-!
The answer to `getblock` at verbosity 1, put together from bitcoind's reply to `getblockheader` and
a block, against what bitcoind says of the same block. An optional member is read into an option and
written from it, and a missing one is written as null.
-/

namespace BtcRpcProxy

open Polled Blocks

def readU64 : Json → Option UInt64
  | .number number => number.asU64
  | _ => none

def readU32 (value : Json) : Option UInt32 :=
  (readU64 value).bind fun number =>
    if number.toNat < UInt32.size then some (UInt32.ofNat number.toNat) else none

def readI32 : Json → Option Int32
  | .number (.posInt value) => if value.toNat < 0x80000000 then some (Int32.ofNat value.toNat) else none
  | .number (.negInt value) => if -0x80000000 ≤ value.toInt then some (Int32.ofInt value.toInt) else none
  | _ => none

def readString : Json → Option String
  | .string text => some text
  | _ => none

def readHex : Json → Option (List UInt8)
  | .string text => hexBytes text.toList
  | _ => none

/-- `Option::deserialize` of a member, which may be missing. -/
def readOptional {Value : Type} (read : Json → Option Value) : Option Json → Option (Option Value)
  | none => some none
  | some .null => some none
  | some json => (read json).map some

/-- The derived `Deserialize` of `GetBlockHeaderResult`; `floatBits` is the conversion of a number to
`f64`. -/
def readHeader (floatBits : Number → UInt64) (members : List (String × Json)) : Option GetBlockHeaderResult := do
  let hash ← (members.lookup "hash").bind readHash
  let confirmations ← (members.lookup "confirmations").bind readI32
  let height ← (members.lookup "height").bind readU64
  let version ← (members.lookup "version").bind readI32
  let versionHex ← readOptional readHex (members.lookup "versionHex")
  let merkleroot ← (members.lookup "merkleroot").bind readHash
  let time ← (members.lookup "time").bind readU64
  let mediantime ← readOptional readU64 (members.lookup "mediantime")
  let nonce ← (members.lookup "nonce").bind readU32
  let bits ← (members.lookup "bits").bind readString
  let difficulty ← (members.lookup "difficulty").bind fun value =>
    match value with
    | .number number => some (floatBits number)
    | _ => none
  let chainwork ← (members.lookup "chainwork").bind readHex
  let nTx ← (members.lookup "nTx").bind readU64
  let previousblockhash ← readOptional readHash (members.lookup "previousblockhash")
  let nextblockhash ← readOptional readHash (members.lookup "nextblockhash")
  return { hash, confirmations, height, version, versionHex, merkleroot, time, mediantime, nonce, bits,
           difficulty, chainwork, nTx, previousblockhash, nextblockhash }

/-! What bitcoind answers. -/

def optionalMembers : List String := ["versionHex", "mediantime", "previousblockhash", "nextblockhash"]

structure MatchesCore (sha256d : List UInt8 → Digest) (reply : List (String × Json)) (block : Block)
    (answer : Json) : Prop where
  strippedsize : answer.member "strippedsize" = some (encodeUsize block.strippedsize)
  size : answer.member "size" = some (encodeUsize block.size)
  weight : answer.member "weight" = some (encodeUsize block.weight)
  tx : answer.member "tx" = some (.array ((block.txids sha256d).map encodeHash))
  header : ∀ name ∈ optionalMembers, answer.member name = reply.lookup name

def LowerCase : Json → Prop
  | .string text => text.toList.map Char.toLower = text.toList
  | _ => True

def Complete (reply : List (String × Json)) : Prop :=
  ∀ name ∈ optionalMembers, ∃ json, reply.lookup name = some json ∧ LowerCase json

theorem length_encode (transaction : Transaction) :
    transaction.encodeStripped.length ≤ transaction.encode.length ∧
      (transaction.encodeStripped.length = transaction.encode.length ↔ transaction.hasWitness = false) := by
  unfold Transaction.encode
  by_cases witness : transaction.hasWitness = true
  · simp only [witness, if_true, Transaction.encodeStripped, List.length_append, List.length_cons,
      List.length_nil, Bool.true_eq_false, iff_false]
    omega
  · simp [witness]

theorem strippedsize_eq_size_iff (block : Block) :
    block.strippedsize = block.size ↔ block.txdata.any Transaction.hasWitness = false := by
  have lengths (transactions : List Transaction) :
      (transactions.map Transaction.encodeStripped).flatten.length ≤
          (transactions.map Transaction.encode).flatten.length ∧
        ((transactions.map Transaction.encodeStripped).flatten.length =
            (transactions.map Transaction.encode).flatten.length ↔
          transactions.any Transaction.hasWitness = false) := by
    induction transactions with
    | nil => simp
    | cons transaction rest ih =>
        have first := length_encode transaction
        simp only [List.map_cons, List.flatten_cons, List.length_append, List.any_cons, Bool.or_eq_false_iff]
        rw [← first.2, ← ih.2]
        omega
  rw [← (lengths block.txdata).2]
  simp only [Block.strippedsize, Block.size, Block.encode, encodeList, List.length_append]
  omega

theorem lookup_insertAll_of_not_mem {key : String} {entries : List (String × Json)}
    (absent : key ∉ entries.map Prod.fst) (members : List (String × Json)) :
    (entries.foldl (fun members entry => mapInsert entry.1 entry.2 members) members).lookup key =
      members.lookup key := by
  induction entries generalizing members with
  | nil => rfl
  | cons entry rest ih =>
      simp only [List.map_cons, List.mem_cons, not_or] at absent
      rw [List.foldl_cons, ih absent.2, lookup_mapInsert_of_ne absent.1]

theorem lookup_mapOfEntries {key : String} {value : Json} {entries : List (String × Json)}
    (distinct : (entries.map Prod.fst).Nodup) (member : (key, value) ∈ entries) :
    (mapOfEntries entries).lookup key = some value := by
  unfold mapOfEntries
  generalize ([] : List (String × Json)) = members
  induction entries generalizing members with
  | nil => simp at member
  | cons entry rest ih =>
      obtain ⟨absent, restDistinct⟩ := List.nodup_cons.mp distinct
      rcases List.mem_cons.mp member with rfl | later
      · rw [List.foldl_cons, lookup_insertAll_of_not_mem absent, lookup_mapInsert_self]
      · exact ih restDistinct later _

theorem member_encode {block : GetBlockResult} {key : String} {value : Json}
    (member : (key, value) ∈ block.header.entries ++
      [("size", encodeUsize block.size), ("strippedsize", (block.strippedsize.map encodeUsize).getD .null),
        ("weight", encodeUsize block.weight), ("tx", .array (block.tx.map encodeHash))]) :
    block.encode.member key = some value := by
  refine lookup_mapOfEntries ?_ member
  simp [GetBlockHeaderResult.entries]

theorem written_eq_iff {Value : Type} {read : Json → Option Value} {encode : Value → Json}
    (roundTrip : ∀ json value, read json = some value → (encode value = json ↔ LowerCase json))
    {given : Option Json} {value : Option Value} (isRead : readOptional read given = some value) :
    some ((value.map encode).getD .null) = given ↔ ∃ json, given = some json ∧ LowerCase json := by
  unfold readOptional at isRead
  split at isRead
  · simp
  · obtain rfl := Option.some.inj isRead
    simp [LowerCase]
  · obtain ⟨value, isValue, rfl⟩ := Option.map_eq_some_iff.mp isRead
    simp [roundTrip _ _ isValue]

theorem encodeU64_roundTrip (json : Json) (value : UInt64) (isRead : readU64 json = some value) :
    encodeU64 value = json ↔ LowerCase json := by
  cases json with
  | number number =>
      rw [asU64_eq_some_iff.mp isRead]
      simp [encodeU64, LowerCase]
  | _ => simp [readU64] at isRead

theorem hexEncode_roundTrip (json : Json) (bytes : List UInt8) (isRead : readHex json = some bytes) :
    .string (hexEncode bytes) = json ↔ LowerCase json := by
  cases json with
  | string text =>
      have lower := hexBytes_eq_some_iff.mp isRead
      rw [Json.string.injEq, hexEncode, LowerCase, lower, ← String.toList_inj, String.toList_ofList]
  | _ => simp [readHex] at isRead

theorem encodeHash_roundTrip (json : Json) (hash : Digest) (isRead : readHash json = some hash) :
    encodeHash hash = json ↔ LowerCase json := by
  obtain ⟨text, rfl, prints⟩ := readHash_eq_some_iff.mp isRead
  rw [encodeHash, Json.string.injEq, hexEncode, LowerCase, prints, ← String.toList_inj, String.toList_ofList]

structure ReadsOptional (reply : List (String × Json)) (header : GetBlockHeaderResult) : Prop where
  versionHex : readOptional readHex (reply.lookup "versionHex") = some header.versionHex
  mediantime : readOptional readU64 (reply.lookup "mediantime") = some header.mediantime
  previousblockhash : readOptional readHash (reply.lookup "previousblockhash") = some header.previousblockhash
  nextblockhash : readOptional readHash (reply.lookup "nextblockhash") = some header.nextblockhash

theorem readHeader_optional {floatBits : Number → UInt64} {reply : List (String × Json)}
    {header : GetBlockHeaderResult} (read : readHeader floatBits reply = some header) :
    ReadsOptional reply header := by
  obtain ⟨hash, _, read⟩ := Option.bind_eq_some_iff.mp read
  obtain ⟨confirmations, _, read⟩ := Option.bind_eq_some_iff.mp read
  obtain ⟨height, _, read⟩ := Option.bind_eq_some_iff.mp read
  obtain ⟨version, _, read⟩ := Option.bind_eq_some_iff.mp read
  obtain ⟨versionHex, isVersionHex, read⟩ := Option.bind_eq_some_iff.mp read
  obtain ⟨merkleroot, _, read⟩ := Option.bind_eq_some_iff.mp read
  obtain ⟨time, _, read⟩ := Option.bind_eq_some_iff.mp read
  obtain ⟨mediantime, isMediantime, read⟩ := Option.bind_eq_some_iff.mp read
  obtain ⟨nonce, _, read⟩ := Option.bind_eq_some_iff.mp read
  obtain ⟨bits, _, read⟩ := Option.bind_eq_some_iff.mp read
  obtain ⟨difficulty, _, read⟩ := Option.bind_eq_some_iff.mp read
  obtain ⟨chainwork, _, read⟩ := Option.bind_eq_some_iff.mp read
  obtain ⟨nTx, _, read⟩ := Option.bind_eq_some_iff.mp read
  obtain ⟨previous, isPrevious, read⟩ := Option.bind_eq_some_iff.mp read
  obtain ⟨next, isNext, read⟩ := Option.bind_eq_some_iff.mp read
  rw [← Option.some.inj read]
  exact ⟨isVersionHex, isMediantime, isPrevious, isNext⟩

section

variable {sha256d : List UInt8 → Digest} {reply : List (String × Json)} {header : GetBlockHeaderResult}
  {block : Block}

theorem header_kept_iff (reads : ReadsOptional reply header) :
    (∀ name ∈ optionalMembers, (blockResult sha256d header block).encode.member name = reply.lookup name) ↔
      Complete reply := by
  have member {key : String} {value : Json} (isEntry : (key, value) ∈ header.entries) :
      (blockResult sha256d header block).encode.member key = some value :=
    member_encode (List.mem_append_left _ isEntry)
  have versionHex : (blockResult sha256d header block).encode.member "versionHex" =
      some ((header.versionHex.map fun bytes => Json.string (hexEncode bytes)).getD .null) :=
    member (by simp [GetBlockHeaderResult.entries])
  have mediantime : (blockResult sha256d header block).encode.member "mediantime" =
      some ((header.mediantime.map encodeU64).getD .null) :=
    member (by simp [GetBlockHeaderResult.entries])
  have previous : (blockResult sha256d header block).encode.member "previousblockhash" =
      some ((header.previousblockhash.map encodeHash).getD .null) :=
    member (by simp [GetBlockHeaderResult.entries])
  have next : (blockResult sha256d header block).encode.member "nextblockhash" =
      some ((header.nextblockhash.map encodeHash).getD .null) :=
    member (by simp [GetBlockHeaderResult.entries])
  simp only [optionalMembers, Complete, List.forall_mem_cons, versionHex, mediantime, previous, next,
    written_eq_iff hexEncode_roundTrip reads.versionHex, written_eq_iff encodeU64_roundTrip reads.mediantime,
    written_eq_iff encodeHash_roundTrip reads.previousblockhash,
    written_eq_iff encodeHash_roundTrip reads.nextblockhash]
  simp

theorem strippedsize_kept_iff :
    (blockResult sha256d header block).encode.member "strippedsize" = some (encodeUsize block.strippedsize) ↔
      block.txdata.any Transaction.hasWitness = true := by
  have member : (blockResult sha256d header block).encode.member "strippedsize" =
      some (((blockResult sha256d header block).strippedsize.map encodeUsize).getD .null) :=
    member_encode (List.mem_append_right _ (by simp))
  have sizes := strippedsize_eq_size_iff block
  rw [member, ← Bool.not_eq_false, ← sizes]
  by_cases same : block.strippedsize = block.size
  · simp [blockResult, same, encodeUsize, encodeU64]
  · simp [blockResult, same]

theorem blockResult_matchesCore_iff (reads : ReadsOptional reply header) :
    MatchesCore sha256d reply block (blockResult sha256d header block).encode ↔
      block.txdata.any Transaction.hasWitness = true ∧ Complete reply := by
  rw [← header_kept_iff reads, ← strippedsize_kept_iff]
  constructor
  · exact fun matched => ⟨matched.strippedsize, matched.header⟩
  · rintro ⟨strippedsize, kept⟩
    refine ⟨strippedsize, ?_, ?_, ?_, kept⟩
    · exact member_encode (List.mem_append_right _ (by simp [blockResult]))
    · exact member_encode (List.mem_append_right _ (by simp [blockResult]))
    · exact member_encode (List.mem_append_right _ (by simp [blockResult]))

end

def Composes (user : User) (upstream : Upstream) (request : RpcRequest) (header : GetBlockHeaderResult)
    (block : Block) : Prop :=
  ∃ params hash, BlockCall user request params hash ∧
    params[1]?.getD (.number (.posInt 1)) = .number (.posInt 1) ∧
    (upstream.callHeader hash).value = some (.ok (.right header)) ∧
    (upstream.fetchBlock hash).value = some (.ok (some block))

section

variable {user : User} {upstream : Upstream} {request : RpcRequest} {header : GetBlockHeaderResult}
  {block : Block}

theorem intercept_composes (composes : Composes user upstream request header block) :
    (user.intercept upstream request).value =
      some (.ok (some (request.answer (blockResult upstream.sha256d header block).encode))) := by
  obtain ⟨params, hash, call, verbose, replied, fetched⟩ := composes
  have isBlock : user.intercept upstream request = interceptBlock upstream request params := by
    have allowed := call.allowed
    rw [call.method] at allowed
    simp [User.intercept, allowed, call.positional, call.fetches, call.method, verbose, Number.asU64]
  obtain ⟨first, isFirst, isHash⟩ := Option.bind_eq_some_iff.mp call.hash
  rw [isBlock, interceptBlock, withBlockHash]
  simp only [isFirst, isHash, Future.value_map]
  rcases Future.tryJoin_value replied fetched with ⟨_, _, isLeft, isRight, joined⟩ | ⟨error, failed, _⟩
  · obtain rfl := Except.ok.inj isLeft
    obtain rfl := Except.ok.inj isRight
    simp [joined, HeaderReply.intoRight]
  · simp at failed

/-- What the proxy answers for a block is what bitcoind says of it exactly where the block has witness
data and the reply has all the optional members. -/
theorem composed_answer_matchesCore_iff {floatBits : Number → UInt64} {reply : List (String × Json)}
    (replied : readHeader floatBits reply = some header)
    (composes : Composes user upstream request header block) :
    ∃ answer, (user.intercept upstream request).value = some (.ok (some (request.answer answer))) ∧
      (MatchesCore upstream.sha256d reply block answer ↔
        block.txdata.any Transaction.hasWitness = true ∧ Complete reply) :=
  ⟨_, intercept_composes composes, blockResult_matchesCore_iff (readHeader_optional replied)⟩

end

/-! A block at the tip, and one with a block on either side. -/

def spending (witness : List (List UInt8)) : Block :=
  { header :=
      { version := 1, prevBlockhash := Digest.zeros, merkleRoot := Digest.zeros, time := 0, bits := 0, nonce := 0 },
    txdata :=
      [{ version := 2,
         lockTime := 0,
         input := [{ previousOutput := { txid := Digest.zeros, vout := 0 }, scriptSig := [], sequence := 0, witness }],
         output := [] }] }

def replyWith (neighbours : List (String × Json)) : List (String × Json) :=
  [("hash", encodeHash Digest.zeros), ("confirmations", .number (.posInt 1)), ("height", .number (.posInt 7)),
    ("version", .number (.posInt 1)), ("versionHex", .string "00000001"), ("merkleroot", encodeHash Digest.zeros),
    ("time", .number (.posInt 0)), ("mediantime", .number (.posInt 0)), ("nonce", .number (.posInt 0)),
    ("bits", .string "1d00ffff"), ("difficulty", .number (.posInt 1)), ("chainwork", .string "0001"),
    ("nTx", .number (.posInt 1))] ++ neighbours

def tipReply : List (String × Json) := replyWith [("previousblockhash", encodeHash Digest.zeros)]

def middleReply : List (String × Json) :=
  replyWith [("previousblockhash", encodeHash Digest.zeros), ("nextblockhash", encodeHash Digest.zeros)]

def answering (header : GetBlockHeaderResult) (block : Block) : Upstream :=
  { noUpstream with
    fetchBlockRaw := fun _ => Future.pure (.ok (some block.encode)),
    header := fun _ => Future.pure (.ok { id := none, error := none, result := some (.right header) }),
    decodeBlock := fun _ => .ok block }

def verboseCall : RpcRequest := zeroBlockCall (.number (.posInt 1))

theorem answering_composes (header : GetBlockHeaderResult) (block : Block) :
    Composes explorer (answering header block) verboseCall header block :=
  ⟨_, Digest.zeros, zeroBlockCall_calls _, rfl, rfl, rfl⟩

theorem middleReply_complete : Complete middleReply := by
  have lower : LowerCase (encodeHash Digest.zeros) := by
    simp [LowerCase, encodeHash, hexEncode, toLower_hexChars]
  have version : LowerCase (.string "00000001") := by
    unfold LowerCase
    decide
  simp only [Complete, optionalMembers, List.forall_mem_cons]
  exact ⟨⟨_, rfl, version⟩, ⟨_, rfl, trivial⟩, ⟨_, rfl, lower⟩, ⟨_, rfl, lower⟩, by simp⟩

theorem middle_answer_matchesCore :
    ∃ header answer, readHeader (fun _ => 0) middleReply = some header ∧
      (explorer.intercept (answering header (spending [[1]])) verboseCall).value =
        some (.ok (some (verboseCall.answer answer))) ∧
      MatchesCore noUpstream.sha256d middleReply (spending [[1]]) answer := by
  have read : (readHeader (fun _ => 0) middleReply).isSome = true := by decide +kernel
  obtain ⟨header, isHeader⟩ := Option.isSome_iff_exists.mp read
  obtain ⟨answer, answered, matched⟩ :=
    composed_answer_matchesCore_iff isHeader (answering_composes header (spending [[1]]))
  exact ⟨header, answer, isHeader, answered, matched.mpr ⟨by decide +kernel, middleReply_complete⟩⟩

theorem tip_answer_differs :
    ∃ header answer, readHeader (fun _ => 0) tipReply = some header ∧
      (explorer.intercept (answering header (spending [])) verboseCall).value =
        some (.ok (some (verboseCall.answer answer))) ∧
      answer.member "strippedsize" = some .null ∧
      (answer.member "nextblockhash" = some .null ∧ tipReply.lookup "nextblockhash" = none) ∧
      ¬MatchesCore noUpstream.sha256d tipReply (spending []) answer := by
  have read : (readHeader (fun _ => 0) tipReply).isSome = true := by decide +kernel
  obtain ⟨header, isHeader⟩ := Option.isSome_iff_exists.mp read
  have missing : tipReply.lookup "nextblockhash" = none := rfl
  have noNext : header.nextblockhash = none := by
    have isNext := (readHeader_optional isHeader).nextblockhash
    rw [missing] at isNext
    exact (Option.some.inj isNext).symm
  have sameSize : (spending []).strippedsize = (spending []).size := by decide +kernel
  have strippedsize : (blockResult noUpstream.sha256d header (spending [])).encode.member "strippedsize" =
      some .null :=
    member_encode (List.mem_append_right _ (by simp [blockResult, sameSize]))
  have next : (blockResult noUpstream.sha256d header (spending [])).encode.member "nextblockhash" = some .null :=
    member_encode (List.mem_append_left _ (by simp [blockResult, GetBlockHeaderResult.entries, noNext]))
  refine ⟨header, _, isHeader, intercept_composes (answering_composes header (spending [])), strippedsize,
    ⟨next, missing⟩, ?_⟩
  intro matched
  have stated := matched.strippedsize
  simp [answering, strippedsize, encodeUsize, encodeU64] at stated

end BtcRpcProxy
