import BtcRpcProxy.BlockAnswer
import BtcRpcProxy.BlockRepeats
import BtcRpcProxy.FetchBlocks
import BtcRpcProxy.RelatedFutures

/-!
What peers can change in the answers a user gets. However the fetches interleave, a block that came
from a peer is the honest one with some of its transactions repeated at the end, and a transaction
that is asked for by its txid is read from it as from the honest one.
-/

namespace BtcRpcProxy.FetchBlocks

open Blocks Interleaved Merkle Polled Future

section

variable {sha256d : List UInt8 → Digest} {honest block : Block} {hash : Digest}

theorem shorter_of_distinct (comparable : Comparable sha256d honest block)
    (distinct : (honest.txids sha256d).Nodup) (isHonest : accepted sha256d hash honest = true)
    (isAccepted : accepted sha256d hash block = true) : honest.txdata.length ≤ block.txdata.length := by
  by_contra longer
  have repeats := accepted_txids_repeat comparable.symm (by omega) isAccepted isHonest
  have sameLength := congrArg List.length (repeats.eq_of_nodup distinct)
  rw [txids_length, txids_length] at sameLength
  omega

theorem accepted_repeats (comparable : Comparable sha256d honest block)
    (distinct : (honest.txids sha256d).Nodup) (isHonest : accepted sha256d hash honest = true)
    (isAccepted : accepted sha256d hash block = true) : block.header = honest.header ∧
      ∃ resalted, Resalted block resalted ∧ Merkle.Repeats honest.txdata resalted.txdata :=
  ⟨(accepted_header comparable isHonest isAccepted).symm,
    accepted_transactions_repeat comparable (shorter_of_distinct comparable distinct isHonest isAccepted)
      isHonest isAccepted⟩

theorem accepted_of_verified {bytes : List UInt8} (verified : Verified sha256d hash bytes) :
    ∃ block : Block, bytes = block.encode ∧ accepted sha256d hash block = true := by
  obtain ⟨block, isBlock, isHash, isRoot, isWitnessed⟩ := verified
  exact ⟨block, isBlock, by simp [accepted, isHash, isRoot, isWitnessed]⟩

theorem system_bytes {config : Config} {maxBytes : Nat} {state : Interleaved.State Shared Call} {call : Call}
    (reached : (system config).Reached (Shared.new maxBytes) state) (member : call ∈ state.calls)
    {bytes : List UInt8} (returned : call.bytes = some bytes) :
    AnsweredBySelf state.shared call.hash bytes ∨
      ∃ block : Block, bytes = block.encode ∧ accepted config.sha256d call.hash block = true := by
  obtain ⟨_, sound⟩ := (system_keeps config).reached reached (new_verified config maxBytes)
  exact (bytes_sound (sound call member) returned).imp_right accepted_of_verified

/-- In every state the calls reach, what one of them got that bitcoind did not answer itself is the honest
block with some of its transactions repeated at the end, but for the witness of the coinbase. -/
theorem fetchBlockRaw_repeats (config : Config) (maxBytes : Nat) (state : Interleaved.State Shared Call)
    (reached : (system config).Reached (Shared.new maxBytes) state)
    (isHonest : accepted config.sha256d hash honest = true)
    (distinct : (honest.txids config.sha256d).Nodup) :
    ∀ call ∈ state.calls, call.hash = hash → ∀ bytes, call.bytes = some bytes →
      AnsweredBySelf state.shared hash bytes ∨
        ∃ block : Block, bytes = block.encode ∧
          (Comparable config.sha256d honest block → block.header = honest.header ∧
            ∃ resalted, Resalted block resalted ∧ Merkle.Repeats honest.txdata resalted.txdata) := by
  rintro call member rfl bytes returned
  refine (system_bytes reached member returned).imp_right ?_
  rintro ⟨block, isBlock, isAccepted⟩
  exact ⟨block, isBlock, fun comparable => accepted_repeats comparable distinct isHonest isAccepted⟩

/-! A transaction of the block. -/

theorem txid_withFirstWitness (transaction : Transaction) (witness : List (List UInt8)) :
    (transaction.withFirstWitness witness).txid sha256d = transaction.txid sha256d := by
  have stripped : (transaction.withFirstWitness witness).strip = transaction.strip := by
    rcases transaction with ⟨version, lockTime, _ | ⟨input, inputs⟩, output⟩ <;> rfl
  rw [Transaction.txid, ← encodeStripped_strip, stripped, encodeStripped_strip, Transaction.txid]

theorem find?_of_resalted {resalted : Block} (isResalted : Resalted block resalted) {txid : Digest}
    (notCoinbase : ∀ coinbase ∈ resalted.txdata.head?, coinbase.txid sha256d ≠ txid) :
    (block.txdata.find? fun transaction => transaction.txid sha256d = txid) =
      resalted.txdata.find? fun transaction => transaction.txid sha256d = txid := by
  have withWitness : ∀ witness, resalted = block.withCoinbaseWitness witness →
      (block.txdata.find? fun transaction => transaction.txid sha256d = txid) =
        resalted.txdata.find? fun transaction => transaction.txid sha256d = txid := by
    rintro witness rfl
    cases split : block.txdata with
    | nil => simp [Block.withCoinbaseWitness, split]
    | cons coinbase rest =>
        have other : coinbase.txid sha256d ≠ txid := by
          simpa [Block.withCoinbaseWitness, split, txid_withFirstWitness] using notCoinbase
        simp [Block.withCoinbaseWitness, split, txid_withFirstWitness, other]
  rcases isResalted with rfl | ⟨_, isResalted⟩ | ⟨_, isResalted⟩
  · rfl
  · exact withWitness _ isResalted
  · exact withWitness _ isResalted

theorem find?_of_accepted (comparable : Comparable sha256d honest block)
    (distinct : (honest.txids sha256d).Nodup) (isHonest : accepted sha256d hash honest = true)
    (isAccepted : accepted sha256d hash block = true) {txid : Digest}
    (notCoinbase : ∀ coinbase ∈ honest.txdata.head?, coinbase.txid sha256d ≠ txid) :
    (block.txdata.find? fun transaction => transaction.txid sha256d = txid) =
      honest.txdata.find? fun transaction => transaction.txid sha256d = txid := by
  obtain ⟨_, resalted, isResalted, repeats⟩ := accepted_repeats comparable distinct isHonest isAccepted
  have nonempty : honest.txdata ≠ [] := by
    obtain ⟨coinbase, rest, split⟩ := txdata_nonempty (accepted_root isHonest).2
    simp [split]
  rw [← repeats.head?_eq nonempty] at notCoinbase
  rw [find?_of_resalted isResalted notCoinbase, repeats.find?_eq]

end

/-! What a user is answered. -/

def answeredWith (upstream : Upstream) (bytes : List UInt8) : Upstream :=
  { upstream with
    fetchBlockRaw := fun hash => (upstream.fetchBlockRaw hash).map (Except.map (Option.map fun _ => bytes)) }

section

variable {upstream : Upstream} {honest block : Block} {hash txid : Digest}

theorem related_fetchBlock {bytes : List UInt8}
    (fetched : (upstream.fetchBlockRaw hash).value = some (.ok (some bytes)))
    (decodes : upstream.decodeBlock bytes = .ok block)
    (decodesHonest : upstream.decodeBlock honest.encode = .ok honest) :
    Related (fun found honestly => found = .ok (some block) ∧ honestly = .ok (some honest))
      (upstream.fetchBlock hash) ((answeredWith upstream honest.encode).fetchBlock hash) := by
  have found : Related (fun found honestly => found = .ok (some bytes) ∧ honestly = .ok (some honest.encode))
      (upstream.fetchBlockRaw hash) ((answeredWith upstream honest.encode).fetchBlockRaw hash) := by
    refine related_map_right (related_self _) ?_
    rintro found _ ⟨rfl, ends⟩
    obtain rfl := Option.some.inj (fetched.symm.trans ends)
    exact ⟨rfl, rfl⟩
  refine related_map found ?_
  rintro _ _ ⟨rfl, rfl⟩
  have alike : (answeredWith upstream honest.encode).decodeBlock = upstream.decodeBlock := rfl
  simp [alike, decodes, decodesHonest, Except.map, Except.mapError]

theorem interceptRawTransaction_eq {request : RpcRequest} {params : List Json} {verbose : Bool}
    (called : interceptable params = some (txid, verbose, hash))
    (related : Related (fun found honestly => found = .ok (some block) ∧ honestly = .ok (some honest))
      (upstream.fetchBlock hash) ((answeredWith upstream honest.encode).fetchBlock hash))
    (same : (block.txdata.find? fun transaction => transaction.txid upstream.sha256d = txid) =
      honest.txdata.find? fun transaction => transaction.txid upstream.sha256d = txid) :
    interceptRawTransaction upstream request params =
      interceptRawTransaction (answeredWith upstream honest.encode) request params := by
  simp only [interceptRawTransaction, called]
  refine eq_of_related (related_bind related ?_)
  rintro _ _ ⟨rfl, rfl⟩
  have alike : (answeredWith upstream honest.encode).sha256d = upstream.sha256d := rfl
  simp only [alike, same]
  exact related_refl (fun _ => rfl) _

/-- A fetch has got these bytes for the hash of an honest block, whose encoding is what bitcoind gives. -/
structure FetchedFor (config : Config) (state : Interleaved.State Shared Call) (upstream : Upstream)
    (honest : Block) (hash : Digest) (bytes : List UInt8) : Prop where
  isHonest : accepted config.sha256d hash honest = true
  distinct : (honest.txids config.sha256d).Nodup
  returned : ∃ call ∈ state.calls, call.hash = hash ∧ call.bytes = some bytes
  trusted : AnsweredBySelf state.shared hash bytes → bytes = honest.encode
  comparable : ∀ block : Block, bytes = block.encode → Comparable config.sha256d honest block
  sha256d : upstream.sha256d = config.sha256d
  fetched : (upstream.fetchBlockRaw hash).value = some (.ok (some bytes))
  decodes : ∀ block : Block, bytes = block.encode ∨ block = honest →
    upstream.decodeBlock block.encode = .ok block

/-- In every state the calls reach, a `getrawtransaction` for any transaction but the coinbase is answered
as if the honest block had been fetched, and makes the same calls, whatever the peers sent. -/
theorem getRawTransaction_as_honest {config : Config} {maxBytes : Nat}
    {state : Interleaved.State Shared Call} (reached : (system config).Reached (Shared.new maxBytes) state)
    {bytes : List UInt8} (fetchedFor : FetchedFor config state upstream honest hash bytes)
    (notCoinbase : ∀ coinbase ∈ honest.txdata.head?, coinbase.txid config.sha256d ≠ txid) {user : User}
    {request : RpcRequest} {params : List Json} {verbose : Bool}
    (isMethod : request.method = getRawTransaction) (isParams : request.params = .array params)
    (called : interceptable params = some (txid, verbose, hash)) :
    user.intercept upstream request = user.intercept (answeredWith upstream honest.encode) request := by
  have decodesHonest := fetchedFor.decodes honest (Or.inr rfl)
  have sameTransaction : interceptRawTransaction upstream request params =
      interceptRawTransaction (answeredWith upstream honest.encode) request params := by
    obtain ⟨call, member, isHash, returned⟩ := fetchedFor.returned
    have origin := system_bytes reached member returned
    rw [isHash] at origin
    rcases origin with answered | ⟨block, isBlock, isAccepted⟩
    · have isEncoding := fetchedFor.trusted answered
      exact interceptRawTransaction_eq called
        (related_fetchBlock fetchedFor.fetched (isEncoding ▸ decodesHonest) decodesHonest) rfl
    · refine interceptRawTransaction_eq called (related_fetchBlock fetchedFor.fetched
        (isBlock ▸ fetchedFor.decodes block (Or.inl isBlock)) decodesHonest) ?_
      rw [fetchedFor.sha256d]
      exact find?_of_accepted (fetchedFor.comparable block isBlock) fetchedFor.distinct fetchedFor.isHonest
        isAccepted notCoinbase
  have notBlock : (getRawTransaction == getBlock) = false := by decide
  simp only [User.intercept, isParams, isMethod, notBlock, Bool.and_false, Bool.false_eq_true, if_false,
    sameTransaction]

end

/-! A block of three transactions, and what a peer makes of it: the last one repeated, and no witness
where the coinbase has zeros. -/

def saltedCommitment : Digest :=
  Digest.ofNat 0x608647e225fed9f6928e38446a8629a149f4b0dcf64c79cbbd39f67233e707c7

def saltedHeader : BlockHeader :=
  { (sampleBlock []).header with
    merkleRoot := Digest.ofNat 0x213c1e593c82774cce6935dcd88ecf457d9103050103c3fd8444a105b6a5c682 }

def saltedBlock : Block :=
  { header := saltedHeader,
    txdata := [committingCoinbase saltedCommitment [zeroReserved], sampleSecond, sampleThird] }

def resentBlock : Block :=
  { header := saltedHeader,
    txdata := [committingCoinbase saltedCommitment [], sampleSecond, sampleThird, sampleThird] }

def saltedHashes : List (List UInt8 × Digest) :=
  let coinbase := Digest.ofNat 0x9c16e91ad794b660aedc4dc7c69d13b3189a9bfcdc68f1792cfefbed4ed9395d
  let second := Digest.ofNat 0x8cd24efe7dbd724c364ccf86176bf3a75643b0d1993c35631b29d24748da3862
  let third := Digest.ofNat 0x7a93c2fc3107a5a38c95dd2a7a39388ddc31e2bb3780fbb46e50c5d801ba3057
  let first := Digest.ofNat 0xd829aaa0945016bbf6e60f3d8de3eb4e4833c207bed404d659d1c0a822a7a0ec
  let last := Digest.ofNat 0xae8a553cd242ddc0e1809ba5062a735d5deaa99631cba974864a964e5de8017b
  let witnessFirst := Digest.ofNat 0x23e13e855a8f42204d4bd810623cf1dc5170c08fa6fd00e746dd255dc6a03bd8
  let witnessRoot := Digest.ofNat 0x830293d42358a700062da94bb83881527e209732a13b58c03c961d6ef0b4b532
  [((committingCoinbase saltedCommitment []).encodeStripped, coinbase),
    (sampleSecond.encodeStripped, second),
    (sampleThird.encodeStripped, third),
    (nodeBytes (coinbase, second), first),
    (nodeBytes (third, third), last),
    (nodeBytes (first, last), saltedHeader.merkleRoot),
    (nodeBytes (Digest.zeros, second), witnessFirst),
    (nodeBytes (witnessFirst, last), witnessRoot),
    (witnessRoot.val ++ zeroReserved, saltedCommitment)]

def saltedHash (bytes : List UInt8) : Digest :=
  (saltedHashes.lookup bytes).getD
    (Digest.ofNat 0xa318270c53a23ef52655d4ed55d48a144d6cf129b03692000fa387ac2da71667)

def saltedConfig : Config := { sampleConfig with sha256d := saltedHash }

theorem saltedBlock_accepted : accepted saltedHash (saltedBlock.blockHash saltedHash) saltedBlock = true := by
  decide +kernel

theorem saltedBlock_distinct : (saltedBlock.txids saltedHash).Nodup := by decide +kernel

theorem resentBlock_comparable : Comparable saltedHash saltedBlock resentBlock where
  collisionFree := by
    unfold CollisionFree
    decide +kernel
  noZeros := by decide +kernel
  leftSize := by
    unfold Writable
    decide +kernel
  rightSize := by
    unfold Writable
    decide +kernel
  leftSized := by
    unfold NotNodeSized
    decide +kernel
  rightSized := by
    unfold NotNodeSized
    decide +kernel

def resendingRun : List (Action Digest Event (List PeerInfo)) :=
  let pruned : RpcError := { code := miscErrorCode, message := pruneErrorMessage, status := none }
  [.begin (saltedBlock.blockHash saltedHash), .advance 0 .proceed,
    .advance 0 (.selfReplied (.ok { id := none, error := some pruned, result := none })),
    .advance 0 (.peersRead false),
    .advance 0 (.peersUpdated (.ok [samplePeer "first"])),
    .advance 0 .proceed,
    .advance 0 (.runner (.start 0)),
    .advance 0 (.runner (.peer (.handshake .version .verack))),
    .advance 0 (.runner (.peer .written)),
    .advance 0 (.runner (.peer (.read (.block resentBlock)))),
    .advance 0 .received, .advance 0 .proceed]

def answeredNone (shared : Shared) : Bool :=
  shared.replies.all fun reply =>
    match reply.2 with
    | .ok response => response.error.isSome
    | .error _ => true

theorem not_answered {shared : Shared} (none : answeredNone shared = true) (hash : Digest) (bytes : List UInt8) :
    ¬AnsweredBySelf shared hash bytes := by
  rintro ⟨response, member, noError, _⟩
  have failed := List.all_eq_true.mp none _ member
  simp [noError] at failed

theorem resendingRun_returns : ∃ state : Interleaved.State Shared Call,
    (system saltedConfig).Reached (Shared.new 1000) state ∧ answeredNone state.shared = true ∧
      state.calls.map (fun call => (call.hash, call.bytes)) =
        [(saltedBlock.blockHash saltedHash, some resentBlock.encode)] := by
  have returned : (Runs.runFrom (system saltedConfig).step { shared := Shared.new 1000, calls := [] }
      resendingRun).map (fun state =>
        (answeredNone state.shared, state.calls.map fun call => (call.hash, call.bytes))) =
        some (true, [(saltedBlock.blockHash saltedHash, some resentBlock.encode)]) := by
    decide +kernel
  obtain ⟨state, run, isState⟩ := Option.map_eq_some_iff.mp returned
  obtain ⟨none, calls⟩ := Prod.mk.inj isState
  exact ⟨state, Runs.reachable_of_run _ resendingRun run, none, calls⟩

theorem fetchBlockRaw_repeats_resent :
    ∃ state : Interleaved.State Shared Call,
      state.calls.map Call.bytes = [some resentBlock.encode] ∧
      Comparable saltedHash saltedBlock resentBlock ∧
      ∀ call ∈ state.calls, call.hash = saltedBlock.blockHash saltedHash →
        ∀ bytes, call.bytes = some bytes →
          AnsweredBySelf state.shared (saltedBlock.blockHash saltedHash) bytes ∨
            ∃ block : Block, bytes = block.encode ∧
              (Comparable saltedHash saltedBlock block → block.header = saltedBlock.header ∧
                ∃ resalted, Resalted block resalted ∧ Merkle.Repeats saltedBlock.txdata resalted.txdata) := by
  obtain ⟨state, reached, _, calls⟩ := resendingRun_returns
  refine ⟨state, ?_, resentBlock_comparable,
    fetchBlockRaw_repeats saltedConfig 1000 state reached saltedBlock_accepted saltedBlock_distinct⟩
  simpa using congrArg (List.map Prod.snd) calls

def resending : Upstream :=
  { noUpstream with
    sha256d := saltedHash,
    fetchBlockRaw := fun _ => Future.pure (.ok (some resentBlock.encode)),
    decodeBlock := fun bytes => .ok (if bytes = resentBlock.encode then resentBlock else saltedBlock) }

def lastTransactionCall : RpcRequest :=
  { jsonrpc := none, id := none, method := getRawTransaction,
    params := .array [encodeHash (sampleThird.txid saltedHash), .bool false,
      encodeHash (saltedBlock.blockHash saltedHash)] }

theorem resentBlock_of_encode {block : Block} (isBlock : resentBlock.encode = block.encode) :
    resentBlock = block :=
  block_encode_injective resentBlock_comparable.rightSize isBlock

theorem getRawTransaction_as_honest_resent :
    explorer.intercept resending lastTransactionCall =
      explorer.intercept (answeredWith resending saltedBlock.encode) lastTransactionCall := by
  obtain ⟨state, reached, none, calls⟩ := resendingRun_returns
  obtain ⟨call, isOnly, isCall⟩ := List.map_eq_singleton_iff.mp calls
  have different : saltedBlock.encode ≠ resentBlock.encode := by decide +kernel
  have fetchedFor : FetchedFor saltedConfig state resending saltedBlock (saltedBlock.blockHash saltedHash)
      resentBlock.encode := by
    refine ⟨saltedBlock_accepted, saltedBlock_distinct, ⟨call, by simp [isOnly], Prod.mk.inj isCall⟩, ?_, ?_,
      rfl, rfl, ?_⟩
    · intro answered
      exact absurd answered (not_answered none _ _)
    · intro block isBlock
      exact resentBlock_of_encode isBlock ▸ resentBlock_comparable
    · rintro block (isBlock | rfl)
      · obtain rfl := resentBlock_of_encode isBlock
        simp [resending]
      · simp [resending, different]
  have called : interceptable [encodeHash (sampleThird.txid saltedHash), .bool false,
      encodeHash (saltedBlock.blockHash saltedHash)] =
        some (sampleThird.txid saltedHash, false, saltedBlock.blockHash saltedHash) := by
    decide +kernel
  have notCoinbase : ∀ coinbase ∈ saltedBlock.txdata.head?,
      coinbase.txid saltedHash ≠ sampleThird.txid saltedHash := by
    decide +kernel
  exact getRawTransaction_as_honest reached fetchedFor notCoinbase rfl rfl called

end BtcRpcProxy.FetchBlocks
