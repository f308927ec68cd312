import BtcRpcProxy.MerkleRepeats
import BtcRpcProxy.BlockEncoding

/-!
What the checks leave open to a peer: how often it repeats the last transactions of a block, and
whether the coinbase has zeros for a witness or none. A transaction that is not in the block is not
accepted with it.
-/

namespace BtcRpcProxy.Blocks

open Merkle

section

variable (sha256d : Bytes → Digest)

/-- What is hashed between the transactions of a block and its hash. -/
def txidStrings (block : Block) : List Bytes :=
  hashedStrings sha256d block ++ block.txdata.map Transaction.encodeStripped

def checkedStrings (block : Block) : List Bytes := txidStrings sha256d block ++ witnessStrings sha256d block

end

/-- A node is hashed from 64 bytes, and a transaction of 64 bytes could stand for one. -/
def NotNodeSized (encode : Transaction → Bytes) (block : Block) : Prop :=
  ∀ transaction ∈ block.txdata, (encode transaction).length ≠ 64

/-- A block as it is, or with zeros where its coinbase has no witness, or the other way about. -/
def Resalted (block other : Block) : Prop :=
  other = block ∨
    (block.witnessAt 0 0 = some [] ∧ other = block.withCoinbaseWitness [List.replicate 32 0]) ∨
    (block.witnessAt 0 0 = some [List.replicate 32 0] ∧ other = block.withCoinbaseWitness [])

/-- What is assumed of two blocks: no two of the strings hashed to check them collide, none hashes to the
zeros that stand for the coinbase, and no transaction has the size of a node. -/
structure Comparable (sha256d : Bytes → Digest) (left right : Block) : Prop where
  collisionFree : CollisionFree sha256d (checkedStrings sha256d left ++ checkedStrings sha256d right)
  noZeros : ∀ bytes ∈ witnessStrings sha256d left ++ witnessStrings sha256d right,
    sha256d bytes ≠ Digest.zeros
  leftSize : Writable left.encode.length
  rightSize : Writable right.encode.length
  leftSized : NotNodeSized Transaction.encodeStripped left ∧ NotNodeSized Transaction.encode left
  rightSized : NotNodeSized Transaction.encodeStripped right ∧ NotNodeSized Transaction.encode right

theorem nodeBytes_length (pair : Digest × Digest) : (nodeBytes pair).length = 64 := by
  rw [nodeBytes, List.length_append, pair.1.2, pair.2.2]

section

variable {sha256d : Bytes → Digest} {left right : Block}

theorem CollisionFree.mono {strings fewer : List Bytes} (collisionFree : CollisionFree sha256d strings)
    (within : ∀ bytes ∈ fewer, bytes ∈ strings) : CollisionFree sha256d fewer :=
  fun first firstMember second secondMember =>
    collisionFree first (within first firstMember) second (within second secondMember)

theorem Comparable.txidsFree (comparable : Comparable sha256d left right) :
    CollisionFree sha256d (txidStrings sha256d left ++ txidStrings sha256d right) := by
  refine comparable.collisionFree.mono ?_
  intro bytes member
  simp only [checkedStrings, List.mem_append] at member ⊢
  tauto

theorem Comparable.witnessesFree (comparable : Comparable sha256d left right) :
    CollisionFree sha256d (witnessStrings sha256d left ++ witnessStrings sha256d right) := by
  refine comparable.collisionFree.mono ?_
  intro bytes member
  simp only [checkedStrings, List.mem_append] at member ⊢
  tauto

theorem Comparable.symm (comparable : Comparable sha256d left right) : Comparable sha256d right left where
  collisionFree := comparable.collisionFree.mono fun _ member => List.mem_append.mpr (List.mem_append.mp member).symm
  noZeros := fun bytes member =>
    comparable.noZeros bytes (List.mem_append.mpr (List.mem_append.mp member).symm)
  leftSize := comparable.rightSize
  rightSize := comparable.leftSize
  leftSized := comparable.rightSized
  rightSized := comparable.leftSized

theorem ne_node {strings : List Bytes} (collisionFree : CollisionFree sha256d strings) {bytes : Bytes}
    {pair : Digest × Digest} (hashed : bytes ∈ strings) (pairHashed : nodeBytes pair ∈ strings)
    (size : bytes.length ≠ 64) : sha256d bytes ≠ merkleNode sha256d pair := by
  intro same
  have isNode : bytes = nodeBytes pair := collisionFree _ hashed _ pairHashed same
  exact size (isNode ▸ nodeBytes_length pair)

theorem header_hashed (block : Block) : block.header.encode ∈ txidStrings sha256d block :=
  List.mem_append_left _ List.mem_cons_self

theorem txidPair_hashed {block : Block} {pair : Digest × Digest}
    (member : pair ∈ hashedPairs (merkleNode sha256d) (block.txids sha256d).length (block.txids sha256d)) :
    nodeBytes pair ∈ txidStrings sha256d block := by
  rw [txids_length] at member
  exact List.mem_append_left _ (List.mem_cons_of_mem _ (List.mem_map_of_mem member))

theorem stripped_hashed {block : Block} {transaction : Transaction} (member : transaction ∈ block.txdata) :
    transaction.encodeStripped ∈ txidStrings sha256d block :=
  List.mem_append_right _ (List.mem_map_of_mem member)

theorem txids_apart {block other : Block} (comparable : Comparable sha256d block other) :
    Apart (merkleNode sha256d) (block.txids sha256d)
      (hashedPairs (merkleNode sha256d) (other.txids sha256d).length (other.txids sha256d)) := by
  intro leaf isLeaf pair isPair
  obtain ⟨transaction, member, rfl⟩ := List.mem_map.mp isLeaf
  exact ne_node comparable.txidsFree (List.mem_append_left _ (stripped_hashed member))
    (List.mem_append_right _ (txidPair_hashed isPair)) (comparable.leftSized.1 transaction member)

theorem accepted_header {hash : Digest} (comparable : Comparable sha256d left right)
    (leftAccepted : accepted sha256d hash left = true) (rightAccepted : accepted sha256d hash right = true) :
    left.header = right.header :=
  encode_header_injective (comparable.txidsFree _ (List.mem_append_left _ (header_hashed left))
    _ (List.mem_append_right _ (header_hashed right))
    ((accepted_root leftAccepted).1.trans (accepted_root rightAccepted).1.symm))

theorem accepted_txids_repeat {hash : Digest} (comparable : Comparable sha256d left right)
    (shorter : left.txdata.length ≤ right.txdata.length) (leftAccepted : accepted sha256d hash left = true)
    (rightAccepted : accepted sha256d hash right = true) :
    Merkle.Repeats (left.txids sha256d) (right.txids sha256d) := by
  have leftRoot := (accepted_root leftAccepted).2
  have rightRoot := (accepted_root rightAccepted).2
  rw [← accepted_header comparable leftAccepted rightAccepted] at rightRoot
  refine root_repeats (merkleNode_injOn comparable.txidsFree ?_) (txids_apart comparable)
    (txids_apart comparable.symm) ?_ leftRoot rightRoot
  · intro pair member
    rcases List.mem_append.mp member with inLeft | inRight
    · exact List.mem_append_left _ (txidPair_hashed inLeft)
    · exact List.mem_append_right _ (txidPair_hashed inRight)
  · rwa [txids_length, txids_length]

/-! Transactions apart from their witnesses. -/

theorem encodeStripped_strip (transaction : Transaction) :
    transaction.strip.encodeStripped = transaction.encodeStripped := by
  have inputs : encodeList TxIn.encode (transaction.input.map TxIn.strip) =
      encodeList TxIn.encode transaction.input := by
    rw [encodeList, List.length_map, List.map_map]
    rfl
  rw [strip_eq, Transaction.encodeStripped, inputs]
  rfl

theorem txids_of_strip (block : Block) :
    (block.txdata.map Transaction.strip).map (Transaction.txid sha256d) = block.txids sha256d := by
  rw [List.map_map, Block.txids]
  refine List.map_congr_left ?_
  intro transaction _
  rw [Function.comp_apply, Transaction.txid, encodeStripped_strip, Transaction.txid]

theorem stripped_repeat (comparable : Comparable sha256d left right)
    (repeats : Merkle.Repeats (left.txids sha256d) (right.txids sha256d)) :
    Merkle.Repeats (left.txdata.map Transaction.strip) (right.txdata.map Transaction.strip) := by
  rw [← txids_of_strip, ← txids_of_strip] at repeats
  refine Merkle.Repeats.of_map ?_ repeats
  have leftFits := block_fits comparable.leftSize
  have rightFits := block_fits comparable.rightSize
  have origin : ∀ stripped, stripped ∈ left.txdata.map Transaction.strip ++ right.txdata.map Transaction.strip →
      ∃ transaction : Transaction, transaction.strip = stripped ∧ transaction.Fits ∧
        transaction.encodeStripped ∈ txidStrings sha256d left ++ txidStrings sha256d right := by
    intro stripped member
    rw [← List.map_append] at member
    obtain ⟨transaction, inEither, rfl⟩ := List.mem_map.mp member
    refine ⟨transaction, rfl, ?_⟩
    rcases List.mem_append.mp inEither with inLeft | inRight
    · exact ⟨leftFits.transactions _ inLeft, List.mem_append_left _ (stripped_hashed inLeft)⟩
    · exact ⟨rightFits.transactions _ inRight, List.mem_append_right _ (stripped_hashed inRight)⟩
  intro first firstMember second secondMember same
  obtain ⟨firstOrigin, rfl, firstFits, firstHashed⟩ := origin first firstMember
  obtain ⟨secondOrigin, rfl, secondFits, secondHashed⟩ := origin second secondMember
  simp only [Transaction.txid, encodeStripped_strip] at same
  exact encodeStripped_reads.view_eq firstFits secondFits
    (comparable.txidsFree _ firstHashed _ secondHashed same)

/-! The witnesses. -/

theorem committed_root (comparable : Comparable sha256d left right)
    (sameOutputs : left.txdata.head?.map Transaction.output = right.txdata.head?.map Transaction.output)
    (leftCommitted : left.Committed sha256d) (rightCommitted : right.Committed sha256d) :
    ∃ root, Merkle.root (merkleNode sha256d) (witnessLeaves sha256d left.txdata) = some root ∧
      Merkle.root (merkleNode sha256d) (witnessLeaves sha256d right.txdata) = some root ∧
      ∃ leftWitness rightWitness, left.witnessAt 0 0 = some leftWitness ∧
        right.witnessAt 0 0 = some rightWitness ∧ SameSalt leftWitness rightWitness := by
  obtain ⟨coinbase, rest, input, output, root, reserved, split, _, only, isLast, salt, isRoot, matched⟩ :=
    leftCommitted
  obtain ⟨other, others, otherInput, otherOutput, otherRoot, otherReserved, otherSplit, _, otherOnly,
    otherLast, otherSalt, otherIsRoot, otherMatched⟩ := rightCommitted
  simp only [split, otherSplit, List.head?_cons, Option.map_some, Option.some.injEq] at sameOutputs
  obtain rfl : output = otherOutput := isLast.unique (sameOutputs ▸ otherLast)
  have leftWitness := witnessAt_coinbase split only
  have rightWitness := witnessAt_coinbase otherSplit otherOnly
  have preimages : root.val ++ reserved = otherRoot.val ++ otherReserved :=
    comparable.witnessesFree _ (List.mem_append_left _ (preimage_hashed isRoot leftWitness salt))
      _ (List.mem_append_right _ (preimage_hashed otherIsRoot rightWitness otherSalt))
      (Subtype.ext (matched.symm.trans otherMatched))
  obtain ⟨sameRoot, rfl⟩ := List.append_inj preimages (by rw [root.2, otherRoot.2])
  obtain rfl : root = otherRoot := Subtype.ext sameRoot
  exact ⟨root, isRoot, otherIsRoot, _, _, leftWitness, rightWitness, reserved, salt, otherSalt⟩

theorem encoded_hashed {block : Block} {transaction : Transaction} (member : transaction ∈ block.txdata.tail) :
    transaction.encode ∈ witnessStrings sha256d block :=
  List.mem_append_left _ (List.mem_append_left _ (List.mem_map_of_mem member))

theorem witnessLeaves_apart {block other : Block} (comparable : Comparable sha256d block other) :
    Apart (merkleNode sha256d) (witnessLeaves sha256d block.txdata)
      (hashedPairs (merkleNode sha256d) (witnessLeaves sha256d other.txdata).length
        (witnessLeaves sha256d other.txdata)) := by
  intro leaf isLeaf pair isPair
  have pairHashed : nodeBytes pair ∈ witnessStrings sha256d block ++ witnessStrings sha256d other :=
    List.mem_append_right _ (pair_hashed isPair)
  cases split : block.txdata with
  | nil => simp [split, witnessLeaves] at isLeaf
  | cons coinbase rest =>
      rw [split, witnessLeaves, List.mem_cons] at isLeaf
      rcases isLeaf with rfl | isWtxid
      · exact (comparable.noZeros _ pairHashed).symm
      · obtain ⟨transaction, member, rfl⟩ := List.mem_map.mp isWtxid
        have inTail : transaction ∈ block.txdata.tail := by rwa [split]
        exact ne_node comparable.witnessesFree (List.mem_append_left _ (encoded_hashed inTail)) pairHashed
          (comparable.leftSized.2 transaction (List.mem_of_mem_tail inTail))

theorem tails_extend (comparable : Comparable sha256d left right)
    (shorter : left.txdata.length ≤ right.txdata.length) {root : Digest}
    (leftRoot : Merkle.root (merkleNode sha256d) (witnessLeaves sha256d left.txdata) = some root)
    (rightRoot : Merkle.root (merkleNode sha256d) (witnessLeaves sha256d right.txdata) = some root) :
    Extends left.txdata.tail left.txdata.tail right.txdata.tail := by
  have leavesRepeat : Merkle.Repeats (witnessLeaves sha256d left.txdata) (witnessLeaves sha256d right.txdata) := by
    refine root_repeats (merkleNode_injOn comparable.witnessesFree ?_) (witnessLeaves_apart comparable)
      (witnessLeaves_apart comparable.symm) ?_ leftRoot rightRoot
    · intro pair member
      rcases List.mem_append.mp member with inLeft | inRight
      · exact List.mem_append_left _ (pair_hashed inLeft)
      · exact List.mem_append_right _ (pair_hashed inRight)
    · rwa [witnessLeaves_length, witnessLeaves_length]
  have wtxidsExtend : Extends (left.txdata.tail.map (Transaction.wtxid sha256d))
      (left.txdata.tail.map (Transaction.wtxid sha256d)) (right.txdata.tail.map (Transaction.wtxid sha256d)) := by
    rw [← witnessLeaves_tail, ← witnessLeaves_tail]
    refine leavesRepeat.tail ?_
    intro empty
    simp [empty, Merkle.root, reduce] at leftRoot
  refine Extends.of_map ?_ wtxidsExtend
  have leftFits := block_fits comparable.leftSize
  have rightFits := block_fits comparable.rightSize
  have origin : ∀ transaction, transaction ∈ left.txdata.tail ++ left.txdata.tail ++ right.txdata.tail →
      transaction.Fits ∧ transaction.encode ∈ witnessStrings sha256d left ++ witnessStrings sha256d right := by
    intro transaction member
    rcases List.mem_append.mp member with inLeft | inRight
    · have inTail := (List.mem_append.mp inLeft).elim id id
      exact ⟨leftFits.transactions _ (List.mem_of_mem_tail inTail), List.mem_append_left _ (encoded_hashed inTail)⟩
    · exact ⟨rightFits.transactions _ (List.mem_of_mem_tail inRight),
        List.mem_append_right _ (encoded_hashed inRight)⟩
  intro first firstMember second secondMember same
  obtain ⟨firstFits, firstHashed⟩ := origin first firstMember
  obtain ⟨secondFits, secondHashed⟩ := origin second secondMember
  exact transaction_encode_injOn firstFits secondFits
    (comparable.witnessesFree _ firstHashed _ secondHashed same)

/-! Whole blocks. -/

theorem checked_of_accepted {hash : Digest} {block : Block} (valid : accepted sha256d hash block = true) :
    checkWitnesses sha256d block = some true := by
  simp only [accepted, Bool.and_eq_true, beq_iff_eq] at valid
  exact valid.2

theorem commits_of_first
    (sameFirst : left.txdata.head?.map Transaction.strip = right.txdata.head?.map Transaction.strip)
    (commits : left.Commits) : right.Commits := by
  obtain ⟨coinbase, rest, split, commitment⟩ := commits
  rw [split, List.head?_cons, Option.map_some, eq_comm, Option.map_eq_some_iff] at sameFirst
  obtain ⟨other, isFirst, stripped⟩ := sameFirst
  obtain ⟨others, otherSplit⟩ := List.head?_eq_some_iff.mp isFirst
  exact ⟨other, others, otherSplit, strip_output stripped ▸ commitment⟩

theorem txdata_nonempty {block : Block} {root : Digest}
    (isRoot : Merkle.root (merkleNode sha256d) (block.txids sha256d) = some root) :
    ∃ coinbase rest, block.txdata = coinbase :: rest := by
  cases split : block.txdata with
  | nil => simp [Block.txids, split, Merkle.root, reduce] at isRoot
  | cons coinbase rest => exact ⟨coinbase, rest, rfl⟩

theorem strip_eq_self {block : Block} (noWitness : ¬block.HasWitness) :
    block.txdata.map Transaction.strip = block.txdata := by
  refine (List.map_congr_left ?_).trans (List.map_id _)
  intro transaction member
  have inputs : transaction.input.map TxIn.strip = transaction.input := by
    refine (List.map_congr_left ?_).trans (List.map_id _)
    intro input isInput
    have empty : input.witness = [] := by
      by_contra nonempty
      exact noWitness ⟨transaction, member, input, isInput, nonempty⟩
    rw [TxIn.strip, ← empty, id_eq]
  rw [strip_eq, inputs, id_eq]

theorem coinbase_of_strip {first second : Transaction} {input other : TxIn}
    (same : first.strip = second.strip) (isFirst : first.input = [input]) (isSecond : second.input = [other]) :
    second.withFirstWitness input.witness = first := by
  obtain ⟨version, lockTime, _, output⟩ := first
  obtain ⟨_, _, _, _⟩ := second
  obtain rfl := isFirst
  obtain rfl := isSecond
  simp only [Transaction.strip, List.map_cons, List.map_nil, Transaction.mk.injEq, List.cons.injEq,
    TxIn.mk.injEq] at same
  obtain ⟨input, _, _, _⟩ := input
  obtain ⟨other, _, _, _⟩ := other
  simp_all [Transaction.withFirstWitness]

theorem resalted_of_sameSalt {block : Block} {witness original : List Bytes}
    (isOriginal : block.witnessAt 0 0 = some original) (sameSalt : SameSalt witness original) :
    Resalted block (block.withCoinbaseWitness witness) := by
  by_cases same : witness = original
  · left
    refine withCoinbaseWitness_eq_self ?_
    intro other isOther
    exact same.trans (Option.some.inj (isOriginal.symm.trans isOther))
  · right
    rcases sameSalt_iff.mp ⟨sameSalt, same⟩ with ⟨rfl, rfl⟩ | ⟨rfl, rfl⟩
    · exact Or.inr ⟨isOriginal, rfl⟩
    · exact Or.inl ⟨isOriginal, rfl⟩

theorem committed_repeat (comparable : Comparable sha256d left right)
    (shorter : left.txdata.length ≤ right.txdata.length)
    (sameFirst : left.txdata.head?.map Transaction.strip = right.txdata.head?.map Transaction.strip)
    (leftCommitted : left.Committed sha256d) (rightCommitted : right.Committed sha256d) :
    ∃ resalted, Resalted right resalted ∧ Merkle.Repeats left.txdata resalted.txdata := by
  have sameOutputs : left.txdata.head?.map Transaction.output = right.txdata.head?.map Transaction.output := by
    have outputs : Transaction.output ∘ Transaction.strip = Transaction.output := rfl
    rw [← outputs, ← Option.map_map, ← Option.map_map, sameFirst]
  obtain ⟨root, leftRoot, rightRoot, leftWitness, rightWitness, isLeft, isRight, sameSalt⟩ :=
    committed_root comparable sameOutputs leftCommitted rightCommitted
  have tails := tails_extend comparable shorter leftRoot rightRoot
  obtain ⟨coinbase, rest, input, _, _, _, split, _, only, _⟩ := leftCommitted
  obtain ⟨other, others, otherInput, _, _, _, otherSplit, _, otherOnly, _⟩ := rightCommitted
  refine ⟨right.withCoinbaseWitness leftWitness, resalted_of_sameSalt isRight sameSalt, ?_⟩
  obtain rfl := Option.some.inj (isLeft.symm.trans (witnessAt_coinbase split only))
  simp only [split, otherSplit, List.head?_cons, Option.map_some, Option.some.injEq] at sameFirst
  simp only [split, otherSplit, List.tail_cons] at tails
  simp only [Block.withCoinbaseWitness, split, otherSplit]
  exact repeats_cons_iff.mpr ⟨(coinbase_of_strip sameFirst only otherOnly).symm, tails⟩

/-- Of two blocks accepted for one hash the longer one has the transactions of the other with their
witnesses, and after them only some of these again, but for the witness of its coinbase. -/
theorem accepted_transactions_repeat {hash : Digest} (comparable : Comparable sha256d left right)
    (shorter : left.txdata.length ≤ right.txdata.length) (leftAccepted : accepted sha256d hash left = true)
    (rightAccepted : accepted sha256d hash right = true) :
    ∃ resalted, Resalted right resalted ∧ Merkle.Repeats left.txdata resalted.txdata := by
  have strippedRepeat := stripped_repeat comparable
    (accepted_txids_repeat comparable shorter leftAccepted rightAccepted)
  obtain ⟨coinbase, rest, split⟩ := txdata_nonempty (accepted_root leftAccepted).2
  have sameFirst : left.txdata.head?.map Transaction.strip = right.txdata.head?.map Transaction.strip := by
    rw [← List.head?_map, ← List.head?_map, strippedRepeat.head?_eq (by simp [split])]
  have leftChecked := checked_of_accepted leftAccepted
  have rightChecked := checked_of_accepted rightAccepted
  by_cases commits : left.Commits
  · have rightCommits := commits_of_first sameFirst commits
    exact committed_repeat comparable shorter sameFirst
      ((checkWitnesses_iff_committed commits).mp leftChecked)
      ((checkWitnesses_iff_committed rightCommits).mp rightChecked)
  · -- Where nothing commits to witnesses there are none, and a transaction is what its txid says.
    have rightNone := mt (commits_of_first sameFirst.symm) commits
    refine ⟨right, Or.inl rfl, ?_⟩
    rwa [strip_eq_self ((checkWitnesses_iff_noWitness commits).mp leftChecked),
      strip_eq_self ((checkWitnesses_iff_noWitness rightNone).mp rightChecked)] at strippedRepeat

end

end BtcRpcProxy.Blocks
