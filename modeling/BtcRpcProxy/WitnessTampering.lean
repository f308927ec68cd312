import BtcRpcProxy.WitnessChecks

/-!
Which changes to witnesses `check_witnesses` notices. The commitment fixes the root of the
witness tree and the value it is salted with, both of 32 bytes; the root fixes the
transactions after the coinbase. The salt does not tell a coinbase witness of 32 zero bytes
from none.
-/

namespace BtcRpcProxy.Blocks

def Transaction.strip (transaction : Transaction) : Transaction :=
  { transaction with input := transaction.input.map fun input => { input with witness := [] } }

def Transaction.withFirstWitness (transaction : Transaction) (witness : List Bytes) : Transaction :=
  { transaction with
    input := match transaction.input with
      | [] => []
      | input :: rest => { input with witness } :: rest }

def Block.withCoinbaseWitness (block : Block) (witness : List Bytes) : Block :=
  { block with
    txdata := match block.txdata with
      | [] => []
      | coinbase :: rest => coinbase.withFirstWitness witness :: rest }

def Block.witnessAt (block : Block) (place index : Nat) : Option (List Bytes) :=
  ((block.txdata[place]?).bind fun transaction => transaction.input[index]?).map (·.witness)

section

variable (sha256d : Bytes → Digest)

def commitmentPreimage (block : Block) : Option Bytes :=
  match Merkle.root (merkleNode sha256d) (witnessLeaves sha256d block.txdata), block.witnessAt 0 0 with
  | some root, some witness => (reservedValue witness).map fun reserved => root.val ++ reserved
  | _, _ => none

/-- What is hashed when the witnesses of a block are checked. -/
def witnessStrings (block : Block) : List Bytes :=
  block.txdata.tail.map Transaction.encode ++
    (Merkle.hashedPairs (merkleNode sha256d) block.txdata.length
      (witnessLeaves sha256d block.txdata)).map nodeBytes ++
    (commitmentPreimage sha256d block).toList

end

variable {sha256d : Bytes → Digest} {left right : Block}

theorem strip_output {first second : Transaction} (same : first.strip = second.strip) :
    first.output = second.output := by
  simpa only [Transaction.strip] using congrArg Transaction.output same

theorem witnessLeaves_length (sha256d : Bytes → Digest) (txdata : List Transaction) :
    (witnessLeaves sha256d txdata).length = txdata.length := by
  cases txdata <;> simp [witnessLeaves]

theorem witnessLeaves_tail (sha256d : Bytes → Digest) (txdata : List Transaction) :
    (witnessLeaves sha256d txdata).tail = txdata.tail.map (Transaction.wtxid sha256d) := by
  cases txdata <;> rfl

theorem witnessAt_coinbase {block : Block} {coinbase : Transaction} {rest : List Transaction} {input : TxIn}
    (split : block.txdata = coinbase :: rest) (only : coinbase.input = [input]) :
    block.witnessAt 0 0 = some input.witness := by
  simp [Block.witnessAt, split, only]

theorem commits_of_strip (same : right.txdata.map Transaction.strip = left.txdata.map Transaction.strip)
    (commits : left.Commits) : right.Commits := by
  obtain ⟨coinbase, rest, split, commitment⟩ := commits
  rw [split, List.map_cons] at same
  obtain ⟨other, others, otherSplit, stripped, _⟩ := List.map_eq_cons_iff.mp same
  have outputs := strip_output stripped
  exact ⟨other, others, otherSplit, outputs ▸ commitment⟩

theorem pair_hashed {block : Block} {pair : Digest × Digest}
    (member : pair ∈ Merkle.hashedPairs (merkleNode sha256d) (witnessLeaves sha256d block.txdata).length
      (witnessLeaves sha256d block.txdata)) : nodeBytes pair ∈ witnessStrings sha256d block := by
  rw [witnessLeaves_length] at member
  exact List.mem_append_left _ (List.mem_append_right _ (List.mem_map_of_mem member))

theorem preimage_hashed {block : Block} {root : Digest} {witness : List Bytes} {reserved : Bytes}
    (isRoot : Merkle.root (merkleNode sha256d) (witnessLeaves sha256d block.txdata) = some root)
    (isWitness : block.witnessAt 0 0 = some witness) (salt : Salt witness reserved) :
    root.val ++ reserved ∈ witnessStrings sha256d block := by
  simp [witnessStrings, commitmentPreimage, isRoot, isWitness, reservedValue_eq_some.mpr salt]

theorem committed_same
    (collisionFree : CollisionFree sha256d (witnessStrings sha256d left ++ witnessStrings sha256d right))
    (same : right.txdata.map Transaction.strip = left.txdata.map Transaction.strip)
    (leftCommitted : left.Committed sha256d) (rightCommitted : right.Committed sha256d) :
    witnessLeaves sha256d left.txdata = witnessLeaves sha256d right.txdata ∧
      ∃ leftWitness rightWitness reserved, left.witnessAt 0 0 = some leftWitness ∧
        right.witnessAt 0 0 = some rightWitness ∧ Salt leftWitness reserved ∧ Salt rightWitness reserved := by
  obtain ⟨coinbase, rest, input, output, root, reserved, split, _, only, isLast, salt, isRoot, matched⟩ :=
    leftCommitted
  obtain ⟨other, others, otherInput, otherOutput, otherRoot, otherReserved, otherSplit, _, otherOnly,
    otherLast, otherSalt, otherIsRoot, otherMatched⟩ := rightCommitted
  have sameLength : left.txdata.length = right.txdata.length := by
    simpa using (congrArg List.length same).symm
  rw [split, otherSplit, List.map_cons, List.map_cons] at same
  have outputs := strip_output (List.cons.inj same).1
  obtain rfl : output = otherOutput := isLast.unique (outputs ▸ otherLast)
  have leftWitness := witnessAt_coinbase split only
  have rightWitness := witnessAt_coinbase otherSplit otherOnly
  -- One commitment has one preimage, of a root and a salt of 32 bytes each.
  have preimages : root.val ++ reserved = otherRoot.val ++ otherReserved :=
    collisionFree _ (List.mem_append_left _ (preimage_hashed isRoot leftWitness salt))
      _ (List.mem_append_right _ (preimage_hashed otherIsRoot rightWitness otherSalt))
      (Subtype.ext (matched.symm.trans otherMatched))
  obtain ⟨sameRoot, rfl⟩ := List.append_inj preimages (by rw [root.2, otherRoot.2])
  obtain rfl : root = otherRoot := Subtype.ext sameRoot
  refine ⟨?_, input.witness, otherInput.witness, reserved, leftWitness, rightWitness, salt, otherSalt⟩
  refine merkleRoot_injective collisionFree ?_ ?_ ?_ isRoot otherIsRoot
  · exact fun pair member => List.mem_append_left _ (pair_hashed member)
  · exact fun pair member => List.mem_append_right _ (pair_hashed member)
  · rwa [witnessLeaves_length, witnessLeaves_length]

theorem encoding_hashed {bytes : Bytes}
    (member : bytes ∈ left.txdata.tail.map Transaction.encode ++ right.txdata.tail.map Transaction.encode) :
    bytes ∈ witnessStrings sha256d left ++ witnessStrings sha256d right := by
  rcases List.mem_append.mp member with inLeft | inRight
  · exact List.mem_append_left _ (List.mem_append_left _ (List.mem_append_left _ inLeft))
  · exact List.mem_append_right _ (List.mem_append_left _ (List.mem_append_left _ inRight))

theorem tail_of_witnessLeaves
    (collisionFree : CollisionFree sha256d (witnessStrings sha256d left ++ witnessStrings sha256d right))
    (encodes : Set.InjOn Transaction.encode {transaction | transaction ∈ left.txdata ++ right.txdata})
    (same : witnessLeaves sha256d left.txdata = witnessLeaves sha256d right.txdata) :
    left.txdata.tail = right.txdata.tail := by
  have hashes : (left.txdata.tail.map Transaction.encode).map sha256d =
      (right.txdata.tail.map Transaction.encode).map sha256d := by
    have wtxids := congrArg List.tail same
    rw [witnessLeaves_tail, witnessLeaves_tail] at wtxids
    rw [List.map_map, List.map_map]
    exact wtxids
  have encodings : left.txdata.tail.map Transaction.encode = right.txdata.tail.map Transaction.encode := by
    refine Merkle.map_eq_of_injOn ?_ hashes
    intro first firstMember second secondMember
    exact collisionFree first (encoding_hashed firstMember) second (encoding_hashed secondMember)
  refine Merkle.map_eq_of_injOn (encodes.mono ?_) encodings
  intro transaction member
  rcases List.mem_append.mp member with inLeft | inRight
  · exact List.mem_append_left _ (List.mem_of_mem_tail inLeft)
  · exact List.mem_append_right _ (List.mem_of_mem_tail inRight)

theorem witnessAt_of_tail (same : left.txdata.tail = right.txdata.tail) {place : Nat} (rest : 0 < place)
    (index : Nat) : left.witnessAt place index = right.witnessAt place index := by
  obtain ⟨place, rfl⟩ := Nat.exists_eq_add_one.mpr rest
  simp only [Block.witnessAt, ← List.getElem?_tail, same]

/-- A block with other witnesses after its coinbase is refused, whatever its coinbase's witness. -/
theorem checkWitnesses_tampered
    (collisionFree : CollisionFree sha256d (witnessStrings sha256d left ++ witnessStrings sha256d right))
    (encodes : Set.InjOn Transaction.encode {transaction | transaction ∈ left.txdata ++ right.txdata})
    (commits : left.Commits) (accepted : checkWitnesses sha256d left = some true)
    (same : right.txdata.map Transaction.strip = left.txdata.map Transaction.strip)
    (differs : ∃ place index, 0 < place ∧ right.witnessAt place index ≠ left.witnessAt place index) :
    checkWitnesses sha256d right = some false := by
  obtain ⟨result, checked⟩ := checkWitnesses_total sha256d right
  cases result with
  | false => exact checked
  | true =>
      have leftCommitted := (checkWitnesses_iff_committed commits).mp accepted
      have rightCommitted := (checkWitnesses_iff_committed (commits_of_strip same commits)).mp checked
      obtain ⟨sameLeaves, _⟩ := committed_same collisionFree same leftCommitted rightCommitted
      have sameTail := tail_of_witnessLeaves collisionFree encodes sameLeaves
      obtain ⟨place, index, rest, changed⟩ := differs
      exact absurd (witnessAt_of_tail sameTail rest index).symm changed

/-! A signed block, and the one a peer makes of it by leaving all witnesses out. -/

def signedBlock : Block := committingBlock signedCommitment [zeroReserved] signature
def strippedBlock : Block := committingBlock signedCommitment [] []

theorem signedBlock_accepted : checkWitnesses witnessHash signedBlock = some true := by decide +kernel

theorem committingBlock_commits (commitment : Digest) (coinbaseWitness witness : List Bytes) :
    (committingBlock commitment coinbaseWitness witness).Commits := by
  refine ⟨_, _, rfl, _, List.mem_cons_of_mem _ List.mem_cons_self, ?_, List.prefix_append _ _⟩
  simp [commitmentMagic, commitment.2]

theorem strippedBlock_collisionFree : CollisionFree witnessHash
    (witnessStrings witnessHash signedBlock ++ witnessStrings witnessHash strippedBlock) := by
  unfold CollisionFree
  decide +kernel

theorem strippedBlock_encodes :
    Set.InjOn Transaction.encode {transaction | transaction ∈ signedBlock.txdata ++ strippedBlock.txdata} := by
  have distinct : ∀ first ∈ signedBlock.txdata ++ strippedBlock.txdata,
      ∀ second ∈ signedBlock.txdata ++ strippedBlock.txdata,
        first.encode = second.encode → first = second := by
    decide +kernel
  intro first firstMember second secondMember same
  exact distinct first firstMember second secondMember same

theorem checkWitnesses_tampered_stripped : checkWitnesses witnessHash strippedBlock = some false :=
  checkWitnesses_tampered strippedBlock_collisionFree strippedBlock_encodes
    (committingBlock_commits _ _ _) signedBlock_accepted (by decide) ⟨1, 0, by decide, by decide⟩

/-! The witness of the coinbase. -/

def SameSalt (first second : List Bytes) : Prop :=
  ∃ reserved, Salt first reserved ∧ Salt second reserved

theorem sameSalt_iff {first second : List Bytes} : SameSalt first second ∧ first ≠ second ↔
    (first = [] ∧ second = [List.replicate 32 0]) ∨ (first = [List.replicate 32 0] ∧ second = []) := by
  constructor
  · rintro ⟨⟨reserved, ⟨rfl, rfl⟩ | ⟨rfl, _⟩, ⟨rfl, zeros⟩ | ⟨rfl, _⟩⟩, differ⟩
    · exact absurd rfl differ
    · exact Or.inl ⟨rfl, rfl⟩
    · exact Or.inr ⟨by rw [zeros], rfl⟩
    · exact absurd rfl differ
  · rintro (⟨rfl, rfl⟩ | ⟨rfl, rfl⟩)
    · exact ⟨⟨_, Or.inl ⟨rfl, rfl⟩, Or.inr ⟨rfl, by simp⟩⟩, by simp⟩
    · exact ⟨⟨_, Or.inr ⟨rfl, by simp⟩, Or.inl ⟨rfl, rfl⟩⟩, by simp⟩

theorem Salt.unique {witness : List Bytes} {first second : Bytes} (isFirst : Salt witness first)
    (isSecond : Salt witness second) : first = second :=
  Option.some.inj ((reservedValue_eq_some.mpr isFirst).symm.trans (reservedValue_eq_some.mpr isSecond))

section

variable {block : Block} {witness : List Bytes}

theorem strip_withCoinbaseWitness (block : Block) (witness : List Bytes) :
    (block.withCoinbaseWitness witness).txdata.map Transaction.strip =
      block.txdata.map Transaction.strip := by
  rcases block with ⟨header, _ | ⟨⟨version, lockTime, _ | ⟨input, inputs⟩, output⟩, rest⟩⟩ <;> rfl

theorem witnessAt_withCoinbaseWitness (block : Block) (witness : List Bytes) :
    (block.withCoinbaseWitness witness).witnessAt 0 0 = (block.witnessAt 0 0).map fun _ => witness := by
  rcases block with ⟨header, _ | ⟨⟨version, lockTime, _ | ⟨input, inputs⟩, output⟩, rest⟩⟩ <;> rfl

theorem withCoinbaseWitness_eq_self
    (same : ∀ original, block.witnessAt 0 0 = some original → witness = original) :
    block.withCoinbaseWitness witness = block := by
  rcases block with ⟨header, _ | ⟨⟨version, lockTime, _ | ⟨input, inputs⟩, output⟩, rest⟩⟩
  · rfl
  · rfl
  · obtain rfl := same input.witness rfl
    rfl

theorem witnessAt_of_noWitness (noWitness : ¬block.HasWitness) {place index : Nat}
    (found : block.witnessAt place index = some witness) : witness = [] := by
  simp only [Block.witnessAt, Option.map_eq_some_iff, Option.bind_eq_some_iff] at found
  obtain ⟨input, ⟨transaction, atPlace, atIndex⟩, rfl⟩ := found
  by_contra nonempty
  exact noWitness ⟨transaction, List.mem_of_getElem? atPlace, input, List.mem_of_getElem? atIndex, nonempty⟩

theorem committed_withCoinbaseWitness {original : List Bytes} (committed : block.Committed sha256d)
    (isOriginal : block.witnessAt 0 0 = some original) (sameSalt : SameSalt original witness) :
    (block.withCoinbaseWitness witness).Committed sha256d := by
  obtain ⟨coinbase, rest, input, output, root, reserved, split, isCoinBase, only, isLast, salt, isRoot,
    matched⟩ := committed
  obtain rfl := Option.some.inj (isOriginal.symm.trans (witnessAt_coinbase split only))
  obtain ⟨other, originalSalt, otherSalt⟩ := sameSalt
  obtain rfl := salt.unique originalSalt
  refine ⟨coinbase.withFirstWitness witness, rest, { input with witness }, output, root, reserved, ?_, ?_, ?_,
    isLast, otherSalt, ?_, matched⟩
  · simp [Block.withCoinbaseWitness, split]
  · simpa [Transaction.isCoinBase, Transaction.withFirstWitness, only] using isCoinBase
  · simp [Transaction.withFirstWitness, only]
  · simpa [Block.withCoinbaseWitness, split, witnessLeaves] using isRoot

theorem committed_coinbaseWitness_iff
    (collisionFree : CollisionFree sha256d
      (witnessStrings sha256d block ++ witnessStrings sha256d (block.withCoinbaseWitness witness)))
    (committed : block.Committed sha256d) :
    (block.withCoinbaseWitness witness).Committed sha256d ↔
      ∃ original, block.witnessAt 0 0 = some original ∧ SameSalt original witness := by
  constructor
  · intro otherCommitted
    obtain ⟨_, original, other, reserved, isOriginal, isOther, salt, otherSalt⟩ :=
      committed_same collisionFree (strip_withCoinbaseWitness block witness) committed otherCommitted
    rw [witnessAt_withCoinbaseWitness, isOriginal, Option.map_some, Option.some.injEq] at isOther
    subst isOther
    exact ⟨original, isOriginal, reserved, salt, otherSalt⟩
  · rintro ⟨original, isOriginal, sameSalt⟩
    exact committed_withCoinbaseWitness committed isOriginal sameSalt

theorem withCoinbaseWitness_eq_of_noWitness (noWitness : ¬block.HasWitness)
    (otherNoWitness : ¬(block.withCoinbaseWitness witness).HasWitness) :
    block.withCoinbaseWitness witness = block := by
  refine withCoinbaseWitness_eq_self ?_
  intro original isOriginal
  have isOther : (block.withCoinbaseWitness witness).witnessAt 0 0 = some witness := by
    rw [witnessAt_withCoinbaseWitness, isOriginal, Option.map_some]
  rw [witnessAt_of_noWitness noWitness isOriginal, witnessAt_of_noWitness otherNoWitness isOther]

/-- Of the blocks that differ from an accepted one in the coinbase witness alone, one other passes: the
one with 32 zero bytes in place of no witness, or the other way about. -/
theorem checkWitnesses_coinbaseWitness_iff
    (collisionFree : CollisionFree sha256d
      (witnessStrings sha256d block ++ witnessStrings sha256d (block.withCoinbaseWitness witness)))
    (accepted : checkWitnesses sha256d block = some true) :
    checkWitnesses sha256d (block.withCoinbaseWitness witness) = some true ↔
      block.withCoinbaseWitness witness = block ∨
        (block.Commits ∧
          ((block.witnessAt 0 0 = some [] ∧ witness = [List.replicate 32 0]) ∨
            (block.witnessAt 0 0 = some [List.replicate 32 0] ∧ witness = []))) := by
  have sameStripped := strip_withCoinbaseWitness block witness
  constructor
  · intro otherAccepted
    by_cases commits : block.Commits
    · have committed := (checkWitnesses_iff_committed commits).mp accepted
      have otherCommitted :=
        (checkWitnesses_iff_committed (commits_of_strip sameStripped commits)).mp otherAccepted
      obtain ⟨original, isOriginal, sameSalt⟩ :=
        (committed_coinbaseWitness_iff collisionFree committed).mp otherCommitted
      by_cases same : original = witness
      · left
        refine withCoinbaseWitness_eq_self ?_
        intro first isFirst
        rw [← same]
        exact Option.some.inj (isOriginal.symm.trans isFirst)
      · right
        refine ⟨commits, ?_⟩
        rw [isOriginal, Option.some.injEq, Option.some.injEq]
        exact sameSalt_iff.mp ⟨sameSalt, same⟩
    · left
      -- Without a commitment neither block has any witness.
      have otherNone := mt (commits_of_strip sameStripped.symm) commits
      have noWitness := (checkWitnesses_iff_noWitness commits).mp accepted
      have otherNoWitness := (checkWitnesses_iff_noWitness otherNone).mp otherAccepted
      exact withCoinbaseWitness_eq_of_noWitness noWitness otherNoWitness
  · rintro (same | ⟨commits, shapes⟩)
    · rw [same]
      exact accepted
    · have committed := (checkWitnesses_iff_committed commits).mp accepted
      have sameSalt : ∃ original, block.witnessAt 0 0 = some original ∧ SameSalt original witness := by
        rcases shapes with ⟨isOriginal, rfl⟩ | ⟨isOriginal, rfl⟩
        · exact ⟨_, isOriginal, (sameSalt_iff.mpr (Or.inl ⟨rfl, rfl⟩)).1⟩
        · exact ⟨_, isOriginal, (sameSalt_iff.mpr (Or.inr ⟨rfl, rfl⟩)).1⟩
      have otherCommitted := (committed_coinbaseWitness_iff collisionFree committed).mpr sameSalt
      exact (checkWitnesses_iff_committed otherCommitted.commits).mpr otherCommitted

end

/-! A block salted with zeros. -/

def zeroSaltedBlock : Block := committingBlock plainCommitment [zeroReserved] []

theorem zeroSaltedBlock_accepted : checkWitnesses witnessHash zeroSaltedBlock = some true := by
  decide +kernel

theorem coinbaseWitness_collisionFree : CollisionFree witnessHash
    (witnessStrings witnessHash zeroSaltedBlock ++
      witnessStrings witnessHash (zeroSaltedBlock.withCoinbaseWitness [])) := by
  unfold CollisionFree
  decide +kernel

theorem checkWitnesses_coinbaseWitness_iff_zeros :
    checkWitnesses witnessHash (zeroSaltedBlock.withCoinbaseWitness []) = some true ↔
      zeroSaltedBlock.withCoinbaseWitness [] = zeroSaltedBlock ∨
        (zeroSaltedBlock.Commits ∧
          ((zeroSaltedBlock.witnessAt 0 0 = some [] ∧ ([] : List Bytes) = [List.replicate 32 0]) ∨
            (zeroSaltedBlock.witnessAt 0 0 = some [List.replicate 32 0] ∧ ([] : List Bytes) = []))) :=
  checkWitnesses_coinbaseWitness_iff coinbaseWitness_collisionFree zeroSaltedBlock_accepted

/-- Without its reserved value of zeros the block passes as well, and it is another block. -/
theorem stripped_zeros_accepted :
    CollisionFree witnessHash
        (witnessStrings witnessHash zeroSaltedBlock ++
          witnessStrings witnessHash (zeroSaltedBlock.withCoinbaseWitness [])) ∧
      checkWitnesses witnessHash zeroSaltedBlock = some true ∧
      checkWitnesses witnessHash (zeroSaltedBlock.withCoinbaseWitness []) = some true ∧
      (zeroSaltedBlock.withCoinbaseWitness []).encode ≠ zeroSaltedBlock.encode :=
  ⟨coinbaseWitness_collisionFree, zeroSaltedBlock_accepted, by decide +kernel, by decide +kernel⟩

end BtcRpcProxy.Blocks
