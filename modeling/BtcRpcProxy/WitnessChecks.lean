import BtcRpcProxy.BlockIdentity

/-!
What `check_witnesses` accepts: a block whose coinbase commits to the witnesses it carries,
and a block without witnesses where nothing commits to them. No index is out of bounds.
-/

namespace BtcRpcProxy.Blocks

def Commits (output : TxOut) : Prop :=
  38 ≤ output.scriptPubkey.length ∧ commitmentMagic <+: output.scriptPubkey

instance : DecidablePred Commits := fun output =>
  inferInstanceAs (Decidable (38 ≤ output.scriptPubkey.length ∧ commitmentMagic <+: output.scriptPubkey))

def LastCommitment (outputs : List TxOut) (output : TxOut) : Prop :=
  ∃ before after, outputs = before ++ output :: after ∧ Commits output ∧ ∀ later ∈ after, ¬Commits later

def Salt (witness : List Bytes) (reserved : Bytes) : Prop :=
  (witness = [] ∧ reserved = List.replicate 32 0) ∨ (witness = [reserved] ∧ reserved.length = 32)

namespace Block

def Commits (block : Block) : Prop :=
  ∃ coinbase rest, block.txdata = coinbase :: rest ∧ ∃ output ∈ coinbase.output, Blocks.Commits output

def HasWitness (block : Block) : Prop :=
  ∃ transaction ∈ block.txdata, ∃ input ∈ transaction.input, input.witness ≠ []

/-- The last commitment in the coinbase is the salted root of the witnesses in the block. -/
def Committed (sha256d : Bytes → Digest) (block : Block) : Prop :=
  ∃ coinbase rest input output root reserved,
    block.txdata = coinbase :: rest ∧ coinbase.isCoinBase = true ∧ coinbase.input = [input] ∧
      LastCommitment coinbase.output output ∧ Salt input.witness reserved ∧
      Merkle.root (merkleNode sha256d) (witnessLeaves sha256d block.txdata) = some root ∧
      (output.scriptPubkey.drop 6).take 32 = (sha256d (root.val ++ reserved)).val

end Block

/-! Outputs. -/

theorem isCommitment_eq (output : TxOut) : isCommitment output = some (decide (Commits output)) := by
  unfold isCommitment
  by_cases long : 38 ≤ output.scriptPubkey.length
  · have inRange : 6 ≤ output.scriptPubkey.length := by omega
    have starts : (output.scriptPubkey.take 6 == commitmentMagic) =
        decide (commitmentMagic <+: output.scriptPubkey) := by
      rw [Bool.eq_iff_iff, beq_iff_eq, decide_eq_true_iff, List.prefix_iff_eq_take, eq_comm]
      rfl
    simp [long, indexRange, inRange, Commits, starts]
  · simp [long, Commits]

theorem anyCommitment_eq (outputs : List TxOut) :
    anyCommitment outputs = some (decide (∃ output ∈ outputs, Commits output)) := by
  induction outputs with
  | nil => simp [anyCommitment]
  | cons output rest ih =>
      rw [anyCommitment, isCommitment_eq]
      by_cases commits : Commits output <;> simp [commits, ih]

theorem exists_lastCommitment {outputs : List TxOut} (commits : ∃ output ∈ outputs, Commits output) :
    ∃ output, LastCommitment outputs output := by
  induction outputs with
  | nil => simp at commits
  | cons first rest ih =>
      by_cases later : ∃ output ∈ rest, Commits output
      · obtain ⟨output, before, after, split, isLast⟩ := ih later
        exact ⟨output, first :: before, after, by rw [split, List.cons_append], isLast⟩
      · have isFirst : Commits first := by simpa [later] using commits
        refine ⟨first, [], rest, rfl, isFirst, ?_⟩
        intro output member outputCommits
        exact later ⟨output, member, outputCommits⟩

theorem lastCommitment_append {output : TxOut} {before after : List TxOut} (commits : Commits output)
    (none : ∀ later ∈ after, ¬Commits later) :
    lastCommitment (after ++ output :: before) = some (some before.length) := by
  induction after with
  | nil => simp [lastCommitment, isCommitment_eq, commits]
  | cons later rest ih =>
      have notLater : ¬Commits later := none later List.mem_cons_self
      simp only [List.cons_append, lastCommitment, isCommitment_eq, notLater, decide_false]
      exact ih fun other member => none other (List.mem_cons_of_mem _ member)

theorem LastCommitment.position {outputs : List TxOut} {output : TxOut}
    (isLast : LastCommitment outputs output) :
    ∃ pos, lastCommitment outputs.reverse = some (some pos) ∧ outputs[pos]? = some output := by
  obtain ⟨before, after, split, commits, none⟩ := isLast
  refine ⟨before.length, ?_, by simp [split]⟩
  have reversed : outputs.reverse = after.reverse ++ output :: before.reverse := by simp [split]
  rw [reversed, lastCommitment_append commits (by simpa using none), List.length_reverse]

theorem LastCommitment.unique {outputs : List TxOut} {first second : TxOut}
    (isFirst : LastCommitment outputs first) (isSecond : LastCommitment outputs second) :
    first = second := by
  obtain ⟨pos, found, atPos⟩ := isFirst.position
  obtain ⟨other, otherFound, atOther⟩ := isSecond.position
  have same : pos = other := Option.some.inj (Option.some.inj (found.symm.trans otherFound))
  exact Option.some.inj (atPos.symm.trans (same ▸ atOther))

theorem reservedValue_eq_some {witness : List Bytes} {reserved : Bytes} :
    reservedValue witness = some reserved ↔ Salt witness reserved := by
  rcases witness with _ | ⟨item, _ | ⟨other, rest⟩⟩
  · simp [reservedValue, Salt, eq_comm]
  · simp only [reservedValue, Salt, Option.ite_none_right_eq_some, Option.some.injEq, reduceCtorEq,
      false_and, false_or, List.cons.injEq, and_true]
    constructor
    · rintro ⟨isLong, rfl⟩
      exact ⟨rfl, isLong⟩
    · rintro ⟨rfl, isLong⟩
      exact ⟨isLong, rfl⟩
  · simp [reservedValue, Salt]

/-! The checks. -/

theorem isCoinBase_input {transaction : Transaction} (isCoinBase : transaction.isCoinBase = true) :
    ∃ input, transaction.input = [input] := by
  unfold Transaction.isCoinBase at isCoinBase
  split at isCoinBase
  · rename_i input only
    exact ⟨input, only⟩
  · simp at isCoinBase

section

variable {sha256d : Bytes → Digest} {block : Block}

theorem witnessRoot_exists (sha256d : Bytes → Digest) {coinbase : Transaction} {rest : List Transaction}
    (split : block.txdata = coinbase :: rest) :
    ∃ root, Merkle.root (merkleNode sha256d) (witnessLeaves sha256d block.txdata) = some root := by
  refine Option.isSome_iff_exists.mp (Merkle.root_isSome _ ?_)
  simp [split, witnessLeaves]

theorem committed_iff {coinbase : Transaction} {rest : List Transaction} {input : TxIn} {output : TxOut}
    {root : Digest} (split : block.txdata = coinbase :: rest) (isCoinBase : coinbase.isCoinBase = true)
    (only : coinbase.input = [input]) (isLast : LastCommitment coinbase.output output)
    (isRoot : Merkle.root (merkleNode sha256d) (witnessLeaves sha256d block.txdata) = some root) :
    block.Committed sha256d ↔ ∃ reserved, Salt input.witness reserved ∧
      (output.scriptPubkey.drop 6).take 32 = (sha256d (root.val ++ reserved)).val := by
  constructor
  · rintro ⟨other, others, otherInput, otherOutput, otherRoot, reserved, otherSplit, _, otherOnly,
      otherLast, salt, otherIsRoot, matched⟩
    obtain ⟨rfl, rfl⟩ := List.cons.inj (split.symm.trans otherSplit)
    obtain rfl := List.singleton_injective (only.symm.trans otherOnly)
    obtain rfl := isLast.unique otherLast
    obtain rfl := Option.some.inj (isRoot.symm.trans otherIsRoot)
    exact ⟨reserved, salt, matched⟩
  · rintro ⟨reserved, salt, matched⟩
    exact ⟨coinbase, rest, input, output, root, reserved, split, isCoinBase, only, isLast, salt, isRoot,
      matched⟩

/-- No index is out of bounds, and only a committed block passes. -/
theorem checkWitnessCommitment_spec (sha256d : Bytes → Digest) (commits : block.Commits) :
    ∃ result, checkWitnessCommitment sha256d block = some result ∧
      (result = true ↔ block.Committed sha256d) := by
  obtain ⟨coinbase, rest, split, commitment⟩ := commits
  obtain ⟨output, isLast⟩ := exists_lastCommitment commitment
  obtain ⟨pos, found, atPos⟩ := isLast.position
  obtain ⟨root, isRoot⟩ := witnessRoot_exists sha256d split
  have head : block.txdata.head? = some coinbase := by rw [split, List.head?_cons]
  have long : 38 ≤ output.scriptPubkey.length := by
    obtain ⟨before, after, _, commits, _⟩ := isLast
    exact commits.1
  unfold checkWitnessCommitment
  simp only [head]
  by_cases isCoinBase : coinbase.isCoinBase = true
  · obtain ⟨input, only⟩ := isCoinBase_input isCoinBase
    rw [committed_iff split isCoinBase only isLast isRoot]
    simp only [isCoinBase, Bool.not_true, Bool.false_eq_true, if_false, found, isRoot, only,
      List.getElem?_cons_zero, atPos, ← reservedValue_eq_some]
    cases salt : reservedValue input.witness with
    | none => exact ⟨false, rfl, by simp⟩
    | some reserved =>
        have inRange : 6 ≤ 38 ∧ 38 ≤ output.scriptPubkey.length := ⟨by omega, long⟩
        simp only [indexRange, if_pos inRange, List.drop_take, Option.map_some]
        exact ⟨_, rfl, by simp⟩
  · refine ⟨false, by simp [isCoinBase], ?_⟩
    simp only [Bool.false_eq_true, false_iff]
    rintro ⟨other, others, _, _, _, _, otherSplit, otherCoinBase, _⟩
    rw [(List.cons.inj (split.symm.trans otherSplit)).1] at isCoinBase
    exact isCoinBase otherCoinBase

theorem hasWitness_eq (block : Block) :
    (block.txdata.any fun transaction => transaction.input.any fun input => !input.witness.isEmpty) =
      true ↔ block.HasWitness := by
  simp [Block.HasWitness]

theorem checkWitnesses_of_commits (commits : block.Commits) :
    checkWitnesses sha256d block = checkWitnessCommitment sha256d block := by
  obtain ⟨coinbase, rest, split, commitment⟩ := commits
  simp [checkWitnesses, split, anyCommitment_eq, commitment]

theorem checkWitnesses_of_not_commits (sha256d : Bytes → Digest) (none : ¬block.Commits) :
    ∃ result, checkWitnesses sha256d block = some result ∧ (result = true ↔ ¬block.HasWitness) := by
  have unfolded : checkWitnesses sha256d block = some
      (!block.txdata.any fun transaction => transaction.input.any fun input => !input.witness.isEmpty) := by
    cases split : block.txdata with
    | nil => simp [checkWitnesses, split]
    | cons coinbase rest =>
        have notCommitted : ¬∃ output ∈ coinbase.output, Commits output :=
          fun commitment => none ⟨coinbase, rest, split, commitment⟩
        simp [checkWitnesses, split, anyCommitment_eq, notCommitted]
  refine ⟨_, unfolded, ?_⟩
  rw [Bool.not_eq_true', ← Bool.not_eq_true, hasWitness_eq]

theorem checkWitnesses_total (sha256d : Bytes → Digest) (block : Block) :
    ∃ result, checkWitnesses sha256d block = some result := by
  by_cases commits : block.Commits
  · obtain ⟨result, checked, _⟩ := checkWitnessCommitment_spec sha256d commits
    exact ⟨result, (checkWitnesses_of_commits commits).trans checked⟩
  · obtain ⟨result, checked, _⟩ := checkWitnesses_of_not_commits sha256d commits
    exact ⟨result, checked⟩

theorem checkWitnesses_iff_committed (commits : block.Commits) :
    checkWitnesses sha256d block = some true ↔ block.Committed sha256d := by
  obtain ⟨result, checked, spec⟩ := checkWitnessCommitment_spec sha256d commits
  rw [checkWitnesses_of_commits commits, checked, Option.some.injEq, spec]

theorem checkWitnesses_iff_noWitness (none : ¬block.Commits) :
    checkWitnesses sha256d block = some true ↔ ¬block.HasWitness := by
  obtain ⟨result, checked, spec⟩ := checkWitnesses_of_not_commits sha256d none
  rw [checked, Option.some.injEq, spec]

theorem Block.Committed.commits (committed : block.Committed sha256d) : block.Commits := by
  obtain ⟨coinbase, rest, _, output, _, _, split, _, _, ⟨before, after, outputs, isCommitment, _⟩, _⟩ :=
    committed
  exact ⟨coinbase, rest, split, output, by simp [outputs], isCommitment⟩

/-- The check always gives a result. It accepts a block that its coinbase commits to, and where there
is no commitment exactly the block without witnesses. -/
theorem checkWitnesses_honest (sha256d : Bytes → Digest) (block : Block) :
    (∃ result, checkWitnesses sha256d block = some result) ∧
      (block.Committed sha256d → checkWitnesses sha256d block = some true) ∧
      (¬block.Commits → ¬block.HasWitness → checkWitnesses sha256d block = some true) ∧
      (¬block.Commits → block.HasWitness → checkWitnesses sha256d block = some false) := by
  refine ⟨checkWitnesses_total sha256d block, ?_, ?_, ?_⟩
  · intro committed
    exact (checkWitnesses_iff_committed committed.commits).mpr committed
  · intro none noWitness
    exact (checkWitnesses_iff_noWitness none).mpr noWitness
  · intro none hasWitness
    obtain ⟨result, checked, spec⟩ := checkWitnesses_of_not_commits sha256d none
    have refused : result = false := by
      rw [← Bool.not_eq_true, spec]
      exact not_not.mpr hasWitness
    rw [checked, refused]

end

/-! Blocks of a coinbase and one transaction, and double SHA-256 on what their checks hash. -/

def spendingTransaction (witness : List Bytes) : Transaction :=
  { version := 1,
    lockTime := 0,
    input := [{ previousOutput := { txid := Digest.zeros, vout := 0 }, scriptSig := [],
                sequence := 0xFFFFFFFF, witness }],
    output := [{ value := 1, scriptPubkey := [0x51] }] }

def committingCoinbase (commitment : Digest) (witness : List Bytes) : Transaction :=
  { version := 1,
    lockTime := 0,
    input := [{ previousOutput := { txid := Digest.zeros, vout := 0xFFFFFFFF }, scriptSig := [0x51, 0x51],
                sequence := 0xFFFFFFFF, witness }],
    output := [{ value := 0, scriptPubkey := [0x51] },
               { value := 0, scriptPubkey := commitmentMagic ++ commitment.val }] }

def committingBlock (commitment : Digest) (coinbaseWitness witness : List Bytes) : Block :=
  { header := (sampleBlock []).header,
    txdata := [committingCoinbase commitment coinbaseWitness, spendingTransaction witness] }

def zeroReserved : Bytes := List.replicate 32 0
def signature : List Bytes := [[0xab], [0xcd]]
def plainRoot : Digest := Digest.ofNat 0x3cbf5bf9cb53ac392bc58fba66a2c737951c322f9031ba3620cae13d5d834e12
def signedRoot : Digest := Digest.ofNat 0x598076ee944a046e12e56aacb91a5f0a03eb8162fed4b499fa64e77d2a99667
def plainCommitment : Digest :=
  Digest.ofNat 0x6272ae39c8f26e3a4c139c92b7efa43af17e1c377733428b3bf2df2bf33f8e47
def signedCommitment : Digest :=
  Digest.ofNat 0xd5ed33206b3369e16ab8b6e3b27b0246040d41e1046878d1cacbb5cd9fe7b27e

def witnessHashes : List (Bytes × Digest) :=
  let plain := Digest.ofNat 0x490b76e7ee99f7b89f1ea0a70cd6ca6ff72d048e639f3b03a1a9d1cd9de901f4
  let signed := Digest.ofNat 0xc01a2dd0a4fd70554c8098f9ae6c5028b99da0a77a2bea76f9e5d1c6aa586573
  [((spendingTransaction []).encode, plain),
    ((spendingTransaction signature).encode, signed),
    (nodeBytes (Digest.zeros, plain), plainRoot),
    (nodeBytes (Digest.zeros, signed), signedRoot),
    (plainRoot.val ++ zeroReserved, plainCommitment),
    (signedRoot.val ++ zeroReserved, signedCommitment)]

def witnessHash (bytes : Bytes) : Digest := (witnessHashes.lookup bytes).getD Digest.zeros

def signallingBlock : Block := committingBlock plainCommitment [] []

theorem signallingBlock_committed : signallingBlock.Committed witnessHash := by
  refine ⟨committingCoinbase plainCommitment [], [spendingTransaction []], _, _, plainRoot, zeroReserved,
    rfl, by decide, rfl, ⟨[{ value := 0, scriptPubkey := [0x51] }], [], rfl, by decide, by simp⟩,
    Or.inl ⟨rfl, rfl⟩, by decide +kernel, by decide +kernel⟩

theorem checkWitnesses_honest_signalling :
    (∃ result, checkWitnesses witnessHash signallingBlock = some result) ∧
      checkWitnesses witnessHash signallingBlock = some true :=
  have honest := checkWitnesses_honest witnessHash signallingBlock
  ⟨honest.1, honest.2.1 signallingBlock_committed⟩

end BtcRpcProxy.Blocks
