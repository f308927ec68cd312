import Mathlib.Algebra.Ring.Nat
import BtcRpcProxy.BlockCore

/-!
What a block's hash says about its transactions. The header fixes the merkle root, and the
root fixes the txids of a block once the number of its transactions is known; a block with
its last transaction repeated can have the same root.
-/

namespace BtcRpcProxy.Blocks

@[simp] theorem littleEndian_length (count number : Nat) : (littleEndian count number).length = count := by
  induction count generalizing number with
  | zero => rfl
  | succ count ih => simp [littleEndian, ih]

theorem littleEndian_injective {count first second : Nat} (firstBound : first < 256 ^ count)
    (secondBound : second < 256 ^ count) (same : littleEndian count first = littleEndian count second) :
    first = second := by
  induction count generalizing first second with
  | zero =>
      simp only [Nat.pow_zero, Nat.lt_one_iff] at firstBound secondBound
      rw [firstBound, secondBound]
  | succ count ih =>
      simp only [littleEndian, List.cons.injEq] at same
      have lowest : first % 256 = second % 256 := by
        have bytes := congrArg UInt8.toNat same.1
        simpa using bytes
      have higher : first / 256 = second / 256 := by
        refine ih ?_ ?_ same.2
        · exact Nat.div_lt_of_lt_mul (by rwa [Nat.pow_succ, Nat.mul_comm] at firstBound)
        · exact Nat.div_lt_of_lt_mul (by rwa [Nat.pow_succ, Nat.mul_comm] at secondBound)
      rw [← Nat.div_add_mod first 256, ← Nat.div_add_mod second 256, lowest, higher]

theorem littleEndian_uInt32_injective {first second : UInt32}
    (same : littleEndian 4 first.toNat = littleEndian 4 second.toNat) : first = second :=
  UInt32.toNat_inj.mp (littleEndian_injective first.toNat_lt second.toNat_lt same)

theorem encode_header_injective {first second : BlockHeader} (same : first.encode = second.encode) :
    first = second := by
  simp only [BlockHeader.encode] at same
  obtain ⟨same, nonce⟩ := List.append_inj' same (by simp)
  obtain ⟨same, bits⟩ := List.append_inj' same (by simp)
  obtain ⟨same, time⟩ := List.append_inj' same (by simp)
  obtain ⟨same, merkleRoot⟩ := List.append_inj' same (by rw [first.merkleRoot.2, second.merkleRoot.2])
  obtain ⟨version, prevBlockhash⟩ := List.append_inj' same
    (by rw [first.prevBlockhash.2, second.prevBlockhash.2])
  have sameVersion : first.version = second.version :=
    congrArg Int32.ofUInt32 (littleEndian_uInt32_injective version)
  have sameTime := littleEndian_uInt32_injective time
  have sameBits := littleEndian_uInt32_injective bits
  have sameNonce := littleEndian_uInt32_injective nonce
  cases first
  cases second
  simp_all [Subtype.ext_iff]

theorem nodeBytes_injective {first second : Digest × Digest} (same : nodeBytes first = nodeBytes second) :
    first = second := by
  obtain ⟨left, right⟩ := List.append_inj same (by rw [first.1.2, second.1.2])
  exact Prod.ext (Subtype.ext left) (Subtype.ext right)

section

variable {sha256d : Bytes → Digest}

/-- No two of these byte strings have the same hash. -/
def CollisionFree (sha256d : Bytes → Digest) (strings : List Bytes) : Prop :=
  ∀ first ∈ strings, ∀ second ∈ strings, sha256d first = sha256d second → first = second

def hashedStrings (sha256d : Bytes → Digest) (block : Block) : List Bytes :=
  block.header.encode ::
    (Merkle.hashedPairs (merkleNode sha256d) block.txdata.length (block.txids sha256d)).map nodeBytes

theorem merkleNode_injOn {strings : List Bytes} {pairs : List (Digest × Digest)}
    (collisionFree : CollisionFree sha256d strings) (hashed : ∀ pair ∈ pairs, nodeBytes pair ∈ strings) :
    Set.InjOn (merkleNode sha256d) {pair | pair ∈ pairs} := by
  intro first firstMember second secondMember sameNode
  exact nodeBytes_injective
    (collisionFree _ (hashed first firstMember) _ (hashed second secondMember) sameNode)

theorem merkleRoot_injective {strings : List Bytes} {left right : List Digest} {root : Digest}
    (collisionFree : CollisionFree sha256d strings)
    (leftHashed : ∀ pair ∈ Merkle.hashedPairs (merkleNode sha256d) left.length left,
      nodeBytes pair ∈ strings)
    (rightHashed : ∀ pair ∈ Merkle.hashedPairs (merkleNode sha256d) right.length right,
      nodeBytes pair ∈ strings)
    (sameLength : left.length = right.length)
    (leftRoot : Merkle.root (merkleNode sha256d) left = some root)
    (rightRoot : Merkle.root (merkleNode sha256d) right = some root) : left = right := by
  refine Merkle.root_injective (merkleNode_injOn collisionFree ?_) sameLength leftRoot rightRoot
  intro pair member
  rcases List.mem_append.mp member with inLeft | inRight
  · exact leftHashed pair inLeft
  · exact rightHashed pair inRight

theorem txids_length (sha256d : Bytes → Digest) (block : Block) :
    (block.txids sha256d).length = block.txdata.length := by
  simp [Block.txids]

theorem accepted_root {hash : Digest} {block : Block} (valid : accepted sha256d hash block = true) :
    sha256d block.header.encode = hash ∧
      Merkle.root (merkleNode sha256d) (block.txids sha256d) = some block.header.merkleRoot := by
  simp only [accepted, Bool.and_eq_true, beq_iff_eq] at valid
  obtain ⟨⟨isHash, isRoot⟩, _⟩ := valid
  refine ⟨isHash, ?_⟩
  unfold Block.checkMerkleRoot at isRoot
  split at isRoot
  · rename_i merkleRoot found
    rw [found, beq_iff_eq.mp isRoot]
  · simp at isRoot

/-- Two accepted blocks of one hash have the same txids exactly when they have the same
number of transactions. -/
theorem accepted_txids_iff {hash : Digest} {left right : Block}
    (collisionFree : CollisionFree sha256d (hashedStrings sha256d left ++ hashedStrings sha256d right))
    (leftAccepted : accepted sha256d hash left = true)
    (rightAccepted : accepted sha256d hash right = true) :
    left.txids sha256d = right.txids sha256d ↔ left.txdata.length = right.txdata.length := by
  obtain ⟨leftHash, leftRoot⟩ := accepted_root leftAccepted
  obtain ⟨rightHash, rightRoot⟩ := accepted_root rightAccepted
  have sameHeader : left.header = right.header :=
    encode_header_injective (collisionFree _ (by simp [hashedStrings]) _ (by simp [hashedStrings])
      (leftHash.trans rightHash.symm))
  constructor
  · intro same
    simpa [txids_length] using congrArg List.length same
  · intro sameLength
    refine merkleRoot_injective collisionFree ?_ ?_ ?_ leftRoot (sameHeader ▸ rightRoot)
    · intro pair member
      rw [txids_length] at member
      exact List.mem_append_left _ (List.mem_cons_of_mem _ (List.mem_map_of_mem member))
    · intro pair member
      rw [txids_length] at member
      exact List.mem_append_right _ (List.mem_cons_of_mem _ (List.mem_map_of_mem member))
    · rwa [txids_length, txids_length]

end

/-! A block of three transactions, and the one with its last transaction repeated. -/

/-- A hash as bitcoin prints it: its bytes from the last to the first. -/
def Digest.ofNat (number : Nat) : Digest := ⟨littleEndian 32 number, littleEndian_length 32 number⟩

def sampleTransaction (vout : UInt32) (scriptSig : Bytes) (value : UInt64) : Transaction :=
  { version := 1,
    lockTime := 0,
    input := [{ previousOutput := { txid := Digest.zeros, vout }, scriptSig, sequence := 0xFFFFFFFF,
                witness := [] }],
    output := [{ value, scriptPubkey := [0x51] }] }

def sampleCoinbase : Transaction := sampleTransaction 0xFFFFFFFF [0x51, 0x51] 5000000000
def sampleSecond : Transaction := sampleTransaction 1 [] 1000
def sampleThird : Transaction := sampleTransaction 2 [] 2000

def sampleBlock (txdata : List Transaction) : Block :=
  { header :=
      { version := 1,
        prevBlockhash := Digest.zeros,
        merkleRoot := Digest.ofNat 0x92d811b191b4db8d8119060c6e032194367aade5b5586a4903a937fd4bede08f,
        time := 0,
        bits := 0x207fffff,
        nonce := 0 },
    txdata }

def honestBlock : Block := sampleBlock [sampleCoinbase, sampleSecond, sampleThird]
def repeatedBlock : Block := sampleBlock [sampleCoinbase, sampleSecond, sampleThird, sampleThird]

def sampleHashes : List (Bytes × Digest) :=
  let coinbase := Digest.ofNat 0xf60c73405d499a956d3162e3483c395526ef78286458a4cb17b125aa92e49b20
  let second := Digest.ofNat 0x8cd24efe7dbd724c364ccf86176bf3a75643b0d1993c35631b29d24748da3862
  let third := Digest.ofNat 0x7a93c2fc3107a5a38c95dd2a7a39388ddc31e2bb3780fbb46e50c5d801ba3057
  let first := Digest.ofNat 0xcc4ef2ba3172dceafa7eb1d0b7a73e74c65d4f00d62ab2edfe99a4d17915421c
  let last := Digest.ofNat 0xae8a553cd242ddc0e1809ba5062a735d5deaa99631cba974864a964e5de8017b
  [(sampleCoinbase.encodeStripped, coinbase),
    (sampleSecond.encodeStripped, second),
    (sampleThird.encodeStripped, third),
    (nodeBytes (coinbase, second), first),
    (nodeBytes (third, third), last),
    (nodeBytes (first, last),
      Digest.ofNat 0x92d811b191b4db8d8119060c6e032194367aade5b5586a4903a937fd4bede08f)]

def sampleHash (bytes : Bytes) : Digest :=
  match sampleHashes.lookup bytes with
  | some digest => digest
  | none => Digest.ofNat 0x172e9e54f250759ec213cd267f202678be3464d38ec6f8cdab7bed6b48253a9e

theorem sampleHash_collisionFree : CollisionFree sampleHash
    (hashedStrings sampleHash honestBlock ++ hashedStrings sampleHash repeatedBlock) := by
  unfold CollisionFree
  decide +kernel

theorem honestBlock_accepted :
    accepted sampleHash (honestBlock.blockHash sampleHash) honestBlock = true := by
  decide +kernel

theorem repeatedBlock_accepted :
    accepted sampleHash (honestBlock.blockHash sampleHash) repeatedBlock = true := by
  decide +kernel

theorem accepted_txids_iff_repeated :
    honestBlock.txids sampleHash = repeatedBlock.txids sampleHash ↔
      honestBlock.txdata.length = repeatedBlock.txdata.length :=
  accepted_txids_iff sampleHash_collisionFree honestBlock_accepted repeatedBlock_accepted

/-- The block with its last transaction repeated passes for the hash of the honest one. -/
theorem repeated_transaction_accepted :
    CollisionFree sampleHash
        (hashedStrings sampleHash honestBlock ++ hashedStrings sampleHash repeatedBlock) ∧
      accepted sampleHash (honestBlock.blockHash sampleHash) honestBlock = true ∧
      accepted sampleHash (honestBlock.blockHash sampleHash) repeatedBlock = true ∧
      honestBlock.txids sampleHash ≠ repeatedBlock.txids sampleHash :=
  ⟨sampleHash_collisionFree, honestBlock_accepted, repeatedBlock_accepted, by decide +kernel⟩

end BtcRpcProxy.Blocks
