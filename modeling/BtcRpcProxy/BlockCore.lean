import BtcRpcProxy.MerkleTree

/-!
Blocks, their encoding and the three checks of `fetch_block_from_peer`. `sha256d` is a
parameter; `none` from a check is an index out of bounds.
-/

namespace BtcRpcProxy.Blocks

abbrev Bytes := List UInt8

abbrev Digest := { bytes : Bytes // bytes.length = 32 }

def Digest.zeros : Digest := ⟨List.replicate 32 0, by decide⟩

structure OutPoint where
  txid : Digest
  vout : UInt32
  deriving DecidableEq

structure TxIn where
  previousOutput : OutPoint
  scriptSig : Bytes
  sequence : UInt32
  witness : List Bytes
  deriving DecidableEq

structure TxOut where
  value : UInt64
  scriptPubkey : Bytes
  deriving DecidableEq

structure Transaction where
  version : Int32
  lockTime : UInt32
  input : List TxIn
  output : List TxOut
  deriving DecidableEq

structure BlockHeader where
  version : Int32
  prevBlockhash : Digest
  merkleRoot : Digest
  time : UInt32
  bits : UInt32
  nonce : UInt32
  deriving DecidableEq

structure Block where
  header : BlockHeader
  txdata : List Transaction
  deriving DecidableEq

/-! Consensus encoding. -/

def littleEndian : Nat → Nat → Bytes
  | 0, _ => []
  | count + 1, number => UInt8.ofNat number :: littleEndian count (number / 256)

def varInt (number : Nat) : Bytes :=
  if number < 0xFD then littleEndian 1 number
  else if number ≤ 0xFFFF then 0xFD :: littleEndian 2 number
  else if number ≤ 0xFFFFFFFF then 0xFE :: littleEndian 4 number
  else 0xFF :: littleEndian 8 number

def encodeBytes (bytes : Bytes) : Bytes := varInt bytes.length ++ bytes

def encodeList {Item : Type} (encode : Item → Bytes) (items : List Item) : Bytes :=
  varInt items.length ++ (items.map encode).flatten

def OutPoint.encode (outPoint : OutPoint) : Bytes :=
  outPoint.txid.val ++ littleEndian 4 outPoint.vout.toNat

def TxIn.encode (input : TxIn) : Bytes :=
  input.previousOutput.encode ++ encodeBytes input.scriptSig ++ littleEndian 4 input.sequence.toNat

def TxOut.encode (output : TxOut) : Bytes :=
  littleEndian 8 output.value.toNat ++ encodeBytes output.scriptPubkey

def encodeWitness (witness : List Bytes) : Bytes := encodeList encodeBytes witness

namespace Transaction

def encodeVersion (transaction : Transaction) : Bytes :=
  littleEndian 4 transaction.version.toUInt32.toNat

/-- Without the witnesses, as it is hashed for the txid. -/
def encodeStripped (transaction : Transaction) : Bytes :=
  transaction.encodeVersion ++ encodeList TxIn.encode transaction.input ++
    encodeList TxOut.encode transaction.output ++ littleEndian 4 transaction.lockTime.toNat

/-- A transaction without inputs is written with the marker of witness data, too. -/
def hasWitness (transaction : Transaction) : Bool :=
  transaction.input.isEmpty || transaction.input.any fun input => !input.witness.isEmpty

def encode (transaction : Transaction) : Bytes :=
  if transaction.hasWitness then
    transaction.encodeVersion ++ [0, 1] ++ encodeList TxIn.encode transaction.input ++
      encodeList TxOut.encode transaction.output ++
      (transaction.input.map fun input => encodeWitness input.witness).flatten ++
      littleEndian 4 transaction.lockTime.toNat
  else transaction.encodeStripped

def isCoinBase (transaction : Transaction) : Bool :=
  match transaction.input with
  | [input] => input.previousOutput == { txid := Digest.zeros, vout := 0xFFFFFFFF }
  | _ => false

end Transaction

def BlockHeader.encode (header : BlockHeader) : Bytes :=
  littleEndian 4 header.version.toUInt32.toNat ++ header.prevBlockhash.val ++ header.merkleRoot.val ++
    littleEndian 4 header.time.toNat ++ littleEndian 4 header.bits.toNat ++
    littleEndian 4 header.nonce.toNat

namespace Block

def encode (block : Block) : Bytes :=
  block.header.encode ++ encodeList Transaction.encode block.txdata

/-- The crate adds it up, without the two marker bytes of a transaction that has no inputs; no block has one. -/
def size (block : Block) : Nat := block.encode.length

def strippedsize (block : Block) : Nat :=
  (block.header.encode ++ encodeList Transaction.encodeStripped block.txdata).length

def weight (block : Block) : Nat := 3 * block.strippedsize + block.size

end Block

/-! Hashes and checks. -/

section

variable (sha256d : Bytes → Digest)

def Transaction.txid (transaction : Transaction) : Digest := sha256d transaction.encodeStripped

def Transaction.wtxid (transaction : Transaction) : Digest := sha256d transaction.encode

def Block.blockHash (block : Block) : Digest := sha256d block.header.encode

def nodeBytes (children : Digest × Digest) : Bytes := children.1.val ++ children.2.val

def merkleNode (children : Digest × Digest) : Digest := sha256d (nodeBytes children)

def Block.txids (block : Block) : List Digest := block.txdata.map (Transaction.txid sha256d)

def Block.checkMerkleRoot (block : Block) : Bool :=
  match Merkle.root (merkleNode sha256d) (block.txids sha256d) with
  | some merkleRoot => block.header.merkleRoot == merkleRoot
  | none => false

def commitmentMagic : Bytes := [0x6a, 0x24, 0xaa, 0x21, 0xa9, 0xed]

/-- `&bytes[start..stop]`. -/
def indexRange (bytes : Bytes) (start stop : Nat) : Option Bytes :=
  if start ≤ stop ∧ stop ≤ bytes.length then some ((bytes.take stop).drop start) else none

def isCommitment (output : TxOut) : Option Bool :=
  if 38 ≤ output.scriptPubkey.length then
    (indexRange output.scriptPubkey 0 6).map fun magic => magic == commitmentMagic
  else some false

def anyCommitment : List TxOut → Option Bool
  | [] => some false
  | output :: rest =>
      match isCommitment output with
      | some true => some true
      | some false => anyCommitment rest
      | none => none

/-- `rposition`, on the outputs from the last one on. -/
def lastCommitment : List TxOut → Option (Option Nat)
  | [] => some none
  | output :: before =>
      match isCommitment output with
      | some true => some (some before.length)
      | some false => lastCommitment before
      | none => none

/-- The coinbase counts as zeros. -/
def witnessLeaves : List Transaction → List Digest
  | [] => []
  | _ :: rest => Digest.zeros :: rest.map (Transaction.wtxid sha256d)

def reservedValue : List Bytes → Option Bytes
  | [] => some (List.replicate 32 0)
  | [reserved] => if reserved.length = 32 then some reserved else none
  | _ => none

def checkWitnessCommitment (block : Block) : Option Bool :=
  match block.txdata.head? with
  | none => some false
  | some coinbase =>
      if !coinbase.isCoinBase then some false
      else
        match lastCommitment coinbase.output.reverse with
        | none => none
        | some none => some false
        | some (some pos) =>
            match Merkle.root (merkleNode sha256d) (witnessLeaves sha256d block.txdata) with
            | none => some false
            | some commitment =>
                match coinbase.input[0]? with
                | none => none
                | some input =>
                    match reservedValue input.witness with
                    | none => some false
                    | some reserved =>
                        match coinbase.output[pos]? with
                        | none => none
                        | some output =>
                            (indexRange output.scriptPubkey 6 38).map fun found =>
                              found == (sha256d (commitment.val ++ reserved)).val

/-- Any block with no witnesses at all passes where nothing commits to them. -/
def checkWitnesses (block : Block) : Option Bool :=
  match (block.txdata.head?.map fun coinbase => anyCommitment coinbase.output).getD (some false) with
  | none => none
  | some false =>
      some (!block.txdata.any fun transaction =>
        transaction.input.any fun input => !input.witness.isEmpty)
  | some true => checkWitnessCommitment sha256d block

/-- The three checks a block sent by a peer must pass for the hash it was asked for. -/
def accepted (hash : Digest) (block : Block) : Bool :=
  block.blockHash sha256d == hash && block.checkMerkleRoot sha256d &&
    checkWitnesses sha256d block == some true

end

end BtcRpcProxy.Blocks
