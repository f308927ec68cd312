import BtcRpcProxy.BlockCore
import BtcRpcProxy.ResponseCore

/-!
Arguments and replies of the RPC methods the proxy makes or answers itself
(`rpc_methods.rs`): hashes in hexadecimal, and the replies to `getblockheader`,
`getblock` and `getpeerinfo`.
-/

namespace BtcRpcProxy

open Blocks

/-! Hexadecimal. -/

def hexDigit (value : Nat) : Char :=
  if value < 10 then Char.ofNat (48 + value) else Char.ofNat (87 + value)

def hexChars : List UInt8 → List Char
  | [] => []
  | byte :: rest => hexDigit (byte.toNat / 16) :: hexDigit (byte.toNat % 16) :: hexChars rest

def hexEncode (bytes : List UInt8) : String := String.ofList (hexChars bytes)

def hexValue (char : Char) : Option Nat :=
  if 48 ≤ char.toNat ∧ char.toNat ≤ 57 then some (char.toNat - 48)
  else if 97 ≤ char.toNat ∧ char.toNat ≤ 102 then some (char.toNat - 87)
  else if 65 ≤ char.toNat ∧ char.toNat ≤ 70 then some (char.toNat - 55)
  else none

def hexBytes : List Char → Option (List UInt8)
  | [] => some []
  | [_] => none
  | high :: low :: rest =>
      match hexValue high, hexValue low, hexBytes rest with
      | some high, some low, some bytes => some (UInt8.ofNat (16 * high + low) :: bytes)
      | _, _, _ => none

/-- A hash as it is printed, its bytes from the last to the first. -/
def encodeHash (hash : Digest) : Json := .string (hexEncode hash.val.reverse)

def readHash : Json → Option Digest
  | .string text =>
      match hexBytes text.toList with
      | some bytes =>
          if length : bytes.reverse.length = 32 then some ⟨bytes.reverse, length⟩ else none
      | none => none
  | _ => none

/-! The methods. -/

def getBlock : String := "getblock"
def getBlockHeader : String := "getblockheader"
def getRawTransaction : String := "getrawtransaction"
def decodeRawTransaction : String := "decoderawtransaction"

def headerCall (hash : Digest) : InternalCall :=
  { method := getBlockHeader, params := .array [encodeHash hash, .bool true] }

def blockCall (hash : Digest) : InternalCall :=
  { method := getBlock, params := .array [encodeHash hash, .number (.posInt 0)] }

def decodeCall (transaction : String) : InternalCall :=
  { method := decodeRawTransaction, params := .array [.string transaction] }

/-- Core returns -1 confirmations for a header that is not on the main chain. -/
structure GetBlockHeaderResult where
  hash : Digest
  confirmations : Int32
  height : UInt64
  version : Int32
  versionHex : Option (List UInt8)
  merkleroot : Digest
  time : UInt64
  mediantime : Option UInt64
  nonce : UInt32
  bits : String
  difficulty : UInt64
  chainwork : List UInt8
  nTx : UInt64
  previousblockhash : Option Digest
  nextblockhash : Option Digest

inductive HeaderReply
  | left (bytes : List UInt8)
  | right (header : GetBlockHeaderResult)

def HeaderReply.intoRight : HeaderReply → Option GetBlockHeaderResult
  | .left _ => none
  | .right header => some header

structure GetBlockResult where
  header : GetBlockHeaderResult
  size : Nat
  strippedsize : Option Nat
  weight : Nat
  tx : List Digest

inductive BlockReply
  | left (bytes : List UInt8)
  | right (block : GetBlockResult)

def BlockReply.intoLeft : BlockReply → Option (List UInt8)
  | .left bytes => some bytes
  | .right _ => none

structure PeerInfo where
  addr : String
  servicesnames : List String
  inbound : Bool

def encodeU64 (value : UInt64) : Json := .number (.posInt value)

def encodeI32 (value : Int32) : Json := .number (Number.ofI64 value.toInt64)

def encodeUsize (value : Nat) : Json := encodeU64 (UInt64.ofNat value)

/-- The derived `Serialize`, in camel case and with a missing value written as `null`. -/
def GetBlockHeaderResult.entries (header : GetBlockHeaderResult) : List (String × Json) :=
  [("hash", encodeHash header.hash),
    ("confirmations", encodeI32 header.confirmations),
    ("height", encodeU64 header.height),
    ("version", encodeI32 header.version),
    ("versionHex", (header.versionHex.map fun bytes => Json.string (hexEncode bytes)).getD .null),
    ("merkleroot", encodeHash header.merkleroot),
    ("time", encodeU64 header.time),
    ("mediantime", (header.mediantime.map encodeU64).getD .null),
    ("nonce", encodeU64 header.nonce.toUInt64),
    ("bits", .string header.bits),
    ("difficulty", .number (.float header.difficulty)),
    ("chainwork", .string (hexEncode header.chainwork)),
    ("nTx", encodeU64 header.nTx),
    ("previousblockhash", (header.previousblockhash.map encodeHash).getD .null),
    ("nextblockhash", (header.nextblockhash.map encodeHash).getD .null)]

/-- The header is flattened into the block. -/
def GetBlockResult.encode (block : GetBlockResult) : Json :=
  .object (mapOfEntries (block.header.entries ++
    [("size", encodeUsize block.size),
      ("strippedsize", (block.strippedsize.map encodeUsize).getD .null),
      ("weight", encodeUsize block.weight),
      ("tx", .array (block.tx.map encodeHash))]))

end BtcRpcProxy
