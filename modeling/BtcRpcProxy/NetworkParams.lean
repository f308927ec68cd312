import BtcRpcProxy.BlockAnswer
import BtcRpcProxy.BlockIdentity
import BtcRpcProxy.CredentialFailuresCore

/-!
The network parameters of bitcoind's chain (`state.rs`), from its reply to `getblockchaininfo` to
the bytes a message to a peer begins with.
-/

namespace BtcRpcProxy.Network

open Blocks

/-- The derived `Deserialize` of `BlockchainInfo`. -/
def readBlockchainInfo (members : List (String × Json)) : Option BlockchainInfo := do
  let chain ← (members.lookup "chain").bind readString
  let signetChallenge ← readOptional readHex (members.lookup "signet_challenge")
  pure { chain, signetChallenge }

def replyParams (sha256d : List UInt8 → Digest) (members : List (String × Json)) : Option NetworkParams :=
  (readBlockchainInfo members).bind fun info => (NetworkParams.fromBlockchainInfo sha256d info).toOption

/-- What a message to a peer begins with. -/
def wireMagic (params : NetworkParams) : Bytes := littleEndian 4 params.magic.toNat

theorem fromLeBytes_cons {byte : UInt8} {rest : List UInt8} (short : rest.length < 4) :
    (fromLeBytes (byte :: rest)).toNat = byte.toNat + 256 * (fromLeBytes rest).toNat ∧
      (fromLeBytes (byte :: rest)).toNat < 256 ^ (rest.length + 1) := by
  induction rest generalizing byte with
  | nil =>
      have bound := byte.toNat_lt
      simp [fromLeBytes]
      omega
  | cons next rest ih =>
      obtain ⟨_, small⟩ := @ih next (by simp at short; omega)
      have bound := byte.toNat_lt
      have limit : 256 ^ (rest.length + 1) ≤ 256 ^ 3 := Nat.pow_le_pow_right (by omega) (by simp at short; omega)
      have value : (fromLeBytes (byte :: next :: rest)).toNat =
          byte.toNat + 256 * (fromLeBytes (next :: rest)).toNat := by
        rw [fromLeBytes, UInt32.toNat_add, UInt32.toNat_mul, UInt8.toNat_toUInt32]
        have fits : byte.toNat + 256 * (fromLeBytes (next :: rest)).toNat < 2 ^ 32 := by omega
        have low : 256 * (fromLeBytes (next :: rest)).toNat < 2 ^ 32 := by omega
        rw [show (256 : UInt32).toNat = 256 from rfl, Nat.mod_eq_of_lt low, Nat.mod_eq_of_lt fits]
      refine ⟨value, ?_⟩
      rw [value, List.length_cons, Nat.pow_succ]
      omega

theorem littleEndian_fromLeBytes {bytes : List UInt8} (short : bytes.length ≤ 4) :
    littleEndian bytes.length (fromLeBytes bytes).toNat = bytes := by
  induction bytes with
  | nil => rfl
  | cons byte rest ih =>
      have bound := byte.toNat_lt
      rw [(fromLeBytes_cons short).1, List.length_cons, littleEndian]
      have low : UInt8.ofNat (byte.toNat + 256 * (fromLeBytes rest).toNat) = byte := by
        apply UInt8.toNat_inj.mp
        rw [UInt8.toNat_ofNat']
        omega
      have high : (byte.toNat + 256 * (fromLeBytes rest).toNat) / 256 = (fromLeBytes rest).toNat := by omega
      rw [low, high, ih (by simp at short; omega)]

theorem littleEndian_signetMagic (sha256d : List UInt8 → Digest) (challenge : List UInt8) :
    littleEndian 4 (signetMagic sha256d challenge).toNat = (sha256d (encodeBytes challenge)).val.take 4 := by
  have four : ((sha256d (encodeBytes challenge)).val.take 4).length = 4 := by
    rw [List.length_take, (sha256d (encodeBytes challenge)).2]
    rfl
  have written := littleEndian_fromLeBytes (Nat.le_of_eq four)
  rw [four] at written
  exact written

/-- The chains but signet, on which a challenge makes no difference. -/
def fixedParams : List (String × NetworkParams) :=
  [("main", ⟨0xD9B4BEF9, 8333⟩), ("test", ⟨0x0709110B, 18333⟩), ("testnet4", ⟨0x283F161C, 48333⟩),
    ("regtest", ⟨0xDAB5BFFA, 18444⟩)]

theorem fromBlockchainInfo_eq_ok_iff {sha256d : List UInt8 → Digest} {info : BlockchainInfo}
    {params : NetworkParams} : NetworkParams.fromBlockchainInfo sha256d info = .ok params ↔
      (info.chain, params) ∈ fixedParams ∨ info.chain = "signet" ∧ ∃ challenge,
        info.signetChallenge = some challenge ∧ params = ⟨signetMagic sha256d challenge, 38333⟩ := by
  unfold NetworkParams.fromBlockchainInfo fixedParams
  split
  case _ isChain => simp [isChain, eq_comm]
  case _ isChain => simp [isChain, eq_comm]
  case _ isChain => simp [isChain, eq_comm]
  case _ isChain =>
      cases isChallenge : info.signetChallenge with
      | none => simp [isChain]
      | some challenge => simp [isChain, eq_comm]
  case _ isChain => simp [isChain, eq_comm]
  case _ notMain notTest notTestnet notSignet notRegtest =>
      simp only [List.mem_cons, Prod.mk.injEq, List.not_mem_nil, or_false, reduceCtorEq, false_iff, not_or,
        not_and]
      exact ⟨⟨fun isMain => (notMain isMain).elim, fun isTest => (notTest isTest).elim,
        fun isTestnet => (notTestnet isTestnet).elim, fun isRegtest => (notRegtest isRegtest).elim⟩,
        fun isSignet => (notSignet isSignet).elim⟩

theorem replyParams_eq_some_iff {sha256d : List UInt8 → Digest} {members : List (String × Json)}
    {params : NetworkParams} : replyParams sha256d members = some params ↔
      ∃ chain challenge, members.lookup "chain" = some (.string chain) ∧
        readOptional readHex (members.lookup "signet_challenge") = some challenge ∧
        ((chain, params) ∈ fixedParams ∨ chain = "signet" ∧ ∃ bytes, challenge = some bytes ∧
          params = ⟨signetMagic sha256d bytes, 38333⟩) := by
  have toOption : ∀ read : Except NetworkError NetworkParams, read.toOption = some params ↔ read = .ok params := by
    intro read
    cases read <;> simp [Except.toOption]
  simp only [replyParams, readBlockchainInfo, Option.bind_eq_bind, Option.pure_def, Option.bind_eq_some_iff,
    Option.some.injEq, toOption, fromBlockchainInfo_eq_ok_iff]
  constructor
  · rintro ⟨info, ⟨chain, ⟨json, found, isString⟩, challenge, isChallenge, rfl⟩, taken⟩
    cases json with
    | string text =>
        obtain rfl := Option.some.inj isString
        exact ⟨text, challenge, found, isChallenge, taken⟩
    | _ => simp [readString] at isString
  · rintro ⟨chain, challenge, found, isChallenge, taken⟩
    exact ⟨⟨chain, challenge⟩, ⟨chain, ⟨.string chain, found, rfl⟩, challenge, isChallenge, rfl⟩, taken⟩

/-- On signet, the bytes that tell one challenge from another. -/
def challengeMagic (sha256d : List UInt8 → Digest) (members : List (String × Json)) : Option Bytes :=
  ((members.lookup "signet_challenge").bind readHex).map fun challenge =>
    (sha256d (encodeBytes challenge)).val.take 4

theorem fixedParams_iff : ∀ first ∈ fixedParams, ∀ second ∈ fixedParams,
    (first.2 = second.2 ↔ first.1 = second.1) := by decide

theorem fixedParams_not_signet : ∀ entry ∈ fixedParams,
    entry.1 ≠ "signet" ∧ entry.2.defaultPeerPort ≠ 38333 := by decide

theorem challengeMagic_eq {sha256d : List UInt8 → Digest} {members : List (String × Json)} {challenge : List UInt8}
    (isChallenge : readOptional readHex (members.lookup "signet_challenge") = some (some challenge)) :
    challengeMagic sha256d members = some (wireMagic ⟨signetMagic sha256d challenge, 38333⟩) := by
  unfold challengeMagic wireMagic
  rw [littleEndian_signetMagic]
  unfold readOptional at isChallenge
  split at isChallenge
  · simp at isChallenge
  · simp at isChallenge
  · rename_i json found
    rw [found, Option.bind_some]
    rw [Option.map_eq_some_iff] at isChallenge
    obtain ⟨bytes, isBytes, same⟩ := isChallenge
    rw [isBytes, Option.some.inj same, Option.map_some]

theorem wireMagic_inj {first second : UInt32} {port : UInt16}
    (same : wireMagic ⟨first, port⟩ = wireMagic ⟨second, port⟩) : first = second :=
  littleEndian_uInt32_injective same

theorem replyParams_eq_iff (sha256d : List UInt8 → Digest) (first second : List (String × Json))
    (params other : NetworkParams) (isParams : replyParams sha256d first = some params)
    (isOther : replyParams sha256d second = some other) :
    (params = other ↔ first.lookup "chain" = second.lookup "chain" ∧
      (first.lookup "chain" = some (.string "signet") →
        challengeMagic sha256d first = challengeMagic sha256d second)) ∧
    (first.lookup "chain" = some (.string "signet") → challengeMagic sha256d first = some (wireMagic params)) := by
  obtain ⟨chain, challenge, isChain, isChallenge, taken⟩ := replyParams_eq_some_iff.mp isParams
  obtain ⟨chain', challenge', isChain', isChallenge', taken'⟩ := replyParams_eq_some_iff.mp isOther
  simp only [isChain, isChain', Option.some.injEq, Json.string.injEq]
  rcases taken with fixed | ⟨rfl, bytes, rfl, rfl⟩
  · have notSignet := (fixedParams_not_signet _ fixed).1
    refine ⟨?_, fun isSignet => (notSignet isSignet).elim⟩
    rcases taken' with fixed' | ⟨rfl, bytes', rfl, rfl⟩
    · rw [fixedParams_iff _ fixed _ fixed']
      exact ⟨fun same => ⟨same, fun isSignet => (notSignet isSignet).elim⟩, And.left⟩
    · refine ⟨?_, fun same => (notSignet same.1).elim⟩
      rintro rfl
      exact ((fixedParams_not_signet _ fixed).2 rfl).elim
  · rw [challengeMagic_eq isChallenge]
    refine ⟨?_, fun _ => rfl⟩
    rcases taken' with fixed' | ⟨rfl, bytes', rfl, rfl⟩
    · refine ⟨?_, fun same => ((fixedParams_not_signet _ fixed').1 same.1.symm).elim⟩
      rintro rfl
      exact ((fixedParams_not_signet _ fixed').2 rfl).elim
    · rw [challengeMagic_eq isChallenge']
      constructor
      · intro same
        exact ⟨rfl, fun _ => by rw [same]⟩
      · rintro ⟨_, same⟩
        rw [wireMagic_inj (Option.some.inj (same rfl))]

/-! Two signets. -/

def sampleSha256d (bytes : List UInt8) : Digest := Digest.ofNat (fromLeBytes bytes).toNat

def signetReply (challenge : String) : List (String × Json) :=
  [("chain", .string "signet"), ("signet_challenge", .string challenge)]

theorem replyParams_eq_iff_signet :
    ∃ params other, replyParams sampleSha256d (signetReply "51") = some params ∧
      replyParams sampleSha256d (signetReply "52") = some other ∧ params ≠ other := by
  have first : replyParams sampleSha256d (signetReply "51") = some ⟨0x5101, 38333⟩ := by decide
  have second : replyParams sampleSha256d (signetReply "52") = some ⟨0x5201, 38333⟩ := by decide
  refine ⟨_, _, first, second, ?_⟩
  rw [Ne, (replyParams_eq_iff sampleSha256d _ _ _ _ first second).1]
  decide

end BtcRpcProxy.Network
