import BtcRpcProxy.PercentEncoding
import BtcRpcProxy.ProxyRequests
import BtcRpcProxy.TextBytes

/-!
The wallet a user is bound to: `override_wallet` becomes the path of every request posted for the
user, and the path is read back, by the HTTP crate and by bitcoind, as more than a name.
-/

namespace BtcRpcProxy

open Polled PercentEncoding

/-- `input::User`: a user as the configuration has it. -/
structure InputUser where
  password : Password
  allowedCalls : Option (List String)
  fetchBlocks : Option Bool
  overrideWallet : Option String

def InputUser.mapDefault (user : InputUser) (defaultFetchBlocks : Bool) : User :=
  { password := user.password,
    allowedCalls := user.allowedCalls,
    fetchBlocks := user.fetchBlocks.getD defaultFetchBlocks,
    overrideWallet := user.overrideWallet.map fun wallet => "/wallet/" ++ wallet }

/-! A target, what follows the origin in a URI, is a path and perhaps a query. -/

def questionMark : UInt8 := 63

def numberSign : UInt8 := 35

def targetPath (target : List UInt8) : List UInt8 := target.takeWhile (· != questionMark)

def targetQuery (target : List UInt8) : Option (List UInt8) :=
  match target.dropWhile (· != questionMark) with
  | [] => none
  | _ :: query => some query

/-- What the HTTP crate does: it drops everything from a number sign on, and puts the target after
the scheme and the authority. What it refuses is left open. -/
structure RpcClient.BuildsUris (client : RpcClient) (origin : String) : Prop where
  parsePath : ∀ path target, client.parsePath path = .ok target →
    utf8Bytes target = (utf8Bytes path).takeWhile (· != numberSign)
  fromParts : ∀ target uri, client.fromParts target = .ok uri → uri = origin ++ target

def ReachesWallet (origin wallet uri : String) : Prop :=
  ∃ target, utf8Bytes uri = utf8Bytes origin ++ target ∧ targetQuery target = none ∧
    decode (targetPath target) = utf8Bytes ("/wallet/" ++ wallet)

structure PlainName (wallet : String) : Prop where
  noQuery : questionMark ∉ utf8Bytes wallet
  noFragment : numberSign ∉ utf8Bytes wallet
  noEscape : ¬HasEscape (utf8Bytes wallet)

theorem takeWhile_bne_eq_self {Item : Type*} [DecidableEq Item] {item : Item} {items : List Item} :
    items.takeWhile (· != item) = items ↔ item ∉ items := by
  rw [List.takeWhile_eq_self_iff]
  constructor
  · intro all member
    simpa using all item member
  · rintro absent other member
    simp only [bne_iff_ne]
    rintro rfl
    exact absent member

theorem targetQuery_eq_none {target : List UInt8} :
    targetQuery target = none ↔ questionMark ∉ target := by
  unfold targetQuery
  split
  · rename_i nothing
    simp only [List.dropWhile_eq_nil_iff, bne_iff_ne] at nothing
    simp only [true_iff]
    exact fun member => nothing _ member rfl
  · rename_i first query found
    simp only [reduceCtorEq, false_iff, not_not]
    by_contra absent
    have all : target.dropWhile (· != questionMark) = [] := by
      simp only [List.dropWhile_eq_nil_iff, bne_iff_ne]
      rintro byte member rfl
      exact absent member
    simp [all] at found

theorem targetPath_eq_self {target : List UInt8} (noQuery : questionMark ∉ target) :
    targetPath target = target := takeWhile_bne_eq_self.mpr noQuery

theorem walletStart_absent (byte : UInt8) (reserved : byte = questionMark ∨ byte = numberSign ∨ byte = percent) :
    byte ∉ utf8Bytes "/wallet/" := by
  have bytes : utf8Bytes "/wallet/" = [47, 119, 97, 108, 108, 101, 116, 47] := by decide +kernel
  rw [bytes]
  rcases reserved with rfl | rfl | rfl <;> decide

/-- The target that is left of a wallet's path names the wallet exactly where the name is plain. -/
theorem wallet_target_iff {wallet : String} {target : List UInt8}
    (left : target = (utf8Bytes ("/wallet/" ++ wallet)).takeWhile (· != numberSign)) :
    (targetQuery target = none ∧ decode (targetPath target) = utf8Bytes ("/wallet/" ++ wallet)) ↔
      PlainName wallet := by
  have whole : utf8Bytes ("/wallet/" ++ wallet) = utf8Bytes "/wallet/" ++ utf8Bytes wallet :=
    utf8Bytes_append _ _
  constructor
  · rintro ⟨noQuery, decoded⟩
    rw [targetQuery_eq_none] at noQuery
    rw [targetPath_eq_self noQuery] at decoded
    -- decoding and dropping can only shorten, so neither has
    have short := length_decode_le target
    have isPrefix : target <+: utf8Bytes ("/wallet/" ++ wallet) := left ▸ List.takeWhile_prefix _
    have same : target = utf8Bytes ("/wallet/" ++ wallet) :=
      isPrefix.eq_of_length_le (decoded ▸ short)
    rw [same, whole] at noQuery decoded
    have noFragment := takeWhile_bne_eq_self.mp (left.symm.trans same)
    rw [whole] at noFragment
    refine ⟨fun member => noQuery (List.mem_append_right _ member),
      fun member => noFragment (List.mem_append_right _ member), ?_⟩
    rw [decode_eq_self_iff, hasEscape_append (walletStart_absent percent (by simp))] at decoded
    exact decoded
  · intro plain
    have absent (byte : UInt8) (reserved : byte = questionMark ∨ byte = numberSign ∨ byte = percent)
        (notInName : byte ∉ utf8Bytes wallet) : byte ∉ utf8Bytes ("/wallet/" ++ wallet) := by
      rw [whole, List.mem_append, not_or]
      exact ⟨walletStart_absent byte reserved, notInName⟩
    have same : target = utf8Bytes ("/wallet/" ++ wallet) :=
      left.trans (takeWhile_bne_eq_self.mpr (absent numberSign (by simp) plain.noFragment))
    have noQuery := absent questionMark (by simp) plain.noQuery
    rw [same, targetQuery_eq_none, targetPath_eq_self noQuery, decode_eq_self_iff, whole,
      hasEscape_append (walletStart_absent percent (by simp))]
    exact ⟨whole ▸ noQuery, plain.noEscape⟩

theorem reachesWallet_iff {client : RpcClient} {origin wallet : String} {posted : Forward}
    (builds : client.BuildsUris origin) (sendsTo : client.SendsTo ("/wallet/" ++ wallet) posted) :
    ReachesWallet origin wallet posted.uri ↔ PlainName wallet := by
  obtain ⟨pathAndQuery, parsed, built⟩ := sendsTo
  have isUri : utf8Bytes posted.uri = utf8Bytes origin ++ utf8Bytes pathAndQuery := by
    rw [builds.fromParts _ _ built, utf8Bytes_append]
  rw [← wallet_target_iff (builds.parsePath _ _ parsed)]
  constructor
  · rintro ⟨target, ends, reaches⟩
    rw [isUri] at ends
    exact List.append_cancel_left ends ▸ reaches
  · exact fun reaches => ⟨_, isUri, reaches⟩

theorem authenticates_unique {state : State} {request : HttpRequest} {name other : String} {user served : User}
    (first : Authenticates state request name user) (second : Authenticates state request other served) :
    name = other ∧ user = served := by
  obtain ⟨header, isHeader, got⟩ := first
  obtain ⟨_, sameHeader, gotOther⟩ := second
  obtain rfl := Option.some.inj (isHeader.symm.trans sameHeader)
  simpa using got.symm.trans gotOther

theorem serve_sendsTo {state : State} {schedule : List Nat} {path : String} {user : User}
    {read : Except AnyhowError (List UInt8)} {answer : Future Effect (Except AnyhowError HttpResponse)}
    (served : state.serve schedule path user read = some answer) {posted : Forward}
    (member : posted ∈ forwards answer.log) :
    state.rpcClient.SendsTo (State.walletPath user path) posted := by
  unfold State.serve at served
  split at served
  · simp only [Option.some.injEq] at served
    simp [← served] at member
  · split at served
    · simp only [Option.some.injEq] at served
      simp [← served] at member
    · exact (send_forwards served member).1

theorem walletPath_mapDefault {user : InputUser} {wallet : String} (bound : user.overrideWallet = some wallet)
    (defaultFetchBlocks : Bool) (path : String) :
    State.walletPath (user.mapDefault defaultFetchBlocks) path = "/wallet/" ++ wallet := by
  simp [State.walletPath, InputUser.mapDefault, bound]

/-- Whatever path the client asks for, what is posted for a user reaches the user's wallet exactly
where nothing in its name is reserved in a URI. -/
theorem posted_to_wallet_iff {state : State} {origin : String} (builds : state.rpcClient.BuildsUris origin)
    {schedule : List Nat} {request : HttpRequest} {run : Future Effect (Except AnyhowError HttpResponse)}
    (complete : state.proxyRequest schedule request = some run) {name wallet : String} {user : InputUser}
    {defaultFetchBlocks : Bool}
    (authenticates : Authenticates state request name (user.mapDefault defaultFetchBlocks))
    (bound : user.overrideWallet = some wallet) :
    ∀ posted ∈ forwards run.log, ReachesWallet origin wallet posted.uri ↔ PlainName wallet := by
  intro posted member
  obtain ⟨_, served, isServed, read, answer, isAnswer, inAnswer⟩ := proxyRequest_authenticated complete member
  have sameUser := (authenticates_unique authenticates isServed).2
  have sendsTo := serve_sendsTo isAnswer inAnswer
  rw [← sameUser, walletPath_mapDefault bound] at sendsTo
  exact reachesWallet_iff builds sendsTo

/-! A wallet whose name has a number sign. -/

def localOrigin : String := "http://127.0.0.1:8332"

def localNode : RpcClient :=
  { slowNode (Future.pure (.ok [])) with
    parsePath := fun path =>
      match fromUtf8 ((utf8Bytes path).takeWhile (· != numberSign)) with
      | some target => .ok target
      | none => .error ⟨["invalid uri character"]⟩,
    fromParts := fun target => .ok (localOrigin ++ target) }

theorem localNode_buildsUris : localNode.BuildsUris localOrigin := by
  constructor
  · intro path target parsed
    simp only [localNode] at parsed
    split at parsed
    · rename_i text decoded
      exact Except.ok.inj parsed ▸ fromUtf8_eq_some_iff.mp decoded
    · simp at parsed
  · intro target uri built
    exact (Except.ok.inj built).symm

def boundPayer (wallet : String) : InputUser :=
  { password := payer.password, allowedCalls := payer.allowedCalls, fetchBlocks := none,
    overrideWallet := some wallet }

def boundState (wallet : String) : State :=
  { paymentState with rpcClient := localNode, users := [("pay", (boundPayer wallet).mapDefault true)] }

theorem number_sign_selects_other_wallet :
    ∃ run, (boundState "savings#old").proxyRequest [] paymentHttp = some run ∧
      localNode.BuildsUris localOrigin ∧
      Authenticates (boundState "savings#old") paymentHttp "pay" ((boundPayer "savings#old").mapDefault true) ∧
      ∃ posted ∈ forwards run.log, posted.uri = "http://127.0.0.1:8332/wallet/savings" ∧
        ¬ReachesWallet localOrigin "savings#old" posted.uri := by
  have posts : ((boundState "savings#old").proxyRequest [] paymentHttp).map
      (fun run => (forwards run.log).map Forward.uri) = some ["http://127.0.0.1:8332/wallet/savings"] := by
    decide +kernel
  obtain ⟨run, isRun, isUri⟩ := Option.map_eq_some_iff.mp posts
  obtain ⟨posted, isPosted, isUri⟩ : ∃ posted ∈ forwards run.log,
      posted.uri = "http://127.0.0.1:8332/wallet/savings" := List.mem_map.mp (by simp [isUri])
  refine ⟨run, isRun, localNode_buildsUris, ⟨_, rfl, by decide +kernel⟩, posted, isPosted, isUri, ?_⟩
  rintro ⟨target, ends, noQuery, reaches⟩
  have isTarget : target = utf8Bytes "/wallet/savings" := by
    have whole : utf8Bytes posted.uri = utf8Bytes localOrigin ++ utf8Bytes "/wallet/savings" := by
      rw [isUri, ← utf8Bytes_append]
      rfl
    exact List.append_cancel_left (ends.symm.trans whole)
  rw [isTarget] at reaches
  revert reaches
  decide +kernel

theorem posted_to_savings :
    ∃ run, (boundState "savings").proxyRequest [] paymentHttp = some run ∧
      (forwards run.log).length = 1 ∧
      ∀ posted ∈ forwards run.log, ReachesWallet localOrigin "savings" posted.uri := by
  have posts : ((boundState "savings").proxyRequest [] paymentHttp).map
      (fun run => (forwards run.log).length) = some 1 := by
    decide +kernel
  obtain ⟨run, isRun, once⟩ := Option.map_eq_some_iff.mp posts
  have bytes : utf8Bytes "savings" = [115, 97, 118, 105, 110, 103, 115] := by decide +kernel
  have plain : PlainName "savings" := by
    constructor <;> rw [bytes]
    · decide
    · decide
    · exact not_hasEscape_of_not_mem (by decide)
  have authenticates : Authenticates (boundState "savings") paymentHttp "pay"
      ((boundPayer "savings").mapDefault true) := ⟨_, rfl, by decide +kernel⟩
  have reaches := posted_to_wallet_iff localNode_buildsUris isRun authenticates rfl
  exact ⟨run, isRun, once, fun posted member => (reaches posted member).mpr plain⟩

end BtcRpcProxy
