import BtcRpcProxy.RpcMethodsCore
import BtcRpcProxy.TextLines
import BtcRpcProxy.WalletPath

/-!
The users of the proxy as `create_state` builds them: those of the configuration, those of the
`rpcauth` lines of one file and the one of a cookie file.
-/

namespace BtcRpcProxy

open TextLines

/-- `char::is_whitespace`: the characters with the Unicode property. -/
def isWhitespace (char : Char) : Bool :=
  let code := char.toNat
  (9 ≤ code && code ≤ 13) || code == 0x20 || code == 0x85 || code == 0xA0 || code == 0x1680 ||
    (0x2000 ≤ code && code ≤ 0x200A) || code == 0x2028 || code == 0x2029 || code == 0x202F ||
    code == 0x205F || code == 0x3000

structure Config where
  user : List (String × InputUser)
  passthroughRpcauth : Option String
  passthroughRpccookie : Option String
  defaultFetchBlocks : Bool

/-- A map has one entry for each name. -/
def insertUser (users : List (String × InputUser)) (name : String) (user : InputUser) :
    List (String × InputUser) :=
  (name, user) :: users.filter fun entry => entry.1 != name

def userSaltHash (value : List Char) : Option (List Char × List Char × List Char) :=
  (splitOnce ':' value).bind fun parts =>
    (splitOnce '$' parts.2).map fun pass => (parts.1, pass.1, pass.2)

def rpcauthLine (line : List Char) : Option (List Char × List Char × List Char) :=
  (stripStart "rpcauth=".toList (trim isWhitespace line)).bind fun tok =>
    userSaltHash (trim isWhitespace tok)

/-- `fromHexError` is what the hex crate says of a text it does not decode. -/
def insertRpcauth (fromHexError : String → AnyhowError) (users : List (String × InputUser))
    (line : List Char) : Except AnyhowError (List (String × InputUser)) :=
  match rpcauthLine line with
  | none => .ok users
  | some (uname, salt, hash) =>
      match hexBytes hash with
      | none => .error (fromHexError (String.ofList hash))
      | some decoded =>
          .ok (insertUser users (String.ofList uname)
            { password := .hash (String.ofList salt) decoded,
              allowedCalls := none,
              fetchBlocks := none,
              overrideWallet := none })

def rpccookieLine (line : List Char) : Option (List Char × List Char) :=
  splitOnce ':' (trim isWhitespace line)

def insertRpccookie (conf : String) (users : List (String × InputUser)) (line : List Char) :
    List (String × InputUser) :=
  match rpccookieLine line with
  | none => users
  | some (uname, _) =>
      insertUser users (String.ofList uname)
        { password := .cookieFile conf,
          allowedCalls := none,
          fetchBlocks := none,
          overrideWallet := none }

def mapDefault (users : List (String × InputUser)) (defaultFetchBlocks : Bool) : Users :=
  users.map fun entry => (entry.1, entry.2.mapDefault defaultFetchBlocks)

section

variable (readToString : String → Except AnyhowError String)

def addRpcauth (fromHexError : String → AnyhowError) (users : List (String × InputUser)) :
    Option String → Except AnyhowError (List (String × InputUser))
  | none => .ok users
  | some conf =>
      match readToString conf with
      | .error error => .error error
      | .ok text => (lines text.toList).foldlM (insertRpcauth fromHexError) users

def addRpccookie (users : List (String × InputUser)) :
    Option String → Except AnyhowError (List (String × InputUser))
  | none => .ok users
  | some conf =>
      match readToString conf with
      | .error error => .error error
      | .ok text => .ok ((lines text.toList).foldl (insertRpccookie conf) users)

/-- What `create_state` puts into the `users` of the state, or the error it ends with there. -/
def createUsers (fromHexError : String → AnyhowError) (config : Config) : Except AnyhowError Users :=
  match addRpcauth readToString fromHexError config.user config.passthroughRpcauth with
  | .error error => .error error
  | .ok users =>
      match addRpccookie readToString users config.passthroughRpccookie with
      | .error error => .error error
      | .ok users => .ok (mapDefault users config.defaultFetchBlocks)

end

end BtcRpcProxy
