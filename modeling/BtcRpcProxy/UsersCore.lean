import BtcRpcProxy.CookieCacheCore
import BtcRpcProxy.InterceptCore

/-!
`Users::get`: who an `Authorization` header stands for, down to the comparison of the
password. `none` is a panic.
-/

namespace BtcRpcProxy

/-- What a comparison rests on: the password in a cookie file at that moment, and the two
crates for HMAC-SHA256 and base64. -/
structure Credentials where
  cookiePassword : String → Option String
  hmacSha256 : List UInt8 → List UInt8 → List UInt8
  base64Decode : String → Option (List UInt8)

def utf8Bytes (text : String) : List UInt8 := text.toUTF8.data.toList

def fromUtf8 (bytes : List UInt8) : Option String := String.fromUTF8? ⟨bytes.toArray⟩

/-- Each stored byte against the supplied one at its place, taken round and round. The
remainder is by zero when nothing is supplied. -/
def xorFrom (supplied : List UInt8) : Nat → List UInt8 → Nat → Option Nat
  | _, [], accumulated => some accumulated
  | place, byte :: rest, accumulated =>
      match supplied[place % supplied.length]? with
      | some other => xorFrom supplied (place + 1) rest (accumulated ||| (byte ^^^ other).toNat)
      | none => none

def xorContents (stored supplied : List UInt8) : Option Nat :=
  xorFrom supplied 0 stored (stored.length ^^^ supplied.length)

def Password.eq (credentials : Credentials) (password : Password) (other : String) : Option Bool :=
  match password with
  | .cleartext stored =>
      if stored.isEmpty then some other.isEmpty
      else (xorContents (utf8Bytes stored) (utf8Bytes other)).map fun bits => bits == 0
  | .hash salt digest => some (credentials.hmacSha256 (utf8Bytes salt) (utf8Bytes other) == digest)
  | .cookieFile path =>
      match credentials.cookiePassword path with
      | some stored =>
          if stored.isEmpty then some other.isEmpty
          else (xorContents (utf8Bytes stored) (utf8Bytes other)).map fun bits => bits == 0
      | none => some false

/-- `HeaderValue::to_str`: visible ASCII only. -/
def headerText (header : HeaderValue) : Option (List Char) :=
  if header.all fun byte => (32 ≤ byte && byte < 127) || byte == 9 then
    some (header.map fun byte => Char.ofNat byte.toNat)
  else none

def stripStart : List Char → List Char → Option (List Char)
  | [], text => some text
  | _ :: _, [] => none
  | expected :: start, char :: text => if expected = char then stripStart start text else none

def readCredentials (credentials : Credentials) (header : HeaderValue) : Option (String × String) :=
  match (headerText header).bind (stripStart "Basic ".toList) with
  | none => none
  | some encoded =>
      match (credentials.base64Decode (String.ofList encoded)).bind fromUtf8 with
      | none => none
      | some decoded =>
          (splitOnce ':' decoded.toList).map fun parts =>
            (String.ofList parts.1, String.ofList parts.2)

abbrev Users := List (String × User)

def Users.get (users : Users) (credentials : Credentials) (header : HeaderValue) :
    Option (Option (String × User)) :=
  match readCredentials credentials header with
  | none => some none
  | some (name, password) =>
      match users.lookup name with
      | none => some none
      | some user =>
          (user.password.eq credentials password).map fun isEqual =>
            if isEqual then some (name, user) else none

end BtcRpcProxy
