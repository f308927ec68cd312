import BtcRpcProxy.Interleaving
import BtcRpcProxy.UsersCore

/-!
`AuthSource`: how the proxy authenticates to bitcoind (`client.rs`), with a configured user and
password or with a cookie file that any number of `try_load` calls follow. Each file system call
and each use of the lock is one step, so the file can be replaced between any two. base64 encoding
is a parameter.
-/

namespace BtcRpcProxy

def invalidHeaderValue : String := "failed to parse header value"

/-- `HeaderValue::from_str`. -/
def parseHeaderValue (text : String) : Except String HeaderValue :=
  if (utf8Bytes text).all fun byte => (32 ≤ byte && byte != 127) || byte == 9 then .ok (utf8Bytes text)
  else .error invalidHeaderValue

inductive AuthSource
  | const (username password : String) (header : HeaderValue)
  | cookieFile (path : String)

namespace AuthSource

def fromConfig (base64Encode : List UInt8 → String) :
    Option String → Option String → Option String → Except AnyhowError AuthSource
  | some username, some password, none =>
      match parseHeaderValue ("Basic " ++ base64Encode (utf8Bytes (username ++ ":" ++ password))) with
      | .ok header => .ok (.const username password header)
      | .error error => .error ⟨[error]⟩
  | none, none, some path => .ok (.cookieFile path)
  | none, none, none => .error ⟨["missing authentication information"]⟩
  | _, _, _ =>
      .error ⟨["either a password and possibly a username or a cookie file must be specified"]⟩

/-- Without the newline at its end, in base64. -/
def loadFromFile (base64Encode : List UInt8 → String) (contents : List UInt8) : Option String :=
  if (fromUtf8 contents).isSome then
    some (base64Encode (if contents.getLast? = some 10 then contents.dropLast else contents))
  else none

end AuthSource

/-! `AuthSource::try_load` on a cookie file. -/

namespace CookieFile

structure Version where
  mtime : Nat
  contents : List UInt8
  deriving DecidableEq, Repr

/-- `versions` records every version the file has had, the newest first. -/
structure Shared where
  file : Option Version
  versions : List Version
  cached : Option (Nat × HeaderValue)
  deriving DecidableEq, Repr

inductive Progress
  | started
  | cacheRead (cache : Option (Nat × HeaderValue))
  | statted (modified : Nat)
  | loaded (modified : Nat) (header : HeaderValue)
  | done (result : Except AuthLoadError HeaderValue)
  deriving DecidableEq

structure Moment where
  file : Option Version
  versions : List Version
  deriving DecidableEq, Repr

/-- A call, with the moments of its first and its latest step. -/
structure Call where
  progress : Progress
  first : Moment
  latest : Moment
  deriving DecidableEq

/-- `failed` is any error of the operating system. -/
inductive Event
  | proceed
  | failed (error : AuthLoadError)

def load (base64Encode : List UInt8 → String) (path : String) (contents : List UInt8) :
    Except AuthLoadError HeaderValue :=
  match AuthSource.loadFromFile base64Encode contents with
  | none => .error (.read path "stream did not contain valid UTF-8")
  | some encoded => (parseHeaderValue ("Basic " ++ encoded)).mapError .headerValue

/-- One step against the file and the cache: where the call stands after it, and what is cached. -/
def tryLoad (base64Encode : List UInt8 → String) (path : String) (file : Option Version)
    (cached : Option (Nat × HeaderValue)) (progress : Progress) :
    Event → Option (Progress × Option (Nat × HeaderValue))
  | .proceed =>
      match progress, file with
      | .started, _ => some (.cacheRead cached, cached)
      | .cacheRead (some (seen, header)), some version =>
          if version.mtime = seen then some (.done (.ok header), cached)
          else some (.statted version.mtime, cached)
      | .cacheRead none, some version => some (.statted version.mtime, cached)
      | .statted modified, some version =>
          match load base64Encode path version.contents with
          | .ok header => some (.loaded modified header, cached)
          | .error error => some (.done (.error error), cached)
      | .loaded modified header, _ => some (.done (.ok header), some (modified, header))
      | _, _ => none
  | .failed error =>
      match progress with
      | .cacheRead _ => some (.done (.error error), cached)
      | .statted _ => some (.done (.error error), cached)
      | _ => none

def Shared.moment (shared : Shared) : Moment := { file := shared.file, versions := shared.versions }

def Call.record (call : Call) (shared : Shared) (progress : Progress) : Call :=
  { progress,
    first := if call.progress = .started then shared.moment else call.first,
    latest := shared.moment }

inductive Change
  | replace (version : Version)
  | remove

/-- A replacement gives the file a later mtime than any version had before. -/
def Shared.change (shared : Shared) : Change → Option Shared
  | .replace version =>
      if shared.versions.all (·.mtime < version.mtime) then
        some { shared with file := some version, versions := version :: shared.versions }
      else none
  | .remove => some { shared with file := none }

def Shared.new (file : Option Version) : Shared := { file, versions := file.toList, cached := none }

def system (base64Encode : List UInt8 → String) (path : String) :
    Interleaved.System Shared Call Unit Event Change :=
  { start := fun _ =>
      let never : Moment := { file := none, versions := [] }
      { progress := .started, first := never, latest := never },
    advance := fun shared call event =>
      (tryLoad base64Encode path shared.file shared.cached call.progress event).map fun moved =>
        ({ shared with cached := moved.2 }, call.record shared moved.1),
    outside := Shared.change }

end CookieFile

end BtcRpcProxy
