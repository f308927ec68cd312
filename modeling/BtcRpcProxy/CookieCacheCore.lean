import Mathlib.Data.List.DropRight

/-!
The cookie cache of `Password::CookieFile` (`users.rs`): any number of
`cookie_password` calls over one cookie file and one shared cache. Each file system
call and each use of the lock is one step, so the file can be replaced between any two.
-/

namespace BtcRpcProxy

def splitOnce (separator : Char) : List Char → Option (List Char × List Char)
  | [] => none
  | first :: rest =>
      if first = separator then some ([], rest)
      else (splitOnce separator rest).map fun parts => (first :: parts.1, parts.2)

def passwordPart (contents : String) : Option String :=
  (splitOnce ':' (contents.toList.rdropWhile (· = '\n'))).map fun parts => String.ofList parts.2

namespace CookieCache

structure Version where
  mtime : Nat
  contents : String
  deriving DecidableEq, Repr

inductive Progress
  | started
  | statted (mtime : Option Nat)
  | missed
  | read (password : String)
  | restatted (mtime : Nat) (password : String)
  | done (password : Option String)
  deriving DecidableEq, Repr

/-- A call, with the mtime of the newest version there was when it started. -/
structure Call where
  since : Nat
  progress : Progress
  deriving DecidableEq, Repr

/-- `versions` records every version the file has had, the newest first. -/
structure State where
  file : Option Version
  versions : List Version
  cached : Option (Nat × String)
  calls : List Call
  deriving DecidableEq, Repr

def State.newest (state : State) : Nat := (state.versions.head?.map (·.mtime)).getD 0

/-- One step of `cookie_password` against the file and the cache: where the call
stands after it and what the cache holds. A returned call has no step. -/
def cookiePassword (file : Option Version) (cached : Option (Nat × String)) :
    Progress → Option (Progress × Option (Nat × String))
  | .started => some (.statted (file.map (·.mtime)), cached)
  | .statted mtime =>
      match mtime, cached with
      | some mtime, some (seen, password) =>
          if seen = mtime then some (.done (some password), cached) else some (.missed, cached)
      | _, _ => some (.missed, cached)
  | .missed =>
      match file with
      | none => some (.done none, cached)
      | some version =>
          match passwordPart version.contents with
          | none => some (.done none, cached)
          | some password => some (.read password, cached)
  | .read password =>
      match file with
      | none => some (.done (some password), cached)
      | some version => some (.restatted version.mtime password, cached)
  | .restatted mtime password => some (.done (some password), some (mtime, password))
  | .done _ => none

inductive Action
  | replace (version : Version)
  | remove
  | begin
  | advance (call : Nat)
  deriving DecidableEq, Repr

/-- A replacement gives the file a later mtime than any version had before. -/
def step (state : State) : Action → Option State
  | .replace version =>
      if state.versions.all (·.mtime < version.mtime) then
        some { state with file := some version, versions := version :: state.versions }
      else none
  | .remove => some { state with file := none }
  | .begin =>
      some { state with calls := state.calls ++ [{ since := state.newest, progress := .started }] }
  | .advance index =>
      match state.calls[index]? with
      | none => none
      | some call =>
          match cookiePassword state.file state.cached call.progress with
          | none => none
          | some (progress, cached) =>
              some { state with cached, calls := state.calls.set index { call with progress } }

def initial (file : Option Version) : State :=
  { file, versions := file.toList, cached := none, calls := [] }

end CookieCache

end BtcRpcProxy
