import BtcRpcProxy.CookieCache
import BtcRpcProxy.UsersCore

/-!
The comparison of a supplied password with a stored one: the xor of the two byte strings is
zero exactly for equal ones, and cannot be taken where nothing is supplied.
-/

namespace BtcRpcProxy

theorem utf8Bytes_injective {first second : String} (same : utf8Bytes first = utf8Bytes second) :
    first = second := by
  refine String.toByteArray_inj.mp (ByteArray.ext ?_)
  exact Array.toList_inj.mp same

theorem utf8Bytes_eq_nil {text : String} : utf8Bytes text = [] ↔ text = "" := by
  constructor
  · intro isNil
    exact utf8Bytes_injective (isNil.trans rfl)
  · rintro rfl
    rfl

/-! The fold over the xors. -/

theorem xor_eq_zero_iff {left right : Nat} : left ^^^ right = 0 ↔ left = right := by
  constructor
  · intro isZero
    have cancelled := congrArg (· ^^^ right) isZero
    simpa [Nat.xor_assoc] using cancelled
  · rintro rfl
    exact Nat.xor_self left

theorem byte_xor_eq_zero_iff {left right : UInt8} : (left ^^^ right).toNat = 0 ↔ left = right :=
  UInt8.toNat_xor left right ▸ xor_eq_zero_iff.trans UInt8.toNat_inj

theorem forall_lt_succ_iff {holds : Nat → Prop} {bound : Nat} :
    (∀ index < bound + 1, holds index) ↔ holds 0 ∧ ∀ index < bound, holds (index + 1) := by
  constructor
  · intro all
    exact ⟨all 0 (by omega), fun index below => all (index + 1) (by omega)⟩
  · rintro ⟨first, later⟩ (_ | index) below
    · exact first
    · exact later index (by omega)

theorem xorFrom_spec {supplied : List UInt8} (given : supplied ≠ []) (stored : List UInt8)
    (place accumulated : Nat) :
    ∃ bits, xorFrom supplied place stored accumulated = some bits ∧
      (bits = 0 ↔ accumulated = 0 ∧ ∀ index < stored.length,
        stored[index]? = supplied[(place + index) % supplied.length]?) := by
  induction stored generalizing place accumulated with
  | nil => exact ⟨accumulated, rfl, by simp⟩
  | cons byte rest ih =>
      have inRange : place % supplied.length < supplied.length :=
        Nat.mod_lt _ (List.length_pos_iff.mpr given)
      obtain ⟨bits, run, isZero⟩ := ih (place + 1)
        (accumulated ||| (byte ^^^ supplied[place % supplied.length]).toNat)
      refine ⟨bits, ?_, ?_⟩
      · simp only [xorFrom, List.getElem?_eq_getElem inRange]
        exact run
      · rw [isZero, Nat.or_eq_zero_iff, byte_xor_eq_zero_iff, List.length_cons, forall_lt_succ_iff]
        simp only [List.getElem?_cons_zero, List.getElem?_cons_succ, Nat.add_zero,
          List.getElem?_eq_getElem inRange, Option.some.injEq, and_assoc, Nat.add_right_comm place,
          Nat.add_assoc]

theorem xorContents_spec {supplied : List UInt8} (given : supplied ≠ []) (stored : List UInt8) :
    ∃ bits, xorContents stored supplied = some bits ∧ (bits = 0 ↔ stored = supplied) := by
  obtain ⟨bits, run, isZero⟩ := xorFrom_spec given stored 0 (stored.length ^^^ supplied.length)
  refine ⟨bits, run, ?_⟩
  rw [isZero, xor_eq_zero_iff]
  constructor
  · rintro ⟨sameLength, agree⟩
    refine List.ext_getElem? fun index => ?_
    by_cases inRange : index < stored.length
    · rw [agree index inRange, Nat.zero_add, Nat.mod_eq_of_lt (sameLength ▸ inRange)]
    · rw [List.getElem?_eq_none (by omega), List.getElem?_eq_none (by omega)]
  · rintro rfl
    refine ⟨rfl, fun index inRange => ?_⟩
    rw [Nat.zero_add, Nat.mod_eq_of_lt inRange]

theorem xorContents_nil {stored : List UInt8} (nonempty : stored ≠ []) : xorContents stored [] = none := by
  obtain ⟨byte, rest, rfl⟩ := List.exists_cons_of_ne_nil nonempty
  rfl

def compareKnown (stored other : String) : Option Bool :=
  if stored.isEmpty then some other.isEmpty
  else (xorContents (utf8Bytes stored) (utf8Bytes other)).map fun bits => bits == 0

theorem compareKnown_eq (stored other : String) :
    compareKnown stored other = if stored = "" ∨ other ≠ "" then some (decide (stored = other)) else none := by
  unfold compareKnown
  by_cases storedEmpty : stored = ""
  · have isEmpty : other.isEmpty = decide ("" = other) := by
      rw [Bool.eq_iff_iff, String.isEmpty_iff, decide_eq_true_iff, eq_comm]
    simp [storedEmpty, isEmpty]
  · have notEmpty : stored.isEmpty = false := by simpa using storedEmpty
    rw [notEmpty]
    by_cases otherEmpty : other = ""
    · have nonempty : utf8Bytes stored ≠ [] := fun isNil => storedEmpty (utf8Bytes_eq_nil.mp isNil)
      simp [otherEmpty, storedEmpty, utf8Bytes_eq_nil.mpr, xorContents_nil nonempty]
    · have given : utf8Bytes other ≠ [] := fun isNil => otherEmpty (utf8Bytes_eq_nil.mp isNil)
      obtain ⟨bits, run, isZero⟩ := xorContents_spec given (utf8Bytes stored)
      have same : utf8Bytes stored = utf8Bytes other ↔ stored = other :=
        ⟨utf8Bytes_injective, congrArg utf8Bytes⟩
      simp [run, otherEmpty, Bool.beq_eq_decide_eq, isZero, same]

/-! The password of a cookie file. -/

/-- What one `cookie_password` call meets: the file's mtime and contents, its mtime after they
were read, and what the password has cached. -/
structure CookieRead where
  modified : Option Nat
  contents : Option String
  modifiedAfter : Option Nat
  cached : Option (Nat × String)

namespace CookieRead

def hit (read : CookieRead) : Option String :=
  match read.modified, read.cached with
  | some mtime, some (seen, password) => if seen = mtime then some password else none
  | _, _ => none

/-- The whole of `cookie_password`, with what is cached after it. -/
def cookiePassword (read : CookieRead) : Option String × Option (Nat × String) :=
  match read.hit with
  | some password => (some password, read.cached)
  | none =>
      match read.contents.bind passwordPart with
      | none => (none, read.cached)
      | some password =>
          match read.modifiedAfter with
          | some mtime => (some password, some (mtime, password))
          | none => (some password, read.cached)

/-- What follows the first colon in the file, without the newlines at its end. -/
def held (read : CookieRead) : Option String :=
  read.contents.bind fun contents =>
    (splitOnce ':' contents.toList).map fun parts => String.ofList (parts.2.rdropWhile (· = '\n'))

end CookieRead

theorem rdropWhile_cons (drops : Char → Bool) (first : Char) (rest : List Char) :
    (first :: rest).rdropWhile drops =
      if rest.rdropWhile drops = [] ∧ drops first = true then [] else first :: rest.rdropWhile drops := by
  simp only [List.rdropWhile, List.reverse_cons, List.dropWhile_append, List.reverse_eq_nil_iff]
  by_cases isEmpty : rest.reverse.dropWhile drops = []
  · by_cases dropped : drops first = true <;> simp [isEmpty, dropped]
  · simp [isEmpty]

theorem splitOnce_rdropWhile {separator : Char} {drops : Char → Bool} (kept : drops separator = false)
    (text : List Char) :
    splitOnce separator (text.rdropWhile drops) =
      (splitOnce separator text).map fun parts => (parts.1, parts.2.rdropWhile drops) := by
  induction text with
  | nil => simp [splitOnce]
  | cons first rest ih =>
      rw [rdropWhile_cons]
      by_cases isSeparator : first = separator
      · simp [isSeparator, kept, splitOnce]
      · by_cases dropped : rest.rdropWhile drops = [] ∧ drops first = true
        · rw [dropped.1] at ih
          have missing : splitOnce separator rest = none := by
            simpa [splitOnce, eq_comm] using ih
          rw [if_pos dropped]
          simp [splitOnce, isSeparator, missing]
        · rw [if_neg dropped]
          simp [splitOnce, isSeparator, ih, Function.comp_def]

theorem bind_passwordPart (read : CookieRead) : read.contents.bind passwordPart = read.held := by
  have part (contents : String) : passwordPart contents =
      (splitOnce ':' contents.toList).map fun parts => String.ofList (parts.2.rdropWhile (· = '\n')) := by
    rw [passwordPart, splitOnce_rdropWhile (by decide), Option.map_map]
    rfl
  simp only [CookieRead.held, part]

section

open CookieCache Runs

def stepOn (state : Progress × Option (Nat × String)) (file : Option Version) :
    Option (Progress × Option (Nat × String)) :=
  cookiePassword file state.2 state.1

def CookieRead.ofFiles (first second third : Option Version) (cached : Option (Nat × String)) : CookieRead :=
  { modified := first.map (·.mtime),
    contents := second.map (·.contents),
    modifiedAfter := third.map (·.mtime),
    cached }

variable (first second third : Option Version) (cached : Option (Nat × String))

theorem stat_steps : runFrom stepOn (.started, cached) [first, first] =
    match (CookieRead.ofFiles first second third cached).hit with
    | some password => some (.done (some password), cached)
    | none => some (.missed, cached) := by
  cases first with
  | none => rfl
  | some version =>
      cases cached with
      | none => rfl
      | some entry =>
          simp only [runFrom, stepOn, cookiePassword, Option.map_some, CookieRead.hit, CookieRead.ofFiles]
          by_cases same : entry.1 = version.mtime <;> simp [same]

theorem read_steps (missed : (CookieRead.ofFiles first second third cached).hit = none) :
    ∃ count, runFrom stepOn (.missed, cached) ([second, third, third].take count) =
      some (.done (CookieRead.ofFiles first second third cached).cookiePassword.1,
        (CookieRead.ofFiles first second third cached).cookiePassword.2) := by
  unfold CookieRead.cookiePassword
  rw [missed]
  cases second with
  | none => exact ⟨1, rfl⟩
  | some version =>
      cases part : passwordPart version.contents with
      | none => exact ⟨1, by simp [runFrom, stepOn, cookiePassword, CookieRead.ofFiles, part]⟩
      | some password =>
          cases third with
          | none => exact ⟨2, by simp [runFrom, stepOn, cookiePassword, CookieRead.ofFiles, part]⟩
          | some later => exact ⟨3, by simp [runFrom, stepOn, cookiePassword, CookieRead.ofFiles, part]⟩

/-- The steps of `cookie_password` come to the same, whatever becomes of the file between them. -/
theorem cookiePassword_of_steps :
    ∃ count, runFrom stepOn (.started, cached) ([first, first] ++ [second, third, third].take count) =
      some (.done (CookieRead.ofFiles first second third cached).cookiePassword.1,
        (CookieRead.ofFiles first second third cached).cookiePassword.2) := by
  have statted := stat_steps first second third cached
  cases hit : (CookieRead.ofFiles first second third cached).hit with
  | some password =>
      refine ⟨0, ?_⟩
      rw [runFrom_append, statted, CookieRead.cookiePassword, hit]
      rfl
  | none =>
      obtain ⟨count, read⟩ := read_steps first second third cached hit
      refine ⟨count, ?_⟩
      rw [runFrom_append, statted, hit]
      exact read

end

theorem hit_of_followsFile {state : CookieCache.State} (follows : CookieCache.FollowsFile state)
    (read : CookieRead) (modified : read.modified = state.file.map (·.mtime))
    (contents : read.contents = state.file.map (·.contents)) (cached : read.cached = state.cached)
    {password : String} (hit : read.hit = some password) : read.held = some password := by
  rw [← bind_passwordPart, contents]
  rw [CookieRead.hit, modified, cached] at hit
  cases isFile : state.file with
  | none => simp [isFile] at hit
  | some version =>
      cases isCached : state.cached with
      | none => simp [isFile, isCached] at hit
      | some entry =>
          simp only [isFile, isCached, Option.map_some, Option.ite_none_right_eq_some] at hit
          have part := follows.1 entry.1 entry.2 version isCached isFile hit.1.symm
          rw [Option.map_some, Option.bind_some, part, hit.2]

theorem cookiePassword_fst (read : CookieRead) : read.cookiePassword.1 = read.hit.or read.held := by
  unfold CookieRead.cookiePassword
  rw [bind_passwordPart]
  cases read.hit with
  | some password => rfl
  | none =>
      cases read.held with
      | none => rfl
      | some password => cases read.modifiedAfter <;> rfl

/-! Stored passwords. -/

section

variable (reads : String → CookieRead) (hmacSha256 : List UInt8 → List UInt8 → List UInt8)
variable (base64Decode : String → Option (List UInt8))

def Credentials.reading : Credentials :=
  { cookiePassword := fun path => (reads path).cookiePassword.1, hmacSha256, base64Decode }

def Password.ComparesRight (password : Password) (other : String) : Prop :=
  match password with
  | .cleartext stored =>
      password.eq (Credentials.reading reads hmacSha256 base64Decode) other =
        some (decide (stored = other))
  | .hash _ _ => password.eq (Credentials.reading reads hmacSha256 base64Decode) other ≠ none
  | .cookieFile path =>
      password.eq (Credentials.reading reads hmacSha256 base64Decode) other =
        some (decide ((reads path).held = some other))

/-- What is compared is empty, or is compared with something, and what is cached is the file's own password or the
supplied string is neither of the two. -/
def Password.Comparable (password : Password) (other : String) : Prop :=
  match password with
  | .cleartext stored => stored = "" ∨ other ≠ ""
  | .hash _ _ => True
  | .cookieFile path =>
      match (reads path).hit with
      | some cached => (cached = "" ∨ other ≠ "") ∧
          ((reads path).held = some cached ∨ (other ≠ cached ∧ (reads path).held ≠ some other))
      | none => ∀ held, (reads path).held = some held → held = "" ∨ other ≠ ""

end

theorem answersAlike_iff {cached other : String} {held : Option String} :
    (cached = other ↔ held = some other) ↔ held = some cached ∨ (other ≠ cached ∧ held ≠ some other) := by
  by_cases current : held = some cached
  · simp [current]
  · refine ⟨fun alike => Or.inr ?_, ?_⟩
    · have differs : other ≠ cached := fun same => current ((alike.mp same.symm).trans (congrArg some same))
      exact ⟨differs, fun isHeld => differs (alike.mpr isHeld).symm⟩
    · rintro (isCurrent | ⟨differs, notHeld⟩)
      · exact absurd isCurrent current
      · exact iff_of_false (fun same => differs same.symm) notHeld

/-- A comparison is right exactly where the remainder is not by zero and the cache is not
behind the file. -/
theorem comparesRight_iff (reads : String → CookieRead)
    (hmacSha256 : List UInt8 → List UInt8 → List UInt8) (base64Decode : String → Option (List UInt8))
    (password : Password) (other : String) :
    password.ComparesRight reads hmacSha256 base64Decode other ↔ password.Comparable reads other := by
  cases password with
  | cleartext stored =>
      change compareKnown stored other = _ ↔ _
      rw [compareKnown_eq]
      split
      · rename_i comparable
        simp [Password.Comparable, comparable]
      · rename_i notComparable
        simp [Password.Comparable, notComparable]
  | hash salt digest => simp [Password.ComparesRight, Password.Comparable, Password.eq]
  | cookieFile path =>
      have isEq : (Password.cookieFile path).eq (Credentials.reading reads hmacSha256 base64Decode) other =
          match (reads path).hit.or (reads path).held with
          | some stored => compareKnown stored other
          | none => some false := by
        rw [← cookiePassword_fst]
        rfl
      simp only [Password.ComparesRight, Password.Comparable, isEq]
      cases hit : (reads path).hit with
      | some cached =>
          simp only [Option.some_or, compareKnown_eq]
          split
          · rename_i comparable
            rw [Option.some.injEq, decide_eq_decide, answersAlike_iff]
            simp [comparable]
          · rename_i notComparable
            simp [notComparable]
      | none =>
          cases held : (reads path).held with
          | none => simp
          | some stored =>
              simp only [Option.none_or, compareKnown_eq]
              split
              · rename_i comparable
                simp [comparable]
              · rename_i notComparable
                simp [notComparable]

theorem empty_password_panics :
    let reads : String → CookieRead := fun _ =>
      { modified := none, contents := none, modifiedAfter := none, cached := none }
    (Password.cleartext "secret").eq (Credentials.reading reads (fun _ _ => []) fun _ => none) "" = none ∧
      ¬(Password.cleartext "secret").ComparesRight reads (fun _ _ => []) (fun _ => none) "" := by
  have panics : compareKnown "secret" "" = none := by
    rw [compareKnown_eq]
    decide
  refine ⟨panics, ?_⟩
  intro right
  have compared : compareKnown "secret" "" = some false := right
  simp [panics] at compared

end BtcRpcProxy
