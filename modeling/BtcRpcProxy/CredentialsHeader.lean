import BtcRpcProxy.AuthSourceCore
import BtcRpcProxy.Base64
import BtcRpcProxy.PasswordComparison
import BtcRpcProxy.TextBytes

/-!
The `Authorization` header from both ends: what `AuthSource::from_config` writes for a user and a
password, `Users::get` takes apart again at the first colon.
-/

namespace BtcRpcProxy

/-- base64 decodes what it has encoded, and encodes to visible characters. -/
structure Credentials.EncodedBy (credentials : Credentials) (base64Encode : List UInt8 → String) : Prop where
  decodes : ∀ bytes, credentials.base64Decode (base64Encode bytes) = some bytes
  visible : ∀ bytes, ∀ char ∈ (base64Encode bytes).toList, Visible char

def Password.Matches (credentials : Credentials) (password : Password) (given : String) : Prop :=
  match password with
  | .cleartext stored => stored = given
  | .hash salt digest => credentials.hmacSha256 (utf8Bytes salt) (utf8Bytes given) = digest
  | .cookieFile path => credentials.cookiePassword path = some given

theorem compareKnown_eq_true {stored given : String} (isEqual : compareKnown stored given = some true) :
    stored = given := by
  rw [compareKnown_eq] at isEqual
  split at isEqual
  · simpa using isEqual
  · simp at isEqual

theorem eq_cookieFile (credentials : Credentials) (path given : String) :
    (Password.cookieFile path).eq credentials given =
      match credentials.cookiePassword path with
      | some stored => compareKnown stored given
      | none => some false := rfl

theorem matches_of_eq {credentials : Credentials} {password : Password} {given : String}
    (isEqual : password.eq credentials given = some true) : password.Matches credentials given := by
  cases password with
  | cleartext stored => exact compareKnown_eq_true isEqual
  | hash salt digest => exact beq_iff_eq.mp (Option.some.inj isEqual)
  | cookieFile path =>
      rw [eq_cookieFile] at isEqual
      split at isEqual
      · rename_i stored found
        rw [Password.Matches, found, compareKnown_eq_true isEqual]
      · simp at isEqual

theorem eq_of_given (credentials : Credentials) {given : String} (nonempty : given ≠ "")
    (password : Password) : ∃ isEqual, password.eq credentials given = some isEqual ∧
      (isEqual = true ↔ password.Matches credentials given) := by
  have known (stored : String) : compareKnown stored given = some (decide (stored = given)) := by
    rw [compareKnown_eq, if_pos (Or.inr nonempty)]
  cases password with
  | cleartext stored => exact ⟨_, known stored, by simp [Password.Matches]⟩
  | hash salt digest => exact ⟨_, rfl, by simp [Password.Matches]⟩
  | cookieFile path =>
      rw [eq_cookieFile]
      cases found : credentials.cookiePassword path with
      | none => exact ⟨false, rfl, by simp [Password.Matches, found]⟩
      | some stored => exact ⟨_, known stored, by simp [Password.Matches, found]⟩

/-! Reading a header. -/

theorem toList_ofList_append_colon (name given : String) :
    (name ++ ":" ++ given).toList = name.toList ++ ':' :: given.toList := by
  simp [String.toList_append]

theorem readCredentials_eq_some {credentials : Credentials} {header : HeaderValue} {name given : String}
    (read : readCredentials credentials header = some (name, given)) :
    ∃ encoded, header = utf8Bytes ("Basic " ++ encoded) ∧
      credentials.base64Decode encoded = some (utf8Bytes (name ++ ":" ++ given)) ∧ ':' ∉ name.toList := by
  unfold readCredentials at read
  split at read
  · simp at read
  · rename_i encoded isEncoded
    obtain ⟨text, isText, isStart⟩ := Option.bind_eq_some_iff.mp isEncoded
    split at read
    · simp at read
    · rename_i decoded isDecoded
      obtain ⟨bytes, isBytes, isText'⟩ := Option.bind_eq_some_iff.mp isDecoded
      simp only [Option.map_eq_some_iff, Prod.exists, Prod.mk.injEq] at read
      obtain ⟨before, after, split, rfl, rfl⟩ := read
      obtain ⟨isSplit, noColon⟩ := splitOnce_eq_some_iff.mp split
      refine ⟨String.ofList encoded, ?_, ?_, by simpa using noColon⟩
      · rw [bytes_of_headerText isText, stripStart_eq_some_iff.mp isStart, String.ofList_append]
        rfl
      · have whole : decoded = String.ofList before ++ ":" ++ String.ofList after := by
          rw [← String.toList_inj, isSplit, toList_ofList_append_colon]
          simp
        rw [isBytes, ← fromUtf8_eq_some_iff.mp isText', whole]

theorem basic_visible {credentials : Credentials} {base64Encode : List UInt8 → String}
    (encoded : credentials.EncodedBy base64Encode) (bytes : List UInt8) :
    ∀ char ∈ ("Basic " ++ base64Encode bytes).toList, Visible char := by
  intro char member
  rw [String.toList_append, List.mem_append] at member
  rcases member with start | digits
  · have isVisible : ("Basic ".toList.all fun char => decide (Visible char)) = true := by decide
    exact of_decide_eq_true (List.all_eq_true.mp isVisible char start)
  · exact encoded.visible bytes char digits

theorem readCredentials_written {credentials : Credentials} {base64Encode : List UInt8 → String}
    (encoded : credentials.EncodedBy base64Encode) {name : String} (noColon : ':' ∉ name.toList)
    (given : String) :
    readCredentials credentials (utf8Bytes ("Basic " ++ base64Encode (utf8Bytes (name ++ ":" ++ given)))) =
      some (name, given) := by
  have text := headerText_utf8Bytes (basic_visible encoded (utf8Bytes (name ++ ":" ++ given)))
  rw [String.toList_append] at text
  have start := stripStart_eq_some_iff.mpr
    (rfl : "Basic ".toList ++ (base64Encode (utf8Bytes (name ++ ":" ++ given))).toList = _)
  have decoded := fromUtf8_eq_some_iff.mpr (rfl : utf8Bytes (name ++ ":" ++ given) = _)
  have parts := splitOnce_eq_some_iff.mpr ⟨toList_ofList_append_colon name given, noColon⟩
  simp only [readCredentials, text, Option.bind_some, start, String.ofList_toList, encoded.decodes, decoded,
    parts, Option.map_some]

/-! Writing a header. -/

theorem parseHeaderValue_of_visible {text : String} (visible : ∀ char ∈ text.toList, Visible char) :
    parseHeaderValue text = .ok (utf8Bytes text) := by
  have read := headerText_utf8Bytes visible
  unfold headerText at read
  split at read
  · rename_i all
    refine if_pos (List.all_eq_true.mpr fun byte member => ?_)
    have isVisible := List.all_eq_true.mp all byte member
    simp only [Bool.or_eq_true, Bool.and_eq_true, decide_eq_true_eq, beq_iff_eq, bne_iff_ne] at isVisible ⊢
    rcases isVisible with ⟨low, high⟩ | isTab
    · exact Or.inl ⟨low, fun isDelete => absurd (isDelete ▸ high) (by decide)⟩
    · exact Or.inr isTab
  · simp at read

theorem get_of_read {credentials : Credentials} {header : HeaderValue} {username password : String}
    (read : readCredentials credentials header = some (username, password)) (nonempty : password ≠ "")
    (users : Users) :
    (∀ name user, users.get credentials header = some (some (name, user)) ↔
      name = username ∧ users.lookup username = some user ∧ user.password.Matches credentials password) ∧
    ((∀ user, users.lookup username = some user → ¬user.password.Matches credentials password) →
      users.get credentials header = some none) := by
  simp only [Users.get, read]
  cases found : users.lookup username with
  | none => simp
  | some user =>
      obtain ⟨isEqual, compared, isMatch⟩ := eq_of_given credentials nonempty user.password
      simp only [compared, Option.map_some, Option.some.injEq, forall_eq', ← isMatch]
      constructor
      · intro name other
        constructor
        · intro got
          split at got
          · rename_i equal
            simp only [Option.some.injEq, Prod.mk.injEq] at got
            exact ⟨got.1.symm, got.2, got.2 ▸ isMatch.mp equal⟩
          · simp at got
        · rintro ⟨rfl, rfl, isOther⟩
          rw [if_pos (isMatch.mpr isOther)]
      · intro noMatch
        rw [if_neg noMatch]

theorem read_of_get {credentials : Credentials} {users : Users} {header : HeaderValue} {name : String}
    {user : User} (got : users.get credentials header = some (some (name, user))) :
    ∃ given, readCredentials credentials header = some (name, given) ∧ users.lookup name = some user ∧
      user.password.Matches credentials given := by
  unfold Users.get at got
  split at got
  · simp at got
  · rename_i readName given read
    split at got
    · simp at got
    · rename_i entry found
      obtain ⟨isEqual, compared, isGot⟩ := Option.map_eq_some_iff.mp got
      split at isGot
      · rename_i equal
        simp only [Option.some.injEq, Prod.mk.injEq] at isGot
        obtain ⟨rfl, rfl⟩ := isGot
        exact ⟨given, read, found, matches_of_eq (compared.trans (congrArg some equal))⟩
      · simp at isGot

/-- A user and a password survive the header: `get` compares the password with that of the user, and
whatever it finds is the entry for what stands before the first colon. -/
theorem users_get_survives_header (credentials : Credentials) (base64Encode : List UInt8 → String)
    (encoded : credentials.EncodedBy base64Encode) (users : Users) :
    (∀ username password, ':' ∉ username.toList → password ≠ "" → ∃ header,
      AuthSource.fromConfig base64Encode (some username) (some password) none =
        .ok (.const username password header) ∧
      (∀ name user, users.get credentials header = some (some (name, user)) ↔
        name = username ∧ users.lookup username = some user ∧ user.password.Matches credentials password) ∧
      ((∀ user, users.lookup username = some user → ¬user.password.Matches credentials password) →
        users.get credentials header = some none)) ∧
    ∀ header name user, users.get credentials header = some (some (name, user)) →
      ∃ text given, header = utf8Bytes ("Basic " ++ text) ∧
        credentials.base64Decode text = some (utf8Bytes (name ++ ":" ++ given)) ∧ ':' ∉ name.toList ∧
        users.lookup name = some user ∧ user.password.Matches credentials given := by
  constructor
  · intro username password noColon nonempty
    refine ⟨utf8Bytes ("Basic " ++ base64Encode (utf8Bytes (username ++ ":" ++ password))), ?_, ?_⟩
    · simp only [AuthSource.fromConfig, parseHeaderValue_of_visible (basic_visible encoded _)]
    · exact get_of_read (readCredentials_written encoded noColon password) nonempty users
  · intro header name user got
    obtain ⟨given, read, found, isMatch⟩ := read_of_get got
    obtain ⟨text, isHeader, decoded, noColon⟩ := readCredentials_eq_some read
    exact ⟨text, given, isHeader, decoded, noColon, found, isMatch⟩

/-! A password with a colon in it. -/

def base64Credentials : Credentials :=
  { cookiePassword := fun _ => none,
    hmacSha256 := fun _ _ => [],
    base64Decode := fun text => Base64.decode text.toList }

def base64Encode (bytes : List UInt8) : String := String.ofList (Base64.encode bytes)

theorem base64Credentials_encoded : base64Credentials.EncodedBy base64Encode := by
  constructor
  · intro bytes
    simp [base64Credentials, base64Encode, Base64.decode_encode]
  · intro bytes char member
    rw [base64Encode, String.toList_ofList] at member
    obtain ⟨low, high⟩ := Base64.encode_visible bytes char member
    exact ⟨by omega, high⟩

theorem users_get_password_with_colon :
    let alice : User :=
      { password := .cleartext "pass:word", allowedCalls := none, fetchBlocks := false, overrideWallet := none }
    ∃ header, AuthSource.fromConfig base64Encode (some "alice") (some "pass:word") none =
        .ok (.const "alice" "pass:word" header) ∧
      Users.get [("alice", alice)] base64Credentials header = some (some ("alice", alice)) := by
  intro alice
  obtain ⟨header, isHeader, got, _⟩ := (users_get_survives_header base64Credentials base64Encode
    base64Credentials_encoded [("alice", alice)]).1 "alice" "pass:word" (by decide) (by decide)
  exact ⟨header, isHeader, (got "alice" alice).mpr ⟨rfl, rfl, rfl⟩⟩

end BtcRpcProxy
